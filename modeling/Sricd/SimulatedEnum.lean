import Sricd.EnumSteps
import Sricd.SimulatedRing

/-!
# Enumeration of the simulated bus

The course of enumeration where the daemon and `ostric` take turns. The
way of a frame is one step here: it is written, `ostric` processes it and
moves its token, and the daemon receives the first of the acks that are
written in answer. What the daemon and `ostric` do one after the other is
in `Bench`, which refines this as long as they do take turns.
-/

namespace Sricd

open Sricd.Lib

/-- The daemon's enumeration, and the bus. -/
structure Simulation where
  enum : EnumBus
  bus : OstricBus

inductive SimulationEvent where
  | start
  /-- the oldest frame is written, and `ostric` processes it -/
  | deliver
  /-- nothing arrives, and `advance_token` is called again -/
  | prod
  | timeout (t : EnumTimer)

/-- The acks for the daemon, in what is written. -/
def acks (out : List (List Byte)) : List PackedFrame :=
  (heard out).filter fun p => p.forMe && p.isAck

/-- What processes a frame, or lets time pass. -/
def SimulationEvent.works : SimulationEvent → Bool
  | .deliver | .timeout _ => true
  | .start | .prod => false

namespace Simulation

def init (d : Devices) (n : Nat) : Simulation := ⟨.init d, .init n⟩

def enumStep (s : Simulation) (ev : EnumBusEvent) : Except Halt (Simulation × List EnumAction) := do
  let (enum, as) ← s.enum.step ev
  .ok ({ s with enum }, as)

/-- The oldest frame is processed. -/
def deliver (s : Simulation) (f : FrameT) : Except Halt (Simulation × List EnumAction) :=
  let (bus, out) := s.bus.hear f
  let s := { s with bus := bus.advanceToken }
  if f.needsAck then
    match acks out with
    | [] => .ok (s, [])
    -- what else is acked finds no frame in flight
    | p :: _ => s.enumStep (.answer p)
  else s.enumStep .sent

/-- One event. -/
def step (s : Simulation) : SimulationEvent → Except Halt (Simulation × List EnumAction)
  | .start => s.enumStep .start
  | .deliver =>
      match s.enum.queue.head? with
      | none => .error .disabled
      | some f => s.deliver f
  | .prod => .ok ({ s with bus := s.bus.advanceToken }, [])
  | .timeout t => s.enumStep (.timeout t)

end Simulation

/-! ## What is acked -/

theorem acks_nil : acks [] = [] := rfl

/-- An ack that is sent to the daemon is for it. -/
theorem acks_eq {out : List (List Byte)} {ps : List PackedFrame} (h : heard out = ps)
    (hdst : ∀ p ∈ ps, p.destAddress = 1 ||| 0x80) : acks out = ps := by
  rw [acks, h, List.filter_eq_self]
  intro p hp
  rw [PackedFrame.forMe, PackedFrame.isAck, hdst p hp]
  decide

/-- Everything that is written in answer to a frame is. -/
theorem acks_hear (s : OstricBus) (f : FrameT) : acks (s.hear f).2 = heard (s.hear f).2 := by
  rw [acks, List.filter_eq_self]
  intro p hp
  obtain ⟨bytes, hb, rfl⟩ := List.mem_map.mp hp
  obtain ⟨hme, hack⟩ := received_acks s f bytes hb
  rw [hme, hack]
  rfl

theorem acks_emitAck (src : Byte) : acks [emitAck src 1] = [⟨1 ||| 0x80, src &&& 0x7F, []⟩] :=
  acks_eq (heard_emitAck src 1) fun p hp => by rw [List.mem_singleton.mp hp]

theorem acks_emitDataAck (src b : Byte) :
    acks [emitDataAck src 1 [b]] = [⟨1 ||| 0x80, src &&& 0x7F, [b]⟩] :=
  acks_eq (heard_emitDataAck src 1 b) fun p hp => by rw [List.mem_singleton.mp hp]

theorem acks_replicate (n : Nat) (src : Byte) :
    acks (List.replicate n (emitAck src 1)) = List.replicate n ⟨1 ||| 0x80, src &&& 0x7F, []⟩ :=
  acks_eq (heard_replicate n src 1) fun p hp => by rw [List.eq_of_mem_replicate hp]

/-- What the gateway says about its token is an answer. -/
theorem answers_data (b : Byte) : Answers gwCmdHaveToken ⟨1 ||| 0x80, 1 &&& 0x7F, [b]⟩ := by
  refine ⟨?_, rfl, ?_⟩
  · show ((1 ||| 0x80 : Byte) &&& 0x80 != 0) = true
    decide
  · show ((1 &&& 0x7F : Byte) &&& 0x7F).toNat = 1
    decide

/-- So is what a client says under its address. -/
theorem source_address {a : Nat} (ha : a < deviceHighAddress) :
    PackedFrame.source ⟨1 ||| 0x80, BitVec.ofNat 8 a &&& 0x7F, []⟩ = a := by
  have h128 : deviceHighAddress = 128 := rfl
  obtain ⟨hmask, -, -⟩ := OstricClient.byte_address ha
  rw [PackedFrame.source]
  dsimp only
  rw [hmask, hmask, BitVec.toNat_ofNat]
  exact Nat.mod_eq_of_lt (by omega)

theorem answers_assign {a : Nat} (ha : a < deviceHighAddress) :
    Answers (sendAddress a) ⟨1 ||| 0x80, BitVec.ofNat 8 a &&& 0x7F, []⟩ := by
  have h128 : deviceHighAddress = 128 := rfl
  refine ⟨?_, rfl, ?_⟩
  · show ((1 ||| 0x80 : Byte) &&& 0x80 != 0) = true
    decide
  · refine ⟨fun h => absurd rfl h, ?_⟩
    intro b hb
    have hb : some (BitVec.ofNat 8 a : Byte).toNat = some b := hb
    rw [source_address ha, ← Option.some.inj hb, BitVec.toNat_ofNat, Nat.mod_eq_of_lt (by omega)]

theorem answers_advance {a : Nat} (ha : a < deviceHighAddress) :
    Answers (sendTokAdvance a) ⟨1 ||| 0x80, BitVec.ofNat 8 a &&& 0x7F, []⟩ := by
  refine ⟨?_, rfl, fun _ => source_address ha, ?_⟩
  · show ((1 ||| 0x80 : Byte) &&& 0x80 != 0) = true
    decide
  · intro b hb
    cases hb

namespace Simulation

section
variable {s : Simulation} {f : FrameT} {bus : OstricBus} {out : List (List Byte)}

theorem deliver_unanswered (hear : s.bus.hear f = (bus, out)) (hf : f.needsAck = true)
    (hacks : acks out = []) : s.deliver f = .ok ({ s with bus := bus.advanceToken }, []) := by
  rw [deliver, hear]
  dsimp only
  rw [if_pos hf, hacks]

theorem deliver_answered (hear : s.bus.hear f = (bus, out)) (hf : f.needsAck = true)
    {p : PackedFrame} {ps : List PackedFrame} (hacks : acks out = p :: ps) :
    s.deliver f = ({ s with bus := bus.advanceToken } : Simulation).enumStep (.answer p) := by
  rw [deliver, hear]
  dsimp only
  rw [if_pos hf, hacks]

theorem deliver_sent (hear : s.bus.hear f = (bus, out)) (hf : f.needsAck = false) :
    s.deliver f = ({ s with bus := bus.advanceToken } : Simulation).enumStep .sent := by
  rw [deliver, hear]
  dsimp only
  rw [if_neg (by rw [hf]; exact Bool.false_ne_true)]

theorem deliver_bus {s' : Simulation} {as : List EnumAction} (hs : s.deliver f = .ok (s', as)) :
    s'.bus = (s.bus.hear f).1.advanceToken := by
  have henum : ∀ (u : Simulation) ev, u.enumStep ev = .ok (s', as) → s'.bus = u.bus := by
    intro u ev h
    obtain ⟨⟨enum, out⟩, -, hok⟩ := bind_ok.mp h
    cases hok
    rfl
  rw [deliver] at hs
  dsimp only at hs
  split at hs
  · split at hs
    · cases hs
      rfl
    · exact henum _ _ hs
  · exact henum _ _ hs

theorem enumStep_ok {ev : EnumBusEvent} {enum : EnumBus} {as : List EnumAction}
    (h : s.enum.step ev = .ok (enum, as)) : s.enumStep ev = .ok ({ s with enum }, as) := by
  rw [enumStep, h]
  rfl

theorem enumStep_error {ev : EnumBusEvent} {x : Halt} (h : s.enum.step ev = .error x) :
    s.enumStep ev = .error x := by
  rw [enumStep, h]
  rfl

end

/-! ## The stages -/

/-- What has been queued while the bus was reset: `r` resets, and behind
them `post`. -/
inductive Booting : EnumState → Nat → Nat → Nat → List FrameT → Prop where
  | killing : Booting .killingToken 0 0 0 []
  | resetting {r : Nat} : r ≤ 5 → Booting .resetting r 1 r []
  | enumerating : Booting .enumerating 6 0 5 [gwCmdGenToken, gwCmdReqToken, gwCmdHaveToken]

/-- **The stages of enumeration**, with the bus that goes with each. -/
inductive Stage (n : Nat) :
    EnumState → Nat → Nat → Nat → List FrameT → OstricBus → Prop where
  | idle : Stage n .idle 2 0 0 [] (.quiet n false false)
  /-- no reset has reached the bus -/
  | early {state : EnumState} {count resets r : Nat} {pre post : List FrameT} {g : Bool} :
      Booting state count resets r post →
      (∀ f ∈ pre, f ∈ [sendTokAdvance 0, gwCmdReqToken, gwCmdUseToken false]) →
      Stage n state 2 count resets (pre ++ List.replicate r sendReset ++ post) (.quiet n g false)
  /-- a reset has reached the bus -/
  | late {state : EnumState} {count resets r m : Nat} {post : List FrameT} {g : Bool} :
      Booting state count resets r post → m < r →
      Stage n state 2 count resets (List.replicate m sendReset ++ post) (.quiet n g true)
  /-- there is a token, and the gateway has not asked for it -/
  | generated : Stage n .enumerating 2 6 0 [gwCmdReqToken, gwCmdHaveToken] (.ring false 0 n)
  | query {j m : Nat} : j + m = n →
      Stage n .enumerating (j + 2) 6 0 [gwCmdHaveToken] (.ring true j m)
  | setting {j m : Nat} : j + (m + 1) = n → j + 2 < deviceHighAddress →
      Stage n .settingAddr (j + 2) 6 0 [sendAddress (j + 2)] (.ring true j (m + 1))
  | advancing {j m : Nat} : j + (m + 1) = n → j + 2 < deviceHighAddress →
      Stage n .advancingToken (j + 2) 6 0 [sendTokAdvance (j + 2)] (.taken true j m)
  /-- the gateway is to take an address -/
  | last : n + 2 < deviceHighAddress →
      Stage n .settingGwAddr (n + 2) 6 0 [sendAddress (n + 2)] (.ring true n 0)

/-- The simulation is in one of the stages. -/
def Staged (n : Nat) (s : Simulation) : Prop :=
  ∃ state next count resets queue, s.enum.At state next count resets queue
    ∧ Stage n state next count resets queue s.bus

theorem staged_init (d : Devices) (n : Nat) : Staged n (init d n) :=
  ⟨_, _, _, _, _, ⟨rfl, rfl, rfl, rfl, rfl⟩, .idle⟩

/-- **The token stands still** until a frame moves it. -/
theorem Stage.still {n : Nat} {state : EnumState} {next count resets : Nat} {queue : List FrameT}
    {bus : OstricBus} (h : Stage n state next count resets queue bus) : bus.advanceToken = bus := by
  cases h with
  | idle => exact OstricBus.advance_quiet ..
  | early => exact OstricBus.advance_quiet ..
  | late => exact OstricBus.advance_quiet ..
  | generated => exact OstricBus.advance_ring_zero _
  | query => exact OstricBus.advance_ring ..
  | setting => exact OstricBus.advance_ring ..
  | advancing => exact OstricBus.advance_taken ..
  | last => exact OstricBus.advance_ring ..

/-- How many frames and timeouts there are still to come, until the gateway
is to take an address. -/
def leftAt (n : Nat) (state : EnumState) (next count : Nat) (queue : List FrameT) : Nat :=
  match state with
  | .idle => 3 * n + 19
  | .killingToken => queue.length + (3 * n + 16)
  | .resetting => queue.length + ((6 - count) + (5 - count) + (3 * n + 3))
  | .enumerating => queue.length + 3 * (n + 2 - next)
  | .settingAddr => 3 * (n + 2 - next)
  | .advancingToken => 3 * (n + 2 - next) - 1
  | _ => 0

def left (n : Nat) (s : Simulation) : Nat :=
  leftAt n s.enum.enum.state s.enum.enum.currentNextAddress s.enum.enum.resetCount s.enum.queue

theorem left_eq {n : Nat} {s : Simulation} {state : EnumState} {next count resets : Nat}
    {queue : List FrameT} (hat : s.enum.At state next count resets queue) :
    s.left n = leftAt n state next count queue := by
  rw [left, hat.state, hat.next, hat.count, hat.queue]

/-- A step ends in one of the stages, with no more than `l` to come. -/
def Goes (n l : Nat) (r : Except Halt (Simulation × List EnumAction)) : Prop :=
  ∃ s' as, r = .ok (s', as) ∧ Staged n s' ∧ s'.left n ≤ l

theorem Goes.mono {n l l' : Nat} {r : Except Halt (Simulation × List EnumAction)} (h : Goes n l r)
    (hle : l ≤ l') : Goes n l' r := by
  obtain ⟨s', as, hr, hstaged, hleft⟩ := h
  exact ⟨s', as, hr, hstaged, Nat.le_trans hleft hle⟩

section
variable {n : Nat} {s : Simulation} {state : EnumState} {next count resets : Nat}
  {queue : List FrameT}

/-- A step of the daemon alone. -/
theorem goes_of {ev : EnumBusEvent} {state' : EnumState} {next' count' resets' l : Nat}
    {queue' : List FrameT}
    (h : ∃ e as, s.enum.step ev = .ok (e, as) ∧ e.At state' next' count' resets' queue')
    (hstage : Stage n state' next' count' resets' queue' s.bus)
    (hleft : leftAt n state' next' count' queue' ≤ l) : Goes n l (s.enumStep ev) := by
  obtain ⟨e, as, hs, hat⟩ := h
  refine ⟨_, _, enumStep_ok hs, ⟨_, _, _, _, _, hat, hstage⟩, ?_⟩
  rw [left_eq hat]
  exact hleft

theorem start_goes (hat : s.enum.At state next count resets queue)
    (h : Stage n state next count resets queue s.bus) :
    Goes n (leftAt n state next count queue) (s.step .start) := by
  by_cases hst : state = .idle
  · subst hst
    generalize hb : s.bus = bus at h
    cases h with
    | idle =>
        have hstage : Stage n .killingToken 2 0 0
            ([sendTokAdvance 0, sendTokAdvance 0, gwCmdReqToken] ++ List.replicate 0 sendReset ++ [])
            (.quiet n false false) := .early .killing (by decide)
        refine goes_of hat.start ?_ ?_
        · rw [hb]
          exact hstage
        · show 3 + (3 * n + 16) ≤ 3 * n + 19
          omega
    | early hboot => cases hboot
    | late hboot => cases hboot
  · exact goes_of (hat.started hst) h (Nat.le_refl _)

theorem killToken_goes (hat : s.enum.At .killingToken next count resets queue)
    (h : Stage n .killingToken next count resets queue s.bus) (ht : 0 < s.enum.timers .killToken) :
    Goes n (leftAt n .killingToken next count queue - 1) (s.step (.timeout .killToken)) := by
  generalize hb : s.bus = bus at h
  cases h with
  | @early _ _ _ r pre post g hboot hpre =>
      cases hboot
      have hstage : Stage n .resetting 2 0 1
          ((pre ++ [gwCmdUseToken false]) ++ List.replicate 0 sendReset ++ []) (.quiet n g false) := by
        refine .early (.resetting (Nat.zero_le _)) ?_
        intro f hf
        rcases List.mem_append.mp hf with hf | hf
        · exact hpre f hf
        · rw [List.mem_singleton.mp hf]
          decide
      refine goes_of (hat.caught ht) ?_ ?_
      · rw [hb]
        simpa using hstage
      · simp only [leftAt, List.length_append, List.length_cons, List.length_nil]
        omega
  | late hboot hm =>
      cases hboot
      exact absurd hm (Nat.not_lt_zero _)

theorem sendReset_goes (hat : s.enum.At .resetting next count resets queue)
    (h : Stage n .resetting next count resets queue s.bus) :
    Goes n (leftAt n .resetting next count queue - 1) (s.step (.timeout .sendReset)) := by
  generalize hb : s.bus = bus at h
  cases h with
  | @early _ _ _ r pre post g hboot hpre =>
      cases hboot with
      | resetting hr =>
          rcases Nat.lt_or_eq_of_le hr with hlt | rfl
          · refine goes_of (hat.reset Nat.one_pos hlt) ?_ ?_
            · rw [hb, List.append_nil, List.append_assoc, ← List.replicate_succ',
                ← List.append_nil (_ ++ _)]
              exact .early (.resetting hlt) hpre
            · simp only [leftAt, List.length_append, List.length_cons, List.length_nil]
              omega
          · refine goes_of hat.busReset ?_ ?_
            · rw [hb, List.append_nil]
              exact .early .enumerating hpre
            · simp only [leftAt, List.length_append, List.length_cons, List.length_nil]
              omega
  | @late _ _ _ r m post g hboot hm =>
      cases hboot with
      | resetting hr =>
          rcases Nat.lt_or_eq_of_le hr with hlt | rfl
          · refine goes_of (hat.reset Nat.one_pos hlt) ?_ ?_
            · rw [hb, List.append_nil, ← List.replicate_succ', ← List.append_nil (List.replicate _ _)]
              exact .late (.resetting hlt) (Nat.succ_lt_succ hm)
            · simp only [leftAt, List.length_append, List.length_cons, List.length_nil]
              omega
          · refine goes_of hat.busReset ?_ ?_
            · rw [hb, List.append_nil]
              exact .late .enumerating hm
            · simp only [leftAt, List.length_append, List.length_cons, List.length_nil]
              omega

/-- A timeout that is not pending does not happen. -/
theorem Stage.no_reset {bus : OstricBus} (h : Stage n state next count resets queue bus)
    (hst : state ≠ .resetting) : resets = 0 := by
  cases h with
  | early hboot => cases hboot with
    | resetting => exact absurd rfl hst
    | _ => rfl
  | late hboot => cases hboot with
    | resetting => exact absurd rfl hst
    | _ => rfl
  | _ => rfl

/-! ### The oldest frame -/

/-- A frame of the first stages. -/
theorem Booting.state_cases {r : Nat} {post : List FrameT}
    (h : Booting state count resets r post) :
    state = .killingToken ∨ state = .resetting ∨ state = .enumerating := by
  cases h with
  | killing => exact .inl rfl
  | resetting => exact .inr (.inl rfl)
  | enumerating => exact .inr (.inr rfl)

/-- There, each frame counts. -/
theorem leftAt_cons (n : Nat) {state : EnumState} (next count : Nat) (f : FrameT)
    (queue : List FrameT)
    (hst : state = .killingToken ∨ state = .resetting ∨ state = .enumerating) :
    leftAt n state next count queue = leftAt n state next count (f :: queue) - 1 := by
  rcases hst with rfl | rfl | rfl <;>
  · simp only [leftAt, List.length_cons]
    omega

/-- An ack is one to a quiet frame. -/
theorem quiet_goes {f : FrameT} {bus : OstricBus} {out : List (List Byte)} {p : PackedFrame}
    {ps : List PackedFrame} (hat : s.enum.At state next count resets (f :: queue))
    (hear : s.bus.hear f = (bus, out)) (hf : f ∈ EnumBus.quiet) (hacks : acks out = p :: ps)
    (ha : Answers f p)
    (hst : state = .killingToken ∨ state = .resetting ∨ state = .enumerating)
    (hstage : Stage n state next count resets queue bus.advanceToken) :
    Goes n (leftAt n state next count (f :: queue) - 1) (s.deliver f) := by
  rw [deliver_answered hear (EnumBus.quiet_needsAck hf) hacks]
  exact goes_of (s := { s with bus := bus.advanceToken }) (hat.quiet hf ha hst) hstage
    (Nat.le_of_eq (leftAt_cons n next count f queue hst))

/-- A command of the gateway is acked by the gateway. -/
theorem gateway_goes {f : FrameT} {bus : OstricBus}
    (hat : s.enum.At state next count resets (f :: queue)) (hear : s.bus.hear f = (bus, [emitAck 1 1]))
    (hf : f ∈ [gwCmdReqToken, gwCmdUseToken false, gwCmdGenToken])
    (hst : state = .killingToken ∨ state = .resetting ∨ state = .enumerating)
    (hstage : Stage n state next count resets queue bus.advanceToken) :
    Goes n (leftAt n state next count (f :: queue) - 1) (s.deliver f) := by
  have hquiet : ∀ f ∈ [gwCmdReqToken, gwCmdUseToken false, gwCmdGenToken],
      f ∈ EnumBus.quiet ∧ Answers f ⟨1 ||| 0x80, 1 &&& 0x7F, []⟩ := by decide
  obtain ⟨hq, ha⟩ := hquiet f hf
  exact quiet_goes hat hear hq (acks_emitAck 1) ha hst hstage

/-- A frame that was queued before the first reset. -/
theorem early_goes {r : Nat} {x : FrameT} {pre post : List FrameT} {g : Bool}
    (hat : s.enum.At state 2 count resets (x :: (pre ++ List.replicate r sendReset ++ post)))
    (hboot : Booting state count resets r post)
    (hpre : ∀ f ∈ x :: pre, f ∈ [sendTokAdvance 0, gwCmdReqToken, gwCmdUseToken false])
    (hb : s.bus = .quiet n g false) :
    Goes n (leftAt n state 2 count (x :: (pre ++ List.replicate r sendReset ++ post)) - min n 1)
      (s.deliver x) := by
  have hrest : ∀ f ∈ pre, f ∈ [sendTokAdvance 0, gwCmdReqToken, gwCmdUseToken false] :=
    fun f hf => hpre f (List.mem_cons_of_mem _ hf)
  have hst := hboot.state_cases
  have hmin : leftAt n state 2 count (x :: (pre ++ List.replicate r sendReset ++ post)) - 1
      ≤ leftAt n state 2 count (x :: (pre ++ List.replicate r sendReset ++ post)) - min n 1 :=
    Nat.sub_le_sub_left (Nat.min_le_right n 1) _
  have hx := hpre x List.mem_cons_self
  simp only [List.mem_cons, List.not_mem_nil, or_false] at hx
  rcases hx with rfl | rfl | rfl
  · have hear : s.bus.hear (sendTokAdvance 0)
        = (.quiet n g false, List.replicate n (emitAck 0xFF 1)) := by
      rw [hb]
      exact OstricBus.hear_tokAdvance_all n g false
    have hacks := acks_replicate n 0xFF
    cases n with
    | zero =>
        -- nobody is there to ack the broadcast
        refine ⟨_, _, deliver_unanswered hear (by decide) hacks, ⟨_, _, _, _, _, hat, ?_⟩, ?_⟩
        · show Stage _ _ _ _ _ _ (OstricBus.advanceToken _)
          rw [OstricBus.advance_quiet]
          exact .early hboot hpre
        · exact Nat.le_of_eq (left_eq hat)
    | succ k =>
        refine (quiet_goes hat hear (by decide) hacks (by decide) hst ?_).mono hmin
        rw [OstricBus.advance_quiet]
        exact .early hboot hrest
  · have hear : s.bus.hear gwCmdReqToken = (.quiet n true false, [emitAck 1 1]) := by
      rw [hb]
      rfl
    refine (gateway_goes hat hear (by decide) hst ?_).mono hmin
    rw [OstricBus.advance_quiet]
    exact .early hboot hrest
  · have hear : s.bus.hear (gwCmdUseToken false) = (.quiet n g false, [emitAck 1 1]) := by
      rw [hb]
      rfl
    refine (gateway_goes hat hear (by decide) hst ?_).mono hmin
    rw [OstricBus.advance_quiet]
    exact .early hboot hrest

/-- A reset. -/
theorem reset_goes {r m : Nat} {post : List FrameT} {g k : Bool}
    (hat : s.enum.At state 2 count resets (sendReset :: (List.replicate m sendReset ++ post)))
    (hboot : Booting state count resets r post) (hm : m < r) (hb : s.bus = .quiet n g k) :
    Goes n (leftAt n state 2 count (sendReset :: (List.replicate m sendReset ++ post)) - 1)
      (s.deliver sendReset) := by
  have hear : s.bus.hear sendReset = (.quiet n g true, []) := by
    rw [hb]
    exact OstricBus.hear_reset n g k
  rw [deliver_sent hear (by decide)]
  refine goes_of (s := { s with bus := _ }) (hat.sent (by decide)) ?_ ?_
  · show Stage _ _ _ _ _ _ (OstricBus.advanceToken _)
    rw [OstricBus.advance_quiet]
    exact .late hboot hm
  · exact Nat.le_of_eq (leftAt_cons n 2 count sendReset _ hboot.state_cases)

/-- **The gateway has been asked** whether it has the token. -/
theorem query_goes {j m : Nat} (hat : s.enum.At .enumerating (j + 2) 6 0 [gwCmdHaveToken])
    (hjm : j + m = n) (hb : s.bus = .ring true j m) :
    Goes n (leftAt n .enumerating (j + 2) 6 [gwCmdHaveToken] - 1) (s.deliver gwCmdHaveToken)
      ∨ 126 ≤ n ∧ (s.bus.hear gwCmdHaveToken).1.advanceToken = s.bus
        ∧ s.deliver gwCmdHaveToken = .error .exit := by
  have hear : s.bus.hear gwCmdHaveToken
      = (.ring true j m, [emitDataAck 1 1 [if decide (m = 0) then 1 else 0]]) := by
    rw [hb]
    exact OstricBus.hear_haveToken _
  rw [deliver_answered hear (by decide) (acks_emitDataAck 1 _)]
  rcases Nat.lt_or_ge (j + 2) deviceHighAddress with hlt | hge
  · left
    have hstep := EnumBus.At.query (s := s.enum) hat (answers_data (if decide (m = 0) then 1 else 0)) rfl hlt
    refine goes_of (s := { s with bus := (OstricBus.ring true j m).advanceToken }) hstep ?_ ?_
    · show Stage _ _ _ _ _ _ (OstricBus.advanceToken _)
      rw [OstricBus.advance_ring]
      cases m with
      | zero =>
          obtain rfl : j = n := hjm
          exact .last hlt
      | succ m => exact .setting hjm hlt
    · cases m with
      | zero => exact Nat.zero_le _
      | succ m =>
          show 3 * (n + 2 - (j + 2)) ≤ 1 + 3 * (n + 2 - (j + 2)) - 1
          omega
  · right
    have h128 : deviceHighAddress = 128 := rfl
    refine ⟨by omega, ?_, enumStep_error (hat.exhausted (answers_data _) rfl hge)⟩
    rw [hear, hb]
    exact OstricBus.advance_ring j m

/-- A client takes an address. -/
theorem assign_goes {j m : Nat} (hat : s.enum.At .settingAddr (j + 2) 6 0 [sendAddress (j + 2)])
    (hjm : j + (m + 1) = n) (hlt : j + 2 < deviceHighAddress) (hb : s.bus = .ring true j (m + 1)) :
    Goes n (leftAt n .settingAddr (j + 2) 6 [sendAddress (j + 2)] - 1)
      (s.deliver (sendAddress (j + 2))) := by
  have hear : s.bus.hear (sendAddress (j + 2))
      = (.taken true j m, [emitAck (BitVec.ofNat 8 (j + 2)) 1]) := by
    rw [hb]
    exact OstricBus.hear_sendAddress hlt
  rw [deliver_answered hear (EnumBus.needsAck_sendAddress _) (acks_emitAck _)]
  have hstep := EnumBus.At.assigned (s := s.enum) hat (answers_assign hlt) hlt
  refine goes_of (s := { s with bus := (OstricBus.taken true j m).advanceToken }) hstep ?_
    (Nat.le_refl _)
  show Stage n .advancingToken (j + 2) 6 0 _ (OstricBus.taken true j m).advanceToken
  rw [OstricBus.advance_taken]
  exact .advancing hjm hlt

/-- It passes the token on. -/
theorem advance_goes {j m : Nat}
    (hat : s.enum.At .advancingToken (j + 2) 6 0 [sendTokAdvance (j + 2)])
    (hjm : j + (m + 1) = n) (hlt : j + 2 < deviceHighAddress) (hb : s.bus = .taken true j m) :
    Goes n (leftAt n .advancingToken (j + 2) 6 [sendTokAdvance (j + 2)] - 1)
      (s.deliver (sendTokAdvance (j + 2))) := by
  have hear : s.bus.hear (sendTokAdvance (j + 2))
      = (.taken false j m, [emitAck (BitVec.ofNat 8 (j + 2)) 1]) := by
    rw [hb]
    exact OstricBus.hear_tokAdvance hlt
  rw [deliver_answered hear (EnumBus.needsAck_sendTokAdvance hlt) (acks_emitAck _)]
  have hstep := EnumBus.At.advanced (s := s.enum) hat (answers_advance hlt) (Nat.le_add_left 2 j) hlt
  refine goes_of (s := { s with bus := (OstricBus.taken false j m).advanceToken }) hstep ?_ ?_
  · show Stage n .enumerating (j + 1 + 2) 6 0 _ (OstricBus.taken false j m).advanceToken
    rw [OstricBus.advance_released]
    exact .query (by omega)
  · show 1 + 3 * (n + 2 - (j + 2 + 1)) ≤ 3 * (n + 2 - (j + 2)) - 1 - 1
    omega

/-- **Nobody answers** when the gateway is to take an address. -/
theorem last_goes (hat : s.enum.At .settingGwAddr (n + 2) 6 0 [sendAddress (n + 2)])
    (hlt : n + 2 < deviceHighAddress) (hb : s.bus = .ring true n 0) :
    Goes n 0 (s.deliver (sendAddress (n + 2))) := by
  have hear : s.bus.hear (sendAddress (n + 2)) = (.ring true n 0, []) := by
    rw [hb]
    exact OstricBus.hear_sendAddress_gateway hlt
  refine ⟨_, _, deliver_unanswered hear (EnumBus.needsAck_sendAddress _) acks_nil,
    ⟨_, _, _, _, _, hat, ?_⟩, ?_⟩
  · show Stage n .settingGwAddr (n + 2) 6 0 _ (OstricBus.ring true n 0).advanceToken
    rw [OstricBus.advance_ring]
    exact .last hlt
  · exact Nat.le_of_eq (left_eq hat)

/-- The oldest frame is processed. -/
theorem deliver_goes {f : FrameT} (hat : s.enum.At state next count resets (f :: queue))
    (h : Stage n state next count resets (f :: queue) s.bus) :
    Goes n (leftAt n state next count (f :: queue) - min n 1) (s.step .deliver)
      ∨ 126 ≤ n ∧ (s.bus.hear f).1.advanceToken = s.bus ∧ s.step .deliver = .error .exit := by
  have hmin : leftAt n state next count (f :: queue) - 1
      ≤ leftAt n state next count (f :: queue) - min n 1 :=
    Nat.sub_le_sub_left (Nat.min_le_right n 1) _
  have hstep : s.step .deliver = s.deliver f := by
    rw [step, hat.queue]
    rfl
  rw [hstep]
  generalize hq : f :: queue = q at h
  generalize hb : s.bus = bus at h
  cases h with
  | idle => cases hq
  | @early _ _ _ r pre post g hboot hpre =>
      left
      cases pre with
      | cons x pre =>
          obtain ⟨rfl, rfl⟩ := List.cons.inj hq
          exact early_goes hat hboot hpre hb
      | nil =>
          cases r with
          | zero => cases hboot <;> cases hq
          | succ r =>
              obtain ⟨rfl, rfl⟩ := List.cons.inj hq
              exact (reset_goes hat hboot (Nat.lt_succ_self r) hb).mono hmin
  | @late _ _ _ r m post g hboot hm =>
      left
      cases m with
      | succ m =>
          obtain ⟨rfl, rfl⟩ := List.cons.inj hq
          exact (reset_goes hat hboot (Nat.lt_of_succ_lt hm) hb).mono hmin
      | zero =>
          cases hboot with
          | killing => exact absurd hm (Nat.not_lt_zero _)
          | resetting => cases hq
          | enumerating =>
              obtain ⟨rfl, rfl⟩ := List.cons.inj hq
              have hear : s.bus.hear gwCmdGenToken
                  = (⟨false, true, false, OstricClient.waiting n⟩, [emitAck 1 1]) := by
                rw [hb]
                rfl
              refine (gateway_goes hat hear (by decide) (.inr (.inr rfl)) ?_).mono hmin
              rw [OstricBus.advance_generated]
              exact .generated
  | generated =>
      left
      obtain ⟨rfl, rfl⟩ := List.cons.inj hq
      have hear : s.bus.hear gwCmdReqToken = (.ring true 0 n, [emitAck 1 1]) := by
        rw [hb]
        rfl
      refine (gateway_goes hat hear (by decide) (.inr (.inr rfl)) ?_).mono hmin
      rw [OstricBus.advance_ring]
      exact .query (Nat.zero_add n)
  | query hjm =>
      obtain ⟨rfl, rfl⟩ := List.cons.inj hq
      rcases query_goes hat hjm hb with hgoes | hexit
      · exact .inl (hgoes.mono hmin)
      · rw [hb] at hexit
        exact .inr hexit
  | setting hjm hlt =>
      left
      obtain ⟨rfl, rfl⟩ := List.cons.inj hq
      exact (assign_goes hat hjm hlt hb).mono hmin
  | advancing hjm hlt =>
      left
      obtain ⟨rfl, rfl⟩ := List.cons.inj hq
      exact (advance_goes hat hjm hlt hb).mono hmin
  | last hlt =>
      left
      obtain ⟨rfl, rfl⟩ := List.cons.inj hq
      exact (last_goes hat hlt hb).mono (Nat.zero_le _)

/-- Where no frame is left, the daemon waits for a timeout. -/
theorem Stage.timeout_left {bus : OstricBus} (h : Stage n state next count resets [] bus) :
    state = .idle ∨ state = .killingToken ∨ state = .resetting ∧ 0 < resets := by
  generalize hq : ([] : List FrameT) = q at h
  cases h with
  | idle => exact .inl rfl
  | early hboot hpre => cases hboot with
    | killing => exact .inr (.inl rfl)
    | resetting => exact .inr (.inr ⟨rfl, Nat.one_pos⟩)
    | enumerating => simp at hq
  | late hboot hm => cases hboot with
    | killing => exact .inr (.inl rfl)
    | resetting => exact .inr (.inr ⟨rfl, Nat.one_pos⟩)
    | enumerating => simp at hq
  | _ => cases hq

end

/-! ## Runs -/

/-- **In every state that is reached**, the simulation is in one of the
stages. -/
structure Reached (n : Nat) (s : Simulation) : Prop where
  staged : Staged n s
  phase : s.enum.Phase
  killTimer : s.enum.KillTimer

theorem reached_init (d : Devices) (n : Nat) : Reached n (init d n) :=
  ⟨staged_init d n, EnumBus.phase_init d, EnumBus.killTimer_init d⟩

/-- What an event comes to. -/
theorem step_goes {n : Nat} {s : Simulation} (h : Reached n s) (ev : SimulationEvent) :
    Goes n (s.left n - if ev.works then min n 1 else 0) (s.step ev)
      ∨ s.step ev = .error .disabled ∨ 126 ≤ n ∧ s.step ev = .error .exit := by
  obtain ⟨state, next, count, resets, queue, hat, hstage⟩ := h.staged
  have hmin : leftAt n state next count queue - 1 ≤ leftAt n state next count queue - min n 1 :=
    Nat.sub_le_sub_left (Nat.min_le_right n 1) _
  rw [left_eq hat]
  cases ev with
  | start => exact .inl (start_goes hat hstage)
  | prod =>
      refine .inl ⟨_, _, rfl, ⟨state, next, count, resets, queue, hat, ?_⟩, ?_⟩
      · rw [hstage.still]
        exact hstage
      · exact Nat.le_of_eq (left_eq hat)
  | deliver =>
      cases queue with
      | nil =>
          right; left
          rw [step, hat.queue]
          rfl
      | cons f queue =>
          rcases deliver_goes hat hstage with hgoes | ⟨hbig, -, hexit⟩
          · exact .inl hgoes
          · exact .inr (.inr ⟨hbig, hexit⟩)
  | timeout t =>
      cases t with
      | killToken =>
          by_cases ht : 0 < s.enum.timers .killToken
          · have hst : state = .killingToken := by
              by_contra hne
              rw [← hat.state] at hne
              have hzero := h.killTimer
              rw [EnumBus.KillTimer, if_neg hne] at hzero
              omega
            subst hst
            exact .inl ((killToken_goes hat hstage ht).mono hmin)
          · right; left
            exact enumStep_error (if_neg ht)
      | sendReset =>
          by_cases hst : state = .resetting
          · subst hst
            exact .inl ((sendReset_goes hat hstage).mono hmin)
          · right; left
            rw [hstage.no_reset hst] at hat
            exact enumStep_error hat.no_reset

/-- The daemon takes a step of its own, or none. -/
theorem step_enum {s s' : Simulation} {ev : SimulationEvent} {as : List EnumAction}
    (hs : s.step ev = .ok (s', as)) :
    s'.enum = s.enum ∨ ∃ e, s.enum.step e = .ok (s'.enum, as) := by
  have henum : ∀ (u : Simulation) e, u.enumStep e = .ok (s', as) → u.enum = s.enum →
      ∃ e, s.enum.step e = .ok (s'.enum, as) := by
    intro u e h hu
    obtain ⟨⟨enum, out⟩, he, hok⟩ := bind_ok.mp h
    cases hok
    rw [← hu]
    exact ⟨e, he⟩
  cases ev with
  | start => exact .inr (henum _ _ hs rfl)
  | timeout t => exact .inr (henum _ _ hs rfl)
  | prod =>
      cases hs
      exact .inl rfl
  | deliver =>
      rw [step] at hs
      split at hs
      · cases hs
      · rw [deliver] at hs
        dsimp only at hs
        split at hs
        · split at hs
          · cases hs
            exact .inl rfl
          · exact .inr (henum _ _ hs rfl)
        · exact .inr (henum _ _ hs rfl)

/-- There is no stage in which classes are fetched. -/
theorem Stage.unfinished {n : Nat} {state : EnumState} {next count resets : Nat}
    {queue : List FrameT} {bus : OstricBus} (h : Stage n state next count resets queue bus) :
    state ≠ .fetchingClasses ∧ state ≠ .enumerated := by
  cases h with
  | early hboot => rcases hboot.state_cases with rfl | rfl | rfl <;> decide
  | late hboot => rcases hboot.state_cases with rfl | rfl | rfl <;> decide
  | _ => decide

theorem Reached.unfinished {n : Nat} {s : Simulation} (h : Reached n s) :
    s.enum.enum.state ≠ .fetchingClasses ∧ s.enum.enum.state ≠ .enumerated := by
  obtain ⟨state, next, count, resets, queue, hat, hstage⟩ := h.staged
  rw [hat.state]
  exact hstage.unfinished

/-- **Every step keeps it**, and has work done. -/
theorem reached_step {n : Nat} {s s' : Simulation} {ev : SimulationEvent} {as : List EnumAction}
    (h : Reached n s) (hs : s.step ev = .ok (s', as)) :
    Reached n s' ∧ s'.left n ≤ s.left n - if ev.works then min n 1 else 0 := by
  rcases step_goes h ev with ⟨t, bs, ht, hstaged, hleft⟩ | herr | ⟨-, herr⟩
  · cases hs.symm.trans ht
    refine ⟨?_, hleft⟩
    rcases step_enum hs with hsame | ⟨e, he⟩
    · exact ⟨hstaged, hsame ▸ h.phase, hsame ▸ h.killTimer⟩
    · have hturn := EnumBus.step_turn h.phase he
      exact ⟨hstaged, hturn.phase h.phase, hturn.killTimer h.killTimer⟩
  · cases hs.symm.trans herr
  · cases hs.symm.trans herr

/-- A frame that is processed is one thing less to be done. -/
theorem Reached.deliver {n : Nat} {s s' : Simulation} {as : List EnumAction} (h : Reached n s)
    (hs : s.step .deliver = .ok (s', as)) : Reached n s' ∧ (0 < n → s'.left n ≤ s.left n - 1) := by
  obtain ⟨h', hleft⟩ := reached_step h hs
  refine ⟨h', ?_⟩
  intro hn
  have hleft : s'.left n ≤ s.left n - min n 1 := hleft
  rwa [Nat.min_eq_right hn] at hleft

/-! ## What holds in every stage -/

/-- The token stands still, there is one at most, and the clients that it
has passed have the addresses from 2 on. -/
structure Settled (n : Nat) (bus : OstricBus) : Prop where
  still : bus.advanceToken = bus
  token : bus.tokens ≤ 1
  addresses : ∃ j ≤ n, bus.clients.map OstricClient.address = OstricBus.addressedUpTo j (n - j)

theorem settled_quiet (n : Nat) (g k : Bool) : Settled n (.quiet n g k) where
  still := OstricBus.advance_quiet ..
  token := OstricBus.tokens_quiet ..
  addresses := ⟨0, Nat.zero_le n, OstricBus.addresses_quiet ..⟩

/-- The bus is so in each stage. -/
theorem Stage.settled {n : Nat} {state : EnumState} {next count resets : Nat} {queue : List FrameT}
    {bus : OstricBus} (h : Stage n state next count resets queue bus) : Settled n bus := by
  have hstill := h.still
  have haddr : ∀ {j m : Nat} {l : List (BitVec 32)}, l = OstricBus.addressedUpTo j m → j + m = n →
      ∃ j ≤ n, l = OstricBus.addressedUpTo j (n - j) := by
    intro j m l hl hjm
    exact ⟨j, by omega, by rw [hl, ← hjm, Nat.add_sub_cancel_left]⟩
  cases h with
  | idle => exact settled_quiet ..
  | early => exact settled_quiet ..
  | late => exact settled_quiet ..
  | generated =>
      exact ⟨hstill, OstricBus.tokens_ring .., haddr (OstricBus.addresses_ring ..) (Nat.zero_add n)⟩
  | query hjm => exact ⟨hstill, OstricBus.tokens_ring .., haddr (OstricBus.addresses_ring ..) hjm⟩
  | setting hjm => exact ⟨hstill, OstricBus.tokens_ring .., haddr (OstricBus.addresses_ring ..) hjm⟩
  | advancing hjm =>
      exact ⟨hstill, OstricBus.tokens_taken .., haddr (OstricBus.addresses_taken ..) (by omega)⟩
  | last => exact ⟨hstill, OstricBus.tokens_ring .., haddr (OstricBus.addresses_ring ..) (Nat.add_zero n)⟩

/-- No address but those for the clients and the gateway is given away. -/
theorem Stage.next_le {n : Nat} {state : EnumState} {next count resets : Nat} {queue : List FrameT}
    {bus : OstricBus} (h : Stage n state next count resets queue bus) : next ≤ n + 2 := by
  cases h <;> omega

/-- The only frame that wants no ack is a reset, before there is a
token. -/
theorem Stage.unacked {n : Nat} {state : EnumState} {next count resets : Nat} {f : FrameT}
    {queue : List FrameT} {bus : OstricBus}
    (h : Stage n state next count resets (f :: queue) bus) (hf : f.needsAck = false) :
    f = sendReset ∧ (∃ g k, bus = .quiet n g k) ∧ 0 < leftAt n state next count (f :: queue) := by
  have hneeds : ∀ g ∈ [sendTokAdvance 0, gwCmdReqToken, gwCmdUseToken false, gwCmdGenToken,
      gwCmdHaveToken], g.needsAck = true := by decide
  have hpost : ∀ {state count resets r post}, Booting state count resets r post →
      ∀ g ∈ post, g.needsAck = true := by
    intro state count resets r post hboot g hg
    cases hboot with
    | enumerating => exact hneeds g (by revert g; decide)
    | _ => cases hg
  have hpos : ∀ {state count resets r post}, Booting state count resets r post →
      0 < leftAt n state 2 count (f :: queue) := by
    intro state count resets r post hboot
    rcases hboot.state_cases with rfl | rfl | rfl <;>
    · simp only [leftAt, List.length_cons]
      omega
  have habsurd : f.needsAck = true → False := by simp [hf]
  generalize hq : f :: queue = q at h
  cases h with
  | @early _ _ _ r pre post g hboot hpre =>
      refine ⟨?_, ⟨g, false, rfl⟩, hq ▸ hpos hboot⟩
      have hmem : f ∈ pre ++ List.replicate r sendReset ++ post := hq ▸ List.mem_cons_self
      rcases List.mem_append.mp hmem with hmem | hmem
      · rcases List.mem_append.mp hmem with hmem | hmem
        · exact (habsurd (hneeds f (List.mem_append_left [gwCmdGenToken, gwCmdHaveToken]
            (hpre f hmem)))).elim
        · exact List.eq_of_mem_replicate hmem
      · exact (habsurd (hpost hboot f hmem)).elim
  | @late _ _ _ r m post g hboot hm =>
      refine ⟨?_, ⟨g, true, rfl⟩, hq ▸ hpos hboot⟩
      have hmem : f ∈ List.replicate m sendReset ++ post := hq ▸ List.mem_cons_self
      rcases List.mem_append.mp hmem with hmem | hmem
      · exact List.eq_of_mem_replicate hmem
      · exact (habsurd (hpost hboot f hmem)).elim
  | idle => cases hq
  | generated => cases hq; exact (habsurd (by decide)).elim
  | query => cases hq; exact (habsurd (by decide)).elim
  | setting | last => cases hq; exact (habsurd (EnumBus.needsAck_sendAddress _)).elim
  | advancing hjm hlt => cases hq; exact (habsurd (EnumBus.needsAck_sendTokAdvance hlt)).elim

namespace Reached

variable {n : Nat} {s : Simulation} {f : FrameT}

theorem settled (h : Reached n s) : Settled n s.bus := by
  obtain ⟨state, next, count, resets, queue, -, hstage⟩ := h.staged
  exact hstage.settled

/-- The oldest frame can be processed. -/
theorem delivers (h : Reached n s) (hf : s.enum.queue.head? = some f) :
    (∃ s' as, s.step .deliver = .ok (s', as) ∧ Staged n s')
      ∨ (s.bus.hear f).1.advanceToken = s.bus ∧ s.step .deliver = .error .exit := by
  obtain ⟨state, next, count, resets, queue, hat, hstage⟩ := h.staged
  rw [hat.queue] at hf
  cases queue with
  | nil => cases hf
  | cons g queue =>
      cases hf
      rcases deliver_goes hat hstage with ⟨s', as, hs, hstaged, -⟩ | ⟨-, hexit⟩
      · exact .inl ⟨s', as, hs, hstaged⟩
      · exact .inr hexit

/-- The bus is settled then, too. -/
theorem settled_hear (h : Reached n s) (hf : s.enum.queue.head? = some f) :
    Settled n (s.bus.hear f).1.advanceToken := by
  rcases h.delivers hf with ⟨s', as, hs, _, _, _, _, _, -, hstage⟩ | ⟨hbus, -⟩
  · rw [step, hf] at hs
    rw [← deliver_bus hs]
    exact hstage.settled
  · rw [hbus]
    exact h.settled

/-- The first ack is one from the node that handles the frame. -/
theorem answers (h : Reached n s) (hf : s.enum.queue.head? = some f) (hneeds : f.needsAck = true)
    {p : PackedFrame} {ps : List PackedFrame} (hacks : acks (s.bus.hear f).2 = p :: ps) :
    Answers f p := by
  have hstep : s.step .deliver
      = ({ s with bus := (s.bus.hear f).1.advanceToken } : Simulation).enumStep (.answer p) := by
    rw [step, hf]
    exact deliver_answered rfl hneeds hacks
  have hen : s.enum.Enabled (.answer p) := by
    by_contra hdis
    have herr : s.step .deliver = .error .disabled := by
      rw [hstep]
      exact enumStep_error (if_neg hdis)
    rcases h.delivers hf with ⟨t, as, hs, -⟩ | ⟨-, hexit⟩
    · cases hs.symm.trans herr
    · cases hexit.symm.trans herr
  obtain ⟨g, hg, -, ha⟩ := hen
  cases hf.symm.trans hg
  exact ha

/-- A frame that is not acked is a reset. -/
theorem unacked (h : Reached n s) (hf : s.enum.queue.head? = some f) (hneeds : f.needsAck = false) :
    f = sendReset ∧ (∃ g k, s.bus = .quiet n g k) ∧ 0 < s.left n := by
  obtain ⟨state, next, count, resets, queue, hat, hstage⟩ := h.staged
  rw [hat.queue] at hf
  cases queue with
  | nil => cases hf
  | cons g queue =>
      cases hf
      rw [left_eq hat]
      exact hstage.unacked hneeds

theorem next_le (h : Reached n s) : s.enum.enum.currentNextAddress ≤ n + 2 := by
  obtain ⟨state, next, count, resets, queue, hat, hstage⟩ := h.staged
  rw [hat.next]
  exact hstage.next_le

end Reached

/-! ## The end of enumeration -/

/-- The clients all have their addresses, the gateway has the token, and is
asked to take an address. -/
structure Last (n : Nat) (s : Simulation) : Prop where
  state : s.enum.enum.state = .settingGwAddr
  queue : s.enum.queue = [sendAddress (n + 2)]
  token : s.bus.gwHasToken = true
  addresses : s.bus.clients.map OstricClient.address
    = (List.range n).map fun i => BitVec.ofNat 32 (i + 2)

/-- Nothing is left to be done there only. -/
theorem last_of_left {n : Nat} {s : Simulation} (h : Reached n s) (hleft : s.left n = 0) : s.Last n := by
  obtain ⟨state, next, count, resets, queue, hat, hstage⟩ := h.staged
  rw [left_eq hat] at hleft
  generalize hb : s.bus = bus at hstage
  cases hstage with
  | last hlt =>
      refine ⟨hat.state, hat.queue, ?_, ?_⟩
      · rw [hb]
        rfl
      · rw [hb, OstricBus.addresses_ring, OstricBus.addressedUpTo]
        exact List.append_nil _
  | early hboot => cases hboot <;> simp [leftAt] at hleft
  | late hboot => cases hboot <;> simp [leftAt] at hleft
  | advancing hjm hlt =>
      simp only [leftAt] at hleft
      omega
  | setting hjm hlt =>
      simp only [leftAt] at hleft
      omega
  | _ => simp [leftAt] at hleft

/-- Where there is a timeout, there is something left. -/
theorem Reached.left_pos {n : Nat} {s : Simulation} {t : EnumTimer} (h : Reached n s)
    (ht : 0 < s.enum.timers t) : 0 < s.left n := by
  rcases Nat.eq_zero_or_pos (s.left n) with hleft | hpos
  · have hlast := (last_of_left h hleft).state
    obtain ⟨state, next, count, resets, queue, hat, hstage⟩ := h.staged
    rw [hat.state] at hlast
    cases t with
    | killToken =>
        have hkill := h.killTimer
        rw [EnumBus.KillTimer, hat.state, hlast, if_neg (by decide)] at hkill
        omega
    | sendReset =>
        rw [hat.resets, hstage.no_reset (by rw [hlast]; decide)] at ht
        omega
  · exact hpos

/-- Where no frame is left, once enumeration has been started, there is a
timeout. -/
theorem Reached.timeout {n : Nat} {s : Simulation} (h : Reached n s) (hq : s.enum.queue = [])
    (hst : s.enum.enum.state ≠ .idle) : ∃ t, 0 < s.enum.timers t := by
  obtain ⟨state, next, count, resets, queue, hat, hstage⟩ := h.staged
  obtain rfl : queue = [] := hat.queue.symm.trans hq
  rcases hstage.timeout_left with rfl | rfl | ⟨rfl, hpos⟩
  · exact absurd hat.state hst
  · exact ⟨.killToken, by rw [h.killTimer, if_pos hat.state]; exact Nat.one_pos⟩
  · exact ⟨.sendReset, by rw [hat.resets]; exact hpos⟩

end Simulation

end Sricd
