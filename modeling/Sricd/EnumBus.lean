import Sricd.Enumeration
import Sricd.Lib.Run

/-!
# Enumeration on a bus

Enumeration together with what it waits for: the frames it has queued, in
order, the timeouts it has registered and the devices it has found. The
bus answers the oldest frame, in the way the node that handles it does.
This is enumeration as it should look from above the serial interface.

`Phase` says in which state which frames wait for an answer, and `Turn`
what a step can do there.
-/

namespace Sricd

open Sricd.Lib

/-- The address that an ADDR_ASSIGN frame gives away. -/
def FrameT.assigns (f : FrameT) : Option Nat :=
  match f.type, f.payload with
  | .sric, [cmd, a] => if cmd = 0x80 ||| 2 then some a.toNat else none
  | _, _ => none

/-- The address that an ADDR_INFO frame asks. -/
def FrameT.asks (f : FrameT) : Option Nat :=
  if f.type = .sric ∧ f.payload = [0x80 ||| 3] then some f.address else none

/-- The frame wants one byte of data back: HAVE_TOKEN of the gateway, and
ADDR_INFO. -/
def FrameT.wantsData (f : FrameT) : Bool :=
  match f.type with
  | .gwConf => f.payload.head? == some 2
  | .sric => f.payload.head? == some (0x80 ||| 3)

/-- `p` is an ack for `f` from the node that handles it. -/
def Answers (f : FrameT) (p : PackedFrame) : Prop :=
  p.isAck = true ∧ p.payload.length = (if f.wantsData then 1 else 0)
    ∧ match f.type with
      | .gwConf => p.source = 1
      | .sric => (f.address ≠ 0 → p.source = f.address) ∧ ∀ a ∈ f.assigns, p.source = a

instance (f : FrameT) (p : PackedFrame) : Decidable (Answers f p) := by
  unfold Answers
  cases f.type <;> infer_instance

/-- The enumeration, the frames that are not done with, oldest first, the
number of pending timeouts of each kind, the device table, and how often
the gateway has been asked whether it has the token. -/
structure EnumBus where
  enum : Enum
  queue : List FrameT
  timers : EnumTimer → Nat
  devices : Devices
  queries : Nat

inductive EnumBusEvent where
  | start
  /-- the oldest frame is sent and answered -/
  | answer (p : PackedFrame)
  /-- the oldest frame is sent, and needs no answer -/
  | sent
  /-- another frame is queued, which needs no answer -/
  | other (f : FrameT)
  | timeout (t : EnumTimer)

namespace EnumBus

/-- Before enumeration. -/
def init (d : Devices) : EnumBus where
  enum := .init
  queue := []
  timers _ := 0
  devices := d
  queries := 0

def act (s : EnumBus) : EnumAction → EnumBus
  | .push f => { s with queue := s.queue ++ [f] }
  | .addTimer t => { s with timers := Function.update s.timers t (s.timers t + 1) }
  | .deviceAdd i t => { s with devices := s.devices.deviceAdd i t }

def acts (s : EnumBus) (as : List EnumAction) : EnumBus := as.foldl act s

/-- A timeout is not called again. -/
def drop (s : EnumBus) (t : EnumTimer) : EnumBus :=
  { s with timers := Function.update s.timers t (s.timers t - 1) }

def enumStep (s : EnumBus) :
    Option (Enum × List EnumAction) → Except Halt (EnumBus × List EnumAction)
  | none => .error .exit
  | some (e, as) => .ok ({ s with enum := e }.acts as, as)

/-- The event can happen: there is such a timeout, or such a frame, and
the answer is one to it. -/
def Enabled (s : EnumBus) : EnumBusEvent → Prop
  | .start => True
  | .answer p => ∃ f ∈ s.queue.head?, f.needsAck = true ∧ Answers f p
  | .sent => ∃ f ∈ s.queue.head?, f.needsAck = false
  | .other f => f.needsAck = false
  | .timeout t => 0 < s.timers t

instance (s : EnumBus) : DecidablePred s.Enabled
  | .start => inferInstanceAs (Decidable True)
  | .answer _ => inferInstanceAs (Decidable (∃ f ∈ s.queue.head?, _ ∧ _))
  | .sent => inferInstanceAs (Decidable (∃ f ∈ s.queue.head?, _ = _))
  | .other f => inferInstanceAs (Decidable (f.needsAck = false))
  | .timeout t => inferInstanceAs (Decidable (0 < s.timers t))

/-- `f`, the oldest frame, is answered with `p`. -/
def answer (s : EnumBus) (f : FrameT) (p : PackedFrame) : Except Halt (EnumBus × List EnumAction) :=
  { s with
    queue := s.queue.tail
    queries := if f = gwCmdHaveToken then s.queries + 1 else s.queries }.enumStep
      (s.enum.dispatch p)

def handle (s : EnumBus) : EnumBusEvent → Except Halt (EnumBus × List EnumAction)
  | .start => s.enumStep s.enum.start
  | .answer p =>
      match s.queue.head? with
      | none => .error .disabled
      | some f => s.answer f p
  | .sent => .ok ({ s with queue := s.queue.tail }, [])
  | .other f => .ok ({ s with queue := s.queue ++ [f] }, [])
  | .timeout .killToken => (s.drop .killToken).enumStep s.enum.killTokenTimeout
  | .timeout .sendReset =>
      match s.enum.sendResetTimeout with
      | none => .error .exit
      | some (e, as, again) => (if again then s else s.drop .sendReset).enumStep (some (e, as))

/-- One event. -/
def step (s : EnumBus) (ev : EnumBusEvent) : Except Halt (EnumBus × List EnumAction) :=
  if s.Enabled ev then s.handle ev else .error .disabled

theorem step_ok {s s' : EnumBus} {ev : EnumBusEvent} {as : List EnumAction} (hen : s.Enabled ev)
    (h : s.handle ev = .ok (s', as)) : s.step ev = .ok (s', as) := (if_pos hen).trans h

/-! ## The frames that are waited for -/

/-- The frames whose ack the enumeration takes no notice of. -/
def quiet : List FrameT :=
  [sendTokAdvance 0, gwCmdReqToken, gwCmdUseToken false, gwCmdUseToken true, gwCmdGenToken]

/-- The frames that wait for an answer. -/
def pending (s : EnumBus) : List FrameT := s.queue.filter FrameT.needsAck

/-- **What is waited for in each state**: a timeout, or the answer to the
one frame that is not quiet. -/
def Waits (e : Enum) (pending : List FrameT) (timers : EnumTimer → Nat) : Prop :=
  match e.state with
  | .idle => pending = [] ∧ e.currentNextAddress = 2
  | .killingToken =>
      (∀ f ∈ pending, f ∈ quiet) ∧ 0 < timers .killToken ∧ e.currentNextAddress = 2
  | .resetting =>
      (∀ f ∈ pending, f ∈ quiet) ∧ 0 < timers .sendReset ∧ e.currentNextAddress = 2
  | .enumerating =>
      ∃ pre, pending = pre ++ [gwCmdHaveToken] ∧ (∀ f ∈ pre, f ∈ quiet)
        ∧ 2 ≤ e.currentNextAddress ∧ e.currentNextAddress ≤ deviceHighAddress
  | .settingAddr | .settingGwAddr =>
      pending = [sendAddress e.currentNextAddress]
        ∧ 2 ≤ e.currentNextAddress ∧ e.currentNextAddress < deviceHighAddress
  | .advancingToken =>
      pending = [sendTokAdvance e.currentNextAddress]
        ∧ 2 ≤ e.currentNextAddress ∧ e.currentNextAddress < deviceHighAddress
  | .fetchingClasses =>
      ∃ pre, pending = pre ++ [sendAddrInfoReq (e.currentAddrInfoAddr - 1)]
        ∧ (∀ f ∈ pre, f ∈ quiet) ∧ 3 ≤ e.currentAddrInfoAddr
        ∧ e.currentAddrInfoAddr ≤ e.currentNextAddress ∧ e.currentNextAddress ≤ deviceHighAddress
  | .enumerated => pending = []

def Phase (s : EnumBus) : Prop := Waits s.enum s.pending s.timers

theorem needsAck_sendTokAdvance {a : Nat} (h : a < deviceHighAddress) :
    (sendTokAdvance a).needsAck = true := by
  have h7 : a.testBit 7 = false := Nat.testBit_lt_two_pow h
  simp [FrameT.needsAck, FrameT.isAck, sendTokAdvance, h7]

theorem needsAck_sendAddrInfoReq {a : Nat} (h : a < deviceHighAddress) :
    (sendAddrInfoReq a).needsAck = true := by
  have h7 : a.testBit 7 = false := Nat.testBit_lt_two_pow h
  simp [FrameT.needsAck, FrameT.isAck, sendAddrInfoReq, h7]

@[simp] theorem needsAck_sendAddress (a : Nat) : (sendAddress a).needsAck = true := by
  simp [FrameT.needsAck, FrameT.isAck, sendAddress]

theorem quiet_needsAck {f : FrameT} (h : f ∈ quiet) : f.needsAck = true := by
  revert f
  decide

/-- The answer to a quiet frame carries no data. -/
theorem answers_quiet {f : FrameT} {p : PackedFrame} (h : Answers f p) (hf : f ∈ quiet) :
    p.payload = [] := by
  have hw : ∀ f ∈ quiet, f.wantsData = false := by decide
  have hlen := h.2.1
  rw [hw f hf] at hlen
  exact List.length_eq_zero_iff.mp hlen

theorem answers_haveToken {p : PackedFrame} (h : Answers gwCmdHaveToken p) :
    p.isAck = true ∧ ∃ b, p.payload = [b] :=
  ⟨h.1, List.length_eq_one_iff.mp h.2.1⟩

theorem answers_sendAddress {a : Nat} {p : PackedFrame} (ha : a < deviceHighAddress)
    (h : Answers (sendAddress a) p) : p.isAck = true ∧ p.payload = [] ∧ p.source = a := by
  have h128 : deviceHighAddress = 128 := rfl
  refine ⟨h.1, List.length_eq_zero_iff.mp h.2.1, ?_⟩
  rw [h.2.2.2 _ rfl, BitVec.toNat_ofNat]
  exact Nat.mod_eq_of_lt (by omega)

theorem answers_sendTokAdvance {a : Nat} {p : PackedFrame} (ha : 2 ≤ a)
    (h : Answers (sendTokAdvance a) p) : p.isAck = true ∧ p.payload = [] ∧ p.source = a :=
  ⟨h.1, List.length_eq_zero_iff.mp h.2.1, h.2.2.1 (by simp only [sendTokAdvance]; omega)⟩

theorem answers_sendAddrInfoReq {a : Nat} {p : PackedFrame} (ha : 2 ≤ a)
    (h : Answers (sendAddrInfoReq a) p) :
    p.isAck = true ∧ p.payload.length = 1 ∧ p.source = a :=
  ⟨h.1, h.2.1, h.2.2.1 (by simp only [sendAddrInfoReq]; omega)⟩

/-- An ack without data is taken notice of only where a new device is
waited for. -/
theorem dispatch_empty {e : Enum} {p : PackedFrame} (hp : p.payload = [])
    (hs : e.state ≠ .settingAddr ∧ e.state ≠ .settingGwAddr ∧ e.state ≠ .advancingToken) :
    e.dispatch p = some (e, []) := by
  have hfsm : e.fsm .newDevAck = some (e, []) := by
    rw [Enum.fsm]
    cases he : e.state <;> simp_all
  simp only [Enum.dispatch, hp, List.length_nil, hfsm]
  split
  · simp_all
  · split
    · split
      · rfl
      · simp
    · rfl

theorem dispatch_haveToken {e : Enum} {p : PackedFrame} {b : Byte} (hs : e.state = .enumerating)
    (ha : p.isAck = true) (hp : p.payload = [b]) :
    e.dispatch p = e.fsm (if b = 0 then .devPresent else .tokAtGw) := by
  rw [Enum.dispatch, if_pos ⟨hs, by simp [hp], ha⟩, hp]
  show (if b = 0 then _ else _) = _
  split <;> rfl

theorem dispatch_newDev {e : Enum} {p : PackedFrame} (hs : e.state ≠ .idle)
    (ha : p.isAck = true) (hp : p.payload = []) (hsrc : p.source = e.currentNextAddress) :
    e.dispatch p = e.fsm .newDevAck := by
  rw [Enum.dispatch, if_neg (by simp [hp]), if_pos hs, if_pos ⟨hsrc, ha⟩]

theorem dispatch_addrInfo {e : Enum} {p : PackedFrame} (hs : e.state = .fetchingClasses)
    (ha : p.isAck = true) (hp : p.payload.length = 1) (hsrc : p.source ≠ e.currentNextAddress) :
    e.dispatch p = (e.record p).fsm .addrInfoAck := by
  rw [Enum.dispatch, if_neg (by simp [hs]), if_pos (by simp [hs]), if_neg fun h => hsrc h.1,
    if_pos ⟨ha, hs, hp⟩]
  rfl

theorem ne_haveToken_of_sric {f : FrameT} (h : f.type = .sric) : f ≠ gwCmdHaveToken := by
  intro hx
  obtain rfl := hx
  cases h

/-- What the answer to the oldest frame that waits for one does. -/
theorem Phase.answer {s : EnumBus} {f : FrameT} {rest : List FrameT} {p : PackedFrame}
    (h : s.Phase) (hq : s.pending = f :: rest) (ha : Answers f p) :
    (f ∈ quiet ∧ s.enum.dispatch p = some (s.enum, []))
      ∨ (rest = [] ∧ p.isAck = true
          ∧ ((f = gwCmdHaveToken ∧ s.enum.state = .enumerating ∧ ∃ b, p.payload = [b])
            ∨ (f ≠ gwCmdHaveToken ∧ p.payload = [] ∧ p.source = s.enum.currentNextAddress
              ∧ (s.enum.state = .settingAddr ∨ s.enum.state = .settingGwAddr
                ∨ s.enum.state = .advancingToken))
            ∨ (f = sendAddrInfoReq (s.enum.currentAddrInfoAddr - 1)
              ∧ s.enum.state = .fetchingClasses ∧ p.payload.length = 1
              ∧ p.source = s.enum.currentAddrInfoAddr - 1))) := by
  have hquiet : f ∈ quiet → (s.enum.state ≠ .settingAddr ∧ s.enum.state ≠ .settingGwAddr
      ∧ s.enum.state ≠ .advancingToken) → s.enum.dispatch p = some (s.enum, []) :=
    fun hf => dispatch_empty (answers_quiet ha hf)
  -- the head of a list that ends in `g` is `g`, or among what comes before
  have hsnoc : ∀ {pre : List FrameT} {g : FrameT}, s.pending = pre ++ [g] →
      (f ∈ pre) ∨ (f = g ∧ rest = []) := by
    intro pre g hpre
    rw [hq] at hpre
    cases pre with
    | nil =>
        cases hpre
        exact .inr ⟨rfl, rfl⟩
    | cons a pre =>
        cases hpre
        exact .inl List.mem_cons_self
  unfold Phase Waits at h
  cases hs : s.enum.state with
  | idle | enumerated => simp [hs, hq] at h
  | killingToken | resetting =>
      simp only [hs] at h
      have hf := h.1 f (by simp [hq])
      exact .inl ⟨hf, hquiet hf (by simp [hs])⟩
  | enumerating =>
      simp only [hs] at h
      obtain ⟨pre, hpre, hqu, -⟩ := h
      rcases hsnoc hpre with hf | ⟨rfl, hr⟩
      · exact .inl ⟨hqu f hf, hquiet (hqu f hf) (by simp [hs])⟩
      · obtain ⟨hack, hb⟩ := answers_haveToken ha
        exact .inr ⟨hr, hack, .inl ⟨rfl, rfl, hb⟩⟩
  | settingAddr | settingGwAddr =>
      simp only [hs] at h
      obtain ⟨hpend, h2, hlt⟩ := h
      rw [hq] at hpend
      cases hpend
      obtain ⟨hack, hp, hsrc⟩ := answers_sendAddress hlt ha
      exact .inr ⟨rfl, hack, .inr (.inl ⟨ne_haveToken_of_sric rfl, hp, hsrc, by simp⟩)⟩
  | advancingToken =>
      simp only [hs] at h
      obtain ⟨hpend, h2, hlt⟩ := h
      rw [hq] at hpend
      cases hpend
      obtain ⟨hack, hp, hsrc⟩ := answers_sendTokAdvance h2 ha
      exact .inr ⟨rfl, hack, .inr (.inl ⟨ne_haveToken_of_sric rfl, hp, hsrc, by simp⟩)⟩
  | fetchingClasses =>
      simp only [hs] at h
      obtain ⟨pre, hpre, hqu, h3, hle, hnext⟩ := h
      rcases hsnoc hpre with hf | ⟨rfl, hr⟩
      · exact .inl ⟨hqu f hf, hquiet (hqu f hf) (by simp [hs])⟩
      · obtain ⟨hack, hp, hsrc⟩ := answers_sendAddrInfoReq (by omega) ha
        exact .inr ⟨hr, hack, .inr (.inr ⟨rfl, rfl, hp, hsrc⟩)⟩

/-! ## Steps -/

/-- **What a step can do** in a state that meets `Phase`. -/
inductive Turn (s : EnumBus) : EnumBusEvent → EnumBus → List EnumAction → Prop where
  | start : s.enum.state = .idle → Turn s .start
      ({ s with enum := { s.enum with state := .killingToken } }.acts
        [.push (sendTokAdvance 0), .push (sendTokAdvance 0), .push gwCmdReqToken,
          .addTimer .killToken])
      [.push (sendTokAdvance 0), .push (sendTokAdvance 0), .push gwCmdReqToken,
        .addTimer .killToken]
  | started : s.enum.state ≠ .idle → Turn s .start s []
  | sent {f : FrameT} {rest : List FrameT} : s.queue = f :: rest → f.needsAck = false →
      Turn s .sent { s with queue := rest } []
  | other {f : FrameT} : f.needsAck = false →
      Turn s (.other f) { s with queue := s.queue ++ [f] } []
  | quiet {f : FrameT} {rest : List FrameT} {p : PackedFrame} : s.queue = f :: rest → f ∈ quiet →
      Turn s (.answer p) { s with queue := rest } []
  | devPresent {rest : List FrameT} {p : PackedFrame} :
      s.queue = gwCmdHaveToken :: rest → rest.filter FrameT.needsAck = [] → p.payload = [0] →
      s.enum.state = .enumerating → s.enum.currentNextAddress < deviceHighAddress →
      Turn s (.answer p)
        ({ s with
            queue := rest
            queries := s.queries + 1
            enum := { s.enum with state := .settingAddr } }.acts
          [.push (sendAddress s.enum.currentNextAddress)])
        [.push (sendAddress s.enum.currentNextAddress)]
  | tokAtGw {rest : List FrameT} {p : PackedFrame} :
      s.queue = gwCmdHaveToken :: rest → rest.filter FrameT.needsAck = [] → p.payload ≠ [0] →
      s.enum.state = .enumerating → s.enum.currentNextAddress < deviceHighAddress →
      Turn s (.answer p)
        ({ s with
            queue := rest
            queries := s.queries + 1
            enum := { s.enum with state := .settingGwAddr } }.acts
          [.push (sendAddress s.enum.currentNextAddress)])
        [.push (sendAddress s.enum.currentNextAddress)]
  | addrSet {f : FrameT} {rest : List FrameT} {p : PackedFrame} : s.queue = f :: rest →
      rest.filter FrameT.needsAck = [] → s.enum.state = .settingAddr →
      Turn s (.answer p)
        ({ s with queue := rest, enum := { s.enum with state := .advancingToken } }.acts
          [.push (sendTokAdvance s.enum.currentNextAddress)])
        [.push (sendTokAdvance s.enum.currentNextAddress)]
  | advanced {f : FrameT} {rest : List FrameT} {p : PackedFrame} : s.queue = f :: rest →
      rest.filter FrameT.needsAck = [] → s.enum.state = .advancingToken →
      Turn s (.answer p)
        ({ s with
            queue := rest
            enum := { s.enum with
              currentNextAddress := s.enum.currentNextAddress + 1, state := .enumerating } }.acts
          [.push gwCmdHaveToken])
        [.push gwCmdHaveToken]
  | gwAddrSet {f : FrameT} {rest : List FrameT} {p : PackedFrame} : s.queue = f :: rest →
      rest.filter FrameT.needsAck = [] → s.enum.state = .settingGwAddr →
      Turn s (.answer p)
        ({ s with
            queue := rest
            enum := { s.enum with
              currentNextAddress := s.enum.currentNextAddress + 1
              state := .fetchingClasses
              addrInfoReplies := fun _ => false
              currentAddrInfoAddr := 3 } }.acts
          [.push (gwCmdUseToken true), .push gwCmdGenToken, .push (sendAddrInfoReq 2)])
        [.push (gwCmdUseToken true), .push gwCmdGenToken, .push (sendAddrInfoReq 2)]
  | fetchNext {rest : List FrameT} {p : PackedFrame} :
      s.queue = sendAddrInfoReq (s.enum.currentAddrInfoAddr - 1) :: rest →
      rest.filter FrameT.needsAck = [] → p.source = s.enum.currentAddrInfoAddr - 1 →
      s.enum.state = .fetchingClasses → s.enum.currentAddrInfoAddr < s.enum.currentNextAddress →
      Turn s (.answer p)
        ({ s with
            queue := rest
            enum := { s.enum.record p with
              currentAddrInfoAddr := s.enum.currentAddrInfoAddr + 1 } }.acts
          [.push (sendAddrInfoReq s.enum.currentAddrInfoAddr)])
        [.push (sendAddrInfoReq s.enum.currentAddrInfoAddr)]
  | classesFetched {rest : List FrameT} {p : PackedFrame} :
      s.queue = sendAddrInfoReq (s.enum.currentAddrInfoAddr - 1) :: rest →
      rest.filter FrameT.needsAck = [] → p.source = s.enum.currentAddrInfoAddr - 1 →
      s.enum.state = .fetchingClasses → s.enum.currentAddrInfoAddr = s.enum.currentNextAddress →
      Turn s (.answer p)
        ({ s with queue := rest, enum := { s.enum.record p with state := .enumerated } }.acts
          ((List.range' 2 (s.enum.currentNextAddress - 2)).map fun i =>
            .deviceAdd i ((s.enum.record p).deviceClasses i)))
        ((List.range' 2 (s.enum.currentNextAddress - 2)).map fun i =>
          .deviceAdd i ((s.enum.record p).deviceClasses i))
  | tokenCaught : s.enum.state = .killingToken → Turn s (.timeout .killToken)
      ({ s.drop .killToken with enum := { s.enum with state := .resetting } }.acts
        [.push (gwCmdUseToken false), .addTimer .sendReset])
      [.push (gwCmdUseToken false), .addTimer .sendReset]
  | lateKill : s.enum.state ≠ .killingToken →
      Turn s (.timeout .killToken) (s.drop .killToken) []
  | resetAgain {n : Nat} : n ≤ 5 → n = (s.enum.resetCount + 1) % 256 → Turn s (.timeout .sendReset)
      ({ s with enum := { s.enum with resetCount := n } }.acts [.push sendReset])
      [.push sendReset]
  | busReset {n : Nat} : 5 < n → n = (s.enum.resetCount + 1) % 256 → s.enum.state = .resetting →
      Turn s (.timeout .sendReset)
        ({ s.drop .sendReset with
            enum := { s.enum with resetCount := n, state := .enumerating } }.acts
          [.push gwCmdGenToken, .push gwCmdReqToken, .push gwCmdHaveToken])
        [.push gwCmdGenToken, .push gwCmdReqToken, .push gwCmdHaveToken]
  | lateReset {n : Nat} : 5 < n → n = (s.enum.resetCount + 1) % 256 → s.enum.state ≠ .resetting →
      Turn s (.timeout .sendReset)
        { s.drop .sendReset with enum := { s.enum with resetCount := n } } []

theorem enumStep_ok {s s' : EnumBus} {q : Option (Enum × List EnumAction)} {as : List EnumAction}
    (h : s.enumStep q = .ok (s', as)) :
    ∃ e, q = some (e, as) ∧ s' = { s with enum := e }.acts as := by
  cases q with
  | none => cases h
  | some r =>
      cases h
      exact ⟨r.1, rfl, rfl⟩

theorem pending_cons {s : EnumBus} {f : FrameT} {rest : List FrameT} (hq : s.queue = f :: rest)
    (hf : f.needsAck = true) : s.pending = f :: rest.filter FrameT.needsAck := by
  rw [pending, hq, List.filter_cons_of_pos hf]

theorem answer_turn {s s' : EnumBus} {f : FrameT} {rest : List FrameT} {p : PackedFrame}
    {as : List EnumAction} (h : s.Phase) (hq : s.queue = f :: rest) (hf : f.needsAck = true)
    (ha : Answers f p) (hs : s.answer f p = .ok (s', as)) : Turn s (.answer p) s' as := by
  obtain ⟨e, hd, rfl⟩ := enumStep_ok hs
  rw [hq, List.tail_cons]
  have hcount : f ≠ gwCmdHaveToken →
      (if f = gwCmdHaveToken then s.queries + 1 else s.queries) = s.queries := fun hne => if_neg hne
  have hphase := h
  rcases h.answer (pending_cons hq hf) ha with
    ⟨hqu, hsame⟩ | ⟨hrest, hack, ⟨rfl, hst, b, hb⟩ | ⟨hne, hp, hsrc, hst⟩ | ⟨rfl, hst, hp, hsrc⟩⟩
  · obtain ⟨rfl, rfl⟩ : s.enum = e ∧ [] = as := by simpa using hsame.symm.trans hd
    have hne : ∀ f ∈ quiet, f ≠ gwCmdHaveToken := by decide
    rw [hcount (hne f hqu)]
    exact .quiet hq hqu
  · rw [dispatch_haveToken hst hack hb, Enum.fsm] at hd
    simp only [hst] at hd
    rw [if_pos (by split <;> simp)] at hd
    split at hd
    · cases hd
    · rename_i hc
      rw [if_pos rfl]
      by_cases h0 : b = 0
      · simp only [h0, if_true] at hd
        cases hd
        exact .devPresent hq hrest (h0 ▸ hb) hst (Nat.lt_of_not_le hc)
      · have hp : p.payload ≠ [0] := fun h => h0 (List.cons.inj (hb.symm.trans h)).1
        simp only [h0, if_false] at hd
        cases hd
        exact .tokAtGw hq hrest hp hst (Nat.lt_of_not_le hc)
  · rw [hcount hne]
    rw [dispatch_newDev (by rcases hst with h | h | h <;> simp [h]) hack hp hsrc, Enum.fsm] at hd
    simp only [Phase, Waits] at hphase
    have hmod : s.enum.currentNextAddress < deviceHighAddress →
        (s.enum.currentNextAddress + 1) % 256 = s.enum.currentNextAddress + 1 :=
      fun h => Nat.mod_eq_of_lt (Nat.lt_trans (Nat.succ_lt_succ h) (by decide))
    rcases hst with hst | hst | hst
    · simp only [hst, if_true] at hd
      cases hd
      exact .addrSet hq hrest hst
    · simp only [hst] at hphase
      simp only [hst, if_true, hmod hphase.2.2] at hd
      cases hd
      exact .gwAddrSet hq hrest hst
    · simp only [hst] at hphase
      simp only [hst, if_true, hmod hphase.2.2] at hd
      cases hd
      exact .advanced hq hrest hst
  · rw [hcount (ne_haveToken_of_sric rfl)]
    simp only [Phase, Waits, hst] at hphase
    obtain ⟨-, -, -, h3, hle, hlt⟩ := hphase
    have hst' : (s.enum.record p).state = .fetchingClasses := hst
    rw [dispatch_addrInfo hst hack hp (by omega), Enum.fsm] at hd
    simp only [hst', if_true] at hd
    split at hd
    · rename_i hc
      cases hd
      exact .classesFetched hq hrest hsrc hst hc
    · rename_i hc
      cases hd
      have hne : s.enum.currentAddrInfoAddr ≠ s.enum.currentNextAddress := hc
      have h128 : deviceHighAddress = 128 := rfl
      have hmod : ((s.enum.record p).currentAddrInfoAddr + 1) % 256
          = s.enum.currentAddrInfoAddr + 1 := Nat.mod_eq_of_lt (by simp only [Enum.record]; omega)
      rw [hmod]
      have := Turn.fetchNext hq hrest hsrc hst (by omega)
      simpa [Enum.record, hst] using this

/-- Each of the timeouts, and the start, is taken notice of in one state
only. -/
theorem fsm_ignored {e : Enum} {ev : EnumEvent} {st : EnumState}
    (hev : (ev, st) ∈ [(EnumEvent.startEnum, EnumState.idle), (.tokenCatchTimeout, .killingToken),
      (.busReset, .resetting)]) (hst : e.state ≠ st) : e.fsm ev = some (e, []) := by
  rw [Enum.fsm]
  simp only [List.mem_cons, Prod.mk.injEq, List.not_mem_nil, or_false] at hev
  cases hs : e.state <;> rcases hev with ⟨rfl, rfl⟩ | ⟨rfl, rfl⟩ | ⟨rfl, rfl⟩ <;> simp_all

theorem step_turn {s s' : EnumBus} {ev : EnumBusEvent} {as : List EnumAction} (h : s.Phase)
    (hs : s.step ev = .ok (s', as)) : Turn s ev s' as := by
  rw [step] at hs
  split at hs
  case isFalse => cases hs
  rename_i hen
  have hhead : ∀ f, f ∈ s.queue.head? → s.queue = f :: s.queue.tail := by
    intro f hf
    cases hq : s.queue with
    | nil => simp [hq] at hf
    | cons g rest => simp_all
  cases ev with
  | start =>
      obtain ⟨e, he, rfl⟩ := enumStep_ok hs
      by_cases hst : s.enum.state = .idle
      · simp only [Enum.start, Enum.fsm, hst, if_true] at he
        cases he
        exact .start hst
      · rw [Enum.start, fsm_ignored (by simp) hst] at he
        cases he
        exact .started hst
  | sent =>
      obtain ⟨f, hf, hna⟩ := hen
      cases hs
      exact .sent (hhead f hf) hna
  | other f =>
      cases hs
      exact .other hen
  | answer p =>
      obtain ⟨f, hf, hna, ha⟩ := hen
      have hq := hhead f hf
      simp only [handle, Option.mem_def.mp hf] at hs
      exact answer_turn h hq hna ha hs
  | timeout t =>
      cases t with
      | killToken =>
          obtain ⟨e, he, rfl⟩ := enumStep_ok hs
          by_cases hst : s.enum.state = .killingToken
          · simp only [Enum.killTokenTimeout, Enum.fsm, hst, if_true] at he
            cases he
            exact .tokenCaught hst
          · rw [Enum.killTokenTimeout, fsm_ignored (by simp) hst] at he
            cases he
            exact .lateKill hst
      | sendReset =>
          simp only [handle, Enum.sendResetTimeout] at hs
          by_cases hn : (s.enum.resetCount + 1) % 256 > 5
          · simp only [hn, if_true] at hs
            by_cases hst : s.enum.state = .resetting
            · simp only [Enum.fsm, hst, if_true] at hs
              cases hs
              exact .busReset hn rfl hst
            · have hst' : { s.enum with resetCount := (s.enum.resetCount + 1) % 256 }.state
                  ≠ .resetting := hst
              rw [fsm_ignored (by simp) hst'] at hs
              cases hs
              exact .lateReset hn rfl hst
          · simp only [hn, if_false] at hs
            cases hs
            exact .resetAgain (Nat.le_of_not_lt hn) rfl

/-! ## `Phase` on every run -/

/-- A quiet frame is none of those that the enumeration waits for. -/
theorem quiet_ne {f : FrameT} (h : f ∈ quiet) :
    f ≠ gwCmdHaveToken ∧ f.assigns = none ∧ f.asks = none ∧ (f.type = .sric → f.address = 0) := by
  revert f
  decide

/-- `Phase` is about the frames that wait, and a timeout in two states. -/
theorem Phase.congr {s s' : EnumBus} {n : Nat} (h : s.Phase) (hp : s'.pending = s.pending)
    (he : s'.enum = { s.enum with resetCount := n })
    (hk : s.enum.state = .killingToken → s'.timers .killToken = s.timers .killToken)
    (hr : s.enum.state = .resetting → s'.timers .sendReset = s.timers .sendReset) : s'.Phase := by
  unfold Phase Waits at h ⊢
  rw [he, hp]
  cases hs : s.enum.state with
  | killingToken => simpa only [hs, hk hs] using h
  | resetting => simpa only [hs, hr hs] using h
  | _ => simpa only [hs] using h

theorem snoc_tail {f g : FrameT} {l pre : List FrameT} (h : f :: l = pre ++ [g]) (hne : f ≠ g)
    (hqu : ∀ x ∈ pre, x ∈ quiet) : ∃ pre', l = pre' ++ [g] ∧ ∀ x ∈ pre', x ∈ quiet := by
  cases pre with
  | nil =>
      cases h
      exact absurd rfl hne
  | cons a pre =>
      cases h
      exact ⟨pre, rfl, fun x hx => hqu x (List.mem_cons_of_mem _ hx)⟩

/-- A quiet frame may go. -/
theorem Phase.quiet {s s' : EnumBus} {f : FrameT} (h : s.Phase) (hp : s.pending = f :: s'.pending)
    (hf : f ∈ quiet) (he : s'.enum = s.enum) (ht : s'.timers = s.timers) : s'.Phase := by
  obtain ⟨hhave, hassign, hask, haddr⟩ := quiet_ne hf
  unfold Phase Waits at h ⊢
  rw [he, ht]
  cases hs : s.enum.state with
  | idle | enumerated => simp [hs, hp] at h
  | killingToken | resetting =>
      simp only [hs] at h ⊢
      exact ⟨fun g hg => h.1 g (by rw [hp]; exact List.mem_cons_of_mem _ hg), h.2⟩
  | enumerating =>
      simp only [hs] at h ⊢
      obtain ⟨pre, hpre, hqu, hrest⟩ := h
      obtain ⟨pre', hpre', hqu'⟩ := snoc_tail (hp.symm.trans hpre) hhave hqu
      exact ⟨pre', hpre', hqu', hrest⟩
  | settingAddr | settingGwAddr =>
      simp only [hs, hp, List.cons.injEq] at h
      obtain ⟨⟨rfl, -⟩, -⟩ := h
      cases hassign
  | advancingToken =>
      simp only [hs, hp, List.cons.injEq] at h
      obtain ⟨⟨rfl, -⟩, h2, -⟩ := h
      have : s.enum.currentNextAddress = 0 := haddr rfl
      omega
  | fetchingClasses =>
      simp only [hs] at h ⊢
      obtain ⟨pre, hpre, hqu, hrest⟩ := h
      obtain ⟨pre', hpre', hqu'⟩ := snoc_tail (hp.symm.trans hpre)
        (by rintro rfl; cases hask) hqu
      exact ⟨pre', hpre', hqu', hrest⟩

/-- The frames among these actions. -/
def frames (as : List EnumAction) : List FrameT :=
  as.filterMap fun
    | .push f => some f
    | _ => none

theorem mem_frames {as : List EnumAction} {f : FrameT} : f ∈ frames as ↔ .push f ∈ as := by
  rw [frames, List.mem_filterMap]
  constructor
  · intro hx
    obtain ⟨a, ha, hf⟩ := hx
    cases a <;> cases hf
    exact ha
  · exact fun h => ⟨_, h, rfl⟩

theorem acts_queue (s : EnumBus) (as : List EnumAction) :
    (s.acts as).queue = s.queue ++ frames as := by
  induction as generalizing s with
  | nil => exact (List.append_nil _).symm
  | cons a as ih =>
      show ((s.act a).acts as).queue = _
      rw [ih]
      cases a with
      | push f => exact List.append_assoc ..
      | addTimer t => rfl
      | deviceAdd i t => rfl

theorem frames_deviceAdd (g : Nat → Byte) (l : List Nat) :
    frames (l.map fun i => .deviceAdd i (g i)) = [] := by
  rw [frames, List.filterMap_map]
  exact List.filterMap_eq_nil_iff.mpr fun _ _ => rfl

/-- The frames among these actions that want an answer. -/
def pushed (as : List EnumAction) : List FrameT := (frames as).filter FrameT.needsAck

theorem pushed_nil : pushed [] = [] := rfl

@[simp] theorem pushed_push {f : FrameT} {as : List EnumAction} (hf : f.needsAck = true) :
    pushed (.push f :: as) = f :: pushed as := List.filter_cons_of_pos hf

/-- What is pushed waits behind what waits already. -/
theorem pending_acts (s : EnumBus) (as : List EnumAction) :
    (s.acts as).pending = s.pending ++ pushed as := by
  rw [pending, acts_queue, List.filter_append]
  rfl

theorem acts_enum (s : EnumBus) (as : List EnumAction) : (s.acts as).enum = s.enum := by
  induction as generalizing s with
  | nil => rfl
  | cons a as ih =>
      show ((s.act a).acts as).enum = _
      rw [ih]
      cases a <;> rfl

theorem acts_timers (s : EnumBus) (as : List EnumAction) (t : EnumTimer) :
    (s.acts as).timers t = s.timers t + as.count (.addTimer t) := by
  induction as generalizing s with
  | nil => rfl
  | cons a as ih =>
      show ((s.act a).acts as).timers t = _
      rw [ih, List.count_cons]
      cases a with
      | push f => simp [act]
      | deviceAdd i t => simp [act]
      | addTimer u =>
          by_cases hu : t = u
          · subst hu
            simp [act]
            omega
          · simp [act, hu, Ne.symm hu]

theorem phase_acts {s : EnumBus} {q : List FrameT} {as : List EnumAction} (hq : s.pending = q)
    (h : Waits s.enum (q ++ pushed as) fun t => s.timers t + as.count (.addTimer t)) :
    (s.acts as).Phase := by
  rw [Phase, acts_enum, pending_acts, hq, funext (acts_timers s as)]
  exact h

/-- **Every step keeps `Phase`.** -/
theorem Turn.phase {s s' : EnumBus} {ev : EnumBusEvent} {as : List EnumAction} (h : s.Phase)
    (ht : Turn s ev s' as) : s'.Phase := by
  have hphase := h
  unfold Phase Waits at hphase
  cases ht with
  | start hst =>
      simp only [hst] at hphase
      refine phase_acts hphase.1 ?_
      rw [pushed_push (by decide), pushed_push (by decide), pushed_push (by decide)]
      exact ⟨by decide, by simp, hphase.2⟩
  | started => exact h
  | @sent f rest hq hna =>
      refine h.congr (n := s.enum.resetCount) ?_ rfl (fun _ => rfl) (fun _ => rfl)
      rw [pending, pending, hq, List.filter_cons_of_neg (by simp [hna])]
  | other hna =>
      refine h.congr (n := s.enum.resetCount) ?_ rfl (fun _ => rfl) (fun _ => rfl)
      simp [pending, hna]
  | quiet hq hqu => exact h.quiet (pending_cons hq (quiet_needsAck hqu)) hqu rfl rfl
  | devPresent hq hrest hp hst hc | tokAtGw hq hrest hp hst hc =>
      simp only [hst] at hphase
      obtain ⟨-, -, -, h2, -⟩ := hphase
      refine phase_acts hrest ?_
      rw [pushed_push (by simp)]
      exact ⟨rfl, h2, hc⟩
  | addrSet hq hrest hst =>
      simp only [hst] at hphase
      refine phase_acts hrest ?_
      rw [pushed_push (needsAck_sendTokAdvance hphase.2.2)]
      exact ⟨rfl, hphase.2⟩
  | advanced hq hrest hst =>
      simp only [hst] at hphase
      refine phase_acts hrest ?_
      rw [pushed_push (by decide)]
      exact ⟨[], rfl, by simp, Nat.le_succ_of_le hphase.2.1, hphase.2.2⟩
  | gwAddrSet hq hrest hst =>
      simp only [hst] at hphase
      refine phase_acts hrest ?_
      rw [pushed_push (by decide), pushed_push (by decide), pushed_push (by decide)]
      exact ⟨[gwCmdUseToken true, gwCmdGenToken], rfl, by decide, Nat.le_refl _,
        Nat.succ_le_succ hphase.2.1, hphase.2.2⟩
  | fetchNext hq hrest hsrc hst hc =>
      simp only [hst] at hphase
      obtain ⟨-, -, -, h3, -, hle⟩ := hphase
      refine phase_acts hrest ?_
      rw [pushed_push (needsAck_sendAddrInfoReq (Nat.lt_of_lt_of_le hc hle))]
      unfold Waits
      simp only [Enum.record, hst]
      exact ⟨[], rfl, by simp, Nat.le_succ_of_le h3, hc, hle⟩
  | classesFetched hq hrest hsrc hst hc =>
      refine phase_acts hrest ?_
      show pushed _ = []
      rw [pushed, frames_deviceAdd]
      rfl
  | tokenCaught hst =>
      simp only [hst] at hphase
      apply phase_acts rfl
      rw [pushed_push (by decide)]
      refine ⟨?_, by simp, hphase.2.2⟩
      intro f hf
      rcases List.mem_append.mp hf with hf | hf
      · exact hphase.1 f hf
      · rw [List.mem_singleton.mp hf]
        decide
  | lateKill hst =>
      refine h.congr (n := s.enum.resetCount) rfl rfl (fun hk => absurd hk hst) ?_
      intro _
      simp [drop]
  | resetAgain hn hrc =>
      refine h.congr (n := _) ?_ (acts_enum _ _) (?_) ?_
      · rw [pending_acts]
        exact List.append_nil _
      · intro _
        rw [acts_timers]
        rfl
      · intro _
        rw [acts_timers]
        rfl
  | busReset hn hrc hst =>
      simp only [hst] at hphase
      apply phase_acts rfl
      rw [pushed_push (by decide), pushed_push (by decide), pushed_push (by decide), pushed_nil]
      refine ⟨s.pending ++ [gwCmdGenToken, gwCmdReqToken], by simp [pending, drop], ?_, ?_, ?_⟩
      · intro f hf
        rcases List.mem_append.mp hf with hf | hf
        · exact hphase.1 f hf
        · exact (by decide : ∀ g ∈ [gwCmdGenToken, gwCmdReqToken], g ∈ EnumBus.quiet) f hf
      · exact Nat.le_of_eq hphase.2.2.symm
      · exact Nat.le_trans (Nat.le_of_eq hphase.2.2) (by decide)
  | lateReset hn hrc hst =>
      exact h.congr rfl rfl (fun _ => by simp [drop]) fun hr => absurd hr hst

theorem phase_init (d : Devices) : (init d).Phase := ⟨rfl, rfl⟩

theorem phase_step (s : EnumBus) (ev : EnumBusEvent) (s' : EnumBus) (as : List EnumAction)
    (h : s.Phase) (hs : s.step ev = .ok (s', as)) : s'.Phase :=
  (step_turn h hs).phase h

/-- While enumeration is going on, something is waited for. -/
theorem Phase.waits {s : EnumBus} (h : s.Phase) (hidle : s.enum.state ≠ .idle)
    (hen : s.enum.state ≠ .enumerated) :
    (∃ t, 0 < s.timers t) ∨ ∃ f ∈ s.queue, f.needsAck = true := by
  have hmem : ∀ f, f ∈ s.pending → f ∈ s.queue ∧ f.needsAck = true := fun f => List.mem_filter.mp
  unfold Phase Waits at h
  cases hs : s.enum.state with
  | idle => exact absurd hs hidle
  | enumerated => exact absurd hs hen
  | killingToken =>
      simp only [hs] at h
      exact .inl ⟨_, h.2.1⟩
  | resetting =>
      simp only [hs] at h
      exact .inl ⟨_, h.2.1⟩
  | enumerating | fetchingClasses =>
      simp only [hs] at h
      obtain ⟨pre, hpre, -⟩ := h
      exact .inr ⟨_, hmem _ (by rw [hpre]; exact List.mem_append_right _ List.mem_cons_self)⟩
  | settingAddr | settingGwAddr | advancingToken =>
      simp only [hs] at h
      exact .inr ⟨_, hmem _ (by rw [h.1]; exact List.mem_cons_self)⟩

end EnumBus

end Sricd
