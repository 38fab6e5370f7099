import Sricd.Crashes
import Sricd.Lib.Ranking
import Sricd.Service
import Sricd.SimulatedEnum

/-!
# The daemon and the simulated bus

The serial interface and `ostric` at the two ends of the pseudo-terminal,
each at its own pace: a frame that is written waits until `ostric`
processes it, and what `ostric` writes in answer waits until the daemon
reads it. Meanwhile frames time out and are written once more.

Where nothing is written while an answer is on its way (`InTurn`) each step
is one of the `Simulation`, or none (`Follows.step`).
-/

namespace Sricd

open Sricd.Lib

/-- The serial interface and `ostric`, and what is between them. -/
structure Bench where
  sricIf : SricIf
  bus : OstricBus
  /-- written to the end by `if_tx`, and not processed by `ostric` -/
  sent : List FrameT
  /-- the frames in what `ostric` has written, and the daemon has not read -/
  replies : List (List Byte)

inductive BenchEvent where
  | enumStart
  | write (id : Nat) (w : Option Nat)
  | txTimeout (id : Nat)
  | killToken (id : Nat)
  | sendReset (id : Nat)
  /-- `ostric` processes a frame, and calls `advance_token` -/
  | hear
  /-- `ostric` calls `advance_token` -/
  | prod
  /-- the daemon reads a frame -/
  | read
deriving DecidableEq

/-- A frame or a timeout is dealt with. -/
def BenchEvent.works : BenchEvent → Bool
  | .hear | .killToken _ | .sendReset _ => true
  | _ => false

namespace Bench

/-- Before enumeration, with `n` clients. -/
def init (n : Nat) : Bench where
  sricIf := .init
  bus := .init n
  sent := []
  replies := []

def call (s : Bench) (ev : IfEvent) : Except Halt (Bench × List IfOut) := do
  let (sricIf, out) ← s.sricIf.step ev
  .ok ({ s with sricIf }, out)

/-- One event. -/
def step (s : Bench) : BenchEvent → Except Halt (Bench × List IfOut)
  | .enumStart => s.call .enumStart
  | .write id w => do
      let (sricIf, out) ← s.sricIf.step (.ifTx id w)
      .ok ({ s with
        sricIf
        sent := s.sent ++ ((s.sricIf.finished sricIf).map TxEntry.frame).toList }, out)
  | .txTimeout id => s.call (.txTimeout id)
  | .killToken id => s.call (.killToken id)
  | .sendReset id => s.call (.sendReset id)
  | .hear =>
      match s.sent with
      | [] => .error .disabled
      | f :: sent =>
          let (bus, out) := s.bus.hear f
          .ok ({ s with bus := bus.advanceToken, sent, replies := s.replies ++ received out }, [])
  | .prod => .ok ({ s with bus := s.bus.advanceToken }, [])
  | .read =>
      match s.replies with
      | [] => .error .disabled
      | bytes :: replies => { s with replies }.call (.frame bytes)

/-- No answer is on its way, nor will one be to what has been written. -/
def Clear (s : Bench) : Prop := s.replies = [] ∧ ∀ f ∈ s.sent, f.needsAck = false

instance (s : Bench) : Decidable s.Clear := inferInstanceAs (Decidable (_ ∧ _))

/-- Nothing is written while an answer is on its way. -/
def InTurn (s : Bench) : BenchEvent → Prop
  | .write _ _ => s.sricIf.Busy → s.Clear
  | _ => True

instance (s : Bench) : DecidablePred s.InTurn
  | .write _ _ => inferInstanceAs (Decidable (s.sricIf.Busy → s.Clear))
  | .enumStart | .txTimeout _ | .killToken _ | .sendReset _ | .hear | .prod | .read =>
      inferInstanceAs (Decidable True)

section
variable {s s' : Bench} {out : List IfOut}

theorem call_ok {ev : IfEvent} (h : s.call ev = .ok (s', out)) :
    ∃ t, s.sricIf.step ev = .ok (t, out) ∧ s' = { s with sricIf := t } := by
  obtain ⟨⟨t, out'⟩, ht, hok⟩ := bind_ok.mp h
  cases hok
  exact ⟨t, ht, rfl⟩

theorem write_ok {id : Nat} {w : Option Nat} (h : s.step (.write id w) = .ok (s', out)) :
    ∃ t, s.sricIf.step (.ifTx id w) = .ok (t, out)
      ∧ s' = { s with
          sricIf := t
          sent := s.sent ++ ((s.sricIf.finished t).map TxEntry.frame).toList } := by
  obtain ⟨⟨t, out'⟩, ht, hok⟩ := bind_ok.mp h
  cases hok
  exact ⟨t, ht, rfl⟩

theorem hear_ok (h : s.step .hear = .ok (s', out)) :
    ∃ f rest, s.sent = f :: rest ∧ out = []
      ∧ s' = { s with
          bus := (s.bus.hear f).1.advanceToken
          sent := rest
          replies := s.replies ++ received (s.bus.hear f).2 } := by
  rw [step] at h
  split at h
  · cases h
  · rename_i f rest hsent
    cases h
    exact ⟨f, rest, hsent, rfl, rfl⟩

theorem read_ok (h : s.step .read = .ok (s', out)) :
    ∃ bytes rest t, s.replies = bytes :: rest ∧ s.sricIf.step (.frame bytes) = .ok (t, out)
      ∧ s' = { s with sricIf := t, replies := rest } := by
  rw [step] at h
  split at h
  · cases h
  · rename_i bytes rest hreplies
    obtain ⟨t, ht, rfl⟩ := call_ok h
    exact ⟨bytes, rest, t, hreplies, ht, rfl⟩

end

/-! ## Where a frame is on its way -/

/-- `k` resets have been written that the bus has not heard. -/
inductive Behind (n : Nat) : Nat → OstricBus → OstricBus → Prop where
  | level (bus : OstricBus) : Behind n 0 bus bus
  | resets (m : Nat) (g k : Bool) : Behind n (m + 1) (.quiet n g k) (.quiet n g true)

/-- One more is written. -/
theorem Behind.write {n k : Nat} {bus : OstricBus} {g keep : Bool}
    (h : Behind n k bus (.quiet n g keep)) : Behind n (k + 1) bus (.quiet n g true) := by
  generalize hb : OstricBus.quiet n g keep = b at h
  cases h with
  | level =>
      subst hb
      exact .resets 0 g keep
  | resets m g' k' =>
      obtain rfl : g = g' := congrArg OstricBus.gwKeepToken hb
      exact .resets (m + 1) g k'

/-- One of them is heard. -/
theorem Behind.hear {n k : Nat} {bus bus' : OstricBus} (h : Behind n (k + 1) bus bus') :
    Behind n k (bus.hear sendReset).1.advanceToken bus' ∧ (bus.hear sendReset).2 = [] := by
  cases h with
  | resets m g k' =>
      rw [OstricBus.hear_reset, OstricBus.advance_quiet]
      refine ⟨?_, rfl⟩
      cases k with
      | zero => exact .level _
      | succ k => exact .resets k g true

theorem Behind.same {n : Nat} {bus bus' : OstricBus} (h : Behind n 0 bus bus') : bus = bus' := by
  cases h
  rfl

theorem Behind.settled {n k : Nat} {bus bus' : OstricBus} (h : Behind n k bus bus')
    (hsettled : Simulation.Settled n bus') : Simulation.Settled n bus := by
  cases h with
  | level => exact hsettled
  | resets m g k' => exact Simulation.settled_quiet ..

/-- **Where the oldest frame is**, and how much is left to be done. -/
inductive Underway (n : Nat) (s : Bench) (a : Simulation) : Nat → Prop where
  /-- it has not been written, or nobody has answered -/
  | clear {k : Nat} : s.sent = List.replicate k sendReset → s.replies = [] →
      Behind n k s.bus a.bus → Underway n s a (a.left n + k)
  /-- it is behind some resets -/
  | asked {k : Nat} {e : TxEntry} : s.sricIf.txFrame = some e → e.frame.needsAck = true →
      s.sent = List.replicate k sendReset ++ [e.frame] → s.replies = [] →
      Behind n k s.bus a.bus → Underway n s a (a.left n + k)
  /-- it has been answered -/
  | answered {e : TxEntry} : s.sricIf.txFrame = some e → e.frame.needsAck = true → s.sent = [] →
      s.replies = received (a.bus.hear e.frame).2 → s.replies ≠ [] →
      s.bus = (a.bus.hear e.frame).1.advanceToken → Underway n s a (a.left n - 1)
  /-- there are only more acks of the frame before it -/
  | settled : s.sricIf.txFrame = none → s.sent = [] → (∀ bytes ∈ s.replies, IsAck bytes) →
      s.bus = a.bus → Underway n s a (a.left n)

section
variable {n r : Nat} {s s' : Bench} {a a' : Simulation}

/-- The daemon does something else. -/
theorem Underway.move {t : SricIf} (h : Underway n s a r) (hf : t.txFrame = s.sricIf.txFrame)
    (hbus : a'.bus = a.bus) :
    ∃ r', Underway n { s with sricIf := t } a' r'
      ∧ ∀ d, a'.left n ≤ a.left n - d → d ≤ a.left n → r' ≤ r - d := by
  cases h with
  | clear hsent hreplies hbehind =>
      refine ⟨_, .clear hsent hreplies (hbus ▸ hbehind), ?_⟩
      intro d hleft hd
      omega
  | asked he hneeds hsent hreplies hbehind =>
      refine ⟨_, .asked (hf.trans he) hneeds hsent hreplies (hbus ▸ hbehind), ?_⟩
      intro d hleft hd
      omega
  | answered he hneeds hsent hreplies hne hb =>
      rw [← hbus] at hreplies hb
      refine ⟨_, .answered (hf.trans he) hneeds hsent hreplies hne hb, ?_⟩
      intro d hleft hd
      omega
  | settled hnone hsent hacks hb =>
      refine ⟨_, .settled (hf.trans hnone) hsent hacks (hb.trans hbus.symm), ?_⟩
      intro d hleft hd
      exact hleft

theorem Underway.congr {t : SricIf} (h : Underway n s a r) (hf : t.txFrame = s.sricIf.txFrame) :
    Underway n { s with sricIf := t } a r := by
  cases h with
  | clear hsent hreplies hbehind => exact .clear hsent hreplies hbehind
  | asked he hneeds hsent hreplies hbehind => exact .asked (hf.trans he) hneeds hsent hreplies hbehind
  | answered he hneeds hsent hreplies hne hb =>
      exact .answered (hf.trans he) hneeds hsent hreplies hne hb
  | settled hnone hsent hacks hb => exact .settled (hf.trans hnone) hsent hacks hb

/-- When it is the daemon's turn, there are some resets on their way at
most. -/
theorem Underway.turn (h : Underway n s a r) (hc : s.Clear) :
    ∃ k, s.sent = List.replicate k sendReset ∧ s.replies = [] ∧ Behind n k s.bus a.bus
      ∧ r = a.left n + k := by
  cases h with
  | clear hsent hreplies hbehind => exact ⟨_, hsent, hreplies, hbehind, rfl⟩
  | asked he hneeds hsent hreplies hbehind =>
      have hno := hc.2 _ (by rw [hsent]; exact List.mem_append_right _ List.mem_cons_self)
      rw [hneeds] at hno
      cases hno
  | answered he hneeds hsent hreplies hne hb => exact absurd hc.1 hne
  | settled hnone hsent hacks hb => exact ⟨0, hsent, hc.1, hb ▸ .level _, rfl⟩

/-- A reset that is processed is one thing less on its way. -/
theorem Underway.reset {rest : List FrameT} (h : Underway n s a r)
    (hsent : s.sent = sendReset :: rest) :
    ∃ r', Underway n { s with
        bus := (s.bus.hear sendReset).1.advanceToken
        sent := rest
        replies := s.replies ++ received (s.bus.hear sendReset).2 } a r' ∧ r' ≤ r - 1 := by
  cases h with
  | @clear k hsent' hreplies hbehind =>
      cases k with
      | zero => cases hsent.symm.trans hsent'
      | succ k =>
          obtain ⟨hbehind', hout⟩ := hbehind.hear
          refine ⟨_, .clear ((List.cons.inj (hsent.symm.trans hsent')).2) ?_ hbehind', Nat.le_refl _⟩
          simp only [hreplies, hout]
          rfl
  | @asked k e he hneeds hsent' hreplies hbehind =>
      cases k with
      | zero =>
          have hreset := (List.cons.inj (hsent.symm.trans hsent')).1
          rw [← hreset] at hneeds
          cases hneeds
      | succ k =>
          obtain ⟨hbehind', hout⟩ := hbehind.hear
          refine ⟨_, .asked he hneeds ((List.cons.inj (hsent.symm.trans hsent')).2) ?_ hbehind',
            Nat.le_refl _⟩
          simp only [hreplies, hout]
          rfl
  | answered he hneeds hnil => cases hsent.symm.trans hnil
  | settled hnone hnil => cases hsent.symm.trans hnil

/-- Another frame is the last one on its way, and waits for an ack. -/
theorem Underway.request {f : FrameT} {rest : List FrameT} (h : Underway n s a r)
    (hsent : s.sent = f :: rest) (hf : f ≠ sendReset) :
    ∃ e, s.sricIf.txFrame = some e ∧ e.frame.needsAck = true ∧ f = e.frame ∧ rest = []
      ∧ s.replies = [] ∧ s.bus = a.bus ∧ r = a.left n := by
  cases h with
  | @clear k hsent' hreplies hbehind =>
      cases k with
      | zero => cases hsent.symm.trans hsent'
      | succ k => exact absurd (List.cons.inj (hsent.symm.trans hsent')).1 hf
  | @asked k e he hneeds hsent' hreplies hbehind =>
      cases k with
      | zero =>
          obtain ⟨rfl, rfl⟩ := List.cons.inj (hsent.symm.trans hsent')
          exact ⟨e, he, hneeds, rfl, rfl, hreplies, hbehind.same, rfl⟩
      | succ k => exact absurd (List.cons.inj (hsent.symm.trans hsent')).1 hf
  | answered he hneeds hnil => cases hsent.symm.trans hnil
  | settled hnone hnil => cases hsent.symm.trans hnil

/-- **The bench follows the simulation**, with no more than `l` left to be
done. -/
structure Follows (n l : Nat) (s : Bench) (a : Simulation) : Prop where
  txInv : s.sricIf.TxInv
  enum : Link.Enumerates s.sricIf a.enum
  reached : a.Reached n
  underway : ∃ r, Underway n s a r ∧ (0 < n → r ≤ l)

theorem follows_init (n : Nat) : Follows n (3 * n + 19) (init n) (.init .reset n) where
  txInv := SricIf.txInv_init
  enum := Link.enumerates_init _
  reached := Simulation.reached_init _ n
  underway := ⟨_, .clear (k := 0) rfl rfl (.level _), fun _ => Nat.le_refl _⟩

/-- The simulation takes a step, or none. -/
def Goes (a a' : Simulation) : Prop := a' = a ∨ ∃ ev as, a.step ev = .ok (a', as)

/-- A step in which enumeration takes one, and no frame is on its way
because of it. -/
theorem Follows.enumStep {l : Nat} {t : SricIf} {iev : IfEvent} {eev : EnumBusEvent}
    {enum : EnumBus} {as : List EnumAction} {out : List IfOut} (h : Follows n l s a)
    (ev : SimulationEvent) (ht : s.sricIf.step iev = .ok (t, out))
    (hf : t.txFrame = s.sricIf.txFrame) (hev : a.step ev = a.enumStep eev)
    (hs : a.enum.step eev = .ok (enum, as)) (he : Link.Enumerates t enum)
    (hpos : ev.works = true → 0 < a.left n) :
    ∃ a', Goes a a' ∧ Follows n (l - if ev.works then 1 else 0) { s with sricIf := t } a' := by
  have hstep : a.step ev = .ok ({ a with enum }, as) := hev.trans (Simulation.enumStep_ok hs)
  obtain ⟨hreached, hleft⟩ := Simulation.reached_step h.reached hstep
  obtain ⟨r, hr, hl⟩ := h.underway
  obtain ⟨r', hr', hle⟩ := @Underway.move n r s a { a with enum } t hr hf rfl
  refine ⟨{ a with enum }, .inr ⟨ev, as, hstep⟩, h.txInv.step ht, he, hreached, r', hr', ?_⟩
  intro hn
  have hrl := hl hn
  rw [Nat.min_eq_right hn] at hleft
  cases hw : ev.works with
  | true =>
      rw [hw, if_pos rfl] at hleft
      have := hle 1 hleft (hpos hw)
      rw [if_pos rfl]
      omega
  | false =>
      rw [hw, if_neg Bool.false_ne_true] at hleft
      have := hle 0 hleft (Nat.zero_le _)
      rw [if_neg Bool.false_ne_true]
      omega

/-- A step that the simulation does not see. -/
theorem Follows.aside {l : Nat} {t : SricIf} {ev : IfEvent} {out : List IfOut}
    (h : Follows n l s a) (ht : s.sricIf.step ev = .ok (t, out))
    (hf : t.txFrame = s.sricIf.txFrame) (he : Link.Enumerates t a.enum) :
    Follows n l { s with sricIf := t } a := by
  obtain ⟨r, hr, hl⟩ := h.underway
  exact ⟨h.txInv.step ht, he, h.reached, r, hr.congr hf, hl⟩

/-- The daemon writes. -/
theorem Follows.write {l id : Nat} {w : Option Nat} {out : List IfOut} (h : Follows n l s a)
    (hin : s.InTurn (.write id w)) (hs : s.step (.write id w) = .ok (s', out)) :
    ∃ a', Goes a a' ∧ Follows n l s' a' := by
  obtain ⟨t, ht, rfl⟩ := write_ok hs
  have hinv := h.txInv.step ht
  obtain ⟨haside, ⟨-, hfin, hf, hq⟩ | ⟨hbusy, e, ho, hcase⟩⟩ := SricIf.write_finishes h.txInv ht
  · have hfollows := h.aside ht hf (h.enum.unwritten haside hf hq)
    exact ⟨a, .inl rfl, by simpa [hfin] using hfollows⟩
  · obtain ⟨r, hr, hl⟩ := h.underway
    obtain ⟨k, hsent, hreplies, hbehind, rfl⟩ := hr.turn (hin hbusy)
    rcases hcase with ⟨hfin, hf⟩ | ⟨hfin, hneeds, hf⟩ | ⟨hfin, hno, hf⟩
    · refine ⟨a, .inl rfl, hinv, h.enum.writing haside ho hf, h.reached, _, .clear ?_ hreplies hbehind, hl⟩
      simp only [hfin, Option.map_none, Option.toList_none, List.append_nil]
      exact hsent
    · refine ⟨a, .inl rfl, hinv, h.enum.writing haside ho hf, h.reached, _,
        .asked hf hneeds ?_ hreplies hbehind, hl⟩
      simp only [hfin, hsent]
      rfl
    · -- a reset is done with when it is written
      have hhead : a.enum.queue.head? = some e.frame := by
        rw [h.enum.queue, SricIf.unfinished_origin h.enum.going ho]
        rfl
      obtain ⟨hreset, ⟨g, keep, hbus⟩, hpos⟩ := h.reached.unacked hhead hno
      obtain ⟨enum, henum, he⟩ := h.enum.sent haside ho hf hno
      have hear : a.bus.hear e.frame = (.quiet n g true, []) := by
        rw [hreset, hbus]
        exact OstricBus.hear_reset n g keep
      have hstep : a.step .deliver = .ok (⟨enum, .quiet n g true⟩, []) := by
        rw [Simulation.step, hhead]
        dsimp only
        rw [Simulation.deliver_sent hear hno, OstricBus.advance_quiet]
        exact Simulation.enumStep_ok henum
      obtain ⟨hreached, hleft⟩ := h.reached.deliver hstep
      refine ⟨_, .inr ⟨_, _, hstep⟩, hinv, he, hreached, _,
        .clear (k := k + 1) ?_ hreplies (hbus ▸ hbehind).write, ?_⟩
      · simp only [hfin, hsent, Option.map_some, Option.toList_some, hreset]
        exact List.replicate_succ'.symm
      · intro hn
        have hrl := hl hn
        have hless := hleft hn
        omega

/-- `ostric` processes a frame. -/
theorem Follows.hear {l : Nat} {out : List IfOut} (h : Follows n l s a)
    (hs : s.step .hear = .ok (s', out)) : ∃ a', Goes a a' ∧ Follows n (l - 1) s' a' := by
  obtain ⟨f, rest, hsent, -, rfl⟩ := hear_ok hs
  obtain ⟨r, hr, hl⟩ := h.underway
  by_cases hf : f = sendReset
  · subst hf
    obtain ⟨r', hr', hle⟩ := hr.reset hsent
    refine ⟨a, .inl rfl, h.txInv, h.enum, h.reached, r', hr', ?_⟩
    intro hn
    have hrl := hl hn
    omega
  · obtain ⟨e, he, hneeds, rfl, rfl, hreplies, hbus, rfl⟩ := hr.request hsent hf
    by_cases hout : received (a.bus.hear e.frame).2 = []
    · -- nobody answers
      have hhead := h.enum.head he
      have hacks : acks (a.bus.hear e.frame).2 = [] := by
        rw [acks_hear, heard, hout]
        rfl
      have hstep : a.step .deliver
          = .ok ({ a with bus := (a.bus.hear e.frame).1.advanceToken }, []) := by
        rw [Simulation.step, hhead]
        exact Simulation.deliver_unanswered rfl hneeds hacks
      obtain ⟨hreached, hleft⟩ := h.reached.deliver hstep
      refine ⟨_, .inr ⟨_, _, hstep⟩, h.txInv, h.enum, hreached, _,
        .clear (k := 0) rfl ?_ ?_, ?_⟩
      · simp only [hreplies, hbus, hout]
        rfl
      · rw [hbus]
        exact .level _
      · intro hn
        have hrl := hl hn
        have hless := hleft hn
        omega
    · refine ⟨a, .inl rfl, h.txInv, h.enum, h.reached, _, .answered he hneeds rfl ?_ ?_ ?_, ?_⟩
      · simp only [hreplies, hbus]
        rfl
      · simp only [hreplies, hbus]
        exact hout
      · rw [hbus]
      · intro hn
        have hrl := hl hn
        omega

/-- The token stands still in between. -/
theorem Follows.settled {l : Nat} (h : Follows n l s a) : Simulation.Settled n s.bus := by
  obtain ⟨r, hr, -⟩ := h.underway
  cases hr with
  | clear _ _ hbehind => exact hbehind.settled h.reached.settled
  | asked _ _ _ _ hbehind => exact hbehind.settled h.reached.settled
  | answered he _ _ _ _ hb =>
      rw [hb]
      exact h.reached.settled_hear (h.enum.head he)
  | settled _ _ _ hb =>
      rw [hb]
      exact h.reached.settled

/-- The daemon reads an answer. -/
theorem Follows.read {l : Nat} {out : List IfOut} (h : Follows n l s a)
    (hs : s.step .read = .ok (s', out)) : ∃ a', Goes a a' ∧ Follows n l s' a' := by
  obtain ⟨bytes, rest, t, hreplies, ht, rfl⟩ := read_ok hs
  have hproc : s.sricIf.procRxFrame bytes = .ok (t, out) := (SricIf.step_handle ht).2
  obtain ⟨r, hr, hl⟩ := h.underway
  cases hr with
  | clear _ hnil => cases hreplies.symm.trans hnil
  | asked _ _ _ hnil => cases hreplies.symm.trans hnil
  | @answered e he hneeds hsent hanswer hne hb =>
      -- the first ack is the answer, and retires the frame
      have hmem : ∀ b ∈ s.replies, IsAck b := by
        rw [hanswer]
        exact received_acks _ _
      have hack := hmem bytes (by rw [hreplies]; exact List.mem_cons_self)
      have hret : s.sricIf.retire e (PackedFrame.ofBytes bytes) = .ok (t, out) :=
        (SricIf.procRxFrame_ack he hack.1 hack.2).symm.trans hproc
      have hhead := h.enum.head he
      have hacks : acks (a.bus.hear e.frame).2
          = PackedFrame.ofBytes bytes :: rest.map PackedFrame.ofBytes := by
        rw [acks_hear, heard, ← hanswer, hreplies]
        rfl
      obtain ⟨enum, as, henum, hsame, hover⟩ := h.enum.retire h.txInv he hneeds
        (fun _ => h.reached.answers hhead hneeds hacks) hret
      have hstep : a.step .deliver = .ok (⟨enum, (a.bus.hear e.frame).1.advanceToken⟩, as) := by
        rw [Simulation.step, hhead]
        exact (Simulation.deliver_answered rfl hneeds hacks).trans (Simulation.enumStep_ok henum)
      obtain ⟨hreached, hleft⟩ := h.reached.deliver hstep
      have henum' : Link.Enumerates t enum := by
        rcases hover with hover | henum'
        · exact absurd ((congrArg Enum.state hsame).trans hover.2) hreached.unfinished.2
        · exact henum'
      refine ⟨_, .inr ⟨_, _, hstep⟩, h.txInv.step ht, henum', hreached, _,
        .settled (SricIf.retire_txFrame he hret) hsent ?_ hb, ?_⟩
      · intro b hb
        exact hmem b (by rw [hreplies]; exact List.mem_cons_of_mem _ hb)
      · intro hn
        have hrl := hl hn
        have hless := hleft hn
        omega
  | settled hnone hsent hacks hb =>
      -- one more ack finds no frame in flight
      have hack := hacks bytes (by rw [hreplies]; exact List.mem_cons_self)
      rcases SricIf.procRxFrame_cases hproc with ⟨rfl, -⟩ | ⟨hno, -⟩ | ⟨e, he, -⟩
      · refine ⟨a, .inl rfl, h.txInv, h.enum, h.reached, _, .settled hnone hsent ?_ hb, hl⟩
        intro b hb
        exact hacks b (by rw [hreplies]; exact List.mem_cons_of_mem _ hb)
      · cases hack.2.symm.trans hno
      · cases hnone.symm.trans he

/-- **Each event of the bench is one step of the simulation, or none**, as
long as the two take turns; work brings it nearer to the end. -/
theorem Follows.step {l : Nat} {ev : BenchEvent} {out : List IfOut} (h : Follows n l s a)
    (hin : s.InTurn ev) (hs : s.step ev = .ok (s', out)) :
    ∃ a', Goes a a' ∧ Follows n (l - if ev.works then 1 else 0) s' a' := by
  cases ev with
  | enumStart =>
      obtain ⟨t, ht, rfl⟩ := call_ok hs
      obtain ⟨enum, as, hstart, he⟩ := h.enum.start ht
      have hf := (SricIf.enumStep_pushed (SricIf.step_handle ht).2).1.txFrame
      exact h.enumStep .start ht hf rfl hstart he (by simp [SimulationEvent.works])
  | killToken id =>
      obtain ⟨t, ht, rfl⟩ := call_ok hs
      obtain ⟨enum, as, hkill, he⟩ := h.enum.killToken ht
      obtain ⟨u, hu, rfl⟩ := SricIf.killToken_cases (SricIf.step_handle ht).2
      have hf := (SricIf.enumStep_pushed hu).1.txFrame
      have hlive := h.enum.enabled ((SricIf.step_handle ht).1 _ rfl)
      exact h.enumStep (.timeout .killToken) ht hf rfl hkill he
        fun _ => h.reached.left_pos hlive
  | sendReset id =>
      obtain ⟨t, ht, rfl⟩ := call_ok hs
      obtain ⟨enum, as, hreset, he⟩ := h.enum.sendReset ht
      have hf : t.txFrame = s.sricIf.txFrame := by
        obtain ⟨u, e, as, again, -, hu, rfl⟩ := SricIf.sendReset_cases (SricIf.step_handle ht).2
        cases again <;> exact (SricIf.enumStep_pushed hu).1.txFrame
      have hlive := h.enum.enabled ((SricIf.step_handle ht).1 _ rfl)
      exact h.enumStep (.timeout .sendReset) ht hf rfl hreset he
        fun _ => h.reached.left_pos hlive
  | txTimeout id =>
      obtain ⟨t, ht, rfl⟩ := call_ok hs
      have he := h.enum.txTimeout ht
      have hf : t.txFrame = s.sricIf.txFrame := by
        obtain rfl : _ = t := congrArg Prod.fst (Except.ok.inj (SricIf.step_handle ht).2)
        show s.sricIf.txTimeout.1.txFrame = _
        rw [SricIf.txTimeout_txFrame, h.enum.cancelled, if_neg Bool.false_ne_true]
      exact ⟨a, .inl rfl, h.aside ht hf he⟩
  | write id w => exact h.write hin hs
  | hear => exact h.hear hs
  | prod =>
      cases hs
      refine ⟨a, .inl rfl, ?_⟩
      rw [h.settled.still]
      exact h
  | read => exact h.read hs

end

/-! ## Runs -/

/-- The bench follows the simulation, and enumeration has been started. -/
def Started (n l : Nat) (s : Bench) : Prop :=
  ∃ a, Follows n l s a ∧ s.sricIf.enum.state ≠ .idle

section
variable {n l : Nat} {s s' : Bench} {a : Simulation} {ev : BenchEvent} {out : List IfOut}

theorem Follows.state (h : Follows n l s a) : a.enum.enum = s.sricIf.enum := h.enum.enum

/-- Enumeration is going on for ever. -/
theorem Follows.going (h : Follows n l s a) : s.sricIf.Going :=
  ⟨h.enum.going, h.state ▸ h.reached.unfinished.2⟩

theorem Started.step (h : Started n l s) (hs : s.step ev = .ok (s', out)) (hin : s.InTurn ev) :
    Started n (l - if ev.works then 1 else 0) s' := by
  obtain ⟨a, h, hst⟩ := h
  obtain ⟨a', hgoes, h'⟩ := h.step hin hs
  refine ⟨a', h', ?_⟩
  rw [← h.state] at hst
  rw [← h'.state]
  rcases hgoes with rfl | ⟨aev, as, ha⟩
  · exact hst
  · rcases Simulation.step_enum ha with hsame | ⟨eev, he⟩
    · rw [hsame]
      exact hst
    · exact (EnumBus.step_turn h.reached.phase he).not_idle hst

/-- An event of the daemon is a callback of the serial interface. -/
theorem step_ok (hs : s.step ev = .ok (s', out)) :
    (s'.sricIf = s.sricIf ∧ out = []) ∨ ∃ iev, s.sricIf.step iev = .ok (s'.sricIf, out) := by
  cases ev with
  | enumStart | txTimeout | killToken | sendReset =>
      obtain ⟨t, ht, rfl⟩ := call_ok hs
      exact .inr ⟨_, ht⟩
  | write id w =>
      obtain ⟨t, ht, rfl⟩ := write_ok hs
      exact .inr ⟨_, ht⟩
  | hear =>
      obtain ⟨f, rest, -, rfl, rfl⟩ := hear_ok hs
      exact .inl ⟨rfl, rfl⟩
  | prod =>
      cases hs
      exact .inl ⟨rfl, rfl⟩
  | read =>
      obtain ⟨bytes, rest, t, -, ht, rfl⟩ := read_ok hs
      exact .inr ⟨_, ht⟩

/-- What leaves the serial interface concerns no client. -/
theorem Follows.outputs (h : Follows n l s a) (hin : s.InTurn ev)
    (hs : s.step ev = .ok (s', out)) : ∀ o ∈ out, o.idle = true := by
  obtain ⟨a', -, h'⟩ := h.step hin hs
  rcases step_ok hs with ⟨-, rfl⟩ | ⟨iev, ht⟩
  · exact fun _ ho => absurd ho List.not_mem_nil
  · rcases h.going.step h.txInv ht with ⟨-, hidle⟩ | hover
    · exact hidle
    · cases h'.going.1.symm.trans hover.1

/-- There is an address for each of 125 clients, and for the gateway. -/
theorem Follows.not_exhausted (h : Follows n l s a) (hn : n ≤ 125) (p : PackedFrame) :
    ¬s.sricIf.enum.Exhausted p := by
  intro hex
  have hnext := h.reached.next_le
  have h128 : deviceHighAddress = 128 := rfl
  obtain ⟨-, -, hge⟩ := hex
  rw [h.state] at hnext
  omega

/-- **The daemon does not exit**, unless a write fails. -/
theorem Follows.no_exit {x : Halt} (h : Follows n l s a) (hn : n ≤ 125)
    (hw : ∀ id, ev ≠ .write id none) (hs : s.step ev = .error x) : x = .disabled := by
  have hcall : ∀ (u : Bench) iev, u.sricIf = s.sricIf → s.sricIf.Sound iev →
      u.call iev = .error x → x = .disabled := by
    intro u iev hu hsound hx
    rcases bind_error.mp hx with hx | ⟨_, -, hx⟩
    · rw [hu] at hx
      exact (SricIf.step_error h.txInv hx).resolve_right (not_not.mpr hsound)
    · cases hx
  cases ev with
  | enumStart => exact hcall s .enumStart rfl trivial hs
  | txTimeout id => exact hcall s (.txTimeout id) rfl trivial hs
  | killToken id => exact hcall s (.killToken id) rfl trivial hs
  | sendReset id => exact hcall s (.sendReset id) rfl trivial hs
  | write id w =>
      rcases bind_error.mp hs with hs | ⟨_, -, hs⟩
      · refine (SricIf.step_error h.txInv hs).resolve_right (not_not.mpr ?_)
        intro hnone
        obtain rfl := hnone
        exact absurd rfl (hw id)
      · cases hs
  | hear =>
      rw [Bench.step] at hs
      split at hs
      · cases hs
        rfl
      · cases hs
  | prod => cases hs
  | read =>
      rw [Bench.step] at hs
      split at hs
      · cases hs
        rfl
      · rename_i bytes rest _
        refine hcall { s with replies := rest } (.frame bytes) rfl ?_ hs
        intro hme hack hc e he
        rw [if_neg (by rw [h.enum.going]; exact Bool.false_ne_true)]
        exact h.not_exhausted hn _

/-! ## The end of enumeration -/

/-- The clients all have their addresses, the gateway has the token, and is
asked to take an address. -/
structure Last (n : Nat) (s : Bench) : Prop where
  state : s.sricIf.enum.state = .settingGwAddr
  frames : s.sricIf.unfinished = [sendAddress (n + 2)]
  token : s.bus.gwHasToken = true
  addresses : s.bus.clients.map OstricClient.address
    = (List.range n).map fun i => BitVec.ofNat 32 (i + 2)

/-- Nothing is left to be done there only. -/
theorem Follows.last (h : Follows n 0 s a) (hn : 0 < n) (hreplies : s.replies = []) : s.Last n := by
  obtain ⟨r, hr, hl⟩ := h.underway
  have hzero := Nat.le_zero.mp (hl hn)
  have hend : a.left n = 0 ∧ s.bus = a.bus := by
    cases hr with
    | clear _ _ hbehind =>
        obtain ⟨hleft, rfl⟩ := Nat.add_eq_zero_iff.mp hzero
        exact ⟨hleft, hbehind.same⟩
    | asked _ _ _ _ hbehind =>
        obtain ⟨hleft, rfl⟩ := Nat.add_eq_zero_iff.mp hzero
        exact ⟨hleft, hbehind.same⟩
    | answered _ _ _ _ hne => exact absurd hreplies hne
    | settled _ _ _ hbus => exact ⟨hzero, hbus⟩
  obtain ⟨hleft, hbus⟩ := hend
  have hlast := Simulation.last_of_left h.reached hleft
  refine ⟨?_, ?_, ?_, ?_⟩
  · rw [← h.state]
    exact hlast.state
  · rw [← h.enum.queue]
    exact hlast.queue
  · rw [hbus]
    exact hlast.token
  · rw [hbus]
    exact hlast.addresses

theorem call_eq {t : SricIf} {iev : IfEvent} (h : s.sricIf.step iev = .ok (t, out)) :
    s.call iev = .ok ({ s with sricIf := t }, out) := by
  rw [call, h]
  rfl

/-- What is on its way to the daemon can be read. -/
theorem Started.reads (h : Started n l s) (hn : n ≤ 125) :
    Leads Bench.step InTurn (fun t => Started n l t ∧ t.replies = []) s := by
  generalize hr : s.replies = replies
  induction replies generalizing s with
  | nil => exact .here ⟨h, hr⟩
  | cons bytes rest ih =>
      obtain ⟨a, hf, -⟩ := id h
      cases hproc : s.sricIf.procRxFrame bytes with
      | error x =>
          obtain ⟨-, -, -, -, -, -, hex⟩ := SricIf.procRxFrame_error.mp hproc
          exact absurd hex (hf.not_exhausted hn _)
      | ok p =>
          have hs : s.step .read = .ok ({ s with sricIf := p.1, replies := rest }, p.2) := by
            rw [Bench.step, hr]
            exact call_eq hproc
          exact .cons hs trivial (ih (h.step hs trivial) rfl)

/-- What is on its way to `ostric` can be processed. -/
theorem Started.hears (h : Started n (l + 1) s) (hsent : s.sent ≠ []) :
    Leads Bench.step InTurn (Started n l) s := by
  obtain ⟨f, rest, hcons⟩ := List.exists_cons_of_ne_nil hsent
  have hs : s.step .hear = .ok ({ s with
      bus := (s.bus.hear f).1.advanceToken
      sent := rest
      replies := s.replies ++ received (s.bus.hear f).2 }, []) := by
    rw [Bench.step, hcons]
  exact .cons hs trivial (.here (h.step hs trivial))

/-- When it is the daemon's turn, the next frame can be written, and
processed. -/
theorem Started.writes (h : Started n (l + 1) s) (hbusy : s.sricIf.Busy) (hc : s.Clear) :
    Leads Bench.step InTurn (Started n l) s := by
  obtain ⟨a, hf, -⟩ := id h
  obtain ⟨id, w, t, out, e, ht, hfin⟩ := SricIf.busy_finishes hf.txInv hbusy
  have hs : s.step (.write id w)
      = .ok ({ s with sricIf := t, sent := s.sent ++ [e.frame] }, out) := by
    rw [Bench.step, ht]
    simp [hfin, bind, Except.bind]
  have hin : s.InTurn (.write id w) := fun _ => hc
  exact .cons hs hin ((h.step hs hin).hears (by simp))

/-- A frame that nobody has answered is written once more. -/
theorem Started.resends {e : TxEntry} (h : Started n (l + 1) s) (he : s.sricIf.txFrame = some e)
    (hbusy : ¬s.sricIf.Busy) (hc : s.Clear) : Leads Bench.step InTurn (Started n l) s := by
  obtain ⟨a, hf, -⟩ := id h
  have hin := hf.txInv.inFlight e he
  have hpos : s.sricIf.txpos = s.sricIf.txlen := by
    by_contra hne
    exact hbusy (.inl ⟨e, he, hne⟩)
  have hlive := (hf.txInv.timer s.sricIf.retxmitTimeoutId).mpr
    ⟨rfl, e, he, hpos, hin.needsAck hpos⟩
  have hs : s.step (.txTimeout s.sricIf.retxmitTimeoutId) = .ok
      ({ s with sricIf := s.sricIf.txTimeout.1.drop s.sricIf.retxmitTimeoutId },
        s.sricIf.txTimeout.2) := call_eq (if_pos hlive)
  refine .cons hs trivial ((h.step hs trivial).writes (.inl ⟨e, ?_, ?_⟩) hc)
  · show s.sricIf.txTimeout.1.txFrame = some e
    rw [SricIf.txTimeout_txFrame, hf.enum.cancelled, if_neg Bool.false_ne_true, he]
  · show s.sricIf.txTimeout.1.txpos ≠ s.sricIf.txTimeout.1.txlen
    rw [SricIf.txTimeout, if_neg (by rw [hf.enum.cancelled]; exact Bool.false_ne_true)]
    dsimp only
    rw [SricIf.txReady_rest]
    show 0 ≠ s.sricIf.txlen
    rw [hin.txlen_eq]
    exact Nat.ne_of_lt e.frame.wire_pos

/-- With no frame left, a timeout can pass. -/
theorem Started.passes (h : Started n (l + 1) s) (hnone : s.sricIf.txFrame = none)
    (hbusy : ¬s.sricIf.Busy) : Leads Bench.step InTurn (Started n l) s := by
  obtain ⟨a, hf, hst⟩ := id h
  have hread : s.sricIf.txq.q0 = [] := by
    by_contra hne
    refine hbusy (.inr ⟨hnone, ?_⟩)
    rwa [SricIf.readable_eq, if_neg (by rw [hf.enum.going]; exact Bool.false_ne_true)]
  have hqueue : a.enum.queue = [] := by
    rw [hf.enum.queue, SricIf.unfinished, hnone, hread]
    rfl
  rw [← hf.state] at hst
  obtain ⟨t, ht⟩ := hf.reached.timeout hqueue hst
  rw [hf.enum.timers] at ht
  obtain ⟨id, hlive⟩ := MainLoop.pending_pos.mp ht
  cases t with
  | killToken =>
      obtain ⟨p, hp⟩ := SricIf.killToken_ok hlive
      have hs : s.step (.killToken id) = _ := call_eq hp
      exact .cons hs trivial (.here (h.step hs trivial))
  | sendReset =>
      obtain ⟨p, hp⟩ := SricIf.sendReset_ok hlive
      have hs : s.step (.sendReset id) = _ := call_eq hp
      exact .cons hs trivial (.here (h.step hs trivial))

/-- **Until the end, there is work that can be done.** -/
theorem Started.works (h : Started n (l + 1) s) (hn : n ≤ 125) :
    Leads Bench.step InTurn (Started n l) s := by
  refine (h.reads hn).trans ?_
  intro t ht
  obtain ⟨ht, hreplies⟩ := ht
  by_cases hsent : t.sent = []
  · have hclear : t.Clear := ⟨hreplies, by simp [hsent]⟩
    by_cases hbusy : t.sricIf.Busy
    · exact ht.writes hbusy hclear
    · cases hf : t.sricIf.txFrame with
      | some e => exact ht.resends hf hbusy hclear
      | none => exact ht.passes hf hbusy
  · exact ht.hears hsent

theorem Started.ends (h : Started n l s) (hpos : 0 < n) (hn : n ≤ 125) :
    Leads Bench.step InTurn (Last n) s := by
  refine (leads_to_end (I := Started n) (fun l s h => h.works hn) h).trans ?_
  intro t ht
  refine (ht.reads hn).trans ?_
  intro u hu
  obtain ⟨⟨a, hf, -⟩, hreplies⟩ := hu
  exact .here (hf.last hpos hreplies)

/-- In a run, the bench is as far on as the work in it. -/
theorem follows_run {evs : List BenchEvent} {os : List IfOut}
    (hr : run step (init n) evs = .ok (s, os)) (hin : Along step InTurn (init n) evs) :
    ∃ a, Follows n (3 * n + 19 - evs.countP BenchEvent.works) s a := by
  refine run_lowers (I := fun l s => ∃ a, Follows n l s a) (C := InTurn) ?_ ⟨_, follows_init n⟩ hin hr
  intro l u ev u' o hu hev hs
  obtain ⟨a, hu⟩ := hu
  obtain ⟨a', -, hu'⟩ := hu.step hev hs
  exact ⟨a', hu'⟩

end

/-! ## The gateway of the simulation takes no address -/

/-- **Enumeration of the simulated bus does not end**, and no device is
added. There is one token at most, and the clients that have an address are
the first ones of the ring. -/
theorem never_enumerated {n : Nat} {evs : List BenchEvent} {s : Bench} {os : List IfOut}
    (hr : run step (init n) evs = .ok (s, os)) (hin : Along step InTurn (init n) evs) :
    s.sricIf.enum.state ≠ .fetchingClasses ∧ s.sricIf.enum.state ≠ .enumerated
      ∧ s.sricIf.enumerated = false
      ∧ (∀ o ∈ os, o ≠ .listen ∧ ∀ i c, o ≠ .deviceAdd i c)
      ∧ s.bus.tokens ≤ 1
      ∧ ∃ j ≤ n, s.bus.clients.map OstricClient.address = OstricBus.addressedUpTo j (n - j) := by
  obtain ⟨a, h⟩ := follows_run hr hin
  have hout : ∀ o ∈ os, o.idle = true := by
    refine run_outputs_along (I := fun s => ∃ l a, Follows n l s a) (C := InTurn) ?_
      ⟨_, _, follows_init n⟩ hin hr
    intro u ev u' o hu hev hs
    obtain ⟨l, b, hu⟩ := hu
    obtain ⟨b', -, hu'⟩ := hu.step hev hs
    exact ⟨⟨_, b', hu'⟩, hu.outputs hev hs⟩
  have hsettled := h.settled
  have hunfinished := h.reached.unfinished
  rw [h.state] at hunfinished
  refine ⟨hunfinished.1, hunfinished.2, h.enum.going, ?_, hsettled.token, hsettled.addresses⟩
  intro o ho
  have hidle := hout o ho
  constructor
  · rintro rfl
    cases hidle
  · rintro i c rfl
    cases hidle

/-- A frame is written to its end and processed, and the answer is read. -/
def answered (id w : Nat) : List BenchEvent := [.write id (some w), .hear, .read]

/-- Up to the last reset, with one client. -/
def untilTokens : List BenchEvent :=
  .enumStart :: answered 1 7 ++ answered 4 7 ++ answered 6 7 ++ .killToken 2 :: answered 8 8
    ++ (List.replicate 5 [.sendReset 9, .write 11 (some 7), .hear]).flatten ++ [.sendReset 9]

/-- REQ_TOKEN times out before it is answered. The gateway, which is asked
for its address in the end, does not answer. -/
def oneClient : List BenchEvent :=
  untilTokens ++ [.write 11 (some 7), .txTimeout 12, .hear, .read]
    ++ answered 13 7 ++ answered 15 7 ++ answered 17 8 ++ answered 19 8 ++ answered 21 7
    ++ [.write 23 (some 8), .hear, .txTimeout 24]

theorem never_enumerated_one_client :
    ∃ s os, run step (init 1) oneClient = .ok (s, os)
      ∧ s.sricIf.enum.state ≠ .fetchingClasses ∧ s.sricIf.enum.state ≠ .enumerated
      ∧ s.sricIf.enumerated = false
      ∧ (∀ o ∈ os, o ≠ .listen ∧ ∀ i c, o ≠ .deviceAdd i c)
      ∧ s.bus.tokens ≤ 1
      ∧ ∃ j ≤ 1, s.bus.clients.map OstricClient.address = OstricBus.addressedUpTo j (1 - j) := by
  have hin : Along step InTurn (init 1) oneClient := by
    decide +kernel
  have hrun : (run step (init 1) oneClient).toOption.isSome = true := by
    decide +kernel
  cases hr : run step (init 1) oneClient with
  | error x =>
      rw [hr] at hrun
      cases hrun
  | ok p => exact ⟨p.1, p.2, rfl, never_enumerated hr hin⟩

/-- **With 1 to 125 clients the daemon does not exit**, as long as no write
fails; where enough has been done, and everything read, the clients all
have their addresses; and that can be reached from any state behind the
start. -/
theorem all_addressed {n : Nat} (hpos : 0 < n) (hn : n ≤ 125) {evs : List BenchEvent}
    (hin : Along step InTurn (init n) evs) :
    ((∀ id, .write id none ∉ evs) → ∀ x, run step (init n) evs = .error x → x = .disabled)
      ∧ ∀ s os, run step (init n) evs = .ok (s, os) →
        (s.replies = [] → 3 * n + 19 ≤ evs.countP BenchEvent.works → s.Last n)
          ∧ (s.sricIf.enum.state ≠ .idle → Leads Bench.step InTurn (Last n) s) := by
  constructor
  · intro hw x hx
    by_contra hne
    have hwrites : Along step (fun _ ev => ∀ id, ev ≠ .write id none) (init n) evs := by
      refine along_of_forall ?_
      rintro ev hev id rfl
      exact hw id hev
    refine run_error_along (I := fun s => ∃ l a, Follows n l s a) ?_ ?_ ⟨_, _, follows_init n⟩
      (along_and hin hwrites) hx
    · intro u ev u' o hu hev hs
      obtain ⟨l, b, hu⟩ := hu
      obtain ⟨b', -, hu'⟩ := hu.step hev.1 hs
      exact ⟨_, b', hu'⟩
    · intro u ev hu hev hs
      obtain ⟨l, b, hu⟩ := hu
      exact hne (hu.no_exit hn hev.2 hs)
  · intro s os hr
    obtain ⟨a, h⟩ := follows_run hr hin
    constructor
    · intro hreplies hdone
      rw [Nat.sub_eq_zero_of_le hdone] at h
      exact h.last hpos hreplies
    · intro hst
      exact Started.ends ⟨a, h, hst⟩ hpos hn

theorem all_addressed_one_client :
    (∀ x, run step (init 1) oneClient = .error x → x = .disabled)
      ∧ ∃ s os, run step (init 1) oneClient = .ok (s, os) ∧ s.Last 1
        ∧ Leads step InTurn (Last 1) s := by
  have hin : Along step InTurn (init 1) oneClient := by
    decide +kernel
  have hrun : (run step (init 1) oneClient).toOption.any (fun p =>
      p.1.replies.isEmpty && p.1.sricIf.enum.state == .settingGwAddr) = true := by
    decide +kernel
  have hwrites : ∀ ev ∈ oneClient, ∀ id, ev ≠ .write id none := by
    intro ev hev id
    rintro rfl
    simp [oneClient, untilTokens, answered] at hev
  obtain ⟨⟨s, os⟩, hr, hs⟩ := ok_of_any hrun
  rw [Bool.and_eq_true, List.isEmpty_iff, beq_iff_eq] at hs
  obtain ⟨hexit, hall⟩ := all_addressed Nat.one_pos (by decide) hin
  obtain ⟨hlast, hleads⟩ := hall s os hr
  refine ⟨hexit fun id hid => hwrites _ hid id rfl, s, os, hr, hlast hs.1 (by decide), hleads ?_⟩
  rw [hs.2]
  decide

/-- REQ_TOKEN times out, and is written once more before it is answered:
from then on each ack is taken for the next frame. -/
def outOfTurn : List BenchEvent :=
  untilTokens ++ [.write 11 (some 7), .txTimeout 12, .write 13 (some 7), .hear, .hear, .read,
    .write 15 (some 7), .read, .write 17 (some 7), .hear, .hear, .read, .read]

/-- **Out of turn, enumeration gets stuck**, with nothing to be done
anywhere. -/
theorem stuck_out_of_turn :
    ∃ s os, run step (init 1) outOfTurn = .ok (s, os) ∧ s.sricIf.enum.state = .enumerating
      ∧ s.sricIf.unfinished = [] ∧ (∀ id t, (id, Source.enum t) ∉ s.sricIf.loop.live)
      ∧ s.sent = [] ∧ s.replies = [] := by
  have hrun : (run step (init 1) outOfTurn).toOption.any (fun p =>
      p.1.sricIf.enum.state == .enumerating && p.1.sricIf.unfinished.isEmpty
        && (p.1.sricIf.loop.live.all fun l => !(l.2 matches .enum _))
        && p.1.sent.isEmpty && p.1.replies.isEmpty) = true := by
    decide +kernel
  obtain ⟨⟨s, os⟩, hr, hs⟩ := ok_of_any hrun
  simp only [Bool.and_eq_true, beq_iff_eq, List.all_eq_true, List.isEmpty_iff] at hs
  obtain ⟨⟨⟨⟨hst, hframes⟩, hlive⟩, hsent⟩, hreplies⟩ := hs
  refine ⟨s, os, hr, hst, hframes, ?_, hsent, hreplies⟩
  intro id t hl
  cases hlive _ hl

end Bench

end Sricd
