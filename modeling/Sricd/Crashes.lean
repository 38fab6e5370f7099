import Sricd.Enumerated
import Sricd.Program
import Sricd.Responses
import Sricd.RxMemory

/-!
# What ends the daemon

Where no client goes before it is finished, these end the daemon for good:
a serial port that fails or is at its end, a failing `write`, a request that
does not fit, a device for which no address is left, and an ack for one of
the daemon's own frames, which is handed to a client that is a `NULL`
pointer, or no pointer at all. In every run the program goes on exactly as
long as none of them happens (`ends_iff`).
-/

namespace Sricd

open Sricd.Lib

/-! ## The serial interface -/

namespace Enum

/-- The frame is the answer of one more device, and no address is left. -/
def Exhausted (e : Enum) (f : PackedFrame) : Prop :=
  e.state = .enumerating ∧ f.payload.length = 1 ∧ deviceHighAddress ≤ e.currentNextAddress

instance (e : Enum) : DecidablePred e.Exhausted :=
  fun _ => inferInstanceAs (Decidable (_ ∧ _ ∧ _))

theorem fsm_none_iff {e : Enum} {ev : EnumEvent} :
    e.fsm ev = none ↔ e.state = .enumerating ∧ (ev = .tokAtGw ∨ ev = .devPresent)
      ∧ deviceHighAddress ≤ e.currentNextAddress := by
  constructor
  · intro h
    obtain ⟨hstate, hge⟩ := EnumBus.fsm_none h
    refine ⟨hstate, ?_, hge⟩
    by_contra hev
    rw [fsm, hstate] at h
    cases (if_neg hev).symm.trans h
  · intro h
    obtain ⟨hstate, hev, hge⟩ := h
    rw [fsm, hstate]
    exact (if_pos hev).trans (if_pos hge)

theorem dispatch_none_iff {e : Enum} {f : PackedFrame} (hack : f.isAck = true) :
    e.dispatch f = none ↔ e.Exhausted f := by
  rw [dispatch]
  split
  · rename_i hc
    have hiff : ∀ ev : EnumEvent, ev = .tokAtGw ∨ ev = .devPresent →
        (e.fsm ev = none ↔ e.Exhausted f) := by
      intro ev hev
      rw [fsm_none_iff, Exhausted, and_iff_right hev, and_iff_right hc.2.1]
    split
    · exact hiff _ (.inr rfl)
    · exact hiff _ (.inl rfl)
  · rename_i hc
    -- no other frame is an event that this state exits on
    refine iff_of_false ?_ fun h => hc ⟨h.1, h.2.1, hack⟩
    have hother : ∀ (e : Enum) (ev : EnumEvent), ev ≠ .tokAtGw → ev ≠ .devPresent →
        e.fsm ev ≠ none := fun e ev hgw hdev h =>
      (fsm_none_iff.mp h).2.1.elim hgw hdev
    split
    · split
      · exact hother _ _ (by simp) (by simp)
      · split
        · exact hother _ _ (by simp) (by simp)
        · simp
    · simp

theorem rx_none_iff {e : Enum} {f : PackedFrame} (hack : f.isAck = true) :
    e.rx f = none ↔ e.Exhausted f := by
  rw [rx, Option.map_eq_none_iff, dispatch_none_iff hack]

end Enum

namespace SricIf

instance (s : SricIf) : Decidable s.Busy :=
  decidable_of_iff (if s.txFrame.isSome then s.txpos ≠ s.txlen else s.readable ≠ []) <| by
    cases hf : s.txFrame with
    | none => simp [Busy, hf]
    | some e => simp [Busy, hf]

/-- The callback does not end the daemon: a `write` that is made does not
fail, and an ack is for a frame of a client, or, while enumeration goes on,
leaves an address for each device. -/
def Sound (s : SricIf) : IfEvent → Prop
  | .ifTx id w => w = none → (id, Source.ifTx) ∈ s.loop.live → ¬s.Busy
  | .frame bytes =>
      let f := PackedFrame.ofBytes bytes
      f.forMe = true → f.isAck = true → s.frameCancelled = false → ∀ e ∈ s.txFrame,
        if s.enumerated then e.frame.tag ≠ .null ∧ e.frame.tag ≠ .badEnum
        else ¬s.enum.Exhausted f
  | _ => True

instance (s : SricIf) : DecidablePred s.Sound
  | .ifTx _ _ => inferInstanceAs (Decidable (_ → _ → ¬s.Busy))
  | .frame _ => inferInstanceAs (Decidable (_ → _ → _ → ∀ e ∈ s.txFrame, ite _ _ _))
  | .enumStart | .push _ _ | .cancel _ | .txTimeout _ | .killToken _ | .sendReset _ =>
      inferInstanceAs (Decidable True)

section
variable {s s' : SricIf} {e : TxEntry} {f : PackedFrame} {out : List IfOut} {x : Halt}

/-- When an ack ends the daemon within the serial interface. -/
theorem retire_error (hack : f.isAck = true) :
    s.retire e f = .error x ↔ x = .exit ∧ s.frameCancelled = false ∧ s.enumerated = false
      ∧ s.enum.Exhausted f := by
  rw [retire]
  generalize ht : { s with loop := s.loop.remove s.retxmitTimeoutId, retxmitTimeoutId := 0 }.txReady
    = t
  rw [show s.frameCancelled = t.frameCancelled by rw [← ht, txReady_rest],
    show s.enumerated = t.enumerated by rw [← ht, txReady_rest],
    show s.enum = t.enum by rw [← ht, txReady_rest], ← Enum.rx_none_iff hack]
  by_cases hc : t.frameCancelled = true
  · rw [if_pos hc]
    simp [hc]
  · rw [if_neg hc]
    by_cases hover : t.enumerated = true
    · simp [hover]
    · rw [if_neg hover]
      cases hrx : t.enum.rx f with
      | none => simp [Bool.eq_false_iff.mpr hc, Bool.eq_false_iff.mpr hover, eq_comm]
      | some p => simp

theorem send_error {t : SricIf} {w : Option Nat} (h : t.send w = .error x) :
    x = .disabled ∨ x = .exit ∧ w = none := by
  cases w with
  | none =>
      cases h
      exact .inr ⟨rfl, rfl⟩
  | some n =>
      rw [send] at h
      split at h
      · cases h
        exact .inl rfl
      · cases h

theorem ifTx_error (h : TxInv s) {w : Option Nat} (hx : s.ifTx w = .error x) :
    x = .disabled ∨ x = .exit ∧ w = none ∧ s.Busy := by
  by_cases hbusy : s.Busy
  · obtain ⟨t, e, -, hsend⟩ := ifTx_send h.toTxCore hbusy
    exact (send_error ((hsend w).symm.trans hx)).imp_right fun hw => ⟨hw.1, hw.2, hbusy⟩
  · cases (ifTx_idle h.toTxCore hbusy w).symm.trans hx

/-- A frame from the bus. -/
theorem procRxFrame_error {bytes : List Byte} :
    s.procRxFrame bytes = .error x ↔ x = .exit ∧ (PackedFrame.ofBytes bytes).forMe = true
      ∧ (PackedFrame.ofBytes bytes).isAck = true ∧ s.txFrame.isSome = true
      ∧ s.frameCancelled = false ∧ s.enumerated = false
      ∧ s.enum.Exhausted (PackedFrame.ofBytes bytes) := by
  by_cases hfor : (PackedFrame.ofBytes bytes).forMe = true ∧ (PackedFrame.ofBytes bytes).isAck = true
  · obtain ⟨hme, hack⟩ := hfor
    cases hf : s.txFrame with
    | none =>
        rw [procRxFrame, if_neg (Bool.not_eq_false _ ▸ hme), if_neg (Bool.not_eq_false _ ▸ hack)]
        simp [hf]
    | some e =>
        rw [procRxFrame_ack hf hme hack, retire_error hack]
        simp [hme, hack]
  · refine iff_of_false ?_ fun h => hfor ⟨h.2.1, h.2.2.1⟩
    rw [procRxFrame]
    split
    · simp
    · rename_i hme
      have hack : (PackedFrame.ofBytes bytes).isAck = false :=
        Bool.eq_false_iff.mpr fun hack => hfor ⟨by simpa using hme, hack⟩
      rw [if_pos hack]
      split <;> simp

/-- A timeout, or the start, does not end the daemon. -/
theorem fsm_goes_on (e : Enum) {ev : EnumEvent} (hgw : ev ≠ .tokAtGw) (hdev : ev ≠ .devPresent) :
    ∃ p, e.fsm ev = some p := by
  apply Option.ne_none_iff_exists'.mp
  intro h
  exact (Enum.fsm_none_iff.mp h).2.1.elim hgw hdev

/-- A timeout of the enumeration can pass. -/
theorem killToken_ok {id : Nat} (hl : (id, Source.enum .killToken) ∈ s.loop.live) :
    ∃ p, s.step (.killToken id) = .ok p := by
  obtain ⟨p, hp⟩ : ∃ p, s.enum.fsm .tokenCatchTimeout = some p := fsm_goes_on _ (by simp) (by simp)
  have hh : ∃ p, s.handle (.killToken id) = .ok p := by
    rw [handle, Enum.killTokenTimeout, hp]
    exact ⟨_, rfl⟩
  exact hh.imp fun _ hp => (if_pos hl).trans hp

theorem sendReset_ok {id : Nat} (hl : (id, Source.enum .sendReset) ∈ s.loop.live) :
    ∃ p, s.step (.sendReset id) = .ok p := by
  have hreset : ∃ p, s.enum.sendResetTimeout = some p := by
    rw [Enum.sendResetTimeout]
    dsimp only
    split
    · obtain ⟨p, hp⟩ : ∃ p, ({ s.enum with resetCount := (s.enum.resetCount + 1) % 256 } : Enum).fsm
          .busReset = some p := fsm_goes_on _ (by simp) (by simp)
      rw [hp]
      exact ⟨_, rfl⟩
    · exact ⟨_, rfl⟩
  obtain ⟨p, hp⟩ := hreset
  have hh : ∃ p, s.handle (.sendReset id) = .ok p := by
    rw [handle, hp]
    exact ⟨_, rfl⟩
  exact hh.imp fun _ hp => (if_pos hl).trans hp

/-- **What ends the daemon** within the serial interface. -/
theorem step_error (h : TxInv s) {ev : IfEvent} (hs : s.step ev = .error x) :
    x = .disabled ∨ ¬s.Sound ev := by
  have hlive : ∀ {p}, ev.source = some p →
      x = .disabled ∨ p ∈ s.loop.live ∧ s.handle ev = .error x := by
    intro p hp
    rw [SricIf.step, hp] at hs
    dsimp only at hs
    split at hs
    · rename_i hl
      exact .inr ⟨hl, hs⟩
    · cases hs
      exact .inl rfl
  cases ev with
  | enumStart =>
      obtain ⟨p, hp⟩ : ∃ p, s.enum.fsm .startEnum = some p :=
        fsm_goes_on _ (by simp) (by simp)
      have hs : s.enumStep (s.enum.fsm .startEnum) = .error x := hs
      rw [hp] at hs
      cases hs
  | push f pri => cases hs
  | cancel tag => cases hs
  | ifTx id w =>
      refine (hlive rfl).elim .inl fun hh => ?_
      obtain ⟨hl, hh⟩ := hh
      rw [handle] at hh
      cases hx : s.ifTx w with
      | ok p =>
          rw [hx] at hh
          cases hh
      | error y =>
          rw [hx] at hh
          cases hh
          exact (ifTx_error h hx).imp_right fun hw hsound => hsound hw.2.1 hl hw.2.2
  | txTimeout id =>
      refine (hlive rfl).elim .inl fun hh => ?_
      cases hh.2
  | killToken id =>
      refine (hlive rfl).elim .inl fun hh => ?_
      obtain ⟨p, hp⟩ := killToken_ok hh.1
      cases hs.symm.trans hp
  | sendReset id =>
      refine (hlive rfl).elim .inl fun hh => ?_
      obtain ⟨p, hp⟩ := sendReset_ok hh.1
      cases hs.symm.trans hp
  | frame bytes =>
      right
      obtain ⟨-, hme, hack, hf, hc, hgoing, hex⟩ := procRxFrame_error.mp hs
      obtain ⟨e, hf⟩ := Option.isSome_iff_exists.mp hf
      intro hsound
      have hleft := hsound hme hack hc e hf
      rw [if_neg (by rw [hgoing]; simp)] at hleft
      exact hleft hex

end

end SricIf

/-- The daemon's own frames get no response. -/
theorem SricIf.Sound.answered {s s' : SricIf} {ev : IfEvent} {out : List IfOut} (h : s.Sound ev)
    (heffect : SricIf.Effect s ev s' out) : .null ∉ responses out ∧ .badEnum ∉ responses out := by
  cases heffect with
  | pushed _ _ _ _ _ hquiet _ => simp [hquiet.1]
  | cancelled _ _ _ _ hquiet => simp [hquiet.1]
  | wrote _ _ _ _ _ _ _ _ _ _ hout _ =>
      rw [hout]
      simp [responses, IfOut.response]
  | timedOut _ _ _ _ _ _ _ _ hquiet => simp [hquiet.1]
  | acked e hacks hf _ _ _ _ hresp _ =>
      rw [hresp]
      split
      · rename_i hc
        obtain ⟨bytes, rfl, hme, hack⟩ := hacks
        have htag := h hme hack hc.1 e hf
        rw [if_pos hc.2] at htag
        exact ⟨fun hx => htag.1 (List.mem_singleton.mp hx).symm,
          fun hx => htag.2 (List.mem_singleton.mp hx).symm⟩
      · simp

/-! ## The clients' side -/

namespace Ipc

section
variable {P : Platform} {s : Ipc} {x : Halt}

/-- The halts that a request can end in. -/
theorem serve_error {c : Nat} {stale : BitVec 64} {h : Heard} (hs : h.serve P s c stale = .error x) :
    x = .disabled ∨ x = .outOfBounds ∨ x = .badPointer := by
  cases h with
  | nothing =>
      cases hs
      exact .inl rfl
  | overflow =>
      cases hs
      exact .inr (.inl rfl)
  | malformed => cases hs
  | cutFlags device =>
      obtain hs | ⟨_, -, hs⟩ := bind_error.mp hs
      · exact .inr ((setFlags_error hs).elim .inr fun h => .inl h.1)
      · cases hs
  | request q =>
      cases q with
      | tx address payload hlt =>
          rw [Heard.serve, Request.serve] at hs
          split at hs
          · exact .inr (.inl (transmit_error hs).1)
          · cases hs
            exact .inr (.inl rfl)
      | poll k timeout => exact .inr (.inr (poll_error hs))
      | noteFlags device flags => exact .inr ((setFlags_error hs).elim .inr fun h => .inl h.1)
      | noteClear => exact .inr (.inr (handleNoteClear_error hs))
      | listDevices => cases hs

theorem step_error {ev : IpcEvent} (hs : s.step P ev = .error x) :
    x = .disabled ∨ x = .outOfBounds ∨ x = .badPointer := by
  have hlive : ∀ {p}, ev.source = some p → x = .disabled ∨ s.handle P ev = .error x := by
    intro p hp
    rw [step, hp] at hs
    dsimp only at hs
    split at hs
    · exact .inr hs
    · cases hs
      exact .inl rfl
  cases ev with
  | sent c bytes =>
      have hs : (if _ then _ else _ : Result) = .error x := hs
      split at hs
      · cases hs
      · cases hs
        exact .inl rfl
  | closed c =>
      have hs : (if _ then _ else _ : Result) = .error x := hs
      split at hs
      · cases hs
      · cases hs
        exact .inl rfl
  | new id =>
      refine (hlive rfl).elim .inl fun hh => ?_
      cases hh
  | incoming id c stale =>
      refine (hlive rfl).elim .inl fun hh => ?_
      have hh : s.clientIncoming P id c stale = .error x := hh
      cases hk : (s.sockets c).inbox with
      | nil =>
          rw [clientIncoming_end P hk] at hh
          split at hh
          · cases hh
          · cases hh
            exact .inl rfl
      | cons cmd rest =>
          rw [clientIncoming_hear P hk] at hh
          exact serve_error hh
  | death id c =>
      refine (hlive rfl).elim .inl fun hh => ?_
      have hh : (if _ then s.clientDeath P id c else _ : Result) = .error x := hh
      split at hh
      · obtain hh | ⟨_, -, hh⟩ := bind_error.mp hh
        · obtain hh | ⟨_, -, hh⟩ := bind_error.mp hh
          · exact .inr (.inr (clearClientNotes_error hh))
          · cases hh
        · cases hh
      · cases hh
        exact .inl rfl
  | timeout k id c =>
      refine (hlive rfl).elim .inl fun hh => .inr (.inr ?_)
      cases k with
      | note => exact timedOut_error hh
      | rx =>
          obtain hh | ⟨_, -, hh⟩ := bind_error.mp hh
          · exact timedOut_error hh
          · cases hh

/-- What is received for a client that is there is taken. -/
theorem clientPush_ok {c : Nat} (hc : s.clients c ≠ none) (k : Poll) (f : Frame) :
    ∃ p, s.clientPush k c f = .ok p := by
  obtain ⟨cl, hcl⟩ := Option.ne_none_iff_exists'.mp hc
  have hclient : s.client c = .ok cl := by
    rw [client, hcl]
  rw [clientPush, hclient, ok_bind]
  dsimp only
  split
  · have hpushed : (s.setClient c (cl.push k f)).client c = .ok (cl.push k f) := by
      rw [client, setClient]
      simp
    rw [ping, hpushed, ok_bind]
    dsimp only
    have hpop : ∃ p, ((cl.push k f).setBox k { (cl.push k f).box k with timer := 0, ping := false }).pop k
        = some p := by
      apply Option.ne_none_iff_exists'.mp
      rw [Client.pop, ne_eq, Option.map_eq_none_iff, Queue.popTail_none]
      simp [Client.push, Queue.pushHead]
    obtain ⟨p, hp⟩ := hpop
    rw [hp]
    exact ⟨_, rfl⟩
  · exact ⟨_, rfl⟩

end

namespace Tidy

variable {alive : Nat → Prop} {ended : List Nat} {s : Ipc}

theorem pushNotes_ok (h : Tidy alive ended s) (f : Frame) {cs : List Nat} (hcs : ∀ c ∈ cs, alive c) :
    ∃ p, s.pushNotes f cs = .ok p := by
  induction cs generalizing s with
  | nil => exact ⟨_, rfl⟩
  | cons c cs ih =>
      obtain ⟨⟨t, o⟩, ht⟩ :=
        clientPush_ok ((h.clients c).mpr (hcs c List.mem_cons_self)) .note f
      obtain ⟨⟨u, o'⟩, hu⟩ := ih (h.clientPush ht) fun d hd => hcs d (List.mem_cons_of_mem _ hd)
      refine ⟨(u, o ++ o'), ?_⟩
      rw [Ipc.pushNotes, clientPushNote, ht, ok_bind]
      dsimp only
      rw [hu]
      rfl

/-- What is received is taken, when the responses are for clients. -/
theorem call_ok (P : Platform) (h : Tidy alive ended s) {o : IfOut}
    (hrx : ∀ tag ∈ o.response, ∃ c, tag = .client c ∧ alive c)
    (hnote : ∀ f, o = .note f → f.sourceAddress.toNat < deviceHighAddress) :
    ∃ p, s.call P o = .ok p := by
  cases o with
  | pushRx tag f =>
      obtain ⟨c, rfl, hc⟩ := hrx tag rfl
      exact clientPush_ok ((h.clients c).mpr hc) .rx f
  | note f =>
      rw [Ipc.call, dispatchNote, if_pos (hnote f rfl)]
      refine h.pushNotes_ok f fun c hc => ?_
      obtain ⟨target, ht, rfl⟩ := List.mem_map.mp hc
      exact (h.targets _ target (List.mem_filter.mp ht).1).1
  | wrote | free | deviceAdd | listen => exact ⟨_, rfl⟩

theorem calls_ok (P : Platform) (h : Tidy alive ended s) {os : List IfOut}
    (hrx : ∀ tag ∈ responses os, ∃ c, tag = .client c ∧ alive c)
    (hnote : ∀ f, .note f ∈ os → f.sourceAddress.toNat < deviceHighAddress) :
    ∃ p, s.calls P os = .ok p := by
  induction os generalizing s with
  | nil => exact ⟨_, rfl⟩
  | cons o os ih =>
      have hone : ∀ tag ∈ o.response, tag ∈ responses (o :: os) := fun tag htag =>
        List.mem_filterMap.mpr ⟨o, List.mem_cons_self, htag⟩
      have hrest : ∀ tag ∈ responses os, tag ∈ responses (o :: os) := fun tag htag => by
        obtain ⟨o', ho', hresp⟩ := List.mem_filterMap.mp htag
        exact List.mem_filterMap.mpr ⟨o', List.mem_cons_of_mem _ ho', hresp⟩
      obtain ⟨⟨t, out⟩, ht⟩ := h.call_ok P (fun tag htag => hrx tag (hone tag htag))
        fun f hf => hnote f (hf ▸ List.mem_cons_self)
      obtain ⟨⟨u, outs⟩, hu⟩ := ih (h.call ht) (fun tag htag => hrx tag (hrest tag htag))
        fun f hf => hnote f (List.mem_cons_of_mem _ hf)
      refine ⟨(u, out ++ outs), ?_⟩
      rw [Ipc.calls, ht, ok_bind]
      dsimp only
      rw [hu]
      rfl

end Tidy

end Ipc

/-! ## The daemon -/

namespace Daemon

/-- The callback does not end the daemon. -/
def Sound (s : Daemon) : DaemonEvent → Prop
  | .sricIf ev => s.sricIf.Sound ev
  | .ipc ev => s.ipc.RequestFits ev

instance (s : Daemon) : DecidablePred s.Sound
  | .sricIf ev => inferInstanceAs (Decidable (s.sricIf.Sound ev))
  | .ipc ev => inferInstanceAs (Decidable (s.ipc.RequestFits ev))

section
variable {P : Platform} {s : Daemon} {ended : List Nat} {x : Halt}

/-- The response to a frame of a client is for one that is there. -/
theorem Orderly.responses (h : Orderly ended s) {ev : IfEvent} {t : SricIf} {out : List IfOut}
    (hsound : s.sricIf.Sound ev) (hs : s.sricIf.step ev = .ok (t, out)) :
    ∀ tag ∈ responses out, ∃ c, tag = .client c ∧ s.ipc.Alive c := by
  intro tag htag
  have heffect := SricIf.step_effect h.txInv hs
  have hclient : ∃ c, tag = .client c := by
    cases tag with
    | client c => exact ⟨c, rfl⟩
    | null => exact absurd htag (hsound.answered heffect).1
    | badEnum => exact absurd htag (hsound.answered heffect).2
  obtain ⟨c, rfl⟩ := hclient
  refine ⟨c, rfl, ?_⟩
  by_contra hgone
  exact (h.forgotten c hgone).no_response heffect htag

theorem sound_sricIf (h : Orderly ended s) {ev : IfEvent}
    (hs : step P s (.sricIf ev) = .error x) : x = .disabled ∨ ¬s.sricIf.Sound ev := by
  rw [step] at hs
  split at hs
  · cases hs
    exact .inl rfl
  · obtain hs | ⟨⟨t, os⟩, ht, hs⟩ := bind_error.mp hs
    · exact SricIf.step_error h.txInv hs
    · right
      intro hsound
      obtain hs | ⟨_, -, hs⟩ := bind_error.mp hs
      · have hnote : ∀ f, .note f ∈ os → f.sourceAddress.toNat < deviceHighAddress := by
          intro f hf
          obtain ⟨bytes, note, -, rfl⟩ := SricIf.step_emits h.txInv ht _ hf
          exact SricIf.frameOf_source _ _
        obtain ⟨p, hp⟩ := h.tidy.calls_ok P (h.responses hsound ht) hnote
        cases hp.symm.trans hs
      · cases hs

/-- An ack for one of the daemon's own frames. -/
theorem unsound_sricIf {ev : IfEvent} (hsound : ¬s.sricIf.Sound ev) (hinv : s.sricIf.TxInv) :
    ∃ x, step P s (.sricIf ev) = .error x ∧ x ≠ .disabled := by
  cases ev with
  | ifTx id w =>
      obtain ⟨rfl, hl, hbusy⟩ : w = none ∧ (id, Source.ifTx) ∈ s.sricIf.loop.live ∧ s.sricIf.Busy := by
        simpa [SricIf.Sound] using hsound
      obtain ⟨t, e, -, hsend⟩ := SricIf.ifTx_send hinv.toTxCore hbusy
      have hexit : s.sricIf.step (.ifTx id none) = .error .exit := by
        show (if _ then s.sricIf.handle (.ifTx id none) else _) = _
        rw [if_pos hl, SricIf.handle, hsend]
        rfl
      refine ⟨.exit, ?_, by simp⟩
      rw [step, if_neg (by simp [IfEvent.isCall]), hexit]
      rfl
  | frame bytes =>
      obtain ⟨hme, hack, hc, e, hf, hcond⟩ :
          (PackedFrame.ofBytes bytes).forMe = true ∧ (PackedFrame.ofBytes bytes).isAck = true
            ∧ s.sricIf.frameCancelled = false ∧ ∃ e, s.sricIf.txFrame = some e
            ∧ ¬(if s.sricIf.enumerated then e.frame.tag ≠ .null ∧ e.frame.tag ≠ .badEnum
              else ¬s.sricIf.enum.Exhausted (PackedFrame.ofBytes bytes)) := by
        simp only [SricIf.Sound, Classical.not_imp, not_forall] at hsound
        obtain ⟨hme, hack, hc, e, hf, hcond⟩ := hsound
        exact ⟨hme, hack, hc, e, hf, hcond⟩
      by_cases hover : s.sricIf.enumerated = true
      · -- it is handed to no client
        rw [if_pos hover] at hcond
        obtain ⟨t, ht⟩ := SricIf.retire_over hf hc hover (PackedFrame.ofBytes bytes)
        have hstep : s.sricIf.step (.frame bytes) = .ok (t, _) :=
          (SricIf.procRxFrame_ack hf hme hack).trans ht
        have hcall : ∃ x, s.ipc.call P (.pushRx e.frame.tag (SricIf.frameOf (PackedFrame.ofBytes bytes) 0))
            = .error x ∧ x ≠ .disabled := by
          cases htag : e.frame.tag with
          | client c => exact absurd (by simp [htag]) hcond
          | null => exact ⟨.assertion, rfl, by simp⟩
          | badEnum => exact ⟨.badPointer, rfl, by simp⟩
        obtain ⟨x, hx, hne⟩ := hcall
        refine ⟨x, ?_, hne⟩
        rw [step, if_neg (by simp [IfEvent.isCall]), hstep, ok_bind]
        dsimp only
        rw [Ipc.calls, hx]
        rfl
      · rw [if_neg hover, not_not] at hcond
        have hexit : s.sricIf.step (.frame bytes) = .error .exit :=
          SricIf.procRxFrame_error.mpr ⟨rfl, hme, hack, by rw [hf]; rfl, hc,
            Bool.eq_false_iff.mpr hover, hcond⟩
        refine ⟨.exit, ?_, by simp⟩
        rw [step, if_neg (by simp [IfEvent.isCall]), hexit]
        rfl
  | enumStart | push f pri | cancel tag | txTimeout id | killToken id | sendReset id =>
      exact absurd trivial hsound

/-- **A callback ends the daemon** exactly when it is not sound. -/
theorem step_crashes (h : Orderly ended s) (ev : DaemonEvent) :
    (∀ x, step P s ev = .error x → x = .disabled) ↔ s.Sound ev := by
  cases ev with
  | sricIf ev =>
      constructor
      · intro hx
        by_contra hsound
        obtain ⟨x, hs, hne⟩ := unsound_sricIf (P := P) hsound h.txInv
        exact hne (hx x hs)
      · intro hsound x hs
        exact (sound_sricIf h hs).resolve_right (not_not.mpr hsound)
  | ipc ev =>
      have hstep : ∀ x, step P s (.ipc ev) = .error x ↔ s.ipc.step P ev = .error x := by
        intro x
        rw [step, bind_error]
        refine or_iff_left fun hrest => ?_
        obtain ⟨_, -, hrest⟩ := hrest
        cases hrest
      constructor
      · intro hx
        by_contra hsound
        cases hx _ ((hstep _).mpr ((Ipc.step_faults P s.ipc ev).mpr hsound))
      · intro hsound x hs
        have hs := (hstep x).mp hs
        rcases Ipc.step_error hs with rfl | rfl | rfl
        · rfl
        · exact absurd hsound ((Ipc.step_faults P s.ipc ev).mp hs)
        · exact absurd hs (h.tidy.step_safe P ev)

theorem run_crashes {evs : List DaemonEvent} (h : Orderly ended s)
    (hd : Noted (step P) ends Dies ended s evs) :
    (∀ x, run (step P) s evs = .error x → x = .disabled) ↔ Along (step P) Sound s evs :=
  run_noted_ends (I := Orderly) (fun _ _ _ _ _ h hd hs => orderly_step h hs hd)
    (fun _ _ ev h => step_crashes h ev) h hd

end

end Daemon

/-! ## The program -/

namespace Program

/-- The client whose end is read in a callback. -/
def ends (P : Platform) (s : Program) (ev : ProgramEvent) : List Nat :=
  history (Daemon.step P) Daemon.ends s.daemon (s.events ev)

/-- The callback does not end the program: the port is not at its end, and
neither does a frame that `rx` finds end the daemon. -/
def Sound (P : Platform) (s : Program) : ProgramEvent → Prop
  | .read chunk => (chunk = [] → s.rx.space = 0)
      ∧ Along (Daemon.step P) Daemon.Sound s.daemon (s.events (.read chunk))
  | .readError => False
  | .other ev => isProcess ev = false → s.daemon.Sound ev

instance (P : Platform) (s : Program) : DecidablePred (s.Sound P)
  | .read _ => inferInstanceAs (Decidable (_ ∧ _))
  | .readError => inferInstanceAs (Decidable False)
  | .other _ => inferInstanceAs (Decidable (_ → _))

/-- What is known of the program between two callbacks. -/
structure Orderly (ended : List Nat) (s : Program) : Prop where
  wf : s.rx.WF
  daemon : Daemon.Orderly ended s.daemon

/-- A client that is destroyed is finished. -/
def Dies (ended : List Nat) (s : Program) (ev : ProgramEvent) : Prop :=
  ∀ id c, ev = .other (.ipc (.death id c)) → s.daemon.ipc.Finished ended c

section
variable {P : Platform} {s t : Program} {ended : List Nat} {ev : ProgramEvent}
  {out : List DaemonOut}

/-- Only a callback of its own destroys a client. -/
theorem Dies.events (hd : Dies ended s ev) :
    Noted (Daemon.step P) Daemon.ends Daemon.Dies ended s.daemon (s.events ev) := by
  cases ev with
  | read chunk =>
      apply Daemon.noted_dies
      intro pre id c post u o hevs
      have hmem : DaemonEvent.ipc (.death id c) ∈ s.events (.read chunk) := by
        rw [hevs]
        exact List.mem_append_right _ List.mem_cons_self
      obtain ⟨f, -, hf⟩ := List.mem_map.mp hmem
      cases hf
  | readError =>
      intro pre ev post u o hevs
      cases pre <;> cases hevs
  | other ev =>
      apply Daemon.noted_dies
      intro pre id c post u o hevs hu
      cases pre with
      | nil =>
          cases hevs
          cases hu
          simpa [history] using hd id c rfl
      | cons e pre => cases pre <;> cases hevs

theorem orderly_step (h : Orderly ended s) (hd : Dies ended s ev)
    (hs : step P s ev = .ok (t, out)) : Orderly (ended ++ s.ends P ev) t := by
  refine ⟨?_, Daemon.orderly_run h.daemon (step_run hs) hd.events⟩
  cases ev with
  | read chunk => exact (RxMemory.rx_short h.wf (read_ok hs).1).1
  | readError => cases hs
  | other ev =>
      rw [(other_ok hs).1]
      exact h.wf

/-- Where `rx` returns, a read fails as the daemon does behind it. -/
theorem read_error {chunk : List Byte} {p : Rx × List (List Byte)} {x : Halt}
    (hrx : Sricd.rx s.rx chunk = .ok p) :
    step P s (.read chunk) = .error x
      ↔ run (Daemon.step P) s.daemon (s.events (.read chunk)) = .error x := by
  have hevents : s.events (.read chunk) = p.2.map process := by
    rw [events, frames, hrx]
    rfl
  rw [hevents, step, hrx, ok_bind, bind_error]
  refine or_iff_left fun hrest => ?_
  obtain ⟨_, -, hrest⟩ := hrest
  cases hrest

theorem other_error {ev : DaemonEvent} {x : Halt} (hev : isProcess ev = false) :
    step P s (.other ev) = .error x ↔ s.daemon.step P ev = .error x := by
  rw [step, if_neg (by rw [hev]; exact Bool.false_ne_true), bind_error]
  refine or_iff_left fun hrest => ?_
  obtain ⟨_, -, hrest⟩ := hrest
  cases hrest

/-- When a read ends the program. -/
theorem read_ends (h : Orderly ended s) (chunk : List Byte) :
    (∀ x, step P s (.read chunk) = .error x → x = .disabled) ↔ s.Sound P (.read chunk) := by
  cases hrx : Sricd.rx s.rx chunk with
  | error y =>
      have hstep : step P s (.read chunk) = .error y := by
        rw [step, hrx]
        rfl
      have hnone : s.events (.read chunk) = [] := by
        rw [events, frames, hrx]
        rfl
      rw [hstep, Sound, hnone]
      rcases (RxMemory.rx_error_iff h.wf).mp hrx with ⟨rfl, hlt⟩ | ⟨rfl, rfl, hspace⟩
      · have hne : chunk ≠ [] := by
          rintro rfl
          cases hlt
        simp [Along, hne, eq_comm]
      · simp [hspace]
  | ok p =>
      have heof : chunk = [] → s.rx.space = 0 := by
        intro hnil
        by_contra hspace
        cases hrx.symm.trans ((RxMemory.rx_error_iff h.wf).mpr (.inr ⟨rfl, hnil, hspace⟩))
      have hdies : Dies ended s (.read chunk) := by
        intro id c hev
        cases hev
      rw [Sound, and_iff_right heof, ← Daemon.run_crashes h.daemon hdies.events]
      exact forall_congr' fun x => imp_congr_left (read_error hrx)

/-- **A callback ends the program** exactly when it is not sound. -/
theorem step_ends (h : Orderly ended s) (ev : ProgramEvent) :
    (∀ x, step P s ev = .error x → x = .disabled) ↔ s.Sound P ev := by
  cases ev with
  | read chunk => exact read_ends h chunk
  | readError =>
      refine iff_of_false (fun hx => ?_) id
      cases hx _ rfl
  | other ev =>
      rw [Sound]
      by_cases hev : isProcess ev = true
      · rw [step, if_pos hev]
        simp [hev, eq_comm]
      · have hev := Bool.eq_false_iff.mpr hev
        rw [← Daemon.step_crashes (P := P) h.daemon ev, forall_prop_of_true hev]
        exact forall_congr' fun x => imp_congr_left (other_error hev)

end

/-- **What ends the program.** Where every client that goes is finished, a
run comes to an end for good exactly when one of its callbacks is not
sound. -/
theorem ends_iff {P : Platform} {evs : List ProgramEvent}
    (hd : ∀ pre id c post u o, evs = pre ++ .other (.ipc (.death id c)) :: post →
      run (step P) init pre = .ok (u, o) →
      u.daemon.ipc.Finished (history (step P) (ends P) init pre) c) :
    (∀ x, run (step P) init evs = .error x → x = .disabled)
      ↔ Along (step P) (Sound P) init evs := by
  refine run_noted_ends (I := Orderly) (D := Dies)
    (fun _ _ _ _ _ h hd hs => orderly_step h hd hs) (fun _ _ ev h => step_ends h ev)
    ⟨Rx.wf_init, Daemon.orderly_init⟩ ?_
  intro pre ev post u o hevs hu id c hev
  obtain rfl := hev
  simpa using hd pre id c post u o hevs hu

/-- The client of `connected` hangs up, and the daemon reads the end. -/
def hangUp : List ProgramEvent :=
  connected ++ [.other (.ipc (.closed 0)), .other (.ipc (.incoming 2 0 0))]

/-- It is destroyed, and the daemon goes on until the port is at its end. -/
theorem ends_iff_hang_up :
    (∀ x, run (step .x86) init (hangUp ++ [.other (.ipc (.death 3 0))]) = .error x → x = .disabled)
      ∧ ∃ x, run (step .x86) init (hangUp ++ [.other (.ipc (.death 3 0)), .read []]) = .error x
        ∧ x ≠ .disabled := by
  obtain ⟨⟨v, ov⟩, hv, hp⟩ := ok_of_any (r := run (step .x86) init hangUp)
    (p := fun p => (p.1.daemon.ipc.loop.live.all fun q => q.2.isWatch || q.2 == .new)
      && (p.1.daemon.ipc.devices.targets 0).isEmpty && (p.1.daemon.ipc.devices.targets 1).isEmpty)
    (by decide +kernel)
  simp only [Bool.and_eq_true, List.all_eq_true, List.isEmpty_iff] at hp
  obtain ⟨⟨hlive, h0⟩, h1⟩ := hp
  have hread : 0 ∈ history (step .x86) (ends .x86) init hangUp := by
    decide +kernel
  have hnone : ∀ e ∈ hangUp, ¬∃ id c, e = ProgramEvent.other (.ipc (.death id c)) := by
    intro e he hdeath
    obtain ⟨id, c, rfl⟩ := hdeath
    simp [hangUp, connected, oneDevice, exchange] at he
  have hfinished : ∀ fs : List ProgramEvent, (∀ e ∈ fs, ¬∃ id c, e = .other (.ipc (.death id c))) →
      ∀ pre id c post u o,
        hangUp ++ .other (.ipc (.death 3 0)) :: fs = pre ++ .other (.ipc (.death id c)) :: post →
        run (step .x86) init pre = .ok (u, o) →
        u.daemon.ipc.Finished (history (step .x86) (ends .x86) init pre) c := by
    intro fs hfs pre id c post u o hevs hu
    obtain ⟨rfl, hlast⟩ := split_only hnone hfs ⟨id, c, rfl⟩ hevs
    cases hlast
    cases hu.symm.trans hv
    refine ⟨hread, ?_, ?_⟩
    · intro id k hl
      cases hlive _ hl
    · intro a ha t ht
      obtain rfl | rfl : a = 0 ∨ a = 1 := by omega
      · rw [h0] at ht
        cases ht
      · rw [h1] at ht
        cases ht
  constructor
  · exact (ends_iff (hfinished [] (fun _ he => absurd he List.not_mem_nil))).mpr (by decide +kernel)
  · by_contra hgoes
    have hdeath : ∀ e ∈ [ProgramEvent.read []], ¬∃ id c, e = .other (.ipc (.death id c)) := by
      simp
    refine absurd ((ends_iff (hfinished _ hdeath)).mp fun x hx => ?_) (by decide +kernel)
    by_contra hne
    exact hgoes ⟨x, hx, hne⟩

end Program

end Sricd
