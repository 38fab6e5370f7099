import Sricd.Calls
import Sricd.Lifetimes

/-!
# The ids of the timers

What the daemon records of its timers. The ids of the polls are never out
of date (`Ipc.step_current`): each callback that ends a timer clears its
id. `tx_timeout` does not, and an ack is taken for the end of a wait that
may not have begun, so that `retxmit_timeout_id` is current exactly in the
runs in which no frame times out and no ack comes early
(`Daemon.timer_ids_iff`).
-/

namespace Sricd

open Sricd.Lib

namespace Ipc

/-- Each id that a client records is 0, or that of a timeout of its own. -/
def Current (s : Ipc) : Prop :=
  ∀ c cl, s.clients c = some cl → ∀ k, s.loop.Holds (cl.box k).timer (.timeout k c)

theorem current_init : Current init := fun c cl hc => by cases hc

section
variable {P : Platform} {s t : Ipc} {c : Nat} {cl cl' : Client}

/-- A client is written back, with timeouts that are its own. -/
theorem Current.write (h : Current s) {l : MainLoop IpcSource}
    (hl : ∀ id k d, d ≠ c → s.loop.Holds id (.timeout k d) → l.Holds id (.timeout k d))
    (hk : ∀ k, l.Holds (cl.box k).timer (.timeout k c)) :
    Current ({ s with loop := l }.setClient c cl) := by
  intro d cl' hd k
  rcases update_clients hd with ⟨rfl, rfl⟩ | ⟨hdc, hd⟩
  · exact hk k
  · exact hl _ k d hdc (h d cl' hd k)

/-- A client is written back with the timeouts it had. -/
theorem Current.setClient (h : Current s) (hc : s.clients c = some cl)
    (hk : ∀ k, (cl'.box k).timer = (cl.box k).timer) : Current (s.setClient c cl') := by
  apply h.write (l := s.loop)
  · exact fun _ _ _ _ hd => hd
  · intro k
    rw [hk k]
    exact h c cl hc k

/-- No timeout is removed. -/
theorem Current.keep (h : Current s) (hc : ∀ d cl', t.clients d = some cl' → s.clients d = some cl')
    (hl : ∀ id k d, (id, .timeout k d) ∈ s.loop.live → (id, .timeout k d) ∈ t.loop.live) :
    Current t :=
  fun d cl' hd k => (h d cl' (hc d cl' hd) k).imp_right (hl _ k d)

theorem Current.devices (h : Current s) (d : Devices) : Current { s with devices := d } := h

/-- The end of a source that is no timeout. -/
theorem Current.drop (h : Current s) {id : Nat} (hid : ∀ k d, (id, .timeout k d) ∉ s.loop.live) :
    Current (s.drop id) :=
  fun d cl' hd k => (h d cl' hd k).remove (hid k d)

/-! ## Requests -/

theorem await_current (h : Current s) {k : Poll} {timeout : BitVec 32} {out : List IpcOut}
    (hc : s.clients c = some cl) (hr : await k s c cl timeout = .ok (t, out)) : Current t := by
  rw [await] at hr
  split at hr
  · cases hr
    exact h
  split at hr
  · cases hr
    apply h.setClient hc
    intro j
    rw [Client.setBox_box]
    by_cases hj : j = k
    · rw [if_pos hj, hj]
    · rw [if_neg hj]
  · cases hr
    apply h.write
    · exact fun id j d _ hd => hd.add _
    · intro j
      rw [Client.setBox_box]
      by_cases hj : j = k
      · rw [if_pos hj, hj]
        exact s.loop.holds_add _
      · rw [if_neg hj]
        exact (h c cl hc j).add _

theorem poll_current (h : Current s) {k : Poll} {timeout : BitVec 32} {out : List IpcOut}
    (hr : s.poll k c timeout = .ok (t, out)) : Current t := by
  obtain ⟨cl, hcl, hr⟩ := bind_ok.mp hr
  have hc := Session.client_ok hcl
  split at hr
  · rename_i hpop
    cases hr
    exact h.setClient hc fun j => (Session.pop_like hpop j).1
  · exact await_current h hc hr

theorem setFlags_current (h : Current s) {device : Nat} {flags : BitVec 64} {out : List IpcOut}
    (hr : s.setFlags P c device flags = .ok (t, out)) : Current t := by
  rcases setFlags_ok hr with ⟨-, hset, -⟩ | ⟨-, rfl, -⟩
  · rw [setClientNotes] at hset
    split at hset
    · obtain ⟨cl, hcl, hset⟩ := bind_ok.mp hset
      cases hset
      apply (h.devices _).setClient (Session.client_ok hcl)
      intro j
      rw [Client.setNoteData_box]
    · cases hset
  · exact h

theorem clearClientNotes_current (h : Current s) (hr : s.clearClientNotes P c = .ok t) :
    Current t := by
  obtain ⟨cl, hcl, hr⟩ := bind_ok.mp hr
  cases hr
  generalize s.devices.clearClientNotes c = d
  apply (h.devices d).setClient (Session.client_ok hcl)
  intro j
  rw [Client.clearNoteData_box]

theorem serve_current (h : Current s) {stale : BitVec 64} {heard : Heard} {out : List IpcOut}
    (hr : heard.serve P s c stale = .ok (t, out)) : Current t := by
  cases heard with
  | nothing | overflow => cases hr
  | malformed =>
      cases hr
      exact h
  | cutFlags device =>
      obtain ⟨⟨u, o⟩, hu, hr⟩ := bind_ok.mp hr
      cases hr
      exact setFlags_current h hu
  | request q =>
      cases q with
      | tx address payload hlt =>
          rw [Heard.serve, Request.serve] at hr
          split at hr
          · obtain ⟨b, -, hr⟩ := bind_ok.mp hr
            split at hr
            · cases hr
              exact h
            · cases hr
              exact h
          · cases hr
      | poll k timeout => exact poll_current h hr
      | noteFlags device flags => exact setFlags_current h hr
      | noteClear =>
          obtain ⟨u, hu, hr⟩ := bind_ok.mp hr
          cases hr
          exact clearClientNotes_current h hu
      | listDevices =>
          cases hr
          exact h

/-! ## Callbacks -/

/-- A timeout ends, and its client writes that down. -/
theorem timedOut_current (h : Current s) {k : Poll} {id : Nat} {out : List IpcOut}
    (hl : (id, .timeout k c) ∈ s.loop.live) (hr : s.timedOut k id c = .ok (t, out)) :
    Current t := by
  obtain ⟨cl, hcl, hr⟩ := bind_ok.mp hr
  cases hr
  have hc := Session.client_ok hcl
  have hother : ∀ j d, IpcSource.timeout k c ≠ .timeout j d → (id, .timeout j d) ∉ s.loop.live :=
    fun j d hne hl' => hne (MainLoop.kind_unique hl hl')
  apply h.write
  · intro id' j d hd hj
    apply hj.remove (hother j d _)
    intro heq
    exact hd (IpcSource.timeout.inj heq).2.symm
  · intro j
    rw [Client.setBox_box]
    by_cases hj : j = k
    · rw [if_pos hj]
      exact MainLoop.holds_zero ..
    · rw [if_neg hj]
      apply (h c cl hc j).remove (hother j c _)
      intro heq
      exact hj (IpcSource.timeout.inj heq).1.symm

/-- **Every callback keeps the ids of the polls current.** -/
theorem step_current (h : Current s) {ev : IpcEvent} {out : List IpcOut}
    (hs : s.step P ev = .ok (t, out)) : Current t := by
  obtain ⟨hlive, hh⟩ := step_handle hs
  cases ev with
  | new id =>
      cases hh
      intro d cl hd k
      rcases new_clients hd with ⟨-, rfl⟩ | ⟨-, hd⟩
      · exact MainLoop.holds_zero ..
      · exact (h d cl hd k).imp_right fun hl => new_live.mpr (.inl hl)
  | sent c bytes =>
      simp only [handle] at hh
      split at hh
      · cases hh
        exact h
      · cases hh
  | closed c =>
      simp only [handle] at hh
      split at hh
      · cases hh
        exact h
      · cases hh
  | incoming id c stale =>
      have hl := hlive _ rfl
      simp only [handle] at hh
      cases hin : (s.sockets c).inbox with
      | nil =>
          rw [clientIncoming_end P hin] at hh
          split at hh
          · cases hh
            apply h.drop
            intro k d hl'
            cases MainLoop.kind_unique hl hl'
          · cases hh
      | cons cmd rest =>
          rw [clientIncoming_hear P hin] at hh
          exact serve_current (s := s.setSocket c _) h hh
  | death id c =>
      have hl := hlive _ rfl
      simp only [handle] at hh
      split at hh
      · obtain ⟨⟨u, o⟩, hu, hh⟩ := bind_ok.mp hh
        cases hh
        obtain ⟨v, hv, hu⟩ := bind_ok.mp hu
        cases hu
        have hloop : v.loop = s.loop := by
          obtain ⟨cl, -, hv⟩ := bind_ok.mp hv
          cases hv
          rfl
        have hkeep : Current { v with clients := Function.update v.clients c none } :=
          (clearClientNotes_current h hv).keep (fun _ _ hd => update_gone hd) fun _ _ _ hl => hl
        apply hkeep.drop
        intro k d hl'
        rw [hloop] at hl'
        cases MainLoop.kind_unique hl hl'
      · cases hh
  | timeout k id c =>
      have hl := hlive _ rfl
      cases k with
      | rx =>
          obtain ⟨⟨u, o⟩, hu, hh⟩ := bind_ok.mp hh
          cases hh
          exact timedOut_current h hl hu
      | note => exact timedOut_current h hl hh

/-! ## What is received for a client -/

theorem clientPush_current (h : Current s) {k : Poll} {f : Frame} {out : List IpcOut}
    (hr : s.clientPush k c f = .ok (t, out)) : Current t := by
  obtain ⟨cl, cl', hc, ⟨-, hlike, rfl, -⟩ | ⟨-, h0, -, hother, rfl, -⟩⟩ :=
    Session.clientPush_cases hr
  · exact h.setClient hc fun j => (hlike j).1
  · have hk := h c cl hc k
    apply h.write
    · intro id j d hd hj
      apply hj.remove (hk.not_live _)
      intro heq
      exact hd (IpcSource.timeout.inj heq).2.symm
    · intro j
      by_cases hj : j = k
      · rw [hj, h0]
        exact MainLoop.holds_zero ..
      · rw [(hother j hj).1]
        apply (h c cl hc j).remove (hk.not_live _)
        intro heq
        exact hj (IpcSource.timeout.inj heq).1.symm

theorem pushNotes_current (h : Current s) {f : Frame} {cs : List Nat} {out : List IpcOut}
    (hr : s.pushNotes f cs = .ok (t, out)) : Current t := by
  induction cs generalizing s out with
  | nil =>
      cases hr
      exact h
  | cons c cs ih =>
      obtain ⟨⟨u, o⟩, hu, hr⟩ := bind_ok.mp hr
      obtain ⟨⟨v, os⟩, hv, hr⟩ := bind_ok.mp hr
      cases hr
      exact ih (clientPush_current h hu) hv

theorem call_current (h : Current s) {o : IfOut} {out : List IpcOut}
    (hr : s.call P o = .ok (t, out)) : Current t := by
  cases o with
  | wrote | free =>
      cases hr
      exact h
  | pushRx tag f =>
      cases tag with
      | client c => exact clientPush_current h hr
      | null => cases hr
      | badEnum => cases hr
  | note f =>
      rw [call, dispatchNote] at hr
      split at hr
      · exact pushNotes_current h hr
      · cases hr
  | deviceAdd i t =>
      cases hr
      exact h
  | listen =>
      cases hr
      exact fun d cl hd k => (h d cl hd k).add _

theorem calls_current (h : Current s) {os : List IfOut} {out : List IpcOut}
    (hr : s.calls P os = .ok (t, out)) : Current t := by
  induction os generalizing s out with
  | nil =>
      cases hr
      exact h
  | cons o os ih =>
      obtain ⟨⟨u, out₁⟩, hu, hr⟩ := bind_ok.mp hr
      obtain ⟨⟨v, out₂⟩, hv, hr⟩ := bind_ok.mp hr
      cases hr
      exact ih (call_current h hu) hv

/-! ## What is removed -/

/-- The ids that `rx_ping` or `note_ping` hands to `g_source_remove`, where
a frame for the client leads to one. -/
def removed (k : Poll) (s : Ipc) (c : Nat) : List Nat :=
  match s.clients c with
  | some cl => if (cl.box k).ping = true ∧ (cl.box k).timer ≠ 0 then [(cl.box k).timer] else []
  | none => []

/-- They are those of registered timeouts. -/
def RemovesLive (k : Poll) (s : Ipc) (c : Nat) : Prop :=
  ∀ id ∈ s.removed k c, (id, .timeout k c) ∈ s.loop.live

/-- So are those that a call of the serial interface leads to. -/
def CallRemovesLive (P : Platform) (s : Ipc) : IfOut → Prop
  | .pushRx (.client c) _ => s.RemovesLive .rx c
  | .note f => Along (fun s c => s.clientPushNote c f) (RemovesLive .note) s
      (s.devices.noteClients P f)
  | _ => True

theorem Current.removesLive (h : Current s) (k : Poll) (c : Nat) : s.RemovesLive k c := by
  intro id hid
  rw [removed] at hid
  split at hid
  · rename_i cl hc
    split at hid
    · rename_i hp
      obtain rfl := List.mem_singleton.mp hid
      exact (h c cl hc k).resolve_left hp.2
    · cases hid
  · cases hid

theorem Current.callRemovesLive (h : Current s) (P : Platform) (o : IfOut) :
    s.CallRemovesLive P o := by
  cases o with
  | pushRx tag f =>
      cases tag with
      | client c => exact h.removesLive .rx c
      | null => trivial
      | badEnum => trivial
  | note f =>
      apply along_of_invariant (I := Current)
      · exact fun _ _ _ _ hu hs => clientPush_current hu hs
      · exact fun _ c hu => hu.removesLive .note c
      · exact h
  | wrote | free | deviceAdd | listen => trivial

end

end Ipc

/-! ## The serial interface -/

namespace SricIf

/-- `retxmit_timeout_id` is 0, or that of the retransmission timeout. -/
def Current (s : SricIf) : Prop := s.loop.Holds s.retxmitTimeoutId .txTimeout

/-- The ids that `proc_rx_frame` hands to `g_source_remove`. -/
def removed (s : SricIf) : IfEvent → List Nat
  | .frame bytes =>
      if (PackedFrame.ofBytes bytes).forMe = true ∧ (PackedFrame.ofBytes bytes).isAck = true
          ∧ s.txFrame.isSome = true then
        [s.retxmitTimeoutId]
      else []
  | _ => []

/-- The ids of the retransmission timeouts go out of date, or are taken for
those of one: a timeout fires, or an ack comes for a frame that is not
written to its end. -/
def Outdates (s : SricIf) : IfEvent → Prop
  | .txTimeout _ => True
  | .frame bytes => (PackedFrame.ofBytes bytes).forMe = true
      ∧ (PackedFrame.ofBytes bytes).isAck = true ∧ s.txFrame.isSome = true ∧ s.txpos ≠ s.txlen
  | _ => False

instance (s : SricIf) : DecidablePred s.Outdates
  | .txTimeout _ => .isTrue trivial
  | .frame _ => inferInstanceAs (Decidable (_ ∧ _))
  | .enumStart | .push .. | .cancel _ | .ifTx .. | .killToken _ | .sendReset _ => .isFalse id

section
variable {s s' : SricIf} {ev : IfEvent} {out : List IfOut}

theorem TxCore.current_iff (h : TxCore s) : s.Current ↔ s.retxmitTimeoutId = 0 ∨ s.Waiting :=
  or_congr_right ((h.timer _).trans (and_iff_right rfl))

/-- The timeout, and whether a frame waits for its ack, are as they were. -/
structure SameTimer (s s' : SricIf) : Prop where
  retxmitTimeoutId : s'.retxmitTimeoutId = s.retxmitTimeoutId
  txFrame : s'.txFrame = s.txFrame
  txpos : s'.txpos = s.txpos
  txlen : s'.txlen = s.txlen

theorem SameTimer.trans {u : SricIf} (h : SameTimer s s') (h' : SameTimer s' u) : SameTimer s u :=
  ⟨h'.1.trans h.1, h'.2.trans h.2, h'.3.trans h.3, h'.4.trans h.4⟩

theorem SameTimer.waiting (h : SameTimer s s') : s'.Waiting ↔ s.Waiting := by
  rw [Waiting, Waiting, h.txFrame, h.txpos, h.txlen]

theorem txReady_sameTimer (s : SricIf) : SameTimer s s.txReady := by
  rw [txReady_rest]
  exact ⟨rfl, rfl, rfl, rfl⟩

theorem txqPush_sameTimer (s : SricIf) (f : FrameT) (pri : Fin 2) :
    SameTimer s (s.txqPush f pri) := by
  have hready := txReady_sameTimer { s with txq := s.txq.push f pri }
  exact ⟨hready.1, hready.2, hready.3, hready.4⟩

theorem acts_sameTimer (s : SricIf) (as : List EnumAction) : SameTimer s (s.acts as).1 := by
  induction as generalizing s with
  | nil => exact ⟨rfl, rfl, rfl, rfl⟩
  | cons a as ih =>
      have hact : SameTimer s (s.act a).1 := by
        cases a with
        | push f => exact s.txqPush_sameTimer f 0
        | addTimer t => exact ⟨rfl, rfl, rfl, rfl⟩
        | deviceAdd i t => exact ⟨rfl, rfl, rfl, rfl⟩
      exact hact.trans (ih _)

theorem enumStep_sameTimer {r : Option (Enum × List EnumAction)}
    (hr : s.enumStep r = .ok (s', out)) : SameTimer s s' := by
  cases r with
  | none => cases hr
  | some p =>
      obtain rfl : _ = s' := congrArg Prod.fst (Except.ok.inj hr)
      have hacts := acts_sameTimer { s with enum := p.1 } p.2
      exact ⟨hacts.1, hacts.2, hacts.3, hacts.4⟩

/-- An ack for the frame in flight clears the id. -/
theorem retire_retxmit {e : TxEntry} {f : PackedFrame} (hf : s.txFrame = some e)
    (hr : s.retire e f = .ok (s', out)) : s'.retxmitTimeoutId = 0 := by
  have hacked : s.acked.retxmitTimeoutId = 0 := by
    rw [acked, txReady_rest]
  rcases retire_cases hf hr with ⟨-, rfl, -⟩ | ⟨-, -, rfl, -⟩ | ⟨enum, as, more, -, -, -, rfl, -⟩
  · exact hacked
  · exact hacked
  · exact (acts_sameTimer { s.acked with enum := enum } as).retxmitTimeoutId.trans hacked

/-- `if_tx` writes down the id of the timeout that it registers. -/
theorem ifTx_timed {id : Nat} {w : Option Nat} (h : TxInv s)
    (hs : s.step (.ifTx id w) = .ok (s', out)) (ht : s.retxmitTimeoutId = 0 ∨ s.Waiting) :
    s'.retxmitTimeoutId = 0 ∨ s'.Waiting := by
  have hh := (step_handle hs).2
  simp only [handle] at hh
  split at hh
  · cases hh
  rename_i x out' keep hx
  cases hh
  have hdrop : (if keep then x else x.drop id).retxmitTimeoutId = x.retxmitTimeoutId
      ∧ ((if keep then x else x.drop id).Waiting ↔ x.Waiting) := by
    cases keep with
    | true => exact ⟨rfl, Iff.rfl⟩
    | false => exact ⟨rfl, Iff.rfl⟩
  rw [hdrop.1, hdrop.2]
  rcases ifTx_cases h.toTxCore hx with ⟨-, rfl, -, -⟩ | ⟨t, e, n, hsend, hn, hw, -⟩
  · exact ht
  · -- the frame does not wait yet, so that no id is recorded
    have hzero : t.retxmitTimeoutId = 0 := by
      rw [hsend.rest]
      apply ht.resolve_right
      intro hwait
      obtain ⟨e', hf, hp, -⟩ := hwait
      exact hsend.unwritten' ⟨by rw [hf]; rfl, hp⟩
    rcases written_cases hsend.txFrame hsend.unwritten hn with ⟨-, hwr⟩ | ⟨-, hack, hwr⟩
      | ⟨-, -, hwr⟩
    · cases hw.symm.trans hwr
      exact .inl hzero
    · cases hw.symm.trans hwr
      exact .inr ⟨e, hsend.txFrame, rfl, hack⟩
    · cases hw.symm.trans hwr
      exact .inl hzero

/-- **Every callback but a timeout** keeps the id of the timeout current. -/
theorem current_step (h : TxInv s) (hs : s.step ev = .ok (s', out)) (hev : ¬s.Outdates ev)
    (hc : s.Current) : s'.Current := by
  have hh := (step_handle hs).2
  have ht := h.toTxCore.current_iff.mp hc
  rw [(h.step hs).toTxCore.current_iff]
  have hsame : SameTimer s s' → s'.retxmitTimeoutId = 0 ∨ s'.Waiting := by
    intro hx
    rw [hx.retxmitTimeoutId, hx.waiting]
    exact ht
  cases ev with
  | enumStart => exact hsame (enumStep_sameTimer hh)
  | push f pri =>
      cases hh
      exact hsame (s.txqPush_sameTimer f pri)
  | cancel tag =>
      obtain rfl : _ = s' := congrArg Prod.fst (Except.ok.inj hh)
      apply hsame
      rw [txqCancel_rest]
      exact ⟨rfl, rfl, rfl, rfl⟩
  | ifTx id w => exact ifTx_timed h hs ht
  | txTimeout id => exact absurd trivial hev
  | killToken id =>
      obtain ⟨u, hu, rfl⟩ := killToken_cases hh
      exact hsame ((enumStep_sameTimer hu).trans ⟨rfl, rfl, rfl, rfl⟩)
  | sendReset id =>
      obtain ⟨u, enum, as, again, -, hu, rfl⟩ := sendReset_cases hh
      apply hsame
      cases again with
      | true => exact enumStep_sameTimer hu
      | false => exact (enumStep_sameTimer hu).trans ⟨rfl, rfl, rfl, rfl⟩
  | frame bytes =>
      rcases procRxFrame_cases hh with ⟨rfl, -⟩ | ⟨-, rfl, -⟩ | ⟨e, hf, -, hr⟩
      · exact ht
      · exact hsame (s.txqPush_sameTimer _ 0)
      · exact .inl (retire_retxmit hf hr)

/-- A timeout that has fired stays recorded. -/
theorem txTimeout_outdated {id : Nat} (h : TxInv s) (hs : s.step (.txTimeout id) = .ok (s', out)) :
    ¬s'.Current := by
  obtain ⟨hlive, hh⟩ := step_handle hs
  obtain rfl : s.txTimeout.1.drop id = s' := congrArg Prod.fst (Except.ok.inj hh)
  have hl := hlive _ rfl
  have hid : id = s.retxmitTimeoutId := ((h.timer id).mp hl).1
  have hkeep : (s.txTimeout.1.drop id).retxmitTimeoutId = id := by
    rw [hid, drop, txTimeout]
    by_cases hc : s.frameCancelled = true
    · rw [if_pos hc]
      exact (txReady_sameTimer _).retxmitTimeoutId
    · rw [if_neg hc]
      exact (txReady_sameTimer _).retxmitTimeoutId
  intro hcurrent
  rw [Current, hkeep] at hcurrent
  rcases hcurrent with h0 | hl'
  · exact s.loop.zero_not_live _ (h0 ▸ hl)
  · exact ((MainLoop.mem_remove ..).mp hl').2 rfl

/-- **What `proc_rx_frame` removes** is the registered timeout, where the
frame in flight is written to its end. -/
theorem removed_live_iff (h : TxInv s) {bytes : List Byte} :
    (∀ id ∈ s.removed (.frame bytes), (id, .txTimeout) ∈ s.loop.live)
      ↔ ¬s.Outdates (.frame bytes) := by
  by_cases hack : (PackedFrame.ofBytes bytes).forMe = true
      ∧ (PackedFrame.ofBytes bytes).isAck = true ∧ s.txFrame.isSome = true
  · obtain ⟨hme, hisAck, hsome⟩ := hack
    obtain ⟨e, hf⟩ := Option.isSome_iff_exists.mp hsome
    rw [removed, if_pos ⟨hme, hisAck, hsome⟩]
    constructor
    · intro hall hout
      obtain ⟨-, e', -, hp, -⟩ := (h.timer _).mp (hall _ (List.mem_singleton.mpr rfl))
      exact hout.2.2.2 hp
    · intro hno id hid
      rw [List.mem_singleton.mp hid, h.timer]
      have hp : s.txpos = s.txlen := by
        by_contra hne
        exact hno ⟨hme, hisAck, hsome, hne⟩
      exact ⟨rfl, e, hf, hp, (h.inFlight e hf).needsAck hp⟩
  · rw [removed, if_neg hack]
    refine iff_of_true ?_ ?_
    · intro id hid
      cases hid
    · intro hout
      exact hack ⟨hout.1, hout.2.1, hout.2.2.1⟩

theorem calls_current (h : TxInv s) (hc : s.Current) (os : List IpcOut) : (s.calls os).1.Current := by
  induction os generalizing s with
  | nil => exact hc
  | cons o os ih =>
      cases o with
      | reply c r => exact ih (s := s) h hc
      | push f =>
          have hs : s.step (.push f 1) = .ok (s.txqPush f 1, []) := rfl
          exact ih (h.step hs) (current_step h hs id hc)
      | cancel c =>
          have hs : s.step (.cancel (.client c)) = .ok (s.txqCancel (.client c)) := rfl
          exact ih (h.step hs) (current_step h hs id hc)

end

end SricIf

/-! ## The daemon -/

namespace Daemon

/-- Every id that is recorded is 0, or that of a registered timer. -/
structure Current (s : Daemon) : Prop where
  retxmit : s.sricIf.Current
  polls : s.ipc.Current

/-- What an event hands to `g_source_remove` are ids of registered timers,
each at its call. -/
def RemovesLive (P : Platform) (s : Daemon) : DaemonEvent → Prop
  | .sricIf ev => (∀ id ∈ s.sricIf.removed ev, (id, .txTimeout) ∈ s.sricIf.loop.live)
      ∧ ∀ t os, s.sricIf.step ev = .ok (t, os) → Along (Ipc.call P) (Ipc.CallRemovesLive P) s.ipc os
  | .ipc _ => True

/-- Through the whole run no recorded id is out of date, and none but those
of registered timers are removed. -/
structure NeverStale (P : Platform) (evs : List DaemonEvent) : Prop where
  current : ∀ pre post s os, evs = pre ++ post → run (step P) init pre = .ok (s, os) → Current s
  removes : Along (step P) (RemovesLive P) init evs

/-- An event of the serial interface that its timeout does not survive. -/
def Outdates (s : Daemon) : DaemonEvent → Prop
  | .sricIf ev => s.sricIf.Outdates ev
  | .ipc _ => False

instance (s : Daemon) : DecidablePred s.Outdates
  | .sricIf ev => inferInstanceAs (Decidable (s.sricIf.Outdates ev))
  | .ipc _ => .isFalse id

section
variable {P : Platform} {s s' : Daemon} {ev : DaemonEvent} {out : List DaemonOut}

/-- What holds in every run. -/
theorem polls_step (h : s.sricIf.TxInv ∧ s.ipc.Current) (hs : step P s ev = .ok (s', out)) :
    s'.sricIf.TxInv ∧ s'.ipc.Current := by
  cases ev with
  | sricIf ev =>
      obtain ⟨os, ipc, outs, -, ht, hcalls, rfl, -⟩ := sricIf_ok hs
      exact ⟨h.1.step ht, Ipc.calls_current h.2 hcalls⟩
  | ipc ev =>
      obtain ⟨os, hi, ht, -⟩ := ipc_ok hs
      rw [ht]
      exact ⟨SricIf.calls_txInv h.1 os, Ipc.step_current h.2 hi⟩

theorem polls_run {evs : List DaemonEvent} (hr : run (step P) init evs = .ok (s, out)) :
    s.sricIf.TxInv ∧ s.ipc.Current :=
  run_invariant (I := fun s : Daemon => s.sricIf.TxInv ∧ s.ipc.Current)
    (fun _ _ _ _ h hs => polls_step h hs) ⟨SricIf.txInv_init, Ipc.current_init⟩ hr

theorem retxmit_step (h : s.sricIf.TxInv ∧ s.sricIf.Current) (hev : ¬s.Outdates ev)
    (hs : step P s ev = .ok (s', out)) : s'.sricIf.TxInv ∧ s'.sricIf.Current := by
  cases ev with
  | sricIf ev =>
      obtain ⟨os, ipc, outs, -, ht, -, -, -⟩ := sricIf_ok hs
      exact ⟨h.1.step ht, SricIf.current_step h.1 ht hev h.2⟩
  | ipc ev =>
      obtain ⟨os, -, ht, -⟩ := ipc_ok hs
      rw [ht]
      exact ⟨SricIf.calls_txInv h.1 os, SricIf.calls_current h.1 h.2 os⟩

theorem retxmit_run {evs : List DaemonEvent}
    (hc : Along (step P) (fun s ev => ¬s.Outdates ev) init evs)
    (hr : run (step P) init evs = .ok (s, out)) : s.sricIf.Current :=
  (run_invariant_along (I := fun s : Daemon => s.sricIf.TxInv ∧ s.sricIf.Current)
    (fun _ _ _ _ h hev hs => retxmit_step h hev hs) ⟨SricIf.txInv_init, .inl rfl⟩ hc hr).2

/-- Only `proc_rx_frame` may remove what is not there. -/
theorem removesLive_iff (h : s.sricIf.TxInv ∧ s.ipc.Current) (P : Platform) (ev : DaemonEvent) :
    s.RemovesLive P ev ↔ ∀ bytes, ev = .sricIf (.frame bytes) → ¬s.Outdates ev := by
  have hcalls : ∀ os, Along (Ipc.call P) (Ipc.CallRemovesLive P) s.ipc os := by
    intro os
    apply along_of_invariant (I := Ipc.Current)
    · exact fun _ _ _ _ hu hs => Ipc.call_current hu hs
    · exact fun _ o hu => hu.callRemovesLive P o
    · exact h.2
  cases ev with
  | ipc ev =>
      refine iff_of_true trivial ?_
      intro bytes hev
      cases hev
  | sricIf ev =>
      refine (and_iff_left fun t os _ => hcalls os).trans ?_
      cases ev with
      | frame bytes =>
          rw [SricIf.removed_live_iff h.1]
          constructor
          · exact fun hno _ _ => hno
          · exact fun hall => hall bytes rfl
      | _ =>
          refine iff_of_true ?_ ?_
          · intro id hid
            cases hid
          · intro bytes hev
            cases hev

/-- **Timer ids are never out of date** in exactly the runs in which no
frame times out, and no ack for us comes while the frame in flight is not
written to its end. -/
theorem timer_ids_iff {evs : List DaemonEvent} (hr : run (step P) init evs = .ok (s, out)) :
    NeverStale P evs ↔ Along (step P) (fun s ev => ¬s.Outdates ev) init evs := by
  constructor
  · intro h
    apply along_of_prefixes
    intro pre ev post u os hsplit hc hu
    have hpolls := polls_run hu
    cases ev with
    | ipc ev => exact id
    | sricIf ev =>
        have hremoves := (removesLive_iff hpolls P _).mp (along_at (hsplit ▸ h.removes) hu)
        cases ev with
        | frame bytes => exact hremoves bytes rfl
        | txTimeout id =>
            -- the state behind it has the id of a timer that has fired
            rw [hsplit] at hr
            obtain ⟨v, o₁, hv⟩ := run_step_at hr hu
            obtain ⟨os', ipc, outs, -, ht, -, -, -⟩ := sricIf_ok hv
            have hpre : run (step P) init (pre ++ [.sricIf (.txTimeout id)]) = .ok (v, os ++ o₁) :=
              run_append_ok.mpr ⟨u, os, o₁, hu, run_single.mpr hv, rfl⟩
            have hcurrent := h.current _ post v _ (by rw [hsplit, List.append_assoc]; rfl) hpre
            exact absurd hcurrent.retxmit (SricIf.txTimeout_outdated hpolls.1 ht)
        | _ => exact id
  · intro hc
    constructor
    · intro pre post u os hsplit hu
      exact ⟨retxmit_run (along_init (hsplit ▸ hc)) hu, (polls_run hu).2⟩
    · apply along_of_prefixes
      intro pre ev post u os hsplit _ hu
      rw [removesLive_iff (polls_run hu)]
      exact fun _ _ => along_at (hsplit ▸ hc) hu

/-- The client of `connected` polls with a timeout of a second, which
fires. -/
def pollTimesOut : List DaemonEvent :=
  connected ++ [.ipc (.sent 0 (Request.poll .note 1000).bytes), .ipc (.incoming 2 0 0),
    .ipc (.timeout .note 4 0)]

/-- No timer of the serial interface fires there. -/
theorem timer_ids_poll : NeverStale .x86 pollTimesOut := by
  obtain ⟨⟨s, os⟩, hr, -⟩ := ok_of_any (r := run (step .x86) init pollTimesOut)
    (p := fun _ => true) (by decide +kernel)
  exact (timer_ids_iff hr).mpr (by decide +kernel)

/-- The first frame of the enumeration is written, and its timeout fires. -/
def frameTimesOut : List DaemonEvent :=
  [.sricIf .enumStart, .sricIf (.ifTx 1 (some 7)), .sricIf (.txTimeout 3)]

/-- Behind it `retxmit_timeout_id` is still 3, and there is no timer 3. -/
theorem timer_ids_timeout :
    ∃ s os, run (step .x86) init frameTimesOut = .ok (s, os) ∧ s.sricIf.retxmitTimeoutId = 3
      ∧ (3, Source.txTimeout) ∉ s.sricIf.loop.live ∧ ¬NeverStale .x86 frameTimesOut := by
  obtain ⟨⟨s, os⟩, hr, hid⟩ := ok_of_any (r := run (step .x86) init frameTimesOut)
    (p := fun p => p.1.sricIf.retxmitTimeoutId == 3
      && decide ((3, Source.txTimeout) ∉ p.1.sricIf.loop.live)) (by decide +kernel)
  simp only [Bool.and_eq_true, beq_iff_eq, decide_eq_true_eq] at hid
  refine ⟨s, os, hr, hid.1, hid.2, fun hnever => ?_⟩
  have hcurrent := (hnever.current _ [] s os (List.append_nil _).symm hr).retxmit
  rw [SricIf.Current, hid.1] at hcurrent
  rcases hcurrent with h0 | hl
  · cases h0
  · exact hid.2 hl

end

end Daemon

end Sricd
