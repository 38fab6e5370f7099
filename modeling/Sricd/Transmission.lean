import Sricd.Cancel
import Sricd.Ledger

/-!
# When a transmission begins

A frame whose tag is cancelled is not transmitted again, unless it is the
frame in flight and stands at its first byte: a retransmission that
`tx_timeout` has prepared, and that `if_tx` then makes without a look at
`frame_cancelled` (`cancelled_not_begun_iff`).
-/

namespace Sricd

open Sricd.Lib

/-- Entries are allocated upwards. -/
theorem le_of_mem_allocated {heap : Nat} {fs : List FrameT} {e : TxEntry}
    (h : e ∈ allocated heap fs) : heap ≤ e.ptr := by
  have hptr := List.mem_map_of_mem (f := TxEntry.ptr) h
  rw [allocated_ptrs] at hptr
  exact (List.mem_range'_1.mp hptr).1

namespace SricIf

/-- The frame that `if_tx` writes from its first byte on. -/
def begun (s : SricIf) : IfEvent → List TxEntry
  | .ifTx _ _ => if ¬s.Written ∧ (s.txFrame = none ∨ s.txpos = 0) then s.sending.toList else []
  | _ => []

/-- No transmission of the frame begins any more: it is not queued, and in
flight only when it is cancelled and partly written. -/
structure Spent (e : TxEntry) (s : SricIf) : Prop where
  allocated : e.ptr < s.txq.heap
  queued : e ∉ s.txq.entries
  flight : s.txFrame = some e → s.frameCancelled = true ∧ s.txpos ≠ 0

theorem Spent.not_begun {e : TxEntry} {s : SricIf} (h : Spent e s) (ev : IfEvent) :
    e ∉ s.begun ev := by
  intro he
  cases ev with
  | ifTx id w =>
      rw [begun] at he
      split at he
      · rename_i hc
        rw [Option.mem_toList, sending] at he
        split at he
        · rename_i x hf
          cases he
          rcases hc.2 with hn | h0
          · cases hn.symm.trans hf
          · exact (h.flight hf).2 h0
        · obtain ⟨⟨x, q⟩, hq, rfl⟩ := Option.map_eq_some_iff.mp he
          apply h.queued
          rcases (TxQueue.next_some hq).2 with ⟨hq0, -⟩ | ⟨-, -, -, hq1⟩
          · rw [TxQueue.entries, hq0]
            exact List.mem_append_left _ List.mem_cons_self
          · rw [TxQueue.entries, hq1]
            exact List.mem_append_right _ List.mem_cons_self
      · cases he
  | _ => cases he

/-- What is pushed is another frame. -/
theorem Spent.queue {e : TxEntry} {s s' : SricIf} {fs : List FrameT} (h : Spent e s)
    (hq : Queued s s' fs) : e ∉ s'.txq.entries := by
  intro he
  rcases List.mem_append.mp (hq.entries.mem_iff.mp he) with he | he
  · exact h.queued he
  · exact Nat.lt_irrefl _ (Nat.lt_of_lt_of_le h.allocated (le_of_mem_allocated he))

/-- **One step** begins no transmission of it, and none can begin behind
it. -/
theorem Spent.effect {e : TxEntry} {s s' : SricIf} {ev : IfEvent} {out : List IfOut}
    (h : Spent e s) (he : Effect s ev s' out) : Spent e s' := by
  have hallocated : e.ptr < s'.txq.heap := by
    rw [(effect_places he).1]
    exact Nat.lt_of_lt_of_le h.allocated (Nat.le_add_right ..)
  cases he with
  | pushed hsame hf hq _ _ _ _ =>
      refine ⟨hallocated, h.queue hq, ?_⟩
      rw [hf, hsame.frameCancelled, hsame.txpos]
      exact h.flight
  | cancelled t _ hs' hc _ =>
      have hqueued : e ∉ s'.txq.entries := by
        rw [hs']
        exact fun hmem => h.queued (mem_entries_cancel.mp hmem).1
      refine ⟨hallocated, hqueued, ?_⟩
      intro hf
      have hf' : s.txFrame = some e := by
        rw [hs'] at hf
        exact hf
      refine ⟨hc.mpr (.inl (h.flight hf').1), ?_⟩
      rw [hs']
      exact (h.flight hf').2
  | wrote id w t x n _ hs _ hsame hq _ hcase =>
      rcases hs.origin with rfl | ⟨hnone, -⟩
      · -- it is the frame in flight that is written on
        refine ⟨hallocated, hq ▸ h.queued, ?_⟩
        intro hf
        rcases hcase with ⟨hx, -⟩ | ⟨hx, -⟩
        · cases hx.symm.trans hf
          obtain ⟨hc, hpos⟩ := h.flight hs.txFrame
          rw [hsame.frameCancelled, hsame.txpos]
          exact ⟨hc, Nat.ne_of_gt (Nat.add_pos_left (Nat.pos_of_ne_zero hpos) n)⟩
        · cases hx.symm.trans hf
      · -- the frame that is written was queued, and this one was not
        have hother : ∀ y, y = x ∨ y ∈ t.txq.entries → y ≠ e := by
          intro y hy hx
          obtain rfl := hx
          have hheld : y ∈ s.held := by
            rw [held_sending hs]
            exact List.mem_cons.mpr hy
          rw [held, hnone] at hheld
          exact h.queued hheld
        refine ⟨hallocated, ?_, ?_⟩
        · rw [hq]
          exact fun hmem => hother e (.inr hmem) rfl
        · intro hf
          rcases hcase with ⟨hx, -⟩ | ⟨hx, -⟩
          · cases hx.symm.trans hf
            exact absurd rfl (hother e (.inl rfl))
          · cases hx.symm.trans hf
  | timedOut id _ hc _ _ _ hq hf _ =>
      refine ⟨hallocated, hq ▸ h.queued, ?_⟩
      intro hf'
      rw [hf] at hf'
      split at hf'
      · cases hf'
      · rename_i hnot
        exact absurd (h.flight hf').1 hnot
  | acked x _ _ hn _ hq _ _ _ =>
      refine ⟨hallocated, h.queue hq, ?_⟩
      intro hf
      cases hn.symm.trans hf

theorem Spent.run {e : TxEntry} {s t : SricIf} {evs : List IfEvent} {out : List IfOut}
    (hi : TxInv s) (h : Spent e s) (hr : Lib.run step s evs = .ok (t, out)) :
    e ∉ history step begun s evs := by
  induction evs generalizing s out with
  | nil => exact List.not_mem_nil
  | cons ev evs ih =>
      obtain ⟨u, o, os, hs, hr', -⟩ := run_cons_ok.mp hr
      rw [history, hs, List.mem_append]
      intro hx
      rcases hx with he | he
      · exact h.not_begun ev he
      · exact ih (hi.step hs) (h.effect (step_effect hi hs)) hr' he

/-- The frames that are held have been allocated. -/
theorem held_allocated {evs : List IfEvent} {s : SricIf} {os : List IfOut}
    (hr : Lib.run step init evs = .ok (s, os)) {e : TxEntry} (he : e ∈ s.held) :
    e.ptr < s.txq.heap := by
  have h := balanced_run txInv_init balanced_init hr
  have hmem := h.places.mem_iff.mp (List.mem_append_left _ he)
  have hptr := List.mem_map_of_mem (f := TxEntry.ptr) hmem
  rw [allocated_ptrs, ← h.heap] at hptr
  simpa using (List.mem_range'_1.mp hptr).2

/-- `if_tx` writes the frame in flight from its first byte on. -/
theorem rewrite_begins {s : SricIf} (h : TxInv s) {e : TxEntry} (hf : s.txFrame = some e)
    (h0 : s.txpos = 0) : ∃ r, s.step (.ifTx s.writeSrcid (some 0)) = .ok r
      ∧ s.begun (.ifTx s.writeSrcid (some 0)) = [e] := by
  have hlen : s.txpos ≠ s.txlen := by
    rw [h0, (h.inFlight e hf).txlen_eq]
    exact Nat.ne_of_lt e.frame.wire_pos
  have hlive : (s.writeSrcid, Source.ifTx) ∈ s.loop.live :=
    (h.watch _).mpr ⟨rfl, h.ready (.inl ⟨e, hf, hlen⟩)⟩
  have hsome : s.txFrame.isSome = true := by
    rw [hf]
    rfl
  have hstep : s.step (.ifTx s.writeSrcid (some 0)) = s.handle (.ifTx s.writeSrcid (some 0)) :=
    if_pos hlive
  have hx : s.ifTx (some 0) = .ok ((s.written 0).1,
      [.wrote ((s.txbuf.drop s.txpos).take 0)], (s.written 0).2) := by
    rw [ifTx, if_neg fun hc => hlen hc.2, if_pos hsome, send, if_neg (Nat.not_lt_zero _)]
  have hok : ∃ r, s.step (.ifTx s.writeSrcid (some 0)) = .ok r := by
    rw [hstep, handle, hx]
    exact ⟨_, rfl⟩
  obtain ⟨r, hr⟩ := hok
  refine ⟨r, hr, ?_⟩
  rw [begun, if_pos ⟨fun hw => hlen hw.2, .inr h0⟩, sending, hf]
  rfl

/-- What a cancel leaves to begin is nothing, but for a frame in flight that
stands at its first byte. -/
theorem spent_cancel {s u : SricIf} {tag : Tag} {o : List IfOut} (h : TxInv s)
    (hs : s.step (.cancel tag) = .ok (u, o)) {e : TxEntry} (hptr : e.ptr < s.txq.heap)
    (htag : e.frame.tag = tag) (hpos : s.txFrame = some e → s.txpos ≠ 0) : Spent e u := by
  have hforgotten : Forgotten tag u := forgotten_cancel (step_effect h hs)
  obtain rfl : (s.txqCancel tag).1 = u := congrArg Prod.fst (Except.ok.inj hs)
  refine ⟨?_, fun he => hforgotten.queued e he htag, ?_⟩
  · rw [txqCancel_rest]
    exact hptr
  · intro hf
    refine ⟨hforgotten.flight e hf htag, ?_⟩
    rw [txqCancel_rest] at hf ⊢
    exact hpos hf

/-- **A cancelled frame is not transmitted again**, in whatever state its tag
is cancelled and whatever happens then, exactly unless it is in flight and
at its first byte: behind the cancel no transmission begins of a frame that
was held with the tag. -/
theorem cancelled_not_begun_iff {pre : List IfEvent} {s u : SricIf} {tag : Tag}
    {os o : List IfOut} (hr : Lib.run step init pre = .ok (s, os))
    (hs : step s (.cancel tag) = .ok (u, o)) :
    (∀ post t out, Lib.run step u post = .ok (t, out) →
        ∀ e ∈ s.held, e.frame.tag = tag → e ∉ history step begun u post)
      ↔ ∀ e, s.txFrame = some e → e.frame.tag = tag → s.txpos ≠ 0 := by
  have hi : TxInv s := txInv_init.run hr
  have hiu : TxInv u := hi.step hs
  constructor
  · intro h e hf htag h0
    have hu : (s.txqCancel tag).1 = u := congrArg Prod.fst (Except.ok.inj hs)
    have hf' : u.txFrame = some e := by
      rw [← hu, txqCancel_rest]
      exact hf
    have h0' : u.txpos = 0 := by
      rw [← hu, txqCancel_rest]
      exact h0
    obtain ⟨⟨t, out⟩, ht, hbegun⟩ := rewrite_begins hiu hf' h0'
    have hheld : e ∈ s.held := by
      rw [held, hf]
      exact List.mem_append_left _ List.mem_cons_self
    apply h _ t out (run_single.mpr ht) e hheld htag
    rw [history, hbegun]
    exact List.mem_append_left _ List.mem_cons_self
  · intro h post t out hpost e he htag
    exact (spent_cancel hi hs (held_allocated hr he) htag fun hf => h e hf htag).run hiu hpost

/-- A frame of a client is pushed, written, and its timeout fires. -/
def rearmed : List IfEvent := [.push firstFrame 0, .ifTx 1 (some 6), .txTimeout 2]

/-- The frame is cancelled while it waits for its ack. -/
theorem cancelled_not_begun_waiting : ∃ s os u o,
    Lib.run step init [.push firstFrame 0, .ifTx 1 (some 6)] = .ok (s, os)
      ∧ step s (.cancel (.client 0)) = .ok (u, o)
      ∧ ∀ post t out, Lib.run step u post = .ok (t, out) →
        ∀ e ∈ s.held, e.frame.tag = .client 0 → e ∉ history step begun u post := by
  have hrun : (Lib.run step init [.push firstFrame 0, .ifTx 1 (some 6)]).toOption.any
      (fun p => p.1.txpos == 6) = true := by decide +kernel
  obtain ⟨⟨s, os⟩, hr, hpos⟩ := ok_of_any hrun
  have hpos : s.txpos = 6 := beq_iff_eq.mp hpos
  refine ⟨s, os, _, _, hr, rfl, (cancelled_not_begun_iff hr rfl).mpr ?_⟩
  intro e _ _
  rw [hpos]
  decide

/-- It is cancelled when its timeout has fired, and written once more. -/
theorem cancelled_frame_begins : ∃ s os u o t out,
    Lib.run step init rearmed = .ok (s, os) ∧ step s (.cancel (.client 0)) = .ok (u, o)
      ∧ Lib.run step u [.ifTx 3 (some 6)] = .ok (t, out)
      ∧ .wrote firstFrame.wire ∈ out
      ∧ ∃ e ∈ s.held, e.frame.tag = .client 0 ∧ e ∈ history step begun u [.ifTx 3 (some 6)] := by
  have hrun : (Lib.run step init rearmed).toOption.any (fun p =>
      decide ((⟨0, firstFrame⟩ : TxEntry) ∈ p.1.held)
        && (step p.1 (.cancel (.client 0))).toOption.any fun q =>
          decide ((⟨0, firstFrame⟩ : TxEntry) ∈ history step begun q.1 [.ifTx 3 (some 6)])
          && (Lib.run step q.1 [.ifTx 3 (some 6)]).toOption.any fun r =>
            decide (IfOut.wrote firstFrame.wire ∈ r.2)) = true := by
    decide +kernel
  obtain ⟨⟨s, os⟩, hr, hs⟩ := ok_of_any hrun
  obtain ⟨hheld, hs⟩ := Bool.and_eq_true_iff.mp hs
  obtain ⟨⟨u, o⟩, hu, hs⟩ := ok_of_any hs
  obtain ⟨hbegun, hs⟩ := Bool.and_eq_true_iff.mp hs
  obtain ⟨⟨t, out⟩, ht, hwrote⟩ := ok_of_any hs
  exact ⟨s, os, u, o, t, out, hr, hu, ht, of_decide_eq_true hwrote, _, of_decide_eq_true hheld,
    rfl, of_decide_eq_true hbegun⟩

end SricIf

end Sricd
