import Sricd.Effects

/-!
# Cancelled frames

Behind `txq_cancel` no response goes to the cancelled tag, until a new
frame of it is pushed; and `frame_cancelled` says of the frame in flight
exactly whether its tag has been cancelled since it was taken off the
queue (`cancel_never_delivers`).
-/

namespace Sricd

open Sricd.Lib

namespace SricIf

/-- Nothing is left of the tag but a frame in flight that is cancelled. -/
structure Forgotten (tag : Tag) (s : SricIf) : Prop where
  queued : ∀ e ∈ s.txq.entries, e.frame.tag ≠ tag
  flight : ∀ e, s.txFrame = some e → e.frame.tag = tag → s.frameCancelled = true

theorem mem_entries_cancel {q : TxQueue} {tag : Tag} {e : TxEntry} :
    e ∈ (q.cancel tag).1.entries ↔ e ∈ q.entries ∧ e.frame.tag ≠ tag := by
  simp only [TxQueue.entries, TxQueue.cancel_q0, TxQueue.cancel_q1, others, List.mem_append,
    List.mem_filter, Bool.not_eq_true', beq_eq_false_iff_ne, or_and_right]

theorem forgotten_cancel {s s' : SricIf} {tag : Tag} {out : List IfOut}
    (he : Effect s (.cancel tag) s' out) : Forgotten tag s' := by
  cases he with
  | pushed _ _ _ _ _ _ hne => exact absurd rfl (hne tag)
  | cancelled t ht hs' hc _ =>
      cases ht
      rw [hs']
      exact ⟨fun e he => (mem_entries_cancel.mp he).2, fun e hf htag => hc.mpr (.inr ⟨e, hf, htag⟩)⟩
  | wrote _ _ _ _ _ hev => cases hev
  | timedOut _ hev => cases hev
  | acked _ hev =>
      obtain ⟨_, hev, -⟩ := hev
      cases hev

theorem mem_queued {s s' : SricIf} {fs : List FrameT} (h : Queued s s' fs) {e : TxEntry}
    (he : e ∈ s'.txq.entries) : e ∈ s.txq.entries ∨ e.frame ∈ fs := by
  rcases List.mem_append.mp (h.entries.mem_iff.mp he) with he | he
  · exact .inl he
  · exact .inr (mem_allocated he)

theorem Forgotten.queue {tag : Tag} {s s' : SricIf} {fs : List FrameT} (h : Forgotten tag s)
    (hq : Queued s s' fs) (hnew : ∀ f ∈ fs, f.tag ≠ tag) :
    ∀ e ∈ s'.txq.entries, e.frame.tag ≠ tag := by
  intro e he
  rcases mem_queued hq he with he | he
  · exact h.queued e he
  · exact hnew _ he

/-- The frame in flight gets no response when it is of the tag. -/
theorem Forgotten.no_response {tag : Tag} {s s' : SricIf} {ev : IfEvent} {out : List IfOut}
    (h : Forgotten tag s) (he : Effect s ev s' out) : tag ∉ responses out := by
  cases he with
  | pushed _ _ _ _ _ hquiet _ =>
      rw [hquiet.1]
      exact List.not_mem_nil
  | cancelled _ _ _ _ hquiet =>
      rw [hquiet.1]
      exact List.not_mem_nil
  | wrote _ _ _ _ _ _ _ _ _ _ hout _ =>
      rw [hout]
      exact List.not_mem_nil
  | timedOut _ _ _ _ _ _ _ _ hquiet =>
      rw [hquiet.1]
      exact List.not_mem_nil
  | acked e _ hf _ _ _ _ hresp _ =>
      rw [hresp]
      split
      · rename_i hc
        intro hmem
        have := h.flight e hf (List.mem_singleton.mp hmem).symm
        rw [this] at hc
        cases hc.1
      · exact List.not_mem_nil

/-- The frame that is taken off the queue is none of the tag's. -/
theorem Forgotten.taken {tag : Tag} {s t : SricIf} {e : TxEntry} (h : Forgotten tag s)
    (hs : Sending s t e) : Forgotten tag t := by
  rcases hs.origin with rfl | ⟨hf, -, -, -⟩
  · exact h
  · have hqueued : ∀ x, x = e ∨ x ∈ t.txq.entries → x.frame.tag ≠ tag := by
      intro x hx
      have hheld : x ∈ s.held := by
        rw [held_sending hs]
        exact List.mem_cons.mpr hx
      rw [held, hf] at hheld
      exact h.queued x hheld
    refine ⟨fun x hx => hqueued x (.inr hx), ?_⟩
    intro x hx htag
    cases hs.txFrame.symm.trans hx
    exact absurd htag (hqueued e (.inl rfl))

/-- **One step** keeps the tag forgotten. -/
theorem Forgotten.effect {tag : Tag} {s s' : SricIf} {ev : IfEvent} {out : List IfOut}
    (h : Forgotten tag s) (hnew : ∀ f ∈ s.pushes ev, f.tag ≠ tag) (he : Effect s ev s' out) :
    Forgotten tag s' := by
  cases he with
  | pushed hsame hf hq _ _ _ _ =>
      refine ⟨h.queue hq hnew, ?_⟩
      rw [hf, hsame.frameCancelled]
      exact h.flight
  | cancelled t _ hs' hc _ =>
      rw [hs']
      exact ⟨fun e he => h.queued e (mem_entries_cancel.mp he).1,
        fun e hf htag => hc.mpr (.inl (h.flight e hf htag))⟩
  | wrote id w t e n _ hs _ hsame hq _ hcase =>
      have ht := h.taken hs
      constructor
      · rw [hq]
        exact ht.queued
      · intro x hx htag
        rw [hsame.frameCancelled]
        rcases hcase with ⟨hf, -⟩ | ⟨hf, -⟩
        · cases hf.symm.trans hx
          exact ht.flight e hs.txFrame htag
        · cases hf.symm.trans hx
  | timedOut id _ hc _ _ _ hq hf _ =>
      constructor
      · rw [hq]
        exact h.queued
      · intro e he htag
        rw [hc]
        rw [hf] at he
        split at he
        · cases he
        · exact h.flight e he htag
  | acked e _ _ hf' _ hq _ _ _ =>
      exact ⟨h.queue hq hnew, fun x hx _ => by cases hf'.symm.trans hx⟩

/-- While a frame stays in flight, it becomes cancelled by a cancel of its
tag. -/
theorem cancelled_effect {s s' : SricIf} {ev : IfEvent} {out : List IfOut} {e : TxEntry}
    (hf : s.txFrame = some e) (hf' : s'.txFrame = some e) (he : Effect s ev s' out) :
    s'.frameCancelled = true ↔ s.frameCancelled = true ∨ ev = .cancel e.frame.tag := by
  cases he with
  | pushed hsame _ _ _ _ _ hne =>
      rw [hsame.frameCancelled]
      exact (or_iff_left (hne _)).symm
  | cancelled t hev hs' hc _ =>
      rw [hc, hev, hf]
      refine or_congr_right ⟨?_, ?_⟩
      · intro hx
        obtain ⟨x, hx, rfl⟩ := hx
        rw [Option.some.inj hx]
      · intro ht
        exact ⟨e, rfl, (IfEvent.cancel.inj ht).symm⟩
  | wrote id w t x n hev hs _ hsame _ _ _ =>
      rw [hsame.frameCancelled, hev]
      rcases hs.origin with rfl | ⟨hn, -⟩
      · simp
      · cases hn.symm.trans hf
  | timedOut id hev hc _ _ _ _ _ _ =>
      rw [hc, hev]
      simp
  | acked x _ _ hn _ _ _ _ _ => cases hn.symm.trans hf'

/-- A frame that has just been taken off the queue is not cancelled. -/
theorem taken_not_cancelled {s s' : SricIf} {ev : IfEvent} {out : List IfOut} {e : TxEntry}
    (hf : s.txFrame ≠ some e) (hf' : s'.txFrame = some e) (he : Effect s ev s' out) :
    s'.frameCancelled = false := by
  cases he with
  | pushed _ hsame _ _ _ _ _ => exact absurd (hsame.symm.trans hf') hf
  | cancelled t _ hs' _ _ =>
      rw [hs'] at hf'
      exact absurd hf' hf
  | wrote id w t x n _ hs _ hsame _ _ hcase =>
      rcases hcase with ⟨hx, -⟩ | ⟨hx, -⟩
      · cases hx.symm.trans hf'
        rw [hsame.frameCancelled]
        rcases hs.origin with rfl | ⟨-, -, hc, -⟩
        · exact absurd hs.txFrame hf
        · exact hc
      · cases hx.symm.trans hf'
  | timedOut id _ _ _ _ _ _ hx _ =>
      rw [hx] at hf'
      split at hf'
      · cases hf'
      · exact absurd hf' hf
  | acked x _ _ hn _ _ _ _ _ => cases hn.symm.trans hf'

/-! ## Runs -/

theorem forgotten_run {tag : Tag} {s t : SricIf} {evs : List IfEvent} {out : List IfOut}
    (hi : TxInv s) (h : Forgotten tag s)
    (hnew : Along step (fun u ev => ∀ f ∈ u.pushes ev, f.tag ≠ tag) s evs)
    (hr : run step s evs = .ok (t, out)) (f : Frame) : IfOut.pushRx tag f ∉ out := by
  have hout := run_outputs_along (I := fun u => TxInv u ∧ Forgotten tag u)
    (P := fun o => o.response ≠ some tag) ?_ ⟨hi, h⟩ hnew hr
  · exact fun hmem => hout _ hmem rfl
  · intro u ev u' os hx hpush hs
    obtain ⟨hu, hfor⟩ := hx
    have heffect := step_effect hu hs
    exact ⟨⟨hu.step hs, hfor.effect hpush heffect⟩,
      fun o ho hc => hfor.no_response heffect (List.mem_filterMap.mpr ⟨o, ho, hc⟩)⟩

theorem cancelled_run {s t : SricIf} {evs : List IfEvent} {out : List IfOut} {e : TxEntry}
    (hi : TxInv s) (hstay : Along step (fun u _ => u.txFrame = some e) s evs)
    (hf : t.txFrame = some e) (hr : run step s evs = .ok (t, out)) :
    t.frameCancelled = true ↔ s.frameCancelled = true ∨ .cancel e.frame.tag ∈ evs := by
  induction evs generalizing s out with
  | nil =>
      cases hr
      simp
  | cons ev evs ih =>
      obtain ⟨u, o, os, hs, hr', -⟩ := run_cons_ok.mp hr
      have hu : u.txFrame = some e := by
        cases evs with
        | nil =>
            cases hr'
            exact hf
        | cons ev' evs => exact (hstay.2 u o hs).1
      rw [ih (hi.step hs) (hstay.2 u o hs) hr', cancelled_effect hstay.1 hu (step_effect hi hs),
        List.mem_cons, or_assoc, eq_comm (a := ev)]

/-- **A cancelled frame is never delivered.** In any state that is reached:
behind a cancel no response goes to its tag until a frame of it is pushed
again; and while a frame stays in flight that has been taken off the queue
just now, `frame_cancelled` is true exactly if its tag has been cancelled
meanwhile. -/
theorem cancel_never_delivers {pre : List IfEvent} {s : SricIf} {os : List IfOut}
    (hr : run step init pre = .ok (s, os)) :
    (∀ tag u o post t out, step s (.cancel tag) = .ok (u, o) → run step u post = .ok (t, out) →
      Along step (fun v ev => ∀ f ∈ v.pushes ev, f.tag ≠ tag) u post →
      ∀ f, IfOut.pushRx tag f ∉ o ++ out)
    ∧ ∀ e ev u o post t out, s.txFrame ≠ some e → step s ev = .ok (u, o) → u.txFrame = some e →
      run step u post = .ok (t, out) → Along step (fun v _ => v.txFrame = some e) u post →
      t.txFrame = some e → (t.frameCancelled = true ↔ .cancel e.frame.tag ∈ post) := by
  have hi : TxInv s := txInv_init.run hr
  constructor
  · intro tag u o post t out hs hr' hnew f hmem
    have he := step_effect hi hs
    rcases List.mem_append.mp hmem with hmem | hmem
    · -- the cancel itself frees frames
      cases hs
      obtain ⟨ptr, -, hptr⟩ := List.mem_map.mp hmem
      cases hptr
    · exact forgotten_run (hi.step hs) (forgotten_cancel he) hnew hr' f hmem
  · intro e ev u o post t out hne hs hf hr' hstay hf'
    have hc := taken_not_cancelled hne hf (step_effect hi hs)
    rw [cancelled_run (hi.step hs) hstay hf' hr', hc]
    simp

/-- A frame of a client, cancelled while it waits for its ack; and one
cancelled while it is being written. -/
theorem cancel_never_delivers_twice :
    (∃ s os u o t out, run step init [.push firstFrame 0, .ifTx 1 (some 6)] = .ok (s, os)
      ∧ step s (.cancel (.client 0)) = .ok (u, o) ∧ run step u [.frame (ackBytes 2 [])] = .ok (t, out)
      ∧ ∀ f, IfOut.pushRx (.client 0) f ∉ o ++ out)
    ∧ ∃ t out, run step init [.push firstFrame 0, .ifTx 1 (some 3), .cancel (.client 0),
        .ifTx 1 (some 2)] = .ok (t, out) ∧ t.frameCancelled = true := by
  constructor
  · obtain ⟨⟨t, out⟩, ht, -⟩ := ok_of_any (r := run step init
      ([.push firstFrame 0, .ifTx 1 (some 6)] ++ [.cancel (.client 0), .frame (ackBytes 2 [])]))
      (p := fun _ => true) (by decide +kernel)
    obtain ⟨s, os, os', hpre, hpost, -⟩ := run_append_ok.mp ht
    obtain ⟨u, o, out', hs, hr, -⟩ := run_cons_ok.mp hpost
    refine ⟨s, os, u, o, t, out', hpre, hs, hr, ?_⟩
    refine (cancel_never_delivers hpre).1 _ _ _ _ _ _ hs hr
      ⟨fun f hf htag => ?_, fun _ _ _ => trivial⟩
    rcases pushes_tag hf with ⟨pri, hev⟩ | hnull | hbad
    · cases hev
    · cases hnull.symm.trans htag
    · cases hbad.symm.trans htag
  · obtain ⟨⟨u, o⟩, hu, hp⟩ := ok_of_any (r := run step init
      ([.push firstFrame 0] ++ [.ifTx 1 (some 3)]))
      (p := fun q => decide (q.1.txFrame = some ⟨0, firstFrame⟩
        ∧ Along step (fun v _ => v.txFrame = some ⟨0, firstFrame⟩) q.1
          [.cancel (.client 0), .ifTx 1 (some 2)])
        && (run step q.1 [.cancel (.client 0), .ifTx 1 (some 2)]).toOption.any
          fun r : SricIf × List IfOut => decide (r.1.txFrame = some ⟨0, firstFrame⟩))
      (by decide +kernel)
    obtain ⟨hflight, hafter⟩ := Bool.and_eq_true_iff.mp hp
    obtain ⟨hf, hstay⟩ := of_decide_eq_true hflight
    obtain ⟨⟨t, out⟩, hr, hf'⟩ := ok_of_any hafter
    have hrun : run step init (([.push firstFrame 0] ++ [.ifTx 1 (some 3)])
        ++ [.cancel (.client 0), .ifTx 1 (some 2)]) = .ok (t, o ++ out) :=
      run_append_ok.mpr ⟨u, o, out, hu, hr, rfl⟩
    obtain ⟨s, os, os', hpre, hs, -⟩ := run_append_ok.mp hu
    have hnone : s.txFrame = none := by
      cases hpre
      rfl
    refine ⟨t, o ++ out, hrun, ?_⟩
    refine ((cancel_never_delivers hpre).2 _ _ _ _ _ _ _ ?_ (run_single.mp hs) hf hr hstay
      (of_decide_eq_true hf')).mpr List.mem_cons_self
    rw [hnone]
    exact (Option.some_ne_none _).symm

end SricIf

end Sricd
