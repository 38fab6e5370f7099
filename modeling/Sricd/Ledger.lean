import Mathlib.Data.List.Count
import Sricd.Effects

/-!
# Every frame is retired once

The frames that have been pushed, at any time, are exactly those that are
queued, in flight, or have left in one of three ways, and none is counted
twice (`frames_retired_once`). A client therefore gets no more responses
than it has pushed frames.
-/

namespace Sricd

open Sricd.Lib

open scoped List

namespace SricIf

/-- The frames `pushed` so far are those held, and those that have
`left`. -/
structure Balanced (s : SricIf) (pushed : List FrameT) (left : List (Fate × TxEntry)) : Prop where
  heap : s.txq.heap = pushed.length
  places : (s.held ++ left.map Prod.snd).Perm (allocated 0 pushed)

theorem balanced_init : Balanced init [] [] := ⟨rfl, .nil⟩

/-- A push adds to what is held. -/
theorem held_queued {s s' : SricIf} {fs : List FrameT} (hf : s'.txFrame = s.txFrame)
    (hq : Queued s s' fs) : s'.held.Perm (s.held ++ allocated s.txq.heap fs) := by
  rw [held, held, hf, List.append_assoc]
  exact hq.entries.append_left _

/-- What is cancelled is no longer queued. -/
theorem entries_cancel (q : TxQueue) (tag : Tag) :
    ((q.cancel tag).1.entries ++ q.entries.filter fun e => e.frame.tag == tag).Perm q.entries := by
  have hcancel : (q.cancel tag).1.entries = q.entries.filter fun e => !(e.frame.tag == tag) := by
    rw [TxQueue.entries, TxQueue.cancel_q0, TxQueue.cancel_q1, others, others, TxQueue.entries,
      List.filter_append]
  rw [hcancel]
  exact List.perm_append_comm.trans (List.filter_append_perm _ _)

/-- **One step**: what is held behind it and what leaves is what was held
and what is pushed. -/
theorem effect_places {s s' : SricIf} {ev : IfEvent} {out : List IfOut} (he : Effect s ev s' out) :
    s'.txq.heap = s.txq.heap + (s.pushes ev).length
      ∧ (s'.held ++ (s.settled ev).map Prod.snd).Perm
        (s.held ++ allocated s.txq.heap (s.pushes ev)) := by
  cases he with
  | pushed _ hf hq hfate _ _ _ =>
      rw [hfate]
      exact ⟨hq.heap, by rw [List.map_nil, List.append_nil]; exact held_queued hf hq⟩
  | cancelled tag hev hs' _ _ =>
      subst hev
      rw [hs']
      refine ⟨rfl, ?_⟩
      have hmap : (s.settled (.cancel tag)).map Prod.snd
          = s.txq.entries.filter fun e => e.frame.tag == tag := by
        rw [settled, List.map_map]
        exact List.map_id _
      have hpushes : s.pushes (.cancel tag) = [] := rfl
      rw [hmap, hpushes, allocated, List.append_nil, held, held, List.append_assoc]
      exact (entries_cancel _ tag).append_left _
  | wrote id w t e n hev hs _ _ hq _ hcase =>
      subst hev
      have hheld := held_sending hs
      have hpushes : s.pushes (.ifTx id w) = [] := rfl
      rw [hpushes, allocated, List.append_nil, hheld, held, hq]
      constructor
      · rcases hs.origin with rfl | ⟨-, -, -, hnext⟩
        · rfl
        · exact (TxQueue.next_some hnext).1
      · rcases hcase with ⟨hf, hfate⟩ | ⟨hf, -, hfate⟩
        · rw [hf, hfate, List.map_nil, List.append_nil]
          exact .refl _
        · rw [hf, hfate]
          exact List.perm_append_singleton e _
  | timedOut id hev _ _ _ _ hq hf _ =>
      subst hev
      have hpushes : s.pushes (.txTimeout id) = [] := rfl
      rw [hpushes, allocated, List.append_nil, held, held, hq, hf, settled]
      refine ⟨rfl, ?_⟩
      cases s.frameCancelled with
      | false =>
          rw [if_neg Bool.false_ne_true, if_neg Bool.false_ne_true, List.map_nil, List.append_nil]
      | true =>
          have hmap : (s.txFrame.toList.map (Fate.cancelled, ·)).map Prod.snd
              = s.txFrame.toList := by
            rw [List.map_map]
            exact List.map_id _
          rw [if_pos rfl, if_pos rfl, hmap]
          exact List.perm_append_comm
  | acked e _ hf hf' _ hq hfate _ _ =>
      refine ⟨hq.heap, ?_⟩
      rw [hfate, held, held, hf, hf']
      exact (List.perm_append_singleton e _).trans (hq.entries.cons e)

/-- What is held was held before, or is pushed. -/
theorem mem_held_effect {s s' : SricIf} {ev : IfEvent} {out : List IfOut} (he : Effect s ev s' out)
    {e : TxEntry} (h : e ∈ s'.held) : e ∈ s.held ∨ e.frame ∈ s.pushes ev := by
  have hmem := (effect_places he).2.mem_iff.mp (List.mem_append_left _ h)
  rcases List.mem_append.mp hmem with hmem | hmem
  · exact .inl hmem
  · exact .inr (mem_allocated hmem)

theorem balanced_step {s s' : SricIf} {ev : IfEvent} {out : List IfOut} {pushed : List FrameT}
    {left : List (Fate × TxEntry)} (h : Balanced s pushed left) (he : Effect s ev s' out) :
    Balanced s' (pushed ++ s.pushes ev) (left ++ s.settled ev) := by
  obtain ⟨hheap, hplaces⟩ := effect_places he
  refine ⟨by rw [hheap, h.heap, List.length_append], ?_⟩
  calc s'.held ++ (left ++ s.settled ev).map Prod.snd
      ~ s'.held ++ (s.settled ev).map Prod.snd ++ left.map Prod.snd := by
        rw [List.map_append, List.append_assoc]
        exact List.perm_append_comm.append_left _
    _ ~ s.held ++ allocated s.txq.heap (s.pushes ev) ++ left.map Prod.snd :=
        hplaces.append_right _
    _ ~ s.held ++ left.map Prod.snd ++ allocated s.txq.heap (s.pushes ev) := by
        rw [List.append_assoc, List.append_assoc]
        exact List.perm_append_comm.append_left _
    _ ~ allocated 0 (pushed ++ s.pushes ev) := by
        rw [allocated_append, h.heap, Nat.zero_add]
        exact h.places.append_right _

/-- The responses of a step are to frames that are acked in it. -/
theorem effect_responses {s s' : SricIf} {ev : IfEvent} {out : List IfOut}
    (he : Effect s ev s' out) :
    ∃ answered : List TxEntry,
      answered.Sublist (((s.settled ev).filter fun p => p.1 == .acked).map Prod.snd)
      ∧ responses out = answered.map fun e => e.frame.tag := by
  have hquiet : responses out = [] → ∃ answered : List TxEntry,
      answered.Sublist (((s.settled ev).filter fun p => p.1 == .acked).map Prod.snd)
      ∧ responses out = answered.map fun e => e.frame.tag :=
    fun h => ⟨[], List.nil_sublist _, h⟩
  cases he with
  | pushed _ _ _ _ _ hq _ => exact hquiet hq.1
  | cancelled _ _ _ _ hq => exact hquiet hq.1
  | wrote _ _ _ _ _ _ _ _ _ _ hout _ =>
      apply hquiet
      rw [hout]
      rfl
  | timedOut _ _ _ _ _ _ _ _ hq => exact hquiet hq.1
  | acked e _ _ _ _ _ hfate hresp _ =>
      by_cases hc : s.frameCancelled = false ∧ s.enumerated = true
      · rw [if_pos hc] at hresp
        rw [hc.1] at hfate
        rw [hfate, hresp]
        exact ⟨[e], .refl _, rfl⟩
      · rw [if_neg hc] at hresp
        exact hquiet hresp

/-! ## Runs -/

theorem balanced_run {s t : SricIf} {evs : List IfEvent} {os : List IfOut} {pushed : List FrameT}
    {left : List (Fate × TxEntry)} (hi : TxInv s) (h : Balanced s pushed left)
    (hr : run step s evs = .ok (t, os)) :
    Balanced t (pushed ++ history step pushes s evs) (left ++ history step settled s evs) := by
  induction evs generalizing s pushed left os with
  | nil =>
      cases hr
      simpa [history] using h
  | cons ev evs ih =>
      obtain ⟨u, o, os', hs, hr', -⟩ := run_cons_ok.mp hr
      have := ih (hi.step hs) (balanced_step h (step_effect hi hs)) hr'
      rw [history, history, hs, ← List.append_assoc, ← List.append_assoc]
      exact this

theorem responses_run {s t : SricIf} {evs : List IfEvent} {os : List IfOut} (hi : TxInv s)
    (hr : run step s evs = .ok (t, os)) :
    ∃ answered : List TxEntry,
      answered.Sublist (((history step settled s evs).filter fun p => p.1 == .acked).map Prod.snd)
      ∧ responses os = answered.map fun e => e.frame.tag := by
  induction evs generalizing s os with
  | nil =>
      cases hr
      exact ⟨[], List.nil_sublist _, rfl⟩
  | cons ev evs ih =>
      obtain ⟨u, o, os', hs, hr', rfl⟩ := run_cons_ok.mp hr
      obtain ⟨as, hsub, has⟩ := effect_responses (step_effect hi hs)
      obtain ⟨bs, hsub', hbs⟩ := ih (hi.step hs) hr'
      refine ⟨as ++ bs, ?_, ?_⟩
      · rw [history, hs, List.filter_append, List.map_append]
        exact hsub.append hsub'
      · rw [responses, List.filterMap_append, List.map_append]
        exact congrArg₂ _ has hbs

/-- The client pushes a frame. -/
def pushesFor (c : Nat) : IfEvent → Bool
  | .push f _ => f.tag == .client c
  | _ => false

theorem pushes_count (s : SricIf) (ev : IfEvent) (c : Nat) :
    (s.pushes ev).countP (fun f => f.tag == .client c) = if pushesFor c ev then 1 else 0 := by
  cases ev with
  | push f pri => exact List.countP_singleton
  | _ =>
      refine (List.countP_eq_zero.mpr fun f hf => ?_).trans rfl
      rcases pushes_tag hf with ⟨pri, hev⟩ | hnull | hbad
      · cases hev
      · rw [hnull]
        simp
      · rw [hbad]
        simp

theorem pushed_count {s t : SricIf} {evs : List IfEvent} {os : List IfOut} (c : Nat)
    (hr : Lib.run step s evs = .ok (t, os)) :
    (history step pushes s evs).countP (fun f => f.tag == .client c)
      = evs.countP (pushesFor c) := by
  induction evs generalizing s os with
  | nil => rfl
  | cons ev evs ih =>
      obtain ⟨u, o, os', hs, hr', -⟩ := run_cons_ok.mp hr
      rw [history, hs, List.countP_append, pushes_count, List.countP_cons, Nat.add_comm]
      exact congrArg (· + _) (ih hr')

/-- **Each frame is retired once.** At any point of a run the frames pushed
so far are the one in flight, the ones queued, and those that were sent,
acked or cancelled, each counted once; every response is to a frame of its
own among those that were acked; and a client gets no more of them than it
has pushed frames. -/
theorem frames_retired_once {evs : List IfEvent} {s : SricIf} {os : List IfOut}
    (hr : run step init evs = .ok (s, os)) :
    (s.txFrame.toList ++ s.txq.entries ++ (history step settled init evs).map Prod.snd).Perm
        (allocated 0 (history step pushes init evs))
      ∧ (allocated 0 (history step pushes init evs)).Nodup
      ∧ (∃ answered : List TxEntry,
        answered.Sublist
          (((history step settled init evs).filter fun p => p.1 == .acked).map Prod.snd)
        ∧ responses os = answered.map fun e => e.frame.tag)
      ∧ ∀ c, (responses os).count (.client c) ≤ evs.countP (pushesFor c) := by
  have hplaces := (balanced_run txInv_init balanced_init hr).places
  simp only [List.nil_append] at hplaces
  have hanswered := responses_run txInv_init hr
  refine ⟨hplaces, ?_, hanswered, ?_⟩
  · apply List.Nodup.of_map TxEntry.ptr
    rw [allocated_ptrs]
    exact List.nodup_range'
  · intro c
    obtain ⟨answered, hsub, hresp⟩ := hanswered
    have hleft : (((history step settled init evs).filter fun p => p.1 == .acked).map
        Prod.snd).Sublist ((history step settled init evs).map Prod.snd) :=
      List.filter_sublist.map _
    calc (responses os).count (.client c)
        = answered.countP fun e => e.frame.tag == .client c := by
          rw [hresp, List.count, List.countP_map]
          rfl
      _ ≤ ((history step settled init evs).map Prod.snd).countP fun e => e.frame.tag == .client c :=
          (hsub.trans hleft).countP_le
      _ ≤ (allocated 0 (history step pushes init evs)).countP fun e => e.frame.tag == .client c := by
          rw [← hplaces.countP_eq, List.countP_append]
          exact Nat.le_add_left _ _
      _ = (history step pushes init evs).countP fun f => f.tag == .client c := by
          rw [← allocated_frames 0 (history step pushes init evs), List.countP_map,
            allocated_frames]
          rfl
      _ = evs.countP (pushesFor c) := pushed_count c hr

/-- The second of two acks finds nothing to retire. -/
theorem frames_retired_once_acked :
    ∃ s os, run step init [.push firstFrame 0, .ifTx 1 (some 6), .frame (ackBytes 2 []),
        .frame (ackBytes 2 [])] = .ok (s, os)
      ∧ List.Perm (s.txFrame.toList ++ s.txq.entries ++ [⟨0, firstFrame⟩]) [⟨0, firstFrame⟩]
      ∧ (responses os).count (.client 0) ≤ 1 := by
  obtain ⟨⟨s, os⟩, hr, -⟩ := ok_of_any (r := run step init [.push firstFrame 0, .ifTx 1 (some 6),
    .frame (ackBytes 2 []), .frame (ackBytes 2 [])]) (p := fun _ => true) (by decide +kernel)
  obtain ⟨hplaces, -, -, hcount⟩ := frames_retired_once hr
  have hleft : (history step settled init [.push firstFrame 0, .ifTx 1 (some 6),
      .frame (ackBytes 2 []), .frame (ackBytes 2 [])]).map Prod.snd = [⟨0, firstFrame⟩] := by
    decide +kernel
  have hpushed : allocated 0 (history step pushes init [.push firstFrame 0, .ifTx 1 (some 6),
      .frame (ackBytes 2 []), .frame (ackBytes 2 [])]) = [⟨0, firstFrame⟩] := by
    decide +kernel
  rw [hleft, hpushed] at hplaces
  exact ⟨s, os, hr, hplaces, hcount 0⟩

end SricIf

end Sricd
