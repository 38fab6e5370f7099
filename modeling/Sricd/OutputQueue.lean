import Mathlib.Algebra.GroupWithZero.Nat
import Mathlib.Data.List.Nodup
import Sricd.Frame
import Sricd.Lib.Queue

/-!
# The transmit queue

`output-queue.c`: two queues of allocated frames, and the operations on
them. The first has the higher priority and is used for acks and
enumeration only.
-/

namespace Sricd

open Sricd.Lib

/-- An allocated `frame_t`; `ptr` is what `g_memdup` returned. -/
structure TxEntry where
  ptr : Nat
  frame : FrameT
deriving DecidableEq

/-- `tx_queue`, and the number of allocations so far: no two entries, and
no entry and a later one, have the same pointer. -/
structure TxQueue where
  heap : Nat
  q0 : List TxEntry
  q1 : List TxEntry
  fresh : ∀ e ∈ q0 ++ q1, e.ptr < heap
  nodup : ((q0 ++ q1).map TxEntry.ptr).Nodup
deriving DecidableEq

/-- `rm_tag_frames`, on a queue and the pointers freed so far. -/
def rmTagFrames (tag : Tag) (e : TxEntry) (s : List TxEntry × List Nat) :
    List TxEntry × List Nat :=
  if e.frame.tag = tag then (s.1.erase e, s.2 ++ [e.ptr]) else s

/-- The frames that are not of `tag`. -/
def others (tag : Tag) (q : List TxEntry) : List TxEntry :=
  q.filter fun e => !(e.frame.tag == tag)

theorem foreach_rmTagFrames {q : List TxEntry} (hq : q.Nodup) (tag : Tag) (freed : List Nat) :
    (Queue.foreach (rmTagFrames tag) q (q, freed)).1 = others tag q := by
  rw [others, ← Queue.foreach_erase (fun e => e.frame.tag == tag) hq]
  -- the freed pointers are collected on the side
  suffices h : ∀ (l r : List TxEntry) (fr : List Nat),
      (Queue.foreach (rmTagFrames tag) l (r, fr)).1
        = Queue.foreach (fun e r => if e.frame.tag == tag then r.erase e else r) l r from
    h q q freed
  intro l r fr
  induction l with
  | nil => rfl
  | cons e l ih =>
      simp only [Queue.foreach, List.foldr_cons] at ih ⊢
      rw [← ih, rmTagFrames]
      by_cases h : e.frame.tag = tag
      · rw [if_pos h, if_pos (by simpa using h)]
      · rw [if_neg h, if_neg (by simpa using h)]

/-- What is freed: the frames of the tag, as they are visited. -/
theorem foreach_rmTagFrames_freed (q r : List TxEntry) (tag : Tag) (freed : List Nat) :
    (Queue.foreach (rmTagFrames tag) q (r, freed)).2
      = freed ++ (q.reverse.filter fun e => e.frame.tag == tag).map TxEntry.ptr := by
  induction q generalizing freed with
  | nil => simp [Queue.foreach]
  | cons e q ih =>
      simp only [Queue.foreach] at ih ⊢
      rw [List.foldr_cons, rmTagFrames, List.reverse_cons, List.filter_append,
        List.map_append, ← List.append_assoc]
      by_cases h : e.frame.tag = tag
      · rw [if_pos h, ih, List.filter_cons_of_pos (by simpa using h)]
        rfl
      · rw [if_neg h, ih, List.filter_cons_of_neg (by simpa using h), List.filter_nil,
          List.map_nil, List.append_nil]

/-- `rm_tag_frames` unlinks at most the frame it is called on, so that
following the links visits every frame that was queued. -/
theorem walk_rmTagFrames {q : List TxEntry} (hq : q.Nodup) (tag : Tag) (freed : List Nat) :
    Queue.walk Prod.fst (rmTagFrames tag) q.length q.getLast? (q, freed)
      = Queue.foreach (rmTagFrames tag) q (q, freed) := by
  have hf : ∀ (e : TxEntry) (s : List TxEntry × List Nat),
      (rmTagFrames tag e s).1 = s.1 ∨ (rmTagFrames tag e s).1 = s.1.erase e := by
    intro e s
    rw [rmTagFrames]
    split
    · exact .inr rfl
    · exact .inl rfl
  exact Queue.walk_eq_foreach hf (s := (q, freed)) hq

namespace TxQueue

/-- `txq_init`. -/
def init : TxQueue where
  heap := 0
  q0 := []
  q1 := []
  fresh := by simp
  nodup := List.nodup_nil

theorem q0_nodup (q : TxQueue) : q.q0.Nodup := by
  have h := q.nodup
  rw [List.map_append] at h
  exact List.Nodup.of_map _ (List.nodup_append.mp h).1

theorem q1_nodup (q : TxQueue) : q.q1.Nodup := by
  have h := q.nodup
  rw [List.map_append] at h
  exact List.Nodup.of_map _ (List.nodup_append.mp h).2.1

/-- The entry that the next `txq_push` of `f` allocates. -/
def alloc (q : TxQueue) (f : FrameT) : TxEntry := ⟨q.heap, f⟩

/-- The queues hold what they held, and a new entry. -/
theorem push_inv (q : TxQueue) (f : FrameT) {l : List TxEntry}
    (h : l.Perm (q.alloc f :: (q.q0 ++ q.q1))) :
    (∀ e ∈ l, e.ptr < q.heap + 1) ∧ (l.map TxEntry.ptr).Nodup := by
  constructor
  · intro e he
    rcases List.mem_cons.mp (h.mem_iff.mp he) with rfl | he
    · exact Nat.lt_succ_self _
    · exact Nat.lt_succ_of_lt (q.fresh e he)
  · rw [(h.map TxEntry.ptr).nodup_iff, List.map_cons, List.nodup_cons]
    refine ⟨?_, q.nodup⟩
    intro hmem
    obtain ⟨e, he, hptr⟩ := List.mem_map.mp hmem
    exact Nat.ne_of_lt (q.fresh e he) hptr

/-- There are levels, 0 and 1. -/
instance : NeZero 2 := ⟨Nat.succ_ne_zero 1⟩

/-- The allocation and the push of `txq_push`. -/
def push (q : TxQueue) (f : FrameT) : Fin 2 → TxQueue
  | 0 =>
      have h := q.push_inv f (l := Queue.pushHead q.q0 (q.alloc f) ++ q.q1)
        (by simp [Queue.pushHead])
      { heap := q.heap + 1, q0 := Queue.pushHead q.q0 (q.alloc f), q1 := q.q1
        fresh := h.1, nodup := h.2 }
  | 1 =>
      have h := q.push_inv f (l := q.q0 ++ Queue.pushHead q.q1 (q.alloc f))
        (by simpa [Queue.pushHead] using List.perm_append_singleton (q.alloc f) (q.q0 ++ q.q1))
      { heap := q.heap + 1, q0 := q.q0, q1 := Queue.pushHead q.q1 (q.alloc f)
        fresh := h.1, nodup := h.2 }

/-- Smaller queues. -/
def restrict (q : TxQueue) (q0 q1 : List TxEntry) (h : (q0 ++ q1).Sublist (q.q0 ++ q.q1)) :
    TxQueue where
  heap := q.heap
  q0 := q0
  q1 := q1
  fresh := fun e he => q.fresh e (h.subset he)
  nodup := q.nodup.sublist (h.map _)

/-- `txq_next`. -/
def next (q : TxQueue) (maxPri : Fin 2) : Option (TxEntry × TxQueue) :=
  match h0 : Queue.popTail q.q0 with
  | some (e, rest) =>
      some (e, q.restrict rest q.q1 (by
        rw [Queue.popTail_some.mp h0]
        exact List.sublist_cons_self ..))
  | none =>
      if maxPri = 0 then none
      else
        match h1 : Queue.popTail q.q1 with
        | some (e, rest) =>
            some (e, q.restrict q.q0 rest (by
              rw [Queue.popTail_some.mp h1]
              exact (List.sublist_cons_self ..).append_left _))
        | none => none

/-- The part of `txq_cancel` that concerns the queues, and the pointers it
frees. -/
def cancel (q : TxQueue) (tag : Tag) : TxQueue × List Nat :=
  let r0 := Queue.foreach (rmTagFrames tag) q.q0 (q.q0, [])
  let r1 := Queue.foreach (rmTagFrames tag) q.q1 (q.q1, r0.2)
  (q.restrict r0.1 r1.1 (by
    rw [foreach_rmTagFrames q.q0_nodup, foreach_rmTagFrames q.q1_nodup]
    exact List.Sublist.append List.filter_sublist List.filter_sublist), r1.2)

/-- `txq_empty`. -/
def empty (q : TxQueue) : Bool := q.q0.isEmpty && q.q1.isEmpty

/-- Everything queued. -/
def entries (q : TxQueue) : List TxEntry := q.q0 ++ q.q1

/-- The queue that `txq_next (max_pri)` may read. -/
def readable (q : TxQueue) (maxPri : Fin 2) : List TxEntry :=
  if maxPri = 0 then q.q0 else q.q0 ++ q.q1

/-- `txq_next` returns the oldest entry of the first queue that has one,
among those it may read, and leaves the rest alone. -/
theorem next_some {q : TxQueue} {maxPri : Fin 2} {e : TxEntry} {q' : TxQueue}
    (h : q.next maxPri = some (e, q')) :
    q'.heap = q.heap ∧ ((q.q0 = e :: q'.q0 ∧ q'.q1 = q.q1)
      ∨ (q.q0 = [] ∧ q'.q0 = [] ∧ maxPri ≠ 0 ∧ q.q1 = e :: q'.q1)) := by
  rw [next] at h
  split at h
  · rename_i a rest h0
    cases h
    exact ⟨rfl, .inl ⟨Queue.popTail_some.mp h0, rfl⟩⟩
  · rename_i h0
    have hq0 := Queue.popTail_none.mp h0
    split at h
    · cases h
    · rename_i hp
      split at h
      · rename_i a rest h1
        cases h
        exact ⟨rfl, .inr ⟨hq0, hq0, hp, Queue.popTail_some.mp h1⟩⟩
      · cases h

theorem next_none {q : TxQueue} {maxPri : Fin 2} :
    q.next maxPri = none ↔ q.readable maxPri = [] := by
  have hread : q.readable maxPri = [] ↔ q.q0 = [] ∧ (maxPri ≠ 0 → q.q1 = []) := by
    rw [readable]
    split <;> simp_all
  rw [hread, next]
  split
  · rename_i h0
    simp [Queue.popTail_some.mp h0]
  · rename_i h0
    have hq0 := Queue.popTail_none.mp h0
    split
    · simp_all
    · split
      · rename_i h1
        simp_all [Queue.popTail_some.mp h1]
      · rename_i h1
        simp [hq0, Queue.popTail_none.mp h1]

@[simp] theorem push_heap (q : TxQueue) (f : FrameT) (pri : Fin 2) :
    (q.push f pri).heap = q.heap + 1 := by
  match pri with
  | 0 => rfl
  | 1 => rfl

/-- `txq_cancel` removes the frames of its tag and no others. -/
theorem cancel_q0 (q : TxQueue) (tag : Tag) : (q.cancel tag).1.q0 = others tag q.q0 :=
  foreach_rmTagFrames q.q0_nodup tag []

theorem cancel_q1 (q : TxQueue) (tag : Tag) : (q.cancel tag).1.q1 = others tag q.q1 :=
  foreach_rmTagFrames q.q1_nodup tag _

theorem cancel_freed (q : TxQueue) (tag : Tag) :
    (q.cancel tag).2
      = ((q.q0.reverse ++ q.q1.reverse).filter fun e => e.frame.tag == tag).map TxEntry.ptr := by
  have h0 := foreach_rmTagFrames_freed q.q0 q.q0 tag []
  have h1 := foreach_rmTagFrames_freed q.q1 q.q1 tag
    (Queue.foreach (rmTagFrames tag) q.q0 (q.q0, [])).2
  rw [List.filter_append, List.map_append]
  exact h1.trans (congrArg (· ++ _) h0)

/-- What a cancel leaves readable was readable before. -/
theorem readable_cancel {q : TxQueue} {maxPri : Fin 2} (h : q.readable maxPri = []) (tag : Tag) :
    (q.cancel tag).1.readable maxPri = [] := by
  rw [readable] at h ⊢
  split at h
  · rename_i hp
    rw [if_pos hp, cancel_q0, h]
    rfl
  · rename_i hp
    rw [List.append_eq_nil_iff] at h
    rw [if_neg hp, cancel_q0, cancel_q1, h.1, h.2]
    rfl

end TxQueue

end Sricd
