import Mathlib.Data.List.Nodup
import Sricd.OutputQueue

/-!
# The transmit queue as one line

What the queue is for, without its two lists: frames wait in one line, in
the order in which they were pushed, each with its priority. `txq_next`
serves the oldest frame of the lowest-numbered priority that waits, and a
cancelled frame leaves the line. The two lists of `output-queue.c`
implement the line over every sequence of calls (`txq_serves_line`).
-/

namespace Sricd

open Sricd.Lib

/-- A frame that waits, with the priority it was pushed with. -/
structure Pending where
  pri : Fin 2
  entry : TxEntry
deriving DecidableEq

/-- `p` is served before `r`: it is of a lower-numbered priority, or of the
same and was pushed first. -/
def Pending.Before (p r : Pending) : Prop :=
  p.pri < r.pri ∨ (p.pri = r.pri ∧ p.entry.ptr ≤ r.entry.ptr)

instance (p r : Pending) : Decidable (p.Before r) :=
  inferInstanceAs (Decidable (_ ∨ _))

/-- The line: the number of frames pushed so far, and those that have
neither been popped nor cancelled since, oldest first. -/
structure TxLine where
  pushes : Nat
  pending : List Pending
  lt : ∀ p ∈ pending, p.entry.ptr < pushes
  sorted : pending.Pairwise fun p r => p.entry.ptr < r.entry.ptr

namespace TxLine

def init : TxLine where
  pushes := 0
  pending := []
  lt := by simp
  sorted := .nil

/-- Some of the line, in its order. -/
def only (l : TxLine) (keep : Pending → Bool) : TxLine where
  pushes := l.pushes
  pending := l.pending.filter keep
  lt := fun p hp => l.lt p (List.mem_of_mem_filter hp)
  sorted := l.sorted.filter _

/-- The next frame to be pushed, behind all others. -/
def append (l : TxLine) (f : FrameT) (pri : Fin 2) : TxLine where
  pushes := l.pushes + 1
  pending := l.pending ++ [⟨pri, l.pushes, f⟩]
  lt := by
    intro p hp
    rcases List.mem_append.mp hp with hp | hp
    · exact Nat.lt_succ_of_lt (l.lt p hp)
    · rw [List.mem_singleton.mp hp]
      exact Nat.lt_succ_self _
  sorted := by
    rw [List.pairwise_append]
    refine ⟨l.sorted, List.pairwise_singleton _ _, ?_⟩
    intro p hp r hr
    rw [List.mem_singleton.mp hr]
    exact l.lt p hp

/-- `p` waits, may be served, and comes before all others that may. -/
def Serves (l : TxLine) (maxPri : Fin 2) (p : Pending) : Prop :=
  p ∈ l.pending ∧ p.pri ≤ maxPri ∧ ∀ r ∈ l.pending, r.pri ≤ maxPri → p.Before r

instance (l : TxLine) (maxPri : Fin 2) (p : Pending) : Decidable (l.Serves maxPri p) :=
  inferInstanceAs (Decidable (_ ∧ _ ∧ _))

/-- The frame that is served next. -/
def first (l : TxLine) (maxPri : Fin 2) : Option Pending :=
  l.pending.find? fun p => decide (l.Serves maxPri p)

/-- The frames of one priority. -/
def level (l : TxLine) (pri : Fin 2) : List TxEntry :=
  (l.pending.filter fun p => p.pri = pri).map Pending.entry

theorem mem_level {l : TxLine} {pri : Fin 2} {e : TxEntry} :
    e ∈ l.level pri ↔ ⟨pri, e⟩ ∈ l.pending := by
  rw [level, List.mem_map]
  constructor
  · intro h
    obtain ⟨p, hp, rfl⟩ := h
    obtain ⟨hp, hpri⟩ := List.mem_filter.mp hp
    rw [← of_decide_eq_true hpri]
    exact hp
  · intro h
    exact ⟨_, List.mem_filter.mpr ⟨h, decide_eq_true rfl⟩, rfl⟩

/-- A frame is told from the others by its allocation. -/
theorem eq_of_ptr {l : TxLine} {p r : Pending} (hp : p ∈ l.pending) (hr : r ∈ l.pending)
    (h : p.entry.ptr = r.entry.ptr) : p = r := by
  have hnodup : (l.pending.map fun p => p.entry.ptr).Nodup :=
    List.pairwise_map.mpr (l.sorted.imp Nat.ne_of_lt)
  exact List.inj_on_of_nodup_map hnodup hp hr h

theorem serves_unique {l : TxLine} {maxPri : Fin 2} {p r : Pending} (hp : l.Serves maxPri p)
    (hr : l.Serves maxPri r) : p = r := by
  have hpr := hp.2.2 r hr.1 hr.2.1
  have hrp := hr.2.2 p hp.1 hp.2.1
  refine eq_of_ptr hp.1 hr.1 ?_
  rw [Pending.Before] at hpr hrp
  omega

theorem first_some {l : TxLine} {maxPri : Fin 2} {p : Pending} :
    l.first maxPri = some p ↔ l.Serves maxPri p := by
  have hfound : ∀ {r}, l.first maxPri = some r → l.Serves maxPri r := by
    intro r hr
    have hs := List.find?_some hr
    exact of_decide_eq_true hs
  constructor
  · exact hfound
  · intro h
    cases hf : l.first maxPri with
    | none => exact absurd (decide_eq_true h) (List.find?_eq_none.mp hf p h.1)
    | some r => rw [serves_unique h (hfound hf)]

/-- The head of a level is the oldest frame of its priority, and the rest
of the level is the level of the line without it. -/
theorem level_cons {l : TxLine} {pri : Fin 2} {e : TxEntry} {rest : List TxEntry}
    (h : l.level pri = e :: rest) :
    ⟨pri, e⟩ ∈ l.pending ∧ (∀ r ∈ l.pending, r.pri = pri → e.ptr ≤ r.entry.ptr)
      ∧ (l.only (fun r => r ≠ ⟨pri, e⟩)).level pri = rest := by
  have hmem : ⟨pri, e⟩ ∈ l.pending := mem_level.mp (h ▸ List.mem_cons_self)
  have hsorted : (l.level pri).Pairwise fun a b => a.ptr < b.ptr :=
    List.pairwise_map.mpr (l.sorted.filter _)
  rw [h, List.pairwise_cons] at hsorted
  refine ⟨hmem, ?_, ?_⟩
  · intro r hr hpri
    have hin : r.entry ∈ e :: rest := by
      rw [← h, mem_level, ← hpri]
      exact hr
    rcases List.mem_cons.mp hin with heq | hin
    · exact Nat.le_of_eq (congrArg TxEntry.ptr heq.symm)
    · exact Nat.le_of_lt (hsorted.1 _ hin)
  · have hlevel : (l.only (fun r => r ≠ ⟨pri, e⟩)).level pri
        = (l.level pri).filter fun a => a ≠ e := by
      simp only [level, only, List.filter_filter, List.filter_map]
      congr 1
      refine List.filter_congr fun r _ => ?_
      cases r
      grind
    rw [hlevel, h, List.filter_cons_of_neg (by simp), List.filter_eq_self]
    intro a ha
    have hne : a ≠ e := fun heq => Nat.lt_irrefl _ (heq ▸ hsorted.1 a ha)
    exact decide_eq_true hne

/-- The other level is not touched when a frame leaves. -/
theorem level_only_ne {l : TxLine} {pri other : Fin 2} (e : TxEntry) (h : other ≠ pri) :
    (l.only (fun r => r ≠ ⟨pri, e⟩)).level other = l.level other := by
  rw [level, level, only, List.filter_filter]
  congr 1
  refine List.filter_congr fun r _ => ?_
  by_cases hr : r.pri = other
  · have hne : r ≠ ⟨pri, e⟩ := fun heq => h (hr.symm.trans (congrArg Pending.pri heq))
    simp [hr, hne]
  · simp [hr]

end TxLine

/-! ## The calls -/

/-- A call of `txq_push`, `txq_next` or `txq_cancel`. -/
inductive TxCall where
  | push (f : FrameT) (pri : Fin 2)
  | next (maxPri : Fin 2)
  | cancel (tag : Tag)

/-- The call, on the two queues. -/
def TxQueue.call (q : TxQueue) : TxCall → TxQueue
  | .push f pri => q.push f pri
  | .next maxPri =>
      match q.next maxPri with
      | none => q
      | some (_, q') => q'
  | .cancel tag => (q.cancel tag).1

/-- The call, on the line. -/
def TxLine.call (l : TxLine) : TxCall → TxLine
  | .push f pri => l.append f pri
  | .next maxPri =>
      match l.first maxPri with
      | none => l
      | some p => l.only fun r => r ≠ p
  | .cancel tag => l.only fun r => !(r.entry.frame.tag == tag)

/-- The queues are the levels of the line. -/
structure TxQueue.Implements (q : TxQueue) (l : TxLine) : Prop where
  heap : q.heap = l.pushes
  q0 : q.q0 = l.level 0
  q1 : q.q1 = l.level 1

namespace TxQueue

theorem implements_init : init.Implements .init := ⟨rfl, rfl, rfl⟩

theorem implements_push {q : TxQueue} {l : TxLine} (h : q.Implements l) (f : FrameT)
    (pri : Fin 2) : (q.push f pri).Implements (l.append f pri) := by
  have hlevel : ∀ i, (l.append f pri).level i
      = if pri = i then l.level i ++ [q.alloc f] else l.level i := by
    intro i
    simp only [TxLine.level, TxLine.append, List.filter_append, List.map_append, alloc, h.heap]
    by_cases hpri : pri = i
    · simp [hpri]
    · simp [hpri]
  match pri with
  | 0 => exact ⟨by rw [push_heap, h.heap]; rfl, by rw [hlevel, ← h.q0]; rfl,
      by rw [hlevel, ← h.q1]; rfl⟩
  | 1 => exact ⟨by rw [push_heap, h.heap]; rfl, by rw [hlevel, ← h.q0]; rfl,
      by rw [hlevel, ← h.q1]; rfl⟩

/-- `txq_next` returns the frame that the line serves. -/
theorem implements_next {q : TxQueue} {l : TxLine} (h : q.Implements l) {maxPri : Fin 2}
    {e : TxEntry} {q' : TxQueue} (hn : q.next maxPri = some (e, q')) :
    ∃ p, l.Serves maxPri p ∧ p.entry = e ∧ q'.Implements (l.only fun r => r ≠ p) := by
  obtain ⟨hheap, ⟨h0, h1⟩ | ⟨h0, h0', hpri, h1⟩⟩ := next_some hn
  · obtain ⟨hmem, hold, hrest⟩ := TxLine.level_cons (h.q0.symm.trans h0)
    refine ⟨⟨0, e⟩, ⟨hmem, Fin.zero_le _, ?_⟩, rfl, hheap.trans h.heap, hrest.symm, ?_⟩
    · intro r hr _
      rcases Nat.eq_zero_or_pos r.pri.val with hz | hz
      · exact .inr ⟨(Fin.ext hz).symm, hold r hr (Fin.ext hz)⟩
      · exact .inl hz
    · rw [h1, h.q1]
      exact (TxLine.level_only_ne e (by decide)).symm
  · obtain ⟨hmem, hold, hrest⟩ := TxLine.level_cons (h.q1.symm.trans h1)
    have hmax : maxPri = 1 := by omega
    -- nothing waits at the first level
    have hone : ∀ r ∈ l.pending, r.pri = 1 := by
      intro r hr
      by_contra hne
      have hz : r.pri = 0 := by omega
      have hin : r.entry ∈ l.level 0 := by
        rw [TxLine.mem_level, ← hz]
        exact hr
      rw [← h.q0, h0] at hin
      cases hin
    subst hmax
    refine ⟨⟨1, e⟩, ⟨hmem, Fin.le_refl 1, ?_⟩, rfl, hheap.trans h.heap, ?_, hrest.symm⟩
    · intro r hr _
      exact .inr ⟨(hone r hr).symm, hold r hr (hone r hr)⟩
    · rw [h0', TxLine.level_only_ne e (by decide), ← h.q0, h0]

/-- It returns `NULL` where the line serves none. -/
theorem implements_next_none {q : TxQueue} {l : TxLine} (h : q.Implements l) {maxPri : Fin 2} :
    q.next maxPri = none ↔ ∀ p ∈ l.pending, ¬p.pri ≤ maxPri := by
  constructor
  · intro hn p hp hle
    have hread := next_none.mp hn
    have hin : p.entry ∈ l.level p.pri := TxLine.mem_level.mpr hp
    rw [readable] at hread
    split at hread
    · rename_i hmax
      have hz : p.pri = 0 := by omega
      rw [hz, ← h.q0, hread] at hin
      cases hin
    · obtain ⟨h0, h1⟩ := List.append_eq_nil_iff.mp hread
      have hcases : p.pri = 0 ∨ p.pri = 1 := by omega
      rcases hcases with hz | hz
      · rw [hz, ← h.q0, h0] at hin
        cases hin
      · rw [hz, ← h.q1, h1] at hin
        cases hin
  · intro hnone
    cases hn : q.next maxPri with
    | none => rfl
    | some r =>
        obtain ⟨e, q'⟩ := r
        obtain ⟨p, hp, -, -⟩ := implements_next h hn
        exact absurd hp.2.1 (hnone p hp.1)

theorem implements_cancel {q : TxQueue} {l : TxLine} (h : q.Implements l) (tag : Tag) :
    (q.cancel tag).1.Implements (l.only fun r => !(r.entry.frame.tag == tag)) := by
  have hlevel : ∀ i, (l.only fun r => !(r.entry.frame.tag == tag)).level i
      = others tag (l.level i) := by
    intro i
    simp only [TxLine.level, TxLine.only, others, List.filter_map, List.filter_filter]
    congr 1
    exact List.filter_congr fun r _ => Bool.and_comm ..
  exact ⟨h.heap, by rw [cancel_q0, h.q0, hlevel], by rw [cancel_q1, h.q1, hlevel]⟩

/-- **One call** keeps the queues and the line in step. -/
theorem implements_call {q : TxQueue} {l : TxLine} (h : q.Implements l) (c : TxCall) :
    (q.call c).Implements (l.call c) := by
  cases c with
  | push f pri => exact implements_push h f pri
  | cancel tag => exact implements_cancel h tag
  | next maxPri =>
      rw [call, TxLine.call]
      cases hn : q.next maxPri with
      | none =>
          have hfirst : l.first maxPri = none := by
            rw [TxLine.first, List.find?_eq_none]
            intro p hp hs
            exact (implements_next_none h).mp hn p hp (of_decide_eq_true hs).2.1
          rw [hfirst]
          exact h
      | some r =>
          obtain ⟨e, q'⟩ := r
          obtain ⟨p, hp, -, hq⟩ := implements_next h hn
          rw [TxLine.first_some.mpr hp]
          exact hq

/-- **A run of calls.** -/
theorem implements_calls {q : TxQueue} {l : TxLine} (h : q.Implements l) (cs : List TxCall) :
    (cs.foldl call q).Implements (cs.foldl TxLine.call l) := by
  induction cs generalizing q l with
  | nil => exact h
  | cons c cs ih => exact ih (implements_call h c)

theorem empty_iff {q : TxQueue} {l : TxLine} (h : q.Implements l) :
    q.empty = true ↔ l.pending = [] := by
  rw [empty, Bool.and_eq_true, List.isEmpty_iff, List.isEmpty_iff, h.q0, h.q1]
  constructor
  · intro hx
    obtain ⟨h0, h1⟩ := hx
    refine List.eq_nil_iff_forall_not_mem.mpr fun p hp => ?_
    have hin : p.entry ∈ l.level p.pri := TxLine.mem_level.mpr hp
    have hcases : p.pri = 0 ∨ p.pri = 1 := by omega
    rcases hcases with hz | hz
    · rw [hz, h0] at hin
      cases hin
    · rw [hz, h1] at hin
      cases hin
  · intro hnil
    rw [TxLine.level, TxLine.level, hnil]
    exact ⟨rfl, rfl⟩

/-- **The transmit queue serves one line by priority.** After any calls,
`txq_next` pops the oldest frame of the lowest-numbered priority that
waits and may be looked at, and `NULL` exactly where none does; with
`max_pri` zero it is not of priority 1; `txq_cancel`, which follows the
links of a queue that it unlinks from, removes and frees the frames of its
tag and leaves all others in their order; and `txq_empty` says whether
anything waits. -/
theorem txq_serves_line (cs : List TxCall) :
    let q := cs.foldl call .init
    let l := cs.foldl TxLine.call .init
    (∀ maxPri e, (∃ q', q.next maxPri = some (e, q'))
        ↔ ∃ p, l.Serves maxPri p ∧ p.entry = e)
      ∧ (∀ maxPri, q.next maxPri = none ↔ ∀ p ∈ l.pending, ¬p.pri ≤ maxPri)
      ∧ (∀ e q', q.next 0 = some (e, q') → ⟨1, e⟩ ∉ l.pending)
      ∧ (∀ tag, (q.cancel tag).1.q0 = others tag q.q0 ∧ (q.cancel tag).1.q1 = others tag q.q1
        ∧ (q.cancel tag).2
          = ((q.q0.reverse ++ q.q1.reverse).filter fun e => e.frame.tag == tag).map TxEntry.ptr)
      ∧ (∀ tag, ∀ es ∈ [q.q0, q.q1],
        Queue.walk Prod.fst (rmTagFrames tag) es.length es.getLast? (es, [])
          = (others tag es, (es.reverse.filter fun e => e.frame.tag == tag).map TxEntry.ptr))
      ∧ (q.empty = true ↔ l.pending = []) := by
  intro q l
  have h : q.Implements l := implements_calls implements_init cs
  refine ⟨?_, fun maxPri => implements_next_none h, ?_, ?_, ?_, empty_iff h⟩
  · intro maxPri e
    constructor
    · intro hx
      obtain ⟨q', hn⟩ := hx
      obtain ⟨p, hp, he, -⟩ := implements_next h hn
      exact ⟨p, hp, he⟩
    · intro hx
      obtain ⟨p, hp, rfl⟩ := hx
      cases hn : q.next maxPri with
      | none => exact absurd hp.2.1 ((implements_next_none h).mp hn p hp.1)
      | some r =>
          obtain ⟨e, q'⟩ := r
          obtain ⟨p', hp', he, -⟩ := implements_next h hn
          rw [TxLine.serves_unique hp hp', he]
          exact ⟨q', rfl⟩
  · intro e q' hn hmem
    obtain ⟨p, hp, rfl, -⟩ := implements_next h hn
    have hpri : p.pri = 1 := congrArg Pending.pri (TxLine.eq_of_ptr hp.1 hmem rfl)
    have hle := hp.2.1
    rw [hpri] at hle
    exact absurd hle (by decide)
  · intro tag
    exact ⟨cancel_q0 q tag, cancel_q1 q tag, cancel_freed q tag⟩
  · intro tag es hes
    have hnodup : es.Nodup := by
      rcases List.mem_cons.mp hes with rfl | hes
      · exact q.q0_nodup
      · rw [List.mem_singleton.mp hes]
        exact q.q1_nodup
    rw [walk_rmTagFrames hnodup]
    exact Prod.ext (foreach_rmTagFrames hnodup tag [])
      ((foreach_rmTagFrames_freed es es tag []).trans (List.nil_append _))

end TxQueue

end Sricd
