import Mathlib.Data.List.Induction
import Mathlib.Tactic.Common

/-!
# Double-ended queues

A doubly linked queue whose elements enter at the head and leave at the
tail. The list is written from tail to head, oldest element first.
-/

namespace Sricd.Lib

variable {α : Type}

namespace Queue

/-- The new element becomes the head. -/
def pushHead (q : List α) (a : α) : List α := q ++ [a]

/-- The tail, and the queue without it. -/
def popTail : List α → Option (α × List α)
  | [] => none
  | a :: q => some (a, q)

theorem popTail_some {q r : List α} {a : α} : popTail q = some (a, r) ↔ q = a :: r := by
  cases q <;> simp [popTail]

theorem popTail_none {q : List α} : popTail q = none ↔ q = [] := by
  cases q <;> simp [popTail]

/-- `f` on every element, from the head on. The link to the next element
is read before each call, so that `f` may unlink the element it is called
on: the elements visited are those of the queue at the start. -/
def foreach {σ : Type} (f : α → σ → σ) (q : List α) (s : σ) : σ := q.foldr f s

/-- Unlinking, from a queue `q`, each visited element that `p` selects
leaves the others in their order. -/
theorem foreach_erase [DecidableEq α] (p : α → Bool) {q : List α} (hq : q.Nodup) :
    foreach (fun a r => if p a then r.erase a else r) q q = q.filter fun a => !p a := by
  suffices h : ∀ pre : List α, (pre ++ q).Nodup →
      foreach (fun a r => if p a then r.erase a else r) q (pre ++ q)
        = pre ++ q.filter fun a => !p a by
    simpa using h [] hq
  intro pre
  induction q generalizing pre with
  | nil => intro _; rfl
  | cons a q ih =>
      intro h
      have hcat : pre ++ a :: q = pre ++ [a] ++ q := by simp
      have hstep := ih (List.nodup_cons.mp hq).2 (pre ++ [a]) (hcat ▸ h)
      rw [foreach, List.foldr_cons, hcat]
      rw [foreach] at hstep
      rw [hstep]
      have ha : a ∉ pre := by
        intro hmem
        exact (List.nodup_append.mp h).2.2 a hmem a (by simp) rfl
      by_cases hp : p a = true
      · rw [if_pos hp, List.filter_cons_of_neg (by simp [hp]), List.append_assoc,
          List.erase_append_right _ ha]
        simp
      · rw [if_neg hp, List.filter_cons_of_pos (by simp [hp])]
        simp

/-! ## Following the links

`foreach` as the loop it is: the link to the next element is read from the
queue as it stands, then `f` is called, which may change the queue. -/

section
variable [DecidableEq α] {σ : Type}

/-- The link of `a` towards the tail. -/
def nextLink (a : α) : List α → Option α
  | b :: c :: q => if c = a then some b else nextLink a (c :: q)
  | _ => none

/-- The loop, for at most `n` elements; `links` is the queue in a state. -/
def walk (links : σ → List α) (f : α → σ → σ) : Nat → Option α → σ → σ
  | 0, _, s => s
  | _ + 1, none, s => s
  | n + 1, some a, s =>
      let next := nextLink a (links s)
      walk links f n next (f a s)

theorem nextLink_append {q : List α} {a : α} {r : List α} (h : (q ++ a :: r).Nodup) :
    nextLink a (q ++ a :: r) = q.getLast? := by
  induction q with
  | nil =>
      cases r with
      | nil => rfl
      | cons b r =>
          have hab : a ∉ b :: r := (List.nodup_cons.mp h).1
          suffices hnone : ∀ (c : α) (l : List α), a ∉ l → nextLink a (c :: l) = none from
            hnone a (b :: r) hab
          intro c l hl
          induction l generalizing c with
          | nil => rfl
          | cons d l ih =>
              have hda : d ≠ a := fun hd => hl (hd ▸ List.mem_cons_self)
              rw [nextLink, if_neg hda]
              exact ih d fun hm => hl (List.mem_cons_of_mem _ hm)
  | cons b q ih =>
      have htail : (q ++ a :: r).Nodup := (List.nodup_cons.mp h).2
      cases q with
      | nil => exact if_pos rfl
      | cons c q =>
          have hca : c ≠ a := by
            intro hc
            exact (List.nodup_cons.mp htail).1 (hc ▸ by simp)
          rw [List.cons_append, List.cons_append, nextLink, if_neg hca]
          exact ih htail

/-- Where each call unlinks at most the element it is called on, the loop
visits the elements that were queued at the start. -/
theorem walk_eq_foreach {links : σ → List α} {f : α → σ → σ}
    (hf : ∀ a s, links (f a s) = links s ∨ links (f a s) = (links s).erase a)
    {s : σ} (hs : (links s).Nodup) :
    walk links f (links s).length (links s).getLast? s = foreach f (links s) s := by
  -- `q` is still to be visited; what lies behind it has been
  suffices h : ∀ (q r : List α) (s : σ), links s = q ++ r → (q ++ r).Nodup →
      walk links f q.length q.getLast? s = foreach f q s from
    h (links s) [] s (by simp) (by simpa using hs)
  intro q
  induction q using List.reverseRecOn with
  | nil => intro r s _ _; rfl
  | append_singleton q a ih =>
      intro r s hl hnd
      have hcat : q ++ [a] ++ r = q ++ a :: r := by simp
      rw [hcat] at hl hnd
      have ha : a ∉ q := by
        intro hmem
        exact (List.nodup_append.mp hnd).2.2 a hmem a List.mem_cons_self rfl
      have hnext : nextLink a (links s) = q.getLast? := hl ▸ nextLink_append hnd
      have hstep : walk links f (q ++ [a]).length (q ++ [a]).getLast? s
          = walk links f q.length q.getLast? (f a s) := by
        rw [List.length_append, List.getLast?_concat, ← hnext]
        rfl
      rw [hstep, foreach, List.foldr_append]
      rcases hf a s with h | h
      · exact ih (a :: r) (f a s) (h.trans hl) hnd
      · have herase : links (f a s) = q ++ r := by
          rw [h, hl, List.erase_append_right _ ha, List.erase_cons_head]
        have hsub : (q ++ r).Sublist (q ++ a :: r) :=
          (List.sublist_cons_self a r).append_left q
        exact ih r (f a s) herase (hnd.sublist hsub)

end

end Queue

end Sricd.Lib
