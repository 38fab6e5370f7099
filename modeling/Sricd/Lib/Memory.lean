import Mathlib.Tactic.Common

/-!
# Checked arrays

Arrays whose accesses are checked: outside of the array an access is a
fault, of a kind `e` the program chooses, and so is a counter that leaves
its range. Inside, an access does what it does to a list. What a loop
stores element by element is the same as one block (`blit_set`).
-/

namespace Sricd.Lib

variable {α φ : Type} {e : φ} {a : List α} {i n : Nat}

/-- `a[i]`. -/
def load (e : φ) (a : List α) (i : Nat) : Except φ α :=
  match a[i]? with
  | some x => .ok x
  | none => .error e

/-- `a[i] = x`. -/
def store (e : φ) (a : List α) (i : Nat) (x : α) : Except φ (List α) :=
  if i < a.length then .ok (a.set i x) else .error e

/-- The `n` elements from `i` on, as a block. -/
def loadBlock (e : φ) (a : List α) (i n : Nat) : Except φ (List α) :=
  if i + n ≤ a.length then .ok ((a.drop i).take n) else .error e

/-- The array `a` with the elements from `i` on overwritten. -/
def blit (a : List α) (i : Nat) (w : List α) : List α :=
  a.take i ++ w ++ a.drop (i + w.length)

/-- `w` stored from `i` on, as a block. -/
def storeBlock (e : φ) (a : List α) (i : Nat) (w : List α) : Except φ (List α) :=
  if i + w.length ≤ a.length then .ok (blit a i w) else .error e

/-- The loop that reads `n` elements from `i` on. -/
def loads (e : φ) (a : List α) (i : Nat) : Nat → Except φ (List α)
  | 0 => .ok []
  | n + 1 => do
      let x ← load e a i
      let xs ← loads e a (i + 1) n
      .ok (x :: xs)

/-- A counter that is to stay within `bound`. -/
def atMost (e : φ) (bound n : Nat) : Except φ Nat :=
  if n ≤ bound then .ok n else .error e

/-! ## Inside the array -/

theorem load_ok (h : i < a.length) (d : α) : load e a i = .ok (a.getD i d) := by
  rw [load, List.getElem?_eq_getElem h, List.getD_eq_getElem?_getD, List.getElem?_eq_getElem h]
  rfl

theorem store_ok (h : i < a.length) (x : α) : store e a i x = .ok (a.set i x) := if_pos h

theorem loadBlock_ok (h : i + n ≤ a.length) :
    loadBlock e a i n = .ok ((a.drop i).take n) := if_pos h

theorem storeBlock_ok {w : List α} (h : i + w.length ≤ a.length) :
    storeBlock e a i w = .ok (blit a i w) := if_pos h

theorem atMost_ok {bound : Nat} (h : n ≤ bound) : atMost e bound n = .ok n := if_pos h

/-- The loop reads the block. -/
theorem loads_ok (h : i + n ≤ a.length) : loads e a i n = .ok ((a.drop i).take n) := by
  induction n generalizing i with
  | zero => rw [List.take_zero]; rfl
  | succ n ih =>
      have hi : i < a.length := by omega
      rw [loads, load, List.getElem?_eq_getElem hi, ih (by omega), List.drop_eq_getElem_cons hi,
        List.take_succ_cons]
      rfl

theorem getD_take (h : i < n) (d : α) : (a.take n).getD i d = a.getD i d := by
  rw [List.getD_eq_getElem?_getD, List.getElem?_take_of_lt h, List.getD_eq_getElem?_getD]

theorem drop_eq_getD_cons (h : i < a.length) (d : α) :
    a.drop i = a.getD i d :: a.drop (i + 1) := by
  rw [List.drop_eq_getElem_cons h, List.getD_eq_getElem?_getD, List.getElem?_eq_getElem h]
  rfl

theorem take_add_two (h : i + 1 < a.length) (d : α) :
    a.take (i + 2) = a.take i ++ [a.getD i d, a.getD (i + 1) d] := by
  rw [List.take_add, drop_eq_getD_cons (by omega) d, drop_eq_getD_cons h d]
  rfl

theorem blit_nil : blit a i [] = a := by
  rw [blit, List.append_nil, List.length_nil, Nat.add_zero, List.take_append_drop]

/-- **A block is its first element and the rest.** -/
theorem blit_set (h : i < a.length) (x : α) (w : List α) :
    blit (a.set i x) (i + 1) w = blit a i (x :: w) := by
  have htake : (a.set i x).take (i + 1) = a.take i ++ [x] := by
    rw [List.set_eq_take_append_cons_drop, if_pos h, ← List.singleton_append, ← List.append_assoc]
    apply List.take_left'
    rw [List.length_append, List.length_take, List.length_singleton]
    omega
  have hdrop : (a.set i x).drop (i + 1 + w.length) = a.drop (i + (x :: w).length) := by
    rw [List.drop_set, if_pos (by omega), List.length_cons, Nat.add_assoc, Nat.add_comm 1]
  rw [blit, htake, hdrop, blit, List.append_assoc (a.take i), List.singleton_append]

theorem set_eq_blit (h : i < a.length) (x : α) : a.set i x = blit a i [x] := by
  rw [← blit_set h, blit_nil]

theorem length_blit {w : List α} (h : i + w.length ≤ a.length) :
    (blit a i w).length = a.length := by
  simp only [blit, List.length_append, List.length_take, List.length_drop]
  omega

/-- What precedes the end of the block. -/
theorem take_blit {w : List α} (h : i ≤ a.length) (hn : n = i + w.length) :
    (blit a i w).take n = a.take i ++ w := by
  have hlen : (a.take i ++ w).length = n := by
    simp only [List.length_append, List.length_take]
    omega
  rw [blit, ← hlen, List.take_left']
  rfl

end Sricd.Lib
