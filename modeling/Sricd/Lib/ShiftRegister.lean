import Mathlib.Data.List.GetD
import Mathlib.Logic.Function.Iterate
import Mathlib.Tactic.Common

/-!
# Shift registers

A linear feedback shift register of `w` bits that shifts towards its low
end: the bit that leaves takes the polynomial `p` in. Bits are fed to it
through the low end, first bit first. The register is linear in what it
holds and in what it is fed, and does not forget: with the top bit of `p`
set, only zero is shifted to zero.

A cyclic redundancy check compares what is left in the register. Two
inputs that leave the same there differ in bits that lie at least `w`
apart (`feed_burst`).
-/

namespace Sricd.Lib

namespace ShiftRegister

variable {w : Nat} (p : BitVec w)

/-- One shift. -/
def shift (r : BitVec w) : BitVec w := if r.getLsbD 0 then p ^^^ (r >>> 1) else r >>> 1

theorem shift_low {r : BitVec w} (h : r.getLsbD 0 = false) : shift p r = r >>> 1 :=
  if_neg (by simp [h])

theorem shift_zero : shift p 0 = 0 := by
  rw [shift_low p (by simp)]
  simp

theorem shift_xor (a b : BitVec w) : shift p (a ^^^ b) = shift p a ^^^ shift p b := by
  have hcancel : p ^^^ (a >>> 1) ^^^ (p ^^^ (b >>> 1)) = (a >>> 1) ^^^ (b >>> 1) := by
    rw [BitVec.xor_assoc, ← BitVec.xor_assoc (a >>> 1), BitVec.xor_comm (a >>> 1) p,
      BitVec.xor_assoc p, ← BitVec.xor_assoc p p, BitVec.xor_self, BitVec.zero_xor]
  simp only [shift, BitVec.getLsbD_xor, BitVec.ushiftRight_xor_distrib]
  cases a.getLsbD 0 <;> cases b.getLsbD 0
  · rfl
  · simp only [Bool.xor_true, Bool.not_false, if_true, Bool.false_eq_true, if_false]
    ac_rfl
  · simp only [Bool.xor_false, if_true, Bool.false_eq_true, if_false]
    ac_rfl
  · simp only [Bool.xor_true, Bool.not_true, Bool.false_eq_true, if_false, if_true, hcancel]

/-- The polynomial shows in the bit that has become free. -/
theorem shift_eq_zero {p r : BitVec w} (hp : p.msb = true) (h : shift p r = 0) : r = 0 := by
  have hw : 0 < w := by
    cases w with
    | zero => simp [BitVec.eq_nil p] at hp
    | succ w => exact Nat.succ_pos w
  have hlow : r.getLsbD 0 = false := by
    by_contra hc
    have htop := congrArg (fun x => x.getLsbD (w - 1)) h
    rw [BitVec.msb_eq_getLsbD_last] at hp
    simp [shift, hc, hp, show 1 + (w - 1) = w by omega] at htop
  rw [shift_low p hlow] at h
  apply BitVec.eq_of_getLsbD_eq
  intro i hi
  cases i with
  | zero => simpa using hlow
  | succ i =>
      have := congrArg (fun x => x.getLsbD i) h
      simpa [Nat.add_comm] using this

theorem iterate_xor (n : Nat) (a b : BitVec w) :
    (shift p)^[n] (a ^^^ b) = (shift p)^[n] a ^^^ (shift p)^[n] b := by
  induction n generalizing a b with
  | zero => rfl
  | succ n ih => rw [Function.iterate_succ_apply, shift_xor, ih]; rfl

theorem iterate_zero (n : Nat) : (shift p)^[n] 0 = 0 := Function.iterate_fixed (shift_zero p) n

theorem iterate_eq_zero {p : BitVec w} (hp : p.msb = true) {n : Nat} {r : BitVec w}
    (h : (shift p)^[n] r = 0) : r = 0 := by
  induction n generalizing r with
  | zero => exact h
  | succ n ih => exact shift_eq_zero hp (ih h)

/-- Where only zeros leave, the register moves down. -/
theorem iterate_low {n : Nat} {r : BitVec w} (h : ∀ i < n, r.getLsbD i = false) :
    (shift p)^[n] r = r >>> n := by
  induction n generalizing r with
  | zero => simp
  | succ n ih =>
      rw [Function.iterate_succ_apply, shift_low p (h 0 (Nat.succ_pos n)), ih, Nat.add_comm,
        BitVec.shiftRight_add]
      intro i hi
      rw [BitVec.getLsbD_ushiftRight, Nat.add_comm]
      exact h (i + 1) (Nat.succ_lt_succ hi)

/-- **A table for `n` shifts**: what the bits that leave take in, and the
others moved down. -/
theorem iterate_split (n : Nat) (lo hi : BitVec w) (h : ∀ i < n, hi.getLsbD i = false) :
    (shift p)^[n] (lo ^^^ hi) = (shift p)^[n] lo ^^^ (hi >>> n) := by
  rw [iterate_xor, iterate_low p h]

/-! ## Feeding bits -/

/-- One bit, in the low end. -/
def bit (b : Bool) : BitVec w := if b then 1 else 0

theorem bit_xor (a b : Bool) : (bit (a ^^ b) : BitVec w) = bit a ^^^ bit b := by
  cases a <;> cases b <;> simp [bit]

/-- The bits, one after the other. -/
def feed (r : BitVec w) (bs : List Bool) : BitVec w := bs.foldl (fun r b => shift p (r ^^^ bit b)) r

theorem feed_append (r : BitVec w) (as bs : List Bool) :
    feed p r (as ++ bs) = feed p (feed p r as) bs := List.foldl_append

/-- Bits as a word, the first one lowest. -/
def word : List Bool → BitVec w
  | [] => 0
  | b :: bs => bit b ^^^ (word bs <<< 1)

theorem getLsbD_word (bs : List Bool) (i : Nat) :
    (word bs : BitVec w).getLsbD i = (decide (i < w) && bs.getD i false) := by
  induction bs generalizing i with
  | nil => simp [word]
  | cons b bs ih =>
      rw [word, BitVec.getLsbD_xor, BitVec.getLsbD_shiftLeft, ih]
      cases i with
      | zero => cases b <;> simp [bit]
      | succ i =>
          have hbit : (bit b : BitVec w).getLsbD (i + 1) = false := by
            cases b <;> simp [bit]
          rw [hbit, Bool.false_xor, List.getD_cons_succ]
          by_cases hi : i + 1 < w
          · simp [hi, Nat.lt_of_succ_lt hi]
          · simp [hi]

/-- No more bits than the register has may as well be put in at once. -/
theorem feed_word {bs : List Bool} (h : bs.length ≤ w) (r : BitVec w) :
    feed p r bs = (shift p)^[bs.length] (r ^^^ word bs) := by
  induction bs generalizing r with
  | nil => simp [feed, word]
  | cons b bs ih =>
      have hlt : bs.length < w := h
      have hback : shift p (word bs <<< 1) = word bs := by
        rw [shift_low p (by simp)]
        apply BitVec.eq_of_getLsbD_eq
        intro i hi
        rw [BitVec.getLsbD_ushiftRight, BitVec.getLsbD_shiftLeft, getLsbD_word, getLsbD_word]
        by_cases hw : 1 + i < w
        · simp [hw, hi]
        · simp [hw, show bs.length ≤ i by omega]
      show feed p (shift p (r ^^^ bit b)) bs = _
      rw [ih (Nat.le_of_lt hlt), List.length_cons, Function.iterate_succ_apply, word,
        ← BitVec.xor_assoc, shift_xor p (r ^^^ bit b), hback]

theorem feed_zeros (n : Nat) (r : BitVec w) :
    feed p r (List.replicate n false) = (shift p)^[n] r := by
  induction n generalizing r with
  | zero => rfl
  | succ n ih =>
      show feed p (shift p (r ^^^ bit false)) (List.replicate n false) = _
      rw [ih]
      simp [bit]

/-- The register is linear in what it is fed. -/
theorem feed_xor {as bs : List Bool} (h : as.length = bs.length) (r s : BitVec w) :
    feed p (r ^^^ s) (List.zipWith Bool.xor as bs) = feed p r as ^^^ feed p s bs := by
  induction as generalizing r s bs with
  | nil =>
      obtain rfl := List.length_eq_zero_iff.mp h.symm
      rfl
  | cons a as ih =>
      cases bs with
      | nil => cases h
      | cons b bs =>
          have hstep : r ^^^ s ^^^ bit (a ^^ b) = (r ^^^ bit a) ^^^ (s ^^^ bit b) := by
            rw [bit_xor]
            ac_rfl
          show feed p (shift p (r ^^^ s ^^^ bit (a ^^ b))) (List.zipWith Bool.xor as bs) = _
          rw [hstep, shift_xor, ih (Nat.succ.inj h)]
          rfl

/-- Feeding a difference that is zero but for fewer than `w` bits in a row
does not bring the register back to zero. -/
theorem feed_window {p : BitVec w} (hp : p.msb = true) {bs : List Bool} (n m : Nat)
    (h : bs.length < w) :
    feed p 0 (List.replicate n false ++ true :: bs ++ List.replicate m false) ≠ 0 := by
  intro h0
  rw [feed_append, feed_append, feed_zeros, feed_zeros, iterate_zero] at h0
  have hmid := iterate_eq_zero hp h0
  have hle : (true :: bs).length ≤ w := h
  rw [feed_word p hle] at hmid
  have hlow := congrArg (fun x => x.getLsbD 0) (iterate_eq_zero hp hmid)
  simp only [BitVec.getLsbD_xor, getLsbD_word] at hlow
  simp [Nat.zero_lt_of_lt h] at hlow

theorem exists_first {d : List Bool} (h : true ∈ d) :
    ∃ n bs, d = List.replicate n false ++ true :: bs := by
  induction d with
  | nil => cases h
  | cons b d ih =>
      cases b with
      | true => exact ⟨0, d, rfl⟩
      | false =>
          obtain ⟨n, bs, rfl⟩ := ih (by simpa using h)
          exact ⟨n + 1, bs, rfl⟩

/-- **Short bursts are seen.** -/
theorem feed_burst {p : BitVec w} (hp : p.msb = true) {d : List Bool} (h : feed p 0 d = 0)
    (hd : true ∈ d) : ∃ i j, i + w ≤ j ∧ d[i]? = some true ∧ d[j]? = some true := by
  obtain ⟨n, bs, rfl⟩ := exists_first hd
  have hw : 0 < w := by
    cases w with
    | zero => simp [BitVec.eq_nil p] at hp
    | succ w => exact Nat.succ_pos w
  have hsplit := List.take_append_drop (w - 1) bs
  have hlen : (bs.take (w - 1)).length < w := by
    rw [List.length_take]
    omega
  by_cases htail : true ∈ bs.drop (w - 1)
  · obtain ⟨k, hk⟩ := List.mem_iff_getElem?.mp htail
    refine ⟨n, n + (w + k), by omega, by simp, ?_⟩
    rw [List.getElem?_append_right (by simp), List.length_replicate, Nat.add_sub_cancel_left,
      show w + k = (w - 1 + k) + 1 by omega, List.getElem?_cons_succ, ← List.getElem?_drop]
    exact hk
  · -- nothing but a window of fewer than `w` bits is left
    have hzeros : bs.drop (w - 1) = List.replicate (bs.drop (w - 1)).length false :=
      List.eq_replicate_of_mem fun b hb => by
        cases b with
        | false => rfl
        | true => exact absurd hb htail
    rw [← hsplit, hzeros, ← List.cons_append, ← List.append_assoc] at h
    exact absurd h (feed_window hp n _ hlen)

end ShiftRegister

end Sricd.Lib
