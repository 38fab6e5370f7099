import Sricd.Lib.Memory
import Sricd.Lib.Stuffing
import Sricd.Frame

/-!
# Escaping

`escape_frame` and `unescape`, and the stuffing discipline that both
implement: `0x7D` escapes, and the byte behind it is exclusive-ored with
`0x20`.
-/

namespace Sricd

open Sricd.Lib

/-- `memcpy (buf + pos, w, length of w)`, inside a longer buffer. -/
def writeAt (buf : List Byte) (pos : Nat) (w : List Byte) : List Byte :=
  buf.take pos ++ w ++ buf.drop (pos + w.length)

theorem writeAt_length {buf w : List Byte} {pos : Nat}
    (h : pos + w.length ≤ buf.length) : (writeAt buf pos w).length = buf.length :=
  length_blit h

/-- What precedes the end of the written bytes. -/
theorem take_writeAt {buf w : List Byte} {pos n : Nat} (hp : pos ≤ buf.length)
    (hn : n = pos + w.length) : (writeAt buf pos w).take n = buf.take pos ++ w :=
  take_blit hp hn

/-! ## `escape_frame` -/

/-- What the loop body writes for one source byte. -/
def escapeByte (b : Byte) : List Byte :=
  if b = 0x7E then [0x7D, 0x5E]
  else if b = 0x7D then [0x7D, 0x5D]
  else if b = 0x8E then [0x7D, 0x8E ^^^ 0x20]
  else [b]

/-- The loop over the source bytes. `dst` is what has been written, its
length `dest_index`; `false` is `REQUIRE_SPACE` giving up. -/
def escapeLoop (maxlength : Nat) : List Byte → List Byte → List Byte × Bool
  | dst, [] => (dst, true)
  | dst, b :: src =>
      if dst.length + (escapeByte b).length ≥ maxlength then (dst, false)
      else escapeLoop maxlength (dst ++ escapeByte b) src

/-- `escape_frame`: the buffer afterwards, and the returned length (`none`
for `-1`, when the source bytes are copied back). -/
def escapeFrame (data : List Byte) (length maxlength : Nat) :
    List Byte × Option Nat :=
  let src := data.take length
  match escapeLoop maxlength [] src with
  | (dst, true) => (writeAt data 0 dst, some dst.length)
  | (dst, false) => (writeAt (writeAt data 0 dst) 0 src, none)

/-! ## `unescape` -/

/-- `unescape`: the number of source bytes used, and the bytes written to
the destination, which has room for `destlen`. -/
def unescape : List Byte → Nat → Nat × List Byte
  | [], _ => (0, [])
  | _ :: _, 0 => (0, [])
  | b :: src, destlen + 1 =>
      if b = 0x7D then
        match src with
        -- the byte to unescape is not available yet
        | [] => (0, [])
        | x :: src =>
            let (spos, dest) := unescape src destlen
            (spos + 2, (x ^^^ 0x20) :: dest)
      else if b = 0x7E ∨ b = 0x8E then (0, [])
      else
        let (spos, dest) := unescape src destlen
        (spos + 1, b :: dest)

theorem unescape_esc (x : Byte) (src : List Byte) (n : Nat) :
    unescape (0x7D :: x :: src) (n + 1)
      = ((unescape src n).1 + 2, (x ^^^ 0x20) :: (unescape src n).2) := by
  rw [unescape, if_pos rfl]

theorem unescape_plain {b : Byte} (h : b ≠ 0x7D) (h' : ¬(b = 0x7E ∨ b = 0x8E))
    (src : List Byte) (n : Nat) :
    unescape (b :: src) (n + 1)
      = ((unescape src n).1 + 1, b :: (unescape src n).2) := by
  rw [unescape.eq_def]
  exact (if_neg h).trans (if_neg h')

/-- `unescape` stays inside its two buffers. -/
theorem unescape_le (src : List Byte) (n : Nat) :
    (unescape src n).1 ≤ src.length ∧ (unescape src n).2.length ≤ n := by
  fun_induction unescape src n with
  | case1 => simp
  | case2 => simp
  | case3 => simp
  | case4 n x src spos dest h ih =>
      simp only [h] at ih
      simp only [List.length_cons]
      omega
  | case5 => simp
  | case6 b src n hb hf spos dest h ih =>
      simp only [h] at ih
      simp only [List.length_cons]
      omega

/-- `unescape` writes something exactly when it uses something. -/
theorem unescape_used (src : List Byte) (n : Nat) :
    (unescape src n).1 = 0 ↔ (unescape src n).2 = [] := by
  fun_induction unescape src n <;> simp

/-- Why `unescape` may use nothing of what it is given. -/
theorem unescape_stuck {src : List Byte} {n : Nat} (hn : 0 < n)
    (h : (unescape src n).2 = []) :
    src = [] ∨ src = [0x7D] ∨ isFramingByte (src.headD 0) = true := by
  fun_induction unescape src n with
  | case1 => exact .inl rfl
  | case2 => exact absurd hn (Nat.lt_irrefl 0)
  | case3 => exact .inr (.inl rfl)
  | case4 => cases h
  | case5 b src n hb hf => exact .inr (.inr (by simpa [isFramingByte] using hf))
  | case6 => cases h

/-- A framing byte in front is left to the next frame. -/
theorem unescape_framing {b : Byte} (h : isFramingByte b = true) (src : List Byte)
    (n : Nat) : unescape (b :: src) n = (0, []) := by
  cases n with
  | zero => rfl
  | succ n =>
      have hf : b = 0x7E ∨ b = 0x8E := by simpa [isFramingByte] using h
      have he : b ≠ 0x7D := by rcases hf with rfl | rfl <;> decide
      rw [unescape.eq_def]
      exact (if_neg he).trans (if_pos hf)

/-! ## The discipline -/

theorem isFramingByte_iff {b : Byte} :
    isFramingByte b = true ↔ b = 0x7E ∨ b = 0x8E := by
  simp [isFramingByte]

/-- The stuffing discipline of the bus. -/
def sricStuffing : Stuffing Byte where
  esc := 0x7D
  flag := isFramingByte
  flip b := b ^^^ 0x20
  flip_flip b := by rw [BitVec.xor_assoc, BitVec.xor_self, BitVec.xor_zero]
  esc_plain := rfl
  flip_plain b h := by
    rcases h with h | rfl
    · rcases isFramingByte_iff.mp h with rfl | rfl <;> decide
    · decide
  flip_ne_esc b h := by
    rcases h with h | rfl
    · rcases isFramingByte_iff.mp h with rfl | rfl <;> decide
    · decide

theorem escapeByte_special {b : Byte} (h : isFramingByte b = true ∨ b = 0x7D) :
    escapeByte b = [0x7D, b ^^^ 0x20] := by
  rcases h with h | rfl
  · rcases isFramingByte_iff.mp h with rfl | rfl <;> decide
  · decide

theorem escapeByte_plain {b : Byte} (h : ¬(isFramingByte b = true ∨ b = 0x7D)) :
    escapeByte b = [b] := by
  simp only [isFramingByte_iff, not_or] at h
  rw [escapeByte, if_neg h.1.1, if_neg h.2, if_neg h.1.2]

theorem stuff_cons (b : Byte) (src : List Byte) :
    sricStuffing.stuff (b :: src) = escapeByte b ++ sricStuffing.stuff src := by
  by_cases h : isFramingByte b = true ∨ b = 0x7D
  · rw [escapeByte_special h]
    exact sricStuffing.stuff_special h src
  · rw [escapeByte_plain h]
    exact sricStuffing.stuff_plain h src

/-- With room to spare the loop stuffs its input. -/
theorem escapeLoop_stuff {maxlength : Nat} (dst src : List Byte)
    (h : dst.length + (sricStuffing.stuff src).length < maxlength) :
    escapeLoop maxlength dst src = (dst ++ sricStuffing.stuff src, true) := by
  induction src generalizing dst with
  | nil => simp [escapeLoop]
  | cons b src ih =>
      rw [stuff_cons] at h ⊢
      simp only [List.length_append] at h
      rw [escapeLoop, if_neg (by omega), ih _ (by simp only [List.length_append]; omega)]
      simp

/-- **`escape_frame` stuffs**: when the stuffed bytes are fewer than
`maxlength`, they are what the buffer starts with afterwards. -/
theorem escapeFrame_stuff {data : List Byte} {length maxlength : Nat}
    (h : (sricStuffing.stuff (data.take length)).length < maxlength) :
    escapeFrame data length maxlength
      = (writeAt data 0 (sricStuffing.stuff (data.take length)),
         some (sricStuffing.stuff (data.take length)).length) := by
  have hloop := escapeLoop_stuff [] (data.take length) (by simpa using h)
  rw [List.nil_append] at hloop
  simp only [escapeFrame, hloop]

/-- Without room to spare the loop gives up, unless there is nothing left. -/
theorem escapeLoop_full (maxlength : Nat) (dst : List Byte) {src : List Byte} (hne : src ≠ [])
    (h : maxlength ≤ dst.length + (sricStuffing.stuff src).length) :
    ∃ w, escapeLoop maxlength dst src = (w, false) := by
  induction src generalizing dst with
  | nil => exact absurd rfl hne
  | cons b src ih =>
      rw [escapeLoop]
      split
      · exact ⟨dst, rfl⟩
      · rename_i hroom
        rw [stuff_cons, List.length_append] at h
        apply ih
        · intro hx
          obtain rfl := hx
          exact hroom h
        · rw [List.length_append]
          omega

/-- The number of bytes that the escaped form takes. -/
def escapedSize (src : List Byte) : Nat :=
  src.length + src.countP fun b => b == 0x7D || b == 0x7E || b == 0x8E

theorem stuff_length (src : List Byte) : (sricStuffing.stuff src).length = escapedSize src := by
  have hspecial : ∀ b : Byte, (b == 0x7D || b == 0x7E || b == 0x8E) = true
      ↔ isFramingByte b = true ∨ b = 0x7D := by
    intro b
    simp only [isFramingByte_iff, Bool.or_eq_true, beq_iff_eq, or_assoc, or_comm]
  induction src with
  | nil => rfl
  | cons b src ih =>
      rw [stuff_cons, List.length_append, ih, escapedSize, escapedSize, List.countP_cons,
        List.length_cons]
      by_cases h : isFramingByte b = true ∨ b = 0x7D
      · rw [escapeByte_special h, if_pos ((hspecial b).mpr h), List.length_cons,
          List.length_singleton]
        omega
      · rw [escapeByte_plain h, if_neg (fun hb => h ((hspecial b).mp hb)), List.length_singleton]
        omega

/-- **`escape_frame` gives up** as soon as nothing would be left of
`maxlength`, and puts the source bytes back. -/
theorem escapeFrame_full {data : List Byte} {length maxlength : Nat} (hpos : 0 < length)
    (hlen : length ≤ data.length) (h : maxlength ≤ escapedSize (data.take length)) :
    (escapeFrame data length maxlength).2 = none
      ∧ (escapeFrame data length maxlength).1.take length = data.take length := by
  have hsrc : (data.take length).length = length := List.length_take_of_le hlen
  have hne : data.take length ≠ [] := by
    intro hnil
    rw [hnil] at hsrc
    exact Nat.ne_of_lt hpos hsrc
  obtain ⟨w, hw⟩ := escapeLoop_full maxlength [] hne (by
    rwa [stuff_length, List.length_nil, Nat.zero_add])
  simp only [escapeFrame, hw, true_and]
  rw [take_writeAt (Nat.zero_le _) (by omega), List.take_zero, List.nil_append]

/-- The `int16_t` that `escape_frame` returns. -/
def returned : Option Nat → Int
  | some len => (BitVec.ofNat 16 len).toInt
  | none => -1

theorem returned_some {len : Nat} (h : len < 0x8000) : returned (some len) = len := by
  have hmod : (BitVec.ofNat 16 len).toNat = len := Nat.mod_eq_of_lt (by omega)
  rw [returned, BitVec.toInt_eq_toNat_of_lt (by omega), hmod]

/-- What fits is escaped, inside the given capacity; what does not fit is
left as it was. -/
def EscapesOrRestores (data : List Byte) (length maxlength : Nat) : Prop :=
  let size := escapedSize (data.take length)
  let result := escapeFrame data length maxlength
  if size ≤ maxlength then
    returned result.2 = size ∧ result.1.take size = sricStuffing.stuff (data.take length)
      ∧ (∀ b ∈ result.1.take size, isFramingByte b = false)
      ∧ result.1.drop maxlength = data.drop maxlength
  else returned result.2 = -1 ∧ result.1.take length = data.take length

/-- The escaped bytes stand in front, and what lies behind the capacity is
not touched. -/
theorem escapeFrame_fits {data : List Byte} {length maxlength : Nat}
    (h : escapedSize (data.take length) < maxlength) :
    (escapeFrame data length maxlength).2 = some (escapedSize (data.take length))
      ∧ (escapeFrame data length maxlength).1.take (escapedSize (data.take length))
        = sricStuffing.stuff (data.take length)
      ∧ (escapeFrame data length maxlength).1.drop maxlength = data.drop maxlength := by
  have hstuff := stuff_length (data.take length)
  rw [escapeFrame_stuff (hstuff ▸ h), hstuff]
  refine ⟨rfl, ?_, ?_⟩
  · show (writeAt data 0 _).take _ = _
    rw [take_writeAt (Nat.zero_le _) (by omega), List.take_zero, List.nil_append]
  · have hrest : maxlength = (sricStuffing.stuff (data.take length)).length
        + (maxlength - (sricStuffing.stuff (data.take length)).length) := by omega
    show (writeAt data 0 _).drop _ = _
    rw [writeAt, List.take_zero, List.nil_append, hrest, ← List.drop_drop, List.drop_left,
      List.drop_drop, Nat.zero_add]

/-- **The boundary of `REQUIRE_SPACE`**: `escape_frame` escapes what fits
and restores what does not, except where the escaped bytes of some input
are as many as there is room for. -/
theorem escapes_or_restores_iff {data : List Byte} {length maxlength : Nat}
    (hlen : length ≤ maxlength) (hbuf : maxlength ≤ data.length)
    (hsize : escapedSize (data.take length) < 0x8000) :
    EscapesOrRestores data length maxlength
      ↔ escapedSize (data.take length) ≠ maxlength ∨ length = 0 := by
  rw [EscapesOrRestores]
  rcases Nat.eq_zero_or_pos length with rfl | hpos
  · -- nothing to escape: the loop does not ask for space
    refine iff_of_true ?_ (.inr rfl)
    have h0 : escapedSize (data.take 0) = 0 := rfl
    rw [if_pos (by omega)]
    exact ⟨rfl, rfl, fun b hb => absurd hb List.not_mem_nil, rfl⟩
  by_cases hlt : escapedSize (data.take length) < maxlength
  · refine iff_of_true ?_ (.inl (Nat.ne_of_lt hlt))
    obtain ⟨hsome, htake, hdrop⟩ := escapeFrame_fits hlt
    rw [if_pos (Nat.le_of_lt hlt), hsome, returned_some hsize, htake]
    exact ⟨rfl, rfl, fun b hb => sricStuffing.flag_of_mem_stuff hb, hdrop⟩
  · obtain ⟨hnone, hback⟩ := escapeFrame_full hpos (Nat.le_trans hlen hbuf) (Nat.le_of_not_lt hlt)
    rw [hnone, hback]
    by_cases heq : escapedSize (data.take length) = maxlength
    · refine iff_of_false ?_ (by omega)
      rw [if_pos (Nat.le_of_eq heq)]
      intro h
      have := h.1
      rw [returned] at this
      omega
    · refine iff_of_true ?_ (.inl heq)
      rw [if_neg (by omega)]
      exact ⟨rfl, rfl⟩

/-- A framing byte, with a byte to spare. -/
theorem escapes_or_restores_framing :
    EscapesOrRestores [0x7E, 0, 0] 1 3 :=
  (escapes_or_restores_iff (by decide) (by decide) (by decide)).mpr (.inl (by decide))

/-- One plain byte in a buffer of one byte fits, and is refused. -/
theorem escape_refuses_exact_fit :
    escapedSize [0] ≤ 1 ∧ escapeFrame [0] 1 1 = ([0], none) ∧ ¬EscapesOrRestores [0] 1 1 := by
  refine ⟨by decide, by decide, ?_⟩
  intro h
  cases h.1

/-! ## What `unescape` does with stuffed bytes -/

/-- Reading into a stuffed stream gives back what was stuffed. -/
theorem unescape_stuff {u fut r : List Byte} (h : u ++ fut = sricStuffing.stuff r) (n : Nat) :
    ∃ q r', r = q ++ r' ∧ (unescape u n).2 = q
      ∧ u.drop (unescape u n).1 ++ fut = sricStuffing.stuff r' := by
  fun_induction unescape u n generalizing r with
  | case1 => exact ⟨[], r, rfl, rfl, h⟩
  | case2 => exact ⟨[], r, rfl, rfl, h⟩
  | case3 => exact ⟨[], r, rfl, rfl, h⟩
  | case4 n x src spos dest hx ih =>
      simp only [hx] at ih
      cases r with
      | nil => cases h
      | cons a r =>
          by_cases ha : sricStuffing.flag a = true ∨ a = sricStuffing.esc
          · rw [sricStuffing.stuff_special ha] at h
            obtain ⟨rfl, htail⟩ := List.cons.inj (List.cons.inj h).2
            obtain ⟨q, r', rfl, rfl, hr⟩ := ih htail
            have hflip : sricStuffing.flip a ^^^ 0x20 = a := sricStuffing.flip_flip a
            exact ⟨a :: dest, r', rfl, by rw [hflip], hr⟩
          · rw [sricStuffing.stuff_plain ha] at h
            exact absurd (.inr (List.cons.inj h).1.symm) ha
  | case5 => exact ⟨[], r, rfl, rfl, h⟩
  | case6 b src n hb hf spos dest hx ih =>
      simp only [hx] at ih
      cases r with
      | nil => cases h
      | cons a r =>
          by_cases ha : sricStuffing.flag a = true ∨ a = sricStuffing.esc
          · rw [sricStuffing.stuff_special ha] at h
            exact absurd (List.cons.inj h).1 hb
          · rw [sricStuffing.stuff_plain ha] at h
            obtain ⟨rfl, htail⟩ := List.cons.inj h
            obtain ⟨q, r', rfl, rfl, hr⟩ := ih htail
            exact ⟨b :: dest, r', rfl, rfl, hr⟩

/-- With room enough all of it comes back. -/
theorem unescape_stuff_all (r : List Byte) {n : Nat} (h : r.length ≤ n) :
    unescape (sricStuffing.stuff r) n = ((sricStuffing.stuff r).length, r) := by
  induction r generalizing n with
  | nil => rfl
  | cons a r ih =>
      obtain ⟨n, rfl⟩ : ∃ m, n = m + 1 := Nat.exists_eq_add_one.mpr (Nat.lt_of_lt_of_le (by simp) h)
      have hr := ih (Nat.le_of_succ_le_succ h)
      by_cases ha : sricStuffing.flag a = true ∨ a = sricStuffing.esc
      · have hflip : sricStuffing.flip a ^^^ 0x20 = a := sricStuffing.flip_flip a
        rw [sricStuffing.stuff_special ha]
        apply (unescape_esc _ _ _).trans
        rw [hr, hflip]
        rfl
      · rw [sricStuffing.stuff_plain ha]
        have hplain := not_or.mp ha
        rw [unescape_plain hplain.2 (fun hf => hplain.1 (isFramingByte_iff.mpr hf)), hr]
        rfl

end Sricd
