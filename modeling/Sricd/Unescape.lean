import Sricd.Escape

/-!
# Unescaping in place

`unescape_frame`: the escaped bytes are overwritten from the front with
what they stand for. Unlike `unescape` it has a table of the bytes that it
accepts behind `0x7D`, and the table has no `0xAE`, which is what
`escape_frame` makes of `0x8E`.
-/

namespace Sricd

open Sricd.Lib

/-- The `switch`, on the byte behind `0x7D`. `none` is `default`. -/
def unescapeCode (b : Byte) : Option Byte :=
  if b = 0x5E then some 0x7E
  else if b = 0x5D then some 0x7D
  else none

/-- The loop of `unescape_frame`: `source` and `dest` are positions in the
one buffer, and `left` bytes lie between `source` and `end`. `none` is
`return false`. -/
def unescapeFrameLoop (data : List Byte) (source dest : Nat) : Nat → List Byte × Option Nat
  | 0 => (data, some dest)
  | left + 1 =>
      if data.getD source 0 = 0x7D then
        match left with
        | 0 => (data, none)
        | left + 1 =>
            match unescapeCode (data.getD (source + 1) 0) with
            | some b => unescapeFrameLoop (data.set dest b) (source + 2) (dest + 1) left
            | none => (data, none)
      else
        unescapeFrameLoop (data.set dest (data.getD source 0)) (source + 1) (dest + 1) left

/-- `unescape_frame`: the buffer afterwards, and `*outlength`, which is
written only for `true`. -/
def unescapeFrame (data : List Byte) (length : Nat) : List Byte × Option Nat :=
  unescapeFrameLoop data 0 0 length

/-! ## What is in the buffer -/

/-- Where the loop ends that has come to `dest`, when the bytes that it has
not read yet stand for `w`. -/
structure Wrote (data : List Byte) (dest : Nat) (w : Option (List Byte))
    (result : List Byte × Option Nat) : Prop where
  length : result.2 = w.map (dest + ·.length)
  buffer : ∀ v, w = some v → result.1 = writeAt data dest v

theorem Wrote.nil (data : List Byte) (dest : Nat) : Wrote data dest (some []) (data, some dest) where
  length := rfl
  buffer v hv := by
    obtain rfl := Option.some.inj hv
    exact blit_nil.symm

theorem Wrote.gave_up (data : List Byte) (dest : Nat) : Wrote data dest none (data, none) where
  length := rfl
  buffer v hv := by cases hv

/-- One byte is written, and the others behind it. -/
theorem Wrote.cons {data : List Byte} {dest : Nat} {b : Byte} {w : Option (List Byte)}
    {result : List Byte × Option Nat} (h : Wrote (data.set dest b) (dest + 1) w result)
    (hdest : dest < data.length) : Wrote data dest (w.map (b :: ·)) result where
  length := by
    rw [h.length, Option.map_map]
    congr 1
    funext v
    exact Nat.add_right_comm dest 1 v.length
  buffer v hv := by
    obtain ⟨u, hu, rfl⟩ := Option.map_eq_some_iff.mp hv
    exact (h.buffer u hu).trans (blit_set hdest b u)

/-- What stands for the bytes from an escape on. -/
theorem unstuff_drop_esc {data : List Byte} {source left : Nat}
    (hesc : data.getD source 0 = 0x7D) (hend : source + 1 < data.length) :
    sricStuffing.unstuff unescapeCode ((data.drop source).take (left + 2))
      = (unescapeCode (data.getD (source + 1) 0)).bind fun b =>
        (sricStuffing.unstuff unescapeCode ((data.drop (source + 2)).take left)).map (b :: ·) := by
  rw [drop_eq_getD_cons (by omega) 0, drop_eq_getD_cons hend 0, hesc, List.take_succ_cons,
    List.take_succ_cons]
  exact sricStuffing.unstuff_esc ..

/-- **The loop reads what it has not overwritten**: `dest` stays behind
`source`. -/
theorem unescapeFrameLoop_wrote {data : List Byte} {source dest left : Nat}
    (hle : dest ≤ source) (hend : source + left ≤ data.length) :
    Wrote data dest (sricStuffing.unstuff unescapeCode ((data.drop source).take left))
      (unescapeFrameLoop data source dest left) := by
  fun_induction unescapeFrameLoop data source dest left with
  | case1 data source dest => exact Wrote.nil data dest
  | case2 data source dest hesc =>
      rw [drop_eq_getD_cons (by omega) 0, hesc]
      exact Wrote.gave_up data dest
  | case3 data source dest hesc left b hcode ih =>
      have hrest := ih (by omega) (by rw [List.length_set]; omega)
      rw [List.drop_set_of_lt (by omega)] at hrest
      rw [unstuff_drop_esc hesc (by omega), hcode]
      exact hrest.cons (by omega)
  | case4 data source dest hesc left hcode =>
      rw [unstuff_drop_esc hesc (by omega), hcode]
      exact Wrote.gave_up data dest
  | case5 data source dest left hesc ih =>
      have hrest := ih (by omega) (by rw [List.length_set]; omega)
      rw [List.drop_set_of_lt (by omega)] at hrest
      rw [drop_eq_getD_cons (by omega) 0, List.take_succ_cons,
        sricStuffing.unstuff_plain unescapeCode hesc]
      exact hrest.cons (by omega)

/-- **`unescape_frame` unstuffs in place.** -/
theorem unescapeFrame_wrote {data : List Byte} {length : Nat} (h : length ≤ data.length) :
    Wrote data 0 (sricStuffing.unstuff unescapeCode (data.take length))
      (unescapeFrame data length) :=
  unescapeFrameLoop_wrote (Nat.le_refl 0) (by omega)

/-! ## What `escape_frame` has escaped -/

/-- A loop that has not given up has stuffed its input. -/
theorem escapeLoop_done {maxlength : Nat} {dst src w : List Byte}
    (h : escapeLoop maxlength dst src = (w, true)) : w = dst ++ sricStuffing.stuff src := by
  induction src generalizing dst with
  | nil =>
      cases h
      exact (List.append_nil _).symm
  | cons b src ih =>
      rw [escapeLoop] at h
      split at h
      · cases h
      · rw [ih h, stuff_cons, List.append_assoc]

/-- The bytes `x` have been escaped at the front of `escaped`, over what
was behind them. -/
theorem escapeFrame_some {x spare escaped : List Byte} {maxlength esclen : Nat}
    (h : escapeFrame (x ++ spare) x.length maxlength = (escaped, some esclen)) :
    escaped.take esclen = sricStuffing.stuff x ∧ esclen = (sricStuffing.stuff x).length
      ∧ esclen ≤ escaped.length := by
  rw [escapeFrame, List.take_left] at h
  cases hloop : escapeLoop maxlength [] x with
  | mk dst done =>
      rw [hloop] at h
      cases done with
      | false => cases h
      | true =>
          obtain rfl := escapeLoop_done hloop
          cases h
          refine ⟨take_writeAt (Nat.zero_le _) (Nat.zero_add _).symm, rfl, ?_⟩
          rw [writeAt, List.take_zero, List.nil_append, List.length_append]
          exact Nat.le_add_right ..

/-- The table has what stands for `0x7E` and `0x7D`. -/
theorem unescapeCode_flip {b : Byte} (hspecial : sricStuffing.flag b = true ∨ b = sricStuffing.esc)
    (hb : b ≠ 0x8E) : unescapeCode (sricStuffing.flip b) = some b := by
  rcases hspecial with hf | rfl
  · rcases isFramingByte_iff.mp hf with rfl | rfl
    · rfl
    · exact absurd rfl hb
  · rfl

section

variable {x spare escaped : List Byte} {maxlength esclen : Nat}
  (h : escapeFrame (x ++ spare) x.length maxlength = (escaped, some esclen))

include h

/-- Without `0x8E` the bytes come back, in front. -/
theorem unescapeFrame_escaped (hx : 0x8E ∉ x) :
    unescapeFrame escaped esclen = (writeAt escaped 0 x, some x.length) := by
  obtain ⟨htake, -, hle⟩ := escapeFrame_some h
  have hwrote := unescapeFrame_wrote hle
  rw [htake, sricStuffing.unstuff_stuff fun b hb hspecial =>
    unescapeCode_flip hspecial fun hb' => hx (hb' ▸ hb)] at hwrote
  have hlen := hwrote.length
  rw [Option.map_some, Nat.zero_add] at hlen
  exact Prod.ext (hwrote.buffer x rfl) hlen

/-- With one it returns `false`. -/
theorem unescapeFrame_refuses (hx : 0x8E ∈ x) : (unescapeFrame escaped esclen).2 = none := by
  obtain ⟨htake, -, hle⟩ := escapeFrame_some h
  have hwrote := unescapeFrame_wrote hle
  rw [htake, sricStuffing.unstuff_stuff_none hx (.inl rfl) rfl] at hwrote
  exact hwrote.length

end

/-! ## The two decoders -/

/-- `unescape_frame` gives back `x` from the `esclen` bytes in front of
`escaped`, and so does `unescape`, where it can be given as many. -/
structure Inverts (x escaped : List Byte) (esclen : Nat) : Prop where
  returns : (unescapeFrame escaped esclen).2 = some x.length
  yields : (unescapeFrame escaped esclen).1.take x.length = x
  agrees : ∀ srclen destlen : BitVec 8, srclen.toNat = esclen → x.length ≤ destlen.toNat →
    unescape (escaped.take srclen.toNat) destlen.toNat
      = (srclen.toNat, (unescapeFrame escaped esclen).1.take x.length)

/-- **`unescape_frame` inverts `escape_frame`** on exactly the strings
without `0x8E`, for which its table has no entry. -/
theorem unescape_inverts_iff {x spare escaped : List Byte} {maxlength esclen : Nat}
    (h : escapeFrame (x ++ spare) x.length maxlength = (escaped, some esclen)) :
    Inverts x escaped esclen ↔ 0x8E ∉ x := by
  constructor
  · intro hinv hx
    have hreturns := hinv.returns
    rw [unescapeFrame_refuses h hx] at hreturns
    cases hreturns
  · intro hx
    obtain ⟨htake, hlen, -⟩ := escapeFrame_some h
    have hback := unescapeFrame_escaped h hx
    have hyields : (unescapeFrame escaped esclen).1.take x.length = x := by
      rw [hback]
      exact take_writeAt (Nat.zero_le _) (Nat.zero_add _).symm
    refine ⟨congrArg Prod.snd hback, hyields, ?_⟩
    intro srclen destlen hsrc hdest
    rw [hyields, hsrc, htake, unescape_stuff_all x hdest, ← hlen]

/-- A string with both of the bytes that the table has. -/
theorem unescape_inverts_both :
    Inverts [0x7E, 0x01, 0x7D] [0x7D, 0x5E, 0x01, 0x7D, 0x5D, 0] 5 := by
  have hescaped : escapeFrame ([0x7E, 0x01, 0x7D] ++ [0, 0, 0]) 3 6
      = ([0x7D, 0x5E, 0x01, 0x7D, 0x5D, 0], some 5) := by decide
  exact (unescape_inverts_iff hescaped).mpr (by decide)

/-- One `0x8E` is escaped, and `unescape` undoes it, but `unescape_frame`
does not. -/
theorem unescape_frame_refuses_8e :
    escapeFrame ([0x8E] ++ [0, 0]) 1 3 = ([0x7D, 0xAE, 0], some 2)
      ∧ unescape [0x7D, 0xAE] 1 = (2, [0x8E])
      ∧ unescapeFrame [0x7D, 0xAE, 0] 2 = ([0x7D, 0xAE, 0], none)
      ∧ ¬Inverts [0x8E] [0x7D, 0xAE, 0] 2 := by
  refine ⟨by decide, by decide, by decide, ?_⟩
  intro hinv
  cases hinv.returns

end Sricd
