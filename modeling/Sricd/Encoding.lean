import Sricd.Crc16
import Sricd.Escape

/-!
# The transmit buffer

How `next_tx` builds a frame up in `txbuf`, and what is in the buffer
then: the framing byte, and behind it the rest of the frame, stuffed.
Nothing of the result depends on the stale bytes of earlier frames.
-/

namespace Sricd

open Sricd.Lib

/-- The assignments of `next_tx` to `txbuf`, before it is escaped. -/
def fillFrame (txbuf : List Byte) (f : FrameT) : List Byte :=
  let len := f.payload.length
  let buf := writeAt txbuf 0 [f.type.byte]
  let buf := writeAt buf sricDest [BitVec.ofNat 8 f.address]
  let buf := writeAt buf sricSrc [1]
  let buf := writeAt buf sricLen [BitVec.ofNat 8 len]
  let buf := writeAt buf sricData f.payload
  let crc := crc16 (buf.take (sricHeaderSize + len))
  let buf := writeAt buf (sricData + len) [crc.truncate 8]
  writeAt buf (sricData + len + 1) [(crc >>> 8).truncate 8]

/-- The part of `next_tx` that builds `tx_frame` up in `txbuf`: the buffer
afterwards, and `txlen`. `none` is its `g_assert`. -/
def buildFrame (txbuf : List Byte) (f : FrameT) : Option (List Byte × Nat) :=
  let buf := fillFrame txbuf f
  -- the initial framing byte is not escaped
  match escapeFrame (buf.drop 1) (sricOverhead - 1 + f.payload.length) (lineBufSize - 1) with
  | (rest, some esclen) =>
      if esclen > 0 then some (buf.take 1 ++ rest, esclen + 1) else none
  | (_, none) => none

namespace FrameT

/-- A frame up to its payload, as it goes into `txbuf`. -/
def head (f : FrameT) : List Byte :=
  [f.type.byte, BitVec.ofNat 8 f.address, 1, BitVec.ofNat 8 f.payload.length] ++ f.payload

/-- The whole frame, checksum included, before it is escaped. -/
def bytes (f : FrameT) : List Byte :=
  f.head ++ [(crc16 f.head).truncate 8, (crc16 f.head >>> 8).truncate 8]

/-- The frame as it goes over the line. -/
def wire (f : FrameT) : List Byte := f.type.byte :: sricStuffing.stuff f.bytes.tail

@[simp] theorem head_length (f : FrameT) : f.head.length = sricHeaderSize + f.payload.length := by
  rw [head, List.length_append]
  rfl

@[simp] theorem bytes_length (f : FrameT) : f.bytes.length = sricOverhead + f.payload.length := by
  rw [bytes, List.length_append, f.head_length, List.length_cons, List.length_singleton]
  have h6 : sricOverhead = sricHeaderSize + 2 := rfl
  omega

theorem bytes_eq_cons (f : FrameT) : f.bytes = f.type.byte :: f.bytes.tail := rfl

theorem tail_length (f : FrameT) : f.bytes.tail.length = sricOverhead - 1 + f.payload.length := by
  rw [List.length_tail, f.bytes_length]
  have h6 : sricOverhead = 6 := rfl
  omega

/-- An encoded frame fits `txbuf`. -/
theorem wire_length_le (f : FrameT) : f.wire.length < lineBufSize := by
  have hs := sricStuffing.stuff_length_le f.bytes.tail
  have hp := f.payload_le
  rw [f.tail_length] at hs
  simp only [wire, List.length_cons]
  have h6 : sricOverhead = 6 := rfl
  have h140 : lineBufSize = 140 := rfl
  have h64 : payloadMax = 64 := rfl
  omega

theorem wire_pos (f : FrameT) : 0 < f.wire.length := Nat.succ_pos _

end FrameT

/-- Writing on from the end of what has been written. -/
theorem writeAt_snoc {buf w : List Byte} {n : Nat} (pre : List Byte) (hn : n = pre.length)
    (h : buf.take n = pre) (hfit : n + w.length ≤ buf.length) :
    (writeAt buf n w).length = buf.length
      ∧ (writeAt buf n w).take (n + w.length) = pre ++ w := by
  refine ⟨writeAt_length hfit, ?_⟩
  rw [take_writeAt (by omega) rfl, h]

theorem fillFrame_bytes {txbuf : List Byte} (h : txbuf.length = lineBufSize) (f : FrameT) :
    (fillFrame txbuf f).length = lineBufSize
      ∧ (fillFrame txbuf f).take (sricOverhead + f.payload.length) = f.bytes := by
  have h140 : lineBufSize = 140 := rfl
  have h64 : payloadMax = 64 := rfl
  have hp := f.payload_le
  -- the fields are written one behind the other
  obtain ⟨l0, t0⟩ := writeAt_snoc (n := 0) (w := [f.type.byte]) [] rfl
    (List.take_zero (l := txbuf)) (by simp only [List.length_singleton]; omega)
  obtain ⟨l1, t1⟩ := writeAt_snoc (n := 1) (w := [BitVec.ofNat 8 f.address]) _ rfl t0
    (by simp only [List.length_singleton]; omega)
  obtain ⟨l2, t2⟩ := writeAt_snoc (n := 2) (w := [(1 : Byte)]) _ rfl t1
    (by simp only [List.length_singleton]; omega)
  obtain ⟨l3, t3⟩ := writeAt_snoc (n := 3) (w := [BitVec.ofNat 8 f.payload.length]) _ rfl t2
    (by simp only [List.length_singleton]; omega)
  obtain ⟨l4, t4⟩ := writeAt_snoc (n := 4) (w := f.payload) _ rfl t3 (by omega)
  obtain ⟨l5, t5⟩ := writeAt_snoc (n := 4 + f.payload.length)
    (w := [(crc16 f.head).truncate 8]) _ (by simp; omega) t4
    (by simp only [List.length_singleton]; omega)
  obtain ⟨l6, t6⟩ := writeAt_snoc (n := 4 + f.payload.length + 1)
    (w := [(crc16 f.head >>> 8).truncate 8]) _ (by simp; omega) t5
    (by simp only [List.length_singleton]; omega)
  -- the checksum is that of the head
  have hcrc : crc16 ((writeAt (writeAt (writeAt (writeAt (writeAt txbuf 0 [f.type.byte]) 1
      [BitVec.ofNat 8 f.address]) 2 [1]) 3 [BitVec.ofNat 8 f.payload.length]) 4
      f.payload).take (4 + f.payload.length)) = crc16 f.head :=
    congrArg crc16 (by simpa [FrameT.head] using t4)
  have hfill : fillFrame txbuf f
      = writeAt (writeAt (writeAt (writeAt (writeAt (writeAt (writeAt txbuf 0 [f.type.byte]) 1
          [BitVec.ofNat 8 f.address]) 2 [1]) 3 [BitVec.ofNat 8 f.payload.length]) 4 f.payload)
          (4 + f.payload.length) [(crc16 f.head).truncate 8])
          (4 + f.payload.length + 1) [(crc16 f.head >>> 8).truncate 8] := by
    simp only [fillFrame, hcrc]
  have hend : sricOverhead + f.payload.length = 4 + f.payload.length + 1 + 1 := by
    have h6 : sricOverhead = 6 := rfl
    omega
  rw [hfill]
  refine ⟨by omega, ?_⟩
  rw [hend]
  simpa [FrameT.bytes, FrameT.head] using t6

/-- **What `next_tx` leaves in `txbuf`**, whatever was there before. -/
theorem buildFrame_wire {txbuf : List Byte} (h : txbuf.length = lineBufSize) (f : FrameT) :
    ∃ buf, buildFrame txbuf f = some (buf, f.wire.length) ∧ buf.length = lineBufSize
      ∧ buf.take f.wire.length = f.wire := by
  have h6 : sricOverhead = 6 := rfl
  have h140 : lineBufSize = 140 := rfl
  obtain ⟨hlen, hfull⟩ := fillFrame_bytes h f
  have htail : ((fillFrame txbuf f).drop 1).take (sricOverhead - 1 + f.payload.length)
      = f.bytes.tail := by
    rw [← hfull, List.take_drop, List.drop_one,
      show 1 + (sricOverhead - 1 + f.payload.length) = sricOverhead + f.payload.length by omega]
  have hone : (fillFrame txbuf f).take 1 = [f.type.byte] := by
    have := congrArg (List.take 1) hfull
    rwa [List.take_take, Nat.min_eq_left (by omega), f.bytes_eq_cons, List.take_succ_cons,
      List.take_zero] at this
  have hlt := f.wire_length_le
  simp only [FrameT.wire, List.length_cons] at hlt
  have hesc : escapeFrame ((fillFrame txbuf f).drop 1) (sricOverhead - 1 + f.payload.length)
      (lineBufSize - 1) = _ := escapeFrame_stuff (by rw [htail]; omega)
  rw [htail] at hesc
  have hpos : (sricStuffing.stuff f.bytes.tail).length > 0 := by
    have := sricStuffing.length_le_stuff f.bytes.tail
    rw [f.tail_length] at this
    omega
  have hfit : 0 + (sricStuffing.stuff f.bytes.tail).length
      ≤ ((fillFrame txbuf f).drop 1).length := by
    rw [List.length_drop]
    omega
  refine ⟨(fillFrame txbuf f).take 1
    ++ writeAt ((fillFrame txbuf f).drop 1) 0 (sricStuffing.stuff f.bytes.tail), ?_, ?_, ?_⟩
  · rw [buildFrame]
    simp only [hesc]
    exact if_pos hpos
  · rw [List.length_append, writeAt_length hfit, List.length_take, List.length_drop]
    omega
  · rw [FrameT.wire, List.length_cons, hone, List.singleton_append, List.take_succ_cons,
      take_writeAt (Nat.zero_le _) (Nat.zero_add _).symm]
    rfl

/-- The two checksum bytes put together again. -/
theorem crc_bytes (c : BitVec 16) :
    (c.truncate 8).zeroExtend 16 ||| ((c >>> 8).truncate 8).zeroExtend 16 <<< 8 = c := by
  ext i hi
  simp only [BitVec.getElem_or, BitVec.getElem_shiftLeft, BitVec.truncate_eq_setWidth,
    BitVec.getElem_setWidth, BitVec.getLsbD_setWidth, BitVec.getLsbD_ushiftRight]
  by_cases h : i < 8
  · simp [h, hi, BitVec.getLsbD_eq_getElem]
  · have h8 : 8 + (i - 8) = i := by omega
    simp [h, hi, h8, show i - 8 < 8 by omega, BitVec.getLsbD_eq_getElem]

/-- The bytes that `next_tx` builds for one frame after the other, in one
and the same `txbuf`. -/
def transmitted : List Byte → List FrameT → Option (List Byte)
  | _, [] => some []
  | txbuf, f :: fs =>
      match buildFrame txbuf f with
      | none => none
      | some (buf, txlen) => (transmitted buf fs).map fun s => buf.take txlen ++ s

theorem transmitted_wire {txbuf : List Byte} (h : txbuf.length = lineBufSize) (fs : List FrameT) :
    transmitted txbuf fs = some (fs.map FrameT.wire).flatten := by
  induction fs generalizing txbuf with
  | nil => rfl
  | cons f fs ih =>
      obtain ⟨buf, hb, hl, ht⟩ := buildFrame_wire h f
      rw [transmitted, hb]
      simp only [ih hl, ht, Option.map_some, List.map_cons, List.flatten_cons]

end Sricd
