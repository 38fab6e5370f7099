import Mathlib.Logic.Function.Iterate
import Sricd.Frame

/-!
# CRC-16

The checksum that `crc16-build` emits: a table of 256 entries, generated
by eight shifts each, and one lookup per byte.
-/

namespace Sricd

/-- One turn of the generator's inner loop, polynomial `0xA001`. -/
def crcShift (c : BitVec 16) : BitVec 16 :=
  if c &&& 1 ≠ 0 then 0xA001 ^^^ (c >>> 1) else c >>> 1

/-- `crc_table[n]`. -/
def crcTable (n : Nat) : BitVec 16 := crcShift^[8] (BitVec.ofNat 16 n)

/-- One byte of the emitted `crc16` loop. -/
def crcByte (c : BitVec 16) (b : Byte) : BitVec 16 :=
  crcTable ((c ^^^ b.zeroExtend 16) &&& 0xFF).toNat ^^^ (c >>> 8)

/-- `crc16`. -/
def crc16 (buf : List Byte) : BitVec 16 := ~~~(buf.foldl crcByte 0xFFFF)

end Sricd
