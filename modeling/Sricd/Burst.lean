import Sricd.Deframing
import Sricd.Lib.ShiftRegister

/-!
# The checksum sees short bursts

The generated table is a shift register that takes a byte in eight steps
(`crcByte_feed`), low bit first, and the order of the two checksum bytes
is the order in which the register would take itself in. So the bits of a
frame, checksum included, in the order in which a UART sends them, are what
is fed to it, and two frames that both pass leave the same in it.
-/

namespace Sricd

open Sricd.Lib.ShiftRegister

/-- `POLYNOMIAL`. -/
def polynomial : BitVec 16 := 0xA001

theorem crcShift_eq (c : BitVec 16) : crcShift c = shift polynomial c := by
  have hlow : c &&& 1 = BitVec.setWidth 16 (BitVec.ofBool (c.getLsbD 0)) :=
    BitVec.and_one_eq_setWidth_ofBool_getLsbD
  rw [crcShift, shift, hlow]
  cases c.getLsbD 0 <;> rfl

/-- The bits of a byte, least significant first. -/
def byteBits (b : Byte) : List Bool := (List.range 8).map b.getLsbD

/-- The bits of a buffer, numbered byte by byte. -/
def bufBits (buf : List Byte) : List Bool := buf.flatMap byteBits

@[simp] theorem byteBits_length (b : Byte) : (byteBits b).length = 8 := by
  rw [byteBits, List.length_map, List.length_range]

theorem word_byteBits (b : Byte) : word (byteBits b) = b.zeroExtend 16 := by
  apply BitVec.eq_of_getLsbD_eq
  intro i hi
  rw [getLsbD_word, BitVec.zeroExtend, BitVec.getLsbD_setWidth]
  by_cases h8 : i < 8
  · simp [byteBits, hi, h8]
  · simp [byteBits, h8, BitVec.getLsbD_of_ge b i (by omega)]

theorem getLsbD_lowByte (i : Nat) : (0xFF : BitVec 16).getLsbD i = decide (i < 8) := by
  have h255 : (255 : Nat).testBit i = decide (i < 8) := Nat.testBit_two_pow_sub_one 8 i
  show (BitVec.ofNat 16 255).getLsbD i = _
  rw [BitVec.getLsbD_ofNat, h255]
  by_cases h : i < 8
  · simp [h, Nat.lt_trans h (by decide : 8 < 16)]
  · simp [h]

/-- Eight shifts: an entry of the table, and the high byte moved down. -/
theorem shift_eight (x : BitVec 16) :
    (shift polynomial)^[8] x = (shift polynomial)^[8] (x &&& 0xFF) ^^^ (x >>> 8) := by
  have hsplit : x = (x &&& 0xFF) ^^^ (x &&& ~~~0xFF) := by
    apply BitVec.eq_of_getLsbD_eq
    intro i hi
    rw [BitVec.getLsbD_xor, BitVec.getLsbD_and, BitVec.getLsbD_and, BitVec.getLsbD_not,
      getLsbD_lowByte]
    by_cases h8 : i < 8 <;> simp [h8, hi]
  have hlow : ∀ i < 8, (x &&& ~~~0xFF).getLsbD i = false := by
    intro i hi
    rw [BitVec.getLsbD_and, BitVec.getLsbD_not, getLsbD_lowByte]
    simp [hi]
  have hhigh : (x &&& ~~~0xFF) >>> 8 = x >>> 8 := by
    apply BitVec.eq_of_getLsbD_eq
    intro i hi
    rw [BitVec.getLsbD_ushiftRight, BitVec.getLsbD_and, BitVec.getLsbD_not, getLsbD_lowByte,
      BitVec.getLsbD_ushiftRight]
    by_cases h : 8 + i < 16
    · simp [h]
    · rw [BitVec.getLsbD_of_ge x (8 + i) (by omega), Bool.false_and]
  conv_lhs => rw [hsplit, iterate_split polynomial 8 _ _ hlow, hhigh]

/-- **The table takes a byte as the register does.** -/
theorem crcByte_feed (c : BitVec 16) (b : Byte) :
    crcByte c b = feed polynomial c (byteBits b) := by
  have hiter : crcShift^[8] = (shift polynomial)^[8] := by
    rw [show crcShift = shift polynomial from funext crcShift_eq]
  have hhigh : (c ^^^ b.zeroExtend 16) >>> 8 = c >>> 8 := by
    have hb : b.zeroExtend 16 >>> 8 = 0#16 := by
      apply BitVec.eq_of_getLsbD_eq
      intro i hi
      rw [BitVec.getLsbD_ushiftRight, BitVec.zeroExtend, BitVec.getLsbD_setWidth,
        BitVec.getLsbD_of_ge b (8 + i) (by omega), Bool.and_false, BitVec.getLsbD_zero]
    rw [BitVec.ushiftRight_xor_distrib, hb, BitVec.xor_zero]
  rw [crcByte, crcTable, hiter, feed_word polynomial (by simp), word_byteBits, byteBits_length,
    shift_eight (c ^^^ _), hhigh, BitVec.ofNat_toNat, BitVec.setWidth_eq]

theorem foldl_crcByte (c : BitVec 16) (buf : List Byte) :
    buf.foldl crcByte c = feed polynomial c (bufBits buf) := by
  induction buf generalizing c with
  | nil => rfl
  | cons b buf ih =>
      rw [List.foldl_cons, ih, crcByte_feed, ← feed_append]
      rfl

theorem crc16_feed (buf : List Byte) : crc16 buf = ~~~feed polynomial 0xFFFF (bufBits buf) :=
  congrArg (~~~·) (foldl_crcByte 0xFFFF buf)

/-! ## Bit by bit -/

/-- A bit-serial CRC register takes a bit: it is reflected, so that the
bit meets the low end. -/
def serialBit (c : BitVec 16) (b : Bool) : BitVec 16 :=
  if c.getLsbD 0 = b then c >>> 1 else (c >>> 1) ^^^ 0xA001

/-- The bit-serial CRC of a buffer, each byte from its low bit up. -/
def crcSerial (buf : List Byte) : BitVec 16 :=
  ~~~(buf.foldl (fun c b => (byteBits b).foldl serialBit c) 0xFFFF)

/-- A set bit changes what leaves, and nothing of what stays. -/
theorem shift_bit (c : BitVec 16) (b : Bool) : shift polynomial (c ^^^ bit b) = serialBit c b := by
  have hdown : (c ^^^ 1#16) >>> 1 = c >>> 1 := by
    have hone : (1#16 >>> 1) = 0#16 := by decide
    rw [BitVec.ushiftRight_xor_distrib, hone, BitVec.xor_zero]
  have hlow : (c ^^^ 1#16).getLsbD 0 = !c.getLsbD 0 := by
    rw [BitVec.getLsbD_xor]
    exact Bool.xor_true _
  rw [serialBit]
  cases b with
  | false =>
      rw [show (bit false : BitVec 16) = 0#16 from rfl, BitVec.xor_zero, shift]
      cases c.getLsbD 0
      · rfl
      · exact BitVec.xor_comm _ _
  | true =>
      rw [show (bit true : BitVec 16) = 1#16 from rfl, shift, hlow, hdown]
      cases c.getLsbD 0
      · exact BitVec.xor_comm _ _
      · rfl

theorem feed_serial (c : BitVec 16) (bs : List Bool) :
    feed polynomial c bs = bs.foldl serialBit c := by
  induction bs generalizing c with
  | nil => rfl
  | cons b bs ih =>
      rw [List.foldl_cons, ← ih, ← shift_bit]
      rfl

/-- **The table computes the CRC**: one lookup for each byte gives what
the bits of the buffer give one by one. -/
theorem crc16_serial (buf : List Byte) : crc16 buf = crcSerial buf := by
  have hbyte : crcByte = fun c b => (byteBits b).foldl serialBit c := by
    funext c b
    rw [crcByte_feed, feed_serial]
  rw [crc16, crcSerial, hbyte]

/-- The check value of this CRC, over the digits 1 to 9, with the final
complement. -/
example : crcSerial [0x31, 0x32, 0x33, 0x34, 0x35, 0x36, 0x37, 0x38, 0x39] = 0xB4C8 := by
  decide +kernel

/-- The last two bytes are the checksum of all that precede them, low byte
first. -/
def CrcOk (buf : List Byte) : Prop :=
  ∃ body lo hi, buf = body ++ [lo, hi] ∧ crc16 body = hi ++ lo

theorem IsFrame.crcOk {buf : List Byte} (h : IsFrame buf) : CrcOk buf := by
  obtain ⟨type, dest, src, len, payload, lo, hi, rfl, -, hcrc⟩ := h
  exact ⟨_, lo, hi, rfl, hcrc⟩

/-- The two checksum bytes, as the register takes them. -/
theorem word_checksum (lo hi : Byte) : word (byteBits lo ++ byteBits hi) = hi ++ lo := by
  apply BitVec.eq_of_getLsbD_eq
  intro i hi'
  rw [getLsbD_word, BitVec.getLsbD_append]
  by_cases h8 : i < 8
  · simp [byteBits, hi', h8]
  · have hhi : (byteBits lo ++ byteBits hi).getD i false = (byteBits hi).getD (i - 8) false := by
      rw [List.getD_eq_getElem?_getD, List.getElem?_append_right (by simp; omega), byteBits_length,
        List.getD_eq_getElem?_getD]
    rw [hhi]
    simp [byteBits, hi', h8, show i - 8 < 8 by omega]

/-- A frame that passes leaves the same in the register as any other. -/
theorem CrcOk.residue {buf : List Byte} (h : CrcOk buf) :
    feed polynomial 0xFFFF (bufBits buf) = (shift polynomial)^[16] (BitVec.allOnes 16) := by
  obtain ⟨body, lo, hi, rfl, hcrc⟩ := h
  rw [crc16_feed] at hcrc
  have hbits : bufBits (body ++ [lo, hi]) = bufBits body ++ (byteBits lo ++ byteBits hi) := by
    simp [bufBits]
  have hones : ∀ x : BitVec 16, x ^^^ ~~~x = BitVec.allOnes 16 := fun x => by
    rw [← BitVec.not_xor_right, BitVec.xor_self, BitVec.not_zero]
  rw [hbits, feed_append, feed_word polynomial (by simp), word_checksum, ← hcrc, hones]
  simp only [List.length_append, byteBits_length]

/-! ## Differences -/

@[simp] theorem bufBits_length (buf : List Byte) : (bufBits buf).length = 8 * buf.length := by
  rw [bufBits, List.length_flatMap]
  simp [Nat.mul_comm]

/-- Bit `n` of a buffer: bit `n % 8` of byte `n / 8`. -/
def bitAt (buf : List Byte) (n : Nat) : Bool := (buf.getD (n / 8) 0).getLsbD (n % 8)

theorem bufBits_getElem? {buf : List Byte} {n : Nat} (h : n < 8 * buf.length) :
    (bufBits buf)[n]? = some (bitAt buf n) := by
  induction buf generalizing n with
  | nil => cases h
  | cons b buf ih =>
      rw [List.length_cons] at h
      have hcons : bufBits (b :: buf) = byteBits b ++ bufBits buf := rfl
      by_cases h8 : n < 8
      · rw [hcons, List.getElem?_append_left (by simpa using h8), bitAt, Nat.div_eq_of_lt h8,
          Nat.mod_eq_of_lt h8]
        simp [byteBits, h8]
      · have hdiv : n / 8 = (n - 8) / 8 + 1 := by omega
        have hmod : n % 8 = (n - 8) % 8 := by omega
        rw [hcons, List.getElem?_append_right (by simp; omega), byteBits_length, ih (by omega),
          bitAt, bitAt, hdiv, hmod, List.getD_cons_succ]

/-- Two buffers with the same bits are equal. -/
theorem eq_of_bitAt {a b : List Byte} (hlen : a.length = b.length)
    (h : ∀ n < 8 * a.length, bitAt a n = bitAt b n) : a = b := by
  apply List.ext_getElem hlen
  intro k ha hb
  apply BitVec.eq_of_getLsbD_eq
  intro i hi
  have hbit := h (8 * k + i) (by omega)
  rw [bitAt, bitAt, show (8 * k + i) / 8 = k by omega, show (8 * k + i) % 8 = i by omega] at hbit
  simpa [ha, hb] using hbit

/-- **Frames that pass differ in bits that are at least 16 apart.** -/
theorem CrcOk.burst {a b : List Byte} (ha : CrcOk a) (hb : CrcOk b) (hlen : a.length = b.length)
    (hne : a ≠ b) : ∃ m n, m + 16 ≤ n ∧ n < 8 * a.length ∧ bitAt a m ≠ bitAt b m
      ∧ bitAt a n ≠ bitAt b n := by
  have hbits : (bufBits a).length = (bufBits b).length := by simp [hlen]
  have hzero : feed polynomial 0 (List.zipWith Bool.xor (bufBits a) (bufBits b)) = 0 := by
    have := feed_xor polynomial hbits 0xFFFF 0xFFFF
    rwa [ha.residue, hb.residue, BitVec.xor_self, BitVec.xor_self] at this
  have hget : ∀ n < 8 * a.length,
      (List.zipWith Bool.xor (bufBits a) (bufBits b))[n]? = some (bitAt a n ^^ bitAt b n) := by
    intro n hn
    rw [List.getElem?_zipWith, bufBits_getElem? hn, bufBits_getElem? (hlen ▸ hn)]
  have hmem : true ∈ List.zipWith Bool.xor (bufBits a) (bufBits b) := by
    by_contra hno
    refine hne (eq_of_bitAt hlen fun n hn => ?_)
    by_contra hd
    refine hno (List.mem_of_getElem? (i := n) ?_)
    rw [hget n hn]
    simpa using hd
  obtain ⟨m, n, hmn, hm, hn⟩ := feed_burst (p := polynomial) rfl hzero hmem
  have hlt : n < 8 * a.length := by
    have := (List.getElem?_eq_some_iff.mp hn).1
    simpa [hlen] using this
  rw [hget m (by omega)] at hm
  rw [hget n hlt] at hn
  exact ⟨m, n, hmn, hlt, by simpa using hm, by simpa using hn⟩

/-- A buffer that passes as a whole is taken as a whole. -/
theorem checkFrame_whole {f v g : List Byte} (hf : Rx.checkFrame f = some f)
    (hlen : v.length = f.length) (hcode : v.getD sricLen 0 = f.getD sricLen 0)
    (hv : Rx.checkFrame v = some g) : g = v := by
  have hfl := checkFrame_length hf
  have hgl := checkFrame_length hv
  rw [hcode] at hgl
  exact (checkFrame_isFrame hv).2.eq_of_length (by rw [hlen, hfl, hgl])

/-- **The checksum detects every short burst**: of two different frames
of one length, with one length byte, that both pass, the differing bits
span more than 16 positions, so that a frame that is damaged within 16
consecutive bits, other than those of its length byte, is not accepted. -/
theorem crc_detects_bursts {a b : List Byte} (ha : Rx.checkFrame a = some a)
    (hlen : b.length = a.length) (hcode : b.getD sricLen 0 = a.getD sricLen 0) (hne : b ≠ a) :
    (Rx.checkFrame b = some b →
        ∃ m n, m + 16 ≤ n ∧ n < 8 * a.length ∧ bitAt a m ≠ bitAt b m ∧ bitAt a n ≠ bitAt b n)
      ∧ ((∃ i, ∀ n, bitAt a n ≠ bitAt b n → i ≤ n ∧ n < i + 16) → Rx.checkFrame b = none) := by
  have hspan : Rx.checkFrame b = some b → ∃ m n, m + 16 ≤ n ∧ n < 8 * a.length
      ∧ bitAt a m ≠ bitAt b m ∧ bitAt a n ≠ bitAt b n := fun hb =>
    (checkFrame_isFrame ha).1.crcOk.burst (checkFrame_isFrame hb).1.crcOk hlen.symm hne.symm
  refine ⟨hspan, fun ⟨i, hi⟩ => ?_⟩
  rcases Option.eq_none_or_eq_some (Rx.checkFrame b) with h | ⟨g, h⟩
  · exact h
  · obtain rfl := checkFrame_whole ha hlen hcode h
    obtain ⟨m, n, hmn, -, hm, hn⟩ := hspan h
    have hm := hi m hm
    have hn := hi n hn
    omega

/-- One bit of the address. -/
theorem crc_detects_bursts_address :
    Rx.checkFrame [0x7E, 0x03, 0x01, 0x00, 0x47, 0xA3] = none := by
  refine (crc_detects_bursts (a := [0x7E, 0x02, 0x01, 0x00, 0x47, 0xA3])
    (b := [0x7E, 0x03, 0x01, 0x00, 0x47, 0xA3]) (by decide +kernel) rfl rfl (by decide)).2
    ⟨8, fun n hn => ?_⟩
  by_cases h : n < 48
  · revert hn
    revert n
    decide
  · have hnone : ∀ buf : List Byte, buf.length = 6 → bitAt buf n = false := by
      intro buf hbuf
      rw [bitAt, List.getD_eq_default _ _ (by omega)]
      exact BitVec.getLsbD_zero
    exact absurd ((hnone _ rfl).trans (hnone _ rfl).symm) hn

end Sricd
