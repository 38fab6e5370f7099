import Sricd.Deframing

/-!
# The receiver, access by access

The receive path of `sric-if.c` and the loop of `unescape` once more, now
with every array access checked, every counter held to its range, and
every loop written out: an access outside of `rxbuf`, of `unesc_rx` or of
a copy in `proc_rx_frame`, a counter that wraps and a loop that goes on
for ever are faults. None of them occurs, whatever the port delivers
(`receives_in_bounds`), and what is computed is what `rx` computes.
-/

namespace Sricd

open Sricd.Lib

/-- Why the checked callback does not return. -/
inductive RxFault where
  | halt (h : Halt)
  /-- a counter beyond its range -/
  | counter
  /-- a loop that goes on without using a byte -/
  | endless
deriving DecidableEq

namespace RxMemory

abbrev outOfBounds : RxFault := .halt .outOfBounds

/-- An assignment to a `uint8_t`. -/
def u8 (n : Nat) : Except RxFault Nat := atMost .counter 255 n

/-- An assignment to `rxpos`, which is to stay within `rxbuf` and so
within its eight bits. -/
def setRxpos (st : Rx) (n : Nat) : Except RxFault Rx := do
  let n ← atMost .counter lineBufSize n
  .ok { st with rxpos := n }

/-- An assignment to `unesc_pos`. -/
def setUnescPos (st : Rx) (n : Nat) : Except RxFault Rx := do
  let n ← atMost .counter unescSize n
  .ok { st with unescPos := n }

/-- `rxbuf_shift`. -/
def shift (st : Rx) (n : Nat) : Except RxFault Rx :=
  if n ≤ st.rxpos then do
    let bytes ← loadBlock outOfBounds st.rxbuf n (st.rxpos - n)
    let rxbuf ← storeBlock outOfBounds st.rxbuf 0 bytes
    setRxpos { st with rxbuf := rxbuf } (st.rxpos - n)
  else .error (.halt .assertion)

/-- The loop of `rxbuf_shift_frame_start`. -/
def scan (st : Rx) : Nat → Nat → Except RxFault Nat
  | 0, _ => .error .endless
  | fuel + 1, i =>
      if i < st.rxpos then do
        let b ← load outOfBounds st.rxbuf i
        if isFramingByte b then .ok i
        else do
          let i ← u8 (i + 1)
          scan st fuel i
      else .ok i

/-- `rxbuf_shift_frame_start`. -/
def shiftFrameStart (st : Rx) : Except RxFault (Rx × Bool) := do
  let i ← scan st (lineBufSize + 1) 0
  if i = st.rxpos then do
    let st ← setRxpos st 0
    .ok (st, false)
  else do
    let st ← shift st i
    .ok (st, true)

/-- `read_incoming`, for a `read` that returns `chunk`. -/
def readIncoming (st : Rx) (chunk : List Byte) : Except RxFault Rx :=
  if chunk.length > st.space then .error (.halt .disabled)
  else if chunk.length = 0 ∧ st.space ≠ 0 then .error (.halt .exit)
  else do
    let rxbuf ← storeBlock outOfBounds st.rxbuf st.rxpos chunk
    setRxpos { st with rxbuf := rxbuf } (st.rxpos + chunk.length)

/-- The loop of `unescape`, from `src` to the `destlen` bytes of `dest`
behind the first `start`. -/
def unescapeLoop (src : List Byte) (srclen start destlen : Nat) :
    Nat → Nat → Nat → List Byte → Except RxFault (Nat × Nat × List Byte)
  | 0, _, _, _ => .error .endless
  | fuel + 1, spos, dpos, dest =>
      if spos < srclen ∧ dpos < destlen then do
        let b ← load outOfBounds src spos
        if b = 0x7D then
          -- the byte to unescape is not available yet
          if 1 + spos = srclen then .ok (spos, dpos, dest)
          else do
            let spos ← u8 (spos + 1)
            let x ← load outOfBounds src spos
            let dest ← store outOfBounds dest (start + dpos) (x ^^^ 0x20)
            let spos ← u8 (spos + 1)
            let dpos ← u8 (dpos + 1)
            unescapeLoop src srclen start destlen fuel spos dpos dest
        else if b = 0x7E ∨ b = 0x8E then .ok (spos, dpos, dest)
        else do
          let dest ← store outOfBounds dest (start + dpos) b
          let spos ← u8 (spos + 1)
          let dpos ← u8 (dpos + 1)
          unescapeLoop src srclen start destlen fuel spos dpos dest
      else .ok (spos, dpos, dest)

/-- The first `if` of `advance_rx`: the current frame is over. -/
def moveOn (st : Rx) : Except RxFault Rx := do
  let b ← load outOfBounds st.rxbuf 0
  if isFramingByte b = true ∨ st.unescPos = unescSize then setUnescPos st 0 else .ok st

/-- The first half of `advance_rx`, with the framing byte copied across. -/
def startFrame (st : Rx) : Except RxFault (Rx × Bool) := do
  let st ← moveOn st
  if st.unescPos = 0 then
    match ← shiftFrameStart st with
    | (st, false) => .ok (st, false)
    | (st, true) => do
        let b ← load outOfBounds st.rxbuf 0
        let unescRx ← store outOfBounds st.unescRx 0 b
        let st ← setUnescPos { st with unescRx := unescRx } 1
        let st ← shift st 1
        .ok (st, true)
  else .ok (st, true)

/-- `advance_rx`. -/
def advance (st : Rx) : Except RxFault (Rx × Bool) := do
  match ← startFrame st with
  | (st, false) => .ok (st, false)
  | (st, true) => do
      let srclen ← u8 st.rxpos
      let destlen ← u8 (unescSize - st.unescPos)
      let (spos, used, unescRx) ←
        unescapeLoop st.rxbuf srclen st.unescPos destlen (srclen + 1) 0 0 st.unescRx
      let st ← shift { st with unescRx := unescRx } spos
      let st ← setUnescPos st (st.unescPos + used)
      .ok (st, used != 0)

/-- The checks `rx` makes before it calls `proc_rx_frame`, and the bytes
they have read when they pass. -/
def checkFrame (st : Rx) : Except RxFault (Option (List Byte)) :=
  if st.unescPos < sricOverhead then .ok none
  else do
    let len ← load outOfBounds st.unescRx sricLen
    if st.unescPos < sricOverhead + len.toNat then .ok none
    else do
      let body ← loads outOfBounds st.unescRx 0 (sricHeaderSize + len.toNat)
      let lo ← load outOfBounds st.unescRx (sricData + len.toNat)
      let hi ← load outOfBounds st.unescRx (sricData + len.toNat + 1)
      if crc16 body ≠ lo.zeroExtend 16 ||| hi.zeroExtend 16 <<< 8 then .ok none
      else .ok (some (body ++ [lo, hi]))

/-- An upper-case hexadecimal digit. -/
def hexDigit (d : Byte) : Byte := if d < 10 then 0x30 + d else 0x37 + d

/-- What `sprintf` writes for the format `" %2.2X"`, end of string included. -/
def hexText (b : Byte) : List Byte := [0x20, hexDigit (b >>> 4), hexDigit (b &&& 0x0F), 0]

/-- The loop of the hex dump, for the `k` bytes from `i` on. -/
def hexLoop (unescRx : List Byte) : Nat → Nat → Nat → List Byte → Except RxFault (List Byte)
  | 0, _, _, foo => .ok foo
  | k + 1, i, pos, foo => do
      let b ← load outOfBounds unescRx i
      let foo ← storeBlock outOfBounds foo pos (hexText b)
      -- `strlen` of the text just written
      hexLoop unescRx k (i + 1) (pos + 3) foo

/-- The hex dump of `proc_rx_frame`, into the buffer it takes from `alloca`. -/
def hexDump (st : Rx) : Except RxFault (List Byte) := do
  let len ← load outOfBounds st.unescRx sricLen
  let foo := List.replicate (sricOverhead + len.toNat * 3 + 16) 0
  -- the string "r:"
  let foo ← storeBlock outOfBounds foo 0 [0x72, 0x3A, 0]
  hexLoop st.unescRx (len.toNat + sricOverhead) 0 2 foo

/-- The `memcpy` of a payload out of `unesc_rx`. -/
def copyPayload (st : Rx) (len : Nat) : Except RxFault (List Byte) := do
  let bytes ← loadBlock outOfBounds st.unescRx sricData len
  let payload ← storeBlock outOfBounds (List.replicate payloadMax 0) 0 bytes
  .ok (payload.take len)

/-- What `proc_rx_frame` reads of `unesc_rx`: nothing but the dump where
the frame is not for us. The copy of the payload, whose first byte is the
note id, is made here for every other frame; the source leaves it out for
an empty note, for an ack nobody waits for and for the ack of a cancelled
frame. -/
def procRxFrame (st : Rx) : Except RxFault (Option PackedFrame) := do
  let _ ← hexDump st
  let dest ← load outOfBounds st.unescRx sricDest
  if dest &&& 0x7F ≠ 1 then .ok none
  else do
    let src ← load outOfBounds st.unescRx sricSrc
    let len ← load outOfBounds st.unescRx sricLen
    let payload ← copyPayload st len.toNat
    .ok (some { destAddress := dest, sourceAddress := src, payload := payload })

/-- The loop of `rx`. A turn that reports work has to have used a byte of
`rxbuf`. -/
def loop : Nat → Rx → Except RxFault (Rx × List (List Byte))
  | 0, _ => .error .endless
  | fuel + 1, st => do
      match ← advance st with
      | (st', false) => .ok (st', [])
      | (st', true) =>
          if st'.rxpos < st.rxpos then do
            match ← checkFrame st' with
            | none => loop fuel st'
            | some f => do
                let _ ← procRxFrame st'
                let (t, fs) ← loop fuel { st' with unescPos := 0 }
                .ok (t, f :: fs)
          else .error .endless

/-- `rx`, when `read` returns `chunk`. -/
def rx (st : Rx) (chunk : List Byte) : Except RxFault (Rx × List (List Byte)) := do
  let st ← readIncoming st chunk
  loop (st.rxpos + 1) st

/-! ## The operations on `rxbuf` -/

theorem setRxpos_ok {st : Rx} {n : Nat} (hn : n ≤ lineBufSize) :
    setRxpos st n = .ok { st with rxpos := n } := by
  rw [setRxpos, atMost_ok hn]
  rfl

theorem setUnescPos_ok {st : Rx} {n : Nat} (hn : n ≤ unescSize) :
    setUnescPos st n = .ok { st with unescPos := n } := by
  rw [setUnescPos, atMost_ok hn]
  rfl

theorem u8_ok {n : Nat} (hn : n ≤ 255) : u8 n = .ok n := atMost_ok hn

theorem shift_ok {st st' : Rx} (h : st.WF) {n : Nat} (hs : st.shift n = some st') :
    shift st n = .ok st' := by
  have hle := h.rxpos_le
  have hbuf := h.rxbuf_length
  rw [Rx.shift] at hs
  split at hs
  · rename_i hn
    cases hs
    have hbytes : (st.rxbuf.drop n).take (st.rxpos - n) = st.unread.drop n := by
      rw [Rx.unread, List.drop_take]
    have hlen : (st.unread.drop n).length = st.rxpos - n := by
      rw [List.length_drop, h.unread_length]
    rw [shift, if_pos hn, loadBlock_ok (by omega), ok_bind, hbytes, storeBlock_ok (by omega),
      ok_bind, setRxpos_ok (by omega)]
    rfl
  · cases hs

/-- The loop stops at the first framing byte. -/
theorem scan_ok {st : Rx} (h : st.WF) {fuel i : Nat} (hi : i ≤ st.rxpos)
    (hfuel : st.rxpos - i < fuel) :
    scan st fuel i = .ok (i + (st.unread.drop i).findIdx isFramingByte) := by
  have hle := h.rxpos_le
  have h140 : lineBufSize = 140 := rfl
  have hbuf := h.rxbuf_length
  have hlen := h.unread_length
  induction fuel generalizing i with
  | zero => omega
  | succ fuel ih =>
      by_cases hlt : i < st.rxpos
      · have hcons : st.unread.drop i = st.rxbuf.getD i 0 :: st.unread.drop (i + 1) := by
          rw [drop_eq_getD_cons (by omega) 0, show st.unread.getD i 0 = st.rxbuf.getD i 0 from
            getD_take hlt 0]
        rw [scan, if_pos hlt, load_ok (by omega) 0, ok_bind, hcons, List.findIdx_cons]
        cases hb : isFramingByte (st.rxbuf.getD i 0) with
        | true => rfl
        | false =>
            simp only [Bool.false_eq_true, if_false, u8_ok (show i + 1 ≤ 255 by omega), ok_bind,
              ih (show i + 1 ≤ st.rxpos by omega) (by omega), cond_false]
            rw [Nat.add_assoc, Nat.add_comm 1]
      · have hnil : st.unread.drop i = [] := List.drop_eq_nil_of_le (by omega)
        rw [scan, if_neg hlt, hnil]
        rfl

theorem shiftFrameStart_ok {st st' : Rx} {found : Bool} (h : st.WF)
    (hs : st.shiftFrameStart = some (st', found)) :
    shiftFrameStart st = .ok (st', found) := by
  have hle := h.rxpos_le
  rw [shiftFrameStart, scan_ok h (Nat.zero_le _) (by omega), ok_bind, Nat.zero_add,
    List.drop_zero]
  rw [Rx.shiftFrameStart] at hs
  by_cases hi : st.unread.findIdx isFramingByte = st.rxpos
  · rw [if_pos hi, setRxpos_ok (Nat.zero_le _)]
    rw [if_pos hi] at hs
    cases hs
    rfl
  · rw [if_neg hi] at hs ⊢
    obtain ⟨st1, hs1, heq⟩ := Option.map_eq_some_iff.mp hs
    cases heq
    rw [shift_ok h hs1]
    rfl

theorem readIncoming_ok {st st' : Rx} (h : st.WF) {chunk : List Byte}
    (hr : st.readIncoming chunk = .ok st') : readIncoming st chunk = .ok st' := by
  have hle := h.rxpos_le
  have hbuf := h.rxbuf_length
  rw [Rx.readIncoming] at hr
  rw [readIncoming]
  split at hr
  · cases hr
  rename_i hroom
  rw [if_neg hroom]
  rw [Rx.space] at hroom
  split at hr
  · cases hr
  rename_i heof
  cases hr
  rw [if_neg heof, storeBlock_ok (by omega), ok_bind, setRxpos_ok (by omega)]
  rfl

/-! ## `advance_rx` -/

theorem ok_positions {spos spos' dpos dpos' : Nat} {dest : List Byte} (hs : spos = spos')
    (hd : dpos = dpos') :
    (.ok (spos, dpos, dest) : Except RxFault _) = .ok (spos', dpos', dest) := by
  rw [hs, hd]

/-- The loop of `unescape` writes one block. -/
theorem unescapeLoop_ok {src dest : List Byte} {srclen start destlen fuel spos dpos : Nat}
    (hsrc : srclen ≤ src.length) (hdest : start + destlen ≤ dest.length) (hs8 : srclen ≤ 255)
    (hd8 : destlen ≤ 255) (hs : spos ≤ srclen) (hd : dpos ≤ destlen)
    (hfuel : srclen - spos < fuel) {k : Nat} {out : List Byte}
    (hu : unescape ((src.take srclen).drop spos) (destlen - dpos) = (k, out)) :
    unescapeLoop src srclen start destlen fuel spos dpos dest
      = .ok (spos + k, dpos + out.length, blit dest (start + dpos) out) := by
  have hlen : (src.take srclen).length = srclen := List.length_take_of_le hsrc
  -- the byte at a position still to be read
  have hnext : ∀ p, p < srclen → (src.take srclen).drop p
      = src.getD p 0 :: (src.take srclen).drop (p + 1) := by
    intro p hp
    rw [drop_eq_getD_cons (by omega) 0, getD_take hp 0]
  induction fuel generalizing spos dpos dest k out with
  | zero => omega
  | succ fuel ih =>
      rw [unescapeLoop]
      by_cases hc : spos < srclen ∧ dpos < destlen
      · obtain ⟨hs', hd'⟩ := hc
        obtain ⟨n, hn⟩ : ∃ n, destlen - dpos = n + 1 := ⟨destlen - dpos - 1, by omega⟩
        rw [if_pos ⟨hs', hd'⟩, load_ok (by omega) 0, ok_bind]
        rw [hnext spos hs', hn] at hu
        have hstore : ∀ x, store outOfBounds dest (start + dpos) x
            = .ok (dest.set (start + dpos) x) := fun x => store_ok (by omega) x
        have hblit : ∀ x w, blit (dest.set (start + dpos) x) (start + (dpos + 1)) w
            = blit dest (start + dpos) (x :: w) := fun x w => blit_set (by omega) x w
        by_cases hb : src.getD spos 0 = 0x7D
        · rw [if_pos hb]
          rw [hb] at hu
          by_cases hend : 1 + spos = srclen
          · rw [List.drop_eq_nil_of_le (by omega)] at hu
            cases hu
            rw [if_pos hend, blit_nil]
            rfl
          · rw [hnext (spos + 1) (by omega), unescape_esc] at hu
            cases hu
            rw [if_neg hend, u8_ok (by omega), ok_bind, load_ok (by omega) 0, ok_bind, hstore,
              ok_bind, u8_ok (by omega), ok_bind, u8_ok (by omega), ok_bind,
              ih (by rw [List.length_set]; exact hdest) (by omega) (by omega) (by omega)
                (by rw [show destlen - (dpos + 1) = n by omega]), hblit]
            exact ok_positions (by omega) (by rw [List.length_cons]; omega)
        · rw [if_neg hb]
          by_cases hf : src.getD spos 0 = 0x7E ∨ src.getD spos 0 = 0x8E
          · rw [unescape_framing (isFramingByte_iff.mpr hf)] at hu
            cases hu
            rw [if_pos hf, blit_nil]
            rfl
          · rw [unescape_plain hb hf] at hu
            cases hu
            rw [if_neg hf, hstore, ok_bind, u8_ok (by omega), ok_bind, u8_ok (by omega), ok_bind,
              ih (by rw [List.length_set]; exact hdest) (by omega) (by omega) (by omega)
                (by rw [show destlen - (dpos + 1) = n by omega]), hblit]
            exact ok_positions (by omega) (by rw [List.length_cons]; omega)
      · have hnil : unescape ((src.take srclen).drop spos) (destlen - dpos) = (0, []) := by
          rcases Nat.lt_or_ge spos srclen with hlt | hge
          · rw [show destlen - dpos = 0 by omega]
            obtain ⟨h1, h2⟩ := unescape_full (u := (src.take srclen).drop spos) rfl
            exact Prod.ext h1 h2
          · rw [List.drop_eq_nil_of_le (by omega)]
            rfl
        rw [hnil] at hu
        cases hu
        rw [if_neg hc, blit_nil]
        rfl

theorem moveOn_ok {st : Rx} (h : st.WF) :
    moveOn st = .ok (if isFramingByte (st.rxbuf.getD 0 0) = true ∨ st.unescPos = unescSize then
      { st with unescPos := 0 } else st) := by
  have hpos : 0 < st.rxbuf.length := by
    rw [h.rxbuf_length]
    exact Nat.lt_add_left _ (by decide : 0 < 70)
  rw [moveOn, load_ok hpos 0, ok_bind]
  split
  · exact setUnescPos_ok (Nat.zero_le _)
  · rfl

theorem startFrame_ok {st st' : Rx} {found : Bool} (h : st.WF)
    (hs : st.startFrame = some (st', found)) : startFrame st = .ok (st', found) := by
  have h70 : unescSize = 70 := rfl
  have h140 : lineBufSize = 140 := rfl
  have hwf : (if isFramingByte (st.rxbuf.getD 0 0) = true ∨ st.unescPos = unescSize then
      { st with unescPos := 0 } else st).WF := by
    split
    · exact h.reset
    · exact h
  rw [startFrame, moveOn_ok h, ok_bind]
  rw [Rx.startFrame] at hs
  revert hs hwf
  generalize (if isFramingByte (st.rxbuf.getD 0 0) = true ∨ st.unescPos = unescSize then
      { st with unescPos := 0 } else st) = st1
  intro hs hwf
  dsimp only at hs
  split at hs
  · rename_i h0
    rw [if_pos h0]
    split at hs
    · cases hs
    · rename_i st2 hst
      cases hs
      rw [shiftFrameStart_ok hwf hst]
      rfl
    · rename_i st2 hst
      obtain ⟨st3, hs3, heq⟩ := Option.map_eq_some_iff.mp hs
      cases heq
      have hwf2 : st2.WF := by
        rcases hwf.shiftFrameStart_eq with ⟨_, hst', -⟩ | ⟨_, hst', hwf2, -⟩
        · cases hst.symm.trans hst'
        · cases hst.symm.trans hst'
          exact hwf2
      have hbuf := hwf2.rxbuf_length
      have hun := hwf2.unescRx_length
      -- the framing byte is copied across
      have hset : st2.unescRx.set 0 (st2.rxbuf.getD 0 0)
          = writeAt st2.unescRx 0 [st2.rxbuf.getD 0 0] := set_eq_blit (by omega) _
      have hwf3 : ({ st2 with unescRx := writeAt st2.unescRx 0 [st2.rxbuf.getD 0 0]
                              unescPos := 1 } : Rx).WF := by
        refine ⟨hbuf, hwf2.rxpos_le, ?_, (by omega : 1 ≤ unescSize)⟩
        rw [← hset, List.length_set]
        exact hun
      rw [shiftFrameStart_ok hwf hst, ok_bind]
      show (load outOfBounds st2.rxbuf 0 >>= _) = _
      rw [load_ok (by omega) 0, ok_bind, store_ok (by omega), ok_bind, hset,
        setUnescPos_ok (by omega), ok_bind, shift_ok hwf3 hs3]
      rfl
  · rename_i h0
    cases hs
    rw [if_neg h0]

/-- `rxbuf_shift` does not touch the frame being assembled. -/
theorem shift_frame {st st' : Rx} {n : Nat} (hs : st.shift n = some st') (w : List Byte) :
    ({ st with unescRx := w } : Rx).shift n = some { st' with unescRx := w }
      ∧ st'.unescRx = st.unescRx ∧ st'.unescPos = st.unescPos := by
  rw [Rx.shift] at hs
  split at hs
  · rename_i hn
    cases hs
    exact ⟨if_pos hn, rfl, rfl⟩
  · cases hs

theorem advance_ok {st st' : Rx} {used : Bool} (h : st.WF) (hf : st.Fresh)
    (ha : st.advance = some (st', used)) : advance st = .ok (st', used) := by
  have h70 : unescSize = 70 := rfl
  have h140 : lineBufSize = 140 := rfl
  rw [Rx.advance] at ha
  rw [advance]
  rcases h.startFrame_eq hf with ⟨st1, hs, -⟩ | ⟨st1, hs, hwf, -, -⟩
  · rw [hs] at ha
    cases ha
    rw [startFrame_ok h hs]
    rfl
  · rw [hs] at ha
    simp only [Rx.unescaped] at ha
    have hle := unescape_le st1.unread (unescSize - st1.unescPos)
    generalize hu : unescape st1.unread (unescSize - st1.unescPos) = p at ha hle
    obtain ⟨k, out⟩ := p
    dsimp only at ha hle
    obtain ⟨st2, hs2, heq⟩ := Option.map_eq_some_iff.mp ha
    cases heq
    have hrx := hwf.rxpos_le
    have hbuf := hwf.rxbuf_length
    have hpos := hwf.unescPos_le
    have hun := hwf.unescRx_length
    have hroom : st1.unescPos + out.length ≤ st1.unescRx.length := by omega
    have hloop : unescapeLoop st1.rxbuf st1.rxpos st1.unescPos (unescSize - st1.unescPos)
        (st1.rxpos + 1) 0 0 st1.unescRx = .ok (k, out.length, blit st1.unescRx st1.unescPos out) := by
      have hu0 : unescape ((st1.rxbuf.take st1.rxpos).drop 0) (unescSize - st1.unescPos - 0)
          = (k, out) := hu
      rw [unescapeLoop_ok (by omega) (by omega) (by omega) (by omega) (Nat.zero_le _)
        (Nat.zero_le _) (by omega) hu0]
      exact ok_positions (Nat.zero_add _) (Nat.zero_add _)
    obtain ⟨hs2', hr2, hp2⟩ := shift_frame hs2 (blit st1.unescRx st1.unescPos out)
    have hwf1 : ({ st1 with unescRx := blit st1.unescRx st1.unescPos out } : Rx).WF :=
      ⟨hbuf, hrx, (length_blit hroom).trans hun, hpos⟩
    rw [startFrame_ok h hs, ok_bind]
    show (u8 st1.rxpos >>= _) = _
    rw [u8_ok (by omega), ok_bind, u8_ok (by omega), ok_bind, hloop, ok_bind]
    show (shift _ k >>= _) = _
    rw [shift_ok hwf1 hs2', ok_bind, setUnescPos_ok (by rw [hp2]; omega), ok_bind, hr2]
    rw [hp2]
    rfl

/-! ## The checks and `proc_rx_frame` -/

theorem checkFrame_ok {st : Rx} (h : st.WF) :
    checkFrame st = .ok (Rx.checkFrame st.assembled) := by
  have h3 : sricLen = 3 := rfl
  have h4 : sricHeaderSize = 4 := rfl
  have h4' : sricData = 4 := rfl
  have h6 : sricOverhead = 6 := rfl
  have h70 : unescSize = 70 := rfl
  have hpos := h.unescPos_le
  have hun := h.unescRx_length
  rw [checkFrame, Rx.checkFrame, h.assembled_length]
  by_cases hs : st.unescPos < sricOverhead
  · rw [if_pos hs, if_pos hs]
  rw [if_neg hs, if_neg hs, load_ok (by omega) 0, ok_bind,
    show st.assembled.getD sricLen 0 = st.unescRx.getD sricLen 0 from getD_take (by omega) 0]
  generalize (st.unescRx.getD sricLen 0).toNat = len
  by_cases hl : st.unescPos < sricOverhead + len
  · simp only [if_pos hl]
  have hbody : st.assembled.take (sricHeaderSize + len) = st.unescRx.take (sricHeaderSize + len) := by
    rw [Rx.assembled, List.take_take, Nat.min_eq_left (by omega)]
  have hget : ∀ i, i < st.unescPos → st.assembled.getD i 0 = st.unescRx.getD i 0 :=
    fun i hi => getD_take hi 0
  have hframe : st.assembled.take (sricOverhead + len) = st.unescRx.take (sricHeaderSize + len)
      ++ [st.unescRx.getD (sricData + len) 0, st.unescRx.getD (sricData + len + 1) 0] := by
    rw [show sricOverhead + len = sricHeaderSize + len + 2 by omega,
      take_add_two (by rw [h.assembled_length]; omega) 0, hbody, hget _ (by omega),
      hget _ (by omega)]
  simp only [if_neg hl]
  rw [loads_ok (by omega), ok_bind, load_ok (by omega) 0, ok_bind, load_ok (by omega) 0, ok_bind,
    List.drop_zero, hbody, hframe, hget _ (by omega), hget _ (by omega)]
  split <;> rfl

/-- The hex dump takes three characters a byte, and one more at the end. -/
theorem hexLoop_ok {unescRx foo : List Byte} {k i pos : Nat} (hi : i + k ≤ unescRx.length)
    (hpos : pos + 3 * k + 1 ≤ foo.length) : ∃ foo', hexLoop unescRx k i pos foo = .ok foo' := by
  induction k generalizing i pos foo with
  | zero => exact ⟨foo, rfl⟩
  | succ k ih =>
      have hroom : ∀ b, pos + (hexText b).length ≤ foo.length := by
        intro b
        show pos + 4 ≤ foo.length
        omega
      rw [hexLoop, load_ok (by omega) 0, ok_bind, storeBlock_ok (hroom _), ok_bind]
      exact ih (by omega) (by rw [length_blit (hroom _)]; omega)

theorem hexDump_ok {st : Rx} (h : st.WF) (hlen : (st.unescRx.getD sricLen 0).toNat ≤ payloadMax) :
    ∃ foo, hexDump st = .ok foo := by
  have h3 : sricLen = 3 := rfl
  have h6 : sricOverhead = 6 := rfl
  have h64 : payloadMax = 64 := rfl
  have h70 : unescSize = 70 := rfl
  have hun := h.unescRx_length
  rw [hexDump, load_ok (by omega) 0, ok_bind]
  generalize (st.unescRx.getD sricLen 0).toNat = len at hlen
  have hroom : 0 + [(0x72 : Byte), 0x3A, 0].length
      ≤ (List.replicate (sricOverhead + len * 3 + 16) (0 : Byte)).length := by
    rw [List.length_replicate]
    show 3 ≤ _
    omega
  show ∃ foo, (storeBlock outOfBounds (List.replicate _ 0) 0 [0x72, 0x3A, 0] >>= _) = .ok foo
  rw [storeBlock_ok hroom, ok_bind]
  exact hexLoop_ok (by omega) (by rw [length_blit hroom, List.length_replicate]; omega)

theorem copyPayload_ok {st : Rx} (h : st.WF) {len : Nat} (hlen : len ≤ payloadMax) :
    copyPayload st len = .ok ((st.unescRx.drop sricData).take len) := by
  have h4 : sricData = 4 := rfl
  have h64 : payloadMax = 64 := rfl
  have h70 : unescSize = 70 := rfl
  have hun := h.unescRx_length
  have hbytes : ((st.unescRx.drop sricData).take len).length = len := by
    rw [List.length_take, List.length_drop]
    omega
  have hcopy : (blit (List.replicate payloadMax 0) 0 ((st.unescRx.drop sricData).take len)).take len
      = (st.unescRx.drop sricData).take len :=
    take_blit (Nat.zero_le _) (by omega)
  rw [copyPayload, loadBlock_ok (by omega), ok_bind,
    storeBlock_ok (by rw [hbytes, List.length_replicate]; omega), ok_bind, hcopy]

/-- A frame that passes the checks is no longer than `unesc_rx`, and its
bytes are still there. -/
theorem frame_of_check {st : Rx} (h : st.WF) {f : List Byte}
    (hc : Rx.checkFrame st.assembled = some f) :
    f = st.unescRx.take (sricOverhead + (f.getD sricLen 0).toNat)
      ∧ st.unescRx.getD sricLen 0 = f.getD sricLen 0
      ∧ (f.getD sricLen 0).toNat ≤ payloadMax := by
  have h3 : sricLen = 3 := rfl
  have h6 : sricOverhead = 6 := rfl
  have h64 : payloadMax = 64 := rfl
  have h70 : unescSize = 70 := rfl
  have hpos := h.unescPos_le
  have hlen := checkFrame_length hc
  obtain ⟨-, w, hw⟩ := checkFrame_isFrame hc
  have hle : f.length ≤ st.unescPos := by
    rw [← h.assembled_length, ← hw, List.length_append]
    omega
  have htake : f = st.unescRx.take f.length := by
    calc
      f = st.assembled.take f.length := by rw [← hw, List.take_left]
      _ = st.unescRx.take f.length := by
        rw [Rx.assembled, List.take_take, Nat.min_eq_left hle]
  have hget : st.unescRx.getD sricLen 0 = f.getD sricLen 0 := by
    rw [htake, getD_take (by omega)]
  have hsame : st.assembled.getD sricLen 0 = f.getD sricLen 0 := by
    rw [← hget]
    exact getD_take (by omega) 0
  rw [hsame] at hlen
  rw [← hlen]
  exact ⟨htake, hget, by omega⟩

/-- **`proc_rx_frame` stays in bounds** on a frame that passes the checks,
and reads what the cast of `&unesc_rx[1]` shows. -/
theorem procRxFrame_ok {st : Rx} (h : st.WF) {f : List Byte}
    (hc : Rx.checkFrame st.assembled = some f) :
    procRxFrame st
      = .ok (if (PackedFrame.ofBytes f).forMe then some (PackedFrame.ofBytes f) else none) := by
  have h1 : sricDest = 1 := rfl
  have h2 : sricSrc = 2 := rfl
  have h3 : sricLen = 3 := rfl
  have h4 : sricData = 4 := rfl
  have h6 : sricOverhead = 6 := rfl
  have h70 : unescSize = 70 := rfl
  have hun := h.unescRx_length
  obtain ⟨htake, hget, hlen⟩ := frame_of_check h hc
  obtain ⟨foo, hfoo⟩ := hexDump_ok h (by rw [hget]; exact hlen)
  have hview : PackedFrame.ofBytes f
      = { destAddress := st.unescRx.getD sricDest 0
          sourceAddress := st.unescRx.getD sricSrc 0
          payload := (st.unescRx.drop sricData).take (f.getD sricLen 0).toNat } := by
    have hsame : ∀ i, i < sricOverhead → f.getD i 0 = st.unescRx.getD i 0 := by
      intro i hi
      rw [htake, getD_take (by omega)]
    have hpay : (f.drop sricData).take (f.getD sricLen 0).toNat
        = (st.unescRx.drop sricData).take (f.getD sricLen 0).toNat := by
      generalize (f.getD sricLen 0).toNat = len at htake
      rw [htake, List.drop_take, List.take_take, Nat.min_eq_left (by omega)]
    rw [PackedFrame.ofBytes, hsame _ (by omega), hsame _ (by omega), hpay]
  rw [hview, procRxFrame, hfoo, ok_bind, load_ok (by omega) 0, ok_bind]
  by_cases hme : st.unescRx.getD sricDest 0 &&& 0x7F = 1
  · rw [if_neg (not_not.mpr hme), load_ok (by omega) 0, ok_bind, load_ok (by omega) 0, ok_bind,
      hget, copyPayload_ok h hlen, ok_bind, if_pos (by simpa [PackedFrame.forMe] using hme)]
  · rw [if_pos hme, if_neg (by simpa [PackedFrame.forMe] using hme)]

/-! ## The loop and the callback -/

/-- **The loop stays in bounds**, ends, and does what the loop of `rx` does. -/
theorem loop_ok {fuel : Nat} {st st' : Rx} {fs : List (List Byte)} (h : st.WF) (hf : st.Fresh)
    (hl : st.loop fuel = some (st', fs)) :
    loop fuel st = .ok (st', fs) ∧ ∀ f ∈ fs, (f.getD sricLen 0).toNat ≤ payloadMax := by
  induction fuel generalizing st fs with
  | zero => cases hl
  | succ fuel ih =>
      rcases h.loop_cases hf hl with ⟨ha, rfl⟩ | ⟨st1, fs1, ha, hwf, hfr, hlt, hl1, rfl⟩
      · rw [loop, advance_ok h hf ha, ok_bind]
        exact ⟨rfl, fun f hm => absurd hm List.not_mem_nil⟩
      · rw [loop, advance_ok h hf ha, ok_bind]
        obtain ⟨hrest, hlens⟩ := ih hwf.settle hfr.settle hl1
        show (if st1.rxpos < st.rxpos then _ else _) = _ ∧ _
        rw [if_pos hlt, checkFrame_ok hwf, ok_bind]
        cases hc : Rx.checkFrame st1.assembled with
        | none =>
            rw [Rx.settle, hc] at hrest
            exact ⟨hrest, hlens⟩
        | some f =>
            rw [Rx.settle, hc] at hrest
            constructor
            · show (procRxFrame st1 >>= _) = _
              rw [procRxFrame_ok hwf hc, ok_bind, hrest]
              rfl
            · intro g hg
              rcases List.mem_cons.mp hg with rfl | hg
              · exact (frame_of_check hwf hc).2.2
              · exact hlens g hg

/-- A read leaves the buffer fresh also where there was no room for it. -/
theorem read_returns {st : Rx} (h : st.WF) {chunk : List Byte} (hroom : chunk.length ≤ st.space)
    (heof : chunk = [] → st.space = 0) :
    ∃ st', st.readIncoming chunk = .ok st' ∧ st'.WF ∧ st'.Fresh := by
  by_cases hne : chunk = []
  · have hfull := heof hne
    subst hne
    have hsame : st.readIncoming [] = .ok st := by
      rw [Rx.readIncoming, if_neg (Nat.not_lt.mpr hroom), if_neg (fun hx => hx.2 hfull)]
      show Except.ok ({ st with rxbuf := blit st.rxbuf st.rxpos [] } : Rx) = _
      rw [blit_nil]
    refine ⟨st, hsame, h, ?_⟩
    intro h0
    rw [Rx.space, h0] at hfull
    cases hfull
  · obtain ⟨st', hr, hwf, hu, -⟩ := h.readIncoming_eq hne hroom
    exact ⟨st', hr, hwf, fresh_of_read hwf hne hu⟩

/-- **The callback stays in bounds.** -/
theorem rx_ok {st : Rx} (h : st.WF) {chunk : List Byte} (hroom : chunk.length ≤ st.space)
    (heof : chunk = [] → st.space = 0) :
    ∃ st' fs, rx st chunk = .ok (st', fs) ∧ Sricd.rx st chunk = .ok (st', fs) ∧ st'.WF
      ∧ ∀ f ∈ fs, (f.getD sricLen 0).toNat ≤ payloadMax := by
  obtain ⟨st1, hr, hwf, hfr⟩ := read_returns h hroom heof
  obtain ⟨st', fs, hl, hwf'⟩ := hwf.loop_returns hfr (Nat.lt_succ_self _)
  obtain ⟨hok, hlens⟩ := loop_ok hwf hfr hl
  refine ⟨st', fs, ?_, ?_, hwf', hlens⟩
  · rw [rx, readIncoming_ok h hr]
    exact hok
  · rw [Sricd.rx, hr]
    simp only [hl]

/-- **When the callback does not return**: the `read` is not one that could
have been made, or the port is at its end. -/
theorem rx_error_iff {st : Rx} (h : st.WF) {chunk : List Byte} {x : Halt} :
    Sricd.rx st chunk = .error x
      ↔ x = .disabled ∧ st.space < chunk.length ∨ x = .exit ∧ chunk = [] ∧ st.space ≠ 0 := by
  by_cases hroom : st.space < chunk.length
  · rw [Sricd.rx, Rx.readIncoming, if_pos hroom]
    have hne : chunk ≠ [] := by
      rintro rfl
      cases hroom
    simp [hroom, hne, eq_comm]
  · by_cases heof : chunk = [] → st.space = 0
    · obtain ⟨st', fs, -, hr, -⟩ := rx_ok h (Nat.le_of_not_gt hroom) heof
      rw [hr]
      simp only [reduceCtorEq, false_iff]
      rintro (hx | hx)
      · exact hroom hx.2
      · exact hx.2.2 (heof hx.2.1)
    · obtain ⟨rfl, hspace⟩ := Classical.not_imp.mp heof
      rw [Sricd.rx, Rx.readIncoming, if_neg hroom, if_pos ⟨rfl, hspace⟩]
      simp [hspace, eq_comm]

/-- What the callback finds is short. -/
theorem rx_short {st st' : Rx} (h : st.WF) {chunk : List Byte} {fs : List (List Byte)}
    (hr : Sricd.rx st chunk = .ok (st', fs)) :
    st'.WF ∧ ∀ f ∈ fs, (f.getD sricLen 0).toNat ≤ payloadMax := by
  have hroom : chunk.length ≤ st.space := by
    by_contra hlt
    cases hr.symm.trans ((rx_error_iff h).mpr (.inl ⟨rfl, Nat.lt_of_not_ge hlt⟩))
  have heof : chunk = [] → st.space = 0 := by
    intro hnil
    by_contra hspace
    cases hr.symm.trans ((rx_error_iff h).mpr (.inr ⟨rfl, hnil, hspace⟩))
  obtain ⟨st2, fs2, -, hr2, hwf, hshort⟩ := rx_ok h hroom heof
  cases hr.symm.trans hr2
  exact ⟨hwf, hshort⟩

/-- What is read fits into the free space of `rxbuf`. -/
def Roomy (st : Rx) (chunk : List Byte) : Prop := chunk.length ≤ st.space

instance (st : Rx) (chunk : List Byte) : Decidable (Roomy st chunk) :=
  inferInstanceAs (Decidable (_ ≤ _))

/-- A step of a run: the callback does what `rx` does, or the port is
at its end. -/
theorem step_ok {st : Rx} (h : st.WF) {chunk : List Byte} (hroom : Roomy st chunk) :
    (∃ st' fs, rx st chunk = .ok (st', fs) ∧ Sricd.rx st chunk = .ok (st', fs) ∧ st'.WF
        ∧ ∀ f ∈ fs, (f.getD sricLen 0).toNat ≤ payloadMax)
      ∨ chunk = [] ∧ rx st chunk = .error (.halt .exit) := by
  by_cases heof : chunk = [] → st.space = 0
  · exact .inl (rx_ok h hroom heof)
  · obtain ⟨rfl, hspace⟩ := Classical.not_imp.mp heof
    refine .inr ⟨rfl, ?_⟩
    rw [rx, readIncoming, if_neg (Nat.not_lt.mpr hroom), if_pos ⟨rfl, hspace⟩]
    rfl

/-- A run of the callback. -/
theorem run_ok {st : Rx} {chunks : List (List Byte)} (h : st.WF)
    (hroom : Along rx Roomy st chunks) :
    (∃ st' fs, run rx st chunks = .ok (st', fs) ∧ run Sricd.rx st chunks = .ok (st', fs) ∧ st'.WF
        ∧ ∀ f ∈ fs, (f.getD sricLen 0).toNat ≤ payloadMax)
      ∨ [] ∈ chunks ∧ run rx st chunks = .error (.halt .exit) := by
  induction chunks generalizing st with
  | nil => exact .inl ⟨st, [], rfl, rfl, h, fun f hm => absurd hm List.not_mem_nil⟩
  | cons chunk chunks ih =>
      rcases step_ok h hroom.1 with ⟨st1, fs1, hm, hr, hwf, hlens⟩ | ⟨rfl, hm⟩
      · rcases ih hwf (hroom.2 st1 fs1 hm) with ⟨st2, fs2, hm2, hr2, hwf2, hlens2⟩ | ⟨hin, hm2⟩
        · refine .inl ⟨st2, fs1 ++ fs2, run_cons_ok.mpr ⟨st1, fs1, fs2, hm, hm2, rfl⟩,
            run_cons_ok.mpr ⟨st1, fs1, fs2, hr, hr2, rfl⟩, hwf2, ?_⟩
          intro f hf
          rcases List.mem_append.mp hf with hf | hf
          · exact hlens f hf
          · exact hlens2 f hf
        · exact .inr ⟨List.mem_cons_of_mem _ hin, by simp only [run, hm, hm2]⟩
      · exact .inr ⟨List.mem_cons_self, by simp only [run, hm]⟩

/-- **The receive path is in bounds and ends**, for every stream and every
cutting into reads: only the end of the stream keeps the callback from
returning, and it computes what `rx` computes, with the positions inside
their buffers and no frame longer than a payload can be. -/
theorem receives_in_bounds {chunks : List (List Byte)} (hroom : Along rx Roomy .init chunks) :
    (∀ e, run rx .init chunks = .error e → e = .halt .exit ∧ [] ∈ chunks)
      ∧ ∀ st fs, run rx .init chunks = .ok (st, fs) →
        run Sricd.rx .init chunks = .ok (st, fs)
          ∧ st.rxpos ≤ lineBufSize ∧ st.unescPos ≤ unescSize
          ∧ ∀ f ∈ fs, (f.getD sricLen 0).toNat ≤ payloadMax := by
  rcases run_ok Rx.wf_init hroom with ⟨st', fs', hm, hr, hwf, hlens⟩ | ⟨hin, hm⟩
  · constructor
    · intro e he
      cases hm.symm.trans he
    · intro st fs hok
      cases hm.symm.trans hok
      exact ⟨hr, hwf.rxpos_le, hwf.unescPos_le, hlens⟩
  · constructor
    · intro e he
      cases hm.symm.trans he
      exact ⟨rfl, hin⟩
    · intro st fs hok
      cases hm.symm.trans hok

/-- A note in two reads, the second with its payload and checksum. -/
theorem receives_in_bounds_two_reads : ∃ st,
    run rx .init [[0x7E, 0x01, 0x05, 0x01], [0x07, 0xA2, 0x5A]]
        = .ok (st, [[0x7E, 0x01, 0x05, 0x01, 0x07, 0xA2, 0x5A]])
      ∧ run Sricd.rx .init [[0x7E, 0x01, 0x05, 0x01], [0x07, 0xA2, 0x5A]]
        = .ok (st, [[0x7E, 0x01, 0x05, 0x01, 0x07, 0xA2, 0x5A]])
      ∧ st.rxpos ≤ lineBufSize ∧ st.unescPos ≤ unescSize := by
  have hroom : Along rx Roomy .init [[0x7E, 0x01, 0x05, 0x01], [0x07, 0xA2, 0x5A]] := by
    decide +kernel
  obtain ⟨⟨st, fs⟩, hr, hfs⟩ := ok_of_any
    (r := run rx .init [[0x7E, 0x01, 0x05, 0x01], [0x07, 0xA2, 0x5A]])
    (p := fun r => r.2 == [[0x7E, 0x01, 0x05, 0x01, 0x07, 0xA2, 0x5A]]) (by decide +kernel)
  obtain rfl : fs = _ := eq_of_beq hfs
  obtain ⟨hsame, hpos, hunesc, -⟩ := (receives_in_bounds hroom).2 st _ hr
  exact ⟨st, hr, hsame, hpos, hunesc⟩

end RxMemory

end Sricd
