import Sricd.Crc16
import Sricd.Escape
import Sricd.Lib.Run

/-!
# The receiver

The receive half of `sric-if.c`: `rxbuf` with the bytes straight from the
serial port, `unesc_rx` with the frame being assembled, and the callback
that runs when the port is readable. The buffers are whole arrays, stale
bytes included, because `advance_rx` looks at `rxbuf[0]` also when the
buffer is empty.
-/

namespace Sricd

open Sricd.Lib

/-- Why a callback does not return to the main loop. -/
inductive Halt where
  /-- not a callback that can run here -/
  | disabled
  /-- `exit (1)` -/
  | exit
  /-- a failing `assert` or `g_assert` -/
  | assertion
  /-- an access outside an array -/
  | outOfBounds
  /-- a call through a pointer to no live client -/
  | badPointer
deriving DecidableEq, Repr

/-- The receive buffers, with `rxpos` and `unesc_pos`. -/
structure Rx where
  rxbuf : List Byte
  rxpos : Nat
  unescRx : List Byte
  unescPos : Nat
deriving DecidableEq

namespace Rx

/-- The static initial values. -/
def init : Rx where
  rxbuf := List.replicate lineBufSize 0
  rxpos := 0
  unescRx := List.replicate unescSize 0
  unescPos := 0

/-- The bytes read but not yet used. -/
def unread (st : Rx) : List Byte := st.rxbuf.take st.rxpos

/-- The frame assembled so far. -/
def assembled (st : Rx) : List Byte := st.unescRx.take st.unescPos

/-- The free space of `rxbuf`. -/
def space (st : Rx) : Nat := lineBufSize - st.rxpos

/-- `rxbuf_shift`; `none` is its `g_assert`. -/
def shift (st : Rx) (n : Nat) : Option Rx :=
  if n ≤ st.rxpos then
    some { st with rxbuf := writeAt st.rxbuf 0 (st.unread.drop n)
                   rxpos := st.rxpos - n }
  else none

/-- `rxbuf_shift_frame_start`. -/
def shiftFrameStart (st : Rx) : Option (Rx × Bool) :=
  let i := st.unread.findIdx isFramingByte
  if i = st.rxpos then some ({ st with rxpos := 0 }, false)
  else (st.shift i).map fun st => (st, true)

/-- `read_incoming`, for a `read` that returns `chunk`. -/
def readIncoming (st : Rx) (chunk : List Byte) : Except Halt Rx :=
  if chunk.length > st.space then .error .disabled
  else if chunk.length = 0 ∧ st.space ≠ 0 then .error .exit
  else .ok { st with rxbuf := writeAt st.rxbuf st.rxpos chunk
                     rxpos := st.rxpos + chunk.length }

/-- The first half of `advance_rx`: move on to the next frame where the
current one is over, and copy its framing byte across. `false` is the
early return without a frame to process. -/
def startFrame (st : Rx) : Option (Rx × Bool) :=
  let st :=
    if isFramingByte (st.rxbuf.getD 0 0) = true ∨ st.unescPos = unescSize then
      { st with unescPos := 0 }
    else st
  if st.unescPos = 0 then
    match st.shiftFrameStart with
    | none => none
    | some (st, false) => some (st, false)
    | some (st, true) =>
        let st := { st with unescRx := writeAt st.unescRx 0 [st.rxbuf.getD 0 0]
                            unescPos := 1 }
        (st.shift 1).map fun st => (st, true)
  else some (st, true)

/-- The call `advance_rx` makes of `unescape`. -/
def unescaped (st : Rx) : Nat × List Byte :=
  unescape st.unread (unescSize - st.unescPos)

/-- `advance_rx`. -/
def advance (st : Rx) : Option (Rx × Bool) :=
  match st.startFrame with
  | none => none
  | some (st, false) => some (st, false)
  | some (st, true) =>
      let (spos, dest) := st.unescaped
      (st.shift spos).map fun st =>
        ({ st with unescRx := writeAt st.unescRx st.unescPos dest
                   unescPos := st.unescPos + dest.length },
         dest.length != 0)

/-- The frame at the start of some unescaped bytes, when the checks that
`rx` makes before it calls `proc_rx_frame` all pass. -/
def checkFrame (unesc : List Byte) : Option (List Byte) :=
  if unesc.length < sricOverhead then none
  else
    let len := (unesc.getD sricLen 0).toNat
    if unesc.length < sricOverhead + len then none
    else
      let crc := crc16 (unesc.take (sricHeaderSize + len))
      let recvCrc := (unesc.getD (sricData + len) 0).zeroExtend 16
        ||| (unesc.getD (sricData + len + 1) 0).zeroExtend 16 <<< 8
      if crc ≠ recvCrc then none else some (unesc.take (sricOverhead + len))

/-- The loop of `rx`. The frames handed to `proc_rx_frame` are collected
in order, each with the bytes of `unesc_rx` it occupies. -/
def loop : Nat → Rx → Option (Rx × List (List Byte))
  | 0, _ => none
  | fuel + 1, st =>
      match st.advance with
      | none => none
      | some (st, false) => some (st, [])
      | some (st, true) =>
          match checkFrame st.assembled with
          | none => loop fuel st
          | some f =>
              match loop fuel { st with unescPos := 0 } with
              | none => none
              | some (st, fs) => some (st, f :: fs)

end Rx

/-- `rx`, the callback for a readable serial port, when `read` returns
`chunk`. Every turn of its loop but the last uses a byte of `rxbuf`, so
`rxpos + 1` turns are enough (`rx_returns`). -/
def rx (st : Rx) (chunk : List Byte) : Except Halt (Rx × List (List Byte)) :=
  match st.readIncoming chunk with
  | .error h => .error h
  | .ok st =>
      match st.loop (st.rxpos + 1) with
      | none => .error .assertion
      | some (st, fs) => .ok (st, fs)

end Sricd
