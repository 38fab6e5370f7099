import Mathlib.Tactic.Common

/-!
# Frames

The data that crosses the modules of the daemon: bytes, the layout of a
frame on the bus, the `frame_t` entries of the transmit queue, and the
`frame` and `packed_frame_t` views of a received frame.
-/

namespace Sricd

abbrev Byte := BitVec 8

/-- `PAYLOAD_MAX` and `FRAME_PAYLOAD_MAX`. -/
abbrev payloadMax : Nat := 64

/-- `SRIC_HEADER_SIZE`, the framing byte included. -/
abbrev sricHeaderSize : Nat := 4

/-- `SRIC_OVERHEAD`: the header and the two CRC bytes. -/
abbrev sricOverhead : Nat := sricHeaderSize + 2

/-- `sizeof (txbuf)` and `sizeof (rxbuf)`: a frame with every byte escaped. -/
abbrev lineBufSize : Nat := (sricOverhead + payloadMax) * 2

/-- `sizeof (unesc_rx)`. -/
abbrev unescSize : Nat := sricOverhead + payloadMax

/-! Offsets of the fields of a frame: `SRIC_DEST` to `SRIC_DATA`. -/

abbrev sricDest : Nat := 1
abbrev sricSrc : Nat := 2
abbrev sricLen : Nat := 3
abbrev sricData : Nat := 4

/-- `is_framing_byte`. -/
def isFramingByte (x : Byte) : Bool := x == 0x7E || x == 0x8E

/-- `frame_type_t`: frames for the bus, and frames that configure the
gateway. -/
inductive FrameType where
  | sric
  | gwConf
deriving DecidableEq, Repr

def FrameType.byte : FrameType → Byte
  | .sric => 0x7E
  | .gwConf => 0x8E

@[simp] theorem FrameType.byte_framing (t : FrameType) :
    isFramingByte t.byte = true := by
  cases t <;> rfl

/-- The `void *tag` of a queued frame: `NULL` for the daemon's own
responses, `BAD_ENUM_TAG` for an enumeration frame that wants an ack, or
the client the frame came from. -/
inductive Tag where
  | null
  | badEnum
  | client (c : Nat)
deriving DecidableEq, Repr

/-- `frame_t`. The array `payload` holds `payload_length` bytes, and the
bound of the array is part of the type. -/
structure FrameT where
  type : FrameType
  address : Nat
  tag : Tag
  payload : List Byte
  payload_le : payload.length ≤ payloadMax
deriving DecidableEq

/-- `address & 0x80`: the frame is itself an ack. -/
def FrameT.isAck (f : FrameT) : Bool := f.address.testBit 7

/-- The sender of this frame waits for an ack: `if_tx` arms the
retransmission timer for it. -/
def FrameT.needsAck (f : FrameT) : Bool := f.tag != .null && !f.isAck

/-- `frame`: what is handed to a client. -/
structure Frame where
  sourceAddress : Byte
  destAddress : Byte
  note : Byte
  payload : List Byte
deriving DecidableEq, Repr

/-- `packed_frame_t`: the view of `unesc_rx` from its destination byte on. -/
structure PackedFrame where
  destAddress : Byte
  sourceAddress : Byte
  payload : List Byte
deriving DecidableEq, Repr

/-- The cast of `&unesc_rx[1]`; `payload` is the `payload_len` bytes that
are in use. -/
def PackedFrame.ofBytes (unesc : List Byte) : PackedFrame where
  destAddress := unesc.getD sricDest 0
  sourceAddress := unesc.getD sricSrc 0
  payload := (unesc.drop sricData).take (unesc.getD sricLen 0).toNat

/-- `frame_for_me`. -/
def PackedFrame.forMe (f : PackedFrame) : Bool := f.destAddress &&& 0x7F == 1

/-- `frame_is_ack`. -/
def PackedFrame.isAck (f : PackedFrame) : Bool := f.destAddress &&& 0x80 != 0

/-- `source_address & 0x7F`, as an index. -/
def PackedFrame.source (f : PackedFrame) : Nat := (f.sourceAddress &&& 0x7F).toNat

end Sricd
