import Sricd.Encoding
import Sricd.Lib.MainLoop
import Sricd.OutputQueue
import Sricd.Rx
import Sricd.SricEnum

/-!
# The serial interface

The transmit half of `sric-if.c`, with the queue and the enumeration it
drives: every callback as a function on the static variables. What leaves
the module (bytes for the serial port, calls into the rest of the daemon)
is its output.
-/

namespace Sricd

open Sricd.Lib

/-- The event sources of the module. -/
inductive Source where
  /-- the write watch of `sric_if_tx_ready` -/
  | ifTx
  /-- the retransmission timeout of `if_tx` -/
  | txTimeout
  /-- a timeout of the enumeration -/
  | enum (t : EnumTimer)
deriving DecidableEq, Repr

/-- What leaves the module. -/
inductive IfOut where
  /-- `write` to the serial port -/
  | wrote (bytes : List Byte)
  /-- `free` of an allocated `frame_t` -/
  | free (ptr : Nat)
  /-- `client_push_rx` -/
  | pushRx (tag : Tag) (f : Frame)
  /-- `device_dispatch_note` -/
  | note (f : Frame)
  /-- `device_add` -/
  | deviceAdd (address : Nat) (type : Byte)
  /-- `ipc_listen` -/
  | listen
deriving DecidableEq

/-- The static variables of `sric-if.c` on the transmit side, those of the
modules below it, and the main loop. -/
structure SricIf where
  loop : MainLoop Source
  txq : TxQueue
  enum : Enum
  writeSrcid : Nat
  txFrame : Option TxEntry
  txbuf : List Byte
  txlen : Nat
  txpos : Nat
  enumerated : Bool
  retxmitTimeoutId : Nat
  frameCancelled : Bool

namespace SricIf

/-- The static initial values. -/
def init : SricIf where
  loop := .empty
  txq := .init
  enum := .init
  writeSrcid := 0
  txFrame := none
  txbuf := List.replicate lineBufSize 0
  txlen := 0
  txpos := 0
  enumerated := false
  retxmitTimeoutId := 0
  frameCancelled := false

/-- `sric_if_tx_ready`. -/
def txReady (s : SricIf) : SricIf :=
  if s.writeSrcid = 0 then
    { s with loop := s.loop.add .ifTx, writeSrcid := s.loop.nextId }
  else s

/-- `txq_push`. -/
def txqPush (s : SricIf) (f : FrameT) (pri : Fin 2) : SricIf :=
  { s with txq := s.txq.push f pri }.txReady

/-- `sric_if_cancel`. -/
def ifCancel (s : SricIf) (tag : Tag) : SricIf :=
  if (s.txFrame.map fun e => e.frame.tag) = some tag then { s with frameCancelled := true }
  else s

/-- `txq_cancel`. -/
def txqCancel (s : SricIf) (tag : Tag) : SricIf × List IfOut :=
  let (txq, freed) := s.txq.cancel tag
  ({ s with txq := txq }.ifCancel tag, freed.map .free)

/-- `next_tx`; `none` is its `g_assert`. -/
def nextTx (s : SricIf) : Option (SricIf × Bool) :=
  match s.txq.next (if s.enumerated then 1 else 0) with
  | none => some ({ s with txFrame := none }, false)
  | some (e, txq) =>
      (buildFrame s.txbuf e.frame).map fun (buf, len) =>
        ({ s with
            txq := txq
            txFrame := some e
            frameCancelled := false
            txbuf := buf
            txlen := len
            txpos := 0 }, true)

/-- What `if_tx` does after its `write` has taken `w` bytes; `true` when
the watch is kept. -/
def written (s : SricIf) (w : Nat) : SricIf × Bool :=
  let s := { s with txpos := s.txpos + w }
  if s.txpos ≠ s.txlen then (s, true)
  else if (s.txFrame.map fun e => e.frame.needsAck) = some true then
    ({ s with
        loop := s.loop.add .txTimeout
        retxmitTimeoutId := s.loop.nextId
        writeSrcid := 0 }, false)
  else ({ s with txFrame := none }, true)

/-- The `write` of `if_tx` and what follows, when it takes `w` bytes, or
fails (`none`). -/
def send (s : SricIf) : Option Nat → Except Halt (SricIf × List IfOut × Bool)
  | none => .error .exit
  | some w =>
      if w > s.txlen - s.txpos then .error .disabled
      else
        let (s', keep) := s.written w
        .ok (s', [.wrote ((s.txbuf.drop s.txpos).take w)], keep)

/-- `if_tx` with nothing to write. -/
def empty (s : SricIf) : Except Halt (SricIf × List IfOut × Bool) :=
  .ok ({ s with writeSrcid := 0 }, [], false)

/-- `if_tx`. -/
def ifTx (s : SricIf) (w : Option Nat) : Except Halt (SricIf × List IfOut × Bool) :=
  -- transmitted, and no ack yet: another frame was queued meanwhile
  if s.txFrame.isSome ∧ s.txpos = s.txlen then s.empty
  else if s.txFrame.isSome then s.send w
  else
    match s.nextTx with
    | none => .error .assertion
    | some (s, false) => s.empty
    | some (s, true) => s.send w

/-- `free (tx_frame); tx_frame = NULL`. -/
def freeTxFrame (s : SricIf) : SricIf × List IfOut :=
  ({ s with txFrame := none }, (s.txFrame.map fun e => IfOut.free e.ptr).toList)

/-- `tx_timeout`. -/
def txTimeout (s : SricIf) : SricIf × List IfOut :=
  let (s, out) := if s.frameCancelled then s.freeTxFrame else (s, [])
  ({ s with txpos := 0 }.txReady, out)

/-- What the enumeration asked for. -/
def act (s : SricIf) : EnumAction → SricIf × List IfOut
  | .push f => (s.txqPush f 0, [])
  | .addTimer t => ({ s with loop := s.loop.add (.enum t) }, [])
  | .deviceAdd i t => (s, [.deviceAdd i t])

def acts (s : SricIf) : List EnumAction → SricIf × List IfOut
  | [] => (s, [])
  | a :: as =>
      let (s, out) := s.act a
      let (s, outs) := acts s as
      (s, out ++ outs)

/-- The ack that `proc_rx_frame` queues for a frame. -/
def ackFor (f : PackedFrame) : FrameT where
  type := .sric
  address := (f.sourceAddress ||| 0x80).toNat
  tag := .null
  payload := []
  payload_le := Nat.zero_le _

/-- The `frame` that a note, or a response, is passed on as. -/
def frameOf (f : PackedFrame) (note : Byte) : Frame where
  sourceAddress := f.sourceAddress &&& 0x7F
  destAddress := f.destAddress &&& 0x7F
  note := note
  payload := f.payload

/-- `proc_rx_frame`, on an ack for us while a frame is in flight. -/
def retire (s : SricIf) (e : TxEntry) (f : PackedFrame) :
    Except Halt (SricIf × List IfOut) :=
  let s := { s with loop := s.loop.remove s.retxmitTimeoutId, retxmitTimeoutId := 0 }.txReady
  if s.frameCancelled then .ok s.freeTxFrame
  else if s.enumerated then
    let (s, out) := s.freeTxFrame
    .ok (s, .pushRx e.frame.tag (frameOf f 0) :: out)
  else
    match s.enum.rx f with
    | none => .error .exit
    | some (enum, as, more) =>
        let (s, out) := { s with enum := enum }.acts as
        let (s, out') := { s with enumerated := !more }.freeTxFrame
        .ok (s, out ++ (if more then [] else [.listen]) ++ out')

/-- `proc_rx_frame`, on the bytes of a valid frame. -/
def procRxFrame (s : SricIf) (bytes : List Byte) : Except Halt (SricIf × List IfOut) :=
  let f := PackedFrame.ofBytes bytes
  if f.forMe = false then .ok (s, [])
  else if f.isAck = false then
    let s := s.txqPush (ackFor f) 0
    match f.payload with
    | [] => .ok (s, [])
    | note :: _ => .ok (s, [.note (frameOf f note)])
  else
    match s.txFrame with
    -- an unsolicited or extra ack
    | none => .ok (s, [])
    | some e => s.retire e f

/-- What `sric_enum_fsm` asked for, called from outside `proc_rx_frame`. -/
def enumStep (s : SricIf) : Option (Enum × List EnumAction) → Except Halt (SricIf × List IfOut)
  | none => .error .exit
  | some (enum, as) => .ok ({ s with enum := enum }.acts as)

/-- A source that is not called again. -/
def drop (s : SricIf) (id : Nat) : SricIf := { s with loop := s.loop.remove id }

end SricIf

/-- What can happen to the module: a call from the rest of the daemon, or
a callback of the source with the given id. -/
inductive IfEvent where
  | enumStart
  | push (f : FrameT) (pri : Fin 2)
  | cancel (tag : Tag)
  | ifTx (id : Nat) (w : Option Nat)
  | txTimeout (id : Nat)
  | killToken (id : Nat)
  | sendReset (id : Nat)
  | frame (bytes : List Byte)
deriving DecidableEq

/-- The source that an event needs. -/
def IfEvent.source : IfEvent → Option (Nat × Source)
  | .ifTx id _ => some (id, .ifTx)
  | .txTimeout id => some (id, .txTimeout)
  | .killToken id => some (id, .enum .killToken)
  | .sendReset id => some (id, .enum .sendReset)
  | _ => none

namespace SricIf

/-- The effect of an event whose source is registered. -/
def handle (s : SricIf) : IfEvent → Except Halt (SricIf × List IfOut)
  | .enumStart => s.enumStep s.enum.start
  | .push f pri => .ok (s.txqPush f pri, [])
  | .cancel tag => .ok (s.txqCancel tag)
  | .ifTx id w =>
      match s.ifTx w with
      | .error h => .error h
      | .ok (s, out, keep) => .ok (if keep then s else s.drop id, out)
  | .txTimeout id =>
      let (s, out) := s.txTimeout
      .ok (s.drop id, out)
  | .killToken id =>
      (s.enumStep s.enum.killTokenTimeout).map fun (s, out) => (s.drop id, out)
  | .sendReset id =>
      match s.enum.sendResetTimeout with
      | none => .error .exit
      | some (enum, as, again) =>
          let (s, out) := { s with enum := enum }.acts as
          .ok (if again then s else s.drop id, out)
  | .frame bytes => s.procRxFrame bytes

/-- One event. -/
def step (s : SricIf) (ev : IfEvent) : Except Halt (SricIf × List IfOut) :=
  match ev.source with
  | some p => if p ∈ s.loop.live then s.handle ev else .error .disabled
  | none => s.handle ev

end SricIf

end Sricd
