import Sricd.Device
import Sricd.Lib.Queue

/-!
# Clients

`client.c`, and what `device.c` keeps in a client: the processes that are
connected to the daemon, with what has been received for them. Responses
and notes are kept, and waited for, in the same way; `Poll` tells which of
the two is meant.
-/

namespace Sricd

open Sricd.Lib

/-- What a client can poll: responses to its frames, or notes. -/
inductive Poll where
  | rx
  | note
deriving DecidableEq, Repr

/-- `rx_q`, `rx_timer` and `rx_ping`, or the fields for notes. The callback
is `NULL`, or the one function that `ipc.c` stores there. -/
structure Mailbox where
  q : List Frame
  timer : Nat
  ping : Bool
deriving DecidableEq

/-- `struct _client`. Its descriptor belongs to the socket. -/
structure Client where
  box : Poll → Mailbox
  deviceNoteData : BitVec 64 × BitVec 64

namespace Client

/-- `client_create`. -/
def create : Client where
  box _ := ⟨[], 0, false⟩
  deviceNoteData := (0, 0)

def setBox (cl : Client) (k : Poll) (m : Mailbox) : Client :=
  { cl with box := Function.update cl.box k m }

@[simp] theorem setBox_box (cl : Client) (k j : Poll) (m : Mailbox) :
    (cl.setBox k m).box j = if j = k then m else cl.box j :=
  Function.update_apply ..

/-- The queue of `client_push_rx` and `client_push_note`. -/
def push (cl : Client) (k : Poll) (f : Frame) : Client :=
  cl.setBox k { cl.box k with q := Queue.pushHead (cl.box k).q f }

/-- `client_pop_rx` and `client_pop_note`. -/
def pop (cl : Client) (k : Poll) : Option (Frame × Client) :=
  (Queue.popTail (cl.box k).q).map fun (f, q) => (f, cl.setBox k { cl.box k with q := q })

/-- One word of `device_note_data`, with a bit set or cleared. -/
def setBit (P : Platform) (word : BitVec 64) (bit : Nat) (notes : BitVec 64) : BitVec 64 :=
  if notes ≠ 0 then word ||| P.shl1 bit else word &&& ~~~P.shl1 bit

/-- What `device_set_client_notes` does to the client. -/
def setNoteData (P : Platform) (cl : Client) (address : Nat) (notes : BitVec 64) : Client :=
  if address > 64 then
    { cl with deviceNoteData :=
        (cl.deviceNoteData.1, setBit P cl.deviceNoteData.2 (address - 64) notes) }
  else
    { cl with deviceNoteData := (setBit P cl.deviceNoteData.1 address notes, cl.deviceNoteData.2) }

/-- What `device_clear_client_notes` does to the client. -/
def clearNoteData (P : Platform) (cl : Client) : Client :=
  (List.range' 2 (deviceHighAddress - 2)).foldl (fun cl i => cl.setNoteData P i 0) cl

@[simp] theorem setNoteData_box (P : Platform) (cl : Client) (a : Nat) (notes : BitVec 64) :
    (cl.setNoteData P a notes).box = cl.box := by
  rw [setNoteData]
  split <;> rfl

@[simp] theorem clearNoteData_box (P : Platform) (cl : Client) :
    (cl.clearNoteData P).box = cl.box := by
  rw [clearNoteData]
  generalize List.range' 2 _ = is
  induction is generalizing cl with
  | nil => rfl
  | cons i is ih => exact (ih _).trans (setNoteData_box ..)

end Client

end Sricd
