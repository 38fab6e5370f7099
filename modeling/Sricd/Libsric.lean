import Sricd.Escape
import Sricd.Request

/-!
# `libsric`

The client's side of the socket: the calls of `sric.c` and `sric.h` on a
context that exists, over any descriptor that can be written to and read
from.
-/

namespace Sricd

open Sricd.Lib

/-- `SRIC_MAX_PAYLOAD_SIZE`. -/
abbrev sricMaxPayloadSize : Nat := 64

/-- `SRIC_HIGH_ADDRESS`. -/
abbrev sricHighAddress : Nat := 128

/-- `sric_error`. -/
inductive SricError where
  | none
  | noSuchAddress
  | noSendNote
  | badPayload
  | sricd
  | loop
  | timeout
  | broadcast
deriving DecidableEq, Repr

/-- `sric_frame`. The length of the array `payload` is part of the type. -/
structure SricFrame where
  address : BitVec 32
  note : BitVec 32
  payloadLength : BitVec 32
  payload : List Byte
  payload_size : payload.length = sricMaxPayloadSize
deriving DecidableEq

/-- A descriptor of any kind: `write` tells how much it has taken, `read`
of up to `n` bytes what it has found. -/
structure Fd (κ : Type) where
  write : κ → List Byte → κ × Nat
  read : κ → Nat → κ × List Byte

/-- `struct _sric_context`, with the state of its descriptor. -/
structure Context (κ : Type) where
  fd : κ
  error : SricError
  noteflags : Nat → BitVec 64

namespace Context

/-- `sric_init`, behind `connect`. -/
def init {κ : Type} (fd : κ) : Context κ := ⟨fd, .none, fun _ => 0⟩

/-- `sric_clear_error`. -/
def clearError {κ : Type} (ctx : Context κ) : Context κ := { ctx with error := .none }

end Context

/-- `check_address`: the error it sets where it returns 0. -/
def checkAddress (address : BitVec 32) (allowBroadcast : Bool) : Option SricError :=
  if address.slt 0 then some .noSuchAddress
  else if address = 0 ∧ !allowBroadcast then some .broadcast
  else if address = 1 then some .loop
  else if (BitVec.ofNat 32 sricHighAddress).sle address then some .noSuchAddress
  else none

/-- `check_frame`: the error it sets where it returns 0. -/
def checkFrame (frame : SricFrame) : Option SricError :=
  match checkAddress frame.address true with
  | some e => some e
  | none =>
      if frame.note ≠ -1 then some .noSendNote
      else if frame.payloadLength.slt 0 then some .badPayload
      else if (BitVec.ofNat 32 sricMaxPayloadSize).slt frame.payloadLength then some .badPayload
      else none

/-- `ntohs`, of the two bytes in memory. -/
def ntohs (sdata : List Byte) : BitVec 32 := (sdata.getD 0 0 ++ sdata.getD 1 0).zeroExtend 32

namespace Fd

variable {κ : Type} (F : Fd κ)

/-- `send_command`. -/
def sendCommand (ctx : Context κ) (data : List Byte) : Context κ × Nat :=
  let (fd, rv) := F.write ctx.fd data
  if rv ≠ data.length then ({ ctx with fd, error := .sricd }, 1)
  else
    match F.read fd 1 with
    | (fd, [result]) =>
        if result = eBadAddr then ({ ctx with fd, error := .badPayload }, 1)
        else if result = eTimeout then ({ ctx with fd, error := .timeout }, 1)
        else if result ≠ 0 then ({ ctx with fd, error := .sricd }, 1)
        else ({ ctx with fd }, 0)
    | (fd, _) => ({ ctx with fd, error := .sricd }, 1)

/-- What `send_command` leaves alone, and what it does with the
descriptor when that takes the command. -/
theorem sendCommand_rest (ctx : Context κ) (data : List Byte) :
    (F.sendCommand ctx data).1.noteflags = ctx.noteflags
      ∧ ((F.write ctx.fd data).2 = data.length →
        (F.sendCommand ctx data).1.fd = (F.read (F.write ctx.fd data).1 1).1) := by
  rw [sendCommand]
  obtain ⟨fd, rv⟩ := F.write ctx.fd data
  dsimp only
  by_cases hrv : rv = data.length
  · rw [if_neg (not_not.mpr hrv)]
    match F.read fd 1 with
    | (fd, []) => exact ⟨rfl, fun _ => rfl⟩
    | (fd, [result]) =>
        dsimp only
        by_cases h1 : result = eBadAddr
        · rw [if_pos h1]
          exact ⟨rfl, fun _ => rfl⟩
        by_cases h2 : result = eTimeout
        · rw [if_neg h1, if_pos h2]
          exact ⟨rfl, fun _ => rfl⟩
        by_cases h3 : result ≠ 0
        · rw [if_neg h1, if_neg h2, if_pos h3]
          exact ⟨rfl, fun _ => rfl⟩
        · rw [if_neg h1, if_neg h2, if_neg h3]
          exact ⟨rfl, fun _ => rfl⟩
    | (fd, _ :: _ :: _) => exact ⟨rfl, fun _ => rfl⟩
  · rw [if_pos hrv]
    exact ⟨rfl, fun h => absurd h hrv⟩

/-- A command is answered with a status. -/
theorem sendCommand_status {ctx : Context κ} {data : List Byte} {fd fd' : κ} {result : Byte}
    (hw : F.write ctx.fd data = (fd, data.length)) (hr : F.read fd 1 = (fd', [result])) :
    (F.sendCommand ctx data).2 = if result = 0 then 0 else 1 := by
  rw [sendCommand, hw]
  dsimp only
  rw [if_neg (not_not.mpr rfl), hr]
  dsimp only
  by_cases h0 : result = 0
  · subst h0
    rfl
  · rw [if_pos h0, if_neg h0]
    split
    · rfl
    · split <;> rfl

/-- The status 0. -/
theorem sendCommand_success {ctx : Context κ} {data : List Byte} {fd fd' : κ}
    (hw : F.write ctx.fd data = (fd, data.length)) (hr : F.read fd 1 = (fd', [0])) :
    F.sendCommand ctx data = ({ ctx with fd := fd' }, 0) := by
  rw [sendCommand, hw]
  dsimp only
  rw [if_neg (not_not.mpr rfl), hr]
  rfl

/-- The status `E_BADADDR`. -/
theorem sendCommand_badAddr {ctx : Context κ} {data : List Byte} {fd fd' : κ}
    (hw : F.write ctx.fd data = (fd, data.length)) (hr : F.read fd 1 = (fd', [eBadAddr])) :
    F.sendCommand ctx data = ({ ctx with fd := fd', error := .badPayload }, 1) := by
  rw [sendCommand, hw]
  dsimp only
  rw [if_neg (not_not.mpr rfl), hr]
  rfl

/-- `read_data`, with what it leaves behind the pointer. -/
def readData (ctx : Context κ) (length : Nat) : Context κ × List Byte × Nat :=
  let (fd, buf) := F.read ctx.fd length
  if buf.length ≠ length then ({ ctx with fd, error := .sricd }, buf, 1)
  else ({ ctx with fd }, buf, 0)

/-- The command of `sric_tx`. -/
def txCommand (frame : SricFrame) : List Byte :=
  [0, (frame.address &&& 0xFF).truncate 8, (frame.address.sshiftRight 8 &&& 0xFF).truncate 8,
    (frame.payloadLength &&& 0xFF).truncate 8,
    (frame.payloadLength.sshiftRight 8 &&& 0xFF).truncate 8]
    ++ frame.payload.take frame.payloadLength.toNat

/-- `sric_tx`. -/
def sricTx (ctx : Context κ) (frame : SricFrame) : Context κ × Nat :=
  let ctx := ctx.clearError
  match checkFrame frame with
  | some e => ({ ctx with error := e }, 1)
  | none => F.sendCommand ctx (txCommand frame)

/-- The command of `sric_poll`. -/
def pollCommand (timeout : BitVec 32) (type : Byte) : List Byte :=
  [type, (timeout.sshiftRight 24 &&& 0xFF).truncate 8,
    (timeout.sshiftRight 16 &&& 0xFF).truncate 8, (timeout.sshiftRight 8 &&& 0xFF).truncate 8,
    (timeout.sshiftRight 0 &&& 0xFF).truncate 8]

/-- `sric_poll`, from the payload on, which is read into an array of
`SRIC_MAX_PAYLOAD_SIZE` bytes. -/
def pollPayload (ctx : Context κ) (frame : SricFrame) :
    Except Halt (Context κ × SricFrame × Nat) :=
  -- no data to be read
  if frame.payloadLength = 0 then .ok (ctx, frame, 0)
  else
    let (ctx, buf, rv) := F.readData ctx frame.payloadLength.toNat
    if h : buf.length ≤ sricMaxPayloadSize then
      .ok (ctx, { frame with
        payload := writeAt frame.payload 0 buf
        payload_size := (writeAt_length (by rw [frame.payload_size]; omega)).trans
          frame.payload_size }, rv)
    else .error .outOfBounds

/-- `sric_poll`. -/
def sricPoll (ctx : Context κ) (frame : SricFrame) (timeout : BitVec 32) (type : Byte) :
    Except Halt (Context κ × SricFrame × Nat) :=
  let (ctx, rv) := F.sendCommand ctx.clearError (pollCommand timeout type)
  if rv ≠ 0 then .ok (ctx, frame, 1)
  else
    let (ctx, sdata, rv) := F.readData ctx 2
    if rv ≠ 0 then .ok (ctx, frame, 1)
    else
      let frame := { frame with address := ntohs sdata }
      let (ctx, sdata, rv) := F.readData ctx 2
      if rv ≠ 0 then .ok (ctx, frame, 1)
      else
        let frame := { frame with note := ntohs sdata }
        let (ctx, sdata, rv) := F.readData ctx 2
        if rv ≠ 0 then .ok (ctx, frame, 1)
        else F.pollPayload ctx { frame with payloadLength := ntohs sdata }

/-- `sric_poll_rx`. -/
def sricPollRx (ctx : Context κ) (frame : SricFrame) (timeout : BitVec 32) :
    Except Halt (Context κ × SricFrame × Nat) :=
  F.sricPoll ctx frame timeout 2

/-- `sric_poll_note`. -/
def sricPollNote (ctx : Context κ) (frame : SricFrame) (timeout : BitVec 32) :
    Except Halt (Context κ × SricFrame × Nat) :=
  F.sricPoll ctx frame timeout 3

/-- The command of `sric_note_set_flags`. -/
def noteCommand (device : BitVec 32) (flags : BitVec 64) : List Byte :=
  [1, (device.sshiftRight 8 &&& 0xFF).truncate 8, (device &&& 0xFF).truncate 8,
    (flags >>> 56 &&& 0xFF).truncate 8, (flags >>> 48 &&& 0xFF).truncate 8,
    (flags >>> 40 &&& 0xFF).truncate 8, (flags >>> 32 &&& 0xFF).truncate 8,
    (flags >>> 24 &&& 0xFF).truncate 8, (flags >>> 16 &&& 0xFF).truncate 8,
    (flags >>> 8 &&& 0xFF).truncate 8, (flags >>> 0 &&& 0xFF).truncate 8]

/-- `sric_note_set_flags`. -/
def sricNoteSetFlags (ctx : Context κ) (device : BitVec 32) (flags : BitVec 64) :
    Context κ × Nat :=
  let ctx := ctx.clearError
  match checkAddress device false with
  | some e => ({ ctx with error := e }, 1)
  | none =>
      if ctx.noteflags device.toNat ≠ flags then
        F.sendCommand
          { ctx with noteflags := Function.update ctx.noteflags device.toNat flags }
          (noteCommand device flags)
      else (ctx, 0)

/-- `sric_note_get_flags`. -/
def sricNoteGetFlags (ctx : Context κ) (device : BitVec 32) : Context κ × BitVec 64 :=
  let ctx := ctx.clearError
  match checkAddress device false with
  | some e => ({ ctx with error := e }, 0)
  | none => (ctx, ctx.noteflags device.toNat)

/-- `sric_note_register`. -/
def sricNoteRegister (P : Platform) (ctx : Context κ) (device note : BitVec 32) :
    Context κ × Nat :=
  let (ctx, flags) := sricNoteGetFlags ctx device
  F.sricNoteSetFlags ctx device (flags ||| P.shl1 note.toNat)

/-- `sric_note_unregister`. -/
def sricNoteUnregister (P : Platform) (ctx : Context κ) (device note : BitVec 32) :
    Context κ × Nat :=
  let (ctx, flags) := sricNoteGetFlags ctx device
  F.sricNoteSetFlags ctx device (flags &&& ~~~P.shl1 note.toNat)

/-- `sric_note_unregister_device`. -/
def sricNoteUnregisterDevice (ctx : Context κ) (device : BitVec 32) : Context κ × Nat :=
  F.sricNoteSetFlags ctx device 0

/-- `sric_note_unregister_all`. -/
def sricNoteUnregisterAll (ctx : Context κ) : Context κ × Nat :=
  F.sendCommand { ctx with noteflags := fun _ => 0, error := .none } [4]

end Fd

/-- One end of a connection: what has been written to it, and what can be
read from it. -/
structure Line where
  sent : List Byte
  incoming : List Byte

/-- A descriptor that takes everything and reads all there is. -/
def Line.fd : Fd Line where
  write l data := ({ l with sent := l.sent ++ data }, data.length)
  read l n := ({ l with incoming := l.incoming.drop n }, l.incoming.take n)

/-- What has been written since. -/
def Line.written (l l' : Line) : List Byte := l'.sent.drop l.sent.length

/-! ## Bytes of integers -/

/-- A byte of an `int`. -/
theorem byte_sshiftRight (x : BitVec 32) {k : Nat} (h : k ≤ 24) :
    ((x.sshiftRight k &&& 0xFF).truncate 8 : Byte) = x.extractLsb' k 8 := by
  have hmask : ∀ i < 8, (0xFF : BitVec 32).getLsbD i = true := by decide
  apply BitVec.eq_of_getLsbD_eq
  intro i hi
  rw [BitVec.truncate, BitVec.getLsbD_setWidth, BitVec.getLsbD_and, hmask i hi, Bool.and_true,
    BitVec.getLsbD_sshiftRight, BitVec.getLsbD_extractLsb', if_pos (by omega)]
  simp [hi, show i < 32 by omega]

theorem byte_and (x : BitVec 32) : ((x &&& 0xFF).truncate 8 : Byte) = x.extractLsb' 0 8 := by
  rw [← byte_sshiftRight x (Nat.zero_le _), BitVec.sshiftRight_zero]

/-- A byte of an `uint64_t`. -/
theorem byte_ushiftRight (x : BitVec 64) (k : Nat) :
    ((x >>> k &&& 0xFF).truncate 8 : Byte) = x.extractLsb' k 8 := by
  have hmask : ∀ i < 8, (0xFF : BitVec 64).getLsbD i = true := by decide
  apply BitVec.eq_of_getLsbD_eq
  intro i hi
  rw [BitVec.truncate, BitVec.getLsbD_setWidth, BitVec.getLsbD_and, hmask i hi, Bool.and_true,
    BitVec.getLsbD_ushiftRight, BitVec.getLsbD_extractLsb', decide_eq_true hi, Bool.true_and]

/-- The low two bytes. -/
theorem extract_truncate (x : BitVec 32) {k : Nat} (h : k ≤ 8) :
    (x.truncate 16).extractLsb' k 8 = x.extractLsb' k 8 := by
  apply BitVec.eq_of_getLsbD_eq
  intro i hi
  rw [BitVec.getLsbD_extractLsb', BitVec.getLsbD_extractLsb', BitVec.truncate,
    BitVec.getLsbD_setWidth, decide_eq_true (show k + i < 16 by omega), Bool.true_and]

/-- The command is the request that the daemon reads. -/
theorem noteCommand_request (device : BitVec 32) (flags : BitVec 64) :
    Fd.noteCommand device flags = (Request.noteFlags (device.truncate 16) flags).bytes := by
  rw [Fd.noteCommand, byte_sshiftRight _ (by decide), byte_and, byte_ushiftRight, byte_ushiftRight,
    byte_ushiftRight, byte_ushiftRight, byte_ushiftRight, byte_ushiftRight, byte_ushiftRight,
    byte_ushiftRight, ← extract_truncate device (k := 8) (by decide),
    ← extract_truncate device (k := 0) (by decide)]
  rfl

/-! ## The checks -/

theorem slt_toInt {x y : BitVec 32} : x.slt y = true ↔ x.toInt < y.toInt := decide_eq_true_iff

/-- An `int` that is not negative. -/
theorem toInt_of_nonneg {x : BitVec 32} (h : ¬x.slt 0 = true) : x.toInt = x.toNat := by
  rw [slt_toInt] at h
  have hx := x.isLt
  rw [BitVec.toInt_eq_toNat_cond] at h ⊢
  split
  · rfl
  · rename_i hbig
    rw [if_neg hbig] at h
    refine absurd ?_ h
    show ((x.toNat : Int) - (2 ^ 32 : Nat)) < 0
    omega

/-- An address that is in range survives in 16 bits. -/
theorem toNat_truncate16 {a : BitVec 32} (h : a.toNat < sricHighAddress) :
    (a.truncate 16).toNat = a.toNat := by
  have h128 : sricHighAddress = 128 := rfl
  rw [BitVec.truncate, BitVec.toNat_setWidth]
  exact Nat.mod_eq_of_lt (by omega)

theorem checkAddress_lt {a : BitVec 32} {b : Bool} (h : checkAddress a b = none) :
    a.toNat < sricHighAddress := by
  rw [checkAddress] at h
  split at h
  · cases h
  rename_i hneg
  split at h
  · cases h
  split at h
  · cases h
  split at h
  · cases h
  rename_i hhigh
  have h128 : (BitVec.ofNat 32 sricHighAddress).toInt = sricHighAddress := rfl
  have hle : ¬(sricHighAddress : Int) ≤ a.toInt := by
    rw [← h128]
    exact fun hc => hhigh (decide_eq_true hc)
  rw [toInt_of_nonneg hneg] at hle
  omega

/-- Where broadcasts are not allowed, the addresses start with 2. -/
theorem checkAddress_ge {a : BitVec 32} (h : checkAddress a false = none) : 2 ≤ a.toNat := by
  rw [checkAddress] at h
  split at h
  · cases h
  split at h
  · cases h
  rename_i h0
  split at h
  · cases h
  rename_i h1
  have hne : ∀ k : Nat, a.toNat = k → a = BitVec.ofNat 32 k := by
    intro k hx
    obtain rfl := hx
    rw [BitVec.ofNat_toNat, BitVec.setWidth_eq]
  have hne0 : a.toNat ≠ 0 := fun hc => h0 ⟨hne 0 hc, rfl⟩
  have hne1 : a.toNat ≠ 1 := fun hc => h1 (hne 1 hc)
  omega

theorem checkAddress_none {a : BitVec 32} (b : Bool) (h2 : 2 ≤ a.toNat)
    (h128 : a.toNat < sricHighAddress) : checkAddress a b = none := by
  have hhigh : sricHighAddress = 128 := rfl
  have ha : a.toInt = a.toNat := by rw [BitVec.toInt_eq_toNat_cond, if_pos (by omega)]
  have hneg : ¬a.slt 0 = true := by
    rw [slt_toInt, ha]
    exact Int.not_lt.mpr (Int.natCast_nonneg _)
  have hne : ∀ k : Nat, k < 2 → a ≠ BitVec.ofNat 32 k := by
    intro k hk hx
    obtain rfl := hx
    rw [BitVec.toNat_ofNat, Nat.mod_eq_of_lt (by omega)] at h2
    omega
  have hle : ¬(BitVec.ofNat 32 sricHighAddress).sle a = true := by
    intro h
    have : (sricHighAddress : Int) ≤ a.toInt := of_decide_eq_true h
    omega
  rw [checkAddress, if_neg hneg, if_neg (fun h => hne 0 (by decide) h.1),
    if_neg (show ¬a = 1 from hne 1 (by decide)), if_neg hle]

theorem checkFrame_none {frame : SricFrame} (h : checkFrame frame = none) :
    frame.address.toNat < sricHighAddress
      ∧ frame.payloadLength.toNat ≤ sricMaxPayloadSize := by
  rw [checkFrame] at h
  split at h
  · cases h
  rename_i ha
  split at h
  · cases h
  split at h
  · cases h
  rename_i hneg
  split at h
  · cases h
  rename_i hbig
  have h64 : (BitVec.ofNat 32 sricMaxPayloadSize).toInt = sricMaxPayloadSize := rfl
  rw [slt_toInt, toInt_of_nonneg hneg, h64] at hbig
  exact ⟨checkAddress_lt ha, by omega⟩

end Sricd
