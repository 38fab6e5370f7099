import Mathlib.Algebra.Group.Nat.Defs
import Sricd.Ipc
import Sricd.Lib.Run

/-!
# Requests

The requests that a client makes, as it writes them to its socket, and
what the daemon does once it has read one as a whole (`command_request`).
-/

namespace Sricd

open Sricd.Lib

/-- A request that is well formed. -/
inductive Request where
  /-- `SRICD_TX` -/
  | tx (address : BitVec 16) (payload : List Byte) (payload_lt : payload.length < 2 ^ 16)
  /-- `SRICD_POLL_RX` and `SRICD_POLL_NOTE` -/
  | poll (k : Poll) (timeout : BitVec 32)
  /-- `SRICD_NOTE_FLAGS` -/
  | noteFlags (device : BitVec 16) (flags : BitVec 64)
  /-- `SRICD_NOTE_CLEAR` -/
  | noteClear
  /-- `SRICD_LIST_DEVICES` -/
  | listDevices
deriving DecidableEq

namespace Request

/-- The command byte. -/
def cmd : Request → Byte
  | .tx _ _ _ => 0
  | .noteFlags _ _ => 1
  | .poll .rx _ => 2
  | .poll .note _ => 3
  | .noteClear => 4
  | .listDevices => 5

/-- `flags`, in network order. -/
def flagBytes (f : BitVec 64) : List Byte :=
  [f.extractLsb' 56 8, f.extractLsb' 48 8, f.extractLsb' 40 8, f.extractLsb' 32 8,
    f.extractLsb' 24 8, f.extractLsb' 16 8, f.extractLsb' 8 8, f.extractLsb' 0 8]

/-- The bytes behind it. -/
def args : Request → List Byte
  | .tx address payload _ =>
      [address.extractLsb' 0 8, address.extractLsb' 8 8, BitVec.ofNat 8 payload.length,
        BitVec.ofNat 8 (payload.length / 256)] ++ payload
  | .poll _ t =>
      [t.extractLsb' 24 8, t.extractLsb' 16 8, t.extractLsb' 8 8, t.extractLsb' 0 8]
  | .noteFlags d f => [d.extractLsb' 8 8, d.extractLsb' 0 8] ++ flagBytes f
  | .noteClear => []
  | .listDevices => []

def bytes (q : Request) : List Byte := q.cmd :: q.args

theorem bytes_ne_nil (q : Request) : q.bytes ≠ [] := List.cons_ne_nil _ _

/-- What the daemon does with a request that it has read. -/
def serve (P : Platform) (s : Ipc) (c : Nat) : Request → Ipc.Result
  | .tx address payload _ =>
      if h : payload.length ≤ payloadMax then
        s.transmit P c ⟨.sric, address.toNat, .client c, payload, h⟩
      else .error .outOfBounds
  | .poll k timeout => s.poll k c timeout
  | .noteFlags device flags => s.setFlags P c device.toNat flags
  | .noteClear => s.handleNoteClear P c
  | .listDevices => s.handleListDevices P c

/-- The reply is one to this request. -/
def Accepts : Request → Reply → Prop
  | .poll _ _, .frame _ => True
  | .poll _ _, .status b => b = eTimeout
  | .listDevices, .devices _ => True
  | .tx _ _ _, .status _ => True
  | .noteFlags _ _, .status _ => True
  | .noteClear, .status _ => True
  | _, _ => False

end Request

/-! ## Reading a request -/

theorem append_bytes16 (d : BitVec 16) :
    (d.extractLsb' 8 8 ++ d.extractLsb' 0 8 : BitVec 16) = d := by
  rw [BitVec.extractLsb'_append_extractLsb'_eq_extractLsb' (by decide)]
  exact BitVec.extractLsb'_eq_self

theorem append_bytes32 (t : BitVec 32) :
    (t.extractLsb' 24 8 ++ t.extractLsb' 16 8 ++ t.extractLsb' 8 8 ++ t.extractLsb' 0 8 :
      BitVec 32) = t := by
  iterate 3 rw [BitVec.extractLsb'_append_extractLsb'_eq_extractLsb' (by decide)]
  exact BitVec.extractLsb'_eq_self

theorem append_bytes64 (f : BitVec 64) :
    (f.extractLsb' 56 8 ++ f.extractLsb' 48 8 ++ f.extractLsb' 40 8 ++ f.extractLsb' 32 8
      ++ f.extractLsb' 24 8 ++ f.extractLsb' 16 8 ++ f.extractLsb' 8 8 ++ f.extractLsb' 0 8 :
      BitVec 64) = f := by
  iterate 7 rw [BitVec.extractLsb'_append_extractLsb'_eq_extractLsb' (by decide)]
  exact BitVec.extractLsb'_eq_self

namespace Ipc

theorem le16_address (a : BitVec 16) : le16 (a.extractLsb' 0 8) (a.extractLsb' 8 8) = a.toNat := by
  rw [le16, Nat.or_comm, ← BitVec.toNat_append, append_bytes16]

theorem le16_length {n : Nat} (h : n < 2 ^ 16) :
    le16 (BitVec.ofNat 8 n) (BitVec.ofNat 8 (n / 256)) = n := by
  rw [le16, BitVec.toNat_ofNat, BitVec.toNat_ofNat, Nat.or_comm,
    ← Nat.shiftLeft_add_eq_or_of_lt (Nat.mod_lt _ (by decide)), Nat.shiftLeft_eq]
  omega

/-- What there is, and that is enough. -/
theorem read_append {s : Ipc} {c n : Nat} (buf rest : List Byte)
    (h : (s.sockets c).inbox = buf ++ rest) (hn : buf.length = n) :
    s.read c n = .ok (buf, s.setSocket c ⟨rest, (s.sockets c).closed⟩) := by
  subst hn
  rcases s.read_cases c buf.length with ⟨-, hne, hnil, -⟩ | ⟨-, hr⟩
  · rw [hnil] at h
    exact absurd (by simp [(List.append_eq_nil_iff.mp h.symm).1]) hne
  · rw [hr, h, List.take_left, List.drop_left]

theorem setSocket_setSocket (s : Ipc) (c : Nat) (k k' : Socket) :
    (s.setSocket c k).setSocket c k' = s.setSocket c k' := by
  simp [setSocket, Function.update_idem]

theorem setSocket_self {s : Ipc} {c : Nat} (h : (s.sockets c).inbox = []) :
    s.setSocket c ⟨[], (s.sockets c).closed⟩ = s := by
  rw [← h]
  show ({ s with sockets := Function.update s.sockets c (s.sockets c) } : Ipc) = s
  rw [Function.update_eq_self]

/-- **A request is read as it was written.** -/
theorem command_request (P : Platform) {s : Ipc} {c : Nat} {q : Request}
    (h : (s.sockets c).inbox = q.args) (stale : BitVec 64) :
    s.command P c stale q.cmd
      = q.serve P (s.setSocket c ⟨[], (s.sockets c).closed⟩) c := by
  cases q with
  | tx address payload hlt =>
      show handleTx P s c = _
      have hhead : s.read c 4 = _ :=
        read_append [_, _, _, _] payload h rfl
      have hpayload : (s.setSocket c ⟨payload, (s.sockets c).closed⟩).read c payload.length = _ :=
        read_append payload [] (by simp) rfl
      rw [handleTx, hhead, ok_bind]
      dsimp only
      rw [le16_address, le16_length hlt, readPayload, hpayload, ok_bind]
      dsimp only
      rw [setSocket_setSocket, setSocket_sockets]
      by_cases h64 : payload.length ≤ payloadMax
      · rw [dif_pos h64, if_neg (by simp), Request.serve, dif_pos h64]
      · rw [dif_neg h64, Request.serve, dif_neg h64]
  | poll k t =>
      have hk : s.command P c stale (Request.poll k t).cmd = handlePoll k s c := by
        cases k <;> rfl
      have hread : s.read c 4 = _ := read_append (Request.poll k t).args [] (h.trans (List.append_nil _).symm) rfl
      rw [hk, handlePoll, hread, ok_bind]
      dsimp only [Request.args]
      rw [append_bytes32]
      rfl
  | noteFlags d f =>
      show handleNoteFlags P s c stale = _
      have hdevice : s.read c 2 = _ :=
        read_append [d.extractLsb' 8 8, d.extractLsb' 0 8] (Request.flagBytes f) h rfl
      rw [handleNoteFlags, hdevice, ok_bind]
      dsimp only
      have hflags : (s.setSocket c ⟨Request.flagBytes f, (s.sockets c).closed⟩).read c 8 = _ :=
        read_append (Request.flagBytes f) [] (by simp) rfl
      rw [append_bytes16, readFlags, hflags, ok_bind, Request.flagBytes]
      dsimp only
      rw [setSocket_setSocket, setSocket_sockets, append_bytes64]
      rfl
  | noteClear =>
      show handleNoteClear P s c = _
      rw [setSocket_self h]
      rfl
  | listDevices =>
      show handleListDevices P s c = _
      rw [setSocket_self h]
      rfl

/-- The callback that finds a request on the socket serves it. -/
theorem clientIncoming_request (P : Platform) {s : Ipc} {c : Nat} {q : Request}
    (h : (s.sockets c).inbox = q.bytes) (id : Nat) (stale : BitVec 64) :
    s.clientIncoming P id c stale = q.serve P (s.setSocket c ⟨[], (s.sockets c).closed⟩) c := by
  have hread : s.read c 1 = _ := read_append [q.cmd] q.args h rfl
  rw [clientIncoming, hread, ok_bind]
  dsimp only
  rw [command_request P (q := q) (by simp), setSocket_setSocket, setSocket_sockets]

/-! ## What comes of it -/

/-- A frame for a device that exists is queued. -/
theorem transmit_known {P : Platform} {s : Ipc} {frame : FrameT}
    (h128 : frame.address < deviceHighAddress) (hk : s.devices.known P frame.address = true)
    (c : Nat) : s.transmit P c frame = .ok (s, [.push frame, .reply c (.status eSuccess)]) := by
  have hexists := Devices.deviceExists_ok.mpr ⟨h128, hk⟩
  rw [transmit, hexists]
  rfl

/-- A frame for a device that does not exist is refused. -/
theorem transmit_absent {P : Platform} {s : Ipc} {frame : FrameT}
    (h128 : frame.address < deviceHighAddress) (hk : s.devices.known P frame.address = false)
    (c : Nat) : s.transmit P c frame = .ok (s, [.reply c (.status eBadAddr)]) := by
  have hexists := Devices.deviceExists_ok.mpr ⟨h128, hk⟩
  rw [transmit, hexists]
  rfl

/-- Flags for a device that exists are recorded. -/
theorem setFlags_known {P : Platform} {s : Ipc} {device c : Nat} {cl : Client}
    (h128 : device < deviceHighAddress) (hk : s.devices.known P device = true)
    (hcl : s.clients c = some cl) (flags : BitVec 64) :
    s.setFlags P c device flags
      = .ok ({ s with devices := s.devices.setClientNotes device c flags }.setClient c
        (cl.setNoteData P device flags), [.reply c (.status eSuccess)]) := by
  have hexists := Devices.deviceExists_ok.mpr ⟨h128, hk⟩
  have hclient : s.client c = .ok cl := by
    rw [client, hcl]
  rw [setFlags, hexists, ok_bind, if_pos rfl, hclient]
  rfl

/-- Flags for a device that does not exist are refused. -/
theorem setFlags_absent {P : Platform} {s : Ipc} {device : Nat} (h128 : device < deviceHighAddress)
    (hk : s.devices.known P device = false) (c : Nat) (flags : BitVec 64) :
    s.setFlags P c device flags = .ok (s, [.reply c (.status eBadAddr)]) := by
  have hexists := Devices.deviceExists_ok.mpr ⟨h128, hk⟩
  rw [setFlags, hexists]
  rfl

end Ipc

end Sricd
