import Sricd.Request

/-!
# What is read of a request

The handlers read a request in several steps, and each of them may find
less than it asked for. `hear` says what the bytes on a socket come to,
before anything is done about them; the callback then does as
`Heard.serve` says, and that only (`clientIncoming_hear`).
-/

namespace Sricd

open Sricd.Lib

/-- What a callback makes of the bytes on a socket. -/
inductive Heard where
  /-- there is nothing yet, and `read` waits -/
  | nothing
  /-- a payload that its array does not hold -/
  | overflow
  /-- no command, or less than it needs -/
  | malformed
  | request (q : Request)
  /-- `SRICD_NOTE_FLAGS`, cut off in its flags -/
  | cutFlags (device : BitVec 16)
deriving DecidableEq

namespace Heard

/-- What is read short, unless it has to be waited for. -/
def short (closed : Bool) (inbox : List Byte) (h : Heard) : Heard :=
  if inbox = [] ∧ closed = false then .nothing else h

/-- The second half of `handle_tx`. -/
def payload (closed : Bool) (address : BitVec 16) (n : Nat) (inbox : List Byte) : Heard :=
  if n = 0 ∨ inbox ≠ [] ∨ closed = true then
    if h : (inbox.take n).length ≤ payloadMax then
      if (inbox.take n).length ≠ n then .malformed
      else .request (.tx address (inbox.take n) (Nat.lt_of_le_of_lt h (by decide)))
    else .overflow
  else .nothing

/-- What `handle_tx` reads, and what it leaves. -/
def tx (closed : Bool) : List Byte → Heard × List Byte
  | a0 :: a1 :: l0 :: l1 :: inbox =>
      (payload closed (a1 ++ a0) (Ipc.le16 l0 l1) inbox, inbox.drop (Ipc.le16 l0 l1))
  | inbox => (short closed inbox .malformed, [])

/-- What `handle_note_flags` reads behind the device. -/
def flags (closed : Bool) (device : BitVec 16) : List Byte → Heard × List Byte
  | b7 :: b6 :: b5 :: b4 :: b3 :: b2 :: b1 :: b0 :: inbox =>
      (.request (.noteFlags device (b7 ++ b6 ++ b5 ++ b4 ++ b3 ++ b2 ++ b1 ++ b0)), inbox)
  | inbox => (short closed inbox (.cutFlags device), [])

/-- What `handle_note_flags` reads. -/
def noteFlags (closed : Bool) : List Byte → Heard × List Byte
  | d1 :: d0 :: inbox => flags closed (d1 ++ d0) inbox
  | inbox => (short closed inbox .malformed, [])

/-- What `handle_poll_rx` and `handle_poll_note` read. -/
def poll (k : Poll) (closed : Bool) : List Byte → Heard × List Byte
  | b3 :: b2 :: b1 :: b0 :: inbox => (.request (.poll k (b3 ++ b2 ++ b1 ++ b0)), inbox)
  | inbox => (short closed inbox .malformed, [])

end Heard

/-- What is read behind a command, and what is left. -/
def hear (closed : Bool) (cmd : Byte) (inbox : List Byte) : Heard × List Byte :=
  match cmd.toNat with
  | 0 => Heard.tx closed inbox
  | 1 => Heard.noteFlags closed inbox
  | 2 => Heard.poll .rx closed inbox
  | 3 => Heard.poll .note closed inbox
  | 4 => (.request .noteClear, inbox)
  | 5 => (.request .listDevices, inbox)
  | _ => (.malformed, inbox)

/-- What is then done. -/
def Heard.serve (P : Platform) (s : Ipc) (c : Nat) (stale : BitVec 64) : Heard → Ipc.Result
  | .nothing => .error .disabled
  | .overflow => .error .outOfBounds
  | .malformed => s.result c eBadRequest
  | .request q => q.serve P s c
  | .cutFlags device => do
      let (s, out) ← s.setFlags P c device.toNat stale
      .ok (s, .reply c (.status eBadRequest) :: out)

namespace Ipc

theorem toNat_append_le16 (lo hi : Byte) : (hi ++ lo : BitVec 16).toNat = le16 lo hi := by
  rw [le16, Nat.or_comm, ← BitVec.toNat_append]

/-- A short read is one that does not block. -/
theorem short_eq {closed : Bool} {inbox : List Byte} (h : inbox ≠ [] ∨ closed = true) (x : Heard) :
    Heard.short closed inbox x = x := by
  apply if_neg
  intro hx
  obtain ⟨hnil, hopen⟩ := hx
  rcases h with h | h
  · exact h hnil
  · cases h.symm.trans hopen

theorem short_nil (x : Heard) : Heard.short false [] x = .nothing := if_pos ⟨rfl, rfl⟩

theorem readPayload_hear (P : Platform) (s : Ipc) (c : Nat) (a0 a1 : Byte) (n : Nat)
    (stale : BitVec 64) :
    s.readPayload P c (le16 a0 a1) n
      = (Heard.payload (s.sockets c).closed (a1 ++ a0) n (s.sockets c).inbox).serve P
        (s.setSocket c ⟨(s.sockets c).inbox.drop n, (s.sockets c).closed⟩) c stale := by
  rw [readPayload, Heard.payload, read]
  by_cases hr : n = 0 ∨ (s.sockets c).inbox ≠ [] ∨ (s.sockets c).closed = true
  · rw [if_pos hr, if_pos hr, ok_bind]
    dsimp only
    by_cases h64 : ((s.sockets c).inbox.take n).length ≤ payloadMax
    · rw [dif_pos h64, dif_pos h64]
      split
      · rfl
      · rw [Heard.serve, Request.serve, dif_pos h64, toNat_append_le16]
    · rw [dif_neg h64, dif_neg h64]
      rfl
  · rw [if_neg hr, if_neg hr]
    rfl

theorem handleTx_hear (P : Platform) (s : Ipc) (c : Nat) (stale : BitVec 64) :
    handleTx P s c = (Heard.tx (s.sockets c).closed (s.sockets c).inbox).1.serve P
      (s.setSocket c ⟨(Heard.tx (s.sockets c).closed (s.sockets c).inbox).2, (s.sockets c).closed⟩)
      c stale := by
  rw [handleTx]
  rcases s.read_cases c 4 with ⟨hr, -, hnil, hopen⟩ | ⟨hsome, hr⟩
  · rw [hr, hnil, hopen]
    exact (congrArg (Heard.serve P _ c stale) (short_nil .malformed)).symm
  rw [hr, ok_bind]
  have hshort := short_eq (hsome (by decide))
  rcases hk : (s.sockets c).inbox with _ | ⟨a0, _ | ⟨a1, _ | ⟨l0, _ | ⟨l1, rest⟩⟩⟩⟩
  iterate 4 exact (congrArg (Heard.serve P _ c stale) (hk ▸ hshort .malformed)).symm
  show Ipc.readPayload P _ c _ _ = _
  rw [readPayload_hear P _ c a0 a1 _ stale, setSocket_sockets, setSocket_setSocket]
  rfl

theorem handlePoll_hear (P : Platform) (k : Poll) (s : Ipc) (c : Nat) (stale : BitVec 64) :
    handlePoll k s c = (Heard.poll k (s.sockets c).closed (s.sockets c).inbox).1.serve P
      (s.setSocket c ⟨(Heard.poll k (s.sockets c).closed (s.sockets c).inbox).2,
        (s.sockets c).closed⟩) c stale := by
  rw [handlePoll]
  rcases s.read_cases c 4 with ⟨hr, -, hnil, hopen⟩ | ⟨hsome, hr⟩
  · rw [hr, hnil, hopen]
    exact (congrArg (Heard.serve P _ c stale) (short_nil .malformed)).symm
  rw [hr, ok_bind]
  have hshort := short_eq (hsome (by decide))
  rcases hk : (s.sockets c).inbox with _ | ⟨b3, _ | ⟨b2, _ | ⟨b1, _ | ⟨b0, rest⟩⟩⟩⟩
  iterate 4 exact (congrArg (Heard.serve P _ c stale) (hk ▸ hshort .malformed)).symm
  rfl

theorem readFlags_hear (P : Platform) (s : Ipc) (c : Nat) (stale : BitVec 64) (device : BitVec 16) :
    s.readFlags P c stale device.toNat
      = (Heard.flags (s.sockets c).closed device (s.sockets c).inbox).1.serve P
        (s.setSocket c ⟨(Heard.flags (s.sockets c).closed device (s.sockets c).inbox).2,
          (s.sockets c).closed⟩) c stale := by
  rw [readFlags]
  rcases s.read_cases c 8 with ⟨hr, -, hnil, hopen⟩ | ⟨hsome, hr⟩
  · rw [hr, hnil, hopen]
    exact (congrArg (Heard.serve P _ c stale) (short_nil (.cutFlags device))).symm
  rw [hr, ok_bind]
  have hshort := short_eq (hsome (by decide))
  rcases hk : (s.sockets c).inbox with
    _ | ⟨b7, _ | ⟨b6, _ | ⟨b5, _ | ⟨b4, _ | ⟨b3, _ | ⟨b2, _ | ⟨b1, _ | ⟨b0, rest⟩⟩⟩⟩⟩⟩⟩⟩
  iterate 8 exact (congrArg (Heard.serve P _ c stale) (hk ▸ hshort (.cutFlags device))).symm
  rfl

theorem handleNoteFlags_hear (P : Platform) (s : Ipc) (c : Nat) (stale : BitVec 64) :
    handleNoteFlags P s c stale
      = (Heard.noteFlags (s.sockets c).closed (s.sockets c).inbox).1.serve P
        (s.setSocket c ⟨(Heard.noteFlags (s.sockets c).closed (s.sockets c).inbox).2,
          (s.sockets c).closed⟩) c stale := by
  rw [handleNoteFlags]
  rcases s.read_cases c 2 with ⟨hr, -, hnil, hopen⟩ | ⟨hsome, hr⟩
  · rw [hr, hnil, hopen]
    exact (congrArg (Heard.serve P _ c stale) (short_nil .malformed)).symm
  rw [hr, ok_bind]
  have hshort := short_eq (hsome (by decide))
  rcases hk : (s.sockets c).inbox with _ | ⟨d1, _ | ⟨d0, rest⟩⟩
  iterate 2 exact (congrArg (Heard.serve P _ c stale) (hk ▸ hshort .malformed)).symm
  show Ipc.readFlags P _ c stale _ = _
  rw [readFlags_hear, setSocket_sockets, setSocket_setSocket]
  rfl

/-- **A handler does as it is told**: it reads first, all that it will. -/
theorem command_hear (P : Platform) (s : Ipc) (c : Nat) (stale : BitVec 64) (cmd : Byte) :
    s.command P c stale cmd = (hear (s.sockets c).closed cmd (s.sockets c).inbox).1.serve P
      (s.setSocket c ⟨(hear (s.sockets c).closed cmd (s.sockets c).inbox).2, (s.sockets c).closed⟩)
      c stale := by
  have hself : s.setSocket c ⟨(s.sockets c).inbox, (s.sockets c).closed⟩ = s := by
    show ({ s with sockets := Function.update s.sockets c (s.sockets c) } : Ipc) = s
    rw [Function.update_eq_self]
  rw [command, hear]
  rcases cmd.toNat with _ | _ | _ | _ | _ | _ | n
  · exact handleTx_hear P s c stale
  · exact handleNoteFlags_hear P s c stale
  · exact handlePoll_hear P .rx s c stale
  · exact handlePoll_hear P .note s c stale
  -- the other commands read nothing more
  · exact congrArg (fun t => handleNoteClear P t c) hself.symm
  · exact congrArg (fun t => handleListDevices P t c) hself.symm
  · exact congrArg (fun t => Ipc.result t c eBadRequest) hself.symm

/-- **What `ipc_client_incoming` does** with what there is. -/
theorem clientIncoming_hear (P : Platform) {s : Ipc} {c : Nat} {cmd : Byte} {inbox : List Byte}
    (h : (s.sockets c).inbox = cmd :: inbox) (id : Nat) (stale : BitVec 64) :
    s.clientIncoming P id c stale = (hear (s.sockets c).closed cmd inbox).1.serve P
      (s.setSocket c ⟨(hear (s.sockets c).closed cmd inbox).2, (s.sockets c).closed⟩) c stale := by
  have hread : s.read c 1 = _ := read_append [cmd] inbox h rfl
  rw [clientIncoming, hread, ok_bind]
  dsimp only
  rw [command_hear, setSocket_sockets, setSocket_setSocket]

/-- The end of the input ends the watch. -/
theorem clientIncoming_end (P : Platform) {s : Ipc} {c : Nat} (h : (s.sockets c).inbox = [])
    (id : Nat) (stale : BitVec 64) :
    s.clientIncoming P id c stale
      = if (s.sockets c).closed then .ok (s.drop id, []) else .error .disabled := by
  rcases s.read_cases c 1 with ⟨hr, -, -, hopen⟩ | ⟨hsome, hr⟩
  · rw [clientIncoming, hr, hopen]
    rfl
  · have hclosed : (s.sockets c).closed = true :=
      (hsome (by decide)).resolve_left fun hne => hne h
    have hself : s.setSocket c ⟨(s.sockets c).inbox.drop 1, (s.sockets c).closed⟩ = s := by
      rw [h]
      exact setSocket_self h
    rw [clientIncoming, hr, hself, h, hclosed]
    rfl

/-! ## Which request it is -/

theorem short_cases (closed : Bool) (inbox : List Byte) (h : Heard) :
    Heard.short closed inbox h = .nothing ∨ Heard.short closed inbox h = h := by
  rw [Heard.short]
  split
  · exact .inl rfl
  · exact .inr rfl

/-- What a handler can take its input for. -/
def Heard.For (n : Nat) : Heard → Prop
  | .nothing | .malformed => True
  | .overflow => n = 0
  | .request q => q.cmd.toNat = n
  | .cutFlags _ => n = 1

theorem For.short {n : Nat} {h : Heard} (hf : Heard.For n h) (closed : Bool) (inbox : List Byte) :
    Heard.For n (Heard.short closed inbox h) := by
  rcases short_cases closed inbox h with hs | hs <;> rw [hs]
  · trivial
  · exact hf

theorem tx_for (closed : Bool) (inbox : List Byte) : Heard.For 0 (Heard.tx closed inbox).1 := by
  rcases inbox with _ | ⟨a0, _ | ⟨a1, _ | ⟨l0, _ | ⟨l1, rest⟩⟩⟩⟩
  iterate 4
    simp only [Heard.tx]
    exact For.short (h := .malformed) trivial closed _
  show Heard.For 0 (Heard.payload closed _ _ rest)
  rw [Heard.payload]
  split
  · split
    · split
      · trivial
      · rfl
    · rfl
  · trivial

theorem poll_for (k : Poll) (closed : Bool) (inbox : List Byte) :
    Heard.For (Request.poll k 0).cmd.toNat (Heard.poll k closed inbox).1 := by
  rcases inbox with _ | ⟨b3, _ | ⟨b2, _ | ⟨b1, _ | ⟨b0, rest⟩⟩⟩⟩
  iterate 4
    simp only [Heard.poll]
    exact For.short (h := .malformed) trivial closed _
  cases k <;> rfl

theorem noteFlags_for (closed : Bool) (inbox : List Byte) :
    Heard.For 1 (Heard.noteFlags closed inbox).1 := by
  rcases inbox with _ | ⟨d1, _ | ⟨d0, rest⟩⟩
  iterate 2
    simp only [Heard.noteFlags]
    exact For.short (h := .malformed) trivial closed _
  rw [Heard.noteFlags]
  rcases rest with
    _ | ⟨b7, _ | ⟨b6, _ | ⟨b5, _ | ⟨b4, _ | ⟨b3, _ | ⟨b2, _ | ⟨b1, _ | ⟨b0, rest⟩⟩⟩⟩⟩⟩⟩⟩
  iterate 8
    simp only [Heard.flags]
    exact For.short (h := .cutFlags (d1 ++ d0)) rfl closed _
  rfl

/-- What is heard is a request with the command that was read. -/
theorem hear_for (closed : Bool) (cmd : Byte) (inbox : List Byte) :
    Heard.For cmd.toNat (hear closed cmd inbox).1 := by
  rw [hear]
  rcases cmd.toNat with _ | _ | _ | _ | _ | _ | n
  · exact tx_for closed inbox
  · exact noteFlags_for closed inbox
  · exact poll_for .rx closed inbox
  · exact poll_for .note closed inbox
  · rfl
  · rfl
  · trivial

/-! ## What it can fail with -/

section
variable {P : Platform} {s : Ipc} {c : Nat} {x : Halt}

theorem client_error (h : s.client c = .error x) : x = .badPointer := by
  rw [client] at h
  split at h
  · exact (Except.error.inj h).symm
  · cases h

theorem deviceExists_error {d : Devices} {a : Nat} (h : d.deviceExists P a = .error x) :
    x = .outOfBounds ∧ ¬a < deviceHighAddress := by
  rw [Devices.deviceExists] at h
  split at h
  · cases h
  · rename_i hlt
    exact ⟨(Except.error.inj h).symm, hlt⟩

theorem transmit_error {frame : FrameT} (h : s.transmit P c frame = .error x) :
    x = .outOfBounds ∧ ¬frame.address < deviceHighAddress := by
  obtain h | ⟨_, -, h⟩ := bind_error.mp h
  · exact deviceExists_error h
  · split at h <;> cases h

theorem await_error {k : Poll} {cl : Client} {timeout : BitVec 32} :
    s.await k c cl timeout ≠ .error x := by
  intro h
  rw [await] at h
  split at h
  · cases h
  · split at h <;> cases h

theorem poll_error {k : Poll} {timeout : BitVec 32} (h : s.poll k c timeout = .error x) :
    x = .badPointer := by
  obtain h | ⟨cl, -, h⟩ := bind_error.mp h
  · exact client_error h
  · split at h
    · cases h
    · exact absurd h await_error

theorem setFlags_error {device : Nat} {flags : BitVec 64}
    (h : s.setFlags P c device flags = .error x) :
    x = .badPointer ∨ x = .outOfBounds ∧ ¬device < deviceHighAddress := by
  obtain h | ⟨_, -, h⟩ := bind_error.mp h
  · exact .inr (deviceExists_error h)
  · split at h
    · obtain h | ⟨_, -, h⟩ := bind_error.mp h
      · exact .inl (client_error h)
      · cases h
    · cases h

theorem clearClientNotes_error (h : s.clearClientNotes P c = .error x) : x = .badPointer := by
  obtain h | ⟨_, -, h⟩ := bind_error.mp h
  · exact client_error h
  · cases h

theorem handleNoteClear_error (h : handleNoteClear P s c = .error x) : x = .badPointer := by
  obtain h | ⟨_, -, h⟩ := bind_error.mp h
  · exact clearClientNotes_error h
  · cases h

theorem timedOut_error {k : Poll} {id : Nat} (h : s.timedOut k id c = .error x) :
    x = .badPointer := by
  obtain h | ⟨_, -, h⟩ := bind_error.mp h
  · exact client_error h
  · cases h

end

end Ipc

end Sricd
