import Sricd.Client
import Sricd.Lib.MainLoop

/-!
# The clients' sockets

`ipc.c`, with the calls of `client.c` and `device.c` that end in it: the
commands that clients send, and the replies they get. A callback is a
function on the clients, their sockets and the device table; what it
writes to a socket, and its calls of `txq_push` and `txq_cancel`, are its
output.
-/

namespace Sricd

open Sricd.Lib

/-- The event sources of the module. -/
inductive IpcSource where
  /-- the watch for `ipc_new` -/
  | new
  /-- the watch for `ipc_client_incoming` -/
  | incoming (c : Nat)
  /-- the watch for `ipc_client_death` -/
  | death (c : Nat)
  /-- the timeout of a poll -/
  | timeout (k : Poll) (c : Nat)
deriving DecidableEq, Repr

/-- The daemon's end of a connection: what the client has sent and is not
yet read, and whether the client has closed its end. -/
structure Socket where
  inbox : List Byte
  closed : Bool
deriving DecidableEq

/-- What is written to a socket in answer to a request: a status, a frame
behind the status 0 (`send_rx`), or the list of devices behind it. -/
inductive Reply where
  | status (result : Byte)
  | frame (f : Frame)
  | devices (ds : List (Nat × BitVec 16))
deriving DecidableEq

def eSuccess : Byte := 0
def eBadAddr : Byte := 1
def eTimeout : Byte := 2
def eBadRequest : Byte := 3

/-- `htons`, as the bytes in memory. -/
def htons (x : BitVec 16) : List Byte := [(x >>> 8).truncate 8, x.truncate 8]

/-- The bytes of a reply. -/
def Reply.bytes : Reply → List Byte
  | .status result => [result]
  | .frame f =>
      [eSuccess, 0, f.sourceAddress, f.note >>> 8, f.note, 0, BitVec.ofNat 8 f.payload.length]
        ++ f.payload
  | .devices ds =>
      eSuccess :: htons (BitVec.ofNat 16 ds.length)
        ++ ds.flatMap fun (address, type) => htons (BitVec.ofNat 16 address) ++ htons type

/-- What leaves the module. -/
inductive IpcOut where
  | reply (c : Nat) (r : Reply)
  /-- `txq_push`, at priority 1 -/
  | push (f : FrameT)
  /-- `txq_cancel` -/
  | cancel (c : Nat)
deriving DecidableEq

/-- The main loop, the sockets, the allocated clients, the number of
connections so far, and the device table. A client is named by the number
of its connection. -/
structure Ipc where
  loop : MainLoop IpcSource
  sockets : Nat → Socket
  clients : Nat → Option Client
  accepted : Nat
  devices : Devices

namespace Ipc

/-- Behind `init`. -/
def init : Ipc where
  loop := .empty
  sockets _ := ⟨[], false⟩
  clients _ := none
  accepted := 0
  devices := .reset

/-- A callback of the module, or a call into it. -/
abbrev Result := Except Halt (Ipc × List IpcOut)

/-- A client that is read from or written to has to be there. -/
def client (s : Ipc) (c : Nat) : Except Halt Client :=
  match s.clients c with
  | none => .error .badPointer
  | some cl => .ok cl

def setClient (s : Ipc) (c : Nat) (cl : Client) : Ipc :=
  { s with clients := Function.update s.clients c (some cl) }

/-- Who is there, where one client is written. -/
theorem update_clients {clients : Nat → Option Client} {c d : Nat} {cl cl' : Client}
    (h : Function.update clients c (some cl) d = some cl') :
    (d = c ∧ cl' = cl) ∨ (d ≠ c ∧ clients d = some cl') := by
  by_cases hd : d = c
  · rw [hd, Function.update_self] at h
    exact .inl ⟨hd, (Option.some.inj h).symm⟩
  · rw [Function.update_of_ne hd] at h
    exact .inr ⟨hd, h⟩

theorem update_gone {clients : Nat → Option Client} {c d : Nat} {cl : Client}
    (h : Function.update clients c none d = some cl) : clients d = some cl := by
  by_cases hd : d = c
  · rw [hd, Function.update_self] at h
    cases h
  · rwa [Function.update_of_ne hd] at h

def setSocket (s : Ipc) (c : Nat) (k : Socket) : Ipc :=
  { s with sockets := Function.update s.sockets c k }

/-- `read` of up to `n` bytes: what there is. It blocks while there is
nothing, and returns nothing at the end. -/
def read (s : Ipc) (c n : Nat) : Except Halt (List Byte × Ipc) :=
  let k := s.sockets c
  if n = 0 ∨ k.inbox ≠ [] ∨ k.closed then
    .ok (k.inbox.take n, s.setSocket c { k with inbox := k.inbox.drop n })
  else .error .disabled

/-- A read blocks where there is nothing. -/
theorem read_cases (s : Ipc) (c n : Nat) :
    (s.read c n = .error .disabled ∧ n ≠ 0 ∧ (s.sockets c).inbox = []
        ∧ (s.sockets c).closed = false)
      ∨ ((n ≠ 0 → (s.sockets c).inbox ≠ [] ∨ (s.sockets c).closed = true)
        ∧ s.read c n = .ok ((s.sockets c).inbox.take n,
          s.setSocket c ⟨(s.sockets c).inbox.drop n, (s.sockets c).closed⟩)) := by
  by_cases h : n = 0 ∨ (s.sockets c).inbox ≠ [] ∨ (s.sockets c).closed
  · exact .inr ⟨h.resolve_left, if_pos h⟩
  · refine .inl ⟨if_neg h, ?_⟩
    simpa using h

@[simp] theorem setSocket_sockets (s : Ipc) (c : Nat) (k : Socket) :
    (s.setSocket c k).sockets c = k :=
  Function.update_self ..

/-- `write_result`. -/
def result (s : Ipc) (c : Nat) (r : Byte) : Result := .ok (s, [.reply c (.status r)])

/-- `(int) lo | ((int) hi << 8)`. -/
def le16 (lo hi : Byte) : Nat := lo.toNat ||| hi.toNat <<< 8

/-! ## Requests -/

/-- The end of `handle_tx`. -/
def transmit (P : Platform) (s : Ipc) (c : Nat) (frame : FrameT) : Result := do
  if ← s.devices.deviceExists P frame.address then
    .ok (s, [.push frame, .reply c (.status eSuccess)])
  else s.result c eBadAddr

/-- `handle_tx`, from the payload on, which is read into an array of
`PAYLOAD_MAX` bytes. -/
def readPayload (P : Platform) (s : Ipc) (c address payloadLength : Nat) : Result := do
  let (payload, s) ← s.read c payloadLength
  if h : payload.length ≤ payloadMax then
    if payload.length ≠ payloadLength then s.result c eBadRequest
    else s.transmit P c ⟨.sric, address, .client c, payload, h⟩
  else .error .outOfBounds

/-- `handle_tx`. -/
def handleTx (P : Platform) (s : Ipc) (c : Nat) : Result := do
  let (buf, s) ← s.read c 4
  match buf with
  | [a0, a1, l0, l1] => s.readPayload P c (le16 a0 a1) (le16 l0 l1)
  | _ => s.result c eBadRequest

/-- A poll that finds nothing. -/
def await (k : Poll) (s : Ipc) (c : Nat) (cl : Client) (timeout : BitVec 32) : Result :=
  if timeout = 0 then s.result c eTimeout
  else if timeout = -1 then
    .ok (s.setClient c (cl.setBox k { cl.box k with ping := true }), [])
  else
    .ok ({ s with loop := s.loop.add (.timeout k c) }.setClient c
      (cl.setBox k { cl.box k with timer := s.loop.nextId, ping := true }), [])

/-- `handle_poll_rx` and `handle_poll_note`, when the timeout is known. -/
def poll (k : Poll) (s : Ipc) (c : Nat) (timeout : BitVec 32) : Result := do
  let cl ← s.client c
  match cl.pop k with
  | some (f, cl) => .ok (s.setClient c cl, [.reply c (.frame f)])
  | none => s.await k c cl timeout

/-- `handle_poll_rx` and `handle_poll_note`. The timeout is sent in network
order, and -1 waits for ever. -/
def handlePoll (k : Poll) (s : Ipc) (c : Nat) : Result := do
  let (buf, s) ← s.read c 4
  match buf with
  | [b3, b2, b1, b0] => s.poll k c (b3 ++ b2 ++ b1 ++ b0)
  | _ => s.result c eBadRequest

/-- `handle_poll_rx`. -/
def handlePollRx : Ipc → Nat → Result := handlePoll .rx

/-- `handle_poll_note`. -/
def handlePollNote : Ipc → Nat → Result := handlePoll .note

/-- The end of `handle_note_flags`. -/
def setFlags (P : Platform) (s : Ipc) (c : Nat) (device : Nat) (flags : BitVec 64) : Result := do
  if ← s.devices.deviceExists P device then
    let cl ← s.client c
    { s with devices := s.devices.setClientNotes device c flags }.setClient c
      (cl.setNoteData P device flags) |>.result c eSuccess
  else s.result c eBadAddr

/-- `handle_note_flags`, from the flags on. Where they cannot be read it
goes on with `stale`, what their variable then holds in host order: the
bytes that were read, and for the others whatever was there. -/
def readFlags (P : Platform) (s : Ipc) (c : Nat) (stale : BitVec 64) (device : Nat) : Result := do
  let (buf, s) ← s.read c 8
  match buf with
  | [b7, b6, b5, b4, b3, b2, b1, b0] =>
      s.setFlags P c device (b7 ++ b6 ++ b5 ++ b4 ++ b3 ++ b2 ++ b1 ++ b0)
  | _ => do
      let (s, out) ← s.setFlags P c device stale
      .ok (s, .reply c (.status eBadRequest) :: out)

/-- `handle_note_flags`. -/
def handleNoteFlags (P : Platform) (s : Ipc) (c : Nat) (stale : BitVec 64) : Result := do
  let (buf, s) ← s.read c 2
  match buf with
  | [d1, d0] => s.readFlags P c stale (d1 ++ d0 : BitVec 16).toNat
  | _ => s.result c eBadRequest

/-- `device_clear_client_notes`. -/
def clearClientNotes (P : Platform) (s : Ipc) (c : Nat) : Except Halt Ipc := do
  let cl ← s.client c
  .ok ({ s with devices := s.devices.clearClientNotes c }.setClient c (cl.clearNoteData P))

/-- `handle_note_clear`. -/
def handleNoteClear (P : Platform) (s : Ipc) (c : Nat) : Result := do
  let s ← s.clearClientNotes P c
  s.result c eSuccess

/-- The addresses that `handle_list_devices` goes through, with the types
as it sends them. -/
def knownDevices (P : Platform) (d : Devices) : List (Nat × BitVec 16) :=
  ((List.range deviceHighAddress).filter (d.known P)).map fun i =>
    (i, if P.charSigned then (d.deviceType i).signExtend 16 else (d.deviceType i).zeroExtend 16)

/-- `handle_list_devices`. -/
def handleListDevices (P : Platform) (s : Ipc) (c : Nat) : Result :=
  .ok (s, [.reply c (.devices (knownDevices P s.devices))])

/-- The `switch` of `ipc_client_incoming`. -/
def command (P : Platform) (s : Ipc) (c : Nat) (stale : BitVec 64) (cmd : Byte) : Result :=
  match cmd.toNat with
  | 0 => handleTx P s c
  | 1 => handleNoteFlags P s c stale
  | 2 => handlePollRx s c
  | 3 => handlePollNote s c
  | 4 => handleNoteClear P s c
  | 5 => handleListDevices P s c
  | _ => s.result c eBadRequest

/-- A source that is not called again. -/
def drop (s : Ipc) (id : Nat) : Ipc := { s with loop := s.loop.remove id }

/-- `ipc_client_incoming`. -/
def clientIncoming (P : Platform) (s : Ipc) (id c : Nat) (stale : BitVec 64) : Result := do
  let (cmd, s) ← s.read c 1
  match cmd with
  | [cmd] => s.command P c stale cmd
  | _ => .ok (s.drop id, [])

/-! ## Connections -/

/-- `ipc_new`. -/
def new (s : Ipc) : Ipc :=
  { s with
    loop := (s.loop.add (.incoming s.accepted)).add (.death s.accepted)
    clients := Function.update s.clients s.accepted (some .create)
    accepted := s.accepted + 1 }

/-- A connection adds its two watches. -/
theorem new_live {s : Ipc} {id : Nat} {k : IpcSource} :
    (id, k) ∈ s.new.loop.live ↔ (id, k) ∈ s.loop.live
      ∨ (id = s.loop.nextId ∧ k = .incoming s.accepted)
      ∨ (id = s.loop.nextId + 1 ∧ k = .death s.accepted) := by
  rw [new, MainLoop.mem_add, MainLoop.mem_add, Prod.mk.injEq, Prod.mk.injEq, or_assoc]
  rfl

theorem new_clients {s : Ipc} {c : Nat} {cl : Client} (h : s.new.clients c = some cl) :
    (c = s.accepted ∧ cl = .create) ∨ (c ≠ s.accepted ∧ s.clients c = some cl) :=
  update_clients h

/-- `client_destroy`. -/
def clientDestroy (P : Platform) (s : Ipc) (c : Nat) : Result := do
  let s ← s.clearClientNotes P c
  .ok ({ s with clients := Function.update s.clients c none }, [.cancel c])

/-- `ipc_client_death`. -/
def clientDeath (P : Platform) (s : Ipc) (id c : Nat) : Result := do
  let (s, out) ← s.clientDestroy P c
  .ok (s.drop id, out)

/-! ## What is received for a client -/

/-- `rx_ping` and `note_ping`. -/
def ping (k : Poll) (s : Ipc) (c : Nat) : Result := do
  let cl ← s.client c
  let loop := if (cl.box k).timer ≠ 0 then s.loop.remove (cl.box k).timer else s.loop
  match (cl.setBox k { cl.box k with timer := 0, ping := false }).pop k with
  | none => .error .assertion
  | some (f, cl) => .ok ({ s with loop := loop }.setClient c cl, [.reply c (.frame f)])

/-- `client_push_rx` and `client_push_note`. -/
def clientPush (k : Poll) (s : Ipc) (c : Nat) (f : Frame) : Result := do
  let cl ← s.client c
  let s := s.setClient c (cl.push k f)
  if (cl.box k).ping then s.ping k c else .ok (s, [])

/-- `client_push_rx`. -/
def clientPushRx : Ipc → Nat → Frame → Result := clientPush .rx

/-- `client_push_note`. -/
def clientPushNote : Ipc → Nat → Frame → Result := clientPush .note

/-- A note for each of the clients. -/
def pushNotes (s : Ipc) (note : Frame) : List Nat → Result
  | [] => .ok (s, [])
  | c :: cs => do
      let (s, out) ← s.clientPushNote c note
      let (s, outs) ← s.pushNotes note cs
      .ok (s, out ++ outs)

/-- `device_dispatch_note`. -/
def dispatchNote (P : Platform) (s : Ipc) (note : Frame) : Result :=
  if note.sourceAddress.toNat < deviceHighAddress then
    s.pushNotes note (s.devices.noteClients P note)
  else .error .outOfBounds

/-- What both timeouts do. -/
def timedOut (k : Poll) (s : Ipc) (id c : Nat) : Result := do
  let cl ← s.client c
  (s.setClient c (cl.setBox k { cl.box k with timer := 0 })).drop id |>.result c eTimeout

/-- `timeout_callback`. -/
def timeoutCallback (s : Ipc) (id c : Nat) : Result := do
  let (s, out) ← s.timedOut .rx id c
  .ok (s, .cancel c :: out)

/-- `note_timeout_callback`. -/
def noteTimeoutCallback : Ipc → Nat → Nat → Result := timedOut .note

/-- `ipc_listen`. -/
def listen (s : Ipc) : Ipc := { s with loop := s.loop.add .new }

end Ipc

/-! ## Events -/

/-- What can happen to the module: something a client does, or a callback
of the source with the given id. -/
inductive IpcEvent where
  | new (id : Nat)
  /-- the client writes to its socket -/
  | sent (c : Nat) (bytes : List Byte)
  /-- the client closes its socket -/
  | closed (c : Nat)
  /-- `stale` is what `flags` holds when it is not read in full -/
  | incoming (id c : Nat) (stale : BitVec 64)
  | death (id c : Nat)
  | timeout (k : Poll) (id c : Nat)
deriving DecidableEq

/-- The source that an event needs. -/
def IpcEvent.source : IpcEvent → Option (Nat × IpcSource)
  | .new id => some (id, .new)
  | .incoming id c _ => some (id, .incoming c)
  | .death id c => some (id, .death c)
  | .timeout k id c => some (id, .timeout k c)
  | _ => none

namespace Ipc

/-- The effect of an event whose source is registered. -/
def handle (P : Platform) (s : Ipc) : IpcEvent → Result
  | .new _ => .ok (s.new, [])
  | .sent c bytes =>
      let k := s.sockets c
      if c < s.accepted ∧ k.closed = false then
        .ok (s.setSocket c { k with inbox := k.inbox ++ bytes }, [])
      else .error .disabled
  | .closed c =>
      if c < s.accepted then .ok (s.setSocket c { s.sockets c with closed := true }, [])
      else .error .disabled
  | .incoming id c stale => s.clientIncoming P id c stale
  | .death id c => if (s.sockets c).closed then s.clientDeath P id c else .error .disabled
  | .timeout .rx id c => s.timeoutCallback id c
  | .timeout .note id c => s.noteTimeoutCallback id c

/-- One event. -/
def step (P : Platform) (s : Ipc) (ev : IpcEvent) : Result :=
  match ev.source with
  | some p => if p ∈ s.loop.live then s.handle P ev else .error .disabled
  | none => s.handle P ev

theorem step_handle {P : Platform} {s s' : Ipc} {ev : IpcEvent} {out : List IpcOut}
    (h : s.step P ev = .ok (s', out)) :
    (∀ p, ev.source = some p → p ∈ s.loop.live) ∧ s.handle P ev = .ok (s', out) := by
  rw [step] at h
  split at h
  · rename_i p hp
    split at h
    · rename_i hl
      refine ⟨?_, h⟩
      intro q hq
      rw [hp] at hq
      cases hq
      exact hl
    · cases h
  · rename_i hn
    exact ⟨fun q hq => by rw [hn] at hq; (cases hq), h⟩

end Ipc

end Sricd
