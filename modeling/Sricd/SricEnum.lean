import Sricd.Device

/-!
# Enumeration

`sric-enum.c`: the state machine that gives every device on the bus an
address and asks each of them for its class. A call of the state machine
returns what it asked of the rest of the daemon, in order: frames for the
transmit queue, timers for the main loop, entries for the device table.
-/

namespace Sricd

inductive EnumState where
  | idle
  | killingToken
  | resetting
  | enumerating
  | settingAddr
  | settingGwAddr
  | advancingToken
  | fetchingClasses
  | enumerated
deriving DecidableEq, Repr

inductive EnumEvent where
  /-- Start enumeration -/
  | startEnum
  /-- Finished flushing the token -/
  | flushDone
  /-- Have captured token -/
  | tokenCatchTimeout
  /-- The bus has been reset -/
  | busReset
  /-- An unenumerated device is on the bus -/
  | devPresent
  /-- Received ack from newest device on bus -/
  | newDevAck
  /-- Token has reached gateway; bus enumerated -/
  | tokAtGw
  /-- Received an addr info response -/
  | addrInfoAck
deriving DecidableEq, Repr

/-- The timeouts that enumeration registers: `kill_token_timeout` and
`send_reset_timeout`. -/
inductive EnumTimer where
  | killToken
  | sendReset
deriving DecidableEq, Repr

/-- What the state machine asks for. -/
inductive EnumAction where
  /-- `txq_push (f, ENUM_PRI)` -/
  | push (f : FrameT)
  /-- `g_timeout_add` -/
  | addTimer (t : EnumTimer)
  /-- `device_add` -/
  | deviceAdd (address : Nat) (type : Byte)
deriving DecidableEq

/-- The static variables of `sric-enum.c`. -/
structure Enum where
  resetCount : Nat
  currentNextAddress : Nat
  currentAddrInfoAddr : Nat
  deviceClasses : Nat → Byte
  addrInfoReplies : Nat → Bool
  state : EnumState

/-! ## The frames of enumeration -/

/-- `send_reset`. -/
def sendReset : FrameT where
  type := .sric
  address := 0
  tag := .null
  payload := [0x80 ||| 0]
  payload_le := by decide

/-- `send_address`: ADDR_ASSIGN, for the device that has the token. -/
def sendAddress (addr : Nat) : FrameT where
  type := .sric
  address := 0
  tag := .badEnum
  payload := [0x80 ||| 2, BitVec.ofNat 8 addr]
  payload_le := Nat.succ_le_succ (Nat.succ_le_succ (Nat.zero_le _))

/-- `send_tok_advance`. -/
def sendTokAdvance (addr : Nat) : FrameT where
  type := .sric
  address := addr
  tag := .badEnum
  payload := [0x80 ||| 1]
  payload_le := by decide

/-- `send_addr_info_req`. -/
def sendAddrInfoReq (addr : Nat) : FrameT where
  type := .sric
  address := addr
  tag := .badEnum
  payload := [0x80 ||| 3]
  payload_le := by decide

/-- `gw_cmd`. -/
def gwCmd (cmd : Byte) (d : List Byte) (h : d.length + 1 ≤ payloadMax) : FrameT where
  type := .gwConf
  address := 1
  tag := .badEnum
  payload := cmd :: d
  payload_le := h

def gwCmdUseToken (use : Bool) : FrameT :=
  gwCmd 0 [if use then 1 else 0] (Nat.succ_le_succ (Nat.succ_le_succ (Nat.zero_le _)))

def gwCmdReqToken : FrameT := gwCmd 1 [] (by decide)

def gwCmdHaveToken : FrameT := gwCmd 2 [] (by decide)

def gwCmdGenToken : FrameT := gwCmd 3 [] (by decide)

/-! ## The state machine -/

namespace Enum

/-- The static initial values. -/
def init : Enum where
  resetCount := 0
  currentNextAddress := 2
  currentAddrInfoAddr := 2
  deviceClasses _ := 0
  addrInfoReplies _ := false
  state := .idle

/-- `sric_enum_fsm`; `none` is its `exit (1)`. The two address counters are
of type `uint8_t`. -/
def fsm (e : Enum) (ev : EnumEvent) : Option (Enum × List EnumAction) :=
  match e.state with
  | .idle =>
      if ev = .startEnum then
        some ({ e with state := .killingToken },
          [.push (sendTokAdvance 0), .push (sendTokAdvance 0), .push gwCmdReqToken,
            .addTimer .killToken])
      else some (e, [])
  | .killingToken =>
      if ev = .tokenCatchTimeout then
        some ({ e with state := .resetting },
          [.push (gwCmdUseToken false), .addTimer .sendReset])
      else some (e, [])
  | .resetting =>
      if ev = .busReset then
        -- put a token on the bus, hold onto it when it comes back, and ask
        -- whether it went all the way round
        some ({ e with state := .enumerating },
          [.push gwCmdGenToken, .push gwCmdReqToken, .push gwCmdHaveToken])
      else some (e, [])
  | .enumerating =>
      if ev = .tokAtGw ∨ ev = .devPresent then
        if e.currentNextAddress ≥ deviceHighAddress then none
        else
          some ({ e with
              state := if ev = .devPresent then .settingAddr else .settingGwAddr },
            [.push (sendAddress e.currentNextAddress)])
      else some (e, [])
  | .settingGwAddr =>
      if ev = .newDevAck then
        some ({ e with
            currentNextAddress := (e.currentNextAddress + 1) % 256
            state := .fetchingClasses
            addrInfoReplies := fun _ => false
            currentAddrInfoAddr := 3 },
          [.push (gwCmdUseToken true), .push gwCmdGenToken, .push (sendAddrInfoReq 2)])
      else some (e, [])
  | .settingAddr =>
      if ev = .newDevAck then
        some ({ e with state := .advancingToken }, [.push (sendTokAdvance e.currentNextAddress)])
      else some (e, [])
  | .advancingToken =>
      if ev = .newDevAck then
        some ({ e with
            currentNextAddress := (e.currentNextAddress + 1) % 256
            state := .enumerating },
          [.push gwCmdHaveToken])
      else some (e, [])
  | .fetchingClasses =>
      if ev = .addrInfoAck then
        if e.currentAddrInfoAddr = e.currentNextAddress then
          some ({ e with state := .enumerated },
            (List.range' 2 (e.currentNextAddress - 2)).map fun i =>
              .deviceAdd i (e.deviceClasses i))
        else
          some ({ e with currentAddrInfoAddr := (e.currentAddrInfoAddr + 1) % 256 },
            [.push (sendAddrInfoReq e.currentAddrInfoAddr)])
      else some (e, [])
  | .enumerated => some (e, [])

/-- `sric_enum_start`. -/
def start (e : Enum) : Option (Enum × List EnumAction) := e.fsm .startEnum

/-- `kill_token_timeout`, which is not called again. -/
def killTokenTimeout (e : Enum) : Option (Enum × List EnumAction) :=
  e.fsm .tokenCatchTimeout

/-- `send_reset_timeout`; `true` when it is to be called again. -/
def sendResetTimeout (e : Enum) : Option (Enum × List EnumAction × Bool) :=
  let e := { e with resetCount := (e.resetCount + 1) % 256 }
  if e.resetCount > 5 then (e.fsm .busReset).map fun (e, acts) => (e, acts, false)
  else some (e, [.push sendReset], true)

/-- The part of `sric_enum_rx` that chooses the event. -/
def dispatch (e : Enum) (f : PackedFrame) : Option (Enum × List EnumAction) :=
  -- a HAVE_TOKEN response
  if e.state = .enumerating ∧ f.payload.length = 1 ∧ f.isAck = true then
    if f.payload.headD 0 = 0 then e.fsm .devPresent else e.fsm .tokAtGw
  else if e.state ≠ .idle then
    -- an ack from the newest address on the bus
    if f.source = e.currentNextAddress ∧ f.isAck = true then e.fsm .newDevAck
    -- a response to ADDR_INFO
    else if f.isAck = true ∧ e.state = .fetchingClasses ∧ f.payload.length = 1 then
      { e with
        addrInfoReplies := Function.update e.addrInfoReplies f.source true
        deviceClasses := Function.update e.deviceClasses f.source (f.payload.headD 0) }.fsm
          .addrInfoAck
    else some (e, [])
  else some (e, [])

/-- `sric_enum_rx`; `false` when enumeration is done. -/
def rx (e : Enum) (f : PackedFrame) : Option (Enum × List EnumAction × Bool) :=
  (e.dispatch f).map fun (e, acts) => (e, acts, e.state != .enumerated)

end Enum

end Sricd
