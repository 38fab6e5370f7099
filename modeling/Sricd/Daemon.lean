import Sricd.Callbacks
import Sricd.Ipc

/-!
# The daemon

The serial interface and the clients, with the calls between them. Every
event is one of the two modules, and what it asks of the other is done in
the same callback.
-/

namespace Sricd

open Sricd.Lib

structure Daemon where
  sricIf : SricIf
  ipc : Ipc

/-- An event of a module. Calls into the serial interface are none. -/
inductive DaemonEvent where
  | sricIf (ev : IfEvent)
  | ipc (ev : IpcEvent)
deriving DecidableEq

inductive DaemonOut where
  | sricIf (o : IfOut)
  | ipc (o : IpcOut)
deriving DecidableEq

/-- The call is made by another module. -/
def IfEvent.isCall : IfEvent → Bool
  | .push _ _ => true
  | .cancel _ => true
  | _ => false

namespace Ipc

/-- What the serial interface asks of the rest of the daemon. A tag that is
no client's is no pointer to one. -/
def call (P : Platform) (s : Ipc) : IfOut → Result
  | .pushRx (.client c) f => s.clientPushRx c f
  | .pushRx .null _ => .error .assertion
  | .pushRx .badEnum _ => .error .badPointer
  | .note f => s.dispatchNote P f
  | .deviceAdd address type => .ok ({ s with devices := s.devices.deviceAdd address type }, [])
  | .listen => .ok (s.listen, [])
  | .wrote _ => .ok (s, [])
  | .free _ => .ok (s, [])

def calls (P : Platform) (s : Ipc) : List IfOut → Result
  | [] => .ok (s, [])
  | o :: os => do
      let (s, out) ← s.call P o
      let (s, outs) ← s.calls P os
      .ok (s, out ++ outs)

end Ipc

namespace SricIf

/-- What a client's request asks of the serial interface. -/
def call (s : SricIf) : IpcOut → SricIf × List IfOut
  | .reply _ _ => (s, [])
  | .push f => (s.txqPush f 1, [])
  | .cancel c => s.txqCancel (.client c)

def calls (s : SricIf) : List IpcOut → SricIf × List IfOut
  | [] => (s, [])
  | o :: os =>
      let (s, out) := s.call o
      let (s, outs) := s.calls os
      (s, out ++ outs)

end SricIf

namespace Daemon

/-- Behind `init`. -/
def init : Daemon where
  sricIf := .init
  ipc := .init

/-- One event. -/
def step (P : Platform) (s : Daemon) : DaemonEvent → Except Halt (Daemon × List DaemonOut)
  | .sricIf ev =>
      if ev.isCall then .error .disabled
      else do
        let (sricIf, out) ← s.sricIf.step ev
        let (ipc, outs) ← s.ipc.calls P out
        .ok (⟨sricIf, ipc⟩, out.map .sricIf ++ outs.map .ipc)
  | .ipc ev => do
      let (ipc, out) ← s.ipc.step P ev
      let (sricIf, outs) := s.sricIf.calls out
      .ok (⟨sricIf, ipc⟩, out.map .ipc ++ outs.map .sricIf)

theorem sricIf_ok {P : Platform} {s s' : Daemon} {ev : IfEvent} {out : List DaemonOut}
    (h : step P s (.sricIf ev) = .ok (s', out)) :
    ∃ os ipc outs, ev.isCall = false ∧ s.sricIf.step ev = .ok (s'.sricIf, os)
      ∧ s.ipc.calls P os = .ok (ipc, outs) ∧ s'.ipc = ipc
      ∧ out = os.map .sricIf ++ outs.map .ipc := by
  rw [step] at h
  split at h
  · cases h
  · rename_i hcall
    obtain ⟨⟨t, os⟩, ht, h⟩ := bind_ok.mp h
    obtain ⟨⟨ipc, outs⟩, hi, h⟩ := bind_ok.mp h
    cases h
    exact ⟨os, ipc, outs, by simpa using hcall, ht, hi, rfl, rfl⟩

theorem ipc_ok {P : Platform} {s s' : Daemon} {ev : IpcEvent} {out : List DaemonOut}
    (h : step P s (.ipc ev) = .ok (s', out)) :
    ∃ os, s.ipc.step P ev = .ok (s'.ipc, os) ∧ s'.sricIf = (s.sricIf.calls os).1
      ∧ out = os.map .ipc ++ (s.sricIf.calls os).2.map .sricIf := by
  rw [step] at h
  obtain ⟨⟨ipc, os⟩, hi, h⟩ := bind_ok.mp h
  cases h
  exact ⟨os, hi, rfl, rfl⟩

/-- A frame is written, in `w` bytes, and its ack arrives. -/
def exchange (id w : Nat) (source : Byte) (payload : List Byte) : List DaemonEvent :=
  [.sricIf (.ifTx id (some w)), .sricIf (.frame (ackBytes source payload))]

/-- The enumeration of a bus with one device, behind which a client
connects. -/
def connected : List DaemonEvent :=
  oneDevice (.sricIf .enumStart) (fun id => .sricIf (.killToken id))
    (fun id => .sricIf (.sendReset id)) (fun id => .sricIf (.ifTx id (some 7))) exchange
    ++ [.ipc (.new 1)]

end Daemon

end Sricd
