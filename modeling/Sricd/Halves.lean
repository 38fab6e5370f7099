import Sricd.Lib.Parts
import Sricd.Mail

/-!
# The two halves of the daemon

A run of the daemon, seen from its serial interface and from its clients.
What an event of one half asks of the other is a list of events there, in
order, so that each half has a run of its own (`sricIf_runs`,
`ipc_runs`), and what is known of its runs is known of the daemon's.
-/

namespace Sricd

open Sricd.Lib

/-- The event of the serial interface that a client's request comes to. -/
def IpcOut.ifEvent : IpcOut → Option IfEvent
  | .reply _ _ => none
  | .push f => some (.push f 1)
  | .cancel c => some (.cancel (.client c))

/-- The requests in what has been read. -/
def Heard.calls (c : Nat) (stale : BitVec 64) : Heard → List ClientCall
  | .request q => [.request c q]
  | .cutFlags device => [.request c (.noteFlags device stale)]
  | _ => []

namespace Ipc

/-- The calls that an event comes to. -/
def eventCalls (s : Ipc) : IpcEvent → List ClientCall
  | .new _ => [.connect]
  | .sent c bytes => [.socket c { s.sockets c with inbox := (s.sockets c).inbox ++ bytes }]
  | .closed c => [.socket c { s.sockets c with closed := true }]
  | .incoming id c stale =>
      match (s.sockets c).inbox with
      | [] => [.drop id]
      | cmd :: inbox =>
          let (heard, rest) := hear (s.sockets c).closed cmd inbox
          .socket c ⟨rest, (s.sockets c).closed⟩ :: heard.calls c stale
  | .death id c => [.destroy c, .drop id]
  | .timeout k id c => [.timeout k id c]

end Ipc

/-- The call brings something that was received from the bus. -/
def ClientCall.fromBus : ClientCall → Bool
  | .push _ _ _ => true
  | .dispatchNote _ => true
  | _ => false

theorem Heard.calls_fromBus {heard : Heard} {c : Nat} {stale : BitVec 64} {call : ClientCall}
    (h : call ∈ heard.calls c stale) : call.fromBus = false := by
  cases heard with
  | request q | cutFlags device =>
      rw [List.mem_singleton.mp h]
      rfl
  | nothing | overflow | malformed => cases h

/-- A client's events bring nothing from the bus. -/
theorem Ipc.eventCalls_fromBus {s : Ipc} {ev : IpcEvent} {call : ClientCall}
    (h : call ∈ s.eventCalls ev) : call.fromBus = false := by
  cases ev with
  | new | sent | closed | timeout =>
      rw [List.mem_singleton.mp h]
      rfl
  | death id c =>
      rcases List.mem_cons.mp h with rfl | h
      · rfl
      · rw [List.mem_singleton.mp h]
        rfl
  | incoming id c stale =>
      rw [eventCalls] at h
      split at h
      · rw [List.mem_singleton.mp h]
        rfl
      · rcases List.mem_cons.mp h with rfl | h
        · rfl
        · exact Heard.calls_fromBus h

namespace Daemon

/-- What an event of the daemon is to its serial interface. -/
def ifEvents (P : Platform) (s : Daemon) : DaemonEvent → List IfEvent
  | .sricIf ev => [ev]
  | .ipc ev => (Ipc.outputs (s.ipc.step P ev)).filterMap IpcOut.ifEvent

/-- What an event of the daemon is to its clients. -/
def clientCalls (s : Daemon) : DaemonEvent → List ClientCall
  | .sricIf ev =>
      match s.sricIf.step ev with
      | .ok (_, os) => os.flatMap IfOut.clientCalls
      | .error _ => []
  | .ipc ev => s.ipc.eventCalls ev

end Daemon

/-! ## The serial interface -/

namespace SricIf

theorem call_run (s : SricIf) (o : IpcOut) :
    ∃ ps, run step s o.ifEvent.toList = .ok ((s.call o).1, ps) := by
  cases o with
  | reply c r => exact ⟨[], rfl⟩
  | push f => exact ⟨[], run_single.mpr rfl⟩
  | cancel c => exact ⟨_, run_single.mpr rfl⟩

theorem calls_run (s : SricIf) (os : List IpcOut) :
    ∃ ps, run step s (os.filterMap IpcOut.ifEvent) = .ok ((s.calls os).1, ps) := by
  induction os generalizing s with
  | nil => exact ⟨[], rfl⟩
  | cons o os ih =>
      obtain ⟨ps, hps⟩ := s.call_run o
      obtain ⟨qs, hqs⟩ := ih (s.call o).1
      have hcons : (o :: os).filterMap IpcOut.ifEvent
          = o.ifEvent.toList ++ os.filterMap IpcOut.ifEvent := by
        rw [List.filterMap_cons]
        cases o.ifEvent <;> rfl
      rw [hcons]
      exact ⟨ps ++ qs, run_append_ok.mpr ⟨_, ps, qs, hps, hqs, rfl⟩⟩

end SricIf

/-- **The serial interface runs on its own events.** -/
theorem Daemon.sricIf_runs (P : Platform) :
    PartRuns (Daemon.step P) SricIf.step Daemon.sricIf (Daemon.ifEvents P) := by
  intro s ev s' out hs
  cases ev with
  | sricIf ev =>
      obtain ⟨os, -, -, -, ht, -⟩ := sricIf_ok hs
      exact ⟨os, run_single.mpr ht⟩
  | ipc ev =>
      obtain ⟨os, hi, ht, -⟩ := ipc_ok hs
      rw [ifEvents, hi, ht]
      exact s.sricIf.calls_run os

/-- The invariant of the transmit side is one of the daemon. -/
theorem Daemon.txInv_step {P : Platform} {s s' : Daemon} {ev : DaemonEvent} {out : List DaemonOut}
    (h : s.sricIf.TxInv) (hs : Daemon.step P s ev = .ok (s', out)) : s'.sricIf.TxInv := by
  obtain ⟨ps, hps⟩ := sricIf_runs P s ev s' out hs
  exact h.run hps

/-! ## The clients -/

/-- The frames that are written to a client, all kinds alike. -/
def framesTo (c : Nat) (out : List IpcOut) : List Frame := out.filterMap (IpcOut.frameTo c)

theorem framesTo_append (c : Nat) (out out' : List IpcOut) :
    framesTo c (out ++ out') = framesTo c out ++ framesTo c out' := List.filterMap_append ..

namespace Ipc

section
variable {P : Platform} {s t u : Ipc} {out : List IpcOut}

/-- The calls lead from one state to the other, and write these frames. -/
def Makes (P : Platform) (s t : Ipc) (calls : List ClientCall) (out : List IpcOut) : Prop :=
  ∃ ps, run (perform P) s calls = .ok (t, ps) ∧ ∀ c, framesTo c ps = framesTo c out

theorem Makes.nil (s : Ipc) : Makes P s s [] [] := ⟨[], rfl, fun _ => rfl⟩

theorem Makes.one (call : ClientCall) (h : s.perform P call = .ok (t, out)) :
    Makes P s t [call] out := ⟨out, run_single.mpr h, fun _ => rfl⟩

theorem Makes.append {calls calls' : List ClientCall} {out' : List IpcOut}
    (h : Makes P s t calls out) (h' : Makes P t u calls' out') :
    Makes P s u (calls ++ calls') (out ++ out') := by
  obtain ⟨ps, hps, hf⟩ := h
  obtain ⟨qs, hqs, hf'⟩ := h'
  refine ⟨ps ++ qs, run_append_ok.mpr ⟨t, ps, qs, hps, hqs, rfl⟩, ?_⟩
  intro c
  rw [framesTo_append, framesTo_append, hf, hf']

theorem call_makes {o : IfOut} (h : s.call P o = .ok (t, out)) :
    Makes P s t o.clientCalls out := by
  cases o with
  | wrote | free =>
      cases h
      exact .nil _
  | pushRx tag f =>
      cases tag with
      | client c => exact .one _ h
      | null => cases h
      | badEnum => cases h
  | note f => exact .one _ h
  | deviceAdd address type => exact .one _ h
  | listen => exact .one _ h

theorem calls_makes {os : List IfOut} (h : s.calls P os = .ok (t, out)) :
    Makes P s t (os.flatMap IfOut.clientCalls) out := by
  induction os generalizing s out with
  | nil =>
      cases h
      exact .nil _
  | cons o os ih =>
      obtain ⟨⟨v, out₁⟩, hv, h⟩ := bind_ok.mp h
      obtain ⟨⟨w, out₂⟩, hw, h⟩ := bind_ok.mp h
      cases h
      rw [List.flatMap_cons]
      exact (call_makes hv).append (ih hw)

theorem serve_makes {c : Nat} {stale : BitVec 64} {heard : Heard}
    (h : heard.serve P s c stale = .ok (t, out)) : Makes P s t (heard.calls c stale) out := by
  cases heard with
  | nothing => cases h
  | overflow => cases h
  | malformed =>
      cases h
      exact ⟨[], rfl, fun _ => rfl⟩
  | request q => exact .one _ h
  | cutFlags device =>
      obtain ⟨⟨u, o⟩, hu, h⟩ := bind_ok.mp h
      cases h
      obtain ⟨ps, hps, hf⟩ := Makes.one (.request c (.noteFlags device stale)) hu
      exact ⟨ps, hps, fun d => hf d⟩

theorem step_makes {ev : IpcEvent} (h : s.step P ev = .ok (t, out)) :
    Makes P s t (s.eventCalls ev) out := by
  have hh := (step_handle h).2
  cases ev with
  | new id =>
      cases hh
      exact .one _ rfl
  | sent c bytes =>
      simp only [handle] at hh
      split at hh
      · cases hh
        exact .one _ rfl
      · cases hh
  | closed c =>
      simp only [handle] at hh
      split at hh
      · cases hh
        exact .one _ rfl
      · cases hh
  | incoming id c stale =>
      rw [handle] at hh
      rw [eventCalls]
      cases hin : (s.sockets c).inbox with
      | nil =>
          rw [clientIncoming_end P hin] at hh
          split at hh
          · cases hh
            exact .one _ rfl
          · cases hh
      | cons cmd inbox =>
          rw [clientIncoming_hear P hin] at hh
          exact (Makes.one (.socket c _) rfl).append (serve_makes hh)
  | death id c =>
      simp only [handle] at hh
      split at hh
      · obtain ⟨⟨u, o⟩, hu, hh⟩ := bind_ok.mp hh
        cases hh
        have := (Makes.one (.destroy c) hu).append (Makes.one (.drop id) rfl)
        rwa [List.append_nil] at this
      · cases hh
  | timeout k id c => exact .one _ h

end

end Ipc

/-- What leaves the daemon for its clients. -/
def clientOuts (out : List DaemonOut) : List IpcOut :=
  out.filterMap fun
    | .ipc o => some o
    | .sricIf _ => none

theorem clientOuts_append (out out' : List DaemonOut) :
    clientOuts (out ++ out') = clientOuts out ++ clientOuts out' := List.filterMap_append ..

theorem clientOuts_ipc (os : List IpcOut) : clientOuts (os.map .ipc) = os := by
  rw [clientOuts, List.filterMap_map]
  exact List.filterMap_some

theorem clientOuts_sricIf (os : List IfOut) : clientOuts (os.map .sricIf) = [] := by
  rw [clientOuts, List.filterMap_map]
  exact List.filterMap_eq_nil_iff.mpr fun _ _ => rfl

namespace Daemon

variable {P : Platform}

theorem step_makes {s t : Daemon} {ev : DaemonEvent} {out : List DaemonOut}
    (hs : step P s ev = .ok (t, out)) :
    Ipc.Makes P s.ipc t.ipc (s.clientCalls ev) (clientOuts out) := by
  cases ev with
  | sricIf ev =>
      obtain ⟨os, ipc, outs, -, ht, hi, hipc, rfl⟩ := sricIf_ok hs
      rw [clientCalls, ht, clientOuts_append, clientOuts_sricIf, clientOuts_ipc, List.nil_append,
        hipc]
      exact Ipc.calls_makes hi
  | ipc ev =>
      obtain ⟨os, hi, -, rfl⟩ := ipc_ok hs
      rw [clientOuts_append, clientOuts_sricIf, clientOuts_ipc, List.append_nil]
      exact Ipc.step_makes hi

/-- **The clients run on their own calls.** -/
theorem ipc_runs (P : Platform) :
    PartRuns (step P) (Ipc.perform P) Daemon.ipc Daemon.clientCalls := by
  intro s ev s' out hs
  obtain ⟨ps, hps, -⟩ := step_makes hs
  exact ⟨ps, hps⟩

end Daemon

end Sricd
