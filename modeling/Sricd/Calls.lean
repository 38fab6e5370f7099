import Sricd.Incoming
import Sricd.Session

/-!
# Calls

The clients and the device table with everything that can happen to them:
requests, timeouts, and the calls of `client.c` and `device.c`, in any
order. Every run of the daemon is one of these runs (`Daemon.run_calls`),
but they are more: here nothing fixes when a frame arrives or what a client
asks for.
-/

namespace Sricd

open Sricd.Lib

/-- What can happen to the clients and the device table. -/
inductive ClientCall where
  /-- `ipc_new` -/
  | connect
  /-- what a handler does with a request, behind its reads -/
  | request (c : Nat) (q : Request)
  /-- `timeout_callback` and `note_timeout_callback` -/
  | timeout (k : Poll) (id c : Nat)
  /-- `client_push_rx` and `client_push_note` -/
  | push (k : Poll) (c : Nat) (f : Frame)
  /-- `device_dispatch_note` -/
  | dispatchNote (note : Frame)
  /-- `device_set_client_notes` -/
  | setClientNotes (address c : Nat) (notes : BitVec 64)
  /-- `client_destroy` -/
  | destroy (c : Nat)
  /-- `device_add` -/
  | deviceAdd (address : Nat) (type : Byte)
  /-- `ipc_listen` -/
  | listen
  /-- the client writes or closes, or something is read from it -/
  | socket (c : Nat) (k : Socket)
  /-- the end of a source -/
  | drop (id : Nat)
deriving DecidableEq

namespace Ipc

/-- `device_set_client_notes`. -/
def setClientNotes (P : Platform) (s : Ipc) (address c : Nat) (notes : BitVec 64) :
    Except Halt Ipc :=
  if address < deviceHighAddress then do
    let cl ← s.client c
    .ok ({ s with devices := s.devices.setClientNotes address c notes }.setClient c
      (cl.setNoteData P address notes))
  else .error .outOfBounds

/-- One call. A timeout needs its source. -/
def perform (P : Platform) (s : Ipc) : ClientCall → Result
  | .connect => .ok (s.new, [])
  | .request c q => q.serve P s c
  | .timeout k id c => s.step P (.timeout k id c)
  | .push k c f => s.clientPush k c f
  | .dispatchNote note => s.dispatchNote P note
  | .setClientNotes address c notes => do
      let s ← s.setClientNotes P address c notes
      .ok (s, [])
  | .destroy c => s.clientDestroy P c
  | .deviceAdd address type => .ok ({ s with devices := s.devices.deviceAdd address type }, [])
  | .listen => .ok (s.listen, [])
  | .socket c k => .ok (s.setSocket c k, [])
  | .drop id => .ok (s.drop id, [])

/-- A client that is allocated is read from. -/
theorem client_eq {s : Ipc} {c : Nat} {cl : Client} (h : s.clients c = some cl) :
    s.client c = .ok cl := by
  rw [client, h]

/-- `handle_note_flags` sets the notes of a device that it knows. -/
theorem setFlags_ok {P : Platform} {s t : Ipc} {c device : Nat} {flags : BitVec 64}
    {out : List IpcOut} (h : s.setFlags P c device flags = .ok (t, out)) :
    (s.devices.deviceExists P device = .ok true ∧ s.setClientNotes P device c flags = .ok t
        ∧ out = [.reply c (.status eSuccess)])
      ∨ (s.devices.deviceExists P device = .ok false ∧ t = s
        ∧ out = [.reply c (.status eBadAddr)]) := by
  obtain ⟨b, hb, h⟩ := bind_ok.mp h
  cases b with
  | false =>
      cases h
      exact .inr ⟨hb, rfl, rfl⟩
  | true =>
      obtain ⟨cl, hcl, h⟩ := bind_ok.mp h
      cases h
      refine .inl ⟨hb, ?_, rfl⟩
      rw [setClientNotes, if_pos (Devices.deviceExists_ok.mp hb).1, hcl]
      rfl

end Ipc

/-! ## The daemon's runs -/

/-- The calls that the serial interface makes. -/
def IfOut.clientCalls : IfOut → List ClientCall
  | .pushRx (.client c) f => [.push .rx c f]
  | .note f => [.dispatchNote f]
  | .deviceAdd address type => [.deviceAdd address type]
  | .listen => [.listen]
  | _ => []

namespace Ipc

/-- There are calls that lead from one state to the other. -/
def Leads (P : Platform) (s t : Ipc) : Prop :=
  ∃ calls out, run (perform P) s calls = .ok (t, out)

section
variable {P : Platform} {s t u : Ipc}

theorem Leads.refl (s : Ipc) : Leads P s s := ⟨[], [], rfl⟩

theorem Leads.one (call : ClientCall) {out : List IpcOut} (h : s.perform P call = .ok (t, out)) :
    Leads P s t :=
  ⟨[call], out, run_single.mpr h⟩

theorem Leads.trans (h : Leads P s t) (h' : Leads P t u) : Leads P s u := by
  obtain ⟨calls, out, hr⟩ := h
  obtain ⟨calls', out', hr'⟩ := h'
  exact ⟨calls ++ calls', out ++ out', run_append_ok.mpr ⟨t, out, out', hr, hr', rfl⟩⟩

theorem call_leads {o : IfOut} {out : List IpcOut} (h : s.call P o = .ok (t, out)) :
    Leads P s t := by
  refine ⟨o.clientCalls, out, ?_⟩
  cases o with
  | wrote | free =>
      cases h
      rfl
  | pushRx tag f =>
      cases tag with
      | client c => exact run_single.mpr h
      | null => cases h
      | badEnum => cases h
  | note f => exact run_single.mpr h
  | deviceAdd address type => exact run_single.mpr h
  | listen => exact run_single.mpr h

theorem calls_leads {os : List IfOut} {out : List IpcOut} (h : s.calls P os = .ok (t, out)) :
    Leads P s t := by
  induction os generalizing s out with
  | nil =>
      cases h
      exact Leads.refl _
  | cons o os ih =>
      obtain ⟨⟨v, out₁⟩, hv, h⟩ := bind_ok.mp h
      obtain ⟨⟨w, out₂⟩, hw, h⟩ := bind_ok.mp h
      cases h
      exact (call_leads hv).trans (ih hw)

/-- What has been read comes to one request, or to none. -/
theorem serve_leads {c : Nat} {stale : BitVec 64} {heard : Heard} {out : List IpcOut}
    (h : heard.serve P s c stale = .ok (t, out)) : Leads P s t := by
  cases heard with
  | nothing => cases h
  | overflow => cases h
  | malformed =>
      cases h
      exact Leads.refl _
  | request q => exact Leads.one (.request c q) h
  | cutFlags device =>
      obtain ⟨⟨u, o⟩, hu, h⟩ := bind_ok.mp h
      cases h
      exact Leads.one (.request c (.noteFlags device stale)) hu

theorem clientIncoming_leads {id c : Nat} {stale : BitVec 64} {out : List IpcOut}
    (h : s.clientIncoming P id c stale = .ok (t, out)) : Leads P s t := by
  cases hin : (s.sockets c).inbox with
  | nil =>
      rw [clientIncoming_end P hin] at h
      split at h
      · cases h
        exact Leads.one (.drop id) rfl
      · cases h
  | cons cmd inbox =>
      rw [clientIncoming_hear P hin] at h
      exact (Leads.one (.socket c _) rfl).trans (serve_leads h)

theorem step_leads {ev : IpcEvent} {out : List IpcOut} (h : s.step P ev = .ok (t, out)) :
    Leads P s t := by
  have hh := (step_handle h).2
  cases ev with
  | new id =>
      cases hh
      exact Leads.one .connect rfl
  | sent c bytes =>
      simp only [handle] at hh
      split at hh
      · cases hh
        exact Leads.one (.socket c _) rfl
      · cases hh
  | closed c =>
      simp only [handle] at hh
      split at hh
      · cases hh
        exact Leads.one (.socket c _) rfl
      · cases hh
  | incoming id c stale => exact clientIncoming_leads hh
  | death id c =>
      simp only [handle] at hh
      split at hh
      · obtain ⟨⟨u, o⟩, hu, hh⟩ := bind_ok.mp hh
        cases hh
        exact (Leads.one (.destroy c) hu).trans (Leads.one (.drop id) rfl)
      · cases hh
  | timeout k id c => exact Leads.one (.timeout k id c) h

end

end Ipc

/-- **Every run of the daemon is a run of calls.** -/
theorem Daemon.run_calls {P : Platform} {evs : List DaemonEvent} {s : Daemon}
    {os : List DaemonOut} (hr : run (Daemon.step P) Daemon.init evs = .ok (s, os)) :
    ∃ calls out, run (Ipc.perform P) Ipc.init calls = .ok (s.ipc, out) := by
  have hstep : ∀ (t : Daemon) ev t' out, Ipc.Leads P Ipc.init t.ipc →
      Daemon.step P t ev = .ok (t', out) → Ipc.Leads P Ipc.init t'.ipc := by
    intro t ev t' out h hs
    cases ev with
    | sricIf ev =>
        obtain ⟨os, ipc, outs, -, -, hi, hipc, -⟩ := Daemon.sricIf_ok hs
        rw [hipc]
        exact h.trans (Ipc.calls_leads hi)
    | ipc ev =>
        obtain ⟨os, hi, -, -⟩ := Daemon.ipc_ok hs
        exact h.trans (Ipc.step_leads hi)
  exact run_invariant (I := fun t : Daemon => Ipc.Leads P Ipc.init t.ipc) hstep
    (Ipc.Leads.refl _) hr

end Sricd
