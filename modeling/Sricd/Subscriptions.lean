import Sricd.Halves
import Sricd.Lib.Feed
import Sricd.NoteIds

/-!
# Notes from the bus to the clients

A client sets which notes it wants of a device, and sets it anew at any
time; a NOTE_CLEAR sets it to none for the addresses from 2 on. Every note
on the bus goes to the clients that want it then, into their queues and
from there in answer to their polls. In any run of the daemon, a client is
sent the notes that it wanted when they came, in order and each of them
once (`notes_reach_subscribers`).
-/

namespace Sricd

open Sricd.Lib

/-- The flags of a client have the bit of a note. -/
def hits (P : Platform) (flags : BitVec 64) (note : Frame) : Bool :=
  flags &&& P.shl1 note.note.toNat != 0

/-- The device a note is from. -/
def Frame.source (note : Frame) : Nat := note.sourceAddress.toNat

/-- What happens to one client in terms of its notes. -/
abbrev NoteFeed := List (Feed Nat (BitVec 64) Frame)

/-- The flags that a client sets. -/
def settings (c : Nat) (regs : List Registration) : NoteFeed :=
  (regs.filter fun r => r.c == c).map fun r => .set r.address r.notes

theorem settings_cons (c : Nat) (r : Registration) (regs : List Registration) :
    settings c (r :: regs) = (if r.c = c then [.set r.address r.notes] else []) ++ settings c regs := by
  rw [settings, settings]
  by_cases h : r.c = c
  · rw [List.filter_cons_of_pos (by simpa using h), if_pos h]
    rfl
  · rw [List.filter_cons_of_neg (by simpa using h), if_neg h]
    rfl

/-- **The flags that were set last** are what is wanted in the end. -/
theorem after_settings (c : Nat) (regs rs : List Registration) :
    Feed.after (fun a => lastFlags regs a c) (settings c rs) = fun a => lastFlags (regs ++ rs) a c := by
  induction rs generalizing regs with
  | nil => rw [List.append_nil]; rfl
  | cons r rs ih =>
      have hone : Feed.after (fun a => lastFlags regs a c)
          (if r.c = c then [Feed.set r.address r.notes] else [] : NoteFeed)
          = fun a => lastFlags (regs ++ [r]) a c := by
        funext a
        rw [lastFlags_append]
        by_cases hc : r.c = c
        · rw [if_pos hc]
          show Function.update (fun a => lastFlags regs a c) r.address r.notes a = _
          rw [Function.update_apply]
          exact if_congr ⟨fun h => ⟨h.symm, hc⟩, fun h => h.1.symm⟩ rfl rfl
        · rw [if_neg hc, if_neg fun h => hc h.2]
          rfl
      rw [settings_cons, Feed.after_append, hone, ih, List.append_assoc]
      rfl

/-- The notes that a call dispatches. -/
def ClientCall.notes : ClientCall → List Frame
  | .dispatchNote note => [note]
  | _ => []

namespace Ipc

/-- What a call is to a client's notes. -/
def noteFeed (P : Platform) (c : Nat) (s : Ipc) (call : ClientCall) : NoteFeed :=
  settings c (call.registrations P s) ++ call.notes.map .publish

section
variable {P : Platform} {s t : Ipc} {regs : List Registration} {note : Frame} {out : List IpcOut}

/-- A note is pushed once for each client that wants it. -/
theorem noteClients_of (h : Devices.Records s.devices.targets regs) (c : Nat) :
    ((s.devices.noteClients P note).filter (· = c)).map (fun _ => note)
      = if hits P (lastFlags regs note.source c) note then [note] else [] := by
  obtain ⟨hsingle, hmem⟩ := h note.source
  have hnodup : (s.devices.noteClients P note).Nodup := hsingle.sublist (List.filter_sublist.map _)
  have hiff : c ∈ s.devices.noteClients P note
      ↔ hits P (lastFlags regs note.source c) note = true := by
    rw [Devices.noteClients, List.mem_map]
    constructor
    · intro hx
      obtain ⟨t, ht, rfl⟩ := hx
      obtain ⟨ht, hbit⟩ := List.mem_filter.mp ht
      rw [((hmem t.c t.flags).mp ht).2]
      exact hbit
    · intro hbit
      refine ⟨⟨c, _⟩, List.mem_filter.mpr ⟨(hmem c _).mpr ⟨?_, rfl⟩, hbit⟩, rfl⟩
      intro hzero
      have hnone : hits P 0 note = false := by
        rw [hits, show (0 : BitVec 64) &&& P.shl1 note.note.toNat = 0 from BitVec.zero_and]
        rfl
      rw [hzero, hnone] at hbit
      cases hbit
  have hcount : (s.devices.noteClients P note).filter (· = c)
      = List.replicate ((s.devices.noteClients P note).count c) c := List.filter_eq _
  rw [hcount, hnodup.count, if_congr hiff rfl rfl]
  split <;> rfl

/-- **One call**: what it pushes for a client is what the client wants of
it. -/
theorem pushed_wanted (h : Devices.Records s.devices.targets regs) (c : Nat) {call : ClientCall}
    (hcall : ∀ d f, call ≠ .push .note d f) :
    pushed P .note c s call = Feed.wanted (hits P) Frame.source (fun a => lastFlags regs a c)
      (s.noteFeed P c call) := by
  have hsets : ∀ rs : List Registration, ∀ f, Feed.publish f ∉ settings c rs := by
    intro rs f hf
    obtain ⟨r, -, hr⟩ := List.mem_map.mp hf
    cases hr
  cases call with
  | dispatchNote note =>
      rw [pushed, if_pos rfl, noteClients_of h]
      rfl
  | push k d f =>
      cases k with
      | rx => rfl
      | note => exact absurd rfl (hcall d f)
  | _ =>
      show [] = Feed.wanted _ _ _ (settings c _ ++ [])
      rw [List.append_nil, Feed.wanted_sets (hsets _)]

/-- What a call leaves the client wanting. -/
theorem after_noteFeed (c : Nat) (call : ClientCall) :
    Feed.after (fun a => lastFlags regs a c) (s.noteFeed P c call)
      = fun a => lastFlags (regs ++ call.registrations P s) a c := by
  rw [noteFeed, Feed.after_append, after_settings]
  cases call <;> rfl

/-- **All calls.** -/
theorem pushed_wanted_run (h : Devices.Records s.devices.targets regs) (c : Nat)
    {calls : List ClientCall} (hcalls : ∀ call ∈ calls, ∀ d f, call ≠ .push .note d f)
    (hr : run (perform P) s calls = .ok (t, out)) :
    history (perform P) (pushed P .note c) s calls
      = Feed.wanted (hits P) Frame.source (fun a => lastFlags regs a c)
        (history (perform P) (noteFeed P c) s calls) := by
  induction calls generalizing s regs out with
  | nil => rfl
  | cons call calls ih =>
      obtain ⟨u, o, os, hs, hr', -⟩ := run_cons_ok.mp hr
      have hu : Devices.Records u.devices.targets (regs ++ call.registrations P s) := by
        rw [perform_targets hs]
        exact h.foldl _
      rw [history, history, hs, Feed.wanted_append, after_noteFeed,
        pushed_wanted h c (hcalls call List.mem_cons_self)]
      exact congrArg (_ ++ ·) (ih hu (fun x hx => hcalls x (List.mem_cons_of_mem _ hx)) hr')

end

end Ipc

/-! ## The serial interface -/

/-- The notes in a frame off the bus. -/
def PackedFrame.notes (f : PackedFrame) : List Frame := (f.noteId.map (SricIf.frameOf f)).toList

/-- The notes that come in in an event. -/
def IfEvent.notes : IfEvent → List Frame
  | .frame bytes => (PackedFrame.ofBytes bytes).notes
  | _ => []

/-- The notes among what leaves the serial interface. -/
def IfOut.notes : IfOut → List Frame
  | .note f => [f]
  | _ => []

namespace SricIf

/-- **A note that comes in is passed on**, once and as it is. -/
theorem step_notes {s s' : SricIf} {ev : IfEvent} {out : List IfOut} (hi : TxInv s)
    (hs : s.step ev = .ok (s', out)) : out.flatMap IfOut.notes = ev.notes := by
  have hnone (h : ∀ f, .note f ∈ out → ev.notes ≠ []) (hev : ev.notes = []) :
      out.flatMap IfOut.notes = [] := by
    apply List.flatMap_eq_nil_iff.mpr
    intro o ho
    cases o with
    | note f => exact absurd hev (h f ho)
    | _ => rfl
  have hnotes : ∀ f, .note f ∈ out → ev.notes ≠ [] := by
    intro f hf
    obtain ⟨bytes, rfl, hid, -⟩ := note_of_step hi hs hf
    rw [IfEvent.notes, PackedFrame.notes, hid]
    exact List.cons_ne_nil _ _
  cases ev with
  | frame bytes =>
      cases hid : (PackedFrame.ofBytes bytes).noteId with
      | none =>
          have hev : (IfEvent.frame bytes).notes = [] := by
            rw [IfEvent.notes, PackedFrame.notes, hid]
            rfl
          rw [hev, hnone hnotes hev]
      | some id =>
          have hh : s.procRxFrame bytes = .ok (s', out) := (step_handle hs).2
          rw [procRxFrame_note hid] at hh
          cases hh
          rw [IfEvent.notes, PackedFrame.notes, hid]
          rfl
  | _ => exact hnone hnotes rfl

end SricIf

/-! ## The daemon -/

/-- What an event is to a client's notes: notes come in on the bus, or the
client sets its flags. -/
def Daemon.noteFeed (P : Platform) (c : Nat) (s : Daemon) : DaemonEvent → NoteFeed
  | .sricIf ev => ev.notes.map .publish
  | .ipc ev => history (Ipc.perform P) (fun s call => settings c (call.registrations P s)) s.ipc
      (s.ipc.eventCalls ev)

/-- The frames of a kind that an event passes to `send_rx` for a client. -/
def Daemon.received (P : Platform) (k : Poll) (c : Nat) (s : Daemon) (ev : DaemonEvent) :
    List Frame :=
  history (Ipc.perform P) (Ipc.delivered P k c) s.ipc (s.clientCalls ev)

/-- The calls of the serial interface are about notes where it passes one
on, and set nothing. -/
theorem IfOut.clientCalls_notes (os : List IfOut) :
    (os.flatMap IfOut.clientCalls).flatMap ClientCall.notes = os.flatMap IfOut.notes := by
  rw [List.flatMap_assoc]
  congr 1
  funext o
  cases o with
  | pushRx tag f => cases tag <;> rfl
  | _ => rfl

theorem IfOut.clientCalls_registrations {P : Platform} {s : Ipc} {o : IfOut} {call : ClientCall}
    (h : call ∈ o.clientCalls) : call.registrations P s = [] := by
  cases o with
  | pushRx tag f =>
      cases tag with
      | client c => rw [List.mem_singleton.mp h]; rfl
      | null => cases h
      | badEnum => cases h
  | wrote | free => cases h
  | note | deviceAdd | listen => rw [List.mem_singleton.mp h]; rfl

namespace Daemon

section
variable {P : Platform} {s t : Daemon} {ev : DaemonEvent} {out : List DaemonOut}

/-- **One event**, seen from the clients. -/
theorem noteFeed_eq (hi : s.sricIf.TxInv) (c : Nat) (hs : step P s ev = .ok (t, out)) :
    history (Ipc.perform P) (Ipc.noteFeed P c) s.ipc (s.clientCalls ev) = s.noteFeed P c ev := by
  obtain ⟨ps, hps⟩ := ipc_runs P s ev t out hs
  cases ev with
  | sricIf ev =>
      obtain ⟨os, -, -, -, ht, -⟩ := sricIf_ok hs
      rw [clientCalls, ht] at hps ⊢
      have hcongr : history (Ipc.perform P) (Ipc.noteFeed P c) s.ipc (os.flatMap IfOut.clientCalls)
          = history (Ipc.perform P) (fun _ call => call.notes.map .publish) s.ipc
            (os.flatMap IfOut.clientCalls) := by
        apply history_congr
        intro u call hcall
        obtain ⟨o, -, hcall⟩ := List.mem_flatMap.mp hcall
        rw [Ipc.noteFeed, IfOut.clientCalls_registrations hcall]
        rfl
      rw [hcongr, history_flatMap _ hps, noteFeed, ← SricIf.step_notes hi ht,
        ← IfOut.clientCalls_notes, List.map_flatMap]
  | ipc ev =>
      apply history_congr
      intro u call hcall
      have hnone : call.notes = [] := by
        have := Ipc.eventCalls_fromBus hcall
        cases call with
        | dispatchNote note => cases this
        | _ => rfl
      rw [Ipc.noteFeed, hnone, List.map_nil, List.append_nil]

/-- No note is pushed but by `device_dispatch_note`. -/
theorem clientCalls_push (s : Daemon) (ev : DaemonEvent) :
    ∀ call ∈ s.clientCalls ev, ∀ d f, call ≠ .push .note d f := by
  intro call hcall d f hpush
  subst hpush
  cases ev with
  | sricIf ev =>
      rw [clientCalls] at hcall
      split at hcall
      · obtain ⟨o, -, hcall⟩ := List.mem_flatMap.mp hcall
        cases o with
        | pushRx tag g =>
            cases tag with
            | client e => cases List.mem_singleton.mp hcall
            | null => cases hcall
            | badEnum => cases hcall
        | wrote | free => cases hcall
        | note | deviceAdd | listen => cases List.mem_singleton.mp hcall
      · cases hcall
  | ipc ev => cases Ipc.eventCalls_fromBus hcall

end

section
variable {P : Platform} {evs : List DaemonEvent} {s : Daemon} {os : List DaemonOut}

/-- What a client has been sent, and what waits for it, has been pushed for
it. -/
theorem received_pushed {c : Nat} {cl : Client} (hr : run (step P) init evs = .ok (s, os))
    (hc : s.ipc.clients c = some cl) :
    history (step P) (received P .note c) init evs ++ (cl.box .note).q
      = history (Ipc.perform P) (Ipc.pushed P .note c) init.ipc
          (history (step P) clientCalls init evs) := by
  obtain ⟨ps, hps⟩ := (ipc_runs P).run hr
  have hlaw := (Ipc.run_carries Ipc.mailInv_init hps).law .note c fun hg => by
    cases hc.symm.trans hg.2
  have hreceived : history (Ipc.perform P) (Ipc.delivered P .note c) init.ipc
      (history (step P) clientCalls init evs) = history (step P) (received P .note c) init evs :=
    (ipc_runs P).history_eq _ hr
  rw [← hreceived, ← Ipc.queue_eq hc]
  exact hlaw

/-- What is pushed for a client is what it wants of the notes on the bus. -/
theorem pushed_wanted (hr : run (step P) init evs = .ok (s, os)) (c : Nat) :
    history (Ipc.perform P) (Ipc.pushed P .note c) init.ipc (history (step P) clientCalls init evs)
      = Feed.wanted (hits P) Frame.source (fun _ => 0)
          (history (step P) (noteFeed P c) init evs) := by
  obtain ⟨ps, hps⟩ := (ipc_runs P).run hr
  have hfeed : history (Ipc.perform P) (Ipc.noteFeed P c) init.ipc
      (history (step P) clientCalls init evs) = history (step P) (noteFeed P c) init evs := by
    rw [(ipc_runs P).history_eq _ hr]
    refine history_congr_run (I := fun s => s.sricIf.TxInv) ?_ SricIf.txInv_init hr
    intro u ev u' out hi hs
    exact ⟨txInv_step hi hs, noteFeed_eq hi c hs⟩
  have hnone : Devices.Records init.ipc.devices.targets [] := Devices.records_reset
  rw [← hfeed]
  exact Ipc.pushed_wanted_run hnone c
    (forall_history (fun s ev _ _ _ => clientCalls_push s ev) hr) hps

end

/-- **Notes reach their subscribers.** In any run of the daemon, the notes
that have been sent to a client in answer to its polls, and then those that
wait for one, are the notes on the bus that it wanted when they came. -/
theorem notes_reach_subscribers {P : Platform} {evs : List DaemonEvent} {s : Daemon}
    {os : List DaemonOut} {c : Nat} {cl : Client}
    (hr : run (step P) init evs = .ok (s, os)) (hc : s.ipc.clients c = some cl) :
    history (step P) (received P .note c) init evs ++ (cl.box .note).q
      = Feed.wanted (hits P) Frame.source (fun _ => 0) (history (step P) (noteFeed P c) init evs) :=
  (received_pushed hr hc).trans (pushed_wanted hr c)

/-- A client asks for note 5 of a device, which then sends the notes 5, 6
and 5. One of them has been polled for. -/
def noted : List DaemonEvent :=
  connected ++ [.ipc (.sent 0 (Request.noteFlags 2 32).bytes), .ipc (.incoming 2 0 0),
    .sricIf (.frame (frameBytes 1 2 [5])), .sricIf (.frame (frameBytes 1 2 [6])),
    .sricIf (.frame (frameBytes 1 2 [5])), .ipc (.sent 0 (Request.poll .note 0).bytes),
    .ipc (.incoming 2 0 0)]

theorem noted_notes :
    ∃ s os cl, run (step .x86) init noted = .ok (s, os) ∧ s.ipc.clients 0 = some cl
      ∧ (cl.box .note).q = [⟨2, 1, 5, [5]⟩]
      ∧ history (step .x86) (received .x86 .note 0) init noted ++ (cl.box .note).q
        = Feed.wanted (hits .x86) Frame.source (fun _ => 0)
          (history (step .x86) (noteFeed .x86 0) init noted) := by
  obtain ⟨⟨s, os⟩, hr, hp⟩ := ok_of_any (r := run (step .x86) init noted)
    (p := fun p => (p.1.ipc.clients 0).any fun cl : Client =>
      decide ((cl.box .note).q = [⟨2, 1, 5, [5]⟩]))
    (by decide +kernel)
  obtain ⟨cl, hc, hq⟩ := (Option.any_eq_true ..).mp hp
  exact ⟨s, os, cl, hr, hc, of_decide_eq_true hq, notes_reach_subscribers hr hc⟩

end Daemon

end Sricd
