import Sricd.Program
import Sricd.RxMemory
import Sricd.Txrx

/-!
# Calls across the whole program

A client that makes one call of `sric_txrx` after the other, without a
timeout, while the program runs, the other clients do what they like and
the bus brings what it brings. Each call that returns a frame returns what
the ack to its own frame carried; the others are those with a bad frame or
for a device that is not there (`Caller.calls_answered`).
-/

namespace Sricd

open Sricd.Lib

namespace Daemon

section
variable {P : Platform} {s t : Daemon} {evs : List DaemonEvent} {out : List DaemonOut} {c : Nat}

/-- **What a response carries** is the payload of the ack. -/
theorem responded_payload {ev : DaemonEvent} (hi : s.sricIf.TxInv)
    (hs : step P s ev = .ok (t, out)) {p : FrameT × Frame} (hp : p ∈ s.responded c ev) :
    ∃ bytes, ev = .sricIf (.frame bytes) ∧ p.2.payload = (PackedFrame.ofBytes bytes).payload := by
  cases ev with
  | ipc ev => cases hp
  | sricIf ev =>
      obtain ⟨os, -, -, -, ht, -⟩ := sricIf_ok hs
      have hack : p ∈ s.sricIf.acknowledged c ev := SricIf.responded_acknowledged hi ht ▸ hp
      cases ev with
      | frame bytes =>
          rw [SricIf.acknowledged] at hack
          split at hack
          · split at hack
            · rw [List.mem_singleton.mp hack]
              exact ⟨bytes, rfl, rfl⟩
            · cases hack
          · cases hack
      | _ => cases hack

/-- A frame that is no longer than a frame can be. -/
def ShortFrame (bytes : List Byte) : Prop := (bytes.getD sricLen 0).toNat ≤ payloadMax

/-- The responses in frames that are short. -/
theorem responded_short (hi : s.sricIf.TxInv) (hr : run (step P) s evs = .ok (t, out))
    (hevs : ∀ bytes, .sricIf (.frame bytes) ∈ evs → ShortFrame bytes) :
    ∀ p ∈ history (step P) (responded c) s evs, p.2.payload.length ≤ payloadMax := by
  induction evs generalizing s out with
  | nil => exact fun p hp => absurd hp List.not_mem_nil
  | cons ev evs ih =>
      obtain ⟨u, o, os, hs, hr', -⟩ := run_cons_ok.mp hr
      intro p hp
      rw [history, hs] at hp
      rcases List.mem_append.mp hp with hp | hp
      · obtain ⟨bytes, rfl, hpayload⟩ := responded_payload hi hs hp
        rw [hpayload]
        exact Nat.le_trans (List.length_take_le ..) (hevs bytes List.mem_cons_self)
      · exact ih (txInv_step hi hs) hr' (fun bytes hb => hevs bytes (List.mem_cons_of_mem _ hb)) p hp

end

end Daemon

/-! ## The program -/

/-- What a client does itself. -/
def ProgramEvent.isBy (c : Nat) : ProgramEvent → Bool
  | .read _ | .readError => false
  | .other ev => ev.isBy c

namespace Program

/-- What holds between any two callbacks. -/
structure Inv (P : Platform) (s : Program) : Prop where
  wf : s.rx.WF
  installed : Daemon.Installed s.daemon
  serving : Daemon.Serving P s.daemon
  mail : s.daemon.ipc.MailInv

theorem inv_init (P : Platform) : Inv P init where
  wf := Rx.wf_init
  installed := Daemon.installed_init
  serving := Daemon.serving_init P
  mail := Ipc.mailInv_init

section
variable {P : Platform} {s t : Program} {ev : ProgramEvent} {out : List DaemonOut} {c : Nat}

/-- The frames of a callback are short. -/
theorem Inv.short (h : Inv P s) (hs : step P s ev = .ok (t, out)) :
    t.rx.WF ∧ ∀ bytes, .sricIf (.frame bytes) ∈ s.events ev → Daemon.ShortFrame bytes := by
  cases ev with
  | read chunk =>
      obtain ⟨hwf, hshort⟩ := RxMemory.rx_short h.wf (read_ok hs).1
      refine ⟨hwf, fun bytes hb => ?_⟩
      obtain ⟨f, hf, heq⟩ := List.mem_map.mp hb
      cases heq
      exact hshort bytes hf
  | readError => cases hs
  | other ev =>
      obtain ⟨hrx, -, hev⟩ := other_ok hs
      refine ⟨by rw [hrx]; exact h.wf, fun bytes hb => ?_⟩
      obtain rfl := List.mem_singleton.mp hb
      cases hev

theorem Inv.step (h : Inv P s) (hs : step P s ev = .ok (t, out)) : Inv P t := by
  obtain ⟨hi, hserving, hmail⟩ := run_invariant
    (I := fun d : Daemon => Daemon.Installed d ∧ Daemon.Serving P d ∧ d.ipc.MailInv)
    (fun _ _ _ _ h hs => ⟨h.1.step hs, Daemon.serving_step h.1 h.2.1 hs,
      Daemon.mailInv_step h.2.2 hs⟩) ⟨h.installed, h.serving, h.mail⟩ (step_run hs)
  exact ⟨(h.short hs).1, hi, hserving, hmail⟩

theorem events_isBy (hev : ev.isBy c = false) : ∀ e ∈ s.events ev, e.isBy c = false := by
  intro e he
  cases ev with
  | read chunk =>
      obtain ⟨f, -, rfl⟩ := List.mem_map.mp he
      rfl
  | readError => cases he
  | other ev =>
      obtain rfl := List.mem_singleton.mp he
      exact hev

end

end Program

/-! ## The client -/

/-- The program, and a client of it: what it has been sent, and how much it
has written. -/
structure Caller where
  program : Program
  incoming : List Byte
  written : Nat

inductive CallerEvent where
  /-- the client's next request -/
  | write
  /-- a callback, or something that another client does -/
  | program (ev : ProgramEvent)
deriving DecidableEq

namespace Caller

/-- Behind `init`. -/
def init : Caller where
  program := .init
  incoming := []
  written := 0

/-- What the client's calls have come to. -/
def calls (frames : List SricFrame) (s : Caller) :
    Except Halt (Context Line × List (SricFrame × Option SricFrame)) :=
  Line.fd.txrxs (.init ⟨[], s.incoming⟩) frames

/-- What the client has not written yet. -/
def pending (frames : List SricFrame) (s : Caller) : List Byte :=
  (s.calls frames).toOption.elim [] fun p => p.1.fd.sent.drop s.written

/-- One event, where the client is the one with the number `c`. -/
def step (P : Platform) (c : Nat) (frames : List SricFrame) (s : Caller) :
    CallerEvent → Except Halt (Caller × List DaemonOut)
  | .write =>
      let data := s.pending frames
      if data = [] then .error .disabled
      else do
        let (program, out) ← s.program.step P (.other (.ipc (.sent c data)))
        .ok (⟨program, s.incoming, s.written + data.length⟩, out)
  | .program ev =>
      if ev.isBy c then .error .disabled
      else do
        let (program, out) ← s.program.step P ev
        .ok (⟨program, s.incoming ++ bytesTo c (clientOuts out), s.written⟩, out)

/-- What an event is to the daemon. -/
def events (c : Nat) (frames : List SricFrame) (s : Caller) : CallerEvent → List DaemonEvent
  | .write => [.ipc (.sent c (s.pending frames))]
  | .program ev => s.program.events ev

/-- The responses of an event for the client, each with the frame that it
is to. -/
def responded (P : Platform) (c : Nat) (frames : List SricFrame) (s : Caller) (ev : CallerEvent) :
    List (FrameT × Frame) :=
  history (Daemon.step P) (Daemon.responded c) s.program.daemon (s.events c frames ev)

/-- The acks that arrive while a frame of the client is in flight and not
cancelled, each with that frame. -/
def acknowledged (P : Platform) (c : Nat) (frames : List SricFrame) (s : Caller)
    (ev : CallerEvent) : List (FrameT × Frame) :=
  history (Daemon.step P) (Daemon.acknowledged c) s.program.daemon (s.events c frames ev)

section
variable {P : Platform} {c : Nat} {frames : List SricFrame} {s t : Caller} {out : List DaemonOut}

theorem write_ok (h : step P c frames s .write = .ok (t, out)) :
    s.pending frames ≠ []
      ∧ s.program.step P (.other (.ipc (.sent c (s.pending frames)))) = .ok (t.program, out)
      ∧ t.incoming = s.incoming ∧ t.written = s.written + (s.pending frames).length := by
  rw [step] at h
  dsimp only at h
  split at h
  · cases h
  rename_i hdata
  obtain ⟨⟨program, out'⟩, hp, h⟩ := bind_ok.mp h
  cases h
  exact ⟨hdata, hp, rfl, rfl⟩

theorem program_ok {ev : ProgramEvent} (h : step P c frames s (.program ev) = .ok (t, out)) :
    ev.isBy c = false ∧ s.program.step P ev = .ok (t.program, out)
      ∧ t.incoming = s.incoming ++ bytesTo c (clientOuts out) ∧ t.written = s.written := by
  rw [step] at h
  split at h
  · cases h
  rename_i hev
  obtain ⟨⟨program, out'⟩, hp, h⟩ := bind_ok.mp h
  cases h
  exact ⟨Bool.eq_false_iff.mpr hev, hp, rfl, rfl⟩

theorem step_run {ev : CallerEvent} (h : step P c frames s ev = .ok (t, out)) :
    run (Daemon.step P) s.program.daemon (s.events c frames ev) = .ok (t.program.daemon, out) := by
  cases ev with
  | write => exact Program.step_run (write_ok h).2.1
  | program ev => exact Program.step_run (program_ok h).2.1

end

/-! ## The client in step with the daemon -/

/-- The devices that the daemon knows. -/
def known (P : Platform) (s : Caller) : Nat → Bool := s.program.daemon.ipc.devices.known P

/-- Where the client stands with its next request: it is still to be
written, or it has been. -/
inductive Stands (c : Nat) (s : Caller) (done : List Byte) (q : Option Request) : Prop where
  | writing (written : s.written = done.length) (turn : Ipc.InTurn none s.program.daemon.ipc c)
  | waiting (p : Request) (request : q = some p) (written : s.written = (done ++ p.bytes).length)
      (turn : Ipc.InTurn (some p) s.program.daemon.ipc c)
      (enumerated : Link.Over s.program.daemon.sricIf)

/-- What holds behind the outputs `out` and the responses `responses`. The
client's calls have come as far as the replies to it tell. -/
structure Inv (P : Platform) (c : Nat) (frames : List SricFrame) (s : Caller)
    (out : List DaemonOut) (responses : List (FrameT × Frame)) : Prop where
  program : s.program.Inv P
  short : ∀ p ∈ responses, p.2.payload.length ≤ payloadMax
  queue : framesTo c (clientOuts out) ++ s.program.daemon.ipc.queue .rx c = responses.map Prod.snd
  incoming : s.incoming = bytesTo c (clientOuts out)
  early : aboutClient c (clientOuts out) = [] ∨ Link.Over s.program.daemon.sricIf
  dialogue : ∃ done rs q, Dialogue (s.known P) c frames (aboutClient c (clientOuts out)) done rs q
    ∧ Stands c s done q

theorem inv_init (P : Platform) (c : Nat) (frames : List SricFrame) :
    Inv P c frames init [] [] where
  program := Program.inv_init P
  short p hp := absurd hp List.not_mem_nil
  queue := rfl
  incoming := rfl
  early := .inl rfl
  dialogue := by
    obtain ⟨rs, q, hd⟩ := Dialogue.start (init.known P) c frames
    refine ⟨[], rs, q, hd, .writing rfl ⟨.idle rfl fun _ => rfl, ?_, ?_, rfl⟩⟩
    · exact fun p hp => by cases hp
    · exact fun id k hl => absurd hl List.not_mem_nil

section
variable {P : Platform} {c : Nat} {frames : List SricFrame} {s t : Caller} {out o : List DaemonOut}
  {responses : List (FrameT × Frame)}

/-- The calls, where the client stands so. -/
theorem calls_eq {done : List Byte} {rs : List (SricFrame × Option Frame)} {q : Option Request}
    (hin : s.incoming = bytesTo c (clientOuts out))
    (hd : Dialogue (s.known P) c frames (aboutClient c (clientOuts out)) done rs q) :
    ∃ ctx rs', s.calls frames = .ok (ctx, rs') ∧ List.Forall₂ Returned rs' rs
      ∧ s.pending frames = (done ++ requestBytes q).drop s.written := by
  have hread : (Context.init (⟨[], s.incoming⟩ : Line)).fd.incoming
      = bytesTo c (aboutClient c (clientOuts out)) := hin.trans (bytesTo_about ..).symm
  obtain ⟨ctx, rs', hcalls, hsent, hall⟩ := hd.txrxs hread
  refine ⟨ctx, rs', hcalls, hall, ?_⟩
  rw [pending, calls, hcalls]
  exact congrArg (List.drop s.written) hsent

/-- What the daemon knows does not change while the client has replies. -/
theorem dialogue_step {evs : List DaemonEvent} {about : List IpcOut} {done : List Byte}
    {rs : List (SricFrame × Option Frame)} {q : Option Request} (hi : s.program.Inv P)
    (hearly : about = [] ∨ Link.Over s.program.daemon.sricIf)
    (hr : run (Daemon.step P) s.program.daemon evs = .ok (t.program.daemon, o))
    (hd : Dialogue (s.known P) c frames about done rs q) :
    Dialogue (t.known P) c frames about done rs q
      ∧ (about = [] ∨ Link.Over t.program.daemon.sricIf) := by
  rcases hearly with hnone | hover
  · exact ⟨hd.unasked hnone _, .inl hnone⟩
  · obtain ⟨hover', htypes⟩ := Daemon.frozen_run hi.installed hover hr
    have hknown : t.known P = s.known P := funext (Daemon.known_congr htypes)
    rw [hknown]
    exact ⟨hd, .inr hover'⟩

/-- **The client's next request** goes to the daemon. -/
theorem Inv.write (h : Inv P c frames s out responses) (hs : step P c frames s .write = .ok (t, o)) :
    Inv P c frames t (out ++ o) (responses ++ responded P c frames s .write) := by
  obtain ⟨hdata, hp, hin, hw⟩ := write_ok hs
  obtain ⟨done, rs, q, hd, hst⟩ := h.dialogue
  obtain ⟨ctx, rs', -, -, hpending⟩ := calls_eq h.incoming hd
  cases hst with
  | waiting p request written turn enumerated =>
      subst request
      rw [written] at hpending
      exact absurd (hpending.trans List.drop_length) hdata
  | writing written turn =>
      rw [written, List.drop_left] at hpending
      cases q with
      | none => exact absurd hpending hdata
      | some p =>
          have hpending : s.pending frames = p.bytes := hpending
          rw [hpending] at hp hw
          obtain ⟨os, hstep, -, rfl⟩ := Daemon.ipc_ok (Program.other_ok hp).2.1
          obtain ⟨rfl, hturn, hqueue⟩ := Ipc.sent_turn turn (hd.plain p rfl) hstep
          -- the client has been accepted, so enumeration is over
          have hover : Link.Over s.program.daemon.sricIf := by
            rcases h.program.serving with ⟨-, hinit, -⟩ | ⟨hover, -⟩
            · rw [hinit, Ipc.init_disabled] at hstep
              cases hstep
            · exact hover
          have hr := step_run hs
          obtain ⟨hd', hearly⟩ := dialogue_step h.program h.early hr hd
          have hnone : responded P c frames s .write = [] := history_single ..
          rw [hnone, List.append_nil]
          have hquiet : clientOuts (out ++ ([] ++ [])) = clientOuts out := by
            rw [List.append_nil, List.append_nil]
          constructor
          case program => exact h.program.step hp
          case short => exact h.short
          case queue =>
            rw [hqueue]
            simpa [SricIf.calls] using h.queue
          case incoming => simpa [SricIf.calls, hin] using h.incoming
          case early => simpa [SricIf.calls] using hearly
          case dialogue =>
            refine ⟨done, rs, some p, by simpa [SricIf.calls] using hd', .waiting p rfl ?_ hturn ?_⟩
            · rw [hw, written, List.length_append]
            · exact (Daemon.frozen_run h.program.installed hover hr).1

/-- **A callback**, or what another client does. -/
theorem Inv.program_step (h : Inv P c frames s out responses) {ev : ProgramEvent}
    (hs : step P c frames s (.program ev) = .ok (t, o)) :
    Inv P c frames t (out ++ o) (responses ++ responded P c frames s (.program ev)) := by
  obtain ⟨hev, hp, hin, hw⟩ := program_ok hs
  have hr := step_run hs
  have hmine := Program.events_isBy (s := s.program) hev
  have hshort : ∀ p ∈ responses ++ responded P c frames s (.program ev),
      p.2.payload.length ≤ payloadMax := by
    intro p hp'
    rcases List.mem_append.mp hp' with hp' | hp'
    · exact h.short p hp'
    · exact Daemon.responded_short h.program.installed.inv.txInv hr (h.program.short hp).2 p hp'
  -- the responses still wait in their order
  have hqueue : ∀ {asked : Option Request}, Ipc.InTurn asked s.program.daemon.ipc c →
      asked = none ∨ Link.Over s.program.daemon.sricIf →
      framesTo c (clientOuts (out ++ o)) ++ t.program.daemon.ipc.queue .rx c
        = (responses ++ responded P c frames s (.program ev)).map Prod.snd := by
    intro asked hturn hover
    have hlaw := (Daemon.run_turn h.program.installed h.program.mail hturn hover hmine hr).2
    rw [clientOuts_append, framesTo_append, List.append_assoc, hlaw, ← List.append_assoc, h.queue,
      List.map_append]
    rfl
  have hincoming : t.incoming = bytesTo c (clientOuts (out ++ o)) := by
    rw [hin, h.incoming, clientOuts_append, bytesTo_append]
  obtain ⟨done, rs, q, hd, hst⟩ := h.dialogue
  obtain ⟨hd', hearly⟩ := dialogue_step h.program h.early hr hd
  have hquiet : aboutClient c (clientOuts o) = [] →
      aboutClient c (clientOuts (out ++ o)) = aboutClient c (clientOuts out) := by
    intro hnone
    rw [clientOuts_append, aboutClient_append, hnone, List.append_nil]
  cases hst with
  | writing written turn =>
      rcases (Daemon.run_turn h.program.installed h.program.mail turn (.inl rfl) hmine hr).1 with
        ⟨hnone, hturn⟩ | ⟨q', hno, -⟩
      · refine ⟨h.program.step hp, hshort, hqueue turn (.inl rfl), hincoming, ?_, ?_⟩
        · rw [hquiet hnone]
          exact hearly
        · rw [hquiet hnone]
          exact ⟨done, rs, q, hd', .writing (hw.trans written) hturn⟩
      · cases hno
  | waiting p request written turn enumerated =>
      have hover := (Daemon.frozen_run h.program.installed enumerated hr).1
      rcases (Daemon.run_turn h.program.installed h.program.mail turn (.inr enumerated) hmine hr).1 with
        ⟨hnone, hturn⟩ | ⟨q', hasked, hreplied, hturn⟩
      · refine ⟨h.program.step hp, hshort, hqueue turn (.inr enumerated), hincoming, .inr hover, ?_⟩
        rw [hquiet hnone]
        exact ⟨done, rs, q, hd', .waiting p request (hw.trans written) hturn hover⟩
      · -- the reply to the request
        cases hasked
        refine ⟨h.program.step hp, hshort, hqueue turn (.inr enumerated), hincoming, .inr hover, ?_⟩
        have hsmall : ∀ f ∈ framesTo c (aboutClient c (clientOuts o)), f.payload.length ≤ payloadMax := by
          intro f hf
          rw [framesTo_about] at hf
          have hmem : f ∈ (responses ++ responded P c frames s (.program ev)).map Prod.snd := by
            rw [← hqueue turn (.inr enumerated), clientOuts_append, framesTo_append]
            exact List.mem_append_left _ (List.mem_append_right _ hf)
          obtain ⟨p', hp', rfl⟩ := List.mem_map.mp hmem
          exact hshort p' hp'
        obtain ⟨rs', q', hd'⟩ := hd.replied request hreplied hsmall
        rw [clientOuts_append, aboutClient_append]
        exact ⟨_, rs', q', (dialogue_step h.program (.inr enumerated) hr hd').1,
          .writing (hw.trans written) hturn⟩

theorem Inv.step (h : Inv P c frames s out responses) {ev : CallerEvent}
    (hs : step P c frames s ev = .ok (t, o)) :
    Inv P c frames t (out ++ o) (responses ++ responded P c frames s ev) := by
  cases ev with
  | write => exact h.write hs
  | program ev => exact h.program_step hs

end

/-! ## The calls are answered -/

/-- A call has returned a response, which is the one to its frame. -/
def Answers (c : Nat) (p : SricFrame × SricFrame) (r : FrameT × Frame) : Prop :=
  r.1 = p.1.frameT c ∧ p.2.Received r.2

section
variable {P : Platform} {c : Nat} {frames : List SricFrame} {evs : List CallerEvent} {s : Caller}
  {out : List DaemonOut}

/-- The daemon behind the client. -/
theorem daemon_runs (P : Platform) (c : Nat) (frames : List SricFrame) :
    PartRuns (step P c frames) (Daemon.step P) (fun s => s.program.daemon) (events c frames) :=
  fun _ _ _ o h => ⟨o, step_run h⟩

theorem daemon_run (hr : run (step P c frames) init evs = .ok (s, out)) :
    run (Daemon.step P) init.program.daemon (history (step P c frames) (events c frames) init evs)
      = .ok (s.program.daemon, out) :=
  run_same (p := fun s : Caller => s.program.daemon) (g := events c frames)
    (fun _ _ _ _ h => step_run h) hr

/-- It has lost no frame of the client. -/
theorem none_lost (hr : run (step P c frames) init evs = .ok (s, out))
    (hcancel : .cancel c ∉ clientOuts out) :
    (history (step P c frames) (responded P c frames) init evs).map Prod.fst
      ++ Daemon.outstanding c s.program.daemon = Daemon.asked c out := by
  rw [← Daemon.none_lost (daemon_run hr) hcancel]
  exact congrArg (fun l => l.map Prod.fst ++ _)
    ((daemon_runs P c frames).history_eq (Daemon.responded c) hr).symm

/-- Its responses are the acks. -/
theorem responded_acknowledged (hr : run (step P c frames) init evs = .ok (s, out)) :
    history (step P c frames) (responded P c frames) init evs
      = history (step P c frames) (acknowledged P c frames) init evs :=
  calc history (step P c frames) (responded P c frames) init evs
      = history (Daemon.step P) (Daemon.responded c) init.program.daemon
          (history (step P c frames) (events c frames) init evs) :=
        ((daemon_runs P c frames).history_eq (Daemon.responded c) hr).symm
    _ = history (Daemon.step P) (Daemon.acknowledged c) init.program.daemon
          (history (step P c frames) (events c frames) init evs) :=
        Daemon.responded_acknowledged SricIf.txInv_init (daemon_run hr) c
    _ = history (step P c frames) (acknowledged P c frames) init evs :=
        (daemon_runs P c frames).history_eq (Daemon.acknowledged c) hr

/-- The responses, and the calls that have had one. -/
theorem matched {about : List IpcOut} {done : List Byte} {rs : List (SricFrame × Option Frame)}
    {q : Option Request} {responses : List (FrameT × Frame)} {known : Nat → Bool}
    {waiting : List Frame} {outstanding : List FrameT}
    (hd : Dialogue known c frames about done rs q)
    (hqueue : framesTo c about ++ waiting = responses.map Prod.snd)
    (hlost : responses.map Prod.fst ++ outstanding = about.filterMap (IpcOut.frameOf c)) :
    responses.take (withResponse rs).length = (withResponse rs).map fun p => (p.1.frameT c, p.2) := by
  obtain ⟨more, hasked, -⟩ := hd.requested
  rw [hd.received] at hqueue
  rw [hasked] at hlost
  have hle : (withResponse rs).length ≤ responses.length := by
    have := congrArg List.length hqueue
    simp only [List.length_append, List.length_map] at this
    omega
  have hfst : (responses.take (withResponse rs).length).map Prod.fst
      = (withResponse rs).map fun p => p.1.frameT c := by
    have := congrArg (List.take (withResponse rs).length) hlost
    rwa [List.take_append_of_le_length (by rwa [List.length_map]),
      List.take_left' (List.length_map ..), ← List.map_take] at this
  have hsnd : (responses.take (withResponse rs).length).map Prod.snd
      = (withResponse rs).map Prod.snd := by
    rw [List.map_take, ← hqueue, List.take_left' (List.length_map ..)]
  rw [List.zip_of_prod hfst hsnd]
  exact List.zip_map' ..

/-- **Calls are answered, each with the response to its own frame.** In any
run of the program and the client: the calls that have returned are the
first ones, in their order. One fails when its frame is bad or for a device
that the daemon does not know, and only then. The others have returned what
the acks carried that came while their frames were in flight, uncancelled,
in the order in which these came. Where the client has nothing to write,
the daemon nothing to read from it and no frame of it is queued or in
flight, all calls have returned. -/
theorem calls_answered (hr : run (step P c frames) init evs = .ok (s, out)) :
    history (step P c frames) (responded P c frames) init evs
        = history (step P c frames) (acknowledged P c frames) init evs
      ∧ ∃ ctx rs, s.calls frames = .ok (ctx, rs) ∧ rs.map Prod.fst <+: frames
      ∧ (∀ p ∈ rs, p.2 = none ↔ checkFrame p.1 ≠ none ∨ s.known P p.1.address.toNat = false)
      ∧ List.Forall₂ (Answers c) (withResponse rs)
        ((history (step P c frames) (responded P c frames) init evs).take (withResponse rs).length)
      ∧ (s.pending frames = [] → (s.program.daemon.ipc.sockets c).inbox = [] →
        Daemon.outstanding c s.program.daemon = [] → rs.map Prod.fst = frames) := by
  refine ⟨responded_acknowledged hr, ?_⟩
  have hinv : Inv P c frames s out (history (step P c frames) (responded P c frames) init evs) :=
    run_record (I := Inv P c frames) (fun _ _ _ _ _ _ h hs => h.step hs) (inv_init P c frames) hr
  generalize hresponses : history (step P c frames) (responded P c frames) init evs = responses at hinv
  obtain ⟨done, rs, q, hd, hst⟩ := hinv.dialogue
  obtain ⟨ctx, rs', hcalls, hall, hpending⟩ := calls_eq hinv.incoming hd
  obtain ⟨gs', hframes, hdone⟩ := hd.calls
  have hcancel : .cancel c ∉ clientOuts out := by
    intro hmem
    exact hd.not_cancelled (List.mem_filter.mpr ⟨hmem, beq_self_eq_true c⟩)
  have hlost := none_lost hr hcancel
  rw [hresponses, Daemon.asked, ← frameOf_about] at hlost
  have hqueue := hinv.queue
  rw [← framesTo_about] at hqueue
  have hmatched := matched hd hqueue hlost
  have hresp := returned_responses hall
  refine ⟨ctx, rs', hcalls, ?_, returned_failed (Q := fun g => checkFrame g ≠ none
    ∨ s.known P g.address.toNat = false) hall hd.failed, ?_, ?_⟩
  · rw [returned_frames hall, hframes]
    exact List.prefix_append ..
  · rw [hresp.length_eq, hmatched, List.forall₂_map_right_iff]
    exact hresp.imp fun p q hpq => ⟨congrArg (SricFrame.frameT c) hpq.1.symm, hpq.2⟩
  · intro hnothing hread hout
    suffices hq : q = none by
      rw [returned_frames hall, hframes, hdone hq, List.append_nil]
    rw [hnothing] at hpending
    cases hst with
    | writing written turn =>
        rw [written, List.drop_left] at hpending
        cases q with
        | none => rfl
        | some p => exact absurd hpending.symm p.bytes_ne_nil
    | waiting p request written turn enumerated =>
        cases turn.turn with
        | unread _ hin _ => exact absurd (hin.symm.trans hread) p.bytes_ne_nil
        | waiting _ hwaits _ =>
            -- a poll that waits has a frame in front of it that is not answered
            exfalso
            obtain ⟨more, hasked, hmore⟩ := hd.requested
            have hnil := hinv.program.mail.waits_queue hwaits
            rw [hout, List.append_nil, hasked] at hlost
            rw [hnil, List.append_nil, hd.received] at hqueue
            have h1 := congrArg List.length hlost
            have h2 := congrArg List.length hqueue
            simp only [List.length_append, List.length_map] at h1 h2
            exact hmore request (List.length_eq_zero_iff.mp (by omega))

end

/-- A frame of so many bytes for a device. -/
def frameFor (address length : BitVec 32) : SricFrame :=
  { SricFrame.blank with address, note := -1, payloadLength := length }

/-- One frame for the daemon itself, one for a device that is not there and
one for the device that is. -/
def threeFrames : List SricFrame := [frameFor 1 0, frameFor 5 0, frameFor 2 1]

/-- The daemon reads the client's request. -/
def heard : CallerEvent := .program (.other (.ipc (.incoming 2 0 0)))

/-- The client makes its three calls, and the device answers. -/
def threeCalls : List CallerEvent :=
  Program.connected.map .program ++ [.write, heard, .write, heard, .write, heard]
    ++ (Program.exchange 33 7 2 [9]).map .program

theorem calls_answered_three :
    ∃ s out ctx rs, run (step .x86 0 threeFrames) init threeCalls = .ok (s, out)
      ∧ s.calls threeFrames = .ok (ctx, rs) ∧ rs.map Prod.fst = threeFrames
      ∧ (∀ p ∈ rs, p.2 = none ↔ checkFrame p.1 ≠ none ∨ s.known .x86 p.1.address.toNat = false)
      ∧ List.Forall₂ (Answers 0) (withResponse rs)
        ([((frameFor 2 1).frameT 0, ⟨2, 1, 0, [9]⟩)].take (withResponse rs).length) := by
  have hresponses : history (step .x86 0 threeFrames) (responded .x86 0 threeFrames) init threeCalls
      = [((frameFor 2 1).frameT 0, ⟨2, 1, 0, [9]⟩)] := by
    decide +kernel
  obtain ⟨⟨s, out⟩, hr, hp⟩ := ok_of_any (r := run (step .x86 0 threeFrames) init threeCalls)
    (p := fun p => decide (p.1.pending threeFrames = []
      ∧ (p.1.program.daemon.ipc.sockets 0).inbox = []
      ∧ Daemon.outstanding 0 p.1.program.daemon = [])) (by decide +kernel)
  obtain ⟨hpending, hinbox, hout⟩ := of_decide_eq_true hp
  obtain ⟨-, ctx, rs, hcalls, -, hfailed, hanswers, hall⟩ := calls_answered hr
  rw [hresponses] at hanswers
  exact ⟨s, out, ctx, rs, hr, hcalls, hall hpending hinbox hout, hfailed, hanswers⟩

end Caller

end Sricd
