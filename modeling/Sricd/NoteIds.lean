import Sricd.Bounds
import Sricd.Registry

/-!
# Note ids from the bus

The id of a note is a byte that comes off the bus, and `device_dispatch_note`
shifts by it. Notes go to those who have registered for them in exactly the
runs in which no id is 64 or more (`note_ids_iff`).
-/

namespace Sricd

open Sricd.Lib

/-- The id of the note that a frame is: a frame for us that is no ack, and
not empty. -/
def PackedFrame.noteId (f : PackedFrame) : Option Byte :=
  if f.forMe = true ∧ f.isAck = false then f.payload.head? else none

namespace SricIf

theorem procRxFrame_note {s : SricIf} {bytes : List Byte} {id : Byte}
    (h : (PackedFrame.ofBytes bytes).noteId = some id) :
    s.procRxFrame bytes = .ok (s.txqPush (ackFor (PackedFrame.ofBytes bytes)) 0,
      [.note (frameOf (PackedFrame.ofBytes bytes) id)]) := by
  rw [PackedFrame.noteId] at h
  split at h
  · rename_i hf
    rw [procRxFrame]
    dsimp only
    rw [if_neg (by rw [hf.1]; simp), if_pos hf.2]
    cases hp : (PackedFrame.ofBytes bytes).payload with
    | nil =>
        rw [hp] at h
        cases h
    | cons note rest =>
        rw [hp] at h
        cases h
        rfl
  · cases h

/-- **A note is passed on** with the id of the frame that it came in. -/
theorem note_of_step {s t : SricIf} {ev : IfEvent} {os : List IfOut} {f : Frame} (h : TxInv s)
    (hs : s.step ev = .ok (t, os)) (hf : .note f ∈ os) :
    ∃ bytes, ev = .frame bytes ∧ (PackedFrame.ofBytes bytes).noteId = some f.note
      ∧ f = frameOf (PackedFrame.ofBytes bytes) f.note := by
  obtain ⟨bytes, note, rfl, rfl⟩ := step_emits h hs _ hf
  refine ⟨bytes, rfl, ?_, rfl⟩
  have hh : s.procRxFrame bytes = .ok (t, os) := (step_handle hs).2
  cases hid : (PackedFrame.ofBytes bytes).noteId with
  | some id =>
      rw [procRxFrame_note hid] at hh
      cases hh
      obtain heq := List.mem_singleton.mp hf
      exact congrArg some (congrArg Frame.note (IfOut.note.inj heq)).symm
  | none =>
      -- no other frame has a note among its outputs
      rw [PackedFrame.noteId] at hid
      rcases procRxFrame_cases hh with ⟨-, rfl⟩ | ⟨hack, -, hout⟩ | ⟨e, htx, -, hret⟩
      · cases hf
      · rcases hout with rfl | ⟨note', rfl⟩
        · cases hf
        · rw [procRxFrame] at hh
          dsimp only at hh
          split at hh
          · cases hh
          · rename_i hme
            rw [if_pos ⟨by simpa using hme, hack⟩] at hid
            rw [List.head?_eq_none_iff.mp hid] at hh
            cases hh
      · rcases retire_out htx hret hf with heq | ⟨i, ty, heq⟩ | heq | heq <;> cases heq

end SricIf

namespace Daemon

/-- The note id that an event brings from the bus. -/
def noteId : DaemonEvent → Option Byte
  | .sricIf (.frame bytes) => (PackedFrame.ofBytes bytes).noteId
  | _ => none

/-- Every note that the event leads to is dispatched with a shift by less
than 64, to clients that have set its bit for the address it comes from. -/
def WithinFlags (P : Platform) (s : Daemon) (ev : DaemonEvent) : Prop :=
  ∀ e t os f, ev = .sricIf e → s.sricIf.step e = .ok (t, os) → .note f ∈ os →
    f.note.toNat < 64
      ∧ ∀ c ∈ s.ipc.devices.noteClients P f, ∃ flags,
        ⟨c, flags⟩ ∈ s.ipc.devices.targets f.sourceAddress.toNat
          ∧ flags.getLsbD f.note.toNat = true

/-- A note with a small id stays within the flags. -/
theorem withinFlags_iff {P : Platform} {s : Daemon} (h : Inv s) (ev : DaemonEvent) :
    s.WithinFlags P ev ↔ ∀ id, noteId ev = some id → id.toNat < 64 := by
  constructor
  · intro hw id hid
    cases ev with
    | ipc ev => cases hid
    | sricIf ev =>
        cases ev with
        | frame bytes =>
            have hid : (PackedFrame.ofBytes bytes).noteId = some id := hid
            exact (hw _ _ _ _ rfl (SricIf.procRxFrame_note hid) List.mem_cons_self).1
        | _ => cases hid
  · intro hids e t os f hx hs hf
    obtain rfl := hx
    obtain ⟨bytes, rfl, hid, -⟩ := SricIf.note_of_step h.txInv hs hf
    have hlt := hids f.note hid
    refine ⟨hlt, ?_⟩
    intro c hc
    obtain ⟨target, ht, rfl⟩ := List.mem_map.mp hc
    obtain ⟨ht, hbit⟩ := List.mem_filter.mp ht
    rw [Ipc.bit_of_note hlt] at hbit
    exact ⟨target.flags, ht, hbit⟩

/-- **Note ids off the bus stay inside the flag word** in exactly the runs
in which every note that is received has an id below 64. -/
theorem note_ids_iff {P : Platform} {evs : List DaemonEvent} {s : Daemon} {os : List DaemonOut}
    (hr : run (step P) init evs = .ok (s, os)) :
    (∀ pre ev post u o, evs = pre ++ ev :: post → run (step P) init pre = .ok (u, o) →
        u.WithinFlags P ev)
      ↔ ∀ ev ∈ evs, ∀ id, noteId ev = some id → id.toNat < 64 := by
  have hinv : ∀ {pre u o}, run (step P) init pre = .ok (u, o) → Inv u :=
    fun hu => run_invariant (inv_step P) inv_init hu
  constructor
  · intro h ev hev
    obtain ⟨pre, post, rfl⟩ := List.append_of_mem hev
    obtain ⟨u, o, o', hu, -⟩ := run_append_ok.mp hr
    exact (withinFlags_iff (hinv hu) ev).mp (h pre ev post u o rfl hu)
  · intro h pre ev post u o hx hu
    obtain rfl := hx
    exact (withinFlags_iff (hinv hu) ev).mpr
      (h ev (List.mem_append_right _ List.mem_cons_self))

/-- The client of `connected` registers for note 0 of device 2, and polls;
the device sends this note. -/
def notified (id : Byte) : List DaemonEvent :=
  connected ++ requested (Request.noteFlags 2 1).bytes
    ++ requested (Request.poll .note 100).bytes ++ [.sricIf (.frame (frameBytes 1 2 [id]))]

theorem note_ids_iff_note_0 : ∃ s os, run (step .x86) init (notified 0) = .ok (s, os)
    ∧ ∀ pre ev post u o, notified 0 = pre ++ ev :: post →
      run (step .x86) init pre = .ok (u, o) → u.WithinFlags .x86 ev := by
  have hrun : (run (step .x86) init (notified 0)).toOption.any (fun _ => true) = true := by
    decide +kernel
  obtain ⟨⟨s, os⟩, hr, -⟩ := ok_of_any hrun
  exact ⟨s, os, hr, (note_ids_iff hr).mpr (by decide +kernel)⟩

/-- Note 64 reaches the client that has registered for note 0 only. -/
theorem note_64_for_note_0 : ∃ s os, run (step .x86) init (notified 64) = .ok (s, os)
    ∧ .ipc (.reply 0 (.frame ⟨2, 1, 64, [64]⟩)) ∈ os
    ∧ ¬∀ pre ev post u o, notified 64 = pre ++ ev :: post →
      run (step .x86) init pre = .ok (u, o) → u.WithinFlags .x86 ev := by
  have hrun : (run (step .x86) init (notified 64)).toOption.any (fun p =>
      p.2.any fun o => o == .ipc (.reply 0 (.frame ⟨2, 1, 64, [64]⟩))) = true := by
    decide +kernel
  obtain ⟨⟨s, os⟩, hr, hout⟩ := ok_of_any hrun
  obtain ⟨o, ho, heq⟩ := List.any_eq_true.mp hout
  refine ⟨s, os, hr, beq_iff_eq.mp heq ▸ ho, ?_⟩
  intro h
  obtain ⟨u, o, o', hu, -⟩ := run_append_ok.mp hr
  have hinv : Inv u := run_invariant (inv_step .x86) inv_init hu
  have hid : noteId (.sricIf (.frame (frameBytes 1 2 [64]))) = some 64 := by decide +kernel
  exact absurd ((withinFlags_iff hinv _).mp (h _ _ [] u o rfl hu) 64 hid) (by decide)

end Daemon

end Sricd
