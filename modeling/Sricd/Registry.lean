import Sricd.Mail

/-!
# The note registry

Through all calls that set or clear notes, the lists of `device.c` are a
map from addresses and clients to the flags that were set last, and a note
goes to the clients that this map names (`note_registry`). What
`device_clear_client_notes` leaves of a client is its records at the first
two addresses, which it does not visit (`notes_cleared_iff`).
-/

namespace Sricd

open Sricd.Lib

/-- A call of `device_set_client_notes`. -/
structure Registration where
  address : Nat
  c : Nat
  notes : BitVec 64
deriving DecidableEq

/-- The flags that a client has set last for an address. -/
def lastFlags (regs : List Registration) (a c : Nat) : BitVec 64 :=
  regs.foldl (fun flags r => if r.address = a ∧ r.c = c then r.notes else flags) 0

theorem lastFlags_append (regs : List Registration) (r : Registration) (a c : Nat) :
    lastFlags (regs ++ [r]) a c
      = if r.address = a ∧ r.c = c then r.notes else lastFlags regs a c := by
  rw [lastFlags, List.foldl_append]
  rfl

/-- The calls with which `device_clear_client_notes` clears. -/
def clearing (c : Nat) : List Registration :=
  (List.range' 2 (deviceHighAddress - 2)).map fun a => ⟨a, c, 0⟩

/-- The calls of `device_set_client_notes` that a call comes to. -/
def ClientCall.registrations (P : Platform) (s : Ipc) : ClientCall → List Registration
  | .request c (.noteFlags device flags) =>
      if s.devices.known P device.toNat then [⟨device.toNat, c, flags⟩] else []
  | .request c .noteClear => clearing c
  | .setClientNotes address c notes => [⟨address, c, notes⟩]
  | .destroy c => clearing c
  | _ => []

namespace Devices

/-- One call of `device_set_client_notes`. -/
def register (d : Devices) (r : Registration) : Devices := d.setClientNotes r.address r.c r.notes

/-- **The lists are the map**: one record for each client that has flags,
and these flags in it. -/
def Records (targets : Nat → List NoteTarget) (regs : List Registration) : Prop :=
  ∀ a, Single (targets a)
    ∧ ∀ c flags, ⟨c, flags⟩ ∈ targets a ↔ flags ≠ 0 ∧ lastFlags regs a c = flags

theorem records_reset : Records reset.targets [] := by
  intro a
  refine ⟨List.nodup_nil, ?_⟩
  intro c flags
  exact iff_of_false List.not_mem_nil fun h => h.1 h.2.symm

/-- The record of a client is replaced where it is, or added. -/
theorem mem_updateTarget_iff {ts : List NoteTarget} (h : Single ts) {c : Nat} {notes : BitVec 64}
    {t : NoteTarget} : t ∈ updateTarget c notes ts ↔ t = ⟨c, notes⟩ ∨ (t ∈ ts ∧ t.c ≠ c) := by
  induction ts with
  | nil => simp [updateTarget]
  | cons u ts ih =>
      obtain ⟨hu, hn⟩ := List.nodup_cons.mp h
      rw [updateTarget]
      by_cases huc : u.c = c
      · have hne : ∀ t ∈ ts, t.c ≠ c := by
          intro t ht htc
          exact hu (huc.trans htc.symm ▸ List.mem_map_of_mem ht)
        rw [if_pos huc, List.mem_cons, List.mem_cons]
        constructor
        · intro hx
          rcases hx with ht | ht
          · exact .inl ht
          · exact .inr ⟨.inr ht, hne t ht⟩
        · intro hx
          rcases hx with ht | ⟨rfl | ht, htc⟩
          · exact .inl ht
          · exact absurd huc htc
          · exact .inr ht
      · rw [if_neg huc, List.mem_cons, List.mem_cons, ih hn]
        constructor
        · intro hx
          rcases hx with rfl | ht | ⟨ht, htc⟩
          · exact .inr ⟨.inl rfl, huc⟩
          · exact .inl ht
          · exact .inr ⟨.inr ht, htc⟩
        · intro hx
          rcases hx with ht | ⟨rfl | ht, htc⟩
          · exact .inr (.inl ht)
          · exact .inl rfl
          · exact .inr (.inr ⟨ht, htc⟩)

/-- **One call keeps the lists in step with the map.** -/
theorem Records.register {d : Devices} {regs : List Registration} (h : Records d.targets regs)
    (r : Registration) : Records (d.register r).targets (regs ++ [r]) := by
  intro a
  rw [Devices.register, setClientNotes_targets]
  by_cases ha : a = r.address
  · subst ha
    obtain ⟨hsingle, hmem⟩ := h r.address
    rw [Function.update_self]
    split
    · rename_i hnotes
      refine ⟨hsingle.update _ _, ?_⟩
      intro c flags
      rw [mem_updateTarget_iff hsingle, NoteTarget.mk.injEq, hmem, lastFlags_append]
      by_cases hc : r.c = c
      · rw [if_pos ⟨rfl, hc⟩, hc]
        constructor
        · intro hcase
          rcases hcase with ⟨-, rfl⟩ | ⟨-, hne⟩
          · exact ⟨hnotes, rfl⟩
          · exact absurd rfl hne
        · intro hx
          obtain ⟨-, rfl⟩ := hx
          exact .inl ⟨rfl, rfl⟩
      · rw [if_neg fun h => hc h.2]
        exact ⟨fun h => h.elim (fun h => absurd h.1.symm hc) And.left, fun h => .inr ⟨h, Ne.symm hc⟩⟩
    · rename_i hnotes
      refine ⟨hsingle.drop _, ?_⟩
      intro c flags
      rw [mem_dropTarget hsingle, hmem, lastFlags_append]
      by_cases hc : r.c = c
      · rw [if_pos ⟨rfl, hc⟩, not_not.mp hnotes]
        exact iff_of_false (fun h => h.2 hc.symm) fun h => h.1 h.2.symm
      · rw [if_neg fun h => hc h.2]
        exact and_iff_left (Ne.symm hc)
  · rw [Function.update_of_ne ha]
    refine ⟨(h a).1, ?_⟩
    intro c flags
    rw [lastFlags_append, if_neg fun h => ha h.1.symm]
    exact (h a).2 c flags

theorem Records.foldl {d : Devices} {regs : List Registration} (h : Records d.targets regs)
    (rs : List Registration) : Records (rs.foldl Devices.register d).targets (regs ++ rs) := by
  induction rs generalizing d regs with
  | nil => rwa [List.append_nil]
  | cons r rs ih =>
      rw [List.foldl_cons, List.append_cons]
      exact ih (h.register r)

/-! ## What one call changes -/

/-- A call of `device_set_client_notes` keeps the other records, and the
order of the clients. -/
structure OneRecord (d d' : Devices) (r : Registration) : Prop where
  addresses : ∀ a, a ≠ r.address → d'.targets a = d.targets a
  clients : (d'.targets r.address).filter (fun t => t.c ≠ r.c)
    = (d.targets r.address).filter fun t => t.c ≠ r.c
  order : (d'.targets r.address).map NoteTarget.c
    = if r.notes = 0 then ((d.targets r.address).map NoteTarget.c).erase r.c
      else if r.c ∈ (d.targets r.address).map NoteTarget.c then
        (d.targets r.address).map NoteTarget.c
      else (d.targets r.address).map NoteTarget.c ++ [r.c]

theorem updateTarget_others (c : Nat) (notes : BitVec 64) (ts : List NoteTarget) :
    (updateTarget c notes ts).filter (fun t => t.c ≠ c) = ts.filter fun t => t.c ≠ c := by
  induction ts with
  | nil => simp [updateTarget]
  | cons u ts ih =>
      rw [updateTarget]
      by_cases hu : u.c = c
      · rw [if_pos hu, List.filter_cons_of_neg (by simp), List.filter_cons_of_neg (by simpa using hu)]
      · rw [if_neg hu, List.filter_cons_of_pos (by simpa using hu), ih,
          List.filter_cons_of_pos (by simpa using hu)]

theorem dropTarget_others (c : Nat) (ts : List NoteTarget) :
    (dropTarget c ts).filter (fun t => t.c ≠ c) = ts.filter fun t => t.c ≠ c := by
  induction ts with
  | nil => rfl
  | cons u ts ih =>
      by_cases hu : u.c = c
      · rw [dropTarget, List.eraseP_cons_of_pos (by simpa using hu),
          List.filter_cons_of_neg (by simpa using hu)]
      · rw [dropTarget, List.eraseP_cons_of_neg (by simpa using hu), ← dropTarget,
          List.filter_cons_of_pos (by simpa using hu), ih,
          List.filter_cons_of_pos (by simpa using hu)]

theorem updateTarget_clients (c : Nat) (notes : BitVec 64) (ts : List NoteTarget) :
    (updateTarget c notes ts).map NoteTarget.c
      = if c ∈ ts.map NoteTarget.c then ts.map NoteTarget.c else ts.map NoteTarget.c ++ [c] := by
  induction ts with
  | nil => rfl
  | cons u ts ih =>
      rw [updateTarget, List.map_cons]
      by_cases hu : u.c = c
      · rw [if_pos hu, List.map_cons, if_pos (hu ▸ List.mem_cons_self), hu]
      · rw [if_neg hu, List.map_cons, ih]
        by_cases hc : c ∈ ts.map NoteTarget.c
        · rw [if_pos hc, if_pos (List.mem_cons_of_mem _ hc)]
        · rw [if_neg hc, if_neg fun h => (List.mem_cons.mp h).elim (fun h => hu h.symm) hc]
          rfl

theorem dropTarget_clients (c : Nat) (ts : List NoteTarget) :
    (dropTarget c ts).map NoteTarget.c = (ts.map NoteTarget.c).erase c := by
  rw [dropTarget, List.erase_eq_eraseP', List.eraseP_map]
  rfl

theorem register_oneRecord (d : Devices) (r : Registration) : OneRecord d (d.register r) r := by
  have htargets := setClientNotes_targets d r.address r.c r.notes
  constructor
  case addresses =>
    intro a ha
    rw [register, htargets, Function.update_of_ne ha]
  case clients =>
    rw [register, htargets, Function.update_self]
    split
    · exact updateTarget_others ..
    · exact dropTarget_others ..
  case order =>
    rw [register, htargets, Function.update_self]
    by_cases hn : r.notes = 0
    · rw [if_neg (not_not.mpr hn), if_pos hn, dropTarget_clients]
    · rw [if_pos hn, if_neg hn, updateTarget_clients]

/-- A call adds no record but the client's own. -/
theorem mem_register {d : Devices} {r : Registration} {a : Nat} {t : NoteTarget}
    (h : t ∈ (d.register r).targets a) : t.c = r.c ∨ t ∈ d.targets a := by
  rw [register, setClientNotes_targets, Function.update_apply] at h
  by_cases ha : a = r.address
  · rw [if_pos ha] at h
    split at h
    · rcases mem_updateTarget h with rfl | h
      · exact .inl rfl
      · exact .inr (ha ▸ h)
    · exact .inr (ha ▸ List.mem_of_mem_eraseP h)
  · rw [if_neg ha] at h
    exact .inr h

theorem mem_foldl_register {d : Devices} {rs : List Registration} {a : Nat} {t : NoteTarget}
    (h : t ∈ (rs.foldl register d).targets a) : (∃ r ∈ rs, t.c = r.c) ∨ t ∈ d.targets a := by
  induction rs generalizing d with
  | nil => exact .inr h
  | cons r rs ih =>
      rcases ih h with ⟨q, hq, heq⟩ | h
      · exact .inl ⟨q, List.mem_cons_of_mem _ hq, heq⟩
      · rcases mem_register h with heq | h
        · exact .inl ⟨r, List.mem_cons_self, heq⟩
        · exact .inr h

theorem foldl_single {d : Devices} (h : ∀ a, Single (d.targets a)) (rs : List Registration) :
    ∀ a, Single ((rs.foldl register d).targets a) := by
  induction rs generalizing d with
  | nil => exact h
  | cons r rs ih =>
      apply ih
      intro a
      rw [register, setClientNotes_targets, Function.update_apply]
      split
      · split
        · exact (h _).update _ _
        · exact (h _).drop _
      · exact h a

/-- **What `device_clear_client_notes` leaves of a client** is what it had
at the first two addresses. -/
theorem cleared_iff {d : Devices} (h : ∀ a, Single (d.targets a)) (c : Nat) :
    (∀ a, a < deviceHighAddress → ∀ n ∈ (d.clearClientNotes c).targets a, n.c ≠ c)
      ↔ ∀ a, a < 2 → ∀ n ∈ d.targets a, n.c ≠ c := by
  have h128 : deviceHighAddress = 128 := rfl
  constructor
  · intro hclear a ha n hn
    apply hclear a (by omega) n
    rwa [clearClientNotes_targets, if_neg (by omega)]
  · intro htwo a ha n hn
    rw [clearClientNotes_targets] at hn
    split at hn
    · exact ((mem_dropTarget (h a)).mp hn).2
    · exact htwo a (by omega) n hn

theorem clearClientNotes_others (d : Devices) (c a : Nat) :
    ((d.clearClientNotes c).targets a).filter (fun n => n.c ≠ c)
      = (d.targets a).filter fun n => n.c ≠ c := by
  rw [clearClientNotes_targets]
  split
  · exact dropTarget_others ..
  · rfl

theorem clearClientNotes_register (d : Devices) (c : Nat) :
    d.clearClientNotes c = (clearing c).foldl register d := by
  rw [clearClientNotes, clearing, List.foldl_map]
  rfl

end Devices

namespace Ipc

section
variable {P : Platform} {s t : Ipc}

theorem setClientNotes_ok {a c : Nat} {notes : BitVec 64}
    (h : s.setClientNotes P a c notes = .ok t) :
    a < deviceHighAddress ∧ (∃ cl, s.clients c = some cl)
      ∧ t.devices = s.devices.setClientNotes a c notes := by
  rw [setClientNotes] at h
  split at h
  · rename_i ha
    obtain ⟨cl, hcl, h⟩ := bind_ok.mp h
    cases h
    exact ⟨ha, ⟨cl, Session.client_ok hcl⟩, rfl⟩
  · cases h

theorem clientPush_devices {k : Poll} {c : Nat} {f : Frame} {out : List IpcOut}
    (h : s.clientPush k c f = .ok (t, out)) : t.devices = s.devices := by
  obtain ⟨cl, cl', -, ⟨-, -, rfl, -⟩ | ⟨-, -, -, -, rfl, -⟩⟩ := Session.clientPush_cases h <;> rfl

theorem pushNotes_devices {note : Frame} {cs : List Nat} {out : List IpcOut}
    (h : s.pushNotes note cs = .ok (t, out)) : t.devices = s.devices := by
  induction cs generalizing s out with
  | nil =>
      cases h
      rfl
  | cons c cs ih =>
      obtain ⟨⟨u, o⟩, hu, h⟩ := bind_ok.mp h
      obtain ⟨⟨v, os⟩, hv, h⟩ := bind_ok.mp h
      cases h
      exact (ih hv).trans (clientPush_devices hu)

/-- **What a call does to the lists.** -/
theorem perform_targets {call : ClientCall} {out : List IpcOut}
    (h : s.perform P call = .ok (t, out)) :
    t.devices.targets
      = ((call.registrations P s).foldl Devices.register s.devices).targets := by
  cases call with
  | connect | deviceAdd _ _ | listen | socket _ _ | drop _ =>
      cases h
      rfl
  | request c q =>
      cases q with
      | tx address payload hlt =>
          rw [perform, Request.serve] at h
          split at h
          · obtain ⟨rfl, -⟩ := Session.transmit_outcome h
            rfl
          · cases h
      | poll k timeout =>
          obtain ⟨cl, -, ⟨f, q, -, -, rfl⟩ | ⟨-, -, rfl⟩ | ⟨-, -, l, timer, rfl⟩⟩ := poll_cases h <;>
            rfl
      | noteFlags device flags =>
          rw [ClientCall.registrations]
          rcases setFlags_ok h with ⟨hb, hset, -⟩ | ⟨hb, rfl, -⟩
          · rw [(Devices.deviceExists_ok.mp hb).2, if_pos rfl, (setClientNotes_ok hset).2.2]
            rfl
          · rw [(Devices.deviceExists_ok.mp hb).2, if_neg Bool.false_ne_true]
            rfl
      | noteClear =>
          obtain ⟨u, hu, h⟩ := bind_ok.mp h
          cases h
          obtain ⟨cl, -, hu⟩ := bind_ok.mp hu
          cases hu
          exact congrArg Devices.targets (s.devices.clearClientNotes_register c)
      | listDevices =>
          cases h
          rfl
  | timeout k id c =>
      have hstep : s.step P (.timeout k id c) = .ok (t, out) := h
      have hh := (step_handle hstep).2
      cases k with
      | rx =>
          obtain ⟨⟨u, o⟩, hu, hh⟩ := bind_ok.mp hh
          cases hh
          obtain ⟨cl, -, hu⟩ := bind_ok.mp hu
          cases hu
          rfl
      | note =>
          obtain ⟨cl, -, hu⟩ := bind_ok.mp hh
          cases hu
          rfl
  | push k c f => exact congrArg Devices.targets (clientPush_devices h)
  | dispatchNote note =>
      rw [perform, dispatchNote] at h
      split at h
      · exact congrArg Devices.targets (pushNotes_devices h)
      · cases h
  | setClientNotes address c notes =>
      obtain ⟨u, hu, h⟩ := bind_ok.mp h
      cases h
      exact congrArg Devices.targets (setClientNotes_ok hu).2.2
  | destroy c =>
      rw [(clientDestroy_ok h).2.2.2]
      exact congrArg Devices.targets (s.devices.clearClientNotes_register c)

/-- The lists are the map of all that has been set. -/
theorem run_records {calls : List ClientCall} {os : List IpcOut}
    (hr : run (perform P) init calls = .ok (s, os)) :
    Devices.Records s.devices.targets
      (history (perform P) (fun s call => call.registrations P s) init calls) := by
  have hstep : ∀ (s : Ipc) regs (call : ClientCall) s' o, Devices.Records s.devices.targets regs →
      s.perform P call = .ok (s', o) →
      Devices.Records s'.devices.targets (regs ++ call.registrations P s) := by
    intro s regs call s' o h hs
    rw [perform_targets hs]
    exact h.foldl _
  have hstart : Devices.Records init.devices.targets [] := Devices.records_reset
  exact run_history_invariant (I := fun s regs => Devices.Records s.devices.targets regs)
    hstep hstart hr

end

/-! ## Dispatch -/

/-- A poll of the client waits. -/
def waits (s : Ipc) (k : Poll) (c : Nat) : Bool := (s.mail k c).any Prod.snd

/-- A note goes to these clients, once to each: at once, in their order, to
those with a poll that waits, and behind what the others have. -/
structure Dispatches (P : Platform) (s : Ipc) (note : Frame) (cs : List Nat) : Prop where
  nodup : cs.Nodup
  served : (∀ c ∈ cs, s.clients c ≠ none) → ∃ t out, s.dispatchNote P note = .ok (t, out)
  sent : ∀ t out, s.dispatchNote P note = .ok (t, out) →
    out = (cs.filter (s.waits .note)).map fun c => .reply c (.frame note)
  kept : ∀ t out, s.dispatchNote P note = .ok (t, out) → ∀ k c,
    t.queue k c = if k = .note ∧ c ∈ cs ∧ s.waits .note c = false then s.queue k c ++ [note]
      else s.queue k c

section
variable {P : Platform} {s t : Ipc} {k : Poll} {f : Frame}

/-- One client gets what is pushed. -/
theorem clientPush_mail (h : MailInv s) {c : Nat} {out : List IpcOut}
    (hr : s.clientPush k c f = .ok (t, out)) :
    (out = if s.waits k c then [.reply c (.frame f)] else [])
      ∧ (∀ d, d ≠ c → ∀ j, t.mail j d = s.mail j d)
      ∧ (∀ j, j ≠ k → t.mail j c = s.mail j c)
      ∧ t.queue k c = if s.waits k c then s.queue k c else s.queue k c ++ [f] := by
  obtain ⟨cl, hcl, -⟩ := bind_ok.mp hr
  have hc := Session.client_ok hcl
  have hq := mail_eq hc k
  have hw : s.waits k c = (cl.box k).ping := by rw [waits, hq, Option.any_some]
  rw [clientPush_live h hc] at hr
  rw [hw, queue_eq hc]
  by_cases hp : (cl.box k).ping = true
  · rw [if_pos hp] at hr
    cases hr
    have hnil := h.idle hc hp
    have hmail := mail_setBox hc (s.loop.remove (cl.box k).timer) k ⟨[], 0, false⟩
    refine ⟨(if_pos hp).symm, ?_, ?_, ?_⟩
    · intro d hd j
      rw [hmail, if_neg fun h => hd h.2]
    · intro j hj
      rw [hmail, if_neg fun h => hj h.1]
    · rw [queue, hmail, if_pos ⟨rfl, rfl⟩, if_pos hp, hnil]
      rfl
  · rw [if_neg hp] at hr
    cases hr
    have hmail := mail_setBox hc s.loop k ⟨(cl.box k).q ++ [f], (cl.box k).timer, (cl.box k).ping⟩
    refine ⟨(if_neg hp).symm, ?_, ?_, ?_⟩
    · intro d hd j
      exact (hmail j d).trans (if_neg fun h => hd h.2)
    · intro j hj
      exact (hmail j c).trans (if_neg fun h => hj h.1)
    · rw [if_neg hp, queue]
      exact congrArg (fun m => m.elim [] Prod.fst) ((hmail k c).trans (if_pos ⟨rfl, rfl⟩))

theorem pushNotes_mail (h : MailInv s) {cs : List Nat} (hn : cs.Nodup) {out : List IpcOut}
    (hr : s.pushNotes f cs = .ok (t, out)) :
    (out = (cs.filter (s.waits .note)).map fun c => .reply c (.frame f))
      ∧ ∀ j d, t.queue j d = if j = .note ∧ d ∈ cs ∧ s.waits .note d = false then
        s.queue j d ++ [f] else s.queue j d := by
  induction cs generalizing s out with
  | nil =>
      cases hr
      exact ⟨rfl, fun j d => (if_neg fun h => by cases h.2.1).symm⟩
  | cons c cs ih =>
      obtain ⟨hc, hn⟩ := List.nodup_cons.mp hn
      obtain ⟨⟨u, o⟩, hu, hr⟩ := bind_ok.mp hr
      obtain ⟨⟨v, os⟩, hv, hr⟩ := bind_ok.mp hr
      cases hr
      obtain ⟨ho, hother, hkind, hqueue⟩ := clientPush_mail h hu
      obtain ⟨hos, hrest⟩ := ih (clientPush_carries h hu).inv hn hv
      -- the clients behind the first one wait as before
      have hwaits : ∀ d, d ≠ c → u.waits .note d = s.waits .note d := by
        intro d hd
        rw [waits, waits, hother d hd]
      constructor
      · have hfilter : cs.filter (u.waits .note) = cs.filter (s.waits .note) := by
          apply List.filter_congr
          intro d hd
          exact hwaits d fun hdc => hc (hdc ▸ hd)
        rw [ho, hos, hfilter]
        by_cases hw : s.waits .note c = true
        · rw [if_pos hw, List.filter_cons_of_pos hw]
          rfl
        · rw [if_neg hw, List.filter_cons_of_neg hw]
          rfl
      · intro j d
        rw [hrest j d]
        by_cases hd : d = c
        · subst hd
          rw [if_neg fun h => hc h.2.1]
          by_cases hj : j = .note
          · subst hj
            rw [hqueue]
            by_cases hw : s.waits .note d = true
            · rw [if_pos hw, if_neg fun h => by cases hw.symm.trans h.2.2]
            · rw [if_neg hw, if_pos ⟨rfl, List.mem_cons_self, Bool.eq_false_iff.mpr hw⟩]
          · rw [if_neg fun h => hj h.1, queue, queue, hkind j hj]
        · rw [queue, hother d hd j, ← queue, hwaits d hd]
          refine if_congr (and_congr_right fun _ => and_congr_left fun _ => ?_) rfl rfl
          rw [List.mem_cons, or_iff_right hd]

/-- A push does not fail for want of a client. -/
theorem pushNotes_served (h : MailInv s) {cs : List Nat} (hcs : ∀ c ∈ cs, s.clients c ≠ none) :
    ∃ t out, s.pushNotes f cs = .ok (t, out) := by
  induction cs generalizing s with
  | nil => exact ⟨s, [], rfl⟩
  | cons c cs ih =>
      obtain ⟨cl, hc⟩ := Option.ne_none_iff_exists'.mp (hcs c List.mem_cons_self)
      obtain ⟨⟨u, o⟩, hu⟩ : ∃ r, s.clientPush .note c f = .ok r := ⟨_, clientPush_live h hc .note f⟩
      have halive : ∀ d ∈ cs, u.clients d ≠ none := by
        intro d hd
        rw [Ne, ← mail_none (k := .rx)]
        obtain ⟨-, hother, hkind, -⟩ := clientPush_mail h hu
        by_cases hdc : d = c
        · rw [hdc, hkind .rx (by simp), mail_none, hc]
          exact Option.some_ne_none cl
        · rw [hother d hdc, mail_none]
          exact hcs d (List.mem_cons_of_mem _ hd)
      obtain ⟨t, os, ht⟩ := ih (clientPush_carries h hu).inv halive
      refine ⟨t, o ++ os, ?_⟩
      rw [pushNotes, clientPushNote, hu, ok_bind]
      dsimp only
      rw [ht]
      rfl

theorem dispatchNote_dispatches (h : MailInv s) {note : Frame}
    (ha : note.sourceAddress.toNat < deviceHighAddress)
    (hn : (s.devices.noteClients P note).Nodup) :
    Dispatches P s note (s.devices.noteClients P note) := by
  have heq : s.dispatchNote P note = s.pushNotes note (s.devices.noteClients P note) := if_pos ha
  constructor
  case nodup => exact hn
  case served =>
    intro hcs
    rw [heq]
    exact pushNotes_served h hcs
  case sent =>
    intro t out ht
    rw [heq] at ht
    exact (pushNotes_mail h hn ht).1
  case kept =>
    intro t out ht
    rw [heq] at ht
    exact (pushNotes_mail h hn ht).2

end

/-- The clients that have set the bit of a note, in the order of the
list. -/
def registered (s : Ipc) (regs : List Registration) (note : Frame) : List Nat :=
  ((s.devices.targets note.sourceAddress.toNat).map NoteTarget.c).filter fun c =>
    (lastFlags regs note.sourceAddress.toNat c).getLsbD note.note.toNat

section
variable {P : Platform} {s : Ipc} {regs : List Registration} {note : Frame}

theorem bit_of_note {flags : BitVec 64} {n : Nat} (hn : n < 64) :
    (flags &&& P.shl1 n != 0) = flags.getLsbD n := by
  rw [P.shl1_eq n hn, ← BitVec.twoPow_eq, BitVec.and_twoPow]
  have hne : BitVec.twoPow 64 n ≠ 0 := by
    intro h
    have hbit := congrArg (fun x => x.getLsbD n) h
    simp [hn] at hbit
  cases flags.getLsbD n with
  | false => rfl
  | true => exact bne_iff_ne.mpr hne

theorem noteClients_eq (h : Devices.Records s.devices.targets regs) (hn : note.note.toNat < 64) :
    s.devices.noteClients P note = s.registered regs note := by
  rw [Devices.noteClients, registered, List.filter_map]
  refine congrArg (List.map NoteTarget.c) (List.filter_congr ?_)
  intro t ht
  have hflags := (((h _).2 t.c t.flags).mp ht).2
  rw [bit_of_note hn, Function.comp, hflags]

theorem mem_registered (h : Devices.Records s.devices.targets regs) (c : Nat) :
    c ∈ s.registered regs note
      ↔ (lastFlags regs note.sourceAddress.toNat c).getLsbD note.note.toNat = true := by
  rw [registered, List.mem_filter]
  refine and_iff_right_of_imp ?_
  intro hbit
  refine List.mem_map.mpr ⟨⟨c, _⟩, ((h _).2 c _).mpr ⟨?_, rfl⟩, rfl⟩
  intro hzero
  rw [hzero] at hbit
  cases hbit.symm.trans BitVec.getLsbD_zero

end

/-- **The note registry is a map** from addresses and clients to the flags
that were set last: the lists hold one record for each client with flags,
a call changes no other, and a note goes to the clients whose flags have
its bit. -/
theorem note_registry {P : Platform} {calls : List ClientCall} {s : Ipc} {os : List IpcOut}
    {regs : List Registration} (hr : run (perform P) init calls = .ok (s, os))
    (hregs : history (perform P) (fun s call => call.registrations P s) init calls = regs) :
    (∀ a, Devices.Single (s.devices.targets a) ∧ ∀ c flags,
        ⟨c, flags⟩ ∈ s.devices.targets a ↔ flags ≠ 0 ∧ lastFlags regs a c = flags)
      ∧ (∀ a c notes t, s.setClientNotes P a c notes = .ok t →
        Devices.OneRecord s.devices t.devices ⟨a, c, notes⟩)
      ∧ ∀ note, note.sourceAddress.toNat < deviceHighAddress → note.note.toNat < 64 →
        (∀ c, c ∈ s.registered regs note
            ↔ (lastFlags regs note.sourceAddress.toNat c).getLsbD note.note.toNat = true)
          ∧ Dispatches P s note (s.registered regs note) := by
  have hrecords : Devices.Records s.devices.targets regs := hregs ▸ run_records hr
  refine ⟨hrecords, ?_, ?_⟩
  · intro a c notes t ht
    rw [(setClientNotes_ok ht).2.2]
    exact s.devices.register_oneRecord ⟨a, c, notes⟩
  · intro note ha hn
    refine ⟨mem_registered hrecords, ?_⟩
    rw [← noteClients_eq (P := P) hrecords hn]
    apply dispatchNote_dispatches (run_carries mailInv_init hr).inv ha
    rw [noteClients_eq hrecords hn]
    exact (hrecords _).1.filter _

/-- Two clients register for device 3, and the second polls. -/
def registering : List ClientCall :=
  [.connect, .connect, .setClientNotes 3 0 5, .setClientNotes 3 1 4, .setClientNotes 3 0 6,
    .setClientNotes 3 0 0, .setClientNotes 3 0 4, .request 1 (.poll .note (-1))]

/-- Note 2 goes to the second client, which was there before the first one
came back, and then to the first. -/
theorem note_registry_two_clients : ∃ s os, run (perform .x86) init registering = .ok (s, os)
    ∧ Dispatches .x86 s ⟨3, 1, 2, []⟩ [1, 0] := by
  have hrun : (run (perform .x86) init registering).toOption.any
      (fun p => p.1.devices.targets 3 == [⟨1, 4⟩, ⟨0, 4⟩]) = true := by decide
  obtain ⟨⟨s, os⟩, hr, htargets⟩ := ok_of_any hrun
  have hregs : s.registered
      (history (perform .x86) (fun s call => call.registrations .x86 s) init registering)
      ⟨3, 1, 2, []⟩ = [1, 0] := by
    have hlist : s.devices.targets (3 : Byte).toNat = [⟨1, 4⟩, ⟨0, 4⟩] := beq_iff_eq.mp htargets
    rw [registered, hlist]
    decide
  exact ⟨s, os, hr, hregs ▸ ((note_registry hr rfl).2.2 _ (by decide) (by decide)).2⟩

end Ipc

/-! ## Clearing -/

/-- The client whose notes a call clears. -/
def ClientCall.clears : ClientCall → Option Nat
  | .request c .noteClear => some c
  | .destroy c => some c
  | _ => none

namespace Ipc

/-- Through the whole run, nothing is left of a client whose notes are
cleared, the records of the others stay, and no note goes to a client that
has been destroyed. -/
structure Forgets (P : Platform) (calls : List ClientCall) : Prop where
  cleared : ∀ pre call post s os t out c, calls = pre ++ call :: post →
    run (perform P) init pre = .ok (s, os) → s.perform P call = .ok (t, out) →
    call.clears = some c → ∀ a, a < deviceHighAddress →
      (∀ n ∈ t.devices.targets a, n.c ≠ c)
        ∧ (t.devices.targets a).filter (fun n => n.c ≠ c)
          = (s.devices.targets a).filter fun n => n.c ≠ c
  unsent : ∀ pre post s os note c, calls = pre ++ post →
    run (perform P) init pre = .ok (s, os) → note.sourceAddress.toNat < deviceHighAddress →
    s.Gone c → c ∉ s.devices.noteClients P note

/-- A client whose notes are cleared has no record for the first two
addresses. -/
def ClearsFrom2 (s : Ipc) (call : ClientCall) : Prop :=
  ∀ c, call.clears = some c → ∀ a, a < 2 → ∀ n ∈ s.devices.targets a, n.c ≠ c

instance (s : Ipc) (call : ClientCall) : Decidable (s.ClearsFrom2 call) :=
  match h : call.clears with
  | none => .isTrue fun _ hc => by cases h.symm.trans hc
  | some c => decidable_of_iff
      ((∀ n ∈ s.devices.targets 0, n.c ≠ c) ∧ ∀ n ∈ s.devices.targets 1, n.c ≠ c) <| by
      rw [ClearsFrom2, h]
      constructor
      · intro hx d hd a ha
        obtain ⟨h0, h1⟩ := hx
        cases hd
        obtain rfl | rfl : a = 0 ∨ a = 1 := by omega
        · exact h0
        · exact h1
      · exact fun hall => ⟨hall c rfl 0 Nat.two_pos, hall c rfl 1 Nat.one_lt_two⟩

section
variable {P : Platform} {s t : Ipc} {call : ClientCall} {out : List IpcOut}

theorem perform_clears {c : Nat} (h : s.perform P call = .ok (t, out))
    (hc : call.clears = some c) : t.devices = s.devices.clearClientNotes c := by
  cases call with
  | request d q =>
      cases q with
      | noteClear =>
          cases hc
          obtain ⟨u, hu, h⟩ := bind_ok.mp h
          cases h
          obtain ⟨cl, -, hu⟩ := bind_ok.mp hu
          cases hu
          rfl
      | _ => cases hc
  | destroy d =>
      cases hc
      exact (clientDestroy_ok h).2.2.2
  | _ => cases hc

/-- The notes of a client are set while it is there. -/
theorem registrations_live (h : s.perform P call = .ok (t, out)) :
    ∀ r ∈ call.registrations P s, s.clients r.c ≠ none := by
  have hclearing : ∀ {c cl}, s.clients c = some cl → ∀ r ∈ clearing c, s.clients r.c ≠ none := by
    intro c cl hc r hr
    obtain ⟨a, -, rfl⟩ := List.mem_map.mp hr
    exact Option.ne_none_iff_exists'.mpr ⟨cl, hc⟩
  have hset : ∀ {a c notes u}, s.setClientNotes P a c notes = .ok u → s.clients c ≠ none :=
    fun hu => Option.ne_none_iff_exists'.mpr (setClientNotes_ok hu).2.1
  cases call with
  | request c q =>
      cases q with
      | noteFlags device flags =>
          intro r hr
          rw [ClientCall.registrations] at hr
          split at hr
          · rename_i hknown
            obtain rfl := List.mem_singleton.mp hr
            rcases setFlags_ok h with ⟨-, hu, -⟩ | ⟨hb, -⟩
            · exact hset hu
            · cases hknown.symm.trans (Devices.deviceExists_ok.mp hb).2
          · cases hr
      | noteClear =>
          obtain ⟨u, hu, h⟩ := bind_ok.mp h
          obtain ⟨cl, hcl, -⟩ := bind_ok.mp hu
          exact hclearing (Session.client_ok hcl)
      | tx _ _ _ | poll _ _ | listDevices => exact fun _ hr => by cases hr
  | setClientNotes a c notes =>
      intro r hr
      obtain rfl := List.mem_singleton.mp hr
      obtain ⟨u, hu, -⟩ := bind_ok.mp h
      exact hset hu
  | destroy c =>
      obtain ⟨cl, hc⟩ := (clientDestroy_ok h).1
      exact hclearing hc
  | _ => exact fun _ hr => by cases hr

/-- No record is left of a client that has been destroyed. -/
structure Swept (s : Ipc) : Prop where
  mail : MailInv s
  single : ∀ a, Devices.Single (s.devices.targets a)
  gone : ∀ c, s.Gone c → ∀ a, a < deviceHighAddress → ∀ n ∈ s.devices.targets a, n.c ≠ c

theorem swept_init : Swept init where
  mail := mailInv_init
  single _ := List.nodup_nil
  gone _ _ _ _ _ h := by cases h

theorem Swept.step (h : Swept s) (hc : s.ClearsFrom2 call)
    (hs : s.perform P call = .ok (t, out)) : Swept t := by
  have hcarries := perform_carries h.mail hs
  have htargets := perform_targets hs
  constructor
  case mail => exact hcarries.inv
  case single =>
    intro a
    rw [htargets]
    exact Devices.foldl_single h.single _ a
  case gone =>
    intro c hgone a ha n hn
    rcases (hcarries.gone c).mp hgone with hg | hended
    · -- it was gone before, and nobody registers for it
      rw [htargets] at hn
      rcases Devices.mem_foldl_register hn with ⟨r, hr, heq⟩ | hn
      · intro hx
        obtain rfl := hx
        exact registrations_live hs r hr (heq ▸ hg.2)
      · exact h.gone c hg a ha n hn
    · have hclears : call.clears = some c := by
        cases call with
        | destroy d =>
            obtain rfl := List.mem_singleton.mp hended
            rfl
        | _ => cases hended
      rw [perform_clears hs hclears] at hn
      exact (Devices.cleared_iff h.single c).mpr (hc c hclears) a ha n hn

end

/-- **Clearing a client's notes leaves no trace of it** in exactly the runs
in which it has no record for the addresses 0 and 1 at the time. -/
theorem notes_cleared_iff {P : Platform} {calls : List ClientCall} {s : Ipc} {os : List IpcOut}
    (hr : run (perform P) init calls = .ok (s, os)) :
    Forgets P calls ↔ Along (perform P) ClearsFrom2 init calls := by
  constructor
  · intro h
    apply along_of_prefixes
    intro pre call post u o hx _ hu c hc
    obtain rfl := hx
    obtain ⟨t, out, ht⟩ := run_step_at hr hu
    have hsingle : ∀ a, Devices.Single (u.devices.targets a) := fun a => (run_records hu a).1
    apply (Devices.cleared_iff hsingle c).mp
    intro a ha
    rw [← perform_clears ht hc]
    exact (h.cleared pre call post u o t out c rfl hu ht hc a ha).1
  · intro h
    have hswept : ∀ pre post u o, calls = pre ++ post → run (perform P) init pre = .ok (u, o) →
        Swept u := by
      intro pre post u o hx hu
      obtain rfl := hx
      have hstep : ∀ (s : Ipc) call s' o, Swept s → s.ClearsFrom2 call →
          s.perform P call = .ok (s', o) → Swept s' := fun s call s' o h hc hs => h.step hc hs
      exact run_invariant_along hstep swept_init (along_init h) hu
    constructor
    case cleared =>
      intro pre call post u o t out c hx hu ht hc a ha
      obtain rfl := hx
      have hsingle := (hswept pre (call :: post) u o rfl hu).single
      rw [perform_clears ht hc]
      exact ⟨(Devices.cleared_iff hsingle c).mpr (along_at h hu c hc) a ha,
        Devices.clearClientNotes_others ..⟩
    case unsent =>
      intro pre post u o note c hsplit hu ha hgone hmem
      obtain ⟨n, hn, rfl⟩ := List.mem_map.mp hmem
      exact (hswept pre post u o hsplit hu).gone _ hgone _ ha n (List.mem_filter.mp hn).1 rfl

/-- A client registers for this device, and is destroyed. -/
def registeredFor (device : BitVec 16) : List ClientCall :=
  [.connect, .deviceAdd 2 1, .request 0 (.noteFlags device 1), .destroy 0]

theorem notes_cleared_iff_device_2 : ∃ s os, run (perform .x86) init (registeredFor 2) = .ok (s, os)
    ∧ Forgets .x86 (registeredFor 2) := by
  have hrun : (run (perform .x86) init (registeredFor 2)).toOption.any (fun _ => true) = true := by
    decide
  obtain ⟨⟨s, os⟩, hr, -⟩ := ok_of_any hrun
  exact ⟨s, os, hr, (notes_cleared_iff hr).mpr (by decide)⟩

/-- It has registered for the master device: a note from there goes to the
client that has been destroyed. -/
theorem note_to_destroyed_client :
    ∃ s os, run (perform .x86) init (registeredFor 1) = .ok (s, os)
      ∧ s.Gone 0 ∧ s.dispatchNote .x86 ⟨1, 1, 0, []⟩ = .error .badPointer
      ∧ ¬Forgets .x86 (registeredFor 1) := by
  have hrun : (run (perform .x86) init (registeredFor 1)).toOption.any (fun p =>
      p.1.accepted == 1 && (p.1.clients 0).isNone && p.1.devices.targets 1 == [⟨0, 1⟩]) = true := by
    decide
  obtain ⟨⟨s, os⟩, hr, hs⟩ := ok_of_any hrun
  simp only [Bool.and_eq_true, beq_iff_eq, Option.isNone_iff_eq_none] at hs
  obtain ⟨⟨haccepted, hnone⟩, htargets⟩ := hs
  have hgone : s.Gone 0 := ⟨haccepted ▸ Nat.one_pos, hnone⟩
  have hclients : s.devices.noteClients .x86 ⟨1, 1, 0, []⟩ = [0] := by
    have hlist : s.devices.targets (1 : Byte).toNat = [⟨0, 1⟩] := htargets
    rw [Devices.noteClients, hlist]
    decide
  refine ⟨s, os, hr, hgone, ?_, ?_⟩
  · have heq : s.dispatchNote .x86 ⟨1, 1, 0, []⟩ = s.pushNotes ⟨1, 1, 0, []⟩
        (s.devices.noteClients .x86 ⟨1, 1, 0, []⟩) := if_pos (by decide)
    rw [heq, hclients, pushNotes, clientPushNote, clientPush, client, hnone]
    rfl
  · intro h
    apply h.unsent (registeredFor 1) [] s os ⟨1, 1, 0, []⟩ 0 (List.append_nil _).symm hr
      (by decide) hgone
    rw [hclients]
    exact List.mem_singleton_self 0

end Ipc

end Sricd
