import Sricd.Registry

/-!
# The note mask of a client

`device_note_data` holds one bit for each address for which the client has
set notes, in two words of 64 bits; `device_set_client_notes` updates it
beside the lists. Address 64 is taken for one of the first word: its shift
is by the width of the word. The mask mirrors the lists in exactly the runs
in which that address is never set or cleared (`note_mask_iff`).
-/

namespace Sricd

open Sricd.Lib

/-- The word of `device_note_data` that `device_set_client_notes` changes
for an address, and how far it shifts for the bit. -/
def notePosition (address : Nat) : Nat × Nat :=
  if address > 64 then (1, address - 64) else (0, address)

/-- Two addresses have two positions. -/
theorem notePosition_inj {a b : Nat} (h : notePosition a = notePosition b) : a = b := by
  rw [notePosition, notePosition] at h
  split at h <;> split at h <;> rw [Prod.mk.injEq] at h <;> omega

theorem notePosition_lt {a : Nat} (ha : a < deviceHighAddress) :
    (notePosition a).2 < 64 ↔ a ≠ 64 := by
  have h128 : deviceHighAddress = 128 := rfl
  rw [notePosition]
  split
  · exact iff_of_true (by omega) (by omega)
  · constructor
    · intro h
      exact Nat.ne_of_lt h
    · intro h
      omega

namespace Client

/-- One of the two words. -/
def noteWord (cl : Client) (word : Nat) : BitVec 64 :=
  if word = 1 then cl.deviceNoteData.2 else cl.deviceNoteData.1

/-- The bit of an address. -/
def noted (cl : Client) (address : Nat) : Bool :=
  (cl.noteWord (notePosition address).1).getLsbD (notePosition address).2

theorem noted_congr {cl cl' : Client} (h : cl.deviceNoteData = cl'.deviceNoteData) (a : Nat) :
    cl.noted a = cl'.noted a := by
  rw [noted, noted, noteWord, noteWord, h]

theorem noted_create (a : Nat) : create.noted a = false := by
  rw [noted, noteWord, create]
  split <;> exact BitVec.getLsbD_zero

/-- A bit that is set or cleared, where the shift is defined. -/
theorem getLsbD_setBit (P : Platform) (word : BitVec 64) {bit : Nat} (hbit : bit < 64)
    (notes : BitVec 64) (i : Nat) :
    (setBit P word bit notes).getLsbD i
      = if i = bit then decide (notes ≠ 0) else word.getLsbD i := by
  have hshift : ∀ i, (1#64 <<< bit).getLsbD i = decide (i = bit) := by
    intro i
    rw [BitVec.getLsbD_shiftLeft, BitVec.getLsbD_one]
    by_cases hi : i = bit
    · simp [hi, hbit]
    · simp [hi]
      omega
  rw [setBit, P.shl1_eq bit hbit]
  by_cases hn : notes ≠ 0
  · rw [if_pos hn, BitVec.getLsbD_or, hshift]
    by_cases hi : i = bit
    · simpa [hi] using hn
    · simp [hi]
  · rw [if_neg hn, BitVec.getLsbD_and, BitVec.getLsbD_not, hshift]
    by_cases hi : i = bit
    · simpa [hi] using hn
    · by_cases hw : i < 64
      · simp [hi, hw]
      · simp [hi, BitVec.getLsbD_of_ge word i (by omega)]

/-- **Setting the notes of an address** changes its bit and no other. -/
theorem noted_setNoteData (P : Platform) (cl : Client) {a b : Nat} (ha : a < deviceHighAddress)
    (hne : a ≠ 64) (notes : BitVec 64) :
    (cl.setNoteData P a notes).noted b = if b = a then decide (notes ≠ 0) else cl.noted b := by
  have hbit := (notePosition_lt ha).mpr hne
  have hword : ∀ w, (cl.setNoteData P a notes).noteWord w
      = if (w = 1) = ((notePosition a).1 = 1) then
          setBit P (cl.noteWord w) (notePosition a).2 notes
        else cl.noteWord w := by
    intro w
    rw [setNoteData, notePosition, noteWord, noteWord]
    by_cases h64 : a > 64 <;> by_cases hw : w = 1 <;> simp [h64, hw]
  rw [noted, hword]
  by_cases hba : b = a
  · subst hba
    rw [if_pos rfl, getLsbD_setBit P _ hbit, if_pos rfl, if_pos rfl]
  · rw [if_neg hba, noted]
    split
    · rename_i hw
      rw [getLsbD_setBit P _ hbit, if_neg]
      intro hb
      refine hba (notePosition_inj (Prod.ext ?_ hb))
      rw [notePosition, notePosition] at hw ⊢
      split <;> split <;> simp_all
    · rfl

/-- What one call of `device_set_client_notes` does to client `c`. -/
def register (P : Platform) (c : Nat) (cl : Client) (r : Registration) : Client :=
  if r.c = c then cl.setNoteData P r.address r.notes else cl

theorem clearNoteData_register (P : Platform) (c : Nat) (cl : Client) :
    cl.clearNoteData P = (clearing c).foldl (register P c) cl := by
  rw [clearNoteData, clearing, List.foldl_map]
  simp only [register, if_pos]

theorem foldl_register_other {P : Platform} {c : Nat} (cl : Client) {rs : List Registration}
    (h : ∀ r ∈ rs, r.c ≠ c) : rs.foldl (register P c) cl = cl := by
  induction rs with
  | nil => rfl
  | cons r rs ih =>
      rw [List.foldl_cons, register, if_neg (h r List.mem_cons_self)]
      exact ih fun q hq => h q (List.mem_cons_of_mem _ hq)

/-- **The mask mirrors the lists**: the bit of an address is set if the list
there has a record for the client. -/
def Mirrors (cl : Client) (c : Nat) (targets : Nat → List NoteTarget) : Prop :=
  ∀ a, a < deviceHighAddress → (cl.noted a = true ↔ c ∈ (targets a).map NoteTarget.c)

/-- **One call keeps the mask in step with the lists**, unless it is about
address 64. -/
theorem Mirrors.register {cl : Client} {c : Nat} {d : Devices} (h : cl.Mirrors c d.targets)
    (hsingle : ∀ a, Devices.Single (d.targets a)) (P : Platform) {r : Registration}
    (ha : r.address < deviceHighAddress) (hne : r.address ≠ 64) :
    (cl.register P c r).Mirrors c (d.register r).targets := by
  have hone := d.register_oneRecord r
  intro a hlt
  rw [Client.register]
  by_cases haddr : a = r.address
  · subst haddr
    rw [hone.order]
    by_cases hc : r.c = c
    · subst hc
      rw [if_pos rfl, noted_setNoteData P cl ha hne, if_pos rfl, decide_eq_true_iff]
      by_cases hn : r.notes = 0
      · rw [if_pos hn]
        exact iff_of_false (not_not.mpr hn) (hsingle _).not_mem_erase
      · rw [if_neg hn]
        apply iff_of_true hn
        split
        · assumption
        · exact List.mem_append_right _ (List.mem_singleton_self _)
    · have hcne : c ≠ r.c := Ne.symm hc
      rw [if_neg hc, h _ hlt]
      split
      · exact (List.mem_erase_of_ne hcne).symm
      · split
        · rfl
        · rw [List.mem_append, List.mem_singleton, or_iff_left hcne]
  · rw [hone.addresses a haddr]
    split
    · rw [noted_setNoteData P cl ha hne, if_neg haddr]
      exact h a hlt
    · exact h a hlt

theorem Mirrors.foldl {cl : Client} {c : Nat} {d : Devices} (h : cl.Mirrors c d.targets)
    (hsingle : ∀ a, Devices.Single (d.targets a)) (P : Platform) {rs : List Registration}
    (hrs : ∀ r ∈ rs, r.address < deviceHighAddress ∧ r.address ≠ 64) :
    (rs.foldl (Client.register P c) cl).Mirrors c (rs.foldl Devices.register d).targets := by
  induction rs generalizing cl d with
  | nil => exact h
  | cons r rs ih =>
      have hr := hrs r List.mem_cons_self
      exact ih (h.register hsingle P hr.1 hr.2) (Devices.foldl_single hsingle [r])
        fun q hq => hrs q (List.mem_cons_of_mem _ hq)

end Client

namespace Ipc

/-! ## What a call does to the masks -/

/-- No client connects, and every client of `t` has the mask that it had in
`s`, with the calls `regs` made. -/
structure Masks (P : Platform) (regs : List Registration) (s t : Ipc) : Prop where
  accepted : t.accepted = s.accepted
  data : ∀ c cl', t.clients c = some cl' → ∃ cl, s.clients c = some cl
    ∧ cl'.deviceNoteData = (regs.foldl (Client.register P c) cl).deviceNoteData

section
variable {P : Platform} {s t : Ipc}

theorem masks_same (ha : t.accepted = s.accepted) (h : t.clients = s.clients) :
    Masks P [] s t :=
  ⟨ha, fun _ cl' hc => ⟨cl', h ▸ hc, rfl⟩⟩

/-- A client is written back with what the calls, all of them its own, make
of its mask. -/
theorem masks_setClient {regs : List Registration} {c : Nat} {cl cl' : Client} {d : Devices}
    {l : MainLoop IpcSource} (hc : s.clients c = some cl) (hregs : ∀ r ∈ regs, r.c = c)
    (hdata : cl'.deviceNoteData = (regs.foldl (Client.register P c) cl).deviceNoteData) :
    Masks P regs s ({ s with loop := l, devices := d }.setClient c cl') := by
  refine ⟨rfl, ?_⟩
  intro b cl'' hb
  by_cases hbc : b = c
  · subst hbc
    obtain rfl : cl' = cl'' := by simpa [setClient] using hb
    exact ⟨cl, hc, hdata⟩
  · have hb : s.clients b = some cl'' := by simpa [setClient, hbc] using hb
    refine ⟨cl'', hb, ?_⟩
    rw [Client.foldl_register_other]
    intro r hr heq
    exact hbc (heq.symm.trans (hregs r hr))

/-- A mailbox is not part of the mask. -/
theorem masks_setBox {c : Nat} {cl : Client} (hc : s.clients c = some cl) (l : MainLoop IpcSource)
    (k : Poll) (m : Mailbox) :
    Masks P [] s ({ s with loop := l }.setClient c (cl.setBox k m)) :=
  masks_setClient (d := s.devices) hc (fun _ h => by cases h) rfl

theorem Masks.trans {u : Ipc} (h : Masks P [] s t) (h' : Masks P [] t u) : Masks P [] s u := by
  refine ⟨h'.accepted.trans h.accepted, ?_⟩
  intro c cl'' hc
  obtain ⟨cl', hc', hdata'⟩ := h'.data c cl'' hc
  obtain ⟨cl, hcl, hdata⟩ := h.data c cl' hc'
  exact ⟨cl, hcl, hdata'.trans hdata⟩

theorem clientPush_masks (h : MailInv s) {k : Poll} {c : Nat} {f : Frame} {out : List IpcOut}
    (hr : s.clientPush k c f = .ok (t, out)) : Masks P [] s t := by
  obtain ⟨cl, hcl, -⟩ := bind_ok.mp hr
  have hc := Session.client_ok hcl
  rw [clientPush_live h hc] at hr
  split at hr
  · cases hr
    exact masks_setBox hc _ k _
  · cases hr
    exact masks_setBox hc s.loop k _

theorem pushNotes_masks (h : MailInv s) {note : Frame} {cs : List Nat} {out : List IpcOut}
    (hr : s.pushNotes note cs = .ok (t, out)) : Masks P [] s t := by
  induction cs generalizing s out with
  | nil =>
      cases hr
      exact masks_same rfl rfl
  | cons c cs ih =>
      obtain ⟨⟨u, o⟩, hu, hr⟩ := bind_ok.mp hr
      obtain ⟨⟨v, os⟩, hv, hr⟩ := bind_ok.mp hr
      cases hr
      exact (clientPush_masks h hu).trans (ih (clientPush_carries h hu).inv hv)

theorem setClientNotes_masks {a c : Nat} {notes : BitVec 64}
    (h : s.setClientNotes P a c notes = .ok t) : Masks P [⟨a, c, notes⟩] s t := by
  rw [setClientNotes] at h
  split at h
  · obtain ⟨cl, hcl, h⟩ := bind_ok.mp h
    cases h
    refine masks_setClient (l := s.loop) (Session.client_ok hcl) ?_ ?_
    · intro r hr
      rw [List.mem_singleton.mp hr]
    · rw [List.foldl_cons, List.foldl_nil, Client.register, if_pos rfl]
  · cases h

theorem clearClientNotes_masks {c : Nat} (h : s.clearClientNotes P c = .ok t) :
    Masks P (clearing c) s t := by
  obtain ⟨cl, hcl, h⟩ := bind_ok.mp h
  cases h
  refine masks_setClient (l := s.loop) (Session.client_ok hcl) ?_ ?_
  · intro r hr
    obtain ⟨a, -, rfl⟩ := List.mem_map.mp hr
    rfl
  · rw [Client.clearNoteData_register]

/-- **What a call does to the masks**: the client that connects has an
empty one, and the others see the calls of `device_set_client_notes`. -/
theorem perform_masks (h : MailInv s) {call : ClientCall} {out : List IpcOut}
    (hr : s.perform P call = .ok (t, out)) (hconnect : call ≠ .connect) :
    Masks P (call.registrations P s) s t := by
  cases call with
  | connect => exact absurd rfl hconnect
  | deviceAdd _ _ | listen | socket _ _ | drop _ =>
      cases hr
      exact masks_same rfl rfl
  | request c q =>
      cases q with
      | tx address payload hlt =>
          rw [perform, Request.serve] at hr
          split at hr
          · obtain ⟨rfl, -⟩ := Session.transmit_outcome hr
            exact masks_same rfl rfl
          · cases hr
      | poll k timeout =>
          obtain ⟨cl, hc, ⟨f, q, -, -, rfl⟩ | ⟨-, -, rfl⟩ | ⟨-, -, l, timer, rfl⟩⟩ := poll_cases hr
          · exact masks_setBox hc s.loop k _
          · exact masks_same rfl rfl
          · exact masks_setBox hc l k _
      | noteFlags device flags =>
          rw [ClientCall.registrations]
          rcases setFlags_ok hr with ⟨hb, hset, -⟩ | ⟨hb, rfl, -⟩
          · rw [(Devices.deviceExists_ok.mp hb).2, if_pos rfl]
            exact setClientNotes_masks hset
          · rw [(Devices.deviceExists_ok.mp hb).2, if_neg Bool.false_ne_true]
            exact masks_same rfl rfl
      | noteClear =>
          obtain ⟨u, hu, hr⟩ := bind_ok.mp hr
          cases hr
          exact clearClientNotes_masks hu
      | listDevices =>
          cases hr
          exact masks_same rfl rfl
  | timeout k id c =>
      have hstep : s.step P (.timeout k id c) = .ok (t, out) := hr
      have hh := (step_handle hstep).2
      have htimed : ∀ {u : Ipc} {o : List IpcOut}, s.timedOut k id c = .ok (u, o) →
          Masks P [] s u := by
        intro u o hu
        obtain ⟨cl, hcl, hu⟩ := bind_ok.mp hu
        cases hu
        exact masks_setBox (Session.client_ok hcl) (s.loop.remove id) k _
      cases k with
      | rx =>
          obtain ⟨⟨u, o⟩, hu, hh⟩ := bind_ok.mp hh
          cases hh
          exact htimed hu
      | note => exact htimed hh
  | push k c f => exact clientPush_masks h hr
  | dispatchNote note =>
      rw [perform, dispatchNote] at hr
      split at hr
      · exact pushNotes_masks h hr
      · cases hr
  | setClientNotes address c notes =>
      obtain ⟨u, hu, hr⟩ := bind_ok.mp hr
      cases hr
      exact setClientNotes_masks hu
  | destroy c =>
      obtain ⟨u, hu, hr⟩ := bind_ok.mp hr
      cases hr
      have hclear := clearClientNotes_masks hu
      exact ⟨hclear.accepted, fun d cl' hd => hclear.data d cl' (update_gone hd)⟩

/-- The calls of `device_set_client_notes` that are made are for addresses
of the table. -/
theorem registrations_lt {call : ClientCall} {out : List IpcOut}
    (hr : s.perform P call = .ok (t, out)) :
    ∀ r ∈ call.registrations P s, r.address < deviceHighAddress := by
  have hclearing : ∀ {c}, ∀ r ∈ clearing c, r.address < deviceHighAddress := by
    intro c r hr
    obtain ⟨a, ha, rfl⟩ := List.mem_map.mp hr
    exact (List.mem_range'_1.mp ha).2
  cases call with
  | request c q =>
      cases q with
      | noteFlags device flags =>
          intro r hmem
          rw [ClientCall.registrations] at hmem
          split at hmem
          · rename_i hknown
            obtain rfl := List.mem_singleton.mp hmem
            rcases setFlags_ok hr with ⟨-, hu, -⟩ | ⟨hb, -⟩
            · exact (setClientNotes_ok hu).1
            · cases hknown.symm.trans (Devices.deviceExists_ok.mp hb).2
          · cases hmem
      | noteClear => exact hclearing
      | tx _ _ _ | poll _ _ | listDevices => exact fun _ hmem => by cases hmem
  | setClientNotes a c notes =>
      intro r hmem
      obtain rfl := List.mem_singleton.mp hmem
      obtain ⟨u, hu, -⟩ := bind_ok.mp hr
      exact (setClientNotes_ok hu).1
  | destroy c => exact hclearing
  | _ => exact fun _ hmem => by cases hmem

end

/-! ## Runs -/

/-- The masks mirror the lists. -/
structure Masked (s : Ipc) : Prop where
  mail : MailInv s
  single : ∀ a, Devices.Single (s.devices.targets a)
  unborn : ∀ a, ∀ n ∈ s.devices.targets a, n.c < s.accepted
  mirrors : ∀ c cl, s.clients c = some cl → cl.Mirrors c s.devices.targets

theorem masked_init : Masked init where
  mail := mailInv_init
  single _ := List.nodup_nil
  unborn _ _ h := by cases h
  mirrors _ _ h := by cases h

/-- No call of `device_set_client_notes` is for address 64. -/
def Spares64 (P : Platform) (s : Ipc) (call : ClientCall) : Prop :=
  ∀ r ∈ call.registrations P s, r.address ≠ 64

instance (P : Platform) (s : Ipc) (call : ClientCall) : Decidable (s.Spares64 P call) :=
  inferInstanceAs (Decidable (∀ r ∈ _, _))

/-- **One call** that spares address 64 keeps the masks. -/
theorem Masked.step {P : Platform} {s t : Ipc} {call : ClientCall} {out : List IpcOut}
    (h : Masked s) (hc : s.Spares64 P call) (hr : s.perform P call = .ok (t, out)) :
    Masked t := by
  have hinv := (perform_carries h.mail hr).inv
  by_cases hconnect : call = .connect
  · subst hconnect
    cases hr
    refine ⟨hinv, h.single, fun a n hn => Nat.lt_succ_of_lt (h.unborn a n hn), ?_⟩
    intro c cl hcl a ha
    rcases new_clients hcl with ⟨rfl, rfl⟩ | ⟨-, hcl⟩
    · -- nobody has registered it yet
      rw [Client.noted_create]
      apply iff_of_false Bool.false_ne_true
      intro hmem
      obtain ⟨n, hn, heq⟩ := List.mem_map.mp hmem
      exact Nat.lt_irrefl _ (heq ▸ h.unborn a n hn)
    · exact h.mirrors c cl hcl a ha
  · have hmasks := perform_masks h.mail hr hconnect
    have htargets := perform_targets hr
    constructor
    case mail => exact hinv
    case single =>
      intro a
      rw [htargets]
      exact Devices.foldl_single h.single _ a
    case unborn =>
      intro a n hn
      rw [htargets] at hn
      rw [hmasks.accepted]
      rcases Devices.mem_foldl_register hn with ⟨r, hmem, heq⟩ | hn
      · by_contra hle
        exact registrations_live hr r hmem (h.mail.unborn r.c (heq ▸ Nat.not_lt.mp hle))
      · exact h.unborn a n hn
    case mirrors =>
      intro c cl' hcl' a ha
      obtain ⟨cl, hcl, hdata⟩ := hmasks.data c cl' hcl'
      rw [Client.noted_congr hdata, htargets]
      exact (h.mirrors c cl hcl).foldl h.single P
        (fun r hmem => ⟨registrations_lt hr r hmem, hc r hmem⟩) a ha

/-- In every step of the run the shifts by which the masks are changed are
by less than the width of a word, addresses have positions of their own,
and in every state that is reached the masks mirror the lists. -/
structure KeepsMasks (P : Platform) (calls : List ClientCall) : Prop where
  shifts : ∀ pre call post s os, calls = pre ++ call :: post →
    run (perform P) init pre = .ok (s, os) →
    ∀ r ∈ call.registrations P s, (notePosition r.address).2 < 64
  apart : ∀ a b, a < deviceHighAddress → b < deviceHighAddress →
    notePosition a = notePosition b → a = b
  mirrors : ∀ pre post s os c cl, calls = pre ++ post →
    run (perform P) init pre = .ok (s, os) → s.clients c = some cl →
    cl.Mirrors c s.devices.targets

/-- **The note masks mirror the registry**, with no shift by the width of a
word or more, in exactly the runs in which nothing is set or cleared for
address 64. -/
theorem note_mask_iff {P : Platform} {calls : List ClientCall} {s : Ipc} {os : List IpcOut}
    (hr : run (perform P) init calls = .ok (s, os)) :
    KeepsMasks P calls ↔ Along (perform P) (Spares64 P) init calls := by
  constructor
  · intro h
    apply along_of_prefixes
    intro pre call post u o hx _ hu r hmem
    obtain rfl := hx
    obtain ⟨t, out, ht⟩ := run_step_at hr hu
    exact (notePosition_lt (registrations_lt ht r hmem)).mp
      (h.shifts pre call post u o rfl hu r hmem)
  · intro h
    have hstep : ∀ (s : Ipc) call s' o, Masked s → s.Spares64 P call →
        s.perform P call = .ok (s', o) → Masked s' := fun s call s' o h hc hs => h.step hc hs
    constructor
    case shifts =>
      intro pre call post u o hx hu r hmem
      obtain rfl := hx
      obtain ⟨t, out, ht⟩ := run_step_at hr hu
      exact (notePosition_lt (registrations_lt ht r hmem)).mpr (along_at h hu r hmem)
    case apart => exact fun a b _ _ hab => notePosition_inj hab
    case mirrors =>
      intro pre post u o c cl hx hu hcl
      obtain rfl := hx
      exact (run_invariant_along hstep masked_init (along_init h) hu).mirrors c cl hcl

/-- Two clients register on both sides of the word boundary, and one
address is cleared again. -/
def aroundBoundary : List ClientCall :=
  [.connect, .deviceAdd 63 1, .deviceAdd 65 1, .connect, .request 0 (.noteFlags 63 1),
    .request 0 (.noteFlags 65 6), .request 1 (.noteFlags 1 4), .request 0 (.noteFlags 63 0)]

theorem note_mask_iff_around_boundary :
    ∃ s os, run (perform .x86) init aroundBoundary = .ok (s, os)
      ∧ KeepsMasks .x86 aroundBoundary := by
  have hrun : (run (perform .x86) init aroundBoundary).toOption.any (fun _ => true) = true := by
    decide
  obtain ⟨⟨s, os⟩, hr, -⟩ := ok_of_any hrun
  exact ⟨s, os, hr, (note_mask_iff hr).mpr (by decide)⟩

/-- A client registers for device 64. -/
def registerFor64 : List ClientCall :=
  [.connect, .deviceAdd 64 1, .request 0 (.noteFlags 64 1)]

/-- The shift is by 64. On x86 it sets the bit of address 0, for which
nobody has registered, and leaves the one of address 64. -/
theorem note_mask_address_64 :
    ∃ s os cl, run (perform .x86) init registerFor64 = .ok (s, os) ∧ s.clients 0 = some cl
      ∧ (notePosition 64).2 = 64
      ∧ cl.noted 0 = true ∧ s.devices.targets 0 = []
      ∧ cl.noted 64 = false ∧ s.devices.targets 64 = [⟨0, 1⟩]
      ∧ ¬KeepsMasks .x86 registerFor64 := by
  have hrun : (run (perform .x86) init registerFor64).toOption.any (fun p =>
      (p.1.clients 0).any (fun cl => cl.noted 0 && !cl.noted 64)
        && p.1.devices.targets 0 == [] && p.1.devices.targets 64 == [⟨0, 1⟩]) = true := by
    decide
  obtain ⟨⟨s, os⟩, hr, hs⟩ := ok_of_any hrun
  simp only [Bool.and_eq_true, Bool.not_eq_true', beq_iff_eq, Option.any_eq_true] at hs
  obtain ⟨⟨⟨cl, hcl, h0, h64⟩, ht0⟩, ht64⟩ := hs
  refine ⟨s, os, cl, hr, hcl, rfl, h0, ht0, h64, ht64, ?_⟩
  intro h
  have hmem := (h.mirrors registerFor64 [] s os 0 cl (List.append_nil _).symm hr hcl 0
    (by decide)).mp h0
  rw [ht0] at hmem
  cases hmem

end Ipc

end Sricd
