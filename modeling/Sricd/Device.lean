import Mathlib.Logic.Function.Basic
import Sricd.Rx

/-!
# The device table

`device.c`: the types of the devices on the bus, and for each address the
clients that want its notes. The types are kept as the bit patterns of the
`char`s in `device_types`.
-/

namespace Sricd

/-- `DEVICE_HIGH_ADDRESS`. -/
abbrev deviceHighAddress : Nat := 128

/-- What C leaves to the platform: the sign of a plain `char`, and the
shift `(uint64_t)1 << n`, which is defined below 64 only. -/
structure Platform where
  charSigned : Bool
  shl1 : Nat → BitVec 64
  shl1_eq : ∀ n, n < 64 → shl1 n = 1#64 <<< n

/-- On x86, `char` is signed and a shift count is taken modulo 64. -/
def Platform.x86 : Platform where
  charSigned := true
  shl1 n := 1#64 <<< (n % 64)
  shl1_eq n h := by rw [Nat.mod_eq_of_lt h]

/-- `device_note_target`. -/
structure NoteTarget where
  c : Nat
  flags : BitVec 64
deriving DecidableEq

/-- `device_types` and `targets`. -/
structure Devices where
  types : Nat → Byte
  targets : Nat → List NoteTarget

/-- `NO_DEVICE`, -1. -/
def noDevice : Byte := 0xFF

/-- `MASTER_DEVICE`. -/
def masterDevice : Byte := 0

/-- `BROADCAST_DEVICE`, -2. -/
def broadcastDevice : Byte := 0xFE

namespace Devices

/-- The comparison of `device_exists`. An unsigned `char` is never equal to
the `int` -1. -/
def known (P : Platform) (d : Devices) (address : Nat) : Bool :=
  !(P.charSigned && d.types address == noDevice)

/-- `device_exists`, on an address that the caller need not have checked. -/
def deviceExists (P : Platform) (d : Devices) (address : Nat) : Except Halt Bool :=
  if address < deviceHighAddress then .ok (d.known P address) else .error .outOfBounds

theorem deviceExists_ok {P : Platform} {d : Devices} {address : Nat} {b : Bool} :
    d.deviceExists P address = .ok b ↔ address < deviceHighAddress ∧ d.known P address = b := by
  rw [deviceExists]
  by_cases h : address < deviceHighAddress
  · rw [if_pos h, Except.ok.injEq, and_iff_right h]
  · rw [if_neg h]
    exact iff_of_false (fun hx => by cases hx) fun hx => h hx.1

/-- `device_type`. -/
def deviceType (d : Devices) (address : Nat) : Byte := d.types address

/-- `device_add`. -/
def deviceAdd (d : Devices) (address : Nat) (type : Byte) : Devices :=
  { d with types := Function.update d.types address type }

/-- `device_del`. -/
def deviceDel (d : Devices) (address : Nat) : Devices :=
  { d with types := Function.update d.types address noDevice }

/-- `device_reset`. -/
def reset : Devices where
  types a := if a = 0 then broadcastDevice else if a = 1 then masterDevice else noDevice
  targets _ := []

/-- The search of `device_drop_client_notes` through one list. -/
def dropTarget (c : Nat) (ts : List NoteTarget) : List NoteTarget := ts.eraseP fun t => t.c == c

/-- The search of `device_update_client_notes` through one list, with the
new record at its end. -/
def updateTarget (c : Nat) (notes : BitVec 64) : List NoteTarget → List NoteTarget
  | [] => [⟨c, notes⟩]
  | t :: ts => if t.c = c then ⟨c, notes⟩ :: ts else t :: updateTarget c notes ts

/-- `device_drop_client_notes`. -/
def dropClientNotes (d : Devices) (address c : Nat) : Devices :=
  { d with targets := Function.update d.targets address (dropTarget c (d.targets address)) }

/-- `device_update_client_notes`. -/
def updateClientNotes (d : Devices) (address c : Nat) (notes : BitVec 64) : Devices :=
  { d with targets := Function.update d.targets address (updateTarget c notes (d.targets address)) }

/-- What `device_set_client_notes` does to the lists. -/
def setClientNotes (d : Devices) (address c : Nat) (notes : BitVec 64) : Devices :=
  if notes ≠ 0 then d.updateClientNotes address c notes else d.dropClientNotes address c

/-- What `device_clear_client_notes` does to the lists: the addresses from
2 on. -/
def clearClientNotes (d : Devices) (c : Nat) : Devices :=
  (List.range' 2 (deviceHighAddress - 2)).foldl (fun d i => d.setClientNotes i c 0) d

/-- The clients that `device_dispatch_note` pushes a note to, in order. -/
def noteClients (P : Platform) (d : Devices) (note : Frame) : List Nat :=
  ((d.targets note.sourceAddress.toNat).filter fun t =>
    t.flags &&& P.shl1 note.note.toNat != 0).map NoteTarget.c

@[simp] theorem deviceType_add (d : Devices) (a b : Nat) (t : Byte) :
    (d.deviceAdd a t).deviceType b = if b = a then t else d.deviceType b :=
  Function.update_apply ..

/-! ## The lists -/

theorem setClientNotes_targets (d : Devices) (a c : Nat) (notes : BitVec 64) :
    (d.setClientNotes a c notes).targets = Function.update d.targets a
      (if notes ≠ 0 then updateTarget c notes (d.targets a) else dropTarget c (d.targets a)) := by
  rw [setClientNotes]
  by_cases h : notes ≠ 0
  · rw [if_pos h, if_pos h]
    rfl
  · rw [if_neg h, if_neg h]
    rfl

/-- What is cleared of one client's notes: its record at every address from
2 on. -/
theorem clearClientNotes_targets (d : Devices) (c a : Nat) :
    (d.clearClientNotes c).targets a
      = if 2 ≤ a ∧ a < deviceHighAddress then dropTarget c (d.targets a) else d.targets a := by
  have hfold : ∀ (is : List Nat) (d : Devices), is.Nodup →
      (is.foldl (fun d i => d.setClientNotes i c 0) d).targets a
        = if a ∈ is then dropTarget c (d.targets a) else d.targets a := by
    intro is
    induction is with
    | nil => exact fun d _ => rfl
    | cons i is ih =>
        intro d hn
        obtain ⟨hi, hn⟩ := List.nodup_cons.mp hn
        rw [List.foldl_cons, ih _ hn, setClientNotes_targets, if_neg (not_not.mpr rfl)]
        by_cases ha : a = i
        · rw [ha, if_neg hi, Function.update_self, if_pos List.mem_cons_self]
        · rw [Function.update_of_ne ha]
          simp [ha]
  rw [clearClientNotes, hfold _ _ List.nodup_range']
  refine if_congr ?_ rfl rfl
  rw [List.mem_range'_1]
  omega

/-- The records of an address: one for each client. -/
def Single (ts : List NoteTarget) : Prop := (ts.map NoteTarget.c).Nodup

theorem mem_dropTarget {ts : List NoteTarget} (h : Single ts) {c : Nat} {t : NoteTarget} :
    t ∈ dropTarget c ts ↔ t ∈ ts ∧ t.c ≠ c := by
  induction ts with
  | nil => simp [dropTarget]
  | cons u ts ih =>
      obtain ⟨hu, hn⟩ := List.nodup_cons.mp h
      by_cases huc : u.c = c
      · rw [dropTarget, List.eraseP_cons_of_pos (by simpa using huc)]
        constructor
        · intro ht
          refine ⟨List.mem_cons_of_mem _ ht, fun htc => hu ?_⟩
          rw [huc, ← htc]
          exact List.mem_map_of_mem ht
        · intro hx
          obtain ⟨ht, htc⟩ := hx
          rcases List.mem_cons.mp ht with rfl | ht
          · exact absurd huc htc
          · exact ht
      · rw [dropTarget, List.eraseP_cons_of_neg (by simpa using huc), List.mem_cons, List.mem_cons,
          ← dropTarget, ih hn]
        constructor
        · intro hx
          rcases hx with rfl | ⟨ht, htc⟩
          · exact ⟨.inl rfl, huc⟩
          · exact ⟨.inr ht, htc⟩
        · intro hx
          obtain ⟨rfl | ht, htc⟩ := hx
          · exact .inl rfl
          · exact .inr ⟨ht, htc⟩

theorem Single.drop {ts : List NoteTarget} (h : Single ts) (c : Nat) : Single (dropTarget c ts) :=
  List.Nodup.sublist (List.eraseP_sublist.map _) h

theorem mem_updateTarget {ts : List NoteTarget} {c : Nat} {notes : BitVec 64} {t : NoteTarget}
    (h : t ∈ updateTarget c notes ts) : t = ⟨c, notes⟩ ∨ t ∈ ts := by
  induction ts with
  | nil => exact .inl (List.mem_singleton.mp h)
  | cons u ts ih =>
      rw [updateTarget] at h
      split at h
      · rcases List.mem_cons.mp h with rfl | h
        · exact .inl rfl
        · exact .inr (List.mem_cons_of_mem _ h)
      · rcases List.mem_cons.mp h with rfl | h
        · exact .inr List.mem_cons_self
        · exact (ih h).imp_right (List.mem_cons_of_mem _)

theorem Single.update {ts : List NoteTarget} (h : Single ts) (c : Nat) (notes : BitVec 64) :
    Single (updateTarget c notes ts) := by
  induction ts with
  | nil => exact List.nodup_cons.mpr ⟨List.not_mem_nil, List.nodup_nil⟩
  | cons u ts ih =>
      obtain ⟨hu, hn⟩ := List.nodup_cons.mp h
      rw [updateTarget]
      split
      · rename_i huc
        exact List.nodup_cons.mpr ⟨huc ▸ hu, hn⟩
      · rename_i huc
        refine List.nodup_cons.mpr ⟨?_, ih hn⟩
        intro hmem
        obtain ⟨t, ht, htc⟩ := List.mem_map.mp hmem
        rcases mem_updateTarget ht with rfl | ht
        · exact huc htc.symm
        · exact hu (htc ▸ List.mem_map_of_mem ht)

end Devices

end Sricd
