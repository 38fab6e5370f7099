import Mathlib.Data.List.Nodup

/-!
# The main loop

The event sources of a main loop: each has an id, given out in ascending
order and never again, and a kind that says what it calls. That ids are
fresh and unique is part of the type.
-/

namespace Sricd.Lib

/-- The registered sources, of kinds `κ`, and the next id. -/
structure MainLoop (κ : Type) where
  nextId : Nat
  live : List (Nat × κ)
  nextId_pos : 0 < nextId
  fresh : ∀ p ∈ live, 0 < p.1 ∧ p.1 < nextId
  nodup : (live.map Prod.fst).Nodup
deriving DecidableEq

attribute [ext] MainLoop

namespace MainLoop

variable {κ : Type}

instance [DecidableEq κ] (l : MainLoop κ) (p : Nat × κ) : Decidable (p ∈ l.live) := inferInstance

/-- No source is registered. -/
def empty : MainLoop κ where
  nextId := 1
  live := []
  nextId_pos := Nat.one_pos
  fresh := by simp
  nodup := List.nodup_nil

/-- A new source, under the next id. -/
def add (l : MainLoop κ) (k : κ) : MainLoop κ where
  nextId := l.nextId + 1
  live := l.live ++ [(l.nextId, k)]
  nextId_pos := Nat.succ_pos _
  fresh := by
    intro p hp
    rcases List.mem_append.mp hp with hp | hp
    · exact ⟨(l.fresh p hp).1, Nat.lt_succ_of_lt (l.fresh p hp).2⟩
    · obtain rfl := List.mem_singleton.mp hp
      exact ⟨l.nextId_pos, Nat.lt_succ_self _⟩
  nodup := by
    rw [List.map_append, List.nodup_append]
    refine ⟨l.nodup, by simp, ?_⟩
    intro a ha b hb
    obtain ⟨p, hp, rfl⟩ := List.mem_map.mp ha
    obtain rfl : b = l.nextId := by simpa using hb
    exact Nat.ne_of_lt (l.fresh p hp).2

/-- The source of an id is unregistered, if there is one. -/
def remove (l : MainLoop κ) (id : Nat) : MainLoop κ where
  nextId := l.nextId
  live := l.live.filter fun p => p.1 != id
  nextId_pos := l.nextId_pos
  fresh := fun p hp => l.fresh p ((List.mem_filter.mp hp).1)
  nodup := List.Nodup.sublist (List.filter_sublist.map _) l.nodup

@[simp] theorem mem_empty (p : Nat × κ) : p ∉ (empty : MainLoop κ).live := List.not_mem_nil

@[simp] theorem mem_add (l : MainLoop κ) (k : κ) (p : Nat × κ) :
    p ∈ (l.add k).live ↔ p ∈ l.live ∨ p = (l.nextId, k) := by
  simp [add]

@[simp] theorem mem_remove (l : MainLoop κ) (id : Nat) (p : Nat × κ) :
    p ∈ (l.remove id).live ↔ p ∈ l.live ∧ p.1 ≠ id := by
  simp [remove]

@[simp] theorem nextId_remove (l : MainLoop κ) (id : Nat) : (l.remove id).nextId = l.nextId := rfl

theorem remove_add (l : MainLoop κ) (k : κ) {id : Nat} (h : id < l.nextId) :
    (l.add k).remove id = (l.remove id).add k := by
  refine MainLoop.ext rfl ?_
  simp [add, remove, List.filter_append, Nat.ne_of_gt h]

theorem nextId_ne_zero (l : MainLoop κ) : l.nextId ≠ 0 := Nat.ne_of_gt l.nextId_pos

/-- The next id is no live one. -/
theorem nextId_not_live (l : MainLoop κ) (k : κ) : (l.nextId, k) ∉ l.live :=
  fun h => Nat.lt_irrefl _ (l.fresh _ h).2

theorem zero_not_live (l : MainLoop κ) (k : κ) : (0, k) ∉ l.live :=
  fun h => Nat.lt_irrefl _ (l.fresh _ h).1

/-- There is nothing to unregister under the id 0. -/
@[simp] theorem remove_zero (l : MainLoop κ) : l.remove 0 = l := by
  refine MainLoop.ext rfl (List.filter_eq_self.mpr fun p hp => ?_)
  exact bne_iff_ne.mpr (Nat.ne_of_gt (l.fresh p hp).1)

/-- An id belongs to one source. -/
theorem kind_unique {l : MainLoop κ} {id : Nat} {k k' : κ} (h : (id, k) ∈ l.live)
    (h' : (id, k') ∈ l.live) : k = k' :=
  congrArg Prod.snd (List.inj_on_of_nodup_map l.nodup h h' rfl)

theorem id_ne_of_kind {l : MainLoop κ} {id id' : Nat} {k k' : κ} (h : (id, k) ∈ l.live)
    (h' : (id', k') ∈ l.live) (hk : k ≠ k') : id ≠ id' := by
  intro hx
  obtain rfl := hx
  exact hk (kind_unique h h')

/-- What a variable may hold that records a source of the kind: 0, or the
id of one that is registered. -/
def Holds (l : MainLoop κ) (id : Nat) (k : κ) : Prop := id = 0 ∨ (id, k) ∈ l.live

theorem holds_zero (l : MainLoop κ) (k : κ) : l.Holds 0 k := .inl rfl

theorem holds_add (l : MainLoop κ) (k : κ) : (l.add k).Holds l.nextId k :=
  .inr ((mem_add ..).mpr (.inr rfl))

theorem Holds.add {l : MainLoop κ} {id : Nat} {k : κ} (h : l.Holds id k) (k' : κ) :
    (l.add k').Holds id k :=
  h.imp_right fun hl => (mem_add ..).mpr (.inl hl)

/-- A recorded source is none of another kind. -/
theorem Holds.not_live {l : MainLoop κ} {id : Nat} {k k' : κ} (h : l.Holds id k) (hk : k ≠ k') :
    (id, k') ∉ l.live := by
  intro hl
  rcases h with rfl | h
  · exact l.zero_not_live k' hl
  · exact hk (kind_unique h hl)

/-- Another source is removed. -/
theorem Holds.remove {l : MainLoop κ} {id id' : Nat} {k : κ} (h : l.Holds id k)
    (hid : (id', k) ∉ l.live) : (l.remove id').Holds id k := by
  rcases h with h0 | h
  · exact .inl h0
  · refine .inr ((mem_remove ..).mpr ⟨h, ?_⟩)
    intro heq
    exact hid (heq ▸ h)

section
variable [DecidableEq κ]

/-- The number of registered sources of a kind. -/
def pending (l : MainLoop κ) (k : κ) : Nat := l.live.countP fun p => p.2 == k

theorem pending_pos {l : MainLoop κ} {k : κ} : 0 < l.pending k ↔ ∃ id, (id, k) ∈ l.live := by
  rw [pending, List.countP_pos_iff]
  constructor
  · intro hx
    obtain ⟨⟨id, k'⟩, h, hk⟩ := hx
    obtain rfl : k' = k := by simpa using hk
    exact ⟨id, h⟩
  · intro hx
    obtain ⟨id, h⟩ := hx
    exact ⟨(id, k), h, by simp⟩

theorem pending_add (l : MainLoop κ) (k k' : κ) :
    (l.add k).pending k' = l.pending k' + if k = k' then 1 else 0 := by
  by_cases h : k = k' <;> simp [pending, add, h]

/-- Removing a source of another kind, or none at all. -/
theorem pending_remove_of_ne {l : MainLoop κ} {id : Nat} {k : κ} (h : (id, k) ∉ l.live) :
    (l.remove id).pending k = l.pending k := by
  rw [pending, pending, remove, List.countP_filter]
  apply List.countP_congr
  intro p hp
  simp only [Bool.and_eq_true, beq_iff_eq, bne_iff_ne, and_iff_left_iff_imp]
  intro hx hcase
  obtain rfl := hx
  obtain rfl := hcase
  exact h hp

theorem pending_remove {l : MainLoop κ} {id : Nat} {k : κ} (h : (id, k) ∈ l.live) :
    (l.remove id).pending k = l.pending k - 1 := by
  show (l.live.filter fun p => p.1 != id).countP (fun p => p.2 == k) = l.live.countP _ - 1
  have hn := l.nodup
  generalize l.live = live at h hn
  induction live with
  | nil => cases h
  | cons p live ih =>
      rw [List.map_cons, List.nodup_cons] at hn
      by_cases hp : p.1 = id
      · -- the source itself: no other has its id
        have hpk : p = (id, k) := by
          rcases List.mem_cons.mp h with rfl | h
          · rfl
          · exact absurd (List.mem_map_of_mem (f := Prod.fst) h) (hp ▸ hn.1)
        have hrest : live.filter (fun p => p.1 != id) = live := by
          apply List.filter_eq_self.mpr
          intro q hq
          have : q.1 ≠ id := fun hqid => hn.1 (hp ▸ hqid ▸ List.mem_map_of_mem hq)
          simpa using this
        rw [List.filter_cons_of_neg (by simp [hp]), hrest, hpk, List.countP_cons_of_pos (by simp)]
        rfl
      · have hmem : (id, k) ∈ live := by
          rcases List.mem_cons.mp h with rfl | h
          · exact absurd rfl hp
          · exact h
        have hpos : 0 < live.countP fun p => p.2 == k :=
          List.countP_pos_iff.mpr ⟨_, hmem, by simp⟩
        rw [List.filter_cons_of_pos (by simp [hp]), List.countP_cons, List.countP_cons,
          ih hmem hn.2]
        omega

end

end MainLoop

end Sricd.Lib
