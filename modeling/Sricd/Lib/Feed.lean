import Mathlib.Logic.Function.Basic

/-!
# Feeds

What a subscriber is to get out of a stream of items, when it may change
its mind at any time about what it wants. The items have keys, and for each
key the subscriber has set what it wants last. An item is wanted where that
hits it.
-/

namespace Sricd.Lib

/-- Something that happens to a subscriber: it sets what it wants of a key,
or an item is published. -/
inductive Feed (κ φ ι : Type) where
  | set (key : κ) (want : φ)
  | publish (item : ι)
deriving DecidableEq

namespace Feed

variable {κ φ ι : Type} [DecidableEq κ]

/-- What is wanted of each key in the end. -/
def after (m : κ → φ) : List (Feed κ φ ι) → κ → φ
  | [] => m
  | .set key want :: feed => after (Function.update m key want) feed
  | .publish _ :: feed => after m feed

/-- The items that the subscriber is to get, in order. -/
def wanted (hit : φ → ι → Bool) (key : ι → κ) (m : κ → φ) : List (Feed κ φ ι) → List ι
  | [] => []
  | .set k want :: feed => wanted hit key (Function.update m k want) feed
  | .publish item :: feed =>
      if hit (m (key item)) item then item :: wanted hit key m feed else wanted hit key m feed

/-- The items that are published. -/
def items : List (Feed κ φ ι) → List ι
  | [] => []
  | .set _ _ :: feed => items feed
  | .publish item :: feed => item :: items feed

variable {hit : φ → ι → Bool} {key : ι → κ} {m : κ → φ}

omit [DecidableEq κ] in
theorem items_append (feed rest : List (Feed κ φ ι)) :
    items (feed ++ rest) = items feed ++ items rest := by
  induction feed with
  | nil => rfl
  | cons x feed ih =>
      cases x with
      | set key want => exact ih
      | publish item => exact congrArg (item :: ·) ih

omit [DecidableEq κ] in
theorem items_publish (is : List ι) : items (is.map (publish : ι → Feed κ φ ι)) = is := by
  induction is with
  | nil => rfl
  | cons i is ih => exact congrArg (i :: ·) ih

omit [DecidableEq κ] in
theorem items_set {α : Type} (k : α → κ) (w : α → φ) (xs : List α) :
    items (xs.map fun x => (set (k x) (w x) : Feed κ φ ι)) = [] := by
  induction xs with
  | nil => rfl
  | cons x xs ih => exact ih

theorem after_append (feed rest : List (Feed κ φ ι)) :
    after m (feed ++ rest) = after (after m feed) rest := by
  induction feed generalizing m with
  | nil => rfl
  | cons x feed ih =>
      cases x with
      | set key want => exact ih
      | publish item => exact ih

theorem wanted_append (feed rest : List (Feed κ φ ι)) :
    wanted hit key m (feed ++ rest)
      = wanted hit key m feed ++ wanted hit key (after m feed) rest := by
  induction feed generalizing m with
  | nil => rfl
  | cons x feed ih =>
      cases x with
      | set k want => exact ih
      | publish item =>
          rw [List.cons_append, wanted, wanted, after, ih]
          split
          · rfl
          · rfl

/-- Where nothing is published, nothing is wanted. -/
theorem wanted_sets {feed : List (Feed κ φ ι)} (h : ∀ item, .publish item ∉ feed) :
    wanted hit key m feed = [] := by
  induction feed generalizing m with
  | nil => rfl
  | cons x feed ih =>
      have hrest : ∀ item, .publish item ∉ feed := fun item hx => h item (List.mem_cons_of_mem _ hx)
      cases x with
      | set k want => exact ih hrest
      | publish item => exact absurd List.mem_cons_self (h item)

end Feed

end Sricd.Lib
