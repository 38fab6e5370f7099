import Sricd.EnumBus

/-!
# The addresses of the enumeration

Addresses are given away, and asked for their class, one after the other
from 2 on: the two counters and the state tell which have had their turn
(`Move.ordered`). This needs no bus that behaves; it holds of every run,
and so do the bounds of the tables (`enumeration_in_range`).
-/

namespace Sricd

open Sricd.Lib

namespace EnumBus

/-- The addresses assigned so far. -/
def assignedBy (e : Enum) : List Nat :=
  match e.state with
  | .settingAddr | .settingGwAddr | .advancingToken => List.range' 2 (e.currentNextAddress - 1)
  | _ => List.range' 2 (e.currentNextAddress - 2)

/-- The addresses asked so far. -/
def askedBy (e : Enum) : List Nat :=
  match e.state with
  | .fetchingClasses => List.range' 2 (e.currentAddrInfoAddr - 2)
  | .enumerated => List.range' 2 (e.currentNextAddress - 2)
  | _ => []

/-- The addresses that the ADDR_ASSIGN frames among these actions carry. -/
def assigned (as : List EnumAction) : List Nat := (frames as).filterMap FrameT.assigns

/-- The addresses that the ADDR_INFO frames among these actions go to. -/
def asked (as : List EnumAction) : List Nat := (frames as).filterMap FrameT.asks

theorem assigns_sendAddress {a : Nat} (h : a < deviceHighAddress) :
    (sendAddress a).assigns = some a := by
  have h128 : deviceHighAddress = 128 := rfl
  have hnat : (BitVec.ofNat 8 a).toNat = a := Nat.mod_eq_of_lt (by omega)
  exact congrArg some hnat

theorem assigned_push {f : FrameT} {a : Nat} {as : List EnumAction} (h : f.assigns = some a) :
    assigned (.push f :: as) = a :: assigned as := List.filterMap_cons_some h

theorem asked_push {f : FrameT} {a : Nat} {as : List EnumAction} (h : f.asks = some a) :
    asked (.push f :: as) = a :: asked as := List.filterMap_cons_some h

theorem assigned_append (as bs : List EnumAction) :
    assigned (as ++ bs) = assigned as ++ assigned bs := by
  rw [assigned, frames, List.filterMap_append, List.filterMap_append]
  rfl

theorem asked_append (as bs : List EnumAction) : asked (as ++ bs) = asked as ++ asked bs := by
  rw [asked, frames, List.filterMap_append, List.filterMap_append]
  rfl

/-- One more address. -/
theorem range_snoc {a : Nat} (h : 2 ≤ a) :
    List.range' 2 (a - 2) ++ [a] = List.range' 2 (a + 1 - 2) := by
  have ha : a + 1 - 2 = a - 2 + 1 := by omega
  rw [ha, List.range'_1_concat, Nat.add_sub_cancel' h]

end EnumBus

namespace Enum

open EnumBus

/-! ## The counters -/

/-- What the state says of the two counters. -/
def Counters (e : Enum) : Prop :=
  match e.state with
  | .settingAddr | .settingGwAddr | .advancingToken =>
      e.currentAddrInfoAddr = 2 ∧ 2 ≤ e.currentNextAddress
        ∧ e.currentNextAddress < deviceHighAddress
  | .fetchingClasses =>
      3 ≤ e.currentAddrInfoAddr ∧ e.currentAddrInfoAddr ≤ e.currentNextAddress
        ∧ e.currentNextAddress ≤ deviceHighAddress
  | .enumerated =>
      3 ≤ e.currentAddrInfoAddr ∧ e.currentAddrInfoAddr = e.currentNextAddress
        ∧ e.currentNextAddress ≤ deviceHighAddress
  | _ =>
      e.currentAddrInfoAddr = 2 ∧ 2 ≤ e.currentNextAddress
        ∧ e.currentNextAddress ≤ deviceHighAddress

theorem Counters.bounds {e : Enum} (h : Counters e) :
    2 ≤ e.currentAddrInfoAddr ∧ e.currentAddrInfoAddr ≤ e.currentNextAddress
      ∧ e.currentNextAddress ≤ deviceHighAddress := by
  unfold Counters at h
  cases hs : e.state <;> simp only [hs] at h <;> omega

theorem Counters.congr {e e' : Enum} (h : Counters e) (hs : e'.state = e.state)
    (hn : e'.currentNextAddress = e.currentNextAddress)
    (ha : e'.currentAddrInfoAddr = e.currentAddrInfoAddr) : Counters e' := by
  unfold Counters at h ⊢
  rw [hs, hn, ha]
  exact h

/-- The counters count on, below 256. -/
theorem Move.counters {e e' : Enum} {ev : EnumEvent} {as : List EnumAction} (h : Move e ev e' as)
    (hc : Counters e) : Counters e' := by
  have h128 : deviceHighAddress = 128 := rfl
  cases h with
  | stay => exact hc
  | start hs | tokenCaught hs | busReset hs | addrSet hs => simpa only [Counters, hs] using hc
  | devPresent hs hlt | tokAtGw hs hlt =>
      simp only [Counters, hs] at hc
      exact ⟨hc.1, hc.2.1, hlt⟩
  | advanced hs =>
      simp only [Counters, hs] at hc ⊢
      omega
  | gwAddrSet hs =>
      simp only [Counters, hs] at hc ⊢
      omega
  | classesFetched hs heq =>
      simp only [Counters, hs] at hc ⊢
      omega
  | fetchNext hs hne =>
      simp only [Counters, hs] at hc ⊢
      omega

/-- The counters that are about to be used are in the tables. -/
def InTables (e : Enum) : Prop :=
  match e.state with
  | .settingAddr | .settingGwAddr | .advancingToken =>
      2 ≤ e.currentNextAddress ∧ e.currentNextAddress < deviceHighAddress
  | .fetchingClasses =>
      3 ≤ e.currentAddrInfoAddr ∧ e.currentAddrInfoAddr ≤ e.currentNextAddress
        ∧ e.currentNextAddress ≤ deviceHighAddress
  | .enumerated => True
  | _ => 2 ≤ e.currentNextAddress ∧ e.currentNextAddress ≤ deviceHighAddress

theorem Counters.inTables {e : Enum} (h : Counters e) : InTables e := by
  unfold Counters at h
  unfold InTables
  cases hs : e.state <;> simp only [hs] at h ⊢ <;> omega

/-- **Every address has its turn**: what a move assigns and asks is what
comes next. -/
theorem Move.ordered {e e' : Enum} {ev : EnumEvent} {as : List EnumAction} (h : Move e ev e' as)
    (hc : InTables e) :
    assignedBy e ++ assigned as = assignedBy e' ∧ askedBy e ++ asked as = askedBy e' := by
  have h128 : deviceHighAddress = 128 := rfl
  cases h with
  | stay => exact ⟨List.append_nil _, List.append_nil _⟩
  | start hs | tokenCaught hs | busReset hs | addrSet hs =>
      rw [assignedBy, assignedBy, askedBy, askedBy, hs]
      exact ⟨List.append_nil _, rfl⟩
  | devPresent hs hlt | tokAtGw hs hlt =>
      simp only [InTables, hs] at hc
      rw [assigned_push (assigns_sendAddress hlt), assignedBy, assignedBy, askedBy, askedBy, hs]
      exact ⟨range_snoc hc.1, rfl⟩
  | advanced hs =>
      simp only [InTables, hs] at hc
      have hmod : (e.currentNextAddress + 1) % 256 = e.currentNextAddress + 1 := by omega
      rw [assignedBy, assignedBy, askedBy, askedBy, hs]
      simp only [hmod]
      exact ⟨List.append_nil _, rfl⟩
  | gwAddrSet hs =>
      simp only [InTables, hs] at hc
      have hmod : (e.currentNextAddress + 1) % 256 = e.currentNextAddress + 1 := by omega
      rw [assignedBy, assignedBy, askedBy, askedBy, hs]
      simp only [hmod]
      exact ⟨List.append_nil _, rfl⟩
  | classesFetched hs heq =>
      rw [assigned, asked, frames_deviceAdd, assignedBy, assignedBy, askedBy, askedBy, hs]
      simp only [heq]
      exact ⟨List.append_nil _, List.append_nil _⟩
  | fetchNext hs hne =>
      simp only [InTables, hs] at hc
      have hmod : (e.currentAddrInfoAddr + 1) % 256 = e.currentAddrInfoAddr + 1 := by omega
      rw [asked_push rfl, assignedBy, assignedBy, askedBy, askedBy, hs]
      simp only [hmod]
      exact ⟨List.append_nil _, range_snoc (by omega)⟩

/-! ## Runs -/

/-- One input gives the next addresses their turn. -/
theorem step_ordered {e e' : Enum} {i : EnumInput} {as : List EnumAction}
    (h : e.step i = .ok (e', as)) (hc : InTables e) :
    assignedBy e ++ assigned as = assignedBy e' ∧ askedBy e ++ asked as = askedBy e' := by
  rcases step_cases h with ⟨f, -, -, -, hm⟩ | ⟨-, rc, ⟨rfl, has⟩ | ⟨ev, -, hm⟩⟩
  · exact hm.ordered hc
  · rcases has with rfl | rfl <;> exact ⟨List.append_nil _, List.append_nil _⟩
  · exact hm.ordered hc

theorem Counters.step {e e' : Enum} {i : EnumInput} {as : List EnumAction} (hc : Counters e)
    (h : e.step i = .ok (e', as)) : Counters e' := by
  rcases step_cases h with ⟨f, -, -, -, hm⟩ | ⟨-, rc, ⟨rfl, -⟩ | ⟨ev, -, hm⟩⟩
  · -- a recorded reply changes neither counter
    exact hm.counters (hc.congr rfl rfl rfl)
  · exact hc.congr rfl rfl rfl
  · exact hm.counters (hc.congr rfl rfl rfl)

theorem counters_init : Counters init := ⟨rfl, by decide, by decide⟩

/-- What a run has asked for, and where it has come to. -/
structure InOrder (e : Enum) (as : List EnumAction) : Prop where
  assigned_eq : assigned as = List.range' 2 (assigned as).length
  assigned_le : ∀ a ∈ assigned as, a ≤ 127
  asked_eq : asked as = List.range' 2 (asked as).length
  asked_le : ∀ a ∈ asked as, a ≤ e.currentNextAddress - 1
  next_le : e.currentNextAddress ≤ 128
  addrInfo_le : e.currentAddrInfoAddr ≤ e.currentNextAddress

/-- Those who had their turn, had it in order. -/
theorem Counters.inOrder {e : Enum} {as : List EnumAction} (hc : Counters e)
    (hassigned : assigned as = assignedBy e) (hasked : asked as = askedBy e) : InOrder e as := by
  have h128 : deviceHighAddress = 128 := rfl
  have hrange : ∀ {l : List Nat} {n m : Nat}, l = List.range' 2 n → n + 1 ≤ m →
      l = List.range' 2 l.length ∧ ∀ a ∈ l, a ≤ m := by
    intro l n m hx hnm
    obtain rfl := hx
    refine ⟨by rw [List.length_range'], ?_⟩
    intro a ha
    have := List.mem_range'_1.mp ha
    omega
  obtain ⟨h2, hle, hnext⟩ := hc.bounds
  have hassigned' : ∃ n, n + 1 ≤ 127 ∧ assigned as = List.range' 2 n := by
    rw [hassigned, assignedBy]
    unfold Counters at hc
    cases hs : e.state <;> simp only [hs] at hc ⊢ <;> exact ⟨_, by omega, rfl⟩
  have hasked' : ∃ n, n + 1 ≤ e.currentNextAddress - 1 ∧ asked as = List.range' 2 n := by
    rw [hasked, askedBy]
    unfold Counters at hc
    cases hs : e.state <;> simp only [hs] at hc ⊢
    case fetchingClasses => exact ⟨_, by omega, rfl⟩
    case enumerated => exact ⟨_, by omega, rfl⟩
    all_goals exact ⟨0, by omega, rfl⟩
  obtain ⟨n, hn, hn'⟩ := hassigned'
  obtain ⟨m, hm, hm'⟩ := hasked'
  exact ⟨(hrange hn' hn).1, (hrange hn' hn).2, (hrange hm' hm).1, (hrange hm' hm).2, hnext, hle⟩

end Enum

/-- The entry of the device table that an action sets. -/
def EnumAction.installs : EnumAction → Option Nat
  | .deviceAdd i _ => some i
  | _ => none

namespace Enum

open EnumBus

/-- The indices into `device_classes`, `addr_info_replies` and
`device_types` that an input makes the enumeration use: the source of the
reply that it records, and the entries that it reads and installs. -/
def indices (e : Enum) (i : EnumInput) : List Nat :=
  (e.reply i).map PackedFrame.source ++ match e.step i with
    | .ok (_, as) => as.filterMap EnumAction.installs
    | .error _ => []

theorem source_lt (f : PackedFrame) : f.source < deviceHighAddress := by
  rw [PackedFrame.source, BitVec.toNat_and]
  exact Nat.lt_of_le_of_lt Nat.and_le_right (by decide)

/-- What a move installs lies below the next address. -/
theorem Move.installs {e e' : Enum} {ev : EnumEvent} {as : List EnumAction} (h : Move e ev e' as)
    (hc : Counters e) : ∀ i ∈ as.filterMap EnumAction.installs, i < deviceHighAddress := by
  intro i hi
  obtain ⟨a, ha, hai⟩ := List.mem_filterMap.mp hi
  cases h with
  | classesFetched hs heq =>
      obtain ⟨j, hj, rfl⟩ := List.mem_map.mp ha
      cases hai
      have hnext := hc.bounds.2.2
      have := List.mem_range'_1.mp hj
      omega
  | _ =>
      -- no other move has an entry for the table
      cases a with
      | deviceAdd j t => simp at ha
      | push | addTimer => cases hai

theorem indices_lt {e : Enum} (hc : Counters e) (i : EnumInput) :
    ∀ j ∈ e.indices i, j < deviceHighAddress := by
  intro j hj
  rcases List.mem_append.mp hj with hj | hj
  · obtain ⟨f, -, rfl⟩ := List.mem_map.mp hj
    exact source_lt f
  · split at hj
    · rename_i e' as hs
      rcases step_cases hs with ⟨f, -, -, -, hm⟩ | ⟨-, rc, ⟨-, has⟩ | ⟨ev, -, hm⟩⟩
      · exact hm.installs (hc.congr rfl rfl rfl) j hj
      · rcases has with rfl | rfl <;> cases hj
      · exact hm.installs (hc.congr rfl rfl rfl) j hj
    · cases hj

/-- The counters and the two lists at the end of a run. -/
theorem run_ordered {e : Enum} {es : List EnumInput} {as : List EnumAction} {e₀ : Enum}
    (hc : Counters e₀) (hr : run step e₀ es = .ok (e, as)) :
    Counters e ∧ assignedBy e₀ ++ assigned as = assignedBy e
      ∧ askedBy e₀ ++ asked as = askedBy e := by
  induction es generalizing e₀ as with
  | nil =>
      cases hr
      exact ⟨hc, List.append_nil _, List.append_nil _⟩
  | cons i es ih =>
      obtain ⟨e₁, o, os, hs, hr', rfl⟩ := run_cons_ok.mp hr
      obtain ⟨hassigned, hasked⟩ := step_ordered hs hc.inTables
      obtain ⟨hc₂, hassigned', hasked'⟩ := ih (hc.step hs) hr'
      refine ⟨hc₂, ?_, ?_⟩
      · rw [assigned_append, ← List.append_assoc, hassigned, hassigned']
      · rw [asked_append, ← List.append_assoc, hasked, hasked']

/-- **Enumeration stays in range under any input**: whatever the timers
and the frames do, the addresses are assigned, and then asked, from 2 on
in order, the counters stay below 128 and in their order, and every index
into the three tables is one of theirs. -/
theorem enumeration_in_range (es : List EnumInput) :
    (∀ e as, run step init es = .ok (e, as) → InOrder e as)
      ∧ ∀ j ∈ history step indices init es, j < deviceHighAddress := by
  constructor
  · intro e as hr
    obtain ⟨hc, hassigned, hasked⟩ := run_ordered counters_init hr
    exact hc.inOrder hassigned hasked
  · have hhist : ∀ {e : Enum}, Counters e → ∀ j ∈ history step indices e es,
        j < deviceHighAddress := by
      induction es with
      | nil => exact fun _ j hj => absurd hj List.not_mem_nil
      | cons i es ih =>
          intro e hc j hj
          rcases List.mem_append.mp hj with hj | hj
          · exact indices_lt hc i j hj
          · split at hj
            · rename_i e' as hs
              exact ih (hc.step hs) j hj
            · cases hj
    exact hhist counters_init

/-- A bus with one device, to the end. -/
theorem enumeration_in_range_one_device :
    ∃ e as, run step init (oneDevice ++ [ackFrom 3 [7]]) = .ok (e, as) ∧ assigned as = [2, 3]
      ∧ asked as = [2, 3] ∧ InOrder e as :=
  ⟨_, _, rfl, by decide, by decide, (enumeration_in_range (oneDevice ++ [ackFrom 3 [7]])).1 _ _ rfl⟩

end Enum

/-! ## On a bus -/

namespace EnumBus

/-- The enumeration of a bus takes an input, or none. -/
theorem step_enum {s s' : EnumBus} {ev : EnumBusEvent} {as : List EnumAction}
    (h : s.step ev = .ok (s', as)) :
    (s'.enum = s.enum ∧ as = []) ∨ ∃ i, s.enum.step i = .ok (s'.enum, as) := by
  have hstep : ∀ {t : EnumBus} {q : Option (Enum × List EnumAction)},
      t.enumStep q = .ok (s', as) → q = some (s'.enum, as) := by
    intro t q hq
    obtain ⟨e, rfl, rfl⟩ := enumStep_ok hq
    rw [acts_enum]
  rw [step] at h
  split at h
  · cases ev with
    | start => exact .inr ⟨.start, congrArg Enum.ofOption (hstep h)⟩
    | answer p =>
        rw [handle] at h
        split at h
        · cases h
        · refine .inr ⟨.rx p, ?_⟩
          rw [Enum.step, Enum.rx, hstep h]
          rfl
    | sent =>
        cases h
        exact .inl ⟨rfl, rfl⟩
    | other f =>
        cases h
        exact .inl ⟨rfl, rfl⟩
    | timeout t =>
        cases t with
        | killToken => exact .inr ⟨.killTokenTimeout, congrArg Enum.ofOption (hstep h)⟩
        | sendReset =>
            rw [handle] at h
            split at h
            · cases h
            · rename_i e as' again hs
              refine .inr ⟨.sendResetTimeout, ?_⟩
              obtain ⟨rfl, rfl⟩ := Prod.mk.inj (Option.some.inj (hstep h))
              rw [Enum.step, hs]
              rfl
  · cases h

theorem Phase.inTables {s : EnumBus} (h : s.Phase) : s.enum.InTables := by
  have h128 : deviceHighAddress = 128 := rfl
  unfold Phase Waits at h
  unfold Enum.InTables
  cases hs : s.enum.state <;> simp only [hs] at h ⊢
  case enumerating =>
    obtain ⟨-, -, -, h2, hle⟩ := h
    exact ⟨h2, hle⟩
  case fetchingClasses =>
    obtain ⟨-, -, -, hbounds⟩ := h
    exact hbounds
  all_goals omega

/-- On a bus, too, every address has its turn. -/
theorem Phase.ordered {s s' : EnumBus} {ev : EnumBusEvent} {as : List EnumAction} (h : s.Phase)
    (hs : s.step ev = .ok (s', as)) :
    assignedBy s.enum ++ assigned as = assignedBy s'.enum
      ∧ askedBy s.enum ++ asked as = askedBy s'.enum := by
  rcases step_enum hs with ⟨he, rfl⟩ | ⟨i, hi⟩
  · rw [he]
    exact ⟨List.append_nil _, List.append_nil _⟩
  · exact Enum.step_ordered hi h.inTables

end EnumBus

end Sricd
