import Mathlib.Data.List.Perm.Subperm
import Sricd.Lib.Run
import Sricd.Rx
import Sricd.SricEnum

/-!
# Runs of the enumeration

The state machine under arbitrary frames and timers. `Move` says once
what a call of it can do. It leaves `S_FETCHING_CLASSES` after as many
replies as there are addresses, whoever sent them; every class is known
then exactly when no address has replied twice and none has replied that
was never assigned (`every_class_known_iff`).
-/

namespace Sricd

open Sricd.Lib

/-- What reaches the enumeration from outside. -/
inductive EnumInput where
  | start
  | rx (f : PackedFrame)
  | killTokenTimeout
  | sendResetTimeout
deriving DecidableEq

namespace Enum

def ofOption : Option (Enum × List EnumAction) → Except Halt (Enum × List EnumAction)
  | none => .error .exit
  | some p => .ok p

/-- One call into the enumeration. -/
def step (e : Enum) : EnumInput → Except Halt (Enum × List EnumAction)
  | .start => ofOption e.start
  | .rx f => ofOption ((e.rx f).map fun (e, as, _) => (e, as))
  | .killTokenTimeout => ofOption e.killTokenTimeout
  | .sendResetTimeout => ofOption (e.sendResetTimeout.map fun (e, as, _) => (e, as))

/-- **What the state machine can do.** -/
inductive Move (e : Enum) : EnumEvent → Enum → List EnumAction → Prop where
  | stay (ev : EnumEvent) : (e.state = .fetchingClasses → ev ≠ .addrInfoAck) → Move e ev e []
  | start : e.state = .idle → Move e .startEnum { e with state := .killingToken }
      [.push (sendTokAdvance 0), .push (sendTokAdvance 0), .push gwCmdReqToken,
        .addTimer .killToken]
  | tokenCaught : e.state = .killingToken → Move e .tokenCatchTimeout { e with state := .resetting }
      [.push (gwCmdUseToken false), .addTimer .sendReset]
  | busReset : e.state = .resetting → Move e .busReset { e with state := .enumerating }
      [.push gwCmdGenToken, .push gwCmdReqToken, .push gwCmdHaveToken]
  | devPresent : e.state = .enumerating → e.currentNextAddress < deviceHighAddress →
      Move e .devPresent { e with state := .settingAddr } [.push (sendAddress e.currentNextAddress)]
  | tokAtGw : e.state = .enumerating → e.currentNextAddress < deviceHighAddress →
      Move e .tokAtGw { e with state := .settingGwAddr } [.push (sendAddress e.currentNextAddress)]
  | gwAddrSet : e.state = .settingGwAddr → Move e .newDevAck
      { e with
        currentNextAddress := (e.currentNextAddress + 1) % 256
        state := .fetchingClasses
        addrInfoReplies := fun _ => false
        currentAddrInfoAddr := 3 }
      [.push (gwCmdUseToken true), .push gwCmdGenToken, .push (sendAddrInfoReq 2)]
  | addrSet : e.state = .settingAddr → Move e .newDevAck { e with state := .advancingToken }
      [.push (sendTokAdvance e.currentNextAddress)]
  | advanced : e.state = .advancingToken → Move e .newDevAck
      { e with currentNextAddress := (e.currentNextAddress + 1) % 256, state := .enumerating }
      [.push gwCmdHaveToken]
  | classesFetched : e.state = .fetchingClasses → e.currentAddrInfoAddr = e.currentNextAddress →
      Move e .addrInfoAck { e with state := .enumerated }
        ((List.range' 2 (e.currentNextAddress - 2)).map fun i => .deviceAdd i (e.deviceClasses i))
  | fetchNext : e.state = .fetchingClasses → e.currentAddrInfoAddr ≠ e.currentNextAddress →
      Move e .addrInfoAck { e with currentAddrInfoAddr := (e.currentAddrInfoAddr + 1) % 256 }
        [.push (sendAddrInfoReq e.currentAddrInfoAddr)]

theorem fsm_move {e e' : Enum} {ev : EnumEvent} {as : List EnumAction}
    (h : e.fsm ev = some (e', as)) : Move e ev e' as := by
  rw [fsm] at h
  cases hs : e.state with
  | idle =>
      simp only [hs] at h
      split at h
      · rename_i hev
        subst hev
        cases h
        exact .start hs
      · cases h
        exact .stay ev (by simp [hs])
  | killingToken =>
      simp only [hs] at h
      split at h
      · rename_i hev
        subst hev
        cases h
        exact .tokenCaught hs
      · cases h
        exact .stay ev (by simp [hs])
  | resetting =>
      simp only [hs] at h
      split at h
      · rename_i hev
        subst hev
        cases h
        exact .busReset hs
      · cases h
        exact .stay ev (by simp [hs])
  | enumerating =>
      simp only [hs] at h
      split at h
      · rename_i hev
        split at h
        · cases h
        · rename_i hc
          rcases hev with rfl | rfl
          · cases h
            exact .tokAtGw hs (Nat.lt_of_not_le hc)
          · cases h
            exact .devPresent hs (Nat.lt_of_not_le hc)
      · cases h
        exact .stay ev (by simp [hs])
  | settingGwAddr =>
      simp only [hs] at h
      split at h
      · rename_i hev
        subst hev
        cases h
        exact .gwAddrSet hs
      · cases h
        exact .stay ev (by simp [hs])
  | settingAddr =>
      simp only [hs] at h
      split at h
      · rename_i hev
        subst hev
        cases h
        exact .addrSet hs
      · cases h
        exact .stay ev (by simp [hs])
  | advancingToken =>
      simp only [hs] at h
      split at h
      · rename_i hev
        subst hev
        cases h
        exact .advanced hs
      · cases h
        exact .stay ev (by simp [hs])
  | fetchingClasses =>
      simp only [hs] at h
      split at h
      · rename_i hev
        subst hev
        split at h
        · rename_i hc
          cases h
          exact .classesFetched hs hc
        · rename_i hc
          cases h
          have := Move.fetchNext hs hc
          rwa [hs] at this
      · rename_i hev
        cases h
        exact .stay ev fun _ => hev
  | enumerated =>
      simp only [hs] at h
      cases h
      exact .stay ev (by simp [hs])

/-! ## The replies that count -/

/-- The frame that this input brings, when `sric_enum_rx` records it as a
reply to ADDR_INFO. -/
def reply (e : Enum) : EnumInput → List PackedFrame
  | .rx f =>
      if e.state = .fetchingClasses ∧ f.isAck = true ∧ f.payload.length = 1
          ∧ f.source ≠ e.currentNextAddress then [f] else []
  | _ => []

/-- The state with the reply recorded. -/
def record (e : Enum) (f : PackedFrame) : Enum :=
  { e with
    addrInfoReplies := Function.update e.addrInfoReplies f.source true
    deviceClasses := Function.update e.deviceClasses f.source (f.payload.headD 0) }

theorem ofOption_ok {p : Option (Enum × List EnumAction)} {q : Enum × List EnumAction}
    (h : ofOption p = .ok q) : p = some q := by
  cases p with
  | none => cases h
  | some r => cases h; rfl

theorem dispatch_cases {e e' : Enum} {f : PackedFrame} {as : List EnumAction}
    (h : e.dispatch f = some (e', as)) :
    (e.reply (.rx f) = [f] ∧ f.payload.length = 1 ∧ e.state = .fetchingClasses
        ∧ Move (e.record f) .addrInfoAck e' as)
      ∨ (e.reply (.rx f) = []
        ∧ ((e' = e ∧ as = []) ∨ ∃ ev, ev ≠ .addrInfoAck ∧ Move e ev e' as)) := by
  rw [dispatch] at h
  split at h
  · rename_i hc
    refine .inr ⟨by simp [reply, hc.1], .inr ?_⟩
    split at h
    · exact ⟨_, by simp, fsm_move h⟩
    · exact ⟨_, by simp, fsm_move h⟩
  · split at h
    · split at h
      · rename_i hc
        exact .inr ⟨by simp [reply, hc.1], .inr ⟨_, by simp, fsm_move h⟩⟩
      · rename_i hc
        split at h
        · rename_i hf
          have hsrc : f.source ≠ e.currentNextAddress := fun hsrc => hc ⟨hsrc, hf.1⟩
          exact .inl ⟨by simp [reply, hf, hsrc], hf.2.2, hf.2.1, fsm_move h⟩
        · rename_i hf
          cases h
          refine .inr ⟨if_neg fun hr => hf ⟨hr.2.1, hr.1, hr.2.2.1⟩, .inl ⟨rfl, rfl⟩⟩
    · rename_i hi
      cases h
      have hi : e.state = .idle := Decidable.not_not.mp hi
      exact .inr ⟨by simp [reply, hi], .inl ⟨rfl, rfl⟩⟩

/-- One input either brings a reply or does not concern the fetching of
classes. -/
theorem step_cases {e e' : Enum} {i : EnumInput} {as : List EnumAction}
    (h : e.step i = .ok (e', as)) :
    (∃ f, e.reply i = [f] ∧ f.payload.length = 1 ∧ e.state = .fetchingClasses
        ∧ Move (e.record f) .addrInfoAck e' as)
      ∨ (e.reply i = [] ∧ ∃ rc,
          (e' = { e with resetCount := rc } ∧ (as = [] ∨ as = [.push sendReset]))
            ∨ ∃ ev, ev ≠ .addrInfoAck ∧ Move { e with resetCount := rc } ev e' as) := by
  cases i with
  | start => exact .inr ⟨rfl, e.resetCount, .inr ⟨_, by simp, fsm_move (ofOption_ok h)⟩⟩
  | killTokenTimeout => exact .inr ⟨rfl, e.resetCount, .inr ⟨_, by simp, fsm_move (ofOption_ok h)⟩⟩
  | sendResetTimeout =>
      refine .inr ⟨rfl, (e.resetCount + 1) % 256, ?_⟩
      obtain ⟨⟨e₁, as₁, b⟩, hr, he⟩ := Option.map_eq_some_iff.mp (ofOption_ok h)
      cases he
      rw [sendResetTimeout] at hr
      split at hr
      · obtain ⟨⟨e₂, as₂⟩, hf, he⟩ := Option.map_eq_some_iff.mp hr
        cases he
        exact .inr ⟨_, by simp, fsm_move hf⟩
      · cases hr
        exact .inl ⟨rfl, .inr rfl⟩
  | rx f =>
      obtain ⟨⟨e₁, as₁, b⟩, hr, he⟩ := Option.map_eq_some_iff.mp (ofOption_ok h)
      cases he
      obtain ⟨⟨e₂, as₂⟩, hd, he⟩ := Option.map_eq_some_iff.mp hr
      cases he
      rcases dispatch_cases hd with ⟨hf, hm⟩ | ⟨hf, ⟨rfl, rfl⟩ | hm⟩
      · exact .inl ⟨f, hf, hm⟩
      · exact .inr ⟨hf, _, .inl ⟨rfl, .inl rfl⟩⟩
      · exact .inr ⟨hf, e.resetCount, .inr hm⟩

/-! ## Tags -/

/-- The frames that the enumeration asks for are no client's. -/
def Tagged (as : List EnumAction) : Prop :=
  ∀ f, .push f ∈ as → f.tag = .null ∨ f.tag = .badEnum

theorem Move.tagged {e e' : Enum} {ev : EnumEvent} {as : List EnumAction}
    (h : Move e ev e' as) : Tagged as := by
  cases h with
  | classesFetched =>
      intro f hf
      obtain ⟨i, -, hi⟩ := List.mem_map.mp hf
      cases hi
  | _ => simp [Tagged, sendTokAdvance, gwCmdReqToken, gwCmdUseToken, gwCmdGenToken,
      gwCmdHaveToken, gwCmd, sendAddress, sendAddrInfoReq]

theorem fsm_tagged {e e' : Enum} {ev : EnumEvent} {as : List EnumAction}
    (h : e.fsm ev = some (e', as)) : Tagged as := (fsm_move h).tagged

theorem dispatch_tagged {e e' : Enum} {p : PackedFrame} {as : List EnumAction}
    (h : e.dispatch p = some (e', as)) : Tagged as := by
  rcases dispatch_cases h with ⟨-, -, -, hm⟩ | ⟨-, ⟨-, rfl⟩ | ⟨ev, -, hm⟩⟩
  · exact hm.tagged
  · exact fun f hf => absurd hf List.not_mem_nil
  · exact hm.tagged

theorem sendReset_tagged {e e' : Enum} {as : List EnumAction} {again : Bool}
    (h : e.sendResetTimeout = some (e', as, again)) : Tagged as := by
  rw [sendResetTimeout] at h
  split at h
  · obtain ⟨⟨e₁, as₁⟩, hf, he⟩ := Option.map_eq_some_iff.mp h
    cases he
    exact fsm_tagged hf
  · cases h
    simp [Tagged, sendReset]

/-! ## Runs -/

/-- What is known in `S_FETCHING_CLASSES`: there is one reply for each
request but the newest, and what was recorded came from a reply. -/
structure Fetching (e : Enum) (replies : List PackedFrame) : Prop where
  asked : e.currentAddrInfoAddr = replies.length + 3
  asked_le : e.currentAddrInfoAddr ≤ e.currentNextAddress
  next_le : e.currentNextAddress ≤ deviceHighAddress
  replied : ∀ i, e.addrInfoReplies i = true ↔ i ∈ replies.map PackedFrame.source
  recorded : ∀ i ∈ replies.map PackedFrame.source,
    ∃ f ∈ replies, f.source = i ∧ f.payload = [e.deviceClasses i]

/-- The invariant of a run: the addresses stay in the tables, and what the
state says of the replies so far. -/
def RunInv (e : Enum) (replies : List PackedFrame) : Prop :=
  match e.state with
  | .settingAddr | .settingGwAddr | .advancingToken =>
      replies = [] ∧ 2 ≤ e.currentNextAddress ∧ e.currentNextAddress < deviceHighAddress
  | .fetchingClasses => Fetching e replies
  | .enumerated => True
  | _ => replies = [] ∧ 2 ≤ e.currentNextAddress ∧ e.currentNextAddress ≤ deviceHighAddress

theorem runInv_resetCount {e : Enum} {replies : List PackedFrame} (rc : Nat)
    (h : RunInv e replies) : RunInv { e with resetCount := rc } replies := by
  unfold RunInv at h ⊢
  cases hs : e.state <;> simp only [hs] at h ⊢ <;> try exact h
  exact ⟨h.asked, h.asked_le, h.next_le, h.replied, h.recorded⟩

/-- A move that is not about ADDR_INFO keeps the invariant. -/
theorem Move.runInv {e e' : Enum} {ev : EnumEvent} {as : List EnumAction}
    {replies : List PackedFrame} (h : Move e ev e' as) (hev : ev ≠ .addrInfoAck)
    (hi : RunInv e replies) : RunInv e' replies := by
  cases h with
  | stay => exact hi
  | start hs | tokenCaught hs | busReset hs => simpa only [RunInv, hs] using hi
  | devPresent hs hc | tokAtGw hs hc =>
      simp only [RunInv, hs] at hi
      exact ⟨hi.1, hi.2.1, hc⟩
  | addrSet hs => simpa only [RunInv, hs] using hi
  | advanced hs =>
      simp only [RunInv, hs] at hi
      obtain ⟨hr, h2, hlt⟩ := hi
      have h128 : deviceHighAddress = 128 := rfl
      have hmod : (e.currentNextAddress + 1) % 256 = e.currentNextAddress + 1 := by omega
      refine ⟨hr, ?_⟩
      simp only [hmod]
      omega
  | gwAddrSet hs =>
      simp only [RunInv, hs] at hi
      obtain ⟨rfl, h2, hlt⟩ := hi
      have h128 : deviceHighAddress = 128 := rfl
      have hmod : (e.currentNextAddress + 1) % 256 = e.currentNextAddress + 1 := by omega
      refine ⟨rfl, ?_, ?_, fun i => by simp, by simp⟩
      · simp only [hmod]
        omega
      · simp only [hmod]
        omega
  | classesFetched | fetchNext => exact absurd rfl hev

/-- A reply is recorded. -/
theorem Fetching.record {e : Enum} {replies : List PackedFrame} {f : PackedFrame}
    (h : Fetching e replies) (hf : f.payload.length = 1) :
    (∀ i, (e.record f).addrInfoReplies i = true
      ↔ i ∈ (replies ++ [f]).map PackedFrame.source)
    ∧ ∀ i ∈ (replies ++ [f]).map PackedFrame.source,
      ∃ g ∈ replies ++ [f], g.source = i ∧ g.payload = [(e.record f).deviceClasses i] := by
  obtain ⟨b, hb⟩ := List.length_eq_one_iff.mp hf
  have hne : ∀ i, i ∈ (replies ++ [f]).map PackedFrame.source ↔
      i ∈ replies.map PackedFrame.source ∨ i = f.source := by
    intro i
    simp
  constructor
  · intro i
    rw [hne, ← h.replied i]
    by_cases his : i = f.source
    · simp [Enum.record, his]
    · simp [Enum.record, his]
  · intro i hi
    by_cases his : i = f.source
    · exact ⟨f, by simp, his.symm, by simp [Enum.record, his, hb]⟩
    · obtain ⟨g, hg, hgi, hgp⟩ := h.recorded i (((hne i).mp hi).resolve_right his)
      exact ⟨g, by simp [hg], hgi, by simpa [Enum.record, his] using hgp⟩

theorem Fetching.next {e : Enum} {replies : List PackedFrame} {f : PackedFrame}
    (h : Fetching e replies) (hf : f.payload.length = 1)
    (hc : e.currentAddrInfoAddr ≠ e.currentNextAddress) :
    Fetching { e.record f with currentAddrInfoAddr := (e.currentAddrInfoAddr + 1) % 256 }
      (replies ++ [f]) := by
  obtain ⟨h₁, h₂⟩ := h.record hf
  have h128 : deviceHighAddress = 128 := rfl
  have hle := h.asked_le
  have hnext := h.next_le
  have hmod : (e.currentAddrInfoAddr + 1) % 256 = e.currentAddrInfoAddr + 1 := by omega
  refine ⟨?_, ?_, h.next_le, h₁, h₂⟩
  · simp only [hmod, List.length_append, List.length_singleton]
    rw [h.asked]
  · show (e.currentAddrInfoAddr + 1) % 256 ≤ e.currentNextAddress
    omega

/-- **Every input keeps the invariant.** -/
theorem runInv_step (e : Enum) (replies : List PackedFrame) (i : EnumInput) (e' : Enum)
    (as : List EnumAction) (hi : RunInv e replies) (h : e.step i = .ok (e', as)) :
    RunInv e' (replies ++ e.reply i) := by
  rcases step_cases h with ⟨f, hr, hf, hs, hm⟩ | ⟨hr, rc, hq⟩
  · rw [hr]
    simp only [RunInv, hs] at hi
    cases hm with
    | stay ev hev => exact absurd rfl (hev hs)
    | classesFetched => trivial
    | fetchNext hs' hc =>
        have hn : Fetching _ _ := hi.next hf hc
        have hst : e.state = .fetchingClasses := hs
        simpa only [RunInv, record, hst] using hn
  · rw [hr, List.append_nil]
    rcases hq with ⟨rfl, -⟩ | ⟨ev, hev, hm⟩
    · exact runInv_resetCount rc hi
    · exact hm.runInv hev (runInv_resetCount rc hi)

/-! ## Entering `S_ENUMERATED` -/

/-- Every address below the next has replied, and the type installed for
it is the byte of one of its replies. -/
def ClassesKnown (e : Enum) (replies : List PackedFrame) (as : List EnumAction) : Prop :=
  ∀ i, 2 ≤ i → i < e.currentNextAddress →
    e.addrInfoReplies i = true
      ∧ ∃ f ∈ replies, f.source = i ∧ ∀ t, .deviceAdd i t ∈ as ↔ f.payload = [t]

/-- No address replied twice, and only assigned ones replied. -/
def OneReplyEach (e : Enum) (replies : List PackedFrame) : Prop :=
  (replies.map PackedFrame.source).Nodup
    ∧ ∀ f ∈ replies, 2 ≤ f.source ∧ f.source < e.currentNextAddress

/-- As many numbers as the interval is long cover it just when none occurs
twice and none lies outside. -/
theorem covers_iff {l : List Nat} {a n : Nat} (hl : l.length = n) :
    (∀ i, a ≤ i → i < a + n → i ∈ l) ↔ l.Nodup ∧ ∀ i ∈ l, a ≤ i ∧ i < a + n := by
  have hmem : ∀ i, i ∈ List.range' a n ↔ a ≤ i ∧ i < a + n := fun i => List.mem_range'_1
  have hlen : (List.range' a n).length = l.length := by rw [List.length_range', hl]
  constructor
  · intro h
    have hsub : List.range' a n ⊆ l := fun i hi => h i ((hmem i).mp hi).1 ((hmem i).mp hi).2
    have hperm := (List.subperm_of_subset (List.nodup_range' ..) hsub).perm_of_length_le
      (Nat.le_of_eq hlen.symm)
    exact ⟨hperm.nodup_iff.mp (List.nodup_range' ..), fun i hi => (hmem i).mp (hperm.mem_iff.mpr hi)⟩
  · intro hx i ha hi
    obtain ⟨hn, hin⟩ := hx
    have hsub : l ⊆ List.range' a n := fun j hj => (hmem j).mpr (hin j hj)
    have hperm := (List.subperm_of_subset hn hsub).perm_of_length_le (Nat.le_of_eq hlen)
    exact hperm.mem_iff.mpr ((hmem i).mpr ⟨ha, hi⟩)

/-- The last reply of `S_FETCHING_CLASSES`. -/
theorem enumerated_cases {e e' : Enum} {i : EnumInput} {as : List EnumAction}
    (h : e.step i = .ok (e', as)) (hne : e.state ≠ .enumerated) (hen : e'.state = .enumerated) :
    ∃ f, e.reply i = [f] ∧ f.payload.length = 1 ∧ e.state = .fetchingClasses
      ∧ e.currentAddrInfoAddr = e.currentNextAddress
      ∧ e'.currentNextAddress = e.currentNextAddress
      ∧ e'.addrInfoReplies = (e.record f).addrInfoReplies
      ∧ e'.deviceClasses = (e.record f).deviceClasses
      ∧ as = (List.range' 2 (e'.currentNextAddress - 2)).map fun i =>
          .deviceAdd i (e'.deviceClasses i) := by
  rcases step_cases h with ⟨f, hr, hf, hs, hm⟩ | ⟨-, rc, ⟨rfl, -⟩ | ⟨ev, hev, hm⟩⟩
  · refine ⟨f, hr, hf, hs, ?_⟩
    cases hm with
    | stay ev hev => exact absurd rfl (hev hs)
    | classesFetched hs' hc => exact ⟨hc, rfl, rfl, rfl, rfl⟩
    | fetchNext hs' => exact absurd (hs.symm.trans hen) (by simp)
  · exact absurd hen hne
  · cases hm with
    | stay => exact absurd hen hne
    | classesFetched | fetchNext => exact absurd rfl hev
    | _ => cases hen

/-- Every class is known when every address is among those that replied. -/
theorem classesKnown_iff {e : Enum} {replies : List PackedFrame}
    (hreplied : ∀ i, e.addrInfoReplies i = true ↔ i ∈ replies.map PackedFrame.source)
    (hrecorded : ∀ i ∈ replies.map PackedFrame.source,
      ∃ f ∈ replies, f.source = i ∧ f.payload = [e.deviceClasses i]) :
    ClassesKnown e replies ((List.range' 2 (e.currentNextAddress - 2)).map fun i =>
        .deviceAdd i (e.deviceClasses i))
      ↔ ∀ i, 2 ≤ i → i < e.currentNextAddress → i ∈ replies.map PackedFrame.source := by
  refine forall_congr' fun j => forall_congr' fun h2 => forall_congr' ?_
  intro hj
  refine ⟨fun hk => (hreplied j).mp hk.1, fun hj' => ⟨(hreplied j).mpr hj', ?_⟩⟩
  obtain ⟨g, hg, hgj, hgp⟩ := hrecorded j hj'
  refine ⟨g, hg, hgj, ?_⟩
  intro t
  rw [hgp]
  simp only [List.mem_map, List.mem_range'_1, EnumAction.deviceAdd.injEq, List.cons.injEq,
    and_true]
  constructor
  · intro hx
    obtain ⟨k, -, rfl, ht⟩ := hx
    exact ht
  · intro ht
    exact ⟨j, ⟨h2, by omega⟩, rfl, ht⟩

/-- **Which runs know every class**: when enumeration is done, every
address has told its class exactly when no address replied twice and no
other source replied, while classes were fetched. -/
theorem every_class_known_iff {es : List EnumInput} {e e' : Enum} {i : EnumInput}
    {os as : List EnumAction} (hr : run step init es = .ok (e, os))
    (h : e.step i = .ok (e', as)) (hne : e.state ≠ .enumerated) (hen : e'.state = .enumerated) :
    ClassesKnown e' (history step reply init (es ++ [i])) as
      ↔ OneReplyEach e (history step reply init (es ++ [i])) := by
  obtain ⟨f, hf, hf1, hs, hc, hcur, hrep, hcls, rfl⟩ := enumerated_cases h hne hen
  have h0 : RunInv init [] := ⟨rfl, by decide, by decide⟩
  have hinv : RunInv e (history step reply init es) := by
    simpa using run_history_invariant runInv_step h0 hr
  simp only [RunInv, hs] at hinv
  have hhist : history step reply init (es ++ [i]) = history step reply init es ++ [f] := by
    rw [history_append hr, history, h, hf]
    rfl
  rw [hhist]
  obtain ⟨hreplied, hrecorded⟩ := hinv.record hf1
  have hasked := hinv.asked
  have hlen : ((history step reply init es ++ [f]).map PackedFrame.source).length
      = e.currentNextAddress - 2 := by
    simp only [List.length_map, List.length_append, List.length_singleton]
    omega
  have hcov := covers_iff (a := 2) hlen
  rw [show 2 + (e.currentNextAddress - 2) = e.currentNextAddress by omega] at hcov
  rw [classesKnown_iff (by rwa [hrep]) (by rwa [hcls]), hcur, hcov]
  rw [OneReplyEach, List.forall_mem_map]

/-- An ack for the gateway. -/
def ackFrom (source : Byte) (payload : List Byte) : EnumInput :=
  .rx ⟨0x81, source, payload⟩

/-- A bus with one device, up to the first reply to ADDR_INFO. -/
def oneDevice : List EnumInput :=
  [.start, .killTokenTimeout] ++ List.replicate 6 .sendResetTimeout
    ++ [ackFrom 1 [0], ackFrom 2 [], ackFrom 2 [], ackFrom 1 [1], ackFrom 3 [], ackFrom 2 [5]]

theorem every_class_known_one_device :
    ∃ e os e' as, run step init oneDevice = .ok (e, os) ∧ e.step (ackFrom 3 [7]) = .ok (e', as)
      ∧ ClassesKnown e' (history step reply init (oneDevice ++ [ackFrom 3 [7]])) as := by
  refine ⟨_, _, _, _, rfl, rfl, (every_class_known_iff rfl rfl (by decide) rfl).mpr ?_⟩
  exact ⟨by decide, by decide⟩

/-- The reply of device 2 comes twice, and nobody waits for device 3. -/
theorem enumerated_with_class_unknown :
    ∃ e os e' as, run step init oneDevice = .ok (e, os) ∧ e.step (ackFrom 2 [5]) = .ok (e', as)
      ∧ e.state ≠ .enumerated ∧ e'.state = .enumerated
      ∧ ¬ ClassesKnown e' (history step reply init (oneDevice ++ [ackFrom 2 [5]])) as := by
  refine ⟨_, _, _, _, rfl, rfl, by decide, rfl, ?_⟩
  intro h
  exact absurd (h 3 (by decide) (by decide)).1 (by decide)

end Enum

end Sricd
