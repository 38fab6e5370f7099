import Sricd.Addresses

/-!
# Enumeration of a well-behaved bus

A bus with `k` devices of classes `c`, on which every frame is answered,
once. Each step is one of a known number, and takes the enumeration
further in the way `Course` describes; so it ends, with every device
known (`enumeration_correct`).
-/

namespace Sricd

open Sricd.Lib

namespace EnumBus

/-- What happens on the bus: the gateway has not got the token while there
are devices that lack an address, and each device tells its class. -/
def Good (k : Nat) (c : Nat → Byte) (s : EnumBus) (ev : EnumBusEvent) : Prop :=
  s.Enabled ev ∧ match ev with
    | .start => s.enum.state = .idle
    | .answer p => ∀ f ∈ s.queue.head?,
        (f = gwCmdHaveToken → (p.payload = [0] ↔ s.queries < k))
          ∧ ∀ a ∈ f.asks, p.payload = [c a]
    | .other _ => False
    | .sent | .timeout _ => True

instance (k : Nat) (c : Nat → Byte) (s : EnumBus) : DecidablePred (Good k c s)
  | .start => inferInstanceAs (Decidable (_ ∧ _ = _))
  | .answer _ => inferInstanceAs (Decidable (_ ∧ ∀ f ∈ s.queue.head?, (_ → (_ ↔ _)) ∧ ∀ a ∈ f.asks, _))
  | .sent => inferInstanceAs (Decidable (_ ∧ True))
  | .other _ => inferInstanceAs (Decidable (_ ∧ False))
  | .timeout _ => inferInstanceAs (Decidable (_ ∧ True))

/-! ## The course of the enumeration -/

/-- The counters, in each state. -/
def Counts (k : Nat) (e : Enum) (queries : Nat) : Prop :=
  match e.state with
  | .idle | .killingToken => e.resetCount = 0 ∧ queries = 0
  | .resetting => e.resetCount ≤ 5 ∧ queries = 0
  | .enumerating => e.currentNextAddress = queries + 2 ∧ queries ≤ k
  | .settingAddr | .advancingToken => e.currentNextAddress = queries + 1 ∧ queries ≤ k
  | .settingGwAddr => e.currentNextAddress = k + 2
  | .fetchingClasses | .enumerated => e.currentNextAddress = k + 3

/-- The pending timeouts, in each state. -/
def timersIn : EnumState → EnumTimer → Nat
  | .killingToken, .killToken => 1
  | .resetting, .sendReset => 1
  | _, _ => 0

/-- The enumeration of `k` devices is on its course; `d` was the device
table at the start. -/
structure Course (k : Nat) (c : Nat → Byte) (d : Devices) (s : EnumBus) : Prop where
  phase : s.Phase
  counts : Counts k s.enum s.queries
  timers : ∀ t, s.timers t = timersIn s.enum.state t
  classes : s.enum.state = .fetchingClasses → ∀ i, 2 ≤ i → i + 1 < s.enum.currentAddrInfoAddr →
    s.enum.deviceClasses i = c i
  types : ∀ i, s.devices.deviceType i
    = if s.enum.state = .enumerated ∧ 2 ≤ i ∧ i ≤ k + 2 then c i else d.deviceType i

/-- The events that are still to come because of the state alone. -/
def remaining (k : Nat) (e : Enum) : Nat :=
  match e.state with
  | .idle => 4 * k + 24
  | .killingToken => 4 * k + 20
  | .resetting => (6 - e.resetCount) + (5 - e.resetCount) + 4 * k + 7
  | .enumerating => 3 * (k + 2 - e.currentNextAddress) + k + 4
  | .settingAddr => 3 * (k + 1 - e.currentNextAddress) + k + 6
  | .advancingToken => 3 * (k + 1 - e.currentNextAddress) + k + 5
  | .settingGwAddr => k + 3
  | .fetchingClasses => e.currentNextAddress - e.currentAddrInfoAddr
  | .enumerated => 0

/-- The events that are still to come. -/
def todo (k : Nat) (s : EnumBus) : Nat := s.queue.length + remaining k s.enum

/-- What a good step does: it is one of those to come, and assigns and asks
the addresses in their order. -/
structure Advance (k : Nat) (s s' : EnumBus) (as : List EnumAction) : Prop where
  todo : todo k s = todo k s' + 1
  assigned : assignedBy s.enum ++ assigned as = assignedBy s'.enum
  asked : askedBy s.enum ++ asked as = askedBy s'.enum

theorem course_init (k : Nat) (c : Nat → Byte) (d : Devices) : Course k c d (init d) where
  phase := phase_init d
  counts := ⟨rfl, rfl⟩
  timers _ := rfl
  classes h := by cases h
  types i := by simp [init, Enum.init]

/-- The devices found are in the table. -/
theorem deviceType_acts (s : EnumBus) (g : Nat → Byte) (a n i : Nat) :
    (s.acts ((List.range' a n).map fun j => .deviceAdd j (g j))).devices.deviceType i
      = if a ≤ i ∧ i < a + n then g i else s.devices.deviceType i := by
  induction n generalizing s a with
  | zero =>
      rw [if_neg (by omega)]
      rfl
  | succ n ih =>
      rw [List.range'_succ, List.map_cons]
      show ((s.act _).acts _).devices.deviceType i = _
      rw [ih, act, Devices.deviceType_add]
      by_cases hi : i = a
      · subst hi
        simp
      · split <;> split <;> first | rfl | (exfalso; omega)

/-- The oldest frame goes, and that is all. -/
theorem Course.pop {k : Nat} {c : Nat → Byte} {d : Devices} {s : EnumBus} {f : FrameT}
    {rest : List FrameT} (h : Course k c d s) (hq : s.queue = f :: rest)
    (hphase : { s with queue := rest }.Phase) :
    Course k c d { s with queue := rest } ∧ todo k s = todo k { s with queue := rest } + 1 := by
  refine ⟨⟨hphase, h.counts, h.timers, h.classes, h.types⟩, ?_⟩
  simp only [todo, hq, List.length_cons]
  omega

/-- The types while enumeration goes on. -/
theorem Course.types_of_ne {k : Nat} {c : Nat → Byte} {d : Devices} {s : EnumBus}
    (h : Course k c d s) (hst : s.enum.state ≠ .enumerated) {st : EnumState} (hst' : st ≠ .enumerated)
    (i : Nat) : s.devices.deviceType i
      = if st = .enumerated ∧ 2 ≤ i ∧ i ≤ k + 2 then c i else d.deviceType i := by
  rw [h.types i, if_neg fun hi => hst hi.1, if_neg fun hi => hst' hi.1]

theorem acts_queries (s : EnumBus) (as : List EnumAction) : (s.acts as).queries = s.queries := by
  induction as generalizing s with
  | nil => rfl
  | cons a as ih =>
      show ((s.act a).acts as).queries = _
      rw [ih]
      cases a <;> rfl

theorem course_acts {k : Nat} {c : Nat → Byte} {d : Devices} {s : EnumBus} {as : List EnumAction}
    (hphase : (s.acts as).Phase) (hcounts : Counts k s.enum s.queries)
    (htimers : ∀ t, s.timers t + as.count (.addTimer t) = timersIn s.enum.state t)
    (hclasses : s.enum.state = .fetchingClasses → ∀ i, 2 ≤ i → i + 1 < s.enum.currentAddrInfoAddr →
      s.enum.deviceClasses i = c i)
    (htypes : ∀ i, (s.acts as).devices.deviceType i
      = if s.enum.state = .enumerated ∧ 2 ≤ i ∧ i ≤ k + 2 then c i else d.deviceType i) :
    Course k c d (s.acts as) := by
  refine ⟨hphase, ?_, ?_, ?_, ?_⟩
  · rwa [acts_enum, acts_queries]
  · intro t
    rw [acts_timers, acts_enum, htimers]
  · rwa [acts_enum]
  · rwa [acts_enum]

theorem todo_acts {k : Nat} {s t : EnumBus} {as : List EnumAction}
    (h : todo k s = t.queue.length + (frames as).length + remaining k t.enum + 1) :
    todo k s = todo k (t.acts as) + 1 := by
  rw [h, todo, acts_queue, acts_enum, List.length_append]

/-- The reply to ADDR_INFO is recorded. -/
theorem Course.recorded {k : Nat} {c : Nat → Byte} {d : Devices} {s : EnumBus} {p : PackedFrame}
    {rest : List FrameT} (h : Course k c d s) (hg : Good k c s (.answer p))
    (hq : s.queue = sendAddrInfoReq (s.enum.currentAddrInfoAddr - 1) :: rest)
    (hsrc : p.source = s.enum.currentAddrInfoAddr - 1) (hst : s.enum.state = .fetchingClasses) :
    ∀ i, 2 ≤ i → i < s.enum.currentAddrInfoAddr → (s.enum.record p).deviceClasses i = c i := by
  intro i h2 hi
  have hp : p.payload = [c (s.enum.currentAddrInfoAddr - 1)] :=
    (hg.2 _ (by rw [hq]; rfl)).2 _ rfl
  by_cases hlast : i = s.enum.currentAddrInfoAddr - 1
  · simp [Enum.record, hsrc, hp, hlast]
  · have := h.classes hst i h2 (by omega)
    simpa [Enum.record, hsrc, hlast] using this

/-- A pending timeout tells the state. -/
theorem Course.killing {k : Nat} {c : Nat → Byte} {d : Devices} {s : EnumBus}
    (h : Course k c d s) (hpos : 0 < s.timers .killToken) : s.enum.state = .killingToken := by
  rw [h.timers] at hpos
  cases hst : s.enum.state with
  | killingToken => rfl
  | _ =>
      rw [hst] at hpos
      cases hpos

theorem Course.resetting {k : Nat} {c : Nat → Byte} {d : Devices} {s : EnumBus}
    (h : Course k c d s) (hpos : 0 < s.timers .sendReset) : s.enum.state = .resetting := by
  rw [h.timers] at hpos
  cases hst : s.enum.state with
  | resetting => rfl
  | _ =>
      rw [hst] at hpos
      cases hpos

/-- One event further on. -/
def Further (k : Nat) (c : Nat → Byte) (d : Devices) (s s' : EnumBus) : Prop :=
  Course k c d s' ∧ todo k s = todo k s' + 1

section
variable {k : Nat} {c : Nat → Byte} {d : Devices} {s s' : EnumBus} {rest : List FrameT}

/-! One lemma for each move of the enumeration; `s'` is the state behind it. -/

theorem Course.start (h : Course k c d s) (hphase : s'.Phase) (hst : s.enum.state = .idle)
    (hs' : s' = { s with enum := { s.enum with state := .killingToken } }.acts
      [.push (sendTokAdvance 0), .push (sendTokAdvance 0), .push gwCmdReqToken,
        .addTimer .killToken]) : Further k c d s s' := by
  subst hs'
  have hcounts := h.counts
  simp only [Counts, hst] at hcounts
  refine ⟨course_acts hphase hcounts (fun t => ?_) (by rintro ⟨⟩)
    (h.types_of_ne (by simp [hst]) (by simp)), todo_acts ?_⟩
  · cases t <;> simp [h.timers, hst, timersIn]
  · simp [todo, remaining, frames, hst]
    omega

theorem Course.devPresent (h : Course k c d s) (hphase : s'.Phase)
    (hst : s.enum.state = .enumerating) (hq : s.queue = gwCmdHaveToken :: rest)
    (hlt : s.queries < k)
    (hs' : s' = { s with
        queue := rest
        queries := s.queries + 1
        enum := { s.enum with state := .settingAddr } }.acts
      [.push (sendAddress s.enum.currentNextAddress)]) : Further k c d s s' := by
  subst hs'
  have hcounts := h.counts
  have htimers := h.timers
  simp only [Counts, hst] at hcounts htimers
  refine ⟨course_acts hphase ⟨hcounts.1, hlt⟩ htimers (by rintro ⟨⟩)
    (h.types_of_ne (by simp [hst]) (by simp)), todo_acts ?_⟩
  simp [todo, remaining, frames, hst, hq]
  omega

theorem Course.tokAtGw (h : Course k c d s) (hphase : s'.Phase)
    (hst : s.enum.state = .enumerating) (hq : s.queue = gwCmdHaveToken :: rest)
    (hge : ¬s.queries < k)
    (hs' : s' = { s with
        queue := rest
        queries := s.queries + 1
        enum := { s.enum with state := .settingGwAddr } }.acts
      [.push (sendAddress s.enum.currentNextAddress)]) : Further k c d s s' := by
  subst hs'
  have hcounts := h.counts
  have htimers := h.timers
  simp only [Counts, hst] at hcounts htimers
  have hcur : s.enum.currentNextAddress = k + 2 := by omega
  refine ⟨course_acts hphase hcur htimers (by rintro ⟨⟩)
    (h.types_of_ne (by simp [hst]) (by simp)), todo_acts ?_⟩
  simp [todo, remaining, frames, hst, hq]
  omega

theorem Course.addrSet {f : FrameT} (h : Course k c d s) (hphase : s'.Phase)
    (hst : s.enum.state = .settingAddr) (hq : s.queue = f :: rest)
    (hs' : s' = { s with queue := rest, enum := { s.enum with state := .advancingToken } }.acts
      [.push (sendTokAdvance s.enum.currentNextAddress)]) : Further k c d s s' := by
  subst hs'
  have hcounts := h.counts
  have htimers := h.timers
  simp only [Counts, hst] at hcounts htimers
  refine ⟨course_acts hphase hcounts htimers (by rintro ⟨⟩)
    (h.types_of_ne (by simp [hst]) (by simp)), todo_acts ?_⟩
  simp [todo, remaining, frames, hst, hq]
  omega

theorem Course.advanced {f : FrameT} (h : Course k c d s) (hphase : s'.Phase)
    (hst : s.enum.state = .advancingToken) (hq : s.queue = f :: rest)
    (hs' : s' = { s with
        queue := rest
        enum := { s.enum with
          currentNextAddress := s.enum.currentNextAddress + 1, state := .enumerating } }.acts
      [.push gwCmdHaveToken]) : Further k c d s s' := by
  subst hs'
  have hcounts := h.counts
  have htimers := h.timers
  simp only [Counts, hst] at hcounts htimers
  refine ⟨course_acts hphase ⟨congrArg (· + 1) hcounts.1, hcounts.2⟩ htimers (by rintro ⟨⟩)
    (h.types_of_ne (by simp [hst]) (by simp)), todo_acts ?_⟩
  simp [todo, remaining, frames, hst, hq]
  omega

theorem Course.gwAddrSet {f : FrameT} (h : Course k c d s) (hphase : s'.Phase)
    (hst : s.enum.state = .settingGwAddr) (hq : s.queue = f :: rest)
    (hs' : s' = { s with
        queue := rest
        enum := { s.enum with
          currentNextAddress := s.enum.currentNextAddress + 1
          state := .fetchingClasses
          addrInfoReplies := fun _ => false
          currentAddrInfoAddr := 3 } }.acts
      [.push (gwCmdUseToken true), .push gwCmdGenToken, .push (sendAddrInfoReq 2)]) :
    Further k c d s s' := by
  subst hs'
  have hcounts := h.counts
  have htimers := h.timers
  simp only [Counts, hst] at hcounts htimers
  refine ⟨course_acts hphase (congrArg (· + 1) hcounts) htimers
    (fun _ i h2 hi => absurd hi (by simp only; omega))
    (h.types_of_ne (by simp [hst]) (by simp)), todo_acts ?_⟩
  simp [todo, remaining, frames, hst, hq]
  omega

theorem Course.fetchNext {p : PackedFrame} (h : Course k c d s) (hphase : s'.Phase)
    (hst : s.enum.state = .fetchingClasses) {f : FrameT} (hq : s.queue = f :: rest)
    (hc : s.enum.currentAddrInfoAddr < s.enum.currentNextAddress)
    (hclasses : ∀ i, 2 ≤ i → i < s.enum.currentAddrInfoAddr →
      (s.enum.record p).deviceClasses i = c i)
    (hs' : s' = { s with
        queue := rest
        enum := { s.enum.record p with
          currentAddrInfoAddr := s.enum.currentAddrInfoAddr + 1 } }.acts
      [.push (sendAddrInfoReq s.enum.currentAddrInfoAddr)]) : Further k c d s s' := by
  subst hs'
  have hcounts := h.counts
  simp only [Counts, hst] at hcounts
  refine ⟨course_acts hphase ?_ (fun t => ?_)
    (fun _ i h2 hi => hclasses i h2 (Nat.lt_of_succ_lt_succ hi))
    (h.types_of_ne (by simp [hst]) (by simp [Enum.record, hst])), todo_acts ?_⟩
  · simpa [Counts, Enum.record, hst] using hcounts
  · simp [Enum.record, hst, h.timers]
  · simp [todo, remaining, frames, Enum.record, hst, hq]
    omega

theorem Course.classesFetched {p : PackedFrame} (h : Course k c d s) (hphase : s'.Phase)
    (hst : s.enum.state = .fetchingClasses) {f : FrameT} (hq : s.queue = f :: rest)
    (hc : s.enum.currentAddrInfoAddr = s.enum.currentNextAddress)
    (hclasses : ∀ i, 2 ≤ i → i < s.enum.currentAddrInfoAddr →
      (s.enum.record p).deviceClasses i = c i)
    (hs' : s' = { s with queue := rest, enum := { s.enum.record p with state := .enumerated } }.acts
      ((List.range' 2 (s.enum.currentNextAddress - 2)).map fun i =>
        .deviceAdd i ((s.enum.record p).deviceClasses i))) : Further k c d s s' := by
  subst hs'
  have hcounts := h.counts
  have htimers := h.timers
  simp only [Counts, hst] at hcounts htimers
  refine ⟨course_acts hphase hcounts (fun t => ?_) (by rintro ⟨⟩) (fun i => ?_), todo_acts ?_⟩
  · rw [List.count_eq_zero.mpr (by simp)]
    exact htimers t
  · rw [deviceType_acts]
    by_cases hi : 2 ≤ i ∧ i ≤ k + 2
    · rw [if_pos (by omega), if_pos ⟨rfl, hi⟩]
      exact hclasses i hi.1 (by omega)
    · rw [if_neg (by omega), if_neg fun h => hi h.2]
      exact (h.types i).trans (if_neg (by simp [hst]))
  · rw [frames_deviceAdd]
    simp [todo, remaining, hst, hq]
    omega

theorem Course.tokenCaught (h : Course k c d s) (hphase : s'.Phase)
    (hst : s.enum.state = .killingToken)
    (hs' : s' = { s.drop .killToken with enum := { s.enum with state := .resetting } }.acts
      [.push (gwCmdUseToken false), .addTimer .sendReset]) : Further k c d s s' := by
  subst hs'
  have hcounts := h.counts
  simp only [Counts, hst] at hcounts
  refine ⟨course_acts hphase ⟨hcounts.1 ▸ Nat.zero_le 5, hcounts.2⟩ (fun t => ?_) (by rintro ⟨⟩)
    (h.types_of_ne (by simp [hst]) (by simp)), todo_acts ?_⟩
  · cases t <;> simp [h.timers, hst, timersIn, drop]
  · simp [todo, remaining, frames, hst, drop]
    omega

theorem Course.resetAgain {n : Nat} (h : Course k c d s) (hphase : s'.Phase)
    (hst : s.enum.state = .resetting) (hn : n ≤ 5) (hrc : n = (s.enum.resetCount + 1) % 256)
    (hs' : s' = { s with enum := { s.enum with resetCount := n } }.acts [.push sendReset]) :
    Further k c d s s' := by
  subst hs'
  have hcounts := h.counts
  simp only [Counts, hst] at hcounts
  refine ⟨course_acts hphase ?_ (fun t => ?_) (by simp [hst])
    (h.types_of_ne (by simp [hst]) (by simp [hst])), todo_acts ?_⟩
  · simpa [Counts, hst] using ⟨hn, hcounts.2⟩
  · simp [hst, h.timers]
  · simp [todo, remaining, frames, hst]
    omega

theorem Course.busReset {n : Nat} (h : Course k c d s) (hphase : s'.Phase)
    (hst : s.enum.state = .resetting) (hn : 5 < n) (hrc : n = (s.enum.resetCount + 1) % 256)
    (hs' : s' = { s.drop .sendReset with
        enum := { s.enum with resetCount := n, state := .enumerating } }.acts
      [.push gwCmdGenToken, .push gwCmdReqToken, .push gwCmdHaveToken]) : Further k c d s s' := by
  subst hs'
  have hcounts := h.counts
  have hwaits := h.phase
  simp only [Counts, Phase, Waits, hst] at hcounts hwaits
  refine ⟨course_acts hphase ⟨?_, ?_⟩ (fun t => ?_) (by rintro ⟨⟩)
    (h.types_of_ne (by simp [hst]) (by simp)), todo_acts ?_⟩
  · exact hwaits.2.2.trans (congrArg (· + 2) hcounts.2.symm)
  · exact hcounts.2 ▸ Nat.zero_le k
  · cases t <;> simp [h.timers, hst, timersIn, drop]
  · simp [todo, remaining, frames, hst, drop]
    omega

/-- In each state the good events are those of its move. -/
theorem Course.further {ev : EnumBusEvent} {as : List EnumAction} (h : Course k c d s)
    (hg : Good k c s ev) (hs : s.step ev = .ok (s', as)) : Further k c d s s' := by
  have ht := step_turn h.phase hs
  have hphase := ht.phase h.phase
  cases ht with
  | start hst => exact h.start hphase hst rfl
  | started hst => exact absurd hg.2 hst
  | sent hq hna => exact h.pop hq hphase
  | other hna => exact absurd hg.2 id
  | quiet hq hqu => exact h.pop hq hphase
  | devPresent hq hrest hp hst hc =>
      exact h.devPresent hphase hst hq (((hg.2 _ (by rw [hq]; rfl)).1 rfl).mp hp) rfl
  | tokAtGw hq hrest hp hst hc =>
      have hge : ¬s.queries < k := fun hlt => hp (((hg.2 _ (by rw [hq]; rfl)).1 rfl).mpr hlt)
      exact h.tokAtGw hphase hst hq hge rfl
  | addrSet hq hrest hst => exact h.addrSet hphase hst hq rfl
  | advanced hq hrest hst => exact h.advanced hphase hst hq rfl
  | gwAddrSet hq hrest hst => exact h.gwAddrSet hphase hst hq rfl
  | fetchNext hq hrest hsrc hst hc =>
      exact h.fetchNext hphase hst hq hc (h.recorded hg hq hsrc hst) rfl
  | classesFetched hq hrest hsrc hst hc =>
      exact h.classesFetched hphase hst hq hc (h.recorded hg hq hsrc hst) rfl
  | tokenCaught hst => exact h.tokenCaught hphase hst rfl
  | lateKill hst => exact absurd (h.killing hg.1) hst
  | resetAgain hn hrc => exact h.resetAgain hphase (h.resetting hg.1) hn hrc rfl
  | busReset hn hrc hst => exact h.busReset hphase hst hn hrc rfl
  | lateReset hn hrc hst => exact absurd (h.resetting hg.1) hst

end

/-- **Every good step keeps to the course.** -/
theorem Course.step {k : Nat} {c : Nat → Byte} {d : Devices} {s s' : EnumBus} {ev : EnumBusEvent}
    {as : List EnumAction} (h : Course k c d s) (hg : Good k c s ev)
    (hs : s.step ev = .ok (s', as)) : Course k c d s' ∧ Advance k s s' as := by
  obtain ⟨hc, htodo⟩ := h.further hg hs
  obtain ⟨hassigned, hasked⟩ := h.phase.ordered hs
  exact ⟨hc, htodo, hassigned, hasked⟩

theorem Course.run {k : Nat} {c : Nat → Byte} {d : Devices} {s t : EnumBus}
    {es : List EnumBusEvent} {os : List EnumAction} (h : Course k c d s)
    (hg : Along EnumBus.step (Good k c) s es) (hr : Lib.run EnumBus.step s es = .ok (t, os)) :
    Course k c d t ∧ todo k s = todo k t + es.length
      ∧ assignedBy s.enum ++ assigned os = assignedBy t.enum
      ∧ askedBy s.enum ++ asked os = askedBy t.enum := by
  induction es generalizing s os with
  | nil =>
      cases hr
      exact ⟨h, rfl, List.append_nil _, List.append_nil _⟩
  | cons e es ih =>
      obtain ⟨s', o, os', hs, hr', rfl⟩ := run_cons_ok.mp hr
      obtain ⟨h', ha⟩ := h.step hg.1 hs
      obtain ⟨ht, htodo, hassigned, hasked⟩ := ih h' (hg.2 s' o hs) hr'
      refine ⟨ht, ?_, ?_, ?_⟩
      · rw [ha.todo, htodo, List.length_cons]
        omega
      · rw [assigned_append, ← List.append_assoc, ha.assigned, hassigned]
      · rw [asked_append, ← List.append_assoc, ha.asked, hasked]

/-! ## The enumeration does not stop early -/

/-- `exit (1)` is taken when the addresses have run out. -/
theorem fsm_none {e : Enum} {ev : EnumEvent} (h : e.fsm ev = none) :
    e.state = .enumerating ∧ deviceHighAddress ≤ e.currentNextAddress := by
  rw [Enum.fsm] at h
  cases hs : e.state with
  | enumerating =>
      simp only [hs] at h
      split at h
      · split at h
        · rename_i hge
          exact ⟨rfl, hge⟩
        · cases h
      · cases h
  | fetchingClasses =>
      simp only [hs] at h
      split at h
      · split at h <;> cases h
      · cases h
  | enumerated =>
      simp only [hs] at h
      cases h
  | _ =>
      simp only [hs] at h
      split at h <;> cases h

theorem dispatch_none {e : Enum} {p : PackedFrame} (h : e.dispatch p = none) :
    e.state = .enumerating ∧ deviceHighAddress ≤ e.currentNextAddress := by
  rw [Enum.dispatch] at h
  split at h
  · split at h
    · exact fsm_none h
    · exact fsm_none h
  · split at h
    · split at h
      · exact fsm_none h
      · split at h
        · exact ⟨(fsm_none h).1, (fsm_none h).2⟩
        · cases h
    · cases h

/-- No event that can happen fails while there are addresses left. -/
theorem step_total {s : EnumBus} {ev : EnumBusEvent} (hen : s.Enabled ev)
    (hlt : s.enum.state = .enumerating → s.enum.currentNextAddress < deviceHighAddress) :
    ∃ s' as, s.step ev = .ok (s', as) := by
  have hstep : ∀ (t : EnumBus) (q : Option (Enum × List EnumAction)), q ≠ none →
      ∃ s' as, t.enumStep q = .ok (s', as) := by
    intro t q hq
    obtain ⟨⟨e, as⟩, rfl⟩ := Option.ne_none_iff_exists'.mp hq
    exact ⟨_, _, rfl⟩
  have hfsm : ∀ n ev', { s.enum with resetCount := n }.fsm ev' ≠ none := by
    intro n ev' hnone
    obtain ⟨hst, hge⟩ := fsm_none hnone
    exact Nat.not_le_of_lt (hlt hst) hge
  rw [step, if_pos hen]
  cases ev with
  | start => exact hstep _ _ (hfsm s.enum.resetCount _)
  | sent => exact ⟨_, _, rfl⟩
  | other f => exact ⟨_, _, rfl⟩
  | answer p =>
      obtain ⟨f, hf, -⟩ := hen
      simp only [handle, Option.mem_def.mp hf]
      apply hstep _ _
      intro hnone
      obtain ⟨hst, hge⟩ := dispatch_none hnone
      exact Nat.not_le_of_lt (hlt hst) hge
  | timeout t =>
      cases t with
      | killToken => exact hstep _ _ (hfsm s.enum.resetCount _)
      | sendReset =>
          simp only [handle, Enum.sendResetTimeout]
          by_cases hn : (s.enum.resetCount + 1) % 256 > 5
          · obtain ⟨⟨e, as⟩, he⟩ := Option.ne_none_iff_exists'.mp (hfsm _ .busReset)
            rw [if_pos hn, he]
            exact ⟨_, _, rfl⟩
          · rw [if_neg hn]
            exact ⟨_, _, rfl⟩

/-- The answer of the bus to `f`. -/
def reply (k : Nat) (c : Nat → Byte) (queries : Nat) (f : FrameT) : PackedFrame where
  destAddress := 0x81
  sourceAddress := match f.type with
    | .gwConf => 1
    | .sric => BitVec.ofNat 8 (f.assigns.getD f.address)
  payload :=
    if f = gwCmdHaveToken then [if queries < k then 0 else 1]
    else if f.wantsData then [c f.address] else []

/-- The frames that the enumeration waits for. -/
theorem Phase.kinds {s : EnumBus} (h : s.Phase) {f : FrameT} (hf : f ∈ s.pending) :
    f ∈ EnumBus.quiet ∨ f = gwCmdHaveToken
      ∨ ∃ a, a < deviceHighAddress ∧ (f = sendAddress a ∨ f = sendTokAdvance a
        ∨ f = sendAddrInfoReq a) := by
  unfold Phase Waits at h
  cases hs : s.enum.state with
  | idle | enumerated => simp [hs] at h; simp [h] at hf
  | killingToken | resetting =>
      simp only [hs] at h
      exact .inl (h.1 f hf)
  | enumerating =>
      simp only [hs] at h
      obtain ⟨pre, hpre, hqu, -⟩ := h
      rw [hpre, List.mem_append, List.mem_singleton] at hf
      exact hf.imp (hqu f) .inl
  | settingAddr | settingGwAddr =>
      simp only [hs] at h
      obtain ⟨hpend, -, hlt⟩ := h
      rw [hpend, List.mem_singleton] at hf
      exact .inr (.inr ⟨_, hlt, .inl hf⟩)
  | advancingToken =>
      simp only [hs] at h
      obtain ⟨hpend, -, hlt⟩ := h
      rw [hpend, List.mem_singleton] at hf
      exact .inr (.inr ⟨_, hlt, .inr (.inl hf)⟩)
  | fetchingClasses =>
      simp only [hs] at h
      obtain ⟨pre, hpre, hqu, h3, hle, hlt⟩ := h
      rw [hpre, List.mem_append, List.mem_singleton] at hf
      exact hf.imp (hqu f) fun hf => .inr ⟨_, by omega, .inr (.inr hf)⟩

/-- The seven bits of an address survive as the source of an ack. -/
theorem source_ofNat {a : Nat} (h : a < deviceHighAddress) :
    ((BitVec.ofNat 8 a) &&& 0x7F).toNat = a := by
  have h128 : deviceHighAddress = 128 := rfl
  have h127 : a &&& 127 = a % 128 := Nat.and_two_pow_sub_one_eq_mod a 7
  rw [BitVec.toNat_and, BitVec.toNat_ofNat, Nat.mod_eq_of_lt (by omega)]
  exact h127.trans (Nat.mod_eq_of_lt (by omega))

theorem reply_isAck (k : Nat) (c : Nat → Byte) (queries : Nat) (f : FrameT) :
    (reply k c queries f).isAck = true :=
  (by decide : (0x81 &&& 0x80 != (0 : Byte)) = true)

theorem reply_gwConf {k : Nat} {c : Nat → Byte} {queries : Nat} {f : FrameT}
    (h : f.type = .gwConf) : (reply k c queries f).source = 1 := by
  simp only [PackedFrame.source, reply, h]
  decide

theorem answers_reply {k queries : Nat} {c : Nat → Byte} {f : FrameT}
    (h : f ∈ quiet ∨ f = gwCmdHaveToken ∨ ∃ a, a < deviceHighAddress
      ∧ (f = sendAddress a ∨ f = sendTokAdvance a ∨ f = sendAddrInfoReq a)) :
    Answers f (reply k c queries f) := by
  refine ⟨reply_isAck k c queries f, ?_⟩
  rcases h with hf | rfl | ⟨a, ha, rfl | rfl | rfl⟩
  · obtain ⟨hne, hassign, -, haddr⟩ := quiet_ne hf
    have hw : ∀ f ∈ quiet, f.wantsData = false := by decide
    refine ⟨by simp [reply, hne, hw f hf], ?_⟩
    cases ht : f.type with
    | gwConf => exact reply_gwConf ht
    | sric => exact ⟨fun h => absurd (haddr ht) h, by simp [hassign]⟩
  · exact ⟨rfl, reply_gwConf rfl⟩
  · refine ⟨rfl, fun h => absurd rfl h, ?_⟩
    intro b hb
    obtain rfl : a = b := by simpa [assigns_sendAddress ha] using hb
    simp only [PackedFrame.source, reply, assigns_sendAddress ha]
    exact source_ofNat ha
  · exact ⟨rfl, fun _ => source_ofNat ha, by rintro b ⟨⟩⟩
  · exact ⟨rfl, fun _ => source_ofNat ha, by rintro b ⟨⟩⟩

/-- A reply to ADDR_INFO tells the class. -/
theorem reply_asks {k queries a : Nat} {c : Nat → Byte} {f : FrameT} (h : a ∈ f.asks) :
    (reply k c queries f).payload = [c a] := by
  rw [FrameT.asks, Option.mem_def] at h
  split at h
  · rename_i hf
    cases h
    have hne : f ≠ gwCmdHaveToken := by
      intro hx
      obtain rfl := hx
      cases hf.1
    have hw : f.wantsData = true := by simp [FrameT.wantsData, hf]
    simp only [reply, if_neg hne, if_pos hw]
  · cases h

/-- **While something is left to do, something happens.** -/
theorem Course.progress {k : Nat} {c : Nat → Byte} {d : Devices} {s : EnumBus}
    (h : Course k c d s) (htodo : 0 < todo k s) : ∃ ev, Good k c s ev := by
  by_cases hidle : s.enum.state = .idle
  · exact ⟨.start, trivial, hidle⟩
  by_cases hkill : s.enum.state = .killingToken
  · refine ⟨.timeout .killToken, ?_, trivial⟩
    show 0 < s.timers .killToken
    rw [h.timers, hkill]
    decide
  by_cases hreset : s.enum.state = .resetting
  · refine ⟨.timeout .sendReset, ?_, trivial⟩
    show 0 < s.timers .sendReset
    rw [h.timers, hreset]
    decide
  -- in the other states the oldest frame can go
  have hq : s.queue ≠ [] := by
    intro hq
    by_cases hen : s.enum.state = .enumerated
    · simp [todo, remaining, hen, hq] at htodo
    · rcases h.phase.waits hidle hen with ⟨t, ht⟩ | ⟨f, hf, -⟩
      · rw [h.timers] at ht
        cases hs : s.enum.state <;> simp_all [timersIn]
      · simp [hq] at hf
  obtain ⟨f, rest, hq⟩ := List.exists_cons_of_ne_nil hq
  by_cases hf : f.needsAck = true
  · have hkinds := h.phase.kinds (f := f) (by rw [pending_cons hq hf]; exact List.mem_cons_self)
    refine ⟨.answer (reply k c s.queries f), ⟨f, by simp [hq], hf, answers_reply hkinds⟩, ?_⟩
    intro g hg
    obtain rfl : f = g := by simpa [hq] using hg
    constructor
    · intro hhave
      by_cases hlt : s.queries < k <;> simp [reply, hhave, hlt]
    · intro a ha
      exact reply_asks ha
  · exact ⟨.sent, ⟨f, by simp [hq], by simpa using hf⟩, trivial⟩

theorem Course.finished {k : Nat} {c : Nat → Byte} {d : Devices} {s : EnumBus}
    (h : Course k c d s) (htodo : todo k s = 0) : s.enum.state = .enumerated := by
  by_contra hen
  have hq : s.queue.length = 0 ∧ remaining k s.enum = 0 := Nat.add_eq_zero_iff.mp htodo
  have hidle : s.enum.state ≠ .idle := by
    intro hidle
    simp [remaining, hidle] at hq
  rcases h.phase.waits hidle hen with ⟨t, ht⟩ | ⟨f, hf, -⟩
  · rw [h.timers] at ht
    cases hs : s.enum.state <;> simp_all [timersIn, remaining]
  · rw [List.length_eq_zero_iff.mp hq.1] at hf
    cases hf

/-- Where enumeration is to end, with the actions `os` taken on the way. -/
structure Done (k : Nat) (c : Nat → Byte) (d : Devices) (s : EnumBus) (os : List EnumAction) :
    Prop where
  state : s.enum.state = .enumerated
  assigned : assigned os = List.range' 2 (k + 1)
  asked : asked os = List.range' 2 (k + 1)
  queue : s.queue = []
  found : ∀ i, 2 ≤ i → i ≤ k + 2 → s.devices.deviceType i = c i
  others : ∀ i, ¬(2 ≤ i ∧ i ≤ k + 2) → s.devices.deviceType i = d.deviceType i

/-- **Enumeration is correct**: on a bus of `k` devices no event fails,
there is always another one until there have been `4 * k + 24`, and then
every device has got its address, in order, and has been asked once. -/
theorem enumeration_correct {k : Nat} (hk : k + 2 < deviceHighAddress) {c : Nat → Byte}
    {d : Devices} {es : List EnumBusEvent} {s : EnumBus} {os : List EnumAction}
    (hg : Along step (Good k c) (init d) es) (hr : run step (init d) es = .ok (s, os)) :
    (∀ ev, Good k c s ev → ∃ s' as, s.step ev = .ok (s', as))
      ∧ es.length ≤ 4 * k + 24
      ∧ (es.length < 4 * k + 24 → ∃ ev, Good k c s ev)
      ∧ (es.length = 4 * k + 24 → Done k c d s os) := by
  obtain ⟨h, htodo, hassigned, hasked⟩ := (course_init k c d).run hg hr
  have h0 : todo k (init d) = 4 * k + 24 := Nat.zero_add _
  rw [h0] at htodo
  refine ⟨fun ev hev => step_total hev.1 ?_, by omega, ?_, ?_⟩
  · intro hst
    have hcounts := h.counts
    simp only [Counts, hst] at hcounts
    omega
  · intro hlt
    exact h.progress (by omega)
  · intro hlen
    have hst := h.finished (by omega)
    have hcounts := h.counts
    simp only [Counts, hst] at hcounts
    simp only [assignedBy, askedBy, hst, hcounts, init, Enum.init] at hassigned hasked
    exact ⟨hst, hassigned, hasked, List.length_eq_zero_iff.mp (by rw [todo] at htodo; omega),
      fun i h2 hi => (h.types i).trans (if_pos ⟨hst, h2, hi⟩),
      fun i hi => (h.types i).trans (if_neg fun h => hi h.2)⟩

/-- An ack from `source`. -/
def ack (source : Byte) (payload : List Byte) : EnumBusEvent := .answer ⟨0x81, source, payload⟩

/-- The enumeration of a bus with one device. -/
def oneDevice : List EnumBusEvent :=
  [.start, ack 1 [], ack 1 [], ack 1 [], .timeout .killToken, ack 1 []]
    ++ (List.replicate 5 [.timeout .sendReset, .sent]).flatten ++ [.timeout .sendReset]
    ++ [ack 1 [], ack 1 [], ack 1 [0], ack 2 [], ack 2 [], ack 1 [1], ack 3 []]
    ++ [ack 1 [], ack 1 [], ack 2 [5], ack 3 [7]]

theorem enumeration_correct_one_device :
    ∃ s os, run step (init .reset) oneDevice = .ok (s, os)
      ∧ Done 1 (fun a => if a = 2 then 5 else 7) .reset s os := by
  have hgood : Along step (Good 1 fun a => if a = 2 then 5 else 7) (init .reset) oneDevice := by
    decide +kernel
  exact ⟨_, _, rfl, (enumeration_correct (by decide) hgood rfl).2.2.2 rfl⟩

end EnumBus

end Sricd
