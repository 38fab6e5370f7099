import Sricd.EnumBus

/-!
# The steps of enumeration

Where enumeration is in its course (`At`), and what each event does to it
there: one lemma for each kind of event.
-/

namespace Sricd

open Sricd.Lib

namespace EnumBus

/-- Where enumeration is: its state, the next address, how many resets it
has sent, how many timeouts there are for another one, and the frames that
are not done with. -/
structure At (s : EnumBus) (state : EnumState) (next count resets : Nat) (queue : List FrameT) :
    Prop where
  state : s.enum.state = state
  next : s.enum.currentNextAddress = next
  count : s.enum.resetCount = count
  resets : s.timers .sendReset = resets
  queue : s.queue = queue

section
variable {s : EnumBus} {state : EnumState} {next count resets : Nat} {queue : List FrameT}

/-- A call of the state machine. -/
theorem At.enumStep (h : s.At state next count resets queue) {e : Enum} {as : List EnumAction}
    {r : Option (Enum × List EnumAction)} {state' : EnumState} {next' count' more : Nat}
    (hr : r = some (e, as)) (hstate : e.state = state') (hnext : e.currentNextAddress = next')
    (hcount : e.resetCount = count') (hmore : as.count (.addTimer .sendReset) = more) :
    ∃ s', s.enumStep r = .ok (s', as)
      ∧ s'.At state' next' count' (resets + more) (queue ++ frames as) := by
  subst hr
  refine ⟨_, rfl, ?_⟩
  constructor
  · rw [acts_enum]
    exact hstate
  · rw [acts_enum]
    exact hnext
  · rw [acts_enum]
    exact hcount
  · rw [acts_timers, hmore, ← h.resets]
  · rw [acts_queue, ← h.queue]

/-- Where it takes no notice of the event. -/
theorem At.unmoved (h : s.At state next count resets queue)
    {r : Option (Enum × List EnumAction)} (hr : r = some (s.enum, [])) :
    ∃ s', s.enumStep r = .ok (s', []) ∧ s'.At state next count resets queue := by
  obtain ⟨s', hs, hat⟩ := h.enumStep hr h.state h.next h.count rfl
  rw [show frames [] = [] from rfl, List.append_nil] at hat
  exact ⟨s', hs, hat⟩

/-! ### Timeouts -/

theorem At.start (h : s.At .idle next count resets queue) :
    ∃ s' as, s.step .start = .ok (s', as) ∧ s'.At .killingToken next count resets
      (queue ++ [sendTokAdvance 0, sendTokAdvance 0, gwCmdReqToken]) := by
  have hfsm : s.enum.start = some ({ s.enum with state := .killingToken },
      [.push (sendTokAdvance 0), .push (sendTokAdvance 0), .push gwCmdReqToken,
        .addTimer .killToken]) := by
    simp [Enum.start, Enum.fsm, h.state]
  obtain ⟨s', hs, hat⟩ := h.enumStep hfsm rfl h.next h.count rfl
  exact ⟨s', _, step_ok trivial hs, hat⟩

theorem At.started (h : s.At state next count resets queue) (hst : state ≠ .idle) :
    ∃ s' as, s.step .start = .ok (s', as) ∧ s'.At state next count resets queue := by
  have hfsm : s.enum.start = some (s.enum, []) :=
    fsm_ignored List.mem_cons_self (by rw [h.state]; exact hst)
  obtain ⟨s', hs, hat⟩ := h.unmoved hfsm
  exact ⟨s', _, step_ok trivial hs, hat⟩

/-- A timeout of the other kind does not count. -/
theorem At.drop (h : s.At state next count resets queue) :
    (s.drop .killToken).At state next count resets queue := by
  refine ⟨h.state, h.next, h.count, ?_, h.queue⟩
  rw [← h.resets]
  show Function.update s.timers .killToken (s.timers .killToken - 1) .sendReset = _
  exact Function.update_of_ne (by decide) _ _

theorem At.caught (h : s.At .killingToken next count resets queue) (ht : 0 < s.timers .killToken) :
    ∃ s' as, s.step (.timeout .killToken) = .ok (s', as)
      ∧ s'.At .resetting next count (resets + 1) (queue ++ [gwCmdUseToken false]) := by
  have hfsm : s.enum.killTokenTimeout = some ({ s.enum with state := .resetting },
      [.push (gwCmdUseToken false), .addTimer .sendReset]) := by
    simp [Enum.killTokenTimeout, Enum.fsm, h.state]
  obtain ⟨s', hs, hat⟩ := h.drop.enumStep hfsm rfl h.next h.count rfl
  exact ⟨s', _, step_ok ht hs, hat⟩

/-- One more reset. -/
theorem At.reset (h : s.At .resetting next count resets queue) (ht : 0 < resets) (hc : count < 5) :
    ∃ s' as, s.step (.timeout .sendReset) = .ok (s', as)
      ∧ s'.At .resetting next (count + 1) resets (queue ++ [sendReset]) := by
  have hcount : (s.enum.resetCount + 1) % 256 = count + 1 := by
    rw [h.count]
    omega
  have hfsm : s.enum.sendResetTimeout
      = some ({ s.enum with resetCount := count + 1 }, [.push sendReset], true) := by
    rw [Enum.sendResetTimeout, hcount]
    exact if_neg (show ¬count + 1 > 5 by omega)
  obtain ⟨s', hs, hat⟩ := h.enumStep (r := some ({ s.enum with resetCount := count + 1 },
    [.push sendReset])) rfl h.state h.next rfl rfl
  refine ⟨s', [.push sendReset], step_ok (by rw [← h.resets] at ht; exact ht) ?_, hat⟩
  rw [handle, hfsm]
  exact hs

/-- There have been enough. -/
theorem At.busReset (h : s.At .resetting next 5 1 queue) :
    ∃ s' as, s.step (.timeout .sendReset) = .ok (s', as)
      ∧ s'.At .enumerating next 6 0 (queue ++ [gwCmdGenToken, gwCmdReqToken, gwCmdHaveToken]) := by
  have hcount : (s.enum.resetCount + 1) % 256 = 6 := by
    rw [h.count]
  have hfsm : s.enum.sendResetTimeout
      = some ({ s.enum with resetCount := 6, state := .enumerating },
        [.push gwCmdGenToken, .push gwCmdReqToken, .push gwCmdHaveToken], false) := by
    rw [Enum.sendResetTimeout, hcount]
    simp [Enum.fsm, h.state]
  have hdrop : (s.drop .sendReset).At .resetting next 5 0 queue := by
    refine ⟨h.state, h.next, h.count, ?_, h.queue⟩
    show Function.update s.timers .sendReset (s.timers .sendReset - 1) .sendReset = 0
    rw [Function.update_self, h.resets]
  obtain ⟨s', hs, hat⟩ := hdrop.enumStep
    (r := some ({ s.enum with resetCount := 6, state := .enumerating },
      [.push gwCmdGenToken, .push gwCmdReqToken, .push gwCmdHaveToken])) rfl rfl h.next rfl rfl
  refine ⟨s', [.push gwCmdGenToken, .push gwCmdReqToken, .push gwCmdHaveToken], step_ok (by rw [Enabled, h.resets]; exact Nat.one_pos) ?_, hat⟩
  rw [handle, hfsm]
  exact hs

theorem At.no_reset (h : s.At state next count 0 queue) :
    s.step (.timeout .sendReset) = .error .disabled := by
  rw [step, if_neg]
  rw [Enabled, h.resets]
  exact Nat.lt_irrefl 0

/-! ### Answers -/

/-- The oldest frame is answered. -/
theorem At.answer {f : FrameT} {p : PackedFrame} (h : s.At state next count resets (f :: queue))
    (hf : f.needsAck = true) (ha : Answers f p) :
    ∃ u : EnumBus, u.At state next count resets queue ∧ u.enum = s.enum
      ∧ s.step (.answer p) = u.enumStep (s.enum.dispatch p) := by
  have hhead : s.queue.head? = some f := by
    rw [h.queue]
    rfl
  have htail : s.queue.tail = queue := by
    rw [h.queue]
    rfl
  refine ⟨{ s with
    queue := s.queue.tail
    queries := if f = gwCmdHaveToken then s.queries + 1 else s.queries },
    ⟨h.state, h.next, h.count, h.resets, htail⟩, rfl, ?_⟩
  rw [step, if_pos ⟨f, hhead, hf, ha⟩, handle, hhead]
  rfl

/-- A frame whose ack changes nothing. -/
theorem At.quiet {f : FrameT} {p : PackedFrame} (h : s.At state next count resets (f :: queue))
    (hf : f ∈ quiet) (ha : Answers f p)
    (hst : state = .killingToken ∨ state = .resetting ∨ state = .enumerating) :
    ∃ s' as, s.step (.answer p) = .ok (s', as) ∧ s'.At state next count resets queue := by
  obtain ⟨u, hu, henum, hs⟩ := h.answer (quiet_needsAck hf) ha
  have hne : s.enum.state ≠ .settingAddr ∧ s.enum.state ≠ .settingGwAddr
      ∧ s.enum.state ≠ .advancingToken := by
    rw [h.state]
    rcases hst with rfl | rfl | rfl <;> decide
  have hd := dispatch_empty (answers_quiet ha hf) hne
  rw [← henum] at hd hs
  obtain ⟨s', hs', hat⟩ := hu.unmoved hd
  exact ⟨s', _, hs.trans hs', hat⟩

/-- A frame that wants no ack. -/
theorem At.sent {f : FrameT} (h : s.At state next count resets (f :: queue))
    (hf : f.needsAck = false) :
    ∃ s' as, s.step .sent = .ok (s', as) ∧ s'.At state next count resets queue := by
  have hhead : s.queue.head? = some f := by
    rw [h.queue]
    rfl
  refine ⟨{ s with queue := s.queue.tail }, [], ?_, h.state, h.next, h.count, h.resets, ?_⟩
  · exact step_ok ⟨f, hhead, hf⟩ rfl
  · rw [h.queue]
    rfl

/-- The gateway says whether it has the token. -/
theorem At.query {p : PackedFrame} {b : Byte}
    (h : s.At .enumerating next count resets [gwCmdHaveToken]) (ha : Answers gwCmdHaveToken p)
    (hb : p.payload = [b]) (hnext : next < deviceHighAddress) :
    ∃ s' as, s.step (.answer p) = .ok (s', as)
      ∧ s'.At (if b = 0 then .settingAddr else .settingGwAddr) next count resets
        [sendAddress next] := by
  obtain ⟨u, hu, henum, hs⟩ := h.answer (by decide) ha
  have hd := dispatch_haveToken h.state (answers_haveToken ha).1 hb
  have hfsm : s.enum.dispatch p
      = some ({ s.enum with state := if b = 0 then .settingAddr else .settingGwAddr },
        [.push (sendAddress next)]) := by
    rw [hd, Enum.fsm]
    simp only [h.state, h.next]
    rw [if_pos (by split <;> simp), if_neg (Nat.not_le.mpr hnext)]
    split <;> simp
  obtain ⟨s', hs', hat⟩ := hu.enumStep hfsm rfl h.next h.count rfl
  exact ⟨s', _, hs.trans hs', hat⟩

/-- There is no address left. -/
theorem At.exhausted {p : PackedFrame} {b : Byte}
    (h : s.At .enumerating next count resets [gwCmdHaveToken]) (ha : Answers gwCmdHaveToken p)
    (hb : p.payload = [b]) (hnext : deviceHighAddress ≤ next) :
    s.step (.answer p) = .error .exit := by
  obtain ⟨u, hu, henum, hs⟩ := h.answer (by decide) ha
  have hd := dispatch_haveToken h.state (answers_haveToken ha).1 hb
  have hfsm : s.enum.dispatch p = none := by
    rw [hd, Enum.fsm]
    simp only [h.state, h.next]
    rw [if_pos (by split <;> simp), if_pos hnext]
  rw [hs, hfsm]
  rfl

/-- A device takes the address. -/
theorem At.assigned {p : PackedFrame} (h : s.At .settingAddr next count resets [sendAddress next])
    (ha : Answers (sendAddress next) p) (hnext : next < deviceHighAddress) :
    ∃ s' as, s.step (.answer p) = .ok (s', as)
      ∧ s'.At .advancingToken next count resets [sendTokAdvance next] := by
  obtain ⟨u, hu, henum, hs⟩ := h.answer (needsAck_sendAddress _) ha
  obtain ⟨hack, hp, hsrc⟩ := answers_sendAddress hnext ha
  have hfsm : s.enum.dispatch p
      = some ({ s.enum with state := .advancingToken }, [.push (sendTokAdvance next)]) := by
    rw [dispatch_newDev (by rw [h.state]; decide) hack hp (by rw [hsrc, h.next]), Enum.fsm]
    simp only [h.state, h.next, if_pos]
  obtain ⟨s', hs', hat⟩ := hu.enumStep hfsm rfl h.next h.count rfl
  exact ⟨s', _, hs.trans hs', hat⟩

/-- It has passed the token on. -/
theorem At.advanced {p : PackedFrame}
    (h : s.At .advancingToken next count resets [sendTokAdvance next])
    (ha : Answers (sendTokAdvance next) p) (h2 : 2 ≤ next) (hnext : next < deviceHighAddress) :
    ∃ s' as, s.step (.answer p) = .ok (s', as)
      ∧ s'.At .enumerating (next + 1) count resets [gwCmdHaveToken] := by
  obtain ⟨u, hu, henum, hs⟩ := h.answer (needsAck_sendTokAdvance hnext) ha
  obtain ⟨hack, hp, hsrc⟩ := answers_sendTokAdvance h2 ha
  have hmod : (next + 1) % 256 = next + 1 :=
    Nat.mod_eq_of_lt (Nat.lt_trans (Nat.succ_lt_succ hnext) (by decide))
  have hfsm : s.enum.dispatch p
      = some ({ s.enum with currentNextAddress := next + 1, state := .enumerating },
        [.push gwCmdHaveToken]) := by
    rw [dispatch_newDev (by rw [h.state]; decide) hack hp (by rw [hsrc, h.next]), Enum.fsm]
    simp only [h.state, h.next, if_pos, hmod]
  obtain ⟨s', hs', hat⟩ := hu.enumStep hfsm rfl rfl h.count rfl
  exact ⟨s', _, hs.trans hs', hat⟩

end

/-! ## The timeout for the token -/

/-- There is one while it is waited for, and none otherwise. -/
def KillTimer (s : EnumBus) : Prop :=
  s.timers .killToken = if s.enum.state = .killingToken then 1 else 0

theorem killTimer_init (d : Devices) : (init d).KillTimer := rfl

theorem killTimer_acts {s : EnumBus} {as : List EnumAction}
    (h : s.timers .killToken + as.count (.addTimer .killToken)
      = if s.enum.state = .killingToken then 1 else 0) : (s.acts as).KillTimer := by
  rw [KillTimer, acts_timers, acts_enum]
  exact h

theorem Turn.killTimer {s s' : EnumBus} {ev : EnumBusEvent} {as : List EnumAction}
    (h : s.KillTimer) (ht : Turn s ev s' as) : s'.KillTimer := by
  have hother : s.enum.state ≠ .killingToken → s.timers .killToken = 0 := fun hne => h.trans (if_neg hne)
  cases ht with
  | start hst =>
      have hno := hother (by rw [hst]; decide)
      exact killTimer_acts (congrArg (· + 1) hno)
  | started => exact h
  | sent => exact h
  | other => exact h
  | quiet => exact h
  | devPresent hq hrest hp hst | tokAtGw hq hrest hp hst | addrSet hq hrest hst
  | advanced hq hrest hst | gwAddrSet hq hrest hst =>
      exact killTimer_acts (hother (by rw [hst]; decide))
  | @fetchNext rest p hq hrest hsrc hst =>
      have hno : (s.enum.record p).state ≠ .killingToken := by
        rw [Enum.record, hst]
        decide
      exact killTimer_acts ((hother (by rw [hst]; decide)).trans (if_neg hno).symm)
  | classesFetched hq hrest hsrc hst =>
      refine killTimer_acts ?_
      rw [List.count_eq_zero_of_not_mem]
      · exact hother (by rw [hst]; decide)
      · intro hmem
        obtain ⟨i, -, hi⟩ := List.mem_map.mp hmem
        cases hi
  | tokenCaught hst =>
      refine killTimer_acts ?_
      show Function.update s.timers .killToken (s.timers .killToken - 1) .killToken + 0 = 0
      rw [Function.update_self, h, if_pos hst]
  | lateKill hst =>
      show Function.update s.timers .killToken (s.timers .killToken - 1) .killToken = _
      rw [Function.update_self, hother hst]
      exact (if_neg hst).symm
  | resetAgain => exact killTimer_acts h
  | busReset hn hrc hst =>
      refine killTimer_acts ?_
      show Function.update s.timers .sendReset (s.timers .sendReset - 1) .killToken + 0 = 0
      rw [Function.update_of_ne (by decide)]
      exact hother (by rw [hst]; decide)
  | lateReset =>
      show Function.update s.timers .sendReset (s.timers .sendReset - 1) .killToken = _
      rw [Function.update_of_ne (by decide)]
      exact h

/-- Enumeration does not go back to before its start. -/
theorem Turn.not_idle {s s' : EnumBus} {ev : EnumBusEvent} {as : List EnumAction}
    (h : s.enum.state ≠ .idle) (ht : Turn s ev s' as) : s'.enum.state ≠ .idle := by
  cases ht with
  | start hst => exact absurd hst h
  | started | sent | other | quiet | lateKill | lateReset => exact h
  | fetchNext | resetAgain =>
      rw [acts_enum]
      exact h
  | _ =>
      rw [acts_enum]
      simp

end EnumBus

end Sricd
