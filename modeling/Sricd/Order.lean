import Sricd.Cancel
import Sricd.Ledger

/-!
# The order of a client's frames

The frames of a client wait on the second queue and are taken off it one by
one, so that they leave the transmit side in the order in which they were
pushed. What has left, what is in flight and what is queued are together
the frames that were pushed, in this order (`Lined.run`), unless some were
cancelled (`lined_sublist`).
-/

namespace Sricd

open Sricd.Lib

/-- The entries of a client. -/
def ofClient (c : Nat) (es : List TxEntry) : List TxEntry :=
  es.filter fun e => e.frame.tag == .client c

theorem ofClient_append (c : Nat) (es fs : List TxEntry) :
    ofClient c (es ++ fs) = ofClient c es ++ ofClient c fs := List.filter_append ..

theorem ofClient_eq_nil {c : Nat} {es : List TxEntry} (h : ∀ e ∈ es, e.frame.tag ≠ .client c) :
    ofClient c es = [] := by
  apply List.filter_eq_nil_iff.mpr
  intro e he
  rw [beq_iff_eq]
  exact h e he

/-- A cancel of another tag leaves the entries of the client. -/
theorem ofClient_others {c : Nat} {tag : Tag} (h : tag ≠ .client c) (es : List TxEntry) :
    ofClient c (others tag es) = ofClient c es := by
  rw [ofClient, others, List.filter_filter]
  apply List.filter_congr
  intro e _
  by_cases he : e.frame.tag = .client c
  · simp [he, Ne.symm h]
  · simp [he]

/-- Clients push at level 1 only. -/
def IfEvent.AtLevel : IfEvent → Prop
  | .push f pri => ∀ c, f.tag = .client c → pri = 1
  | _ => True

/-- What the client pushes wants an ack. -/
def IfEvent.Wants (c : Nat) : IfEvent → Prop
  | .push f _ => f.tag = .client c → f.needsAck = true
  | _ => True

namespace SricIf

/-- The frames of a client that are not done with, oldest first. -/
def line (s : SricIf) (c : Nat) : List TxEntry := ofClient c (s.txFrame.toList ++ s.txq.q1)

/-- The frames of a client that leave in a step. -/
def leaving (c : Nat) (s : SricIf) (ev : IfEvent) : List (Fate × TxEntry) :=
  (s.settled ev).filter fun p => p.2.frame.tag == .client c

/-- The frames that a client pushes in a step. -/
def entering (c : Nat) (s : SricIf) (ev : IfEvent) : List TxEntry :=
  ofClient c (allocated s.txq.heap (s.pushes ev))

/-- The entries that leave. -/
theorem leaving_entries (c : Nat) (s : SricIf) (ev : IfEvent) :
    (s.leaving c ev).map Prod.snd = ofClient c ((s.settled ev).map Prod.snd) := by
  rw [leaving, ofClient, List.filter_map]
  rfl

/-! ## The queues -/

/-- No client's frame is on the first queue. -/
def Levelled (s : SricIf) : Prop := ∀ e ∈ s.txq.q0, ∀ c, e.frame.tag ≠ .client c

theorem levelled_init : Levelled init := fun _ h => absurd h List.not_mem_nil

/-- Nothing but frames of the daemon's own has been queued, on the first
queue. -/
structure Fronts (q q' : TxQueue) : Prop where
  q1 : q'.q1 = q.q1
  q0 : ∀ e ∈ q'.q0, e ∈ q.q0 ∨ e.frame.tag = .null ∨ e.frame.tag = .badEnum

theorem Fronts.refl (q : TxQueue) : Fronts q q := ⟨rfl, fun _ => .inl⟩

theorem Fronts.trans {q r t : TxQueue} (h : Fronts q r) (h' : Fronts r t) : Fronts q t where
  q1 := h'.q1.trans h.q1
  q0 e he := (h'.q0 e he).elim (h.q0 e) .inr

theorem Fronts.levelled {s s' : SricIf} (h : Fronts s.txq s'.txq) (hl : Levelled s) :
    Levelled s' := by
  intro e he c hc
  rcases h.q0 e he with he | htag | htag
  · exact hl e he c hc
  · cases htag.symm.trans hc
  · cases htag.symm.trans hc

theorem txqPush_txq (s : SricIf) (f : FrameT) (pri : Fin 2) :
    (s.txqPush f pri).txq = s.txq.push f pri := by
  rw [txqPush, txReady_rest]

theorem push_fronts (s : SricIf) {f : FrameT} (h : f.tag = .null ∨ f.tag = .badEnum) :
    Fronts s.txq (s.txqPush f 0).txq := by
  rw [txqPush_txq]
  refine ⟨rfl, ?_⟩
  intro e he
  rcases List.mem_append.mp he with he | he
  · exact .inl he
  · rw [List.mem_singleton.mp he]
    exact .inr h

theorem acts_fronts (s : SricIf) {as : List EnumAction} (h : Enum.Tagged as) :
    Fronts s.txq (s.acts as).1.txq := by
  induction as generalizing s with
  | nil => exact .refl _
  | cons a as ih =>
      have hrest : Enum.Tagged as := fun f hf => h f (List.mem_cons_of_mem _ hf)
      cases a with
      | push f => exact (s.push_fronts (h f List.mem_cons_self)).trans (ih _ hrest)
      | addTimer t => exact ih (s.act (.addTimer t)).1 hrest
      | deviceAdd i t => exact ih s hrest

theorem enumStep_fronts {s s' : SricIf} {r : Option (Enum × List EnumAction)} {out : List IfOut}
    (ht : ∀ e as, r = some (e, as) → Enum.Tagged as) (h : s.enumStep r = .ok (s', out)) :
    Fronts s.txq s'.txq := by
  cases r with
  | none => cases h
  | some p =>
      obtain rfl : _ = s' := congrArg Prod.fst (Except.ok.inj h)
      exact acts_fronts { s with enum := p.1 } (ht p.1 p.2 rfl)

theorem retire_fronts {s s' : SricIf} {e : TxEntry} {p : PackedFrame} {out : List IfOut}
    (hf : s.txFrame = some e) (h : s.retire e p = .ok (s', out)) : Fronts s.txq s'.txq := by
  have hacked : s.acked.txq = s.txq := by
    rw [acked, txReady_rest]
  rw [← hacked]
  rcases retire_cases hf h with ⟨-, rfl, -⟩ | ⟨-, -, rfl, -⟩ | ⟨enum, as, more, -, -, hrx, rfl, -⟩
  · exact .refl _
  · exact .refl _
  · obtain ⟨⟨enum', as'⟩, hd, heq⟩ := Option.map_eq_some_iff.mp hrx
    cases heq
    exact acts_fronts { s.acked with enum := enum } (Enum.dispatch_tagged hd)

theorem txTimeout_txq (s : SricIf) : s.txTimeout.1.txq = s.txq := by
  rw [txTimeout]
  by_cases hc : s.frameCancelled = true
  · rw [if_pos hc]
    dsimp only
    rw [txReady_rest]
    rfl
  · rw [if_neg hc]
    dsimp only
    rw [txReady_rest]

/-- The callbacks other than `if_tx` queue frames of the daemon's own
only. -/
theorem step_fronts {s s' : SricIf} {ev : IfEvent} {out : List IfOut}
    (hs : s.step ev = .ok (s', out)) (hpush : ∀ f pri, ev ≠ .push f pri)
    (hcancel : ∀ tag, ev ≠ .cancel tag) (htx : ∀ id w, ev ≠ .ifTx id w) :
    Fronts s.txq s'.txq := by
  have hh := (step_handle hs).2
  cases ev with
  | enumStart => exact enumStep_fronts (fun _ _ => Enum.fsm_tagged) hh
  | push f pri => exact absurd rfl (hpush f pri)
  | cancel tag => exact absurd rfl (hcancel tag)
  | ifTx id w => exact absurd rfl (htx id w)
  | txTimeout id =>
      obtain rfl : _ = s' := congrArg Prod.fst (Except.ok.inj hh)
      show Fronts s.txq s.txTimeout.1.txq
      rw [txTimeout_txq]
      exact .refl _
  | killToken id =>
      obtain ⟨t, ht, rfl⟩ := killToken_cases hh
      have hfronts : Fronts s.txq t.txq := enumStep_fronts (fun _ _ => Enum.fsm_tagged) ht
      exact hfronts
  | sendReset id =>
      obtain ⟨t, enum, as, again, hr, ht, rfl⟩ := sendReset_cases hh
      have htag : ∀ e as', some (enum, as) = some (e, as') → Enum.Tagged as' := by
        intro e as' h
        cases h
        exact Enum.sendReset_tagged hr
      have hfronts := enumStep_fronts htag ht
      cases again with
      | true => exact hfronts
      | false => exact hfronts
  | frame bytes =>
      rcases procRxFrame_cases hh with ⟨rfl, -⟩ | ⟨-, rfl, -⟩ | ⟨e, hf, -, hret⟩
      · exact .refl _
      · exact s.push_fronts (.inl rfl)
      · exact retire_fronts hf hret

/-! ## One step -/

/-- What leaves and what stays is what was there and what is new, in
order, for every client but the one whose frames are cancelled. -/
structure Passes (s s' : SricIf) (ev : IfEvent) : Prop where
  levelled : Levelled s'
  kept : ∀ c, ev ≠ .cancel (.client c) →
    (s.leaving c ev).map Prod.snd ++ s'.line c = s.line c ++ s.entering c ev
  cancelled : ∀ c, ev = .cancel (.client c) → (s'.line c).Sublist (s.line c)

theorem line_eq {s s' : SricIf} (hf : s'.txFrame = s.txFrame) (hq : s'.txq.q1 = s.txq.q1) (c : Nat) :
    s'.line c = s.line c := by
  rw [line, line, hf, hq]

/-- What is new where no client pushes. -/
theorem entering_nil {s : SricIf} {ev : IfEvent} (h : ∀ f pri, ev ≠ .push f pri) (c : Nat) :
    s.entering c ev = [] := by
  apply ofClient_eq_nil
  intro e he htag
  rcases pushes_tag (mem_allocated he) with ⟨pri, hev⟩ | hnull | hbad
  · exact h _ pri hev
  · cases hnull.symm.trans htag
  · cases hbad.symm.trans htag

theorem passes_push (s : SricIf) {f : FrameT} {pri : Fin 2} (hl : Levelled s)
    (hev : (IfEvent.push f pri).AtLevel) : Passes s (s.txqPush f pri) (.push f pri) := by
  have htxq := s.txqPush_txq f pri
  have hflight : (s.txqPush f pri).txFrame = s.txFrame := (s.txqPush_pushed f pri).txFrame
  have hentering : ∀ c, s.entering c (.push f pri) = ofClient c [s.txq.alloc f] := fun _ => rfl
  refine ⟨?_, ?_, fun c h => by cases h⟩
  · intro e he c hc
    rw [htxq] at he
    match pri with
    | 0 =>
        rcases List.mem_append.mp he with he | he
        · exact hl e he c hc
        · rw [List.mem_singleton.mp he] at hc
          cases hev c hc
    | 1 => exact hl e he c hc
  · intro c _
    rw [show s.leaving c (.push f pri) = [] from rfl, hentering, line, line, htxq, hflight]
    match pri with
    | 0 =>
        have hnew : ofClient c [s.txq.alloc f] = [] := by
          apply ofClient_eq_nil
          intro e he htag
          rw [List.mem_singleton.mp he] at htag
          cases hev c htag
        rw [hnew, List.append_nil]
        rfl
    | 1 =>
        rw [← ofClient_append, List.append_assoc]
        rfl

/-- A call of `if_tx` that takes nothing off the queue. -/
theorem idle_txq {s s' : SricIf} {id : Nat} {w : Option Nat} {out : List IfOut} (hi : TxInv s)
    (hs : s.step (.ifTx id w) = .ok (s', out)) (ht : s.taken (.ifTx id w) = []) :
    s'.txq = s.txq := by
  rcases (write_cases hi hs).2 with ⟨-, -, hq⟩ | ⟨e, ⟨-, hq⟩ | ⟨hf, hn⟩, -⟩
  · exact hq
  · exact hq
  · rw [taken, sending, hf] at ht
    simp [hn] at ht

/-- The frame that is sent is the first of its client's. -/
theorem line_sending {s t : SricIf} {e : TxEntry} (h : Sending s t e) (hl : Levelled s) :
    Levelled t ∧ ∀ c, s.line c = ofClient c (e :: t.txq.q1) := by
  rcases h.origin with rfl | ⟨hf, -, -, hn⟩
  · refine ⟨hl, ?_⟩
    intro c
    rw [line, h.txFrame]
    rfl
  · rcases (TxQueue.next_some hn).2 with ⟨hq0, hq1⟩ | ⟨-, hq0', -, hq1⟩
    · -- a frame of the daemon's own
      rw [Levelled, hq0] at hl
      refine ⟨fun x hx => hl x (List.mem_cons_of_mem _ hx), ?_⟩
      intro c
      have hnone : ofClient c [e] = [] := by
        apply ofClient_eq_nil
        intro x hx
        rw [List.mem_singleton.mp hx]
        exact hl e List.mem_cons_self c
      rw [line, hf, hq1, Option.toList_none, List.nil_append, ← List.singleton_append,
        ofClient_append, hnone, List.nil_append]
    · constructor
      · rw [Levelled, hq0']
        exact fun _ hx => absurd hx List.not_mem_nil
      · intro c
        rw [line, hf, hq1]
        rfl

/-- **One step** of the transmit side. -/
theorem step_passes {s s' : SricIf} {ev : IfEvent} {out : List IfOut} (hi : TxInv s)
    (hl : Levelled s) (hev : ev.AtLevel) (hs : s.step ev = .ok (s', out)) : Passes s s' ev := by
  by_cases hpush : ∃ f pri, ev = .push f pri
  · obtain ⟨f, pri, rfl⟩ := hpush
    cases (step_handle hs).2
    exact passes_push s hl hev
  have hpush' : ∀ f pri, ev ≠ .push f pri := fun f pri h => hpush ⟨f, pri, h⟩
  have hnew := s.entering_nil hpush'
  cases step_effect hi hs with
  | pushed hsame hf hq hfate htaken hquiet hcancel =>
      have hfronts : Fronts s.txq s'.txq := by
        by_cases htx : ∃ id w, ev = .ifTx id w
        · obtain ⟨id, w, rfl⟩ := htx
          rw [idle_txq hi hs htaken]
          exact .refl _
        · exact step_fronts hs hpush' hcancel fun id w h => htx ⟨id, w, h⟩
      refine ⟨hfronts.levelled hl, ?_, fun c h => absurd h (hcancel _)⟩
      intro c _
      rw [leaving_entries, hfate, hnew, List.append_nil, line_eq hf hfronts.q1]
      rfl
  | cancelled tag hev hs' hc hquiet =>
      subst hev
      have hflight : s'.txFrame = s.txFrame := by
        rw [hs']
      have hq0 : s'.txq.q0 = others tag s.txq.q0 := by
        rw [hs', TxQueue.cancel_q0]
      have hq1 : s'.txq.q1 = others tag s.txq.q1 := by
        rw [hs', TxQueue.cancel_q1]
      refine ⟨?_, ?_, ?_⟩
      · intro e he
        rw [hq0] at he
        exact hl e (List.mem_filter.mp he).1
      · intro c hc
        have htag : tag ≠ .client c := fun h => hc (congrArg IfEvent.cancel h)
        have hnone : s.leaving c (.cancel tag) = [] := by
          apply List.filter_eq_nil_iff.mpr
          intro p hp
          obtain ⟨e, he, rfl⟩ := List.mem_map.mp hp
          have := beq_iff_eq.mp (List.mem_filter.mp he).2
          rw [this, beq_iff_eq]
          exact htag
        rw [hnone, hnew, List.append_nil, line, line, hflight, hq1, ofClient_append,
          ofClient_append, ofClient_others htag]
        rfl
      · intro c _
        rw [line, line, hflight, hq1]
        exact (List.filter_sublist.append_left _).filter _
  | wrote id w t e n hev ht hn hsame hq hout hcase =>
      obtain ⟨hlt, hline⟩ := line_sending ht hl
      refine ⟨?_, ?_, fun c h => by cases hev.symm.trans h⟩
      · rw [Levelled, hq]
        exact hlt
      · intro c _
        rw [leaving_entries, hnew, List.append_nil, hline, line, hq]
        rcases hcase with ⟨hf, hfate⟩ | ⟨hf, -, hfate⟩
        · rw [hfate, hf]
          rfl
        · rw [hfate, hf, ← ofClient_append]
          rfl
  | timedOut id hev hc htxbuf htxlen htxpos hq hf hquiet =>
      subst hev
      refine ⟨?_, ?_, fun c h => by cases h⟩
      · rw [Levelled, hq]
        exact hl
      · intro c _
        rw [leaving_entries, hnew, List.append_nil, line, line, hf, hq, settled]
        cases s.frameCancelled with
        | false => rfl
        | true =>
            have hmap : (s.txFrame.toList.map (Fate.cancelled, ·)).map Prod.snd
                = s.txFrame.toList := by
              rw [List.map_map]
              exact List.map_id _
            rw [if_pos rfl, if_pos rfl, hmap, ← ofClient_append]
            rfl
  | acked e hacks hf hf' hsame hq hfate hresp hline =>
      obtain ⟨bytes, rfl, -⟩ := hacks
      have hfronts : Fronts s.txq s'.txq :=
        step_fronts hs hpush' (fun tag h => by cases h) fun id w h => by cases h
      refine ⟨hfronts.levelled hl, ?_, fun c h => by cases h⟩
      intro c _
      rw [leaving_entries, hnew, List.append_nil, line, line, hf, hf', hfate, hfronts.q1,
        ← ofClient_append]
      rfl

/-! ## Which of them are answered -/

/-- The frames of a client that are acked in a step. -/
def answered (c : Nat) (s : SricIf) (ev : IfEvent) : List TxEntry :=
  ((s.leaving c ev).filter fun p => p.1 == .acked).map Prod.snd

theorem answered_cancel (c : Nat) (s : SricIf) (tag : Tag) : s.answered c (.cancel tag) = [] := by
  apply List.map_eq_nil_iff.mpr
  apply List.filter_eq_nil_iff.mpr
  intro p hp
  obtain ⟨e, -, rfl⟩ := List.mem_map.mp (List.mem_filter.mp hp).1
  exact Bool.false_ne_true

theorem Passes.sublist {s s' : SricIf} {ev : IfEvent} (h : Passes s s' ev) (c : Nat) :
    (s.answered c ev ++ s'.line c).Sublist (s.line c ++ s.entering c ev) := by
  by_cases hc : ev = .cancel (.client c)
  · rw [hc, answered_cancel, ← hc, List.nil_append]
    exact (h.cancelled c hc).trans (List.sublist_append_left _ _)
  · rw [← h.kept c hc]
    exact (List.filter_sublist.map _).append_right _

/-- The frame in flight is not one of the client's that is cancelled. -/
def Uncancelled (c : Nat) (s : SricIf) : Prop :=
  ∀ e, s.txFrame = some e → e.frame.tag = .client c → s.frameCancelled = false

/-- The client's frames want acks. -/
def Asks (c : Nat) (s : SricIf) : Prop :=
  ∀ e ∈ s.held, e.frame.tag = .client c → e.frame.needsAck = true

theorem uncancelled_init (c : Nat) : Uncancelled c init := fun _ h => by cases h

theorem asks_init (c : Nat) : Asks c init := fun _ h => absurd h List.not_mem_nil

theorem Asks.step {c : Nat} {s s' : SricIf} {ev : IfEvent} {out : List IfOut}
    (h : Asks c s) (hev : ev.Wants c) (he : Effect s ev s' out) : Asks c s' := by
  intro e hheld htag
  rcases mem_held_effect he hheld with hheld | hpush
  · exact h e hheld htag
  · rcases pushes_tag hpush with ⟨pri, rfl⟩ | hnull | hbad
    · exact hev htag
    · cases hnull.symm.trans htag
    · cases hbad.symm.trans htag

theorem Uncancelled.step {c : Nat} {s s' : SricIf} {ev : IfEvent} {out : List IfOut}
    (h : Uncancelled c s) (hev : ev ≠ .cancel (.client c)) (he : Effect s ev s' out) :
    Uncancelled c s' := by
  intro e hf htag
  by_cases hsame : s.txFrame = some e
  · have hiff := cancelled_effect hsame hf he
    rw [h e hsame htag, htag] at hiff
    rw [← Bool.not_eq_true, hiff]
    simpa using hev
  · exact taken_not_cancelled hsame hf he

/-- What is done with once it is sent wants no ack. -/
theorem settled_sent {s : SricIf} {id : Nat} {w : Option Nat} {e : TxEntry}
    (h : s.settled (.ifTx id w) = [(.sent, e)]) : e.frame.needsAck = false := by
  rw [settled] at h
  split at h
  · split at h
    · rename_i hc
      cases h
      exact hc.2.2
    · cases h
  · cases h

/-- What leaves of a client without a cancel is acked. -/
theorem leaving_acked {c : Nat} {s s' : SricIf} {ev : IfEvent} {out : List IfOut}
    (h : Uncancelled c s) (ha : Asks c s) (hev : ev ≠ .cancel (.client c))
    (he : Effect s ev s' out) : s.answered c ev = (s.leaving c ev).map Prod.snd := by
  rw [answered, List.filter_eq_self.mpr]
  intro p hp
  obtain ⟨hp, htag⟩ := List.mem_filter.mp hp
  have htag := beq_iff_eq.mp htag
  cases he with
  | pushed _ _ _ hfate =>
      rw [hfate] at hp
      cases hp
  | cancelled tag hcancel =>
      subst hcancel
      obtain ⟨e, he, rfl⟩ := List.mem_map.mp hp
      have := beq_iff_eq.mp (List.mem_filter.mp he).2
      exact absurd (congrArg IfEvent.cancel (this.symm.trans htag)) hev
  | wrote id w t e n hwrite ht hn hsame hq hout hcase =>
      rcases hcase with ⟨-, hfate⟩ | ⟨-, -, hfate⟩
      · rw [hfate] at hp
        cases hp
      · -- a frame that was sent and wants no ack
        have hheld : e ∈ s.held := by
          rw [held_sending ht]
          exact List.mem_cons_self
        subst hwrite
        have hneeds := settled_sent hfate
        rw [hfate] at hp
        obtain rfl := List.mem_singleton.mp hp
        rw [ha e hheld htag] at hneeds
        cases hneeds
  | timedOut id hout =>
      subst hout
      rw [settled] at hp
      split at hp
      · rename_i hc
        obtain ⟨e, he, rfl⟩ := List.mem_map.mp hp
        rw [h e (Option.mem_toList.mp he) htag] at hc
        cases hc
      · cases hp
  | acked e _ hf _ _ _ hfate =>
      rw [hfate] at hp
      obtain rfl := List.mem_singleton.mp hp
      rw [h e hf htag]
      rfl

/-! ## Runs -/

section
variable {s t : SricIf} {evs : List IfEvent} {out : List IfOut}

/-- **The frames of a client keep their order**: those that were answered,
and then those that are not done with, are among those that were there and
those that were pushed, in this order. -/
theorem lined_sublist (hi : TxInv s) (hl : Levelled s) (hev : ∀ ev ∈ evs, ev.AtLevel) (c : Nat)
    (hr : run step s evs = .ok (t, out)) :
    (history step (answered c) s evs ++ t.line c).Sublist
      (s.line c ++ history step (entering c) s evs) := by
  induction evs generalizing s out with
  | nil =>
      cases hr
      rw [history, history, List.append_nil]
      exact .refl _
  | cons ev evs ih =>
      obtain ⟨u, o, os, hs, hr', -⟩ := run_cons_ok.mp hr
      have hpass := step_passes hi hl (hev ev List.mem_cons_self) hs
      have hrest := ih (hi.step hs) hpass.levelled
        (fun e he => hev e (List.mem_cons_of_mem _ he)) hr'
      rw [history, history, hs, List.append_assoc, ← List.append_assoc (s.line c)]
      have hthrough := hrest.append_left (s.answered c ev)
      rw [← List.append_assoc (s.answered c ev) (u.line c)] at hthrough
      exact hthrough.trans ((hpass.sublist c).append_right _)

/-- **None is lost**: without a cancel they are all of them. -/
theorem lined_eq (hi : TxInv s) (hl : Levelled s) {c : Nat} (hu : Uncancelled c s) (ha : Asks c s)
    (hev : ∀ ev ∈ evs, ev.AtLevel ∧ ev.Wants c ∧ ev ≠ .cancel (.client c))
    (hr : run step s evs = .ok (t, out)) :
    history step (answered c) s evs ++ t.line c
      = s.line c ++ history step (entering c) s evs := by
  induction evs generalizing s out with
  | nil =>
      cases hr
      rw [history, history, List.append_nil]
      rfl
  | cons ev evs ih =>
      obtain ⟨u, o, os, hs, hr', -⟩ := run_cons_ok.mp hr
      obtain ⟨hlevel, hwants, hcancel⟩ := hev ev List.mem_cons_self
      have heffect := step_effect hi hs
      have hpass := step_passes hi hl hlevel hs
      have hrest := ih (hi.step hs) hpass.levelled (hu.step hcancel heffect) (ha.step hwants heffect)
        (fun e he => hev e (List.mem_cons_of_mem _ he)) hr'
      rw [history, history, hs, List.append_assoc, hrest, leaving_acked hu ha hcancel heffect,
        ← List.append_assoc, hpass.kept c hcancel, List.append_assoc]

end

end SricIf

end Sricd
