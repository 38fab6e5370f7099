import Sricd.Callbacks

/-!
# What a step does to the frames

Every event of the serial interface, as what it does to the queue, the
frame in flight and the serial port: frames are pushed, a tag is
cancelled, the frame in flight is written, its timeout fires, or it is
acked (`step_effect`).
-/

namespace Sricd

open Sricd.Lib

namespace EnumAction

/-- The frame of a push. -/
def frame : EnumAction → Option FrameT
  | .push f => some f
  | _ => none

end EnumAction

/-- The entries that are allocated for frames pushed one after the other. -/
def allocated (heap : Nat) : List FrameT → List TxEntry
  | [] => []
  | f :: fs => ⟨heap, f⟩ :: allocated (heap + 1) fs

theorem allocated_append (heap : Nat) (fs gs : List FrameT) :
    allocated heap (fs ++ gs) = allocated heap fs ++ allocated (heap + fs.length) gs := by
  induction fs generalizing heap with
  | nil => rfl
  | cons f fs ih =>
      have hheap : heap + 1 + fs.length = heap + (f :: fs).length := by
        rw [List.length_cons]
        omega
      rw [List.cons_append, allocated, ih, hheap]
      rfl

theorem allocated_frames (heap : Nat) (fs : List FrameT) :
    (allocated heap fs).map TxEntry.frame = fs := by
  induction fs generalizing heap with
  | nil => rfl
  | cons f fs ih => rw [allocated, List.map_cons, ih]

theorem mem_allocated {heap : Nat} {fs : List FrameT} {e : TxEntry} (h : e ∈ allocated heap fs) :
    e.frame ∈ fs := by
  have := List.mem_map_of_mem (f := TxEntry.frame) h
  rwa [allocated_frames] at this

theorem allocated_ptrs (heap : Nat) (fs : List FrameT) :
    (allocated heap fs).map TxEntry.ptr = List.range' heap fs.length := by
  induction fs generalizing heap with
  | nil => rfl
  | cons f fs ih =>
      rw [allocated, List.map_cons, ih]
      rfl

/-- The tag of a `client_push_rx`. -/
def IfOut.response : IfOut → Option Tag
  | .pushRx tag _ => some tag
  | _ => none

/-- The tags of the calls of `client_push_rx`, in order. -/
def responses (os : List IfOut) : List Tag := os.filterMap IfOut.response

/-- What is written to the serial port. -/
def IfOut.line : IfOut → List Byte
  | .wrote bytes => bytes
  | _ => []

def lineBytes (os : List IfOut) : List Byte := os.flatMap IfOut.line

namespace SricIf

/-- The frames that the enumeration asks for. -/
def requested (r : Option (Enum × List EnumAction)) : List FrameT :=
  match r with
  | some (_, as) => as.filterMap EnumAction.frame
  | none => []

/-- The frames that are pushed in a step, in order. -/
def pushes (s : SricIf) : IfEvent → List FrameT
  | .enumStart => requested s.enum.start
  | .push f _ => [f]
  | .killToken _ => requested s.enum.killTokenTimeout
  | .sendReset _ => requested (s.enum.sendResetTimeout.map fun (enum, as, _) => (enum, as))
  | .frame bytes =>
      let f := PackedFrame.ofBytes bytes
      if f.forMe = false then []
      else if f.isAck = false then [ackFor f]
      else if s.txFrame.isSome ∧ s.frameCancelled = false ∧ s.enumerated = false then
        requested (s.enum.dispatch f)
      else []
  | _ => []

/-- A request of the enumeration has no client's tag. -/
theorem requested_tag {r : Option (Enum × List EnumAction)}
    (h : ∀ enum as, r = some (enum, as) → Enum.Tagged as) {f : FrameT} (hf : f ∈ requested r) :
    f.tag = .null ∨ f.tag = .badEnum := by
  cases r with
  | none => cases hf
  | some p =>
      obtain ⟨a, ha, hfa⟩ := List.mem_filterMap.mp hf
      cases a with
      | push g =>
          cases hfa
          exact h p.1 p.2 rfl f ha
      | addTimer t => cases hfa
      | deviceAdd i t => cases hfa

/-- **Only a client's request pushes a frame of a client.** -/
theorem pushes_tag {s : SricIf} {ev : IfEvent} {f : FrameT} (hf : f ∈ s.pushes ev) :
    (∃ pri, ev = .push f pri) ∨ f.tag = .null ∨ f.tag = .badEnum := by
  cases ev with
  | enumStart => exact .inr (requested_tag (fun _ _ => Enum.fsm_tagged) hf)
  | push g pri =>
      cases List.mem_singleton.mp hf
      exact .inl ⟨pri, rfl⟩
  | killToken id => exact .inr (requested_tag (fun _ _ => Enum.fsm_tagged) hf)
  | sendReset id =>
      refine .inr (requested_tag ?_ hf)
      intro enum as h
      obtain ⟨⟨enum', as', again⟩, hr, heq⟩ := Option.map_eq_some_iff.mp h
      cases heq
      exact Enum.sendReset_tagged hr
  | frame bytes =>
      rw [pushes] at hf
      split at hf
      · cases hf
      split at hf
      · rw [List.mem_singleton.mp hf]
        exact .inr (.inl rfl)
      split at hf
      · exact .inr (requested_tag (fun _ _ => Enum.dispatch_tagged) hf)
      · cases hf
  | cancel tag => cases hf
  | ifTx id w => cases hf
  | txTimeout id => cases hf

/-- The frames that are taken off the queue in a step. -/
def taken (s : SricIf) : IfEvent → List TxEntry
  | .ifTx _ _ => if s.txFrame.isSome then [] else s.sending.toList
  | _ => []

/-- How a frame leaves the transmit side: it is sent and wants no ack, it
is acked, or its tag is cancelled. -/
inductive Fate where
  | sent
  | acked
  | cancelled
deriving DecidableEq, Repr

/-- The frames that leave in a step. -/
def settled (s : SricIf) : IfEvent → List (Fate × TxEntry)
  | .cancel tag => (s.txq.entries.filter fun e => e.frame.tag == tag).map (Fate.cancelled, ·)
  | .ifTx id w =>
      match s.step (.ifTx id w), s.sending with
      | .ok (s', _), some e =>
          -- the last byte has been written
          if ¬s.Written ∧ s'.txpos = s'.txlen ∧ e.frame.needsAck = false then [(.sent, e)] else []
      | _, _ => []
  | .txTimeout _ => if s.frameCancelled then s.txFrame.toList.map (Fate.cancelled, ·) else []
  | .frame bytes =>
      let f := PackedFrame.ofBytes bytes
      if f.forMe = true ∧ f.isAck = true then
        s.txFrame.toList.map (if s.frameCancelled then Fate.cancelled else Fate.acked, ·)
      else []
  | _ => []

/-- An ack for us. -/
def Acks (ev : IfEvent) : Prop :=
  ∃ bytes, ev = .frame bytes ∧ (PackedFrame.ofBytes bytes).forMe = true
    ∧ (PackedFrame.ofBytes bytes).isAck = true

/-- The frame in flight and the buffer that it is written from. -/
structure Same (s s' : SricIf) : Prop where
  frameCancelled : s'.frameCancelled = s.frameCancelled
  txbuf : s'.txbuf = s.txbuf
  txlen : s'.txlen = s.txlen
  txpos : s'.txpos = s.txpos

/-- The frames `fs` are queued behind the others. -/
structure Queued (s s' : SricIf) (fs : List FrameT) : Prop where
  heap : s'.txq.heap = s.txq.heap + fs.length
  entries : s'.txq.entries.Perm (s.txq.entries ++ allocated s.txq.heap fs)

/-- Nothing of what is sent or received leaves the module. -/
def Quiet (out : List IfOut) : Prop := responses out = [] ∧ lineBytes out = []

/-- **What a step does**, one case for each kind of change. -/
inductive Effect (s : SricIf) (ev : IfEvent) (s' : SricIf) (out : List IfOut) : Prop where
  /-- frames are pushed, or nothing happens -/
  | pushed : Same s s' → s'.txFrame = s.txFrame → Queued s s' (s.pushes ev) →
      s.settled ev = [] → s.taken ev = [] → Quiet out → (∀ tag, ev ≠ .cancel tag) →
      Effect s ev s' out
  | cancelled (tag : Tag) : ev = .cancel tag →
      s' = { s with txq := (s.txq.cancel tag).1, frameCancelled := s'.frameCancelled } →
      (s'.frameCancelled = true ↔
        s.frameCancelled = true ∨ ∃ e, s.txFrame = some e ∧ e.frame.tag = tag) →
      Quiet out → Effect s ev s' out
  /-- `n` bytes of the frame in flight are written -/
  | wrote (id : Nat) (w : Option Nat) (t : SricIf) (e : TxEntry) (n : Nat) :
      ev = .ifTx id w → Sending s t e → n ≤ t.txlen - t.txpos →
      Same { t with txpos := t.txpos + n } s' → s'.txq = t.txq →
      out = [.wrote ((t.txbuf.drop t.txpos).take n)] →
      (s'.txFrame = some e ∧ s.settled ev = [])
        ∨ (s'.txFrame = none ∧ t.txpos + n = t.txlen ∧ s.settled ev = [(.sent, e)]) →
      Effect s ev s' out
  /-- the timeout of the frame in flight, which may be cancelled -/
  | timedOut (id : Nat) : ev = .txTimeout id → s'.frameCancelled = s.frameCancelled →
      s'.txbuf = s.txbuf → s'.txlen = s.txlen → s'.txpos = 0 → s'.txq = s.txq →
      s'.txFrame = (if s.frameCancelled then none else s.txFrame) → Quiet out →
      Effect s ev s' out
  | acked (e : TxEntry) : Acks ev → s.txFrame = some e → s'.txFrame = none → Same s s' →
      Queued s s' (s.pushes ev) →
      s.settled ev = [(if s.frameCancelled then .cancelled else .acked, e)] →
      responses out = (if s.frameCancelled = false ∧ s.enumerated = true then [e.frame.tag]
        else []) → lineBytes out = [] → Effect s ev s' out

/-- Only `if_tx` brings another frame into flight. -/
theorem Effect.txFrame {s s' : SricIf} {ev : IfEvent} {out : List IfOut} (h : Effect s ev s' out)
    (hev : ∀ id w, ev ≠ .ifTx id w) : s'.txFrame = s.txFrame ∨ s'.txFrame = none := by
  cases h with
  | pushed _ hf => exact .inl hf
  | cancelled _ _ hs' =>
      left
      rw [hs']
  | wrote id w _ _ _ hwrite => exact absurd hwrite (hev id w)
  | timedOut _ _ _ _ _ _ _ hf =>
      rw [hf]
      split
      · exact .inr rfl
      · exact .inl rfl
  | acked _ _ _ hf => exact .inr hf

/-! ## Pushes -/

theorem entries_push (q : TxQueue) (f : FrameT) (pri : Fin 2) :
    (q.push f pri).entries.Perm (q.entries ++ allocated q.heap [f]) := by
  match pri with
  | 0 =>
      show (Queue.pushHead q.q0 (q.alloc f) ++ q.q1).Perm (q.q0 ++ q.q1 ++ [q.alloc f])
      rw [Queue.pushHead, List.append_assoc, List.append_assoc]
      exact List.perm_append_comm.append_left q.q0
  | 1 =>
      show (q.q0 ++ Queue.pushHead q.q1 (q.alloc f)).Perm (q.q0 ++ q.q1 ++ [q.alloc f])
      rw [Queue.pushHead, List.append_assoc]

theorem Same.refl (s : SricIf) : Same s s := ⟨rfl, rfl, rfl, rfl⟩

theorem Same.trans {s t u : SricIf} (h : Same s t) (h' : Same t u) : Same s u :=
  ⟨h'.frameCancelled.trans h.frameCancelled, h'.txbuf.trans h.txbuf, h'.txlen.trans h.txlen,
    h'.txpos.trans h.txpos⟩

theorem Queued.nil (s : SricIf) : Queued s s [] where
  heap := rfl
  entries := by rw [allocated, List.append_nil]

theorem Queued.trans {s t u : SricIf} {fs gs : List FrameT} (h : Queued s t fs)
    (h' : Queued t u gs) : Queued s u (fs ++ gs) where
  heap := by rw [h'.heap, h.heap, List.length_append, Nat.add_assoc]
  entries := by
    have := h'.entries.trans (h.entries.append_right _)
    rwa [h.heap, List.append_assoc, ← allocated_append] at this

/-- The state behind some pushes. -/
structure Pushed (s s' : SricIf) (fs : List FrameT) : Prop where
  same : Same s s'
  txFrame : s'.txFrame = s.txFrame
  queued : Queued s s' fs

theorem Pushed.nil (s : SricIf) : Pushed s s [] := ⟨.refl s, rfl, .nil s⟩

/-- A step that touches none of this. -/
theorem Pushed.of_eq {s s' : SricIf} (h : Same s s') (hf : s'.txFrame = s.txFrame)
    (hq : s'.txq = s.txq) : Pushed s s' [] := by
  refine ⟨h, hf, congrArg TxQueue.heap hq, ?_⟩
  rw [hq]
  exact (Queued.nil s).entries

theorem Pushed.trans {s t u : SricIf} {fs gs : List FrameT} (h : Pushed s t fs)
    (h' : Pushed t u gs) : Pushed s u (fs ++ gs) :=
  ⟨h.same.trans h'.same, h'.txFrame.trans h.txFrame, h.queued.trans h'.queued⟩

theorem txqPush_pushed (s : SricIf) (f : FrameT) (pri : Fin 2) :
    Pushed s (s.txqPush f pri) [f] := by
  rw [txqPush, txReady_rest]
  exact ⟨⟨rfl, rfl, rfl, rfl⟩, rfl, TxQueue.push_heap .., entries_push ..⟩

theorem acts_pushed (s : SricIf) (as : List EnumAction) :
    Pushed s (s.acts as).1 (as.filterMap EnumAction.frame) := by
  induction as generalizing s with
  | nil => exact .nil s
  | cons a as ih =>
      cases a with
      | push f => exact (s.txqPush_pushed f 0).trans (ih _)
      | addTimer t =>
          have hact : Pushed s (s.act (.addTimer t)).1 [] := .of_eq ⟨rfl, rfl, rfl, rfl⟩ rfl rfl
          exact hact.trans (ih _)
      | deviceAdd i t => exact ih s

theorem Quiet.append {out out' : List IfOut} (h : Quiet out) (h' : Quiet out') :
    Quiet (out ++ out') := by
  constructor
  · rw [responses, List.filterMap_append]
    exact List.append_eq_nil_iff.mpr ⟨h.1, h'.1⟩
  · rw [lineBytes, List.flatMap_append]
    exact List.append_eq_nil_iff.mpr ⟨h.2, h'.2⟩

theorem quiet_listen (more : Bool) : Quiet (if more then [] else [.listen]) := by
  cases more <;> exact ⟨rfl, rfl⟩

theorem quiet_of_deviceAdd {out : List IfOut} (h : ∀ o ∈ out, ∃ i t, o = .deviceAdd i t) :
    Quiet out := by
  constructor
  · apply List.filterMap_eq_nil_iff.mpr
    intro o ho
    obtain ⟨i, t, rfl⟩ := h o ho
    rfl
  · apply List.flatMap_eq_nil_iff.mpr
    intro o ho
    obtain ⟨i, t, rfl⟩ := h o ho
    rfl

theorem enumStep_pushed {s s' : SricIf} {r : Option (Enum × List EnumAction)} {out : List IfOut}
    (h : s.enumStep r = .ok (s', out)) : Pushed s s' (requested r) ∧ Quiet out := by
  cases r with
  | none => cases h
  | some p =>
      obtain rfl : _ = s' := congrArg Prod.fst (Except.ok.inj h)
      have hp := acts_pushed { s with enum := p.1 } p.2
      exact ⟨⟨⟨hp.same.1, hp.same.2, hp.same.3, hp.same.4⟩, hp.txFrame, hp.queued.1, hp.queued.2⟩,
        quiet_of_deviceAdd fun o ho => enumStep_out h ho⟩

theorem Pushed.effect {s s' : SricIf} {ev : IfEvent} {out : List IfOut}
    (h : Pushed s s' (s.pushes ev)) (hs : s.settled ev = []) (ht : s.taken ev = [])
    (hq : Quiet out) (hc : ∀ tag, ev ≠ .cancel tag) : Effect s ev s' out :=
  .pushed h.same h.txFrame h.queued hs ht hq hc

/-! ## The callbacks -/

theorem ifTx_effect {s s' : SricIf} {id : Nat} {w : Option Nat} {out : List IfOut} (h : TxInv s)
    (hs : s.step (.ifTx id w) = .ok (s', out)) : Effect s (.ifTx id w) s' out := by
  have hh := (step_handle hs).2
  simp only [handle] at hh
  split at hh
  · cases hh
  rename_i x out' keep hx
  cases hh
  rcases ifTx_cases h.toTxCore hx with ⟨hb, rfl, rfl, rfl⟩ | ⟨t, e, n, ht, hn, hw, rfl⟩
  · -- nothing to write
    have hnone : s.txFrame = none → s.sending = none := by
      intro hf
      rw [sending, hf]
      have : s.readable = [] := by
        by_contra hr
        exact hb (.inr ⟨hf, hr⟩)
      show (s.txq.next (if s.enumerated then 1 else 0)).map Prod.fst = none
      rw [TxQueue.next_none.mpr this]
      rfl
    have hp : Pushed s (({ s with writeSrcid := 0 } : SricIf).drop id) [] :=
      .of_eq ⟨rfl, rfl, rfl, rfl⟩ rfl rfl
    refine hp.effect ?_ ?_ ⟨rfl, rfl⟩ fun tag => by simp
    · rw [settled, hs]
      cases hf : s.txFrame with
      | none =>
          rw [hnone hf]
      | some e =>
          have hsend : s.sending = some e := by rw [sending, hf]
          rw [hsend]
          refine if_neg fun hc => hc.1 ⟨by rw [hf]; rfl, ?_⟩
          exact hc.2.1
    · rw [taken]
      cases hf : s.txFrame with
      | none =>
          rw [hnone hf]
          rfl
      | some e => rfl
  · have hsend := ht.from.sending
    have hfate : s.settled (.ifTx id w) = if ¬s.Written ∧ (if keep then x else x.drop id).txpos
        = (if keep then x else x.drop id).txlen ∧ e.frame.needsAck = false then [(.sent, e)]
        else [] := by
      rw [settled, hs, hsend]
    have hunwritten := ht.unwritten'
    rcases written_cases ht.txFrame ht.unwritten hn with ⟨hlt, hwr⟩ | ⟨hl, hack, hwr⟩ | ⟨hl, hack, hwr⟩
    · cases hw.symm.trans hwr
      refine .wrote id w t e n rfl ht hn ⟨rfl, rfl, rfl, rfl⟩ rfl rfl (.inl ⟨ht.txFrame, ?_⟩)
      rw [hfate]
      exact if_neg fun hc => Nat.ne_of_lt hlt hc.2.1
    · cases hw.symm.trans hwr
      refine .wrote id w t e n rfl ht hn ⟨rfl, rfl, rfl, hl.symm⟩ rfl rfl (.inl ⟨ht.txFrame, ?_⟩)
      rw [hfate]
      apply if_neg
      intro hc
      rw [hack] at hc
      exact absurd hc.2.2 (by simp)
    · cases hw.symm.trans hwr
      refine .wrote id w t e n rfl ht hn ⟨rfl, rfl, rfl, hl.symm⟩ rfl rfl (.inr ⟨rfl, hl, ?_⟩)
      rw [hfate]
      exact if_pos ⟨hunwritten, rfl, hack⟩

theorem acked_pushed (s : SricIf) : Pushed { s with txFrame := none } s.acked [] := by
  rw [acked, txReady_rest]
  exact .of_eq ⟨rfl, rfl, rfl, rfl⟩ rfl rfl

/-- A frame that an ack has come for is in flight no more. -/
theorem retire_txFrame {s s' : SricIf} {e : TxEntry} {f : PackedFrame} {out : List IfOut}
    (hf : s.txFrame = some e) (h : s.retire e f = .ok (s', out)) : s'.txFrame = none := by
  rcases retire_cases hf h with ⟨-, rfl, -⟩ | ⟨-, -, rfl, -⟩ | ⟨enum, as, more, -, -, -, rfl, -⟩
  · exact acked_txFrame s
  · exact acked_txFrame s
  · exact (acts_pushed _ as).txFrame.trans (acked_txFrame s)

/-- An ack for the frame in flight. -/
theorem retire_effect {s s' : SricIf} {bytes : List Byte} {e : TxEntry} {out : List IfOut}
    (hme : (PackedFrame.ofBytes bytes).forMe = true)
    (hack : (PackedFrame.ofBytes bytes).isAck = true) (hf : s.txFrame = some e)
    (hs : s.retire e (PackedFrame.ofBytes bytes) = .ok (s', out)) :
    Effect s (.frame bytes) s' out := by
  have hacks : Acks (.frame bytes) := ⟨bytes, rfl, hme, hack⟩
  have hfate : s.settled (.frame bytes)
      = [(if s.frameCancelled then .cancelled else .acked, e)] := by
    rw [settled, if_pos ⟨hme, hack⟩, hf]
    rfl
  have hpushes : s.pushes (.frame bytes) = if s.frameCancelled = false ∧ s.enumerated = false
      then requested (s.enum.dispatch (PackedFrame.ofBytes bytes)) else [] := by
    rw [pushes, hf]
    simp [hme, hack]
  have hp := s.acked_pushed
  have hsame : Same s s.acked := ⟨hp.same.1, hp.same.2, hp.same.3, hp.same.4⟩
  rcases retire_cases hf hs with ⟨hc, rfl, rfl⟩ | ⟨hc, he, rfl, rfl⟩
    | ⟨enum, as, more, hc, he, hrx, rfl, rfl⟩
  · refine .acked e hacks hf s.acked_txFrame hsame ?_ hfate ?_ rfl
    · rw [hpushes, if_neg (by rw [hc]; simp)]
      exact ⟨hp.queued.1, hp.queued.2⟩
    · rw [if_neg (by rw [hc]; simp)]
      rfl
  · refine .acked e hacks hf s.acked_txFrame hsame ?_ hfate ?_ rfl
    · rw [hpushes, if_neg (by rw [he]; simp)]
      exact ⟨hp.queued.1, hp.queued.2⟩
    · rw [if_pos ⟨hc, he⟩]
      rfl
  · obtain ⟨⟨enum', as'⟩, hd, heq⟩ := Option.map_eq_some_iff.mp hrx
    cases heq
    have hacts := acts_pushed { s.acked with enum := enum } as
    have hquiet : Quiet ({ s.acked with enum := enum }.acts as).2 :=
      quiet_of_deviceAdd fun o ho => acts_out ho
    refine .acked e hacks hf ?_ ?_ ?_ hfate ?_ ?_
    · exact hacts.txFrame.trans s.acked_txFrame
    · exact ⟨hacts.same.1.trans hsame.1, hacts.same.2.trans hsame.2, hacts.same.3.trans hsame.3,
        hacts.same.4.trans hsame.4⟩
    · rw [hpushes, if_pos ⟨hc, he⟩, hd]
      have hq : Queued s s.acked [] := ⟨hp.queued.1, hp.queued.2⟩
      have hq' : Queued s.acked ({ s.acked with enum := enum }.acts as).1
        (as.filterMap EnumAction.frame) := ⟨hacts.queued.1, hacts.queued.2⟩
      have := hq.trans hq'
      exact ⟨this.1, this.2⟩
    · have hno : ¬(s.frameCancelled = false ∧ s.enumerated = true) := by
        rw [he]
        simp
      rw [if_neg hno]
      exact ((hquiet.append (quiet_listen _)).append ⟨rfl, rfl⟩).1
    · exact ((hquiet.append (quiet_listen _)).append ⟨rfl, rfl⟩).2

theorem frame_effect {s s' : SricIf} {bytes : List Byte} {out : List IfOut}
    (hs : s.procRxFrame bytes = .ok (s', out)) : Effect s (.frame bytes) s' out := by
  have hcancel : ∀ tag, IfEvent.frame bytes ≠ .cancel tag := fun tag => by simp
  by_cases hme : (PackedFrame.ofBytes bytes).forMe = false
  · -- for another device
    have hpushes : s.pushes (.frame bytes) = [] := if_pos hme
    have hfate : s.settled (.frame bytes) = [] := if_neg (by rw [hme]; simp)
    rw [procRxFrame] at hs
    simp only [if_pos hme] at hs
    cases hs
    refine Pushed.effect ?_ hfate rfl ⟨rfl, rfl⟩ hcancel
    rw [hpushes]
    exact .nil s
  have hme' : (PackedFrame.ofBytes bytes).forMe = true := by simpa using hme
  by_cases hack : (PackedFrame.ofBytes bytes).isAck = false
  · have hpushes : s.pushes (.frame bytes) = [ackFor (PackedFrame.ofBytes bytes)] := by
      rw [pushes, if_neg hme, if_pos hack]
    have hfate : s.settled (.frame bytes) = [] := if_neg (by rw [hack]; simp)
    have hquiet : s' = s.txqPush (ackFor (PackedFrame.ofBytes bytes)) 0 ∧ Quiet out := by
      rw [procRxFrame] at hs
      simp only [if_neg hme, if_pos hack] at hs
      split at hs
      · cases hs
        exact ⟨rfl, rfl, rfl⟩
      · cases hs
        exact ⟨rfl, rfl, rfl⟩
    obtain ⟨rfl, hquiet⟩ := hquiet
    refine Pushed.effect ?_ hfate rfl hquiet hcancel
    rw [hpushes]
    exact s.txqPush_pushed _ 0
  have hack' : (PackedFrame.ofBytes bytes).isAck = true := by simpa using hack
  cases hf : s.txFrame with
  | some e =>
      apply retire_effect hme' hack' hf
      rw [procRxFrame] at hs
      simp only [if_neg hme, if_neg hack, hf] at hs
      exact hs
  | none =>
      -- an unsolicited or extra ack
      have hpushes : s.pushes (.frame bytes) = [] := by
        rw [pushes, hf, if_neg hme, if_neg hack, if_neg (fun hc => absurd hc.1 (by simp))]
      have hfate : s.settled (.frame bytes) = [] := by
        rw [settled, if_pos ⟨hme', hack'⟩, hf]
        rfl
      rw [procRxFrame] at hs
      simp only [if_neg hme, if_neg hack, hf] at hs
      cases hs
      refine Pushed.effect ?_ hfate rfl ⟨rfl, rfl⟩ hcancel
      rw [hpushes]
      exact .nil s

theorem txTimeout_effect (s : SricIf) (id : Nat) :
    Effect s (.txTimeout id) (s.txTimeout.1.drop id) s.txTimeout.2 := by
  have hquiet : Quiet s.txTimeout.2 := by
    rw [txTimeout]
    by_cases hc : s.frameCancelled = true
    · rw [if_pos hc]
      cases hf : s.txFrame with
      | none =>
          rw [freeTxFrame, hf]
          exact ⟨rfl, rfl⟩
      | some e =>
          rw [freeTxFrame, hf]
          exact ⟨rfl, rfl⟩
    · rw [if_neg hc]
      exact ⟨rfl, rfl⟩
  have hrest : s.txTimeout.1.frameCancelled = s.frameCancelled ∧ s.txTimeout.1.txbuf = s.txbuf
      ∧ s.txTimeout.1.txlen = s.txlen ∧ s.txTimeout.1.txpos = 0 ∧ s.txTimeout.1.txq = s.txq := by
    rw [txTimeout]
    by_cases hc : s.frameCancelled = true
    · rw [if_pos hc]
      dsimp only
      rw [txReady_rest]
      exact ⟨rfl, rfl, rfl, rfl, rfl⟩
    · rw [if_neg hc]
      dsimp only
      rw [txReady_rest]
      exact ⟨rfl, rfl, rfl, rfl, rfl⟩
  obtain ⟨hcancelled, htxbuf, htxlen, htxpos, htxq⟩ := hrest
  exact .timedOut id rfl hcancelled htxbuf htxlen htxpos htxq s.txTimeout_txFrame hquiet

theorem txqCancel_effect (s : SricIf) (tag : Tag) :
    Effect s (.cancel tag) (s.txqCancel tag).1 (s.txqCancel tag).2 := by
  refine .cancelled tag rfl (s.txqCancel_rest tag) ?_ ?_
  · show (ifCancel _ tag).frameCancelled = true ↔ _
    rw [ifCancel]
    by_cases h : (s.txFrame.map fun e => e.frame.tag) = some tag
    · rw [if_pos (show (Option.map _ _) = some tag from h)]
      exact iff_of_true rfl (.inr (Option.map_eq_some_iff.mp h))
    · rw [if_neg (show ¬(Option.map _ _) = some tag from h)]
      refine ⟨.inl, fun hc => hc.resolve_right fun he => h ?_⟩
      exact Option.map_eq_some_iff.mpr he
  · constructor
    · apply List.filterMap_eq_nil_iff.mpr
      intro o ho
      obtain ⟨ptr, -, rfl⟩ := List.mem_map.mp ho
      rfl
    · apply List.flatMap_eq_nil_iff.mpr
      intro o ho
      obtain ⟨ptr, -, rfl⟩ := List.mem_map.mp ho
      rfl

theorem txqPush_effect (s : SricIf) (f : FrameT) (pri : Fin 2) :
    Effect s (.push f pri) (s.txqPush f pri) [] :=
  (s.txqPush_pushed f pri).effect rfl rfl ⟨rfl, rfl⟩ fun tag => by simp

/-- **Every step has one of these effects.** -/
theorem step_effect {s s' : SricIf} {ev : IfEvent} {out : List IfOut} (h : TxInv s)
    (hs : s.step ev = .ok (s', out)) : Effect s ev s' out := by
  have hh := (step_handle hs).2
  cases ev with
  | enumStart =>
      obtain ⟨hp, hq⟩ := enumStep_pushed hh
      exact hp.effect rfl rfl hq fun tag => by simp
  | push f pri =>
      cases hh
      exact s.txqPush_effect f pri
  | cancel tag =>
      obtain rfl : _ = s' := congrArg Prod.fst (Except.ok.inj hh)
      obtain rfl : (s.txqCancel tag).2 = out := congrArg Prod.snd (Except.ok.inj hh)
      exact s.txqCancel_effect tag
  | ifTx id w => exact ifTx_effect h hs
  | txTimeout id =>
      cases hh
      exact s.txTimeout_effect id
  | killToken id =>
      obtain ⟨u, hu, rfl⟩ := killToken_cases hh
      obtain ⟨hp, hq⟩ := enumStep_pushed hu
      have hdrop : Pushed s (u.drop id) (requested s.enum.killTokenTimeout) :=
        ⟨⟨hp.same.1, hp.same.2, hp.same.3, hp.same.4⟩, hp.txFrame, hp.queued.1, hp.queued.2⟩
      exact hdrop.effect rfl rfl hq fun tag => by simp
  | sendReset id =>
      obtain ⟨u, enum, as, again, hr, hu, rfl⟩ := sendReset_cases hh
      obtain ⟨hp, hq⟩ := enumStep_pushed hu
      have hpush : s.pushes (.sendReset id) = requested (some (enum, as)) := by
        rw [pushes, hr]
        rfl
      have hdrop : Pushed s (if again then u else u.drop id) (s.pushes (.sendReset id)) := by
        rw [hpush]
        cases again with
        | true => exact hp
        | false =>
            exact ⟨⟨hp.same.1, hp.same.2, hp.same.3, hp.same.4⟩, hp.txFrame, hp.queued.1,
              hp.queued.2⟩
      exact hdrop.effect rfl rfl hq fun tag => by simp
  | frame bytes => exact frame_effect hh

end SricIf

end Sricd
