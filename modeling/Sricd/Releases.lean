import Sricd.Ledger

/-!
# The frames that are freed

No frame is freed twice, or while it is queued or in flight
(`released_once`). Every frame that has left was freed exactly in the runs
in which none was written that wants no ack: `if_tx` forgets such a frame
without freeing it (`frames_released_iff`).
-/

namespace Sricd

open Sricd.Lib

open scoped List

/-- The pointer of a `free`. -/
def IfOut.freed : IfOut → Option Nat
  | .free ptr => some ptr
  | _ => none

/-- The pointers handed to `free`, in order. -/
def released (os : List IfOut) : List Nat := os.filterMap IfOut.freed

theorem released_append (os os' : List IfOut) : released (os ++ os') = released os ++ released os' :=
  List.filterMap_append ..

theorem released_deviceAdd {out : List IfOut} (h : ∀ o ∈ out, ∃ i t, o = .deviceAdd i t) :
    released out = [] := by
  apply List.filterMap_eq_nil_iff.mpr
  intro o ho
  obtain ⟨i, t, rfl⟩ := h o ho
  rfl

namespace SricIf

/-- The bytes of the frame that `if_tx` is about to write that are still
to be written. -/
def remaining (s : SricIf) (e : TxEntry) : Nat :=
  if s.txFrame.isSome then s.txlen - s.txpos else e.frame.wire.length

/-- The write completes a frame that wants no ack. -/
def Leaks (s : SricIf) : IfEvent → Prop
  | .ifTx _ w => ∃ e ∈ s.sending, e.frame.needsAck = false ∧ w = some (s.remaining e)
  | _ => False

instance (s : SricIf) : DecidablePred s.Leaks
  | .ifTx _ w =>
      inferInstanceAs (Decidable
        (∃ e ∈ s.sending, e.frame.needsAck = false ∧ w = some (s.remaining e)))
  | .enumStart | .push .. | .cancel _ | .txTimeout _ | .killToken _ | .sendReset _ | .frame _ =>
      .isFalse id

/-- The ledger: what was pushed, each frame in a copy of its own, and what
was freed. -/
structure Released (s : SricIf) (pushed : List FrameT) (freed : List Nat) : Prop where
  copied : s.txq.heap = pushed.length
  once : freed.Nodup
  unheld : ∀ e ∈ s.txFrame.toList ++ s.txq.entries, e.ptr ∉ freed
  balance : pushed.length
    = freed.length + s.txq.entries.length + if s.txFrame.isSome then 1 else 0

/-- The pointers of the frames that leave and are not forgotten. -/
def disposed (left : List (Fate × TxEntry)) : List Nat :=
  (left.filter fun p => p.1 != .sent).map fun p => p.2.ptr

theorem disposed_append (left left' : List (Fate × TxEntry)) :
    disposed (left ++ left') = disposed left ++ disposed left' := by
  rw [disposed, List.filter_append, List.map_append]
  rfl

/-! ## What a step frees -/

theorem disposed_sent {left : List (Fate × TxEntry)} (h : ∀ p ∈ left, p.1 = .sent) :
    disposed left = [] := by
  rw [disposed, List.filter_eq_nil_iff.mpr, List.map_nil]
  intro p hp
  rw [h p hp]
  simp

theorem mem_settled_ifTx {s : SricIf} {id : Nat} {w : Option Nat} {p : Fate × TxEntry}
    (h : p ∈ s.settled (.ifTx id w)) : p.1 = .sent := by
  rw [settled] at h
  split at h
  · split at h
    · rw [List.mem_singleton.mp h]
    · cases h
  · cases h

theorem ifTx_released {s s' : SricIf} {w : Option Nat} {out : List IfOut} {keep : Bool}
    (h : TxCore s) (hx : s.ifTx w = .ok (s', out, keep)) : released out = [] := by
  rcases ifTx_cases h hx with ⟨-, -, rfl, -⟩ | ⟨t, e, n, -, -, -, rfl⟩
  · rfl
  · rfl

theorem cancel_released (s : SricIf) (tag : Tag) :
    (released (s.txqCancel tag).2).Perm (disposed (s.settled (.cancel tag))) := by
  have hout : released (s.txqCancel tag).2 = (s.txq.cancel tag).2 := by
    show ((s.txq.cancel tag).2.map IfOut.free).filterMap IfOut.freed = _
    rw [List.filterMap_map]
    exact List.filterMap_some
  have hleft : disposed (s.settled (.cancel tag))
      = (s.txq.entries.filter fun e => e.frame.tag == tag).map TxEntry.ptr := by
    rw [disposed, settled, List.filter_eq_self.mpr, List.map_map]
    · rfl
    · intro p hp
      obtain ⟨e, -, rfl⟩ := List.mem_map.mp hp
      rfl
  rw [hout, hleft, TxQueue.cancel_freed]
  apply List.Perm.map
  apply List.Perm.filter
  exact (List.reverse_perm _).append (List.reverse_perm _)

theorem txTimeout_released (s : SricIf) (id : Nat) :
    released s.txTimeout.2 = disposed (s.settled (.txTimeout id)) := by
  rw [txTimeout, settled]
  by_cases hc : s.frameCancelled = true
  · rw [if_pos hc, if_pos hc, freeTxFrame]
    cases s.txFrame with
    | none => rfl
    | some e => rfl
  · rw [if_neg hc, if_neg hc]
    rfl

theorem retire_released {s s' : SricIf} {e : TxEntry} {f : PackedFrame} {out : List IfOut}
    (hf : s.txFrame = some e) (hr : s.retire e f = .ok (s', out)) : released out = [e.ptr] := by
  rcases retire_cases hf hr with ⟨-, -, rfl⟩ | ⟨-, -, -, rfl⟩ | ⟨enum, as, more, -, -, -, -, rfl⟩
  · rfl
  · rfl
  · have hlisten : released (if more then [] else [.listen]) = [] := by
      cases more with
      | true => rfl
      | false => rfl
    rw [released_append, released_append, released_deviceAdd fun o ho => acts_out ho, hlisten]
    rfl

theorem frame_released {s s' : SricIf} {bytes : List Byte} {out : List IfOut}
    (hr : s.procRxFrame bytes = .ok (s', out)) :
    released out = disposed (s.settled (.frame bytes)) := by
  rw [procRxFrame] at hr
  rw [settled]
  by_cases hme : (PackedFrame.ofBytes bytes).forMe = false
  · simp only [if_pos hme] at hr
    cases hr
    rw [if_neg (by rw [hme]; simp)]
    rfl
  simp only [if_neg hme] at hr
  by_cases hack : (PackedFrame.ofBytes bytes).isAck = false
  · rw [if_neg (by rw [hack]; simp)]
    simp only [if_pos hack] at hr
    split at hr
    · cases hr
      rfl
    · cases hr
      rfl
  · rw [if_pos (by simpa using And.intro hme hack)]
    simp only [if_neg hack] at hr
    cases hf : s.txFrame with
    | none =>
        simp only [hf] at hr
        cases hr
        rfl
    | some e =>
        simp only [hf] at hr
        rw [retire_released hf hr]
        cases s.frameCancelled with
        | true => rfl
        | false => rfl

/-- **What a step frees** is what leaves in it and is not forgotten. -/
theorem step_released {s s' : SricIf} {ev : IfEvent} {out : List IfOut} (h : TxInv s)
    (hs : s.step ev = .ok (s', out)) : (released out).Perm (disposed (s.settled ev)) := by
  have hh := (step_handle hs).2
  cases ev with
  | enumStart => exact .of_eq (released_deviceAdd fun o ho => enumStep_out hh ho)
  | push f pri =>
      cases hh
      exact .nil
  | cancel tag =>
      obtain rfl : (s.txqCancel tag).2 = out := congrArg Prod.snd (Except.ok.inj hh)
      exact s.cancel_released tag
  | ifTx id w =>
      simp only [handle] at hh
      split at hh
      · cases hh
      rename_i x out' keep hx
      cases hh
      rw [ifTx_released h.toTxCore hx, disposed_sent fun p => mem_settled_ifTx]
  | txTimeout id =>
      cases hh
      exact .of_eq (s.txTimeout_released id)
  | killToken id =>
      obtain ⟨u, hu, -⟩ := killToken_cases hh
      exact .of_eq (released_deviceAdd fun o ho => enumStep_out hu ho)
  | sendReset id =>
      obtain ⟨u, enum, as, again, -, hu, -⟩ := sendReset_cases hh
      exact .of_eq (released_deviceAdd fun o ho => enumStep_out hu ho)
  | frame bytes => exact .of_eq (frame_released hh)

theorem run_released {s t : SricIf} {evs : List IfEvent} {os : List IfOut} (hi : TxInv s)
    (hr : run step s evs = .ok (t, os)) :
    (released os).Perm (disposed (history step settled s evs)) := by
  induction evs generalizing s os with
  | nil =>
      cases hr
      exact .nil
  | cons ev evs ih =>
      obtain ⟨u, o, os', hs, hr', rfl⟩ := run_cons_ok.mp hr
      rw [history, hs, released_append, disposed_append]
      exact (step_released hi hs).append (ih (hi.step hs) hr')

/-! ## What is forgotten -/

theorem Sending.remaining {s t : SricIf} {e : TxEntry} (h : Sending s t e) :
    s.remaining e = t.txlen - t.txpos := by
  rcases h.origin with rfl | ⟨hf, hpos, -⟩
  · rw [SricIf.remaining, if_pos (by rw [h.txFrame]; rfl)]
  · rw [SricIf.remaining, if_neg (by rw [hf]; simp), hpos, h.inFlight.txlen_eq]
    rfl

/-- A frame in flight that wants no ack has not been written. -/
theorem TxCore.unwritten {s : SricIf} (h : TxCore s) {e : TxEntry} (hsend : s.sending = some e)
    (hack : e.frame.needsAck = false) : ¬s.Written := by
  intro hw
  obtain ⟨hf, hp⟩ := hw
  obtain ⟨e', hf⟩ := Option.isSome_iff_exists.mp hf
  rw [sending, hf] at hsend
  obtain rfl : e' = e := Option.some.inj hsend
  rw [(h.inFlight e' hf).needsAck hp] at hack
  cases hack

/-- Only `if_tx` forgets a frame. -/
theorem mem_settled_other {s : SricIf} {ev : IfEvent} (hev : ∀ id w, ev ≠ .ifTx id w)
    {p : Fate × TxEntry} (hp : p ∈ s.settled ev) : p.1 ≠ .sent := by
  cases ev with
  | ifTx id w => exact absurd rfl (hev id w)
  | cancel tag =>
      obtain ⟨e, -, rfl⟩ := List.mem_map.mp hp
      simp
  | txTimeout id =>
      rw [settled] at hp
      split at hp
      · obtain ⟨e, -, rfl⟩ := List.mem_map.mp hp
        simp
      · cases hp
  | frame bytes =>
      rw [settled] at hp
      split at hp
      · obtain ⟨e, -, rfl⟩ := List.mem_map.mp hp
        cases s.frameCancelled with
        | true => simp
        | false => simp
      · cases hp
  | enumStart | push | killToken | sendReset => cases hp

theorem mem_settled_sent {s s' : SricIf} {id : Nat} {w : Option Nat} {out : List IfOut}
    (hs : s.step (.ifTx id w) = .ok (s', out)) :
    (∃ e, (Fate.sent, e) ∈ s.settled (.ifTx id w))
      ↔ ∃ e, s.sending = some e ∧ ¬s.Written ∧ s'.txpos = s'.txlen
        ∧ e.frame.needsAck = false := by
  rw [settled, hs]
  cases s.sending with
  | none => simp
  | some e =>
      by_cases hc : ¬s.Written ∧ s'.txpos = s'.txlen ∧ e.frame.needsAck = false
      · simp only [if_pos hc]
        exact iff_of_true ⟨e, List.mem_singleton.mpr rfl⟩ ⟨e, rfl, hc⟩
      · simp only [if_neg hc]
        apply iff_of_false
        · simp
        · intro hx
          obtain ⟨e', he', hc'⟩ := hx
          cases he'
          exact hc hc'

/-- **A step forgets a frame** where `if_tx` writes the last byte of one
that wants no ack. -/
theorem sent_iff_leaks {s s' : SricIf} {ev : IfEvent} {out : List IfOut} (h : TxInv s)
    (hs : s.step ev = .ok (s', out)) : (∃ e, (Fate.sent, e) ∈ s.settled ev) ↔ s.Leaks ev := by
  cases ev with
  | ifTx id w =>
      rw [mem_settled_sent hs]
      have hh := (step_handle hs).2
      simp only [handle] at hh
      split at hh
      · cases hh
      rename_i x out' keep hx
      cases hh
      have hpos : (if keep then x else x.drop id).txpos = x.txpos
          ∧ (if keep then x else x.drop id).txlen = x.txlen := by
        cases keep with
        | true => exact ⟨rfl, rfl⟩
        | false => exact ⟨rfl, rfl⟩
      rw [hpos.1, hpos.2]
      rcases ifTx_writes h.toTxCore hx with ⟨hidle, -⟩ | ⟨t, e, n, rfl, ht, hn, hw, -⟩
      · -- nothing is written
        apply iff_of_false
        · intro hsent
          obtain ⟨e, hsend, hunwritten, -⟩ := hsent
          exact hidle (busy_of_sending hsend hunwritten)
        · intro hleak
          obtain ⟨e, hsend, hack, -⟩ := hleak
          exact hidle (busy_of_sending hsend (h.toTxCore.unwritten hsend hack))
      · have hx : x = (t.written n).1 := by rw [hw]
        have hend : x.txpos = x.txlen ↔ n = s.remaining e := by
          have hlt := ht.unwritten
          rw [hx, (t.written_txpos n).1, (t.written_txpos n).2, ht.remaining]
          omega
        constructor
        · intro hsent
          obtain ⟨e', hsend, -, hp, hack⟩ := hsent
          obtain rfl : e = e' := Option.some.inj (ht.from.sending.symm.trans hsend)
          exact ⟨e, hsend, hack, congrArg some (hend.mp hp)⟩
        · intro hleak
          obtain ⟨e', hsend, hack, hrem⟩ := hleak
          obtain rfl : e = e' := Option.some.inj (ht.from.sending.symm.trans hsend)
          exact ⟨e, hsend, ht.unwritten', hend.mpr (Option.some.inj hrem), hack⟩
  | _ =>
      apply iff_of_false _ id
      intro hsent
      obtain ⟨e, hmem⟩ := hsent
      exact mem_settled_other (fun _ _ => by simp) hmem rfl

theorem run_leaks {s t : SricIf} {evs : List IfEvent} {os : List IfOut} (hi : TxInv s)
    (hr : run step s evs = .ok (t, os)) :
    (∀ p ∈ history step settled s evs, p.1 ≠ .sent)
      ↔ Along step (fun s ev => ¬s.Leaks ev) s evs := by
  induction evs generalizing s os with
  | nil =>
      refine iff_of_true ?_ trivial
      intro p hp
      cases hp
  | cons ev evs ih =>
      obtain ⟨u, o, os', hs, hr', rfl⟩ := run_cons_ok.mp hr
      have hstep : (∀ p ∈ s.settled ev, p.1 ≠ .sent) ↔ ¬s.Leaks ev := by
        rw [← sent_iff_leaks hi hs]
        constructor
        · intro hall hsent
          obtain ⟨e, hmem⟩ := hsent
          exact hall _ hmem rfl
        · intro hno p hp heq
          exact hno ⟨p.2, heq ▸ hp⟩
      have hrest : (∀ p ∈ history step settled u evs, p.1 ≠ .sent)
          ↔ ∀ s' o, s.step ev = .ok (s', o) → Along step (fun s ev => ¬s.Leaks ev) s' evs := by
        rw [ih (hi.step hs) hr']
        constructor
        · intro halong s' o' hs'
          cases hs.symm.trans hs'
          exact halong
        · intro halong
          exact halong u o hs
      rw [history, hs, Along, ← hstep, ← hrest]
      simp only [List.mem_append]
      constructor
      · intro hall
        exact ⟨fun p hp => hall p (.inl hp), fun p hp => hall p (.inr hp)⟩
      · intro hall p hp
        rcases hp with hp | hp
        · exact hall.1 p hp
        · exact hall.2 p hp

/-! ## The ledger -/

/-- In every run a frame is freed at most once, and only when it is
neither queued nor in flight. -/
theorem released_once {evs : List IfEvent} {s : SricIf} {os : List IfOut}
    (hr : run step init evs = .ok (s, os)) :
    (released os).Nodup ∧ ∀ e ∈ s.held, e.ptr ∉ released os := by
  have hplaces := (balanced_run txInv_init balanced_init hr).places
  rw [List.nil_append, List.nil_append] at hplaces
  generalize history step pushes init evs = pushed at hplaces
  have hfreed := run_released txInv_init hr
  generalize history step settled init evs = left at hplaces hfreed
  have hptrs := hplaces.map TxEntry.ptr
  rw [allocated_ptrs] at hptrs
  have hnodup := hptrs.nodup_iff.mpr List.nodup_range'
  rw [List.map_append, List.map_map, List.nodup_append] at hnodup
  obtain ⟨-, hleft, hdisjoint⟩ := hnodup
  have hsub : (disposed left).Sublist (left.map (TxEntry.ptr ∘ Prod.snd)) :=
    List.filter_sublist.map _
  constructor
  · exact hfreed.nodup_iff.mpr (hleft.sublist hsub)
  · intro e he hmem
    exact hdisjoint _ (List.mem_map_of_mem he) _ (hsub.subset (hfreed.mem_iff.mp hmem)) rfl

/-- **Every frame that has left was freed** exactly in the runs in which no
frame is written to its end that wants no ack. -/
theorem frames_released_iff {evs : List IfEvent} {s : SricIf} {os : List IfOut}
    (hr : run step init evs = .ok (s, os)) :
    Released s (history step pushes init evs) (released os)
      ↔ Along step (fun s ev => ¬s.Leaks ev) init evs := by
  obtain ⟨honce, hunheld⟩ := released_once hr
  have hbalanced := balanced_run txInv_init balanced_init hr
  have hplaces := hbalanced.places.length_eq
  have hfreed := (run_released txInv_init hr).length_eq
  have hheld : s.held.length = s.txq.entries.length + if s.txFrame.isSome then 1 else 0 := by
    rw [held, List.length_append, Nat.add_comm]
    cases s.txFrame with
    | none => rfl
    | some e => rfl
  have hpushed : (allocated 0 (history step pushes init evs)).length
      = (history step pushes init evs).length := by
    rw [← List.length_map (f := TxEntry.frame), allocated_frames]
  rw [List.nil_append, List.nil_append, List.length_append, List.length_map, hheld, hpushed]
    at hplaces
  rw [disposed, List.length_map] at hfreed
  rw [← run_leaks txInv_init hr]
  have hall : ((history step settled init evs).filter fun p => p.1 != .sent).length
      = (history step settled init evs).length
        ↔ ∀ p ∈ history step settled init evs, p.1 ≠ .sent := by
    rw [List.length_filter_eq_length_iff]
    simp
  rw [← hall]
  constructor
  · intro hledger
    have hbalance := hledger.balance
    omega
  · intro hkept
    exact ⟨hbalanced.heap, honce, hunheld, by omega⟩

/-- A frame of a client, its ack, and nothing is forgotten. -/
theorem frames_released_acked :
    ∃ s os, run step init [.push firstFrame 0, .ifTx 1 (some 6), .frame (ackBytes 2 [])]
        = .ok (s, os)
      ∧ Released s (history step pushes init
          [.push firstFrame 0, .ifTx 1 (some 6), .frame (ackBytes 2 [])]) (released os) := by
  obtain ⟨⟨s, os⟩, hr, -⟩ := ok_of_any (r := run step init
    [.push firstFrame 0, .ifTx 1 (some 6), .frame (ackBytes 2 [])]) (p := fun _ => true)
    (by decide +kernel)
  exact ⟨s, os, hr, (frames_released_iff hr).mpr (by decide +kernel)⟩

/-- The enumeration starts, a note arrives, and the ack for it is written
behind the frames that were queued before it. -/
def noteAnswered : List IfEvent :=
  [.enumStart, .frame (frameBytes 1 2 [5]), .ifTx 1 (some 7), .frame (ackBytes 1 []),
    .ifTx 4 (some 7), .frame (ackBytes 1 []), .ifTx 6 (some 7), .frame (ackBytes 1 []),
    .ifTx 8 (some 6)]

/-- That ack is not freed. -/
theorem frames_released_note :
    ¬∀ evs s os, run step init evs = .ok (s, os) →
      Released s (history step pushes init evs) (released os) := by
  intro hall
  obtain ⟨⟨s, os⟩, hr, hthree⟩ := ok_of_any (r := run step init noteAnswered)
    (p := fun p => (released p.2).length + p.1.txq.entries.length
      + (if p.1.txFrame.isSome then 1 else 0) == 3) (by decide +kernel)
  have hfour : (history step pushes init noteAnswered).length = 4 := by decide +kernel
  have hbalance := (hall _ s os hr).balance
  rw [beq_iff_eq.mp hthree, hfour] at hbalance
  cases hbalance

end SricIf

end Sricd
