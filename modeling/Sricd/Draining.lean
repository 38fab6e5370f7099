import Sricd.Effects
import Sricd.Lib.Ranking

/-!
# The transmit side drains

On a bus that acks every frame in time, and with nothing new to send, the
frames that are queued and in flight are written one after the other, in
the order in which the queue serves them, and each of them once. That takes
a number of callbacks that is known in advance (`toDo`), and until it is
done there is one that can run (`transmit_side_drains`).
-/

namespace Sricd

open Sricd.Lib

namespace SricIf

/-- What is still to be written: the rest of the frame in flight, and
behind it the queued frames. -/
def pendingBytes (s : SricIf) : List Byte :=
  (s.txFrame.toList.flatMap fun e => e.frame.wire.drop s.txpos)
    ++ s.txq.entries.flatMap fun e => e.frame.wire

/-- The number of callbacks that writing it takes at most, the acks
counted. An ack has the write watch registered, which is one call more. -/
def toDo (s : SricIf) : Nat :=
  s.pendingBytes.length + 2 * s.held.countP (fun e => e.frame.needsAck)
    + if s.writeSrcid = 0 then 0 else 1

/-- The event is one of writing what there is, some of it at least, or the
ack for a frame that is written. -/
def Serves (s : SricIf) : IfEvent → Prop
  | .ifTx _ w => w.any (fun n => decide (0 < n)) = true
  | .frame bytes => s.Written ∧ (PackedFrame.ofBytes bytes).forMe = true
      ∧ (PackedFrame.ofBytes bytes).isAck = true
  | _ => False

instance (s : SricIf) : DecidablePred s.Serves
  | .ifTx _ w => inferInstanceAs (Decidable (w.any _ = true))
  | .frame _ => inferInstanceAs (Decidable (_ ∧ _ ∧ _))
  | .enumStart | .push _ _ | .cancel _ | .txTimeout _ | .killToken _ | .sendReset _ =>
      inferInstanceAs (Decidable False)

/-- The step writes what comes next, and leaves less to do. -/
structure Drains (s s' : SricIf) (out : List IfOut) : Prop where
  bytes : lineBytes out ++ s'.pendingBytes = s.pendingBytes
  less : s'.toDo < s.toDo

section
variable {s s' t : SricIf} {e : TxEntry} {out : List IfOut}

/-- With no frame left, nothing is to be written. -/
theorem pendingBytes_held (h : s.held = []) : s.pendingBytes = [] := by
  rw [held, List.append_eq_nil_iff] at h
  rw [pendingBytes, h.1, h.2]
  rfl

/-- What is to be written when a frame is about to be. -/
theorem Sending.pending (h : Sending s t e) :
    s.pendingBytes = e.frame.wire.drop t.txpos ++ t.txq.entries.flatMap fun e => e.frame.wire := by
  have hheld := held_sending h
  rcases h.origin with rfl | ⟨hf, hpos, -, -⟩
  · rw [pendingBytes, h.txFrame]
    simp
  · rw [held, hf] at hheld
    have hentries : s.txq.entries = e :: t.txq.entries := hheld
    rw [pendingBytes, hf, hentries, hpos]
    simp

/-- What is written of it is no longer to be. -/
theorem Sending.splits (h : Sending s t e) {n : Nat} (hn : n ≤ t.txlen - t.txpos) :
    s.pendingBytes = (t.txbuf.drop t.txpos).take n
      ++ (e.frame.wire.drop (t.txpos + n) ++ t.txq.entries.flatMap fun e => e.frame.wire) := by
  have hnext : (t.txbuf.drop t.txpos).take n = (e.frame.wire.drop t.txpos).take n := by
    rw [← h.inFlight.encoded, List.drop_take, List.take_take, Nat.min_eq_left hn]
  rw [h.pending, hnext, ← List.drop_drop, ← List.append_assoc, List.take_append_drop]

/-- Some bytes are written, and what is left is less. -/
theorem drains_of_wrote {bytes : List Byte} (hb : s.pendingBytes = bytes ++ s'.pendingBytes)
    (hpos : 0 < bytes.length)
    (hacks : s'.held.countP (fun e => e.frame.needsAck) ≤ s.held.countP fun e => e.frame.needsAck)
    (hw : s'.writeSrcid = 0 ∨ s'.writeSrcid = s.writeSrcid) : Drains s s' [.wrote bytes] where
  bytes := by
    rw [hb]
    exact congrArg (· ++ s'.pendingBytes) (List.append_nil bytes)
  less := by
    have hlen := congrArg List.length hb
    rw [List.length_append] at hlen
    rw [toDo, toDo]
    rcases hw with hw | hw
    · rw [hw, if_pos rfl]
      omega
    · rw [hw]
      omega

/-- Whether the watch stays is no part of it. -/
theorem Drains.drop (h : Drains s s' out) (id : Nat) : Drains s (s'.drop id) out :=
  ⟨h.bytes, h.less⟩

/-- The callback of the write watch. -/
theorem write_drains {id n : Nat} (h : TxInv s) (hn : 0 < n)
    (hs : s.step (.ifTx id (some n)) = .ok (s', out)) : Drains s s' out := by
  obtain ⟨hlive, hh⟩ := step_handle hs
  have hwatch := (h.watch id).mp (hlive _ rfl)
  simp only [handle] at hh
  split at hh
  · cases hh
  rename_i u out' keep hx
  cases hh
  suffices hdrains : Drains s u out by
    cases keep with
    | true => exact hdrains
    | false => exact hdrains.drop id
  rcases ifTx_writes h.toTxCore hx with ⟨-, rfl, rfl, -⟩ | ⟨t, e, m, hm, ht, hle, hw, rfl⟩
  · refine ⟨rfl, ?_⟩
    show s.pendingBytes.length + _ + 0 < s.pendingBytes.length + _ + _
    rw [if_neg hwatch.2]
    exact Nat.lt_succ_self _
  · obtain rfl := Option.some.inj hm
    have hrest := ht.splits hle
    have hwritten : 0 < ((t.txbuf.drop t.txpos).take n).length := by
      have hbuf := ht.inFlight.encoded ▸ ht.inFlight.txlen_eq
      rw [List.length_take] at hbuf
      rw [List.length_take, List.length_drop]
      have hlt := ht.unwritten
      omega
    have hws : t.writeSrcid = s.writeSrcid := by
      rw [ht.rest]
    have hend : t.txpos + n = t.txlen → e.frame.wire.drop (t.txpos + n) = [] := by
      intro hlast
      rw [hlast, ht.inFlight.txlen_eq, List.drop_length]
    rcases written_cases ht.txFrame ht.unwritten hle with ⟨-, hwr⟩ | ⟨hlast, -, hwr⟩ | ⟨hlast, hack, hwr⟩
    · cases hw.symm.trans hwr
      refine drains_of_wrote ?_ hwritten ?_ (.inr hws)
      · rw [hrest, pendingBytes, ht.txFrame]
        simp
      · rw [held_sending ht, held, ht.txFrame]
        exact Nat.le_refl _
    · cases hw.symm.trans hwr
      refine drains_of_wrote ?_ hwritten ?_ (.inl rfl)
      · rw [hrest, pendingBytes, ht.txFrame, ← hlast]
        simp
      · rw [held_sending ht, held, ht.txFrame]
        exact Nat.le_refl _
    · cases hw.symm.trans hwr
      refine drains_of_wrote ?_ hwritten ?_ (.inr hws)
      · rw [hrest, pendingBytes, hend hlast]
        rfl
      · rw [held_sending ht]
        exact List.Sublist.countP_le (List.sublist_cons_self ..)

/-- The ack for a written frame is taken, and nothing is written. -/
theorem frame_acked {bytes : List Byte} (hover : s.enumerated = true) (hwritten : s.Written)
    (hme : (PackedFrame.ofBytes bytes).forMe = true)
    (hack : (PackedFrame.ofBytes bytes).isAck = true)
    (hs : s.step (.frame bytes) = .ok (s', out)) : s' = s.acked ∧ lineBytes out = [] := by
  obtain ⟨e, hf⟩ := Option.isSome_iff_exists.mp hwritten.1
  have hret := (procRxFrame_ack hf hme hack).symm.trans (step_handle hs).2
  rcases retire_cases hf hret with ⟨-, rfl, rfl⟩ | ⟨-, -, rfl, rfl⟩ | ⟨_, _, _, -, hnot, -⟩
  · exact ⟨rfl, rfl⟩
  · exact ⟨rfl, rfl⟩
  · exact absurd (hover.symm.trans hnot) (by simp)

/-- With the ack, the frame is no longer waited for. -/
theorem ack_drains (h : TxInv s) (hwritten : s.Written) (hs' : s' = s.acked)
    (hline : lineBytes out = []) : Drains s s' out := by
  obtain ⟨e, hf⟩ := Option.isSome_iff_exists.mp hwritten.1
  have hin := h.inFlight e hf
  have hpending : s.pendingBytes = s.acked.pendingBytes := by
    rw [pendingBytes, pendingBytes, acked_txFrame, hf, hwritten.2, hin.txlen_eq]
    rw [acked, txReady_rest]
    simp
  have hheld : s.held = e :: s.acked.held := by
    rw [held, held, acked_txFrame, hf, acked, txReady_rest]
    rfl
  have hwatch : s.acked.writeSrcid ≠ 0 := txReady_writeSrcid _
  rw [hs']
  refine ⟨by rw [hline, hpending]; rfl, ?_⟩
  rw [toDo, toDo, hpending, hheld, List.countP_cons, if_pos (hin.needsAck hwritten.2),
    if_neg hwatch]
  omega

/-! ## Runs -/

/-- What holds while the transmit side drains. -/
structure Sends (s : SricIf) : Prop where
  inv : TxInv s
  enumerated : s.enumerated = true

/-- **A serving step drains.** -/
theorem serves_drains {ev : IfEvent} (h : Sends s) (hev : s.Serves ev)
    (hs : s.step ev = .ok (s', out)) : Sends s' ∧ Drains s s' out := by
  have hinv := h.inv.step hs
  cases ev with
  | ifTx id w =>
      cases w with
      | none => cases hev
      | some n =>
          have hdrains := write_drains h.inv (of_decide_eq_true hev) hs
          exact ⟨⟨hinv, (write_cases h.inv hs).1.enumerated.trans h.enumerated⟩, hdrains⟩
  | frame bytes =>
      obtain ⟨hwritten, hme, hack⟩ := hev
      have hacked := frame_acked h.enumerated hwritten hme hack hs
      refine ⟨⟨hinv, ?_⟩, ack_drains h.inv hwritten hacked.1 hacked.2⟩
      rw [hacked.1, acked, txReady_rest]
      exact h.enumerated
  | enumStart => cases hev
  | push f pri => cases hev
  | cancel tag => cases hev
  | txTimeout id => cases hev
  | killToken id => cases hev
  | sendReset id => cases hev

/-- What a run of serving steps has written, and what is left. -/
theorem serving_run {evs : List IfEvent} (h : Sends s) (hev : Along step Serves s evs)
    (hr : Lib.run step s evs = .ok (t, out)) :
    lineBytes out ++ t.pendingBytes = s.pendingBytes := by
  induction evs generalizing s out with
  | nil =>
      cases hr
      rfl
  | cons ev evs ih =>
      obtain ⟨s', o, os, hs, hr', rfl⟩ := run_cons_ok.mp hr
      obtain ⟨hsends, hdrains⟩ := serves_drains h hev.1 hs
      have hrest := ih hsends (hev.2 s' o hs) hr'
      rw [← hdrains.bytes, ← hrest, lineBytes, List.flatMap_append, List.append_assoc]
      rfl

/-- **There is a serving callback that can run** as long as frames are
left. -/
theorem serving_ready (h : Sends s) (hheld : s.held ≠ []) :
    ∃ ev p, s.Serves ev ∧ s.step ev = .ok p := by
  by_cases hwritten : s.Written
  · obtain ⟨e, hf⟩ := Option.isSome_iff_exists.mp hwritten.1
    have hme : (PackedFrame.ofBytes (ackBytes 2 [])).forMe = true := by decide
    have hack : (PackedFrame.ofBytes (ackBytes 2 [])).isAck = true := by decide
    obtain ⟨p, hp⟩ := retire_ok h.enumerated (e := e) (PackedFrame.ofBytes (ackBytes 2 []))
    refine ⟨.frame (ackBytes 2 []), p, ⟨hwritten, hme, hack⟩, ?_⟩
    exact (procRxFrame_ack hf hme hack).trans hp
  · have hbusy : s.Busy := by
      cases hf : s.txFrame with
      | some e =>
          left
          exact ⟨e, hf, fun hpos => hwritten ⟨by rw [hf]; rfl, hpos⟩⟩
      | none =>
          right
          refine ⟨hf, fun hreadable => hheld ?_⟩
          rw [readable_eq, if_pos h.enumerated] at hreadable
          rw [held, hf]
          exact hreadable
    obtain ⟨t, e, hsending, hwrites⟩ := busy_writes h.inv hbusy
    obtain ⟨u, out, hp, -⟩ := hwrites 1 (Nat.sub_pos_of_lt hsending.unwritten)
    exact ⟨.ifTx s.writeSrcid (some 1), (u, out), rfl, hp⟩

end

/-- **The transmit side drains.** Once enumeration is over, what serving
callbacks write is what was to be written, frame by frame; there are no
more than `toDo` of them, and one can always run until all of it is
written and acked. -/
theorem transmit_side_drains {evs evs' : List IfEvent} {s t : SricIf} {out out' : List IfOut}
    (hr : Lib.run step init evs = .ok (s, out)) (hover : s.enumerated = true)
    (hserves : Along step Serves s evs') (hr' : Lib.run step s evs' = .ok (t, out')) :
    lineBytes out' ++ t.pendingBytes = s.pendingBytes
      ∧ evs'.length + t.toDo ≤ s.toDo
      ∧ ((t.held = [] ∧ lineBytes out' = s.pendingBytes)
        ∨ ∃ ev p, t.Serves ev ∧ t.step ev = .ok p) := by
  have hsends : Sends s := ⟨txInv_init.run hr, hover⟩
  have hline := serving_run hsends hserves hr'
  have hstep : ∀ u ev u' o, Sends u → u.Serves ev → u.step ev = .ok (u', o) →
      Sends u' ∧ u'.toDo < u.toDo := by
    intro u ev u' o hu hev hs
    obtain ⟨hu', hdrains⟩ := serves_drains hu hev hs
    exact ⟨hu', hdrains.less⟩
  refine ⟨hline, run_length_le hstep hsends hserves hr', ?_⟩
  by_cases hheld : t.held = []
  · left
    refine ⟨hheld, ?_⟩
    rw [← hline, pendingBytes_held hheld, List.append_nil]
  · right
    have hsends' : Sends t :=
      run_invariant_along (fun u ev u' o hu hev hs => (hstep u ev u' o hu hev hs).1) hsends
        hserves hr'
    exact serving_ready hsends' hheld

/-- The enumeration of a bus with one device, behind which a client sends
a frame. -/
def oneRequest : List IfEvent :=
  oneDevice .enumStart .killToken .sendReset (fun id => .ifTx id (some 7))
      (fun id w source payload => [.ifTx id (some w), .frame (ackBytes source payload)])
    ++ [.push firstFrame 1]

/-- That frame is written in two parts, and acked. -/
def servedInParts : List IfEvent :=
  [.ifTx 33 (some 3), .ifTx 33 (some 3), .frame (ackBytes 2 [])]

theorem transmit_side_drains_one_request :
    ∃ s out t out', Lib.run step init oneRequest = .ok (s, out)
      ∧ Lib.run step s servedInParts = .ok (t, out')
      ∧ lineBytes out' ++ t.pendingBytes = s.pendingBytes
      ∧ servedInParts.length + t.toDo ≤ s.toDo
      ∧ ((t.held = [] ∧ lineBytes out' = s.pendingBytes)
        ∨ ∃ ev p, t.Serves ev ∧ t.step ev = .ok p) := by
  have hrun : (Lib.run step init oneRequest).toOption.any (fun p =>
      decide (p.1.enumerated = true ∧ Along step Serves p.1 servedInParts)
        && (Lib.run step p.1 servedInParts).toOption.isSome) = true := by
    decide +kernel
  obtain ⟨⟨s, out⟩, hr, hs⟩ := ok_of_any hrun
  rw [Bool.and_eq_true] at hs
  obtain ⟨hover, hserves⟩ := of_decide_eq_true hs.1
  have hsome := hs.2
  cases hr' : Lib.run step s servedInParts with
  | error x =>
      simp only [hr'] at hsome
      cases hsome
  | ok p =>
      exact ⟨s, out, p.1, p.2, hr, hr', transmit_side_drains hr hover hserves hr'⟩

end SricIf

end Sricd
