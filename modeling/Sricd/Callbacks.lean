import Sricd.Enumeration
import Sricd.Transmitter

/-!
# What the callbacks do

The effect of each callback of the serial interface on the frame in flight
and on the queue, and what leaves the module: only a received frame leads
to a client, and only a client's request to a frame of a client.
-/

namespace Sricd

open Sricd.Lib

namespace SricIf

/-! ## What `if_tx` does to the frame in flight -/

/-- The frame in flight is written. -/
def Written (s : SricIf) : Prop := s.txFrame.isSome = true ∧ s.txpos = s.txlen

instance (s : SricIf) : Decidable s.Written := inferInstanceAs (Decidable (_ ∧ _))

/-- The frame that `if_tx` is about to write. -/
def sending (s : SricIf) : Option TxEntry :=
  match s.txFrame with
  | some e => some e
  | none => (s.txq.next (if s.enumerated then 1 else 0)).map Prod.fst

/-- The frame that a call of `if_tx` has written to its end. -/
def finished (s s' : SricIf) : Option TxEntry :=
  if ¬s.Written ∧ s'.txpos = s'.txlen then s.sending else none

/-- The frame whose transmission a call of `if_tx` has completed, where it
wants an ack. -/
def completed (s s' : SricIf) : Option TxEntry :=
  if ¬s.Written ∧ s'.txpos = s'.txlen then s'.txFrame else none

/-- `e` is in flight, or the next one on the queue. -/
def Origin (s s' : SricIf) (e : TxEntry) : Prop :=
  (s.txFrame = some e ∧ s'.txq = s.txq)
    ∨ (s.txFrame = none ∧ s.txq.next (if s.enumerated then 1 else 0) = some (e, s'.txq))

/-- The enumeration has no part in what happens. -/
structure Aside (s s' : SricIf) : Prop where
  enum : s'.enum = s.enum
  enumerated : s'.enumerated = s.enumerated
  cancelled : s.frameCancelled = false → s'.frameCancelled = false
  timers : ∀ t, s'.loop.pending (.enum t) = s.loop.pending (.enum t)

/-- Another source is not called again. -/
theorem Aside.drop {s s' : SricIf} (h : Aside s s') {id : Nat}
    (hid : ∀ t, (id, Source.enum t) ∉ s'.loop.live) : Aside s (s'.drop id) where
  enum := h.enum
  enumerated := h.enumerated
  cancelled := h.cancelled
  timers t := (MainLoop.pending_remove_of_ne (hid t)).trans (h.timers t)

theorem Sending.aside {s t : SricIf} {e : TxEntry} (h : Sending s t e) : Aside s t := by
  have hc : s.frameCancelled = false → t.frameCancelled = false := by
    intro hs
    rcases h.origin with rfl | ⟨-, -, hf, -⟩
    · exact hs
    · exact hf
  rw [h.rest] at hc ⊢
  exact ⟨rfl, rfl, hc, fun _ => rfl⟩

theorem Sending.from {s t : SricIf} {e : TxEntry} (h : Sending s t e) : Origin s t e := by
  rcases h.origin with rfl | ⟨hf, -, -, hn⟩
  · exact .inl ⟨h.txFrame, rfl⟩
  · exact .inr ⟨hf, hn⟩

theorem Sending.unwritten' {s t : SricIf} {e : TxEntry} (h : Sending s t e) : ¬s.Written := by
  intro hx
  obtain ⟨hf, hp⟩ := hx
  rcases h.origin with rfl | ⟨hn, -⟩
  · exact Nat.ne_of_lt h.unwritten hp
  · rw [hn] at hf
    cases hf

theorem busy_of_sending {s : SricIf} {e : TxEntry} (hsend : s.sending = some e)
    (hw : ¬s.Written) : s.Busy := by
  cases hf : s.txFrame with
  | some e' => exact .inl ⟨e', hf, fun hp => hw ⟨by rw [hf]; rfl, hp⟩⟩
  | none =>
      refine .inr ⟨hf, ?_⟩
      intro hnil
      rw [sending, hf] at hsend
      simp only [TxQueue.next_none.mpr hnil] at hsend
      cases hsend

theorem Origin.sending {s s' : SricIf} {e : TxEntry} (h : Origin s s' e) : s.sending = some e := by
  rcases h with ⟨hf, -⟩ | ⟨hf, hn⟩
  · rw [SricIf.sending, hf]
  · rw [SricIf.sending, hf]
    simp only [hn, Option.map_some]

theorem finished_none {s s' : SricIf} (h : s'.txpos ≠ s'.txlen) : s.finished s' = none :=
  if_neg fun hc => h hc.2

theorem finished_some {s s' : SricIf} {e : TxEntry} (ho : Origin s s' e) (hw : ¬s.Written)
    (h : s'.txpos = s'.txlen) : s.finished s' = some e := (if_pos ⟨hw, h⟩).trans ho.sending

/-- With nothing to write, nothing is finished. -/
theorem finished_idle {s s' : SricIf} (h : ¬s.Busy) (hp : s'.txpos = s.txpos)
    (hl : s'.txlen = s.txlen) : s.finished s' = none := by
  rw [finished]
  split
  · rename_i hc
    rw [hp, hl] at hc
    cases hf : s.txFrame with
    | some e => exact absurd ⟨by rw [hf]; rfl, hc.2⟩ hc.1
    | none =>
        have hr : s.readable = [] := by
          by_contra hr
          exact h (.inr ⟨hf, hr⟩)
        rw [SricIf.sending, hf]
        simp only [TxQueue.next_none.mpr hr, Option.map_none]
  · rfl

/-- **What a call of `if_tx` can do**: nothing, or it writes a part of the
frame, or its end, and is then done with it unless it waits for an ack. -/
theorem write_finishes {s s' : SricIf} {id : Nat} {w : Option Nat} {out : List IfOut}
    (h : TxInv s) (hs : s.step (.ifTx id w) = .ok (s', out)) :
    Aside s s' ∧ ((¬s.Busy ∧ s.finished s' = none ∧ s'.txFrame = s.txFrame ∧ s'.txq = s.txq)
      ∨ s.Busy ∧ ∃ e, Origin s s' e ∧
        ((s.finished s' = none ∧ s'.txFrame = some e)
          ∨ (s.finished s' = some e ∧ e.frame.needsAck = true ∧ s'.txFrame = some e)
          ∨ (s.finished s' = some e ∧ e.frame.needsAck = false ∧ s'.txFrame = none))) := by
  obtain ⟨hlive, hh⟩ := step_handle hs
  have hid := hlive _ rfl
  have hother : ∀ t, (id, Source.enum t) ∉ s.loop.live :=
    fun t ht => absurd (MainLoop.kind_unique hid ht) (by simp)
  simp only [handle] at hh
  split at hh
  · cases hh
  rename_i t out' keep hx
  cases hh
  rcases ifTx_cases h.toTxCore hx with ⟨hb, rfl, -, rfl⟩ | ⟨u, e, n, ht, hn, hw, -⟩
  · have haside : Aside s { s with writeSrcid := 0 } := ⟨rfl, rfl, fun hc => hc, fun _ => rfl⟩
    exact ⟨haside.drop hother, .inl ⟨hb, finished_idle hb rfl rfl, rfl, rfl⟩⟩
  · have haside := ht.aside
    have horigin := ht.from
    have hbusy := busy_of_sending horigin.sending ht.unwritten'
    have hloop : u.loop = s.loop := by rw [ht.rest]
    rcases written_cases ht.txFrame ht.unwritten hn with ⟨hlt, hwr⟩ | ⟨-, hack, hwr⟩ | ⟨-, hack, hwr⟩
    · cases hw.symm.trans hwr
      exact ⟨⟨haside.enum, haside.enumerated, haside.cancelled, haside.timers⟩,
        .inr ⟨hbusy, e, horigin, .inl ⟨finished_none (Nat.ne_of_lt hlt), ht.txFrame⟩⟩⟩
    · cases hw.symm.trans hwr
      have haside' : Aside s { u with txpos := u.txlen, loop := u.loop.add .txTimeout
                                      retxmitTimeoutId := u.loop.nextId, writeSrcid := 0 } := by
        refine ⟨haside.enum, haside.enumerated, haside.cancelled, ?_⟩
        intro t
        show (u.loop.add .txTimeout).pending (.enum t) = _
        rw [MainLoop.pending_add, if_neg (by simp), haside.timers, Nat.add_zero]
      refine ⟨haside'.drop ?_, .inr ⟨hbusy, e, horigin,
        .inr (.inl ⟨finished_some horigin ht.unwritten' rfl, hack, ht.txFrame⟩)⟩⟩
      intro t
      rw [MainLoop.mem_add, hloop]
      intro hx
      rcases hx with hl | hl
      · exact hother t hl
      · cases hl
    · cases hw.symm.trans hwr
      exact ⟨⟨haside.enum, haside.enumerated, haside.cancelled, haside.timers⟩,
        .inr ⟨hbusy, e, horigin, .inr (.inr ⟨finished_some horigin ht.unwritten' rfl, hack, rfl⟩)⟩⟩

theorem written_txpos (s : SricIf) (n : Nat) :
    (s.written n).1.txpos = s.txpos + n ∧ (s.written n).1.txlen = s.txlen := by
  rw [written]
  dsimp only
  split
  · exact ⟨rfl, rfl⟩
  split
  · exact ⟨rfl, rfl⟩
  · exact ⟨rfl, rfl⟩

/-- With something to write, the write watch writes, as much as `write`
takes. -/
theorem busy_writes {s : SricIf} (h : TxInv s) (hbusy : s.Busy) :
    ∃ t e, Sending s t e ∧ ∀ n ≤ t.txlen - t.txpos, ∃ u out,
      s.step (.ifTx s.writeSrcid (some n)) = .ok (u, out) ∧ u.txpos = t.txpos + n
        ∧ u.txlen = t.txlen := by
  have hlive := (h.watch s.writeSrcid).mpr ⟨rfl, h.ready hbusy⟩
  obtain ⟨t, e, hsending, hsend⟩ := ifTx_send h.toTxCore hbusy
  refine ⟨t, e, hsending, ?_⟩
  intro n hn
  obtain ⟨hpos, hlen⟩ := t.written_txpos n
  refine ⟨if (t.written n).2 then (t.written n).1 else (t.written n).1.drop s.writeSrcid,
    [.wrote ((t.txbuf.drop t.txpos).take n)], ?_, ?_, ?_⟩
  · show (if _ then s.handle (.ifTx s.writeSrcid (some n)) else _) = _
    rw [if_pos hlive, handle, hsend, send, if_neg (Nat.not_lt.mpr hn)]
  · split
    · exact hpos
    · exact hpos
  · split
    · exact hlen
    · exact hlen

/-- It can write the frame to its end. -/
theorem busy_finishes {s : SricIf} (h : TxInv s) (hbusy : s.Busy) :
    ∃ id w t out e, s.step (.ifTx id w) = .ok (t, out) ∧ s.finished t = some e := by
  obtain ⟨t, e, hsending, hwrites⟩ := busy_writes h hbusy
  obtain ⟨u, out, hs, hpos, hlen⟩ := hwrites (t.txlen - t.txpos) (Nat.le_refl _)
  have hlt := hsending.unwritten
  refine ⟨_, _, u, out, e, hs, ?_⟩
  rw [finished, if_pos ⟨hsending.unwritten', by omega⟩]
  exact hsending.from.sending

/-- The transmission that is completed is that of the frame written to its
end, where it waits for an ack. -/
theorem write_cases {s s' : SricIf} {id : Nat} {w : Option Nat} {out : List IfOut}
    (h : TxInv s) (hs : s.step (.ifTx id w) = .ok (s', out)) :
    Aside s s' ∧ ((s.completed s' = none ∧ s'.txFrame = s.txFrame ∧ s'.txq = s.txq)
      ∨ ∃ e, Origin s s' e ∧
        ((s.completed s' = none ∧ s'.txFrame = some e)
          ∨ (s.completed s' = some e ∧ s'.txFrame = some e ∧ e.frame.needsAck = true)
          ∨ (s.completed s' = none ∧ s'.txFrame = none ∧ e.frame.needsAck = false))) := by
  obtain ⟨haside, hcase⟩ := write_finishes h hs
  have hdone : ∀ e, s.finished s' = some e → s.completed s' = s'.txFrame := by
    intro e he
    rw [completed, if_pos]
    by_contra hc
    rw [finished, if_neg hc] at he
    cases he
  have hnot : ∀ e, Origin s s' e → s.finished s' = none → s.completed s' = none := by
    intro e ho hn
    rw [completed, if_neg]
    intro hc
    rw [finished_some ho hc.1 hc.2] at hn
    cases hn
  refine ⟨haside, ?_⟩
  rcases hcase with ⟨hb, hn, hf, hq⟩ | ⟨-, e, ho, ⟨hn, hf⟩ | ⟨he, hneeds, hf⟩ | ⟨he, hneeds, hf⟩⟩
  · refine .inl ⟨?_, hf, hq⟩
    cases hx : s.txFrame with
    | none => rw [completed, hf, hx, ite_self]
    | some e =>
        rw [completed, if_neg]
        intro hc
        rw [finished, if_pos hc, sending, hx] at hn
        cases hn
  · exact .inr ⟨e, ho, .inl ⟨hnot e ho hn, hf⟩⟩
  · exact .inr ⟨e, ho, .inr (.inl ⟨(hdone e he).trans hf, hf, hneeds⟩)⟩
  · exact .inr ⟨e, ho, .inr (.inr ⟨(hdone e he).trans hf, hf, hneeds⟩)⟩

/-! ## The other callbacks -/

theorem txTimeout_txFrame (s : SricIf) :
    s.txTimeout.1.txFrame = if s.frameCancelled then none else s.txFrame := by
  rw [txTimeout]
  by_cases hc : s.frameCancelled = true
  · rw [if_pos hc, if_pos hc]
    show (txReady _).txFrame = none
    rw [txReady_rest]
    rfl
  · rw [if_neg hc, if_neg hc]
    show (txReady _).txFrame = s.txFrame
    rw [txReady_rest]

theorem acked_txFrame (s : SricIf) : s.acked.txFrame = none := by
  rw [acked, txReady_rest]

/-- A timeout of the enumeration. -/
theorem killToken_cases {s s' : SricIf} {id : Nat} {out : List IfOut}
    (h : s.handle (.killToken id) = .ok (s', out)) :
    ∃ t, s.enumStep s.enum.killTokenTimeout = .ok (t, out) ∧ s' = t.drop id := by
  rw [handle] at h
  cases hr : s.enumStep s.enum.killTokenTimeout with
  | error x => rw [hr] at h; cases h
  | ok p =>
      rw [hr] at h
      cases h
      exact ⟨p.1, rfl, rfl⟩

theorem sendReset_cases {s s' : SricIf} {id : Nat} {out : List IfOut}
    (h : s.handle (.sendReset id) = .ok (s', out)) :
    ∃ t enum as again, s.enum.sendResetTimeout = some (enum, as, again)
      ∧ s.enumStep (some (enum, as)) = .ok (t, out)
      ∧ s' = if again then t else t.drop id := by
  simp only [handle] at h
  split at h
  · cases h
  · rename_i enum as again hr
    cases h
    exact ⟨_, enum, as, again, hr, rfl, rfl⟩

/-! ## What leaves the module -/

theorem acts_out {s : SricIf} {as : List EnumAction} {o : IfOut} (h : o ∈ (s.acts as).2) :
    ∃ i t, o = .deviceAdd i t := by
  induction as generalizing s with
  | nil => cases h
  | cons a as ih =>
      rcases List.mem_append.mp h with h | h
      · cases a with
        | deviceAdd i t => exact ⟨i, t, List.mem_singleton.mp h⟩
        | push f => cases h
        | addTimer t => cases h
      · exact ih h

theorem enumStep_out {s s' : SricIf} {r : Option (Enum × List EnumAction)} {out : List IfOut}
    (h : s.enumStep r = .ok (s', out)) {o : IfOut} (ho : o ∈ out) : ∃ i t, o = .deviceAdd i t := by
  cases r with
  | none => cases h
  | some p =>
      have hout : ({ s with enum := p.1 }.acts p.2).2 = out := congrArg Prod.snd (Except.ok.inj h)
      rw [← hout] at ho
      exact acts_out ho

/-- Where an output for a client comes from. -/
def Emits (s : SricIf) (ev : IfEvent) : IfOut → Prop
  | .note f => ∃ bytes note, ev = .frame bytes ∧ f = frameOf (PackedFrame.ofBytes bytes) note
  | .pushRx tag f => ∃ bytes e, ev = .frame bytes ∧ s.txFrame = some e ∧ tag = e.frame.tag
      ∧ f = frameOf (PackedFrame.ofBytes bytes) 0 ∧ (PackedFrame.ofBytes bytes).forMe = true
      ∧ (PackedFrame.ofBytes bytes).isAck = true
  | _ => True

theorem emits_deviceAdd {s : SricIf} {ev : IfEvent} {o : IfOut} (h : ∃ i t, o = .deviceAdd i t) :
    s.Emits ev o := by
  obtain ⟨i, t, rfl⟩ := h
  trivial

/-- What an ack for the frame in flight passes on: the response, to the
sender of the frame. -/
theorem retire_out {s s' : SricIf} {e : TxEntry} {p : PackedFrame} {out : List IfOut}
    (hf : s.txFrame = some e) (h : s.retire e p = .ok (s', out)) {o : IfOut} (ho : o ∈ out) :
    o = .pushRx e.frame.tag (frameOf p 0) ∨ (∃ i t, o = .deviceAdd i t) ∨ o = .listen
      ∨ o = .free e.ptr := by
  rcases retire_cases hf h with ⟨-, -, rfl⟩ | ⟨-, -, -, rfl⟩ | ⟨enum, as, more, -, -, -, -, rfl⟩
  · exact .inr (.inr (.inr (List.mem_singleton.mp ho)))
  · rcases List.mem_cons.mp ho with rfl | ho
    · exact .inl rfl
    · exact .inr (.inr (.inr (List.mem_singleton.mp ho)))
  · rw [List.mem_append, List.mem_append] at ho
    rcases ho with (ho | ho) | ho
    · exact .inr (.inl (acts_out ho))
    · cases more with
      | true => cases ho
      | false => exact .inr (.inr (.inl (List.mem_singleton.mp ho)))
    · exact .inr (.inr (.inr (List.mem_singleton.mp ho)))

theorem procRxFrame_emits {s s' : SricIf} {bytes : List Byte} {out : List IfOut}
    (h : s.procRxFrame bytes = .ok (s', out)) {o : IfOut} (ho : o ∈ out) :
    s.Emits (.frame bytes) o := by
  by_cases hme : (PackedFrame.ofBytes bytes).forMe = true
  · rcases procRxFrame_cases h with ⟨-, rfl⟩ | ⟨-, -, rfl | ⟨note, rfl⟩⟩ | ⟨e, hf, hack, hret⟩
    · cases ho
    · cases ho
    · rw [List.mem_singleton.mp ho]
      exact ⟨bytes, note, rfl, rfl⟩
    · rcases retire_out hf hret ho with rfl | hadd | rfl | rfl
      · exact ⟨bytes, e, rfl, hf, rfl, rfl, hme, hack⟩
      · exact emits_deviceAdd hadd
      · trivial
      · trivial
  · rw [procRxFrame, if_pos (Bool.eq_false_iff.mpr hme)] at h
    cases h
    cases ho

/-- **Only a received frame leads to a client.** -/
theorem step_emits {s s' : SricIf} {ev : IfEvent} {out : List IfOut} (h : TxInv s)
    (hs : s.step ev = .ok (s', out)) : ∀ o ∈ out, s.Emits ev o := by
  intro o ho
  have hh := (step_handle hs).2
  cases ev with
  | enumStart => exact emits_deviceAdd (enumStep_out hh ho)
  | push f pri =>
      cases hh
      cases ho
  | cancel tag =>
      have hout : (s.txqCancel tag).2 = out := congrArg Prod.snd (Except.ok.inj hh)
      rw [← hout] at ho
      obtain ⟨p, -, rfl⟩ := List.mem_map.mp ho
      trivial
  | ifTx id w =>
      simp only [handle] at hh
      split at hh
      · cases hh
      · rename_i hx
        cases hh
        rcases ifTx_cases h.toTxCore hx with ⟨-, -, rfl, -⟩ | ⟨u, e, n, -, -, -, rfl⟩
        · cases ho
        · rw [List.mem_singleton.mp ho]
          trivial
  | txTimeout id =>
      have hout : s.txTimeout.2 = out := congrArg Prod.snd (Except.ok.inj hh)
      rw [← hout, txTimeout] at ho
      by_cases hc : s.frameCancelled = true
      · rw [if_pos hc] at ho
        obtain ⟨e, -, rfl⟩ := Option.map_eq_some_iff.mp (Option.mem_toList.mp ho)
        trivial
      · rw [if_neg hc] at ho
        cases ho
  | killToken id =>
      obtain ⟨u, hu, -⟩ := killToken_cases hh
      exact emits_deviceAdd (enumStep_out hu ho)
  | sendReset id =>
      obtain ⟨u, enum, as, again, -, hu, -⟩ := sendReset_cases hh
      exact emits_deviceAdd (enumStep_out hu ho)
  | frame bytes => exact procRxFrame_emits hh ho

/-! ## The frames that are held -/

/-- The frames in flight and on the queues. -/
def held (s : SricIf) : List TxEntry := s.txFrame.toList ++ s.txq.entries

/-- The frame that is sent was held, and the others are still queued. -/
theorem held_sending {s t : SricIf} {e : TxEntry} (h : Sending s t e) :
    s.held = e :: t.txq.entries := by
  rcases h.origin with rfl | ⟨hf, -, -, hnext⟩
  · rw [held, h.txFrame]
    rfl
  · rw [held, hf]
    show s.txq.entries = _
    rcases (TxQueue.next_some hnext).2 with ⟨hq0, hq1⟩ | ⟨hq0, hq0', -, hq1⟩
    · rw [TxQueue.entries, hq0, ← hq1]
      rfl
    · rw [TxQueue.entries, TxQueue.entries, hq0, hq0', hq1]
      rfl

end SricIf

/-! ## A bus with one device -/

/-- The bytes of a frame on the bus. -/
def frameBytes (dest source : Byte) (payload : List Byte) : List Byte :=
  let head := [0x7E, dest, source, BitVec.ofNat 8 payload.length] ++ payload
  head ++ [(crc16 head).truncate 8, (crc16 head >>> 8).truncate 8]

/-- The bytes of an ack for us. -/
def ackBytes (source : Byte) (payload : List Byte) : List Byte := frameBytes 0x81 source payload

/-- A frame of a client, without payload. -/
def firstFrame : FrameT := ⟨.sric, 2, .client 0, [], by decide⟩

/-- The enumeration of a bus with one device, written with these events:
`exchange id w source payload` is the writing of a frame of `w` bytes and
the arrival of its ack. -/
def oneDevice {ε : Type} (start : ε) (killToken sendReset sent : Nat → ε)
    (exchange : Nat → Nat → Byte → List Byte → List ε) : List ε :=
  start :: exchange 1 7 1 [] ++ exchange 4 7 1 [] ++ exchange 6 7 1 []
    ++ killToken 2 :: exchange 8 8 1 []
    ++ (List.replicate 5 [sendReset 9, sent 11]).flatten
    ++ sendReset 9 :: exchange 11 7 1 [] ++ exchange 13 7 1 [] ++ exchange 15 7 1 [0]
    ++ exchange 17 8 2 [] ++ exchange 19 8 2 [] ++ exchange 21 7 1 [1] ++ exchange 23 8 3 []
    ++ exchange 25 8 1 [] ++ exchange 27 7 1 [] ++ exchange 29 7 2 [5] ++ exchange 31 7 3 [7]

end Sricd
