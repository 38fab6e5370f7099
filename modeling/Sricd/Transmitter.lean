import Sricd.SricIf

/-!
# The transmitter never stalls

What holds of the transmit side between any two callbacks (`TxInv`): the
retransmission timeout is registered exactly while a frame waits for its
ack, `txbuf` holds the whole encoding of the frame in flight, and the
write watch is registered whenever there is something to write.
-/

namespace Sricd

open Sricd.Lib

namespace SricIf

/-- The frame in flight is written, and an ack for it is to come. -/
def Waiting (s : SricIf) : Prop :=
  ∃ e, s.txFrame = some e ∧ s.txpos = s.txlen ∧ e.frame.needsAck = true

/-- The entries that the next `txq_next` may return. -/
def readable (s : SricIf) : List TxEntry :=
  s.txq.readable (if s.enumerated then 1 else 0)

theorem readable_eq (s : SricIf) :
    s.readable = if s.enumerated = true then s.txq.q0 ++ s.txq.q1 else s.txq.q0 := by
  rw [readable]
  split <;> rfl

/-- There is something for `if_tx` to write. -/
def Busy (s : SricIf) : Prop :=
  (∃ e, s.txFrame = some e ∧ s.txpos ≠ s.txlen) ∨ (s.txFrame = none ∧ s.readable ≠ [])

/-- What is known of the frame in flight. -/
structure InFlight (txbuf : List Byte) (txlen txpos : Nat) (e : TxEntry) : Prop where
  txpos_le : txpos ≤ txlen
  txlen_eq : txlen = e.frame.wire.length
  encoded : txbuf.take txlen = e.frame.wire
  needsAck : txpos = txlen → e.frame.needsAck = true

/-- The invariant of the transmit side, but for the write watch being
there when it is needed. -/
structure TxCore (s : SricIf) : Prop where
  watch : ∀ id, (id, Source.ifTx) ∈ s.loop.live ↔ id = s.writeSrcid ∧ s.writeSrcid ≠ 0
  timer : ∀ id, (id, Source.txTimeout) ∈ s.loop.live ↔ id = s.retxmitTimeoutId ∧ s.Waiting
  retxmit_lt : s.retxmitTimeoutId < s.loop.nextId
  retxmit_kind : ∀ k, (s.retxmitTimeoutId, k) ∈ s.loop.live → k = .txTimeout
  txbuf_length : s.txbuf.length = lineBufSize
  inFlight : ∀ e, s.txFrame = some e → InFlight s.txbuf s.txlen s.txpos e

/-- The invariant of the transmit side. -/
structure TxInv (s : SricIf) : Prop extends TxCore s where
  ready : s.Busy → s.writeSrcid ≠ 0

theorem txInv_init : TxInv init where
  watch id := by simp [init]
  timer id := by simp [init, Waiting]
  retxmit_lt := Nat.one_pos
  retxmit_kind k h := by cases h
  txbuf_length := List.length_replicate ..
  inFlight e he := by cases he
  ready h := by
    rcases h with ⟨e, he, -⟩ | ⟨-, h⟩
    · cases he
    · exact absurd rfl h

/-! ## `sric_if_tx_ready` -/

theorem txReady_eq {s : SricIf} (h : s.writeSrcid ≠ 0) : s.txReady = s := if_neg h

theorem txReady_writeSrcid (s : SricIf) : s.txReady.writeSrcid ≠ 0 := by
  rw [txReady]
  split
  · exact s.loop.nextId_ne_zero
  · assumption

/-- All that `sric_if_tx_ready` changes. -/
theorem txReady_rest (s : SricIf) :
    s.txReady = { s with loop := s.txReady.loop, writeSrcid := s.txReady.writeSrcid } := by
  rw [txReady]
  split <;> rfl

theorem txReady_live (s : SricIf) (p : Nat × Source) (hp : p.2 ≠ .ifTx) :
    p ∈ s.txReady.loop.live ↔ p ∈ s.loop.live := by
  rw [txReady]
  split
  · simp only [MainLoop.mem_add, or_iff_left_iff_imp]
    intro hx
    obtain rfl := hx
    exact absurd rfl hp
  · rfl

/-- `sric_if_tx_ready` does not touch the ids that are given out. -/
theorem txReady_old (s : SricIf) {id : Nat} (h : id < s.loop.nextId) :
    id < s.txReady.loop.nextId
      ∧ ∀ k, (id, k) ∈ s.txReady.loop.live ↔ (id, k) ∈ s.loop.live := by
  rw [txReady]
  split
  · refine ⟨Nat.lt_succ_of_lt h, ?_⟩
    intro k
    simp [Nat.ne_of_lt h]
  · exact ⟨h, fun k => Iff.rfl⟩

theorem txReady_watch {s : SricIf}
    (h : ∀ id, (id, Source.ifTx) ∈ s.loop.live ↔ id = s.writeSrcid ∧ s.writeSrcid ≠ 0) (id : Nat) :
    (id, Source.ifTx) ∈ s.txReady.loop.live
      ↔ id = s.txReady.writeSrcid ∧ s.txReady.writeSrcid ≠ 0 := by
  rw [txReady]
  split
  · rename_i h0
    have hid := s.loop.nextId_ne_zero
    simp [h id, h0, hid]
  · exact h id

/-- Once `sric_if_tx_ready` has run nothing more is needed. -/
theorem TxCore.txReady {s : SricIf} (h : TxCore s) : TxInv s.txReady where
  watch := txReady_watch h.watch
  timer id := by
    rw [s.txReady_live _ (by simp), h.timer id, txReady_rest]
    rfl
  retxmit_lt := by
    rw [show s.txReady.retxmitTimeoutId = s.retxmitTimeoutId by rw [txReady_rest]]
    exact (s.txReady_old h.retxmit_lt).1
  retxmit_kind k hk := by
    rw [show s.txReady.retxmitTimeoutId = s.retxmitTimeoutId by rw [txReady_rest],
      (s.txReady_old h.retxmit_lt).2] at hk
    exact h.retxmit_kind k hk
  txbuf_length := by
    rw [txReady_rest]
    exact h.txbuf_length
  inFlight e he := by
    rw [txReady_rest] at he ⊢
    exact h.inFlight e he
  ready _ := s.txReady_writeSrcid

/-! ## Calls from the rest of the daemon -/

theorem TxInv.txqPush {s : SricIf} (h : TxInv s) (f : FrameT) (pri : Fin 2) :
    TxInv (s.txqPush f pri) :=
  TxCore.txReady ⟨h.watch, h.timer, h.retxmit_lt, h.retxmit_kind, h.txbuf_length, h.inFlight⟩

/-- A cancel leaves the variables of the transmitter alone, but for
`frame_cancelled`. -/
theorem txqCancel_rest (s : SricIf) (tag : Tag) :
    (s.txqCancel tag).1
      = { s with txq := (s.txq.cancel tag).1
                 frameCancelled := (s.txqCancel tag).1.frameCancelled } := by
  simp only [txqCancel, ifCancel]
  split <;> rfl

theorem TxInv.txqCancel {s : SricIf} (h : TxInv s) (tag : Tag) : TxInv (s.txqCancel tag).1 := by
  rw [txqCancel_rest]
  refine ⟨⟨h.watch, h.timer, h.retxmit_lt, h.retxmit_kind, h.txbuf_length, h.inFlight⟩,
    fun hb => h.ready ?_⟩
  rcases hb with hb | ⟨hn, hr⟩
  · exact .inl hb
  · exact .inr ⟨hn, fun hnil => hr (TxQueue.readable_cancel hnil tag)⟩

/-! ## Enumeration -/

theorem TxInv.act {s : SricIf} (h : TxInv s) (a : EnumAction) : TxInv (s.act a).1 := by
  cases a with
  | push f => exact h.txqPush f 0
  | deviceAdd i t => exact h
  | addTimer t =>
      have hlive : ∀ id k, k ≠ Source.enum t →
          ((id, k) ∈ (s.loop.add (.enum t)).live ↔ (id, k) ∈ s.loop.live) := by
        intro id k hk
        simp [hk]
      refine ⟨⟨fun id => (hlive id _ (by simp)).trans (h.watch id),
        fun id => (hlive id _ (by simp)).trans (h.timer id), Nat.lt_succ_of_lt h.retxmit_lt,
        fun k hk => ?_, h.txbuf_length, h.inFlight⟩, h.ready⟩
      rcases (MainLoop.mem_add _ _ _).mp hk with hk | hk
      · exact h.retxmit_kind k hk
      · exact absurd (congrArg Prod.fst hk) (Nat.ne_of_lt h.retxmit_lt)

theorem TxInv.acts {s : SricIf} (h : TxInv s) (as : List EnumAction) : TxInv (s.acts as).1 := by
  induction as generalizing s with
  | nil => exact h
  | cons a as ih => exact ih (h.act a)

theorem TxInv.enum {s : SricIf} (h : TxInv s) (e : Enum) : TxInv { s with enum := e } :=
  ⟨⟨h.watch, h.timer, h.retxmit_lt, h.retxmit_kind, h.txbuf_length, h.inFlight⟩, h.ready⟩

/-- What the enumeration asks for, when the write watch is registered:
frames are queued and timeouts added, and nothing else changes. -/
theorem acts_rest {s : SricIf} (hw : s.writeSrcid ≠ 0) (as : List EnumAction) :
    (s.acts as).1 = { s with loop := (s.acts as).1.loop, txq := (s.acts as).1.txq }
      ∧ ∀ id k, (∀ t, k ≠ Source.enum t) →
          ((id, k) ∈ (s.acts as).1.loop.live ↔ (id, k) ∈ s.loop.live) := by
  induction as generalizing s with
  | nil => exact ⟨rfl, fun _ _ _ => Iff.rfl⟩
  | cons a as ih =>
      have hact : (s.act a).1 = { s with loop := (s.act a).1.loop, txq := (s.act a).1.txq }
          ∧ ∀ id k, (∀ t, k ≠ Source.enum t) →
            ((id, k) ∈ (s.act a).1.loop.live ↔ (id, k) ∈ s.loop.live) := by
        cases a with
        | push f =>
            have hpush : (s.act (.push f)).1 = { s with txq := s.txq.push f 0 } := txReady_eq hw
            rw [hpush]
            exact ⟨rfl, fun _ _ _ => Iff.rfl⟩
        | addTimer t =>
            refine ⟨rfl, ?_⟩
            intro id k hk
            simp [SricIf.act, hk t]
        | deviceAdd i t => exact ⟨rfl, fun _ _ _ => Iff.rfl⟩
      have hw' : (s.act a).1.writeSrcid ≠ 0 := by
        rw [hact.1]
        exact hw
      obtain ⟨hrest, hlive⟩ := ih hw'
      refine ⟨?_, fun id k hk => (hlive id k hk).trans (hact.2 id k hk)⟩
      show ((s.act a).1.acts as).1 = { s with loop := ((s.act a).1.acts as).1.loop
                                              txq := ((s.act a).1.acts as).1.txq }
      rw [hrest, hact.1]

/-! ## `if_tx` -/

/-- `t` is `s` when `e` is about to be written: it is in flight, or has
just been taken off the queue. -/
structure Sending (s t : SricIf) (e : TxEntry) : Prop where
  txFrame : t.txFrame = some e
  inFlight : InFlight t.txbuf t.txlen t.txpos e
  unwritten : t.txpos < t.txlen
  txbuf_length : t.txbuf.length = lineBufSize
  rest : t = { s with txq := t.txq, txFrame := t.txFrame, frameCancelled := t.frameCancelled
                      txbuf := t.txbuf, txlen := t.txlen, txpos := t.txpos }
  origin : t = s ∨ (s.txFrame = none ∧ t.txpos = 0 ∧ t.frameCancelled = false
    ∧ s.txq.next (if s.enumerated then 1 else 0) = some (e, t.txq))

theorem nextTx_cases {s : SricIf} (h : s.txbuf.length = lineBufSize) (hnone : s.txFrame = none) :
    (s.nextTx = some (s, false) ∧ s.readable = [])
      ∨ ∃ t e, s.nextTx = some (t, true) ∧ Sending s t e := by
  rw [nextTx]
  cases hn : s.txq.next (if s.enumerated then 1 else 0) with
  | none =>
      refine .inl ⟨?_, TxQueue.next_none.mp hn⟩
      show some (({ s with txFrame := none } : SricIf), false) = some (s, false)
      rw [← hnone]
  | some p =>
      obtain ⟨e, txq⟩ := p
      obtain ⟨buf, hb, hl, ht⟩ := buildFrame_wire h e.frame
      refine .inr ⟨_, e, by simp only [hb]; rfl, ?_⟩
      refine ⟨rfl, ⟨Nat.zero_le _, rfl, ht, fun h0 => ?_⟩, e.frame.wire_pos, hl, rfl,
        .inr ⟨hnone, rfl, rfl, hn⟩⟩
      exact absurd h0 (Nat.ne_of_lt e.frame.wire_pos)

theorem send_writes {t s' : SricIf} {w : Option Nat} {out : List IfOut} {keep : Bool}
    (h : t.send w = .ok (s', out, keep)) :
    ∃ n, w = some n ∧ n ≤ t.txlen - t.txpos ∧ t.written n = (s', keep)
      ∧ out = [.wrote ((t.txbuf.drop t.txpos).take n)] := by
  cases w with
  | none => cases h
  | some n =>
      rw [send] at h
      split at h
      · cases h
      · rename_i hn
        cases h
        exact ⟨n, rfl, Nat.le_of_not_lt hn, rfl, rfl⟩

/-- **What `if_tx` can do.** -/
theorem ifTx_writes {s s' : SricIf} {w : Option Nat} {out : List IfOut} {keep : Bool}
    (h : TxCore s) (hx : s.ifTx w = .ok (s', out, keep)) :
    (¬s.Busy ∧ s' = { s with writeSrcid := 0 } ∧ out = [] ∧ keep = false)
      ∨ ∃ t e n, w = some n ∧ Sending s t e ∧ n ≤ t.txlen - t.txpos ∧ t.written n = (s', keep)
          ∧ out = [.wrote ((t.txbuf.drop t.txpos).take n)] := by
  rw [ifTx] at hx
  rcases Option.eq_none_or_eq_some s.txFrame with hf | ⟨e, hf⟩
  · rw [if_neg (by rw [hf]; rintro ⟨hc, -⟩; cases hc), if_neg (by rw [hf]; exact Bool.false_ne_true)]
      at hx
    rcases nextTx_cases h.txbuf_length hf with ⟨hnext, hr⟩ | ⟨t, e, hnext, ht⟩
    · simp only [hnext] at hx
      cases hx
      refine .inl ⟨?_, rfl, rfl, rfl⟩
      intro hx
      rcases hx with ⟨_, he, -⟩ | ⟨-, hne⟩
      · rw [hf] at he
        cases he
      · exact hne hr
    · simp only [hnext] at hx
      exact .inr ⟨t, e, (send_writes hx).imp fun n hn => ⟨hn.1, ht, hn.2⟩⟩
  · by_cases hp : s.txpos = s.txlen
    · rw [if_pos ⟨by rw [hf]; rfl, hp⟩] at hx
      cases hx
      refine .inl ⟨?_, rfl, rfl, rfl⟩
      intro hx
      rcases hx with ⟨_, _, hne⟩ | ⟨hn, -⟩
      · exact hne hp
      · rw [hf] at hn
        cases hn
    · rw [if_neg fun hc => hp hc.2, if_pos (by rw [hf]; rfl)] at hx
      have hin := h.inFlight e hf
      have ht : Sending s s e :=
        ⟨hf, hin, Nat.lt_of_le_of_ne hin.txpos_le hp, h.txbuf_length, rfl, .inl rfl⟩
      exact .inr ⟨s, e, (send_writes hx).imp fun n hn => ⟨hn.1, ht, hn.2⟩⟩

theorem ifTx_cases {s s' : SricIf} {w : Option Nat} {out : List IfOut} {keep : Bool}
    (h : TxCore s) (hx : s.ifTx w = .ok (s', out, keep)) :
    (¬s.Busy ∧ s' = { s with writeSrcid := 0 } ∧ out = [] ∧ keep = false)
      ∨ ∃ t e n, Sending s t e ∧ n ≤ t.txlen - t.txpos ∧ t.written n = (s', keep)
          ∧ out = [.wrote ((t.txbuf.drop t.txpos).take n)] := by
  rcases ifTx_writes h hx with hidle | ⟨t, e, n, -, hwrite⟩
  · exact .inl hidle
  · exact .inr ⟨t, e, n, hwrite⟩

/-- With something to write, `if_tx` makes a `write`. -/
theorem ifTx_send {s : SricIf} (h : TxCore s) (hbusy : s.Busy) :
    ∃ t e, Sending s t e ∧ ∀ w, s.ifTx w = t.send w := by
  rcases hbusy with ⟨e, hf, hpos⟩ | ⟨hf, hreadable⟩
  · have hin := h.inFlight e hf
    refine ⟨s, e, ⟨hf, hin, Nat.lt_of_le_of_ne hin.txpos_le hpos, h.txbuf_length, rfl, .inl rfl⟩, ?_⟩
    intro w
    rw [ifTx, if_neg fun hc => hpos hc.2, if_pos (by rw [hf]; rfl)]
  · rcases nextTx_cases h.txbuf_length hf with ⟨-, hempty⟩ | ⟨t, e, hnext, hsending⟩
    · exact absurd hempty hreadable
    · refine ⟨t, e, hsending, ?_⟩
      intro w
      rw [ifTx, hf, if_neg (by simp), if_neg (by simp)]
      simp only [hnext]

/-- With nothing to write, it makes none. -/
theorem ifTx_idle {s : SricIf} (h : TxCore s) (hidle : ¬s.Busy) (w : Option Nat) :
    s.ifTx w = s.empty := by
  rw [ifTx]
  cases hf : s.txFrame with
  | none =>
      rw [if_neg (by simp), if_neg (by simp)]
      rcases nextTx_cases h.txbuf_length hf with ⟨hnext, -⟩ | ⟨t, e, -, hsending⟩
      · simp only [hnext]
      · rcases hsending.origin with rfl | ⟨-, -, -, hnext⟩
        · cases hf.symm.trans hsending.txFrame
        · refine absurd (.inr ⟨hf, fun hempty => ?_⟩) hidle
          cases hnext.symm.trans (TxQueue.next_none.mpr hempty)
  | some e =>
      have hpos : s.txpos = s.txlen := by
        by_contra hpos
        exact hidle (.inl ⟨e, hf, hpos⟩)
      exact if_pos ⟨rfl, hpos⟩

/-- What happens to the frame after a write. -/
theorem written_cases {t : SricIf} {e : TxEntry} {n : Nat} (hf : t.txFrame = some e)
    (hp : t.txpos < t.txlen) (hn : n ≤ t.txlen - t.txpos) :
    (t.txpos + n < t.txlen ∧ t.written n = ({ t with txpos := t.txpos + n }, true))
      ∨ (t.txpos + n = t.txlen ∧ e.frame.needsAck = true
        ∧ t.written n = ({ t with txpos := t.txlen, loop := t.loop.add .txTimeout
                                  retxmitTimeoutId := t.loop.nextId, writeSrcid := 0 }, false))
      ∨ (t.txpos + n = t.txlen ∧ e.frame.needsAck = false
        ∧ t.written n = ({ t with txpos := t.txlen, txFrame := none }, true)) := by
  rw [written]
  by_cases hl : t.txpos + n = t.txlen
  · have hmap : (t.txFrame.map fun e => e.frame.needsAck) = some e.frame.needsAck := by rw [hf]; rfl
    simp only [hl, ne_eq, not_true_eq_false, if_false, hmap, Option.some.injEq]
    cases hack : e.frame.needsAck with
    | true => exact .inr (.inl ⟨trivial, rfl, rfl⟩)
    | false => exact .inr (.inr ⟨trivial, rfl, rfl⟩)
  · exact .inl ⟨by omega, if_pos hl⟩

/-! ## Sources that are not called again -/

theorem TxInv.drop_enum {s : SricIf} (h : TxInv s) {id : Nat} {t : EnumTimer}
    (hid : (id, Source.enum t) ∈ s.loop.live) : TxInv (s.drop id) := by
  have hlive : ∀ id' k, k ≠ Source.enum t →
      ((id', k) ∈ (s.drop id).loop.live ↔ (id', k) ∈ s.loop.live) := by
    intro id' k hk
    rw [drop, MainLoop.mem_remove, and_iff_left_iff_imp]
    exact fun hl => MainLoop.id_ne_of_kind hl hid hk
  refine ⟨⟨fun id' => (hlive id' _ (by simp)).trans (h.watch id'),
    fun id' => (hlive id' _ (by simp)).trans (h.timer id'), h.retxmit_lt, fun k hk => ?_,
    h.txbuf_length, h.inFlight⟩, h.ready⟩
  exact h.retxmit_kind k ((MainLoop.mem_remove _ _ _).mp hk).1

/-- Nothing waits for an ack, so no retransmission is due. -/
theorem TxCore.no_timer {s : SricIf} (h : TxCore s) (hw : ¬s.Waiting) (id : Nat) :
    (id, Source.txTimeout) ∉ s.loop.live := fun hl => hw ((h.timer id).mp hl).2

/-- The other sources, once the write watch is dropped. -/
theorem TxCore.drop_watch {s : SricIf} (h : TxCore s) (hw : s.writeSrcid ≠ 0) {id : Nat}
    {k : Source} (hk : k ≠ .ifTx) :
    (id, k) ∈ (s.loop.remove s.writeSrcid).live ↔ (id, k) ∈ s.loop.live := by
  rw [MainLoop.mem_remove, and_iff_left_iff_imp]
  exact fun hl => MainLoop.id_ne_of_kind hl ((h.watch _).mpr ⟨rfl, hw⟩) hk

/-- With the write watch dropped and `write_srcid` cleared, there is none. -/
theorem TxCore.no_watch {s : SricIf} (h : TxCore s) (id : Nat) :
    (id, Source.ifTx) ∉ (s.loop.remove s.writeSrcid).live := by
  rw [MainLoop.mem_remove, h.watch]
  exact fun hl => hl.2 hl.1.1

theorem Sending.not_waiting {s t : SricIf} {e : TxEntry} (h : Sending s t e) : ¬t.Waiting := by
  intro hx
  obtain ⟨_, -, hp, -⟩ := hx
  exact Nat.ne_of_lt h.unwritten hp

theorem Sending.core {s t : SricIf} {e : TxEntry} (h : Sending s t e) (hs : TxCore s) :
    TxCore t := by
  have hnw : ¬s.Waiting := by
    intro hx
    obtain ⟨e', he', hp, -⟩ := hx
    rcases h.origin with rfl | ⟨hnone, -⟩
    · exact Nat.ne_of_lt h.unwritten hp
    · rw [hnone] at he'
      cases he'
  have hin := h.inFlight
  have hf := h.txFrame
  have htl := h.txbuf_length
  have hnt := h.not_waiting
  rw [h.rest] at hnt ⊢
  refine ⟨hs.watch, fun id => iff_of_false (hs.no_timer hnw id) fun hl => hnt hl.2,
    hs.retxmit_lt, hs.retxmit_kind, htl, fun e' he' => ?_⟩
  obtain rfl : e = e' := Option.some.inj (hf.symm.trans he')
  exact hin

theorem TxInv.ifTx {s s' : SricIf} {w : Option Nat} {out : List IfOut} {keep : Bool} {id : Nat}
    (h : TxInv s) (hid : (id, Source.ifTx) ∈ s.loop.live)
    (hx : s.ifTx w = .ok (s', out, keep)) : TxInv (if keep then s' else s'.drop id) := by
  obtain ⟨rfl, hws⟩ := (h.watch id).mp hid
  rcases ifTx_cases h.toTxCore hx with ⟨hb, rfl, -, rfl⟩ | ⟨t, e, n, ht, hn, hw, -⟩
  · refine ⟨⟨fun id' => iff_of_false (h.no_watch id') fun hl => hl.2 rfl,
      fun id' => (h.drop_watch hws (by simp)).trans (h.timer id'), h.retxmit_lt, fun k hk => ?_,
      h.txbuf_length, h.inFlight⟩, fun hb' => absurd hb' hb⟩
    exact h.retxmit_kind k ((MainLoop.mem_remove _ _ _).mp hk).1
  · have hid' : s.writeSrcid = t.writeSrcid := by rw [ht.rest]
    have hc := ht.core h.toTxCore
    have hf := ht.txFrame
    have hin := ht.inFlight
    have hnt := hc.no_timer ht.not_waiting
    rw [hid'] at hws ⊢
    rcases written_cases hf ht.unwritten hn with ⟨hlt, hwr⟩ | ⟨-, hack, hwr⟩ | ⟨-, -, hwr⟩
    · -- there is more to be written
      cases hw.symm.trans hwr
      refine ⟨⟨hc.watch, fun id' => iff_of_false (hnt id') ?_, hc.retxmit_lt, hc.retxmit_kind,
        hc.txbuf_length, fun e' he' => ?_⟩, fun _ => hws⟩
      · intro hx
        obtain ⟨-, e', -, hp, -⟩ := hx
        exact Nat.ne_of_lt hlt hp
      · obtain rfl : e = e' := Option.some.inj (hf.symm.trans he')
        exact ⟨Nat.le_of_lt hlt, hin.txlen_eq, hin.encoded, fun hp => absurd hp (Nat.ne_of_lt hlt)⟩
    · -- written, and an ack is to come
      cases hw.symm.trans hwr
      have hlive : ∀ id' k, (id', k) ∈ ((t.loop.add .txTimeout).remove t.writeSrcid).live
          ↔ (id', k) ∈ (t.loop.remove t.writeSrcid).live
            ∨ id' = t.loop.nextId ∧ k = .txTimeout := by
        intro id' k
        have hne : t.loop.nextId ≠ t.writeSrcid :=
          Nat.ne_of_gt (t.loop.fresh _ ((hc.watch _).mpr ⟨rfl, hws⟩)).2
        rw [MainLoop.mem_remove, MainLoop.mem_remove, MainLoop.mem_add, Prod.mk.injEq]
        constructor
        · intro hx
          obtain ⟨hl | hl, hi⟩ := hx
          · exact .inl ⟨hl, hi⟩
          · exact .inr hl
        · intro hcase
          rcases hcase with ⟨hl, hi⟩ | ⟨rfl, rfl⟩
          · exact ⟨.inl hl, hi⟩
          · exact ⟨.inr ⟨rfl, rfl⟩, hne⟩
      refine ⟨⟨fun id' => iff_of_false (fun hl => ?_) fun hl => hl.2 rfl, fun id' => ?_,
        Nat.lt_succ_self _, fun k hk => ?_, hc.txbuf_length, fun e' he' => ?_⟩, fun hb => ?_⟩
      · rcases (hlive id' _).mp hl with hl | hl
        · exact hc.no_watch id' hl
        · cases hl.2
      · refine (hlive id' _).trans ⟨?_, fun hl => .inr ⟨hl.1, rfl⟩⟩
        intro hl
        rcases hl with hl | hl
        · exact absurd ((MainLoop.mem_remove _ _ _).mp hl).1 (hnt id')
        · exact ⟨hl.1, e, hf, rfl, hack⟩
      · rcases (hlive _ k).mp hk with hk | hk
        · exact absurd ((MainLoop.mem_remove _ _ _).mp hk).1 (t.loop.nextId_not_live k)
        · exact hk.2
      · obtain rfl : e = e' := Option.some.inj (hf.symm.trans he')
        exact ⟨Nat.le_refl _, hin.txlen_eq, hin.encoded, fun _ => hack⟩
      · rcases hb with ⟨_, _, hne⟩ | ⟨hnone, -⟩
        · exact absurd rfl hne
        · cases hf.symm.trans hnone
    · -- written, and no ack is wanted
      cases hw.symm.trans hwr
      refine ⟨⟨hc.watch, fun id' => iff_of_false (hnt id') ?_, hc.retxmit_lt, hc.retxmit_kind,
        hc.txbuf_length, fun e' he' => by cases he'⟩, fun _ => hws⟩
      intro hx
      obtain ⟨-, e', he', -⟩ := hx
      cases he'

/-! ## `tx_timeout` and `proc_rx_frame` -/

theorem txReady_drop (s : SricIf) {id : Nat} (h : id < s.loop.nextId) :
    s.txReady.drop id = (s.drop id).txReady := by
  rw [txReady, txReady]
  by_cases h0 : s.writeSrcid = 0
  · rw [if_pos h0, if_pos (show (s.drop id).writeSrcid = 0 from h0)]
    simp only [drop, MainLoop.remove_add _ _ h, MainLoop.nextId_remove]
  · rw [if_neg h0, if_neg (show (s.drop id).writeSrcid ≠ 0 from h0)]

/-- With the retransmission timeout gone, the frame in flight may be
dropped, or written again. -/
theorem TxCore.untimed {s x : SricIf} (h : TxCore s)
    (hx : x = { s with loop := s.loop.remove s.retxmitTimeoutId, txFrame := x.txFrame
                       txpos := x.txpos, retxmitTimeoutId := x.retxmitTimeoutId })
    (hr : x.retxmitTimeoutId = s.retxmitTimeoutId ∨ x.retxmitTimeoutId = 0) (hnw : ¬x.Waiting)
    (hin : ∀ e, x.txFrame = some e → InFlight x.txbuf x.txlen x.txpos e) : TxCore x := by
  have hloop : x.loop = s.loop.remove s.retxmitTimeoutId := by rw [hx]
  have hlive : ∀ id k, (id, k) ∈ x.loop.live ↔ (id, k) ∈ s.loop.live ∧ id ≠ s.retxmitTimeoutId := by
    intro id k
    rw [hloop, MainLoop.mem_remove]
  refine ⟨?_, fun id => iff_of_false ?_ fun hl => hnw hl.2, ?_, ?_, ?_, hin⟩
  · intro id
    rw [hlive, show x.writeSrcid = s.writeSrcid by rw [hx], h.watch, and_iff_left_iff_imp]
    intro hx heq
    obtain ⟨rfl, hne⟩ := hx
    have hw := (h.watch s.writeSrcid).mpr ⟨rfl, hne⟩
    cases h.retxmit_kind _ (heq ▸ hw)
  · rw [hlive, h.timer]
    exact fun hl => hl.2 hl.1.1
  · rw [hloop, MainLoop.nextId_remove]
    rcases hr with hr | hr
    · rw [hr]
      exact h.retxmit_lt
    · rw [hr]
      exact s.loop.nextId_pos
  · intro k hk
    rw [hlive] at hk
    rcases hr with hr | hr
    · exact absurd hr hk.2
    · rw [hr] at hk
      exact absurd hk.1 (s.loop.zero_not_live k)
  · rw [show x.txbuf = s.txbuf by rw [hx]]
    exact h.txbuf_length

theorem TxInv.txTimeout {s : SricIf} (h : TxInv s) {id : Nat}
    (hid : (id, Source.txTimeout) ∈ s.loop.live) : TxInv (s.txTimeout.1.drop id) := by
  obtain ⟨rfl, e, hf, hp, hack⟩ := (h.timer id).mp hid
  have hin := h.inFlight e hf
  rw [SricIf.txTimeout]
  by_cases hc : s.frameCancelled = true
  · simp only [if_pos hc]
    rw [txReady_drop { s.freeTxFrame.1 with txpos := 0 } h.retxmit_lt]
    apply TxCore.txReady
    refine h.untimed rfl (.inl rfl) ?_ fun e' he' => by cases he'
    intro hx
    obtain ⟨e', he', -⟩ := hx
    cases he'
  · simp only [if_neg hc]
    rw [txReady_drop { s with txpos := 0 } h.retxmit_lt]
    have hpos : s.txlen ≠ 0 := by
      rw [hin.txlen_eq]
      exact Nat.ne_of_gt e.frame.wire_pos
    apply TxCore.txReady
    refine h.untimed rfl (.inl rfl) ?_ ?_
    · intro hcase
      obtain ⟨-, -, hp', -⟩ := hcase
      exact hpos hp'.symm
    · intro e' he'
      obtain rfl : e = e' := Option.some.inj (hf.symm.trans he')
      exact ⟨Nat.zero_le _, hin.txlen_eq, hin.encoded, fun _ => hack⟩

/-- The frame in flight plays no part in what the enumeration asks for. -/
theorem acts_txFrame (s : SricIf) (f : Option TxEntry) (as : List EnumAction) :
    { s with txFrame := f }.acts as = ({ (s.acts as).1 with txFrame := f }, (s.acts as).2) := by
  induction as generalizing s with
  | nil => rfl
  | cons a as ih =>
      have hact : { s with txFrame := f }.act a
          = ({ (s.act a).1 with txFrame := f }, (s.act a).2) := by
        cases a with
        | push g =>
            simp only [act, txqPush, txReady]
            split <;> rfl
        | addTimer t => rfl
        | deviceAdd i t => rfl
      rw [acts, hact]
      simp only [ih]
      rfl

/-- The state in which an ack for us finds the daemon: the timeout is
cancelled and the write watch is there, and the frame is about to go. -/
def acked (s : SricIf) : SricIf :=
  { s with loop := s.loop.remove s.retxmitTimeoutId, retxmitTimeoutId := 0, txFrame := none }.txReady

theorem TxCore.acked {s : SricIf} (h : TxCore s) : TxInv s.acked := by
  apply TxCore.txReady
  refine h.untimed rfl (.inr rfl) ?_ fun e' he' => by cases he'
  intro hx
  obtain ⟨e', he', -⟩ := hx
  cases he'

/-- **What an ack for the frame in flight does**: it is cancelled, or the
client gets the response, or the enumeration does. -/
theorem retire_cases {s s' : SricIf} {e : TxEntry} {f : PackedFrame} {out : List IfOut}
    (hf : s.txFrame = some e) (h : s.retire e f = .ok (s', out)) :
    (s.frameCancelled = true ∧ s' = s.acked ∧ out = [.free e.ptr])
      ∨ (s.frameCancelled = false ∧ s.enumerated = true ∧ s' = s.acked
        ∧ out = [.pushRx e.frame.tag (frameOf f 0), .free e.ptr])
      ∨ ∃ enum as more, s.frameCancelled = false ∧ s.enumerated = false
        ∧ s.enum.rx f = some (enum, as, more)
        ∧ s' = { ({ s.acked with enum := enum }.acts as).1 with enumerated := !more }
        ∧ out = ({ s.acked with enum := enum }.acts as).2
            ++ (if more then [] else [.listen]) ++ [.free e.ptr] := by
  rw [retire] at h
  generalize ht : { s with loop := s.loop.remove s.retxmitTimeoutId, retxmitTimeoutId := 0 }.txReady
    = t at h
  have hacked : s.acked = { t with txFrame := none } := by
    rw [← ht, acked]
    simp only [txReady]
    split <;> rfl
  have htf : t.txFrame = some e := by
    rw [← ht, txReady_rest]
    exact hf
  have hfree : ∀ u : SricIf, u.txFrame = some e →
      u.freeTxFrame = ({ u with txFrame := none }, [.free e.ptr]) := by
    intro u hu
    rw [freeTxFrame, hu]
    rfl
  rw [show s.frameCancelled = t.frameCancelled by rw [← ht, txReady_rest],
    show s.enumerated = t.enumerated by rw [← ht, txReady_rest],
    show s.enum = t.enum by rw [← ht, txReady_rest], hacked]
  by_cases hc : t.frameCancelled = true
  · rw [if_pos hc, hfree t htf] at h
    cases h
    exact .inl ⟨hc, rfl, rfl⟩
  · rw [if_neg hc] at h
    have hc' := Bool.eq_false_iff.mpr hc
    by_cases he : t.enumerated = true
    · rw [if_pos he, hfree t htf] at h
      cases h
      exact .inr (.inl ⟨hc', he, rfl, rfl⟩)
    · rw [if_neg he] at h
      rcases Option.eq_none_or_eq_some (t.enum.rx f) with hrx | ⟨⟨enum, as, more⟩, hrx⟩
      · rw [hrx] at h
        cases h
      · rw [hrx] at h
        have hacts := acts_txFrame { t with enum := enum } none as
        have hkeep : ({ t with enum := enum }.acts as).1.txFrame = some e := by
          have := congrArg (fun p => p.1.txFrame)
            (acts_txFrame { t with enum := enum } t.txFrame as)
          exact this.trans htf
        have hfr := hfree { ({ t with enum := enum }.acts as).1 with enumerated := !more } hkeep
        simp only [hfr] at h
        cases h
        exact .inr (.inr ⟨enum, as, more, hc', Bool.eq_false_iff.mpr he, hrx,
          by simp only [hacts], by simp only [hacts]⟩)

/-- With enumeration over, an ack is handed on unless the frame has been
cancelled. -/
theorem retire_over {s : SricIf} {e : TxEntry} (hf : s.txFrame = some e)
    (hc : s.frameCancelled = false) (hover : s.enumerated = true) (f : PackedFrame) :
    ∃ t, s.retire e f = .ok (t, [.pushRx e.frame.tag (frameOf f 0), .free e.ptr]) := by
  rw [retire]
  generalize ht : { s with loop := s.loop.remove s.retxmitTimeoutId, retxmitTimeoutId := 0 }.txReady
    = t
  have htf : t.txFrame = some e := by
    rw [← ht, txReady_rest]
    exact hf
  have htc : t.frameCancelled = false := by
    rw [← ht, txReady_rest]
    exact hc
  have hto : t.enumerated = true := by
    rw [← ht, txReady_rest]
    exact hover
  refine ⟨{ t with txFrame := none }, ?_⟩
  simp only [htc, hto, freeTxFrame, htf, Bool.false_eq_true, if_false, if_true]
  rfl

/-- With enumeration over, every ack can be taken. -/
theorem retire_ok {s : SricIf} {e : TxEntry} (hover : s.enumerated = true) (f : PackedFrame) :
    ∃ p, s.retire e f = .ok p := by
  rw [retire]
  generalize ht : { s with loop := s.loop.remove s.retxmitTimeoutId, retxmitTimeoutId := 0 }.txReady
    = t
  have hto : t.enumerated = true := by
    rw [← ht, txReady_rest]
    exact hover
  by_cases hc : t.frameCancelled = true
  · exact ⟨_, if_pos hc⟩
  · exact ⟨_, (if_neg hc).trans (if_pos hto)⟩

theorem TxInv.retire {s s' : SricIf} {e : TxEntry} {f : PackedFrame} {out : List IfOut}
    (h : TxInv s) (hf : s.txFrame = some e) (hr : s.retire e f = .ok (s', out)) : TxInv s' := by
  have hack := h.acked
  rcases retire_cases hf hr with ⟨-, rfl, -⟩ | ⟨-, -, rfl, -⟩ | ⟨enum, as, more, -, -, -, rfl, -⟩
  · exact hack
  · exact hack
  · -- queue 1 may become readable, but the write watch is there
    have hinv := (hack.enum enum).acts as
    have hws : ({ s.acked with enum := enum }.acts as).1.writeSrcid ≠ 0 := by
      rw [(acts_rest (s := { s.acked with enum := enum }) (txReady_writeSrcid _) as).1]
      exact txReady_writeSrcid _
    exact ⟨⟨hinv.watch, hinv.timer, hinv.retxmit_lt, hinv.retxmit_kind, hinv.txbuf_length,
      hinv.inFlight⟩, fun _ => hws⟩

/-- What becomes of an ack for us. -/
theorem procRxFrame_ack {s : SricIf} {e : TxEntry} {bytes : List Byte} (hf : s.txFrame = some e)
    (hme : (PackedFrame.ofBytes bytes).forMe = true)
    (hack : (PackedFrame.ofBytes bytes).isAck = true) :
    s.procRxFrame bytes = s.retire e (PackedFrame.ofBytes bytes) := by
  rw [procRxFrame, if_neg (Bool.not_eq_false _ ▸ hme), if_neg (Bool.not_eq_false _ ▸ hack)]
  simp only [hf]

/-- **What a received frame does.** -/
theorem procRxFrame_cases {s s' : SricIf} {bytes : List Byte} {out : List IfOut}
    (h : s.procRxFrame bytes = .ok (s', out)) :
    (s' = s ∧ out = [])
      ∨ ((PackedFrame.ofBytes bytes).isAck = false
        ∧ s' = s.txqPush (ackFor (PackedFrame.ofBytes bytes)) 0
        ∧ (out = [] ∨ ∃ note, out = [.note (frameOf (PackedFrame.ofBytes bytes) note)]))
      ∨ ∃ e, s.txFrame = some e ∧ (PackedFrame.ofBytes bytes).isAck = true
        ∧ s.retire e (PackedFrame.ofBytes bytes) = .ok (s', out) := by
  rw [procRxFrame] at h
  by_cases hme : (PackedFrame.ofBytes bytes).forMe = false
  · simp only [if_pos hme] at h
    cases h
    exact .inl ⟨rfl, rfl⟩
  · simp only [if_neg hme] at h
    by_cases hack : (PackedFrame.ofBytes bytes).isAck = false
    · simp only [if_pos hack] at h
      refine .inr (.inl ⟨hack, ?_⟩)
      split at h
      · cases h
        exact ⟨rfl, .inl rfl⟩
      · rename_i note _ _
        cases h
        exact ⟨rfl, .inr ⟨note, rfl⟩⟩
    · simp only [if_neg hack] at h
      split at h
      · cases h
        exact .inl ⟨rfl, rfl⟩
      · rename_i e hf
        exact .inr (.inr ⟨e, hf, by simpa using hack, h⟩)

theorem TxInv.procRxFrame {s s' : SricIf} {bytes : List Byte} {out : List IfOut} (h : TxInv s)
    (hr : s.procRxFrame bytes = .ok (s', out)) : TxInv s' := by
  rcases procRxFrame_cases hr with ⟨rfl, -⟩ | ⟨-, rfl, -⟩ | ⟨e, hf, -, hr'⟩
  · exact h
  · exact h.txqPush _ 0
  · exact h.retire hf hr'

/-! ## Runs -/

theorem step_handle {s s' : SricIf} {ev : IfEvent} {out : List IfOut}
    (h : s.step ev = .ok (s', out)) :
    (∀ p, ev.source = some p → p ∈ s.loop.live) ∧ s.handle ev = .ok (s', out) := by
  rw [step] at h
  split at h
  · rename_i p hp
    split at h
    · rename_i hl
      refine ⟨?_, h⟩
      intro q hq
      rw [hp] at hq
      cases hq
      exact hl
    · cases h
  · rename_i hn
    exact ⟨fun q hq => by rw [hn] at hq; (cases hq), h⟩

theorem TxInv.enumStep {s s' : SricIf} {r : Option (Enum × List EnumAction)} {out : List IfOut}
    (h : TxInv s) (hr : s.enumStep r = .ok (s', out)) : TxInv s' := by
  cases r with
  | none => cases hr
  | some p =>
      obtain rfl : _ = s' := congrArg Prod.fst (Except.ok.inj hr)
      exact (h.enum p.1).acts p.2

/-- A source of the enumeration stays registered while its callback runs. -/
theorem enum_live_enumStep {s s' : SricIf} {r : Option (Enum × List EnumAction)}
    {out : List IfOut} (hr : s.enumStep r = .ok (s', out)) {id : Nat} {t : EnumTimer}
    (hl : (id, Source.enum t) ∈ s.loop.live) : (id, Source.enum t) ∈ s'.loop.live := by
  have hacts : ∀ (as : List EnumAction) (u : SricIf), (id, Source.enum t) ∈ u.loop.live →
      (id, Source.enum t) ∈ (u.acts as).1.loop.live := by
    intro as
    induction as with
    | nil => exact fun _ hu => hu
    | cons a as ih =>
        intro u hu
        apply ih _
        cases a with
        | push f => exact (txReady_live _ _ (by simp)).mpr hu
        | addTimer t' => exact (MainLoop.mem_add ..).mpr (.inl hu)
        | deviceAdd i c => exact hu
  cases r with
  | none => cases hr
  | some p =>
      obtain rfl : _ = s' := congrArg Prod.fst (Except.ok.inj hr)
      exact hacts p.2 _ hl

/-- **Every callback keeps the invariant.** -/
theorem TxInv.step {s s' : SricIf} {ev : IfEvent} {out : List IfOut} (h : TxInv s)
    (hs : s.step ev = .ok (s', out)) : TxInv s' := by
  obtain ⟨hlive, hh⟩ := step_handle hs
  cases ev with
  | enumStart => exact h.enumStep hh
  | push f pri =>
      cases hh
      exact h.txqPush f pri
  | cancel tag =>
      cases hh
      exact h.txqCancel tag
  | ifTx id w =>
      simp only [handle] at hh
      split at hh
      · cases hh
      · rename_i hx
        cases hh
        exact h.ifTx (hlive _ rfl) hx
  | txTimeout id =>
      cases hh
      exact h.txTimeout (hlive _ rfl)
  | killToken id =>
      rw [handle] at hh
      cases hr : s.enumStep s.enum.killTokenTimeout with
      | error x => rw [hr] at hh; cases hh
      | ok p =>
          rw [hr] at hh
          cases hh
          exact (h.enumStep hr).drop_enum (enum_live_enumStep hr (hlive _ rfl))
  | sendReset id =>
      simp only [handle] at hh
      split at hh
      · cases hh
      · rename_i enum as again _
        cases hh
        have hr : s.enumStep (some (enum, as)) = .ok ({ s with enum := enum }.acts as) := rfl
        cases again with
        | true => exact h.enumStep hr
        | false => exact (h.enumStep hr).drop_enum (enum_live_enumStep hr (hlive _ rfl))
  | frame bytes => exact h.procRxFrame hh

theorem TxInv.run {s s' : SricIf} {evs : List IfEvent} {out : List IfOut} (h : TxInv s)
    (hr : Lib.run SricIf.step s evs = .ok (s', out)) : TxInv s' :=
  run_invariant (fun _ _ _ _ hi hs => hi.step hs) h hr

/-- **The transmitter never stalls and never corrupts its frame**: between
any two callbacks the retransmission timeout is registered exactly while
a written frame waits for its ack, `txbuf` holds the whole encoding of
the frame in flight, and the write watch is registered whenever there is
something to write. -/
theorem transmitter_never_stalls {evs : List IfEvent} {s : SricIf} {out : List IfOut}
    (h : Lib.run SricIf.step init evs = .ok (s, out)) :
    ((∃ id, (id, Source.txTimeout) ∈ s.loop.live)
        ↔ ∃ e, s.txFrame = some e ∧ s.txpos = s.txlen ∧ e.frame.tag ≠ .null
            ∧ e.frame.isAck = false)
      ∧ (∀ e, s.txFrame = some e → s.txpos ≤ s.txlen ∧ s.txlen = e.frame.wire.length
          ∧ s.txbuf.take s.txlen = e.frame.wire)
      ∧ ((∃ e, s.txFrame = some e ∧ s.txpos < s.txlen)
          ∨ (s.txFrame = none ∧ (s.txq.q0 ≠ [] ∨ s.enumerated = true ∧ s.txq.q1 ≠ [])) →
        s.writeSrcid ≠ 0 ∧ (s.writeSrcid, Source.ifTx) ∈ s.loop.live) := by
  have hinv := txInv_init.run h
  refine ⟨⟨?_, ?_⟩, ?_, ?_⟩
  · intro hx
    obtain ⟨id, hl⟩ := hx
    obtain ⟨-, e, he, hp, hack⟩ := (hinv.timer id).mp hl
    rw [FrameT.needsAck, Bool.and_eq_true] at hack
    exact ⟨e, he, hp, by simpa using hack.1, by simpa using hack.2⟩
  · intro hx
    obtain ⟨e, he, hp, htag, hack⟩ := hx
    refine ⟨_, (hinv.timer _).mpr ⟨rfl, e, he, hp, ?_⟩⟩
    rw [FrameT.needsAck, hack]
    simpa using htag
  · intro e he
    have hin := hinv.inFlight e he
    exact ⟨hin.txpos_le, hin.txlen_eq, hin.encoded⟩
  · intro hb
    have hws : s.writeSrcid ≠ 0 := by
      apply hinv.ready
      rcases hb with ⟨e, he, hlt⟩ | ⟨hn, hq⟩
      · exact .inl ⟨e, he, Nat.ne_of_lt hlt⟩
      · refine .inr ⟨hn, ?_⟩
        rw [readable_eq]
        rcases hq with hq | ⟨he, hq⟩
        · split <;> simp [hq]
        · simp [he, hq]
    exact ⟨hws, (hinv.watch _).mpr ⟨rfl, hws⟩⟩

/-- Three bytes of the first frame of the enumeration are written. -/
theorem transmitter_never_stalls_partial :
    ∃ s out, Lib.run SricIf.step init [.enumStart, .ifTx 1 (some 3)] = .ok (s, out)
      ∧ s.txpos = 3 ∧ s.writeSrcid ≠ 0 := by
  have hrun : ((Lib.run SricIf.step init [.enumStart, .ifTx 1 (some 3)]).toOption.any
      fun p => p.1.txFrame.isSome && p.1.txpos == 3 && p.1.txlen == 7) = true := by decide +kernel
  obtain ⟨⟨s, out⟩, hr, hs⟩ := ok_of_any hrun
  simp only [Bool.and_eq_true, beq_iff_eq] at hs
  obtain ⟨⟨hf, hp⟩, hl⟩ := hs
  obtain ⟨e, he⟩ := Option.isSome_iff_exists.mp hf
  have hready := (transmitter_never_stalls hr).2.2
  exact ⟨s, out, hr, hp, (hready (.inl ⟨e, he, by omega⟩)).1⟩

end SricIf

end Sricd
