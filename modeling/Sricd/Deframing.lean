import Mathlib.Data.List.TakeWhile
import Sricd.RxBuffers

/-!
# The receiver deframes

The callback `rx`, with its buffers and its reads, against the deframer
of the stuffing library, which has neither. The callback always returns
(`rx_returns`), and what it hands over is what the deframer delivers on
the bytes used so far (`Deframed.rx`), as long as `unescape` does not go
on past the end of a valid frame and take a framing byte there
(`Rx.overruns`).

Bytes may also stay unread: `advance_rx` reports no work when a framing
byte directly follows the one it has just copied, and the loop of `rx`
ends there (`Rx.stops`).
-/

namespace Sricd

open Sricd.Lib

/-- The deframer of the bus: at most `sizeof (unesc_rx)` bytes a frame,
accepted by the checks of `rx`. -/
def sricDeframer : Deframer Byte (List Byte) where
  toStuffing := sricStuffing
  cap := unescSize
  accept := Rx.checkFrame

/-! ## The checks of `rx` -/

/-- Bytes behind a frame do not change what is found in front of them. -/
theorem checkFrame_append {v f : List Byte} (h : Rx.checkFrame v = some f)
    (w : List Byte) : Rx.checkFrame (v ++ w) = some f := by
  have h3 : sricLen = 3 := rfl
  have h4 : sricHeaderSize = 4 := rfl
  have h4' : sricData = 4 := rfl
  have h6 : sricOverhead = 6 := rfl
  have hget : ∀ i, i < v.length → (v ++ w).getD i 0 = v.getD i 0 := by
    intro i hi
    simp only [List.getD_eq_getElem?_getD, List.getElem?_append_left hi]
  rw [Rx.checkFrame] at h ⊢
  by_cases hs : v.length < sricOverhead
  · rw [if_pos hs] at h
    cases h
  · rw [if_neg hs] at h
    rw [if_neg (by simp only [List.length_append]; omega), hget sricLen (by omega)]
    by_cases hl : v.length < sricOverhead + (v.getD sricLen 0).toNat
    · simp only [if_pos hl] at h
      cases h
    · simp only [if_neg hl] at h
      rw [if_neg (by simp only [List.length_append]; omega),
        List.take_append_of_le_length (by omega), List.take_append_of_le_length (by omega),
        hget _ (by omega), hget _ (by omega)]
      exact h

theorem checkFrame_short {v : List Byte} (h : v.length < sricOverhead) :
    Rx.checkFrame v = none := if_pos h

/-- The two checksum bytes, low byte first. -/
theorem recvCrc_eq (lo hi : Byte) :
    (lo.zeroExtend 16 ||| hi.zeroExtend 16 <<< 8 : BitVec 16) = hi ++ lo := by
  apply BitVec.eq_of_getLsbD_eq
  intro i h
  rw [BitVec.getLsbD_or, BitVec.getLsbD_shiftLeft, BitVec.zeroExtend,
    BitVec.getLsbD_setWidth, BitVec.getLsbD_setWidth, BitVec.getLsbD_append]
  by_cases h8 : i < 8
  · simp [h8, show i < 16 from h]
  · simp [h8, show i < 16 from h, show i - 8 < 16 by omega, BitVec.getLsbD_of_ge lo i (by omega)]

/-- A whole frame, unescaped, with the checksum it should have. -/
def IsFrame (f : List Byte) : Prop :=
  ∃ type dest src len payload lo hi, f = [type, dest, src, len] ++ payload ++ [lo, hi]
    ∧ payload.length = len.toNat ∧ crc16 ([type, dest, src, len] ++ payload) = hi ++ lo

/-- **What the checks of `rx` let through** is a frame, and what precedes
any bytes behind it. -/
theorem checkFrame_isFrame {v f : List Byte} (h : Rx.checkFrame v = some f) :
    IsFrame f ∧ f <+: v := by
  have h4 : sricHeaderSize = 4 := rfl
  have h4' : sricData = 4 := rfl
  have h6 : sricOverhead = 6 := rfl
  rw [Rx.checkFrame] at h
  split at h
  · cases h
  rename_i hs
  match v, hs with
  | type :: dest :: src :: len :: w, _ =>
      have hlen : (type :: dest :: src :: len :: w).getD sricLen 0 = len := rfl
      simp only [hlen] at h
      split at h
      · cases h
      rename_i hl
      split at h
      · cases h
      rename_i hcrc
      cases h
      have hw : len.toNat + 2 ≤ w.length := by
        simp only [List.length_cons] at hl
        omega
      obtain ⟨payload, rest, rfl, hp⟩ : ∃ p r, w = p ++ r ∧ p.length = len.toNat :=
        ⟨w.take len.toNat, w.drop len.toNat, (List.take_append_drop ..).symm,
          List.length_take_of_le (by omega)⟩
      match rest, hw with
      | lo :: hi :: rest, _ =>
          have hhead : ([type, dest, src, len] ++ payload).length = sricHeaderSize + len.toNat := by
            simp only [List.length_append, List.length_cons, List.length_nil]
            omega
          have hv : type :: dest :: src :: len :: (payload ++ lo :: hi :: rest)
              = [type, dest, src, len] ++ payload ++ ([lo, hi] ++ rest) := by simp
          have hcut : (type :: dest :: src :: len :: (payload ++ lo :: hi :: rest)).take
              (sricOverhead + len.toNat) = [type, dest, src, len] ++ payload ++ [lo, hi] := by
            rw [hv, ← List.append_assoc]
            apply List.take_left'
            simp only [List.length_append, List.length_cons, List.length_nil]
            omega
          have hget : ∀ i, (type :: dest :: src :: len :: (payload ++ lo :: hi :: rest)).getD
              (sricData + len.toNat + i) 0 = (lo :: hi :: rest).getD i 0 := by
            intro i
            have hle : ([type, dest, src, len] ++ payload).length ≤ sricData + len.toNat + i := by
              omega
            rw [hv, List.getD_eq_getElem?_getD, List.getElem?_append_right hle, hhead,
              show sricData + len.toNat + i - (sricHeaderSize + len.toNat) = i by omega,
              List.getD_eq_getElem?_getD]
            rfl
          rw [hcut]
          refine ⟨⟨type, dest, src, len, payload, lo, hi, rfl, hp, ?_⟩, rest, by simp⟩
          rw [hv, List.take_left' hhead, ← hv, hget 1, ← Nat.add_zero (sricData + len.toNat),
            hget 0, not_not] at hcrc
          exact hcrc.trans (recvCrc_eq lo hi)
      | [_], hw => simp at hw; omega
      | [], hw => simp at hw; omega

/-- The length byte tells how much is let through. -/
theorem checkFrame_length {v f : List Byte} (h : Rx.checkFrame v = some f) :
    f.length = sricOverhead + (v.getD sricLen 0).toNat := by
  rw [Rx.checkFrame] at h
  split at h
  · cases h
  dsimp only at h
  split at h
  · cases h
  rename_i hl
  split at h
  · cases h
  cases h
  exact List.length_take_of_le (Nat.le_of_not_lt hl)

/-! ## The state of the deframer -/

/-- The deframer's state for an assembled frame: a full buffer is given
up, as `advance_rx` does on its next turn. -/
def asmState (v : List Byte) : Deframer.State Byte :=
  if v = [] ∨ v.length = unescSize then .hunt else .frame v false

/-- State and deliveries once the checks of `rx` have seen `v`. -/
def outcome (v : List Byte) : Deframer.State Byte × List (List Byte) :=
  match Rx.checkFrame v with
  | some f => (.hunt, [f])
  | none => (asmState v, [])

theorem outcome_none {v : List Byte} (h : Rx.checkFrame v = none) :
    outcome v = (asmState v, []) := by
  rw [outcome, h]

theorem asmState_frame {v : List Byte} (hne : v ≠ []) (hlt : v.length < unescSize) :
    asmState v = .frame v false := if_neg (by rintro (h | h); exact hne h; omega)

/-- One assembled byte, and then what `hrec` says of the rest. -/
theorem feed_push {v rest dest : List Byte} {x : Byte}
    (hflag : Rx.checkFrame (v ++ [x]) ≠ none → ∀ b ∈ rest, isFramingByte b = false)
    (hlen : (v ++ [x]).length ≤ unescSize)
    (hfull : (v ++ [x]).length = unescSize → rest = [] ∧ dest = [])
    (hrec : (v ++ [x]).length < unescSize → Rx.checkFrame (v ++ [x]) = none →
      sricDeframer.feed (.frame (v ++ [x]) false) rest = outcome (v ++ [x] ++ dest)) :
    ((sricDeframer.feed (sricDeframer.push v x).1 rest).1,
      (sricDeframer.push v x).2 ++ (sricDeframer.feed (sricDeframer.push v x).1 rest).2)
      = outcome (v ++ x :: dest) := by
  have hcat : v ++ x :: dest = v ++ [x] ++ dest := by simp
  cases hc : Rx.checkFrame (v ++ [x]) with
  | some f =>
      -- complete: what follows up to the next framing byte is dropped
      rw [sricDeframer.push_some hc, sricDeframer.feed_hunt (hflag (by simp [hc])), hcat,
        outcome, checkFrame_append hc dest]
      rfl
  | none =>
      rcases Nat.lt_or_eq_of_le hlen with hlt | heq
      · rw [sricDeframer.push_none hc hlt, hrec hlt hc, hcat]
        rfl
      · obtain ⟨rfl, rfl⟩ := hfull heq
        rw [sricDeframer.push_full hc (Nat.le_of_eq heq.symm), outcome_none hc,
          asmState, if_pos (.inr heq)]
        rfl

theorem outcome_stay {v : List Byte} (hne : v ≠ []) (hlt : v.length < unescSize)
    (hacc : Rx.checkFrame v = none) : outcome (v ++ []) = (.frame v false, []) := by
  rw [List.append_nil, outcome_none hacc, asmState_frame hne hlt]

/-- Without room `unescape` does nothing. -/
theorem unescape_full {u dest : List Byte} {spos : Nat} (h : unescape u 0 = (spos, dest)) :
    spos = 0 ∧ dest = [] := by
  cases u <;> (cases h; exact ⟨rfl, rfl⟩)

/-- Unescaping `u` behind the assembled `v` goes on past the end of a
valid frame, and takes a framing byte there as the byte behind an escape. -/
def overrun (u v : List Byte) (n : Nat) : Bool :=
  (List.range (unescape u n).1).any fun i =>
    (Rx.checkFrame (v ++ (unescape (u.take i) n).2)).isSome
      && ((u.take (unescape u n).1).drop i).any isFramingByte

/-- Where a frame is complete, no framing byte is taken any more. -/
theorem overrun_false {u v : List Byte} {n i : Nat} (h : overrun u v n = false)
    (hc : Rx.checkFrame (v ++ (unescape (u.take i) n).2) ≠ none) :
    ∀ b ∈ (u.take (unescape u n).1).drop i, isFramingByte b = false := by
  intro b hb
  have hi : i < (unescape u n).1 := by
    have hlen := List.length_pos_of_mem hb
    rw [List.length_drop, List.length_take] at hlen
    omega
  rw [overrun, List.any_eq_false] at h
  have hall := h i (List.mem_range.mpr hi)
  rw [Bool.and_eq_true, Option.isSome_iff_ne_none] at hall
  have hany := Bool.eq_false_iff.mpr fun hx => hall ⟨hc, hx⟩
  simpa using List.any_eq_false.mp hany b hb

/-- **A call of `unescape` deframes**, when it does not overrun. -/
theorem feed_unescape {u v : List Byte} {n : Nat} (hn : 0 < n)
    (hlen : v.length + n = unescSize) (hne : v ≠ []) (hacc : Rx.checkFrame v = none)
    (hover : ∀ i, Rx.checkFrame (v ++ (unescape (u.take i) n).2) ≠ none →
      ∀ b ∈ (u.take (unescape u n).1).drop i, isFramingByte b = false) :
    sricDeframer.feed (.frame v false) (u.take (unescape u n).1)
      = outcome (v ++ (unescape u n).2) := by
  fun_induction unescape u n generalizing v with
  | case1 => exact (outcome_stay hne (by omega) hacc).symm
  | case2 => exact absurd hn (Nat.lt_irrefl 0)
  | case3 => exact (outcome_stay hne (by omega) hacc).symm
  | case4 n x src spos dest h ih =>
      simp only [h] at ih
      simp only [List.take_succ_cons] at hover ⊢
      have hv : (v ++ [x ^^^ 0x20]).length = v.length + 1 := by simp
      rw [sricDeframer.feed_cons, show (125 : Byte) = sricDeframer.esc from rfl,
        sricDeframer.step_esc, sricDeframer.feed_cons, sricDeframer.step_escaped,
        show sricDeframer.flip x = x ^^^ 0x20 from rfl]
      refine feed_push (?_) (by omega) ?_ ?_
      · intro hc
        have := hover 2
        simp only [List.take_succ_cons, List.take_zero, unescape_esc, unescape] at this
        exact this hc
      · intro hfull
        have hn0 : n = 0 := by omega
        subst hn0
        obtain ⟨rfl, rfl⟩ := unescape_full h
        exact ⟨rfl, rfl⟩
      · intro hlt hc
        apply ih (by omega) (by omega) (by simp) hc
        intro i hi
        have := hover (i + 2)
        simp only [List.take_succ_cons, unescape_esc] at this
        exact this (by simpa using hi)
  | case5 => exact (outcome_stay hne (by omega) hacc).symm
  | case6 b src n hb hf spos dest h ih =>
      simp only [h] at ih
      simp only [List.take_succ_cons] at hover ⊢
      have hplain : ¬(sricDeframer.flag b = true ∨ b = sricDeframer.esc) := by
        rw [not_or]
        exact ⟨fun hx => hf (isFramingByte_iff.mp hx), hb⟩
      have hv : (v ++ [b]).length = v.length + 1 := by simp
      rw [sricDeframer.feed_cons, sricDeframer.step_plain v hplain]
      refine feed_push (?_) (by omega) ?_ ?_
      · intro hc
        have := hover 1
        simp only [List.take_succ_cons, List.take_zero, unescape_plain hb hf, unescape] at this
        exact this hc
      · intro hfull
        have hn0 : n = 0 := by omega
        subst hn0
        obtain ⟨rfl, rfl⟩ := unescape_full h
        exact ⟨rfl, rfl⟩
      · intro hlt hc
        apply ih (by omega) (by omega) (by simp) hc
        intro i hi
        have := hover (i + 1)
        simp only [List.take_succ_cons, unescape_plain hb hf] at this
        exact this (by simpa using hi)

/-! ## One turn of the loop -/

/-- `startList` finds no frame: the deframer finds none either. -/
theorem feed_startList_none {u v : List Byte} (h : Rx.startList u v = none) :
    sricDeframer.feed (asmState v) u = (.hunt, []) := by
  rw [Rx.startList] at h
  split at h
  · rename_i hc
    split at h
    · rename_i hnil
      have hflag : ∀ b ∈ u, isFramingByte b = false := by
        simpa using List.dropWhile_eq_nil_iff.mp hnil
      have hstate : asmState v = .hunt := by
        rcases hc with hb | hv | hv
        · cases u with
          | nil => cases hb
          | cons b u =>
              rw [List.headD_cons, hflag b (by simp)] at hb
              cases hb
        · exact if_pos (.inr hv)
        · exact if_pos (.inl hv)
      rw [hstate]
      exact sricDeframer.feed_hunt hflag
    · cases h
  · cases h

/-- The skipping stops at a framing byte. -/
theorem isFramingByte_of_dropWhile {u w : List Byte} {b : Byte}
    (hw : u.dropWhile (!isFramingByte ·) = b :: w) : isFramingByte b = true := by
  have := List.head?_dropWhile_not (!isFramingByte ·) u
  rw [hw] at this
  simpa using this

/-- `startList` goes on with a frame, or starts one at a framing byte. -/
theorem feed_startList {u v u' v' : List Byte} (h : Rx.startList u v = some (u', v'))
    (hacc : Rx.checkFrame v = none) (hle : v.length ≤ unescSize) :
    (∃ c, u = c ++ u' ∧ sricDeframer.feed (asmState v) c = (asmState v', []))
      ∧ v' ≠ [] ∧ v'.length < unescSize ∧ Rx.checkFrame v' = none := by
  rw [Rx.startList] at h
  split at h
  · rename_i hc
    split at h
    · cases h
    · rename_i b w hw
      cases h
      have hb := isFramingByte_of_dropWhile hw
      have hjunk : ∀ x ∈ u.takeWhile (!isFramingByte ·), isFramingByte x = false := by
        intro x hx
        simpa using List.mem_takeWhile_imp hx
      refine ⟨⟨u.takeWhile (!isFramingByte ·) ++ [b], ?_, ?_⟩, by simp,
        Nat.lt_add_left _ (by decide : 1 < 64), checkFrame_short (Nat.lt_add_left _ (by decide : 1 < 2))⟩
      · rw [List.append_assoc, List.singleton_append, ← hw, List.takeWhile_append_dropWhile]
      · -- junk is dropped while hunting, and there is none otherwise
        have hidle : (asmState v).escaped = false := by
          rw [asmState]
          split <;> rfl
        have hdrop : sricDeframer.feed (asmState v) (u.takeWhile (!isFramingByte ·))
            = (asmState v, []) := by
          rcases hc with hd | hv
          · cases u with
            | nil => cases hd
            | cons x u => simp [show isFramingByte x = true from hd]
          · rw [show asmState v = .hunt from if_pos hv.symm]
            exact sricDeframer.feed_hunt hjunk
        rw [sricDeframer.feed_append, hdrop, sricDeframer.feed_cons,
          sricDeframer.step_flag hidle hb]
        rfl
  · rename_i hc
    cases h
    simp only [not_or] at hc
    exact ⟨⟨[], rfl, rfl⟩, hc.2.2, Nat.lt_of_le_of_ne hle hc.2.1, hacc⟩

namespace Rx

/-- The call of `unescape` goes past the end of a valid frame and takes a
framing byte there. -/
def overruns (st : Rx) : Bool :=
  match st.startFrame with
  | some (st, true) => overrun st.unread st.assembled (unescSize - st.unescPos)
  | _ => false

/-- A framing byte directly follows the one just copied: `unescape` uses
nothing and the turn reports no work, with bytes still unread. -/
def stops (st : Rx) : Bool :=
  match st.startFrame with
  | some (st, true) => isFramingByte (st.unread.headD 0)
  | _ => false

/-- The state after the checks of one turn of the loop. -/
def settle (st : Rx) : Rx :=
  match checkFrame st.assembled with
  | none => st
  | some _ => { st with unescPos := 0 }

/-- `p` holds at the start of some turn of the loop. -/
def anyTurn (p : Rx → Bool) : Nat → Rx → Bool
  | 0, _ => false
  | fuel + 1, st =>
      p st || match st.advance with
        | some (st, true) => anyTurn p fuel st.settle
        | _ => false

theorem loop_work {st st' : Rx} (h : st.advance = some (st', true)) (fuel : Nat) :
    st.loop (fuel + 1)
      = (st'.settle.loop fuel).map fun (t, fs) => (t, (checkFrame st'.assembled).toList ++ fs) := by
  rw [loop, h]
  simp only [settle]
  cases checkFrame st'.assembled with
  | none => cases st'.loop fuel <;> simp
  | some f => cases ({ st' with unescPos := 0 } : Rx).loop fuel <;> simp

theorem loop_idle {st st' : Rx} (h : st.advance = some (st', false)) (fuel : Nat) :
    st.loop (fuel + 1) = some (st', []) := by
  rw [loop, h]

theorem WF.settle {st : Rx} (h : st.WF) : st.settle.WF := by
  rw [Rx.settle]
  split
  · exact h
  · exact h.reset

theorem Fresh.settle {st : Rx} (h : st.Fresh) : st.settle.Fresh := by
  rw [Rx.settle]
  split
  · exact h
  · exact fun _ _ => rfl

@[simp] theorem settle_unread (st : Rx) : st.settle.unread = st.unread := by
  rw [settle]
  split <;> rfl

@[simp] theorem settle_rxpos (st : Rx) : st.settle.rxpos = st.rxpos := by
  rw [settle]
  split <;> rfl

/-- What the checks leave assembled is nothing they accept. -/
theorem checkFrame_settle (st : Rx) : checkFrame st.settle.assembled = none := by
  rw [settle]
  split
  · assumption
  · exact checkFrame_short (by simp [assembled])

theorem outcome_settle (st : Rx) :
    outcome st.assembled = (asmState st.settle.assembled, (checkFrame st.assembled).toList) := by
  rw [outcome, settle]
  split
  · rename_i f h
    simp only [h]
    rfl
  · rename_i h
    simp only [h]
    rfl

/-- **One turn deframes** the bytes it uses. -/
theorem WF.turn_deframes {st st' : Rx} {used : Bool} (h : st.WF) (hf : st.Fresh)
    (hacc : checkFrame st.assembled = none) (hov : st.overruns = false)
    (ha : st.advance = some (st', used)) :
    ∃ c, st.unread = c ++ st'.unread
      ∧ sricDeframer.feed (asmState st.assembled) c = outcome st'.assembled := by
  have hvle := h.assembled_le
  rcases h.startFrame_eq hf with ⟨st1, hs, -, hu, hv, hl⟩ | ⟨st1, hs, hwf1, -, hl⟩
  · rw [advance, hs] at ha
    cases ha
    refine ⟨st.unread, by rw [hu, List.append_nil], ?_⟩
    rw [feed_startList_none hl, hv]
    rfl
  · obtain ⟨⟨c, hc, hfeed⟩, hne, hlt, hacc1⟩ := feed_startList hl hacc hvle
    obtain ⟨st2, hadv, -, hu2, hv2, -⟩ := h.advance_of_start hf hs
    rw [ha] at hadv
    obtain ⟨rfl, -⟩ := Prod.mk.inj (Option.some.inj hadv)
    rw [overruns, hs] at hov
    simp only [← hwf1.assembled_length] at hov
    have hun := feed_unescape (by omega) (by omega) hne hacc1 fun i hi => overrun_false hov hi
    refine ⟨c ++ st1.unread.take (unescape st1.unread (unescSize - st1.assembled.length)).1, ?_, ?_⟩
    · rw [hu2, List.append_assoc, List.take_append_drop, hc]
    · rw [sricDeframer.feed_append, hfeed, asmState_frame hne hlt, hun, hv2]
      rfl

/-- A turn without work ends the loop with nothing to check, and with
nothing unread but an escape whose byte is still to come, unless it
stops at a framing byte. -/
theorem WF.turn_idle {st st' : Rx} (h : st.WF) (hf : st.Fresh)
    (hacc : checkFrame st.assembled = none) (ha : st.advance = some (st', false)) :
    checkFrame st'.assembled = none
      ∧ (st.stops = false → st'.unread = [] ∨ st'.unread = [0x7D]) := by
  have hvle := h.assembled_le
  rcases h.startFrame_eq hf with ⟨st1, hs, -, hu, hv, hl⟩ | ⟨st1, hs, hwf1, -, hl⟩
  · rw [advance, hs] at ha
    cases ha
    rw [hv]
    exact ⟨checkFrame_short (by decide), fun _ => .inl hu⟩
  · obtain ⟨-, -, hlt, hacc1⟩ := feed_startList hl hacc hvle
    obtain ⟨st2, hadv, -, hu2, hv2, -⟩ := h.advance_of_start hf hs
    rw [ha] at hadv
    obtain ⟨rfl, hused⟩ := Prod.mk.inj (Option.some.inj hadv)
    have hnil : (unescape st1.unread (unescSize - st1.assembled.length)).2 = [] := by
      simpa using hused
    have hzero := (unescape_used st1.unread (unescSize - st1.assembled.length)).mpr hnil
    rw [hnil, List.append_nil] at hv2
    rw [hzero, List.drop_zero] at hu2
    refine ⟨by rw [hv2]; exact hacc1, ?_⟩
    intro hst
    rw [stops, hs] at hst
    rw [hu2]
    rcases unescape_stuck (by omega) hnil with hx | hx | hx
    · exact .inl hx
    · exact .inr hx
    · exact absurd (hx.symm.trans hst) (by decide)

/-! ## The loop and the callback -/

/-- **The loop of `rx` ends**: each turn but the last uses a byte. -/
theorem WF.loop_returns {fuel : Nat} {st : Rx} (h : st.WF) (hf : st.Fresh)
    (hfuel : st.rxpos < fuel) : ∃ st' fs, st.loop fuel = some (st', fs) ∧ st'.WF := by
  induction fuel generalizing st with
  | zero => omega
  | succ fuel ih =>
      obtain ⟨st', used, ha, hwf, hused⟩ := h.advance_returns hf
      cases used with
      | false => exact ⟨st', [], loop_idle ha fuel, hwf⟩
      | true =>
          obtain ⟨hfr, hlt⟩ := hused rfl
          obtain ⟨st'', fs, hl, hwf''⟩ := ih hwf.settle hfr.settle
            (by rw [settle_rxpos]; omega)
          exact ⟨st'', _, by rw [loop_work ha, hl]; rfl, hwf''⟩

/-- **A turn of the loop**: it is the last one, or the loop goes on behind
the bytes that it has used. -/
theorem WF.loop_cases {fuel : Nat} {st st' : Rx} {fs : List (List Byte)} (h : st.WF)
    (hf : st.Fresh) (hl : st.loop (fuel + 1) = some (st', fs)) :
    (st.advance = some (st', false) ∧ fs = [])
    ∨ ∃ st1 fs1, st.advance = some (st1, true) ∧ st1.WF ∧ st1.Fresh ∧ st1.rxpos < st.rxpos
      ∧ st1.settle.loop fuel = some (st', fs1)
      ∧ fs = (checkFrame st1.assembled).toList ++ fs1 := by
  obtain ⟨st1, used, ha, hwf, hused⟩ := h.advance_returns hf
  cases used with
  | false =>
      rw [loop_idle ha] at hl
      cases hl
      exact .inl ⟨ha, rfl⟩
  | true =>
      obtain ⟨hfr, hlt⟩ := hused rfl
      rw [loop_work ha] at hl
      obtain ⟨⟨st2, fs1⟩, hl1, heq⟩ := Option.map_eq_some_iff.mp hl
      obtain ⟨rfl, rfl⟩ := Prod.mk.inj heq
      exact .inr ⟨st1, fs1, ha, hwf, hfr, hlt, hl1, rfl⟩

/-- The loop leaves nothing unchecked, and nothing unread but an escape
whose byte is still to come, unless it stops at a framing byte. -/
theorem WF.loop_drains {fuel : Nat} {st st' : Rx} {fs : List (List Byte)} (h : st.WF)
    (hf : st.Fresh) (hacc : checkFrame st.assembled = none)
    (hl : st.loop fuel = some (st', fs)) :
    checkFrame st'.assembled = none
      ∧ (st.anyTurn stops fuel = false → st'.unread = [] ∨ st'.unread = [0x7D]) := by
  induction fuel generalizing st fs with
  | zero => cases hl
  | succ fuel ih =>
      simp only [anyTurn, Bool.or_eq_false_iff]
      rcases h.loop_cases hf hl with ⟨ha, -⟩ | ⟨st1, fs1, ha, hwf, hfr, -, hl1, -⟩
      · obtain ⟨hacc', hend⟩ := h.turn_idle hf hacc ha
        exact ⟨hacc', fun hst => hend hst.1⟩
      · obtain ⟨hacc', hend⟩ := ih hwf.settle hfr.settle (checkFrame_settle st1) hl1
        refine ⟨hacc', fun hst => hend ?_⟩
        rw [ha] at hst
        exact hst.2

/-- **The loop deframes** the bytes it uses. -/
theorem WF.loop_deframes {fuel : Nat} {st st' : Rx} {fs : List (List Byte)} (h : st.WF)
    (hf : st.Fresh) (hacc : checkFrame st.assembled = none)
    (hov : st.anyTurn overruns fuel = false) (hl : st.loop fuel = some (st', fs)) :
    ∃ c, st.unread = c ++ st'.unread
      ∧ sricDeframer.feed (asmState st.assembled) c = (asmState st'.assembled, fs) := by
  induction fuel generalizing st fs with
  | zero => cases hl
  | succ fuel ih =>
      simp only [anyTurn, Bool.or_eq_false_iff] at hov
      rcases h.loop_cases hf hl with ⟨ha, rfl⟩ | ⟨st1, fs1, ha, hwf, hfr, -, hl1, rfl⟩
      · obtain ⟨c, hc, hfeed⟩ := h.turn_deframes hf hacc hov.1 ha
        rw [outcome_none (h.turn_idle hf hacc ha).1] at hfeed
        exact ⟨c, hc, hfeed⟩
      · obtain ⟨c, hc, hfeed⟩ := h.turn_deframes hf hacc hov.1 ha
        rw [ha] at hov
        obtain ⟨c1, hc1, hfeed1⟩ := ih hwf.settle hfr.settle (checkFrame_settle st1) hov.2 hl1
        rw [settle_unread] at hc1
        refine ⟨c ++ c1, ?_, ?_⟩
        · rw [hc, hc1, List.append_assoc]
        · rw [sricDeframer.feed_append, hfeed, outcome_settle, hfeed1]

end Rx

/-- `p` holds at the start of some turn of the loop that `rx` runs on a
read of `chunk`. -/
def rxTurn (p : Rx → Bool) (st : Rx) (chunk : List Byte) : Bool :=
  match st.readIncoming chunk with
  | .ok st => st.anyTurn p (st.rxpos + 1)
  | .error _ => false

/-- What `read` may return to `read_incoming`: some bytes, no more than
there is room for. -/
def Fits (st : Rx) (chunk : List Byte) : Prop := chunk ≠ [] ∧ chunk.length ≤ st.space

instance (st : Rx) (chunk : List Byte) : Decidable (Fits st chunk) :=
  inferInstanceAs (Decidable (_ ∧ _))

/-- A state between two callbacks. -/
structure RxInv (st : Rx) : Prop where
  wf : st.WF
  unaccepted : Rx.checkFrame st.assembled = none

theorem rxInv_init : RxInv Rx.init :=
  ⟨Rx.wf_init, checkFrame_short (by decide)⟩

/-- `st` stands where the deframer stands on a prefix of the stream `s`,
with the rest of `s` unread, and `fs` is what has been delivered. -/
structure Deframed (s : List Byte) (st : Rx) (fs : List (List Byte)) : Prop where
  inv : RxInv st
  used : ∃ c, s = c ++ st.unread ∧ sricDeframer.feed .hunt c = (asmState st.assembled, fs)

theorem deframed_init : Deframed [] Rx.init [] :=
  ⟨rxInv_init, [], rfl, rfl⟩

/-- After a read that fits, the buffer is not empty. -/
theorem fresh_of_read {st st' : Rx} {chunk : List Byte} (hwf : st'.WF) (hne : chunk ≠ [])
    (hu : st'.unread = st.unread ++ chunk) : st'.Fresh := by
  intro h0 _
  have hlen := hwf.unread_length
  rw [h0, hu, List.length_append] at hlen
  exact absurd (List.length_eq_zero_iff.mp (by omega)) hne

/-- The call of `rx` on a read that fits, as the loop on the buffer after
the read. -/
theorem rx_of_loop {st : Rx} (h : RxInv st) {chunk : List Byte} (hfit : Fits st chunk) :
    ∃ st1 st' fs, st.readIncoming chunk = .ok st1 ∧ st1.WF ∧ st1.Fresh
      ∧ Rx.checkFrame st1.assembled = none ∧ st1.unread = st.unread ++ chunk
      ∧ st1.assembled = st.assembled ∧ st1.loop (st1.rxpos + 1) = some (st', fs) ∧ st'.WF
      ∧ rx st chunk = .ok (st', fs) := by
  obtain ⟨st1, hr, hwf, hu, hv, -⟩ := h.wf.readIncoming_eq hfit.1 hfit.2
  have hfr := fresh_of_read hwf hfit.1 hu
  obtain ⟨st', fs, hl, hwf'⟩ := hwf.loop_returns hfr (Nat.lt_succ_self _)
  exact ⟨st1, st', fs, hr, hwf, hfr, by rw [hv]; exact h.unaccepted, hu, hv, hl, hwf',
    by rw [rx, hr]; simp only [hl]⟩

/-- **`rx` always returns** to the main loop on a read that fits. -/
theorem rx_returns {st : Rx} (h : RxInv st) {chunk : List Byte} (hfit : Fits st chunk) :
    ∃ st' fs, rx st chunk = .ok (st', fs) := by
  obtain ⟨-, st', fs, -, -, -, -, -, -, -, -, hr⟩ := rx_of_loop h hfit
  exact ⟨st', fs, hr⟩

/-- `rx` keeps its invariant, and reads on to the end unless it stops. -/
theorem rx_drains {st st' : Rx} (h : RxInv st) {chunk : List Byte} {fs : List (List Byte)}
    (hfit : Fits st chunk) (hr : rx st chunk = .ok (st', fs)) :
    RxInv st'
      ∧ (rxTurn Rx.stops st chunk = false → st'.unread = [] ∨ st'.unread = [0x7D]) := by
  obtain ⟨st1, st2, fs2, hread, hwf, hfr, hacc, -, -, hl, hwf2, hr2⟩ := rx_of_loop h hfit
  cases hr.symm.trans hr2
  obtain ⟨hacc', hend⟩ := hwf.loop_drains hfr hacc hl
  refine ⟨⟨hwf2, hacc'⟩, fun hst => hend ?_⟩
  rw [rxTurn, hread] at hst
  exact hst

theorem rx_run_inv {st st' : Rx} {chunks : List (List Byte)} {fs : List (List Byte)}
    (h : RxInv st) (hfit : Along rx Fits st chunks) (hr : run rx st chunks = .ok (st', fs)) :
    RxInv st' :=
  run_invariant_along (fun _ _ _ _ hi hf hx => (rx_drains hi hf hx).1) h hfit hr

/-- **One callback deframes** the bytes it uses. -/
theorem Deframed.rx {s chunk : List Byte} {st st' : Rx} {fs fs' : List (List Byte)}
    (h : Deframed s st fs) (hfit : Fits st chunk)
    (hov : rxTurn Rx.overruns st chunk = false)
    (hr : Sricd.rx st chunk = .ok (st', fs')) : Deframed (s ++ chunk) st' (fs ++ fs') := by
  obtain ⟨st1, st2, fs2, hread, hwf, hfr, hacc, hu, hv, hl, -, hr2⟩ := rx_of_loop h.inv hfit
  cases hr.symm.trans hr2
  rw [rxTurn, hread] at hov
  obtain ⟨c, hc, hfeed⟩ := hwf.loop_deframes hfr hacc hov hl
  obtain ⟨c0, hs, hfeed0⟩ := h.used
  rw [hv] at hfeed
  refine ⟨(rx_drains h.inv hfit hr).1, c0 ++ c, ?_, ?_⟩
  · rw [List.append_assoc, ← hc, hu, hs, List.append_assoc]
  · rw [sricDeframer.feed_append, hfeed0, hfeed]

end Sricd
