import Sricd.Rx

/-!
# The receive buffers as lists

What each operation of the receiver does to the bytes still unread and
to the frame assembled so far, and that none of them fails: the two
lists are all that matters of the arrays, but for one stale byte
(`Rx.Fresh`).
-/

namespace Sricd

open Sricd.Lib

namespace Rx

/-- The arrays have their sizes and the two positions lie inside. -/
structure WF (st : Rx) : Prop where
  rxbuf_length : st.rxbuf.length = lineBufSize
  rxpos_le : st.rxpos ≤ lineBufSize
  unescRx_length : st.unescRx.length = unescSize
  unescPos_le : st.unescPos ≤ unescSize

/-- The stale byte `rxbuf[0]` of an empty buffer ends no frame: it is no
framing byte, or no frame is being assembled. -/
def Fresh (st : Rx) : Prop :=
  st.rxpos = 0 → isFramingByte (st.rxbuf.getD 0 0) = true → st.unescPos = 0

theorem wf_init : init.WF := by
  constructor <;> simp [init]

@[simp] theorem WF.unread_length {st : Rx} (h : st.WF) : st.unread.length = st.rxpos := by
  rw [unread, List.length_take, h.rxbuf_length]
  exact Nat.min_eq_left h.rxpos_le

@[simp] theorem WF.assembled_length {st : Rx} (h : st.WF) :
    st.assembled.length = st.unescPos := by
  rw [assembled, List.length_take, h.unescRx_length]
  exact Nat.min_eq_left h.unescPos_le

theorem WF.assembled_le {st : Rx} (h : st.WF) : st.assembled.length ≤ unescSize := by
  rw [h.assembled_length]
  exact h.unescPos_le

theorem WF.assembled_eq_nil {st : Rx} (h : st.WF) : st.assembled = [] ↔ st.unescPos = 0 := by
  rw [← List.length_eq_zero_iff, h.assembled_length]

theorem WF.unread_eq_nil {st : Rx} (h : st.WF) : st.unread = [] ↔ st.rxpos = 0 := by
  rw [← List.length_eq_zero_iff, h.unread_length]

/-- `rxbuf[0]` is the first unread byte, when there is one. -/
theorem getD_of_unread {st : Rx} {b : Byte} {u : List Byte} (h : st.unread = b :: u) :
    st.rxbuf.getD 0 0 = b := by
  rw [unread] at h
  cases hb : st.rxbuf with
  | nil => simp [hb] at h
  | cons x xs =>
      cases hp : st.rxpos with
      | zero => simp [hp] at h
      | succ n =>
          rw [hb, hp, List.take_succ_cons] at h
          simpa using (List.cons.inj h).1

/-- Discarding what is assembled. -/
theorem WF.reset {st : Rx} (h : st.WF) : ({ st with unescPos := 0 } : Rx).WF :=
  ⟨h.rxbuf_length, h.rxpos_le, h.unescRx_length, Nat.zero_le _⟩

/-! ## The elementary operations -/

theorem WF.shift_eq {st : Rx} (h : st.WF) {n : Nat} (hn : n ≤ st.rxpos) :
    ∃ st', st.shift n = some st' ∧ st'.WF ∧ st'.unread = st.unread.drop n
      ∧ st'.unescRx = st.unescRx ∧ st'.unescPos = st.unescPos
      ∧ (st'.rxpos = 0 → st'.rxbuf = st.rxbuf) := by
  have hlen : (st.unread.drop n).length = st.rxpos - n := by
    rw [List.length_drop, h.unread_length]
  have hfit : 0 + (st.unread.drop n).length ≤ st.rxbuf.length := by
    have := h.rxpos_le
    rw [hlen, h.rxbuf_length]
    omega
  refine ⟨_, if_pos hn, ⟨?_, ?_, h.unescRx_length, h.unescPos_le⟩, ?_, rfl, rfl, ?_⟩
  · rw [← h.rxbuf_length]
    exact writeAt_length hfit
  · exact Nat.le_trans (Nat.sub_le ..) h.rxpos_le
  · show (writeAt st.rxbuf 0 (st.unread.drop n)).take (st.rxpos - n) = _
    rw [take_writeAt (Nat.zero_le _) (by omega)]
    simp
  · intro h0
    have h0' : (st.unread.drop n).length = 0 := by rw [hlen]; exact h0
    show writeAt st.rxbuf 0 (st.unread.drop n) = st.rxbuf
    rw [List.length_eq_zero_iff.mp h0']
    simp [writeAt]

theorem WF.readIncoming_eq {st : Rx} (h : st.WF) {chunk : List Byte}
    (hne : chunk ≠ []) (hfit : chunk.length ≤ st.space) :
    ∃ st', st.readIncoming chunk = .ok st' ∧ st'.WF ∧ st'.unread = st.unread ++ chunk
      ∧ st'.assembled = st.assembled ∧ st'.unescPos = st.unescPos := by
  have hpos := List.length_pos_iff.mpr hne
  have hle := h.rxpos_le
  have hbuf := h.rxbuf_length
  rw [space] at hfit
  refine ⟨{ st with rxbuf := writeAt st.rxbuf st.rxpos chunk
                    rxpos := st.rxpos + chunk.length },
    ?_, ⟨?_, ?_, h.unescRx_length, h.unescPos_le⟩, ?_, rfl, rfl⟩
  · rw [readIncoming, if_neg (by rw [space]; omega), if_neg (by omega)]
  · rw [← hbuf]
    exact writeAt_length (by omega)
  · show st.rxpos + chunk.length ≤ lineBufSize
    omega
  · exact take_writeAt (by omega) rfl

/-- Where the loop of `rxbuf_shift_frame_start` stops. -/
theorem drop_findIdx (u : List Byte) :
    u.drop (u.findIdx isFramingByte) = u.dropWhile (!isFramingByte ·) := by
  simp only [List.dropWhile_eq_drop_findIdx_not, Bool.not_not]

theorem findIdx_eq_length {u : List Byte} :
    u.findIdx isFramingByte = u.length ↔ u.dropWhile (!isFramingByte ·) = [] := by
  have hle : u.findIdx isFramingByte ≤ u.length := List.findIdx_le_length
  rw [← drop_findIdx, List.drop_eq_nil_iff]
  omega

theorem WF.shiftFrameStart_eq {st : Rx} (h : st.WF) :
    (∃ st', st.shiftFrameStart = some (st', false) ∧ st'.WF ∧ st'.unread = []
        ∧ st'.unescPos = st.unescPos ∧ st.unread.dropWhile (!isFramingByte ·) = [])
      ∨ ∃ st', st.shiftFrameStart = some (st', true) ∧ st'.WF
          ∧ st'.unread = st.unread.dropWhile (!isFramingByte ·) ∧ st'.unread ≠ [] := by
  by_cases hi : st.unread.findIdx isFramingByte = st.rxpos
  · refine .inl ⟨_, if_pos hi, ⟨h.rxbuf_length, Nat.zero_le _, h.unescRx_length,
      h.unescPos_le⟩, rfl, rfl, ?_⟩
    exact findIdx_eq_length.mp (by rw [hi, h.unread_length])
  · have hle : st.unread.findIdx isFramingByte ≤ st.rxpos := by
      rw [← h.unread_length]
      exact List.findIdx_le_length
    obtain ⟨st', hs, hwf, hu, -⟩ := h.shift_eq hle
    refine .inr ⟨st', ?_, hwf, by rw [hu, drop_findIdx], ?_⟩
    · rw [shiftFrameStart]
      simp only [if_neg hi, hs, Option.map_some]
    · rw [hu, drop_findIdx]
      intro hnil
      exact hi (by rw [findIdx_eq_length.mpr hnil, h.unread_length])

/-! ## `advance_rx` -/

/-- The first half of `advance_rx`, on the unread bytes `u` and the
assembled bytes `v`; `none` where no frame is found. -/
def startList (u v : List Byte) : Option (List Byte × List Byte) :=
  if isFramingByte (u.headD 0) = true ∨ v.length = unescSize ∨ v = [] then
    match u.dropWhile (!isFramingByte ·) with
    | [] => none
    | b :: u => some (u, [b])
  else some (u, v)

theorem startList_le {u v u' v' : List Byte} (h : startList u v = some (u', v')) :
    u'.length ≤ u.length := by
  rw [startList] at h
  split at h
  · split at h
    · cases h
    · rename_i b w hw
      cases h
      have hlen := (List.dropWhile_suffix (!isFramingByte ·) (l := u)).length_le
      rw [hw, List.length_cons] at hlen
      omega
  · cases h
    exact Nat.le_refl _

/-- The test on `rxbuf[0]` is a test on the first unread byte. -/
theorem Fresh.head {st : Rx} (hf : st.Fresh) (h : st.WF) :
    (isFramingByte (st.rxbuf.getD 0 0) = true ∨ st.unescPos = unescSize) ∨ st.unescPos = 0
      ↔ isFramingByte (st.unread.headD 0) = true ∨ st.assembled.length = unescSize
          ∨ st.assembled = [] := by
  rw [h.assembled_length, h.assembled_eq_nil, or_assoc]
  cases hu : st.unread with
  | nil =>
      have h0 : isFramingByte (([] : List Byte).headD 0) = false := rfl
      rw [h0]
      have := hf (h.unread_eq_nil.mp hu)
      constructor
      · intro hx
        rcases hx with hb | hb
        · exact .inr (.inr (this hb))
        · exact .inr hb
      · intro hx
        rcases hx with hb | hb
        · cases hb
        · exact .inr hb
  | cons b u => rw [getD_of_unread hu, List.headD_cons]

theorem WF.startFrame_eq {st : Rx} (h : st.WF) (hf : st.Fresh) :
    (∃ st', st.startFrame = some (st', false) ∧ st'.WF ∧ st'.unread = [] ∧ st'.assembled = []
        ∧ startList st.unread st.assembled = none)
      ∨ ∃ st', st.startFrame = some (st', true) ∧ st'.WF ∧ 0 < st'.unescPos
          ∧ startList st.unread st.assembled = some (st'.unread, st'.assembled) := by
  -- the state after the reset, when there is one
  by_cases hc : (isFramingByte (st.rxbuf.getD 0 0) = true ∨ st.unescPos = unescSize)
      ∨ st.unescPos = 0
  · have hreset : (if isFramingByte (st.rxbuf.getD 0 0) = true ∨ st.unescPos = unescSize then
        { st with unescPos := 0 } else st) = ({ st with unescPos := 0 } : Rx) := by
      rcases hc with hc | hc
      · exact if_pos hc
      · split
        · rfl
        · cases st
          simp_all
    have hlist : startList st.unread st.assembled
        = match st.unread.dropWhile (!isFramingByte ·) with
          | [] => none
          | b :: u => some (u, [b]) := if_pos ((hf.head h).mp hc)
    rw [startFrame, hlist]
    simp only [hreset, if_true]
    rcases h.reset.shiftFrameStart_eq with ⟨st', hs, hwf, hu, hp, hnil⟩ | ⟨st', hs, hwf, hu, hne⟩
    · refine .inl ⟨st', ?_, hwf, hu, hwf.assembled_eq_nil.mpr hp, ?_⟩
      · rw [hs]
      · rw [show st.unread.dropWhile (!isFramingByte ·) = [] from hnil]
    · obtain ⟨b, u, hbu⟩ := List.exists_cons_of_ne_nil hne
      have hu' : st.unread.dropWhile (!isFramingByte ·) = b :: u := by
        rw [← hbu, hu]
        rfl
      have hwf' : ({ st' with unescRx := writeAt st'.unescRx 0 [b], unescPos := 1 } : Rx).WF := by
        refine ⟨hwf.rxbuf_length, hwf.rxpos_le, ?_, Nat.succ_le_succ (Nat.zero_le _)⟩
        rw [← hwf.unescRx_length]
        exact writeAt_length (by
          rw [hwf.unescRx_length]
          exact Nat.succ_le_succ (Nat.zero_le _))
      have hpos : 1 ≤ st'.rxpos := by
        rw [← hwf.unread_length, hbu]
        simp
      obtain ⟨st'', hs', hwf'', hu'', hr'', hp'', -⟩ := hwf'.shift_eq hpos
      refine .inr ⟨st'', ?_, hwf'', by rw [hp'']; exact Nat.one_pos, ?_⟩
      · rw [hs]
        simp only [getD_of_unread hbu]
        rw [hs']
        rfl
      · have ha : st''.assembled = [b] := by
          rw [assembled, hr'', hp'']
          exact take_writeAt (Nat.zero_le _) rfl
        have hd : st''.unread = u := by
          rw [hu'']
          show st'.unread.drop 1 = u
          rw [hbu]
          rfl
        rw [hu', ha, hd]
  · have hkeep : (if isFramingByte (st.rxbuf.getD 0 0) = true ∨ st.unescPos = unescSize then
        { st with unescPos := 0 } else st) = st := if_neg fun hx => hc (.inl hx)
    refine .inr ⟨st, ?_, h, by omega, if_neg fun hx => hc ((hf.head h).mpr hx)⟩
    rw [startFrame]
    simp only [hkeep]
    exact if_neg fun hx => hc (.inr hx)

/-- The second half of `advance_rx`: what there is to unescape moves from
the unread to the assembled bytes. -/
theorem WF.advance_of_start {st st1 : Rx} (h : st.WF) (hf : st.Fresh)
    (hs : st.startFrame = some (st1, true)) :
    ∃ st', st.advance
          = some (st', (unescape st1.unread (unescSize - st1.assembled.length)).2.length != 0)
      ∧ st'.WF
      ∧ st'.unread = st1.unread.drop (unescape st1.unread (unescSize - st1.assembled.length)).1
      ∧ st'.assembled
          = st1.assembled ++ (unescape st1.unread (unescSize - st1.assembled.length)).2
      ∧ ((unescape st1.unread (unescSize - st1.assembled.length)).2 ≠ [] → st'.Fresh) := by
  have hwf : st1.WF := by
    rcases h.startFrame_eq hf with ⟨_, hs', -⟩ | ⟨_, hs', hwf, -⟩
    · rw [hs] at hs'
      cases hs'
    · rw [hs] at hs'
      cases hs'
      exact hwf
  rw [hwf.assembled_length]
  obtain ⟨hk, ho⟩ := unescape_le st1.unread (unescSize - st1.unescPos)
  have hle := hwf.unescPos_le
  have hur := hwf.unescRx_length
  rw [hwf.unread_length] at hk
  obtain ⟨st2, hs2, hwf2, hu2, hr2, hp2, hstale⟩ := hwf.shift_eq hk
  refine ⟨{ st2 with
      unescRx := writeAt st2.unescRx st2.unescPos
        (unescape st1.unread (unescSize - st1.unescPos)).2
      unescPos := st2.unescPos + (unescape st1.unread (unescSize - st1.unescPos)).2.length },
    ?_, ⟨hwf2.rxbuf_length, hwf2.rxpos_le, ?_, ?_⟩, hu2, ?_, ?_⟩
  · rw [advance, hs]
    simp only [unescaped, hs2, Option.map_some]
  · exact (writeAt_length (by rw [hp2, hr2]; omega)).trans hwf2.unescRx_length
  · show st2.unescPos + _ ≤ unescSize
    omega
  · show (writeAt _ _ _).take _ = _
    rw [take_writeAt (by rw [hp2, hr2]; omega) rfl, hr2, hp2]
    rfl
  · -- an emptied buffer still starts with the byte `unescape` began with
    intro hne h0 hb
    rw [hstale h0] at hb
    cases hcons : st1.unread with
    | nil => rw [hcons] at hne; exact absurd rfl hne
    | cons b u =>
        rw [getD_of_unread hcons] at hb
        rw [hcons, unescape_framing hb] at hne
        exact absurd rfl hne

/-- `advance_rx` never fails. Where it reports work, it has used an unread
byte. -/
theorem WF.advance_returns {st : Rx} (h : st.WF) (hf : st.Fresh) :
    ∃ st' used, st.advance = some (st', used) ∧ st'.WF
      ∧ (used = true → st'.Fresh ∧ st'.rxpos < st.rxpos) := by
  rcases h.startFrame_eq hf with ⟨st1, hs, hwf, -⟩ | ⟨st1, hs, -, -, hl⟩
  · refine ⟨st1, false, ?_, hwf, fun hx => by cases hx⟩
    rw [advance, hs]
  · obtain ⟨st', ha, hwf, hu, -, hfr⟩ := h.advance_of_start hf hs
    refine ⟨st', _, ha, hwf, ?_⟩
    intro hused
    have hne : (unescape st1.unread (unescSize - st1.assembled.length)).2 ≠ [] := by
      intro hnil
      rw [hnil] at hused
      cases hused
    have hk := (unescape_le st1.unread (unescSize - st1.assembled.length)).1
    have hk0 : (unescape st1.unread (unescSize - st1.assembled.length)).1 ≠ 0 :=
      fun hz => hne ((unescape_used ..).mp hz)
    have hle := startList_le hl
    have hlen := hwf.unread_length
    rw [hu, List.length_drop] at hlen
    rw [h.unread_length] at hle
    exact ⟨hfr hne, by omega⟩

end Rx

end Sricd
