import Sricd.Deframing

/-!
# Where received frames come from

Whatever arrives, and however `read` cuts it, each frame that reaches
`proc_rx_frame` is one contiguous segment of the stream, from a framing
byte on, and no byte is in two of them (`rx_sound`). The segment that is
being assembled is followed through every turn of the loop: what
`unescape` uses is appended to it, and it is given up where the frame is
complete, cut short by a framing byte, or too long.
-/

namespace Sricd

open Sricd.Lib

/-- `unescape` makes `v` of the whole of `w`: the byte behind `0x7D` is
exclusive-ored with `0x20`, whatever it is, and there is no framing byte
elsewhere. -/
inductive Unescapes : List Byte → List Byte → Prop
  | nil : Unescapes [] []
  | esc (x : Byte) {w v : List Byte} (h : Unescapes w v) :
      Unescapes (0x7D :: x :: w) ((x ^^^ 0x20) :: v)
  | plain {b : Byte} {w v : List Byte} (hb : b ≠ 0x7D) (hf : isFramingByte b = false)
      (h : Unescapes w v) : Unescapes (b :: w) (b :: v)

theorem Unescapes.append {w v w' v' : List Byte} (h : Unescapes w v) (h' : Unescapes w' v') :
    Unescapes (w ++ w') (v ++ v') := by
  induction h with
  | nil => exact h'
  | esc x _ ih => exact .esc x ih
  | plain hb hf _ ih => exact .plain hb hf ih

/-- The bytes behind a part of the result are those behind what it was made
of. -/
theorem Unescapes.split {w v v' : List Byte} (h : Unescapes w (v ++ v')) :
    ∃ u u', w = u ++ u' ∧ Unescapes u v := by
  induction v generalizing w with
  | nil => exact ⟨[], w, rfl, .nil⟩
  | cons b v ih =>
      cases h with
      | esc x h =>
          obtain ⟨u, u', rfl, hu⟩ := ih h
          exact ⟨0x7D :: x :: u, u', rfl, .esc x hu⟩
      | plain hb hf h =>
          obtain ⟨u, u', rfl, hu⟩ := ih h
          exact ⟨b :: u, u', rfl, .plain hb hf hu⟩

/-- What a call of `unescape` uses, it makes what it writes of. -/
theorem unescape_unescapes (u : List Byte) (n : Nat) :
    Unescapes (u.take (unescape u n).1) (unescape u n).2 := by
  fun_induction unescape u n with
  | case1 | case2 | case3 | case5 => exact .nil
  | case4 n x src spos dest h ih =>
      rw [h] at ih
      exact .esc x ih
  | case6 b src n hb hf spos dest h ih =>
      rw [h] at ih
      exact .plain hb (by simpa [isFramingByte] using hf) ih

/-- The bytes `seg` of the stream, from a framing byte on, stand in
`unesc_rx` as `v`. -/
def Assembled (seg v : List Byte) : Prop :=
  ∃ type w body, seg = type :: w ∧ v = type :: body ∧ isFramingByte type = true
    ∧ Unescapes w body

/-- The bytes `seg` of the stream are the frame `f`. -/
structure Segment (seg f : List Byte) : Prop where
  assembled : Assembled seg f
  isFrame : IsFrame f
  len_le : (f.getD sricLen 0).toNat ≤ payloadMax

theorem Assembled.start {type : Byte} (h : isFramingByte type = true) :
    Assembled [type] [type] :=
  ⟨type, [], [], rfl, rfl, h, .nil⟩

theorem Assembled.append {seg v w body : List Byte} (h : Assembled seg v)
    (hw : Unescapes w body) : Assembled (seg ++ w) (v ++ body) := by
  obtain ⟨type, w0, body0, rfl, rfl, hf, h0⟩ := h
  exact ⟨type, w0 ++ w, body0 ++ body, rfl, rfl, hf, h0.append hw⟩

/-- The checks of `rx` cut the segment where the frame ends. -/
theorem Assembled.checkFrame {seg v f : List Byte} (h : Assembled seg v)
    (hle : v.length ≤ unescSize) (hc : Rx.checkFrame v = some f) :
    ∃ seg' rest, seg = seg' ++ rest ∧ Segment seg' f := by
  obtain ⟨hframe, rest, rfl⟩ := checkFrame_isFrame hc
  have hlen := checkFrame_length hc
  have hf : f ≠ [] := by
    intro hx
    obtain rfl := hx
    rw [List.length_nil] at hlen
    exact absurd hlen (Nat.ne_of_lt (Nat.add_pos_left (by decide) _))
  obtain ⟨b, body', rfl⟩ := List.exists_cons_of_ne_nil hf
  obtain ⟨type, w, body, rfl, hv, htype, hw⟩ := h
  rw [List.cons_append] at hv
  obtain ⟨rfl, rfl⟩ := List.cons.inj hv
  obtain ⟨u, u', rfl, hu⟩ := hw.split
  refine ⟨b :: u, u', rfl, ⟨b, u, body', rfl, rfl, htype, hu⟩, hframe, ?_⟩
  have hcode : ((b :: body') ++ rest).getD sricLen 0 = (b :: body').getD sricLen 0 := by
    have h3 : sricLen < (b :: body').length := by
      rw [hlen]
      exact Nat.lt_add_right _ (by decide)
    simp only [List.getD_eq_getElem?_getD, List.getElem?_append_left h3]
  rw [← hcode]
  rw [List.length_append, hlen] at hle
  have h70 : unescSize = sricOverhead + payloadMax := rfl
  omega

/-- The stream `s` as far as `rx` has got: the frames `fs` handed over, each
a segment with some dropped bytes before it, the bytes `v` in `unesc_rx`,
and the unread bytes `u`. -/
def Parsed (s u v : List Byte) (fs : List (List Byte)) : Prop :=
  ∃ (parts : List (List Byte × List Byte)) (gap seg : List Byte),
    s = parts.flatMap (fun p => p.1 ++ p.2) ++ gap ++ seg ++ u
      ∧ List.Forall₂ (fun p f => Segment p.2 f) parts fs
      ∧ (v = [] ∧ seg = [] ∨ Assembled seg v)

/-! ## What a turn of the loop does -/

/-- Bytes that are dropped. -/
theorem Parsed.drop {s c u v : List Byte} {fs : List (List Byte)} (h : Parsed s (c ++ u) v fs) :
    Parsed s u [] fs := by
  obtain ⟨parts, gap, seg, hs, hparts, -⟩ := h
  exact ⟨parts, gap ++ seg ++ c, [], by simp [hs], hparts, .inl ⟨rfl, rfl⟩⟩

theorem Parsed.start {s u : List Byte} {fs : List (List Byte)} {type : Byte}
    (h : Parsed s (type :: u) [] fs) (htype : isFramingByte type = true) :
    Parsed s u [type] fs := by
  obtain ⟨parts, gap, seg, hs, hparts, -⟩ := h
  exact ⟨parts, gap ++ seg, [type], by simp [hs], hparts, .inr (.start htype)⟩

theorem Parsed.startList {s u v u' v' : List Byte} {fs : List (List Byte)} (h : Parsed s u v fs)
    (hl : Rx.startList u v = some (u', v')) : Parsed s u' v' fs ∧ v' ≠ [] := by
  rw [Rx.startList] at hl
  split at hl
  · split at hl
    · cases hl
    · rename_i b w hw
      cases hl
      have hb := isFramingByte_of_dropWhile hw
      have hu : u.takeWhile (!isFramingByte ·) ++ b :: u' = u := by
        rw [← hw, List.takeWhile_append_dropWhile]
      rw [← hu] at h
      exact ⟨h.drop.start hb, by simp⟩
  · rename_i hc
    cases hl
    exact ⟨h, fun hv => hc (.inr (.inr hv))⟩

theorem Parsed.unescaped {s u v : List Byte} {fs : List (List Byte)} (h : Parsed s u v fs)
    (hv : v ≠ []) (n : Nat) :
    Parsed s (u.drop (unescape u n).1) (v ++ (unescape u n).2) fs := by
  obtain ⟨parts, gap, seg, hs, hparts, ⟨hnil, -⟩ | hseg⟩ := h
  · exact absurd hnil hv
  · refine ⟨parts, gap, seg ++ u.take (unescape u n).1, ?_, hparts,
      .inr (hseg.append (unescape_unescapes u n))⟩
    rw [hs]
    simp only [List.append_assoc, List.take_append_drop]

theorem Parsed.deliver {s u v f : List Byte} {fs : List (List Byte)} (h : Parsed s u v fs)
    (hle : v.length ≤ unescSize) (hc : Rx.checkFrame v = some f) : Parsed s u [] (fs ++ [f]) := by
  obtain ⟨parts, gap, seg, hs, hparts, ⟨rfl, -⟩ | hseg⟩ := h
  · cases (checkFrame_short (v := []) (by decide)).symm.trans hc
  · obtain ⟨seg', rest, rfl, hf⟩ := hseg.checkFrame hle hc
    exact ⟨parts ++ [(gap, seg')], rest, [], by simp [hs],
      List.rel_append hparts (.cons hf .nil), .inl ⟨rfl, rfl⟩⟩

namespace Rx

theorem WF.turn_parsed {st st' : Rx} {used : Bool} {s : List Byte} {fs : List (List Byte)}
    (h : st.WF) (hf : st.Fresh) (hp : Parsed s st.unread st.assembled fs)
    (ha : st.advance = some (st', used)) : Parsed s st'.unread st'.assembled fs := by
  rcases h.startFrame_eq hf with ⟨st1, hs, -, hu, hv, -⟩ | ⟨st1, hs, -, -, hl⟩
  · rw [advance, hs] at ha
    cases ha
    rw [hu, hv]
    exact Parsed.drop (c := st.unread) (by rwa [List.append_nil])
  · obtain ⟨st2, hadv, -, hu2, hv2, -⟩ := h.advance_of_start hf hs
    rw [ha] at hadv
    obtain ⟨rfl, -⟩ := Prod.mk.inj (Option.some.inj hadv)
    obtain ⟨hp1, hne⟩ := hp.startList hl
    rw [hu2, hv2]
    exact hp1.unescaped hne _

/-- The frame that is complete is handed over. -/
theorem WF.settle_parsed {st : Rx} {s : List Byte} {fs : List (List Byte)} (h : st.WF)
    (hp : Parsed s st.unread st.assembled fs) :
    Parsed s st.settle.unread st.settle.assembled (fs ++ (checkFrame st.assembled).toList) := by
  rw [settle_unread, Rx.settle]
  split
  · rename_i hc
    rwa [hc, Option.toList_none, List.append_nil]
  · rename_i f hc
    rw [hc]
    exact hp.deliver h.assembled_le hc

theorem WF.loop_parsed {fuel : Nat} {st st' : Rx} {s : List Byte} {fs fs' : List (List Byte)}
    (h : st.WF) (hf : st.Fresh) (hp : Parsed s st.unread st.assembled fs)
    (hl : st.loop fuel = some (st', fs')) :
    Parsed s st'.unread st'.assembled (fs ++ fs') := by
  induction fuel generalizing st fs fs' with
  | zero => cases hl
  | succ fuel ih =>
      rcases h.loop_cases hf hl with ⟨ha, rfl⟩ | ⟨st1, fs1, ha, hwf, hfr, -, hl1, rfl⟩
      · rw [List.append_nil]
        exact h.turn_parsed hf hp ha
      · rw [← List.append_assoc]
        exact ih hwf.settle hfr.settle (hwf.settle_parsed (h.turn_parsed hf hp ha)) hl1

end Rx

/-! ## Runs -/

theorem Parsed.rx {s chunk : List Byte} {st st' : Rx} {fs fs' : List (List Byte)}
    (hi : RxInv st) (h : Parsed s st.unread st.assembled fs) (hfit : Fits st chunk)
    (hr : Sricd.rx st chunk = .ok (st', fs')) :
    Parsed (s ++ chunk) st'.unread st'.assembled (fs ++ fs') := by
  obtain ⟨st1, st2, fs2, -, hwf, hfr, -, hu, hv, hl, -, hr2⟩ := rx_of_loop hi hfit
  cases hr.symm.trans hr2
  refine hwf.loop_parsed hfr ?_ hl
  obtain ⟨parts, gap, seg, hs, hrest⟩ := h
  rw [hu, hv]
  exact ⟨parts, gap, seg, by simp [hs], hrest⟩

theorem parsed_run {s : List Byte} {st : Rx} {fs : List (List Byte)} {chunks : List (List Byte)}
    (hi : RxInv st) (h : Parsed s st.unread st.assembled fs) (hfit : Along rx Fits st chunks) :
    ∃ st' fs', run rx st chunks = .ok (st', fs')
      ∧ Parsed (s ++ chunks.flatten) st'.unread st'.assembled (fs ++ fs') := by
  induction chunks generalizing s st fs with
  | nil => exact ⟨st, [], rfl, by simpa using h⟩
  | cons chunk chunks ih =>
      obtain ⟨st1, fs1, hr⟩ := rx_returns hi hfit.1
      obtain ⟨st', fs', hrun, hp⟩ := ih (rx_drains hi hfit.1 hr).1 (Parsed.rx hi h hfit.1 hr)
        (hfit.2 st1 fs1 hr)
      exact ⟨st', fs1 ++ fs', run_cons_ok.mpr ⟨st1, fs1, fs', hr, hrun, rfl⟩, by
        simpa using hp⟩

/-- **What is received is what was on the line.** Whatever the stream and
however it is read, the calls of `proc_rx_frame` stand for disjoint
segments of it, in their order: each starts with a framing byte, and its
bytes, unescaped, are a frame with a payload that fits and a checksum that
is right, which is what `unesc_rx` starts with at the call. -/
theorem rx_sound {chunks : List (List Byte)} (hfit : Along rx Fits Rx.init chunks) :
    ∃ st fs, run rx Rx.init chunks = .ok (st, fs)
      ∧ ∃ (parts : List (List Byte × List Byte)) (rest : List Byte),
          chunks.flatten = parts.flatMap (fun p => p.1 ++ p.2) ++ rest
            ∧ List.Forall₂ (fun p f => Segment p.2 f) parts fs := by
  have hinit : Parsed [] Rx.init.unread Rx.init.assembled [] :=
    ⟨[], [], [], rfl, .nil, .inl ⟨rfl, rfl⟩⟩
  obtain ⟨st, fs, hr, parts, gap, seg, hs, hparts, -⟩ := parsed_run rxInv_init hinit hfit
  refine ⟨st, fs, hr, parts, gap ++ seg ++ st.unread, ?_, hparts⟩
  simpa using hs

/-- A frame behind a stray byte, in two reads. -/
theorem rx_sound_stray :
    ∃ (parts : List (List Byte × List Byte)) (rest : List Byte),
      [0x41, 0x7E, 0x02, 0x01, 0x00, 0x47, 0xA3] = parts.flatMap (fun p => p.1 ++ p.2) ++ rest
        ∧ List.Forall₂ (fun p f => Segment p.2 f) parts [[0x7E, 0x02, 0x01, 0x00, 0x47, 0xA3]] := by
  have hfit : Along rx Fits Rx.init [[0x41, 0x7E, 0x02], [0x01, 0x00, 0x47, 0xA3]] := by
    decide +kernel
  obtain ⟨st, fs, hr, h⟩ := rx_sound hfit
  have hrun : (run rx Rx.init [[0x41, 0x7E, 0x02], [0x01, 0x00, 0x47, 0xA3]]).toOption.map Prod.snd
      = some [[0x7E, 0x02, 0x01, 0x00, 0x47, 0xA3]] := by decide +kernel
  rw [hr] at hrun
  obtain rfl := Option.some.inj hrun
  exact h

end Sricd
