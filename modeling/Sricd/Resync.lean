import Sricd.Reception

/-!
# Resynchronisation

A frame that arrives behind arbitrary bytes. Two things keep it from
`proc_rx_frame`, and nothing else does: `unescape` takes its framing byte
for the byte behind an escape (`Untaken` says that this does not happen),
or the call of `rx` that reads its last byte returns early, at a framing
byte right behind the one it has just copied (`Rx.stops`).

The frame is `Due` as long as none of its bytes is lost, and `Gone` once
it has been handed over or its framing byte is taken; each turn of the
loop keeps it where it is or decides between the two.
-/

namespace Sricd

open Sricd.Lib

/-! ## Reading past a framing byte -/

/-- Reading past a framing byte, which takes an escape in front of it,
yields a byte more than was stuffed behind it. -/
theorem unescape_past {x y fut body : List Byte} {b : Byte} (hb : isFramingByte b = true)
    (h : y ++ fut = sricStuffing.stuff body) {n : Nat}
    (hk : x.length < (unescape (x ++ b :: y) n).1) :
    ∃ q r, body = q ++ r ∧ q.length < (unescape (x ++ b :: y) n).2.length
      ∧ (x ++ b :: y).drop (unescape (x ++ b :: y) n).1 ++ fut = sricStuffing.stuff r := by
  generalize hu : x ++ b :: y = u at hk ⊢
  have hesc : b ≠ 0x7D := by rintro rfl; cases hb
  fun_induction unescape u n generalizing x with
  | case1 => cases x <;> cases hu
  | case2 => exact absurd hk (Nat.not_lt_zero _)
  | case3 => exact absurd hk (Nat.not_lt_zero _)
  | case4 n z src spos dest hx ih =>
      simp only [hx] at ih
      cases x with
      | nil => exact absurd (List.cons.inj hu).1 hesc
      | cons c x =>
          obtain ⟨rfl, hu'⟩ := List.cons.inj hu
          cases x with
          | nil =>
              -- the framing byte is the one behind the escape
              obtain ⟨rfl, rfl⟩ := List.cons.inj hu'
              obtain ⟨q, r, rfl, hq, hr⟩ := unescape_stuff h n
              rw [hx] at hq hr
              exact ⟨q, r, rfl, by rw [← hq]; exact Nat.lt_succ_self _, hr⟩
          | cons d x =>
              obtain ⟨rfl, htail⟩ := List.cons.inj hu'
              obtain ⟨q, r, rfl, hq, hr⟩ := ih htail (by simpa using hk)
              exact ⟨q, r, rfl, Nat.lt_succ_of_lt hq, hr⟩
  | case5 => exact absurd hk (Nat.not_lt_zero _)
  | case6 c src n hc hf spos dest hx ih =>
      simp only [hx] at ih
      cases x with
      | nil =>
          obtain ⟨rfl, -⟩ := List.cons.inj hu
          exact absurd (isFramingByte_iff.mp hb) hf
      | cons d x =>
          obtain ⟨rfl, htail⟩ := List.cons.inj hu
          obtain ⟨q, r, rfl, hq, hr⟩ := ih htail (by simpa using hk)
          exact ⟨q, r, rfl, Nat.lt_succ_of_lt hq, hr⟩

/-! ## The frame in the stream

`u` and `v` are the unread and the assembled bytes, `fut` what is still
to be read. -/

/-- All of the frame is still to come, or a part of it is assembled and
the rest is next. -/
inductive Due (f : FrameT) (u v fut : List Byte) : Prop where
  | ahead (x : List Byte) : u ++ fut = x ++ f.wire → Due f u v fut
  | inside (q r : List Byte) : f.bytes.tail = q ++ r → r ≠ [] → v = f.type.byte :: q →
      u ++ fut = sricStuffing.stuff r → Due f u v fut

/-- The framing byte is used up: what is left of the frame can only
complete something longer. -/
structure Gone (f : FrameT) (u v fut : List Byte) : Prop where
  no_flag : ∀ a ∈ u ++ fut, isFramingByte a = false
  short : (u ++ fut).length < f.wire.length
  long : v = [] ∨ ∃ r, u ++ fut = sricStuffing.stuff r ∧ f.bytes.length < v.length + r.length

namespace Rx

/-- The call of `unescape` takes the byte that is `k` bytes from the end
of what has been read. -/
def takes (k : Nat) (st : Rx) : Bool :=
  match st.startFrame with
  | some (st, true) => decide (k ≤ st.rxpos ∧ st.rxpos - st.unescaped.1 < k)
  | _ => false

/-- This turn calls `proc_rx_frame` with `f`, the whole of `f` and nothing
else in `unesc_rx`, and with every byte read used. -/
def hands (f : List Byte) (st : Rx) : Bool :=
  match st.advance with
  | some (st, true) =>
      decide (checkFrame st.assembled = some f ∧ st.assembled = f ∧ st.rxpos = 0)
  | _ => false

/-! ## One turn -/

/-- What `unescape` leaves of the unread bytes in this turn. -/
theorem takes_eq {st st1 : Rx} (hs : st.startFrame = some (st1, true)) (hwf : st1.WF) (k : Nat) :
    st.takes k = true ↔ k ≤ st1.unread.length ∧ (st1.unread.drop
      (unescape st1.unread (unescSize - st1.assembled.length)).1).length < k := by
  rw [takes, hs, hwf.assembled_length, List.length_drop, hwf.unread_length]
  exact decide_eq_true_iff

theorem takes_none {st st1 : Rx} (hs : st.startFrame = some (st1, false)) (k : Nat) :
    st.takes k = false := by
  rw [takes, hs]

theorem hands_iff {st st' : Rx} {used : Bool} (ha : st.advance = some (st', used))
    (f : List Byte) :
    st.hands f = true ↔ used = true ∧ checkFrame st'.assembled = some f ∧ st'.assembled = f
      ∧ st'.rxpos = 0 := by
  rw [hands, ha]
  cases used with
  | false => simp
  | true => simp

end Rx

/-- With no flag in sight `startList` does nothing, or there is no frame
to go on with. -/
theorem startList_no_flag {u v : List Byte} (h : ∀ a ∈ u, isFramingByte a = false) :
    Rx.startList u v = none ∨ Rx.startList u v = some (u, v) := by
  rw [Rx.startList]
  split
  · rw [List.dropWhile_eq_nil_iff.mpr (by simpa using h)]
    exact .inl rfl
  · exact .inr rfl

/-- The frame is as due as before when only what is in front of it has
been dealt with. -/
theorem Due.startList {f : FrameT} {u v fut u' v' : List Byte} (h : Due f u v fut)
    (hl : Rx.startList u v = some (u', v')) : Due f u' v' fut := by
  cases h with
  | ahead x hx =>
      rw [Rx.startList] at hl
      split at hl
      · split at hl
        · cases hl
        · rename_i c w hw
          cases hl
          have hc : isFramingByte c = true := by
            have := List.head?_dropWhile_not (!isFramingByte ·) u
            rw [hw] at this
            simpa using this
          have hu : u.takeWhile (!isFramingByte ·) ++ c :: u' = u := by
            rw [← hw, List.takeWhile_append_dropWhile]
          have hjunk : ∀ a ∈ u.takeWhile (!isFramingByte ·), isFramingByte a = false := by
            intro a ha
            simpa using List.mem_takeWhile_imp ha
          generalize u.takeWhile (!isFramingByte ·) = junk at hu hjunk
          -- a frame that starts right here is the frame itself
          have hstart : c :: u' ++ fut = f.wire → Due f u' [c] fut := by
            intro hw
            obtain ⟨rfl, hbody⟩ := List.cons.inj hw
            refine .inside [] f.bytes.tail rfl ?_ rfl hbody
            exact f.carries.nonempty
          rw [← hu, List.append_assoc, List.append_eq_append_iff] at hx
          rcases hx with ⟨x', rfl, hx⟩ | ⟨x', rfl, hx⟩
          · cases x' with
            | nil => exact hstart hx
            | cons d x' => exact .ahead x' (List.cons.inj hx).2
          · cases x' with
            | nil => exact hstart hx.symm
            | cons d x' =>
                have hd := hjunk d (by simp)
                rw [← (List.cons.inj hx).1, f.type.byte_framing] at hd
                cases hd
      · cases hl
        exact .ahead x hx
  | inside q r hb hr hv hx =>
      have hflag : ∀ a ∈ u, isFramingByte a = false := sricStuffing.no_flag_of_append hx
      rcases startList_no_flag (v := v) hflag with hn | hn
      · rw [hn] at hl
        cases hl
      · rw [hn] at hl
        cases hl
        exact .inside q r hb hr hv hx

/-- Where no frame is found the due one is still to be read. -/
theorem Due.startList_none {f : FrameT} {u v fut : List Byte} (h : Due f u v fut)
    (hl : Rx.startList u v = none) : Due f [] [] fut := by
  have hnone : ∀ a ∈ u, isFramingByte a = false := by
    rw [Rx.startList] at hl
    split at hl
    · split at hl
      · rename_i hnil
        simpa using List.dropWhile_eq_nil_iff.mp hnil
      · cases hl
    · cases hl
  cases h with
  | ahead x hx =>
      obtain ⟨x', rfl, hx'⟩ | ⟨x', rfl, hx'⟩ := List.append_eq_append_iff.mp hx
      · exact .ahead x' hx'
      · cases x' with
        | nil => exact .ahead [] hx'.symm
        | cons d x' =>
            have hd := hnone d (by simp)
            rw [← (List.cons.inj hx').1, f.type.byte_framing] at hd
            cases hd
  | inside q r hb hr hv hx =>
      -- a frame that has begun is gone on with
      exfalso
      have hlen := congrArg List.length hb
      have hr0 := List.length_pos_iff.mpr hr
      have hfits : f.bytes.tail.length < unescSize := f.carries.fits
      rw [List.length_append] at hlen
      rw [Rx.startList, if_neg] at hl
      · cases hl
      · subst hv
        rw [not_or, not_or, List.length_cons]
        refine ⟨?_, by omega, by simp⟩
        cases u with
        | nil => exact Bool.false_ne_true
        | cons a u => rw [List.headD_cons, hnone a (by simp)]; exact Bool.false_ne_true

/-- Nothing is left to read, so nothing is due. -/
theorem Due.not_nil {f : FrameT} {v : List Byte} : ¬Due f [] v [] := by
  intro hx
  rcases hx with ⟨x, hx⟩ | ⟨q, r, -, hr, -, hx⟩
  · cases x <;> cases hx
  · have hlen := sricStuffing.length_le_stuff r
    rw [← hx] at hlen
    exact hr (List.length_eq_zero_iff.mp (Nat.le_zero.mp hlen))

theorem Gone.not_bytes {f : FrameT} {v : List Byte} (h : Gone f [] v []) : v ≠ f.bytes := by
  intro hx
  obtain rfl := hx
  rcases h.long with hv | ⟨r, hx, hlong⟩
  · cases hv
  · have hlen := sricStuffing.length_le_stuff r
    rw [← hx] at hlen
    simp only [List.append_nil, List.length_nil] at hlen
    omega

/-- **The call of `unescape`**: the frame stays due, or its framing byte is
taken, or it is complete. -/
theorem Due.taken_or_kept {f : FrameT} {u v fut : List Byte} (h : Due f u v fut) (hne : v ≠ [])
    (n : Nat) {k : Nat} (hk : k = f.wire.length - fut.length) :
    (Due f (u.drop (unescape u n).1) (v ++ (unescape u n).2) fut
        ∧ ¬(k ≤ u.length ∧ (u.drop (unescape u n).1).length < k))
      ∨ (Gone f (u.drop (unescape u n).1) (v ++ (unescape u n).2) fut
        ∧ k ≤ u.length ∧ (u.drop (unescape u n).1).length < k)
      ∨ (u.drop (unescape u n).1 = [] ∧ fut = [] ∧ v ++ (unescape u n).2 = f.bytes
        ∧ u.length < k ∧ (unescape u n).2 ≠ [] ∧ isFramingByte (u.headD 0) = false) := by
  have hspos := (unescape_le u n).1
  have hwire : f.wire.length = (sricStuffing.stuff f.bytes.tail).length + 1 := rfl
  cases h with
  | ahead x hx =>
      have hlen := congrArg List.length hx
      simp only [List.length_append] at hlen
      by_cases hpast : (unescape u n).1 ≤ x.length
      · refine .inl ⟨.ahead (x.drop (unescape u n).1) ?_, ?_⟩
        · rw [← List.drop_append_of_le_length hspos, hx, List.drop_append_of_le_length hpast]
        · rw [List.length_drop]
          omega
      · -- the framing byte lies inside what has been read
        obtain ⟨y, rfl, hy⟩ : ∃ y, u = x ++ f.type.byte :: y
            ∧ y ++ fut = sricStuffing.stuff f.bytes.tail := by
          obtain ⟨x', rfl, hx'⟩ | ⟨x', rfl, hx'⟩ := List.append_eq_append_iff.mp hx
          · rw [List.length_append] at hpast
            omega
          · cases x' with
            | nil =>
                rw [List.append_nil] at hpast hspos
                omega
            | cons d x' =>
                obtain ⟨rfl, hbody⟩ := List.cons.inj hx'
                exact ⟨x', rfl, hbody.symm⟩
        obtain ⟨q, r, hb, hq, hr⟩ :=
          unescape_past f.type.byte_framing hy (Nat.lt_of_not_le hpast)
        have hsplit := congrArg List.length hb
        have hpos := List.length_pos_iff.mpr hne
        have hlen' := congrArg List.length hr
        rw [List.length_append, f.tail_length] at hsplit
        rw [List.length_append] at hlen'
        refine .inr (.inl ⟨⟨?_, ?_, .inr ⟨r, hr, ?_⟩⟩, ?_⟩)
        · rw [hr]
          exact fun a ha => sricStuffing.flag_of_mem_stuff ha
        · rw [hr, hwire, hb, sricStuffing.stuff_append, List.length_append]
          omega
        · rw [f.bytes_length, List.length_append]
          have h6 : sricOverhead = 6 := rfl
          omega
        · rw [List.length_drop] at hlen' ⊢
          omega
  | inside q r hb hr hv hx =>
      have hflag : ∀ a ∈ u, isFramingByte a = false := sricStuffing.no_flag_of_append hx
      have hshort : u.length + fut.length < f.wire.length := by
        have := congrArg List.length hx
        rw [List.length_append] at this
        rw [hwire, hb, sricStuffing.stuff_append, List.length_append]
        omega
      obtain ⟨q', r', rfl, hq, hr'⟩ := unescape_stuff hx n
      cases r' with
      | nil =>
          have hnil := List.append_eq_nil_iff.mp hr'
          refine .inr (.inr ⟨hnil.1, hnil.2, ?_, by omega, ?_, ?_⟩)
          · rw [hv, hq, f.bytes_eq_cons, hb, List.append_nil]
            rfl
          · rw [hq]
            simpa using hr
          · cases u with
            | nil => rfl
            | cons a u => exact hflag a (by simp)
      | cons a r' =>
          refine .inl ⟨.inside (q ++ q') (a :: r') (by rw [hb, List.append_assoc]) (by simp)
            (by rw [hv, hq]; rfl) hr', by omega⟩

/-- A pending escape alone is no end of a frame. -/
theorem Due.not_lone_esc {f : FrameT} {v : List Byte} : ¬Due f [0x7D] v [] := by
  intro hx
  rcases hx with ⟨x, hx⟩ | ⟨q, r, -, -, -, hx⟩
  · have hlen := congrArg List.length hx
    have h6 := sricStuffing.length_le_stuff f.bytes.tail
    rw [f.tail_length] at h6
    simp only [FrameT.wire, List.length_append, List.length_cons, List.length_nil] at hlen
    have h6' : sricOverhead = 6 := rfl
    omega
  · exact sricStuffing.getLast?_stuff_ne_esc r (by rw [← hx]; rfl)

theorem Due.read {f : FrameT} {u v chunk fut : List Byte} (h : Due f u v (chunk ++ fut)) :
    Due f (u ++ chunk) v fut := by
  cases h with
  | ahead x hx => exact .ahead x (by rw [List.append_assoc, hx])
  | inside q r hb hr hv hx => exact .inside q r hb hr hv (by rw [List.append_assoc, hx])

theorem Gone.read {f : FrameT} {u v chunk fut : List Byte} (h : Gone f u v (chunk ++ fut)) :
    Gone f (u ++ chunk) v fut := by
  obtain ⟨hflag, hshort, hlong⟩ := h
  rw [← List.append_assoc] at hflag hshort hlong
  exact ⟨hflag, hshort, hlong⟩

/-- Dropping what is assembled, or some of what is unread, brings nothing
back. -/
theorem Gone.drop {f : FrameT} {u v fut : List Byte} (h : Gone f u v fut) (n : Nat) :
    Gone f (u.drop n) [] fut := by
  refine ⟨fun a ha => h.no_flag a ?_, Nat.lt_of_le_of_lt ?_ h.short, .inl rfl⟩
  · rcases List.mem_append.mp ha with ha | ha
    · exact List.mem_append_left _ (List.mem_of_mem_drop ha)
    · exact List.mem_append_right _ ha
  · simp only [List.length_append, List.length_drop]
    omega

/-- What has become of the frame, and whether its framing byte was taken,
`proc_rx_frame` was called on it, and the loop stopped, on the way. -/
inductive Course (f : FrameT) (u v fut : List Byte) : Bool → Bool → Bool → Prop where
  | due {handed stopped : Bool} : Due f u v fut → (fut = [] → handed = false) →
      Course f u v fut false handed stopped
  | lost {handed stopped : Bool} : Gone f u v fut → (fut = [] → handed = false) →
      Course f u v fut true handed stopped
  | handed : Gone f u v fut → fut = [] → Course f u v fut false true false

namespace Rx

theorem settle_some {st : Rx} {f : List Byte} (h : checkFrame st.assembled = some f) :
    st.settle.assembled = [] := by
  rw [settle, h]
  rfl

theorem settle_none {st : Rx} (h : checkFrame st.assembled = none) : st.settle = st := by
  rw [settle, h]

/-- A turn that stops reports no work. -/
theorem WF.stops_idle {st st' : Rx} (h : st.WF) (hf : st.Fresh)
    (ha : st.advance = some (st', true)) : st.stops = false := by
  rw [stops]
  split
  · rename_i st1 hs
    apply Bool.eq_false_iff.mpr
    intro hb
    obtain ⟨st2, hadv, -⟩ := h.advance_of_start hf hs
    cases hu : st1.unread with
    | nil => rw [hu] at hb; cases hb
    | cons b u =>
        rw [hu, List.headD_cons] at hb
        rw [ha, hu, unescape_framing hb] at hadv
        cases hadv
  · rfl

/-- **One turn**, for a frame that is due. -/
theorem WF.turn_due {f : FrameT} {fut : List Byte} {st st' : Rx} {used : Bool} (h : st.WF)
    (hf : st.Fresh) (hd : Due f st.unread st.assembled fut) (ha : st.advance = some (st', used)) :
    Course f st'.unread st'.settle.assembled fut (st.takes (f.wire.length - fut.length))
      (st.hands f.bytes) st.stops := by
  have hrxpos : ∀ {t : Rx}, t.WF → t.rxpos = 0 → t.unread = [] :=
    fun ht h0 => ht.unread_eq_nil.mpr h0
  rcases h.startFrame_eq hf with ⟨st1, hs, -, hu, hv, hl⟩ | ⟨st1, hs, hwf1, hpos, hl⟩
  · have hadv : st.advance = some (st1, false) := by rw [advance, hs]
    cases ha.symm.trans hadv
    rw [takes_none hs, settle_none (by rw [hv]; exact checkFrame_short (by decide)), hu, hv]
    refine .due (hd.startList_none hl) fun _ => Bool.eq_false_iff.mpr ?_
    intro hh
    cases ((hands_iff ha _).mp hh).1
  · obtain ⟨st2, hadv, hwf2, hu2, hv2, -⟩ := h.advance_of_start hf hs
    rw [ha] at hadv
    obtain ⟨rfl, hused⟩ := Prod.mk.inj (Option.some.inj hadv)
    have hne : st1.assembled ≠ [] := fun hn => by
      rw [hwf1.assembled_eq_nil] at hn
      omega
    have hnot : ∀ {b : Bool}, ¬b = true → b = false := Bool.eq_false_iff.mpr
    rcases (hd.startList hl).taken_or_kept hne (unescSize - st1.assembled.length) rfl with
      ⟨hdue, htk⟩ | ⟨hgone, htk⟩ | ⟨hnil, hfut, hbytes, htk, hdest, hhead⟩
    · -- still due, be it behind a frame that has just been accepted
      rw [← hu2, ← hv2] at hdue
      rw [hnot fun ht => htk ((takes_eq hs hwf1 _).mp ht)]
      refine .due ?_ fun hfut => hnot ?_
      · cases hc : checkFrame st'.assembled with
        | none => rwa [settle_none hc]
        | some w =>
            rw [settle_some hc]
            cases hdue with
            | ahead x hx => exact .ahead x hx
            | inside q r hb hr hv hx =>
                have hpart : checkFrame st'.assembled = none := f.checkFrame_part
                  (by rw [f.bytes_eq_cons, hb, hv, List.cons_append]) hr
                rw [hpart] at hc
                cases hc
      · intro hh
        rw [hfut, hrxpos hwf2 ((hands_iff ha _).mp hh).2.2.2] at hdue
        exact hdue.not_nil
    · rw [(takes_eq hs hwf1 _).mpr htk]
      rw [← hu2, ← hv2] at hgone
      refine .lost ?_ fun hfut => hnot ?_
      · cases hc : checkFrame st'.assembled with
        | none => rwa [settle_none hc]
        | some w => rw [settle_some hc]; exact hgone.drop 0
      · intro hh
        obtain ⟨-, -, hb, h0⟩ := (hands_iff ha _).mp hh
        rw [hfut, hrxpos hwf2 h0] at hgone
        exact hgone.not_bytes hb
    · rw [← hv2] at hbytes
      have hc : checkFrame st'.assembled = some f.bytes := by
        rw [hbytes]
        exact f.checkFrame_bytes
      have hu0 : st'.unread = [] := by rw [hu2, hnil]
      have hhands : st.hands f.bytes = true := by
        refine (hands_iff ha _).mpr ⟨?_, hc, hbytes, hwf2.unread_eq_nil.mp hu0⟩
        rw [hused]
        simpa using hdest
      have hstops : st.stops = false := by rw [stops, hs]; exact hhead
      rw [hnot fun ht => absurd ((takes_eq hs hwf1 _).mp ht).1 (Nat.not_le_of_lt htk), hhands,
        hstops, settle_some hc, hu0, hfut]
      exact .handed ⟨by simp, f.wire_pos, .inl rfl⟩ rfl

/-- One turn, for a frame that is gone. -/
theorem WF.turn_gone {f : FrameT} {fut : List Byte} {st st' : Rx} {used : Bool} (h : st.WF)
    (hf : st.Fresh) (hg : Gone f st.unread st.assembled fut) (ha : st.advance = some (st', used)) :
    Gone f st'.unread st'.settle.assembled fut ∧ st.takes (f.wire.length - fut.length) = false
      ∧ (fut = [] → st.hands f.bytes = false) ∧ st.stops = false := by
  have hnot : ∀ {b : Bool}, ¬b = true → b = false := Bool.eq_false_iff.mpr
  have hflag : ∀ a ∈ st.unread, isFramingByte a = false :=
    fun a ha => hg.no_flag a (List.mem_append_left _ ha)
  rcases h.startFrame_eq hf with ⟨st1, hs, -, hu, hv, -⟩ | ⟨st1, hs, hwf1, hpos, hl⟩
  · have hadv : st.advance = some (st1, false) := by rw [advance, hs]
    cases ha.symm.trans hadv
    refine ⟨?_, takes_none hs _, fun _ => hnot ?_, by rw [stops, hs]⟩
    · rw [settle_none (by rw [hv]; exact checkFrame_short (by decide)), hu, hv]
      simpa using hg.drop st.unread.length
    · intro hh
      cases ((hands_iff ha _).mp hh).1
  · obtain ⟨st2, hadv, hwf2, hu2, hv2, -⟩ := h.advance_of_start hf hs
    rw [ha] at hadv
    obtain ⟨rfl, -⟩ := Prod.mk.inj (Option.some.inj hadv)
    rcases startList_no_flag (v := st.assembled) hflag with hn | hn
    · rw [hn] at hl
      cases hl
    · -- the frame being assembled is gone on with
      rw [hn] at hl
      obtain ⟨hu1, hv1⟩ := Prod.mk.inj (Option.some.inj hl)
      have hne : st.assembled ≠ [] := fun hnil => by
        rw [hv1, hwf1.assembled_eq_nil] at hnil
        omega
      rw [← hu1, ← hv1] at hu2 hv2
      obtain ⟨r, hx, hlong⟩ := hg.long.resolve_left hne
      obtain ⟨q, r', rfl, hq, hr'⟩ := unescape_stuff hx (unescSize - st.assembled.length)
      have hgone : Gone f st'.unread st'.assembled fut := by
        have hdrop := hg.drop (unescape st.unread (unescSize - st.assembled.length)).1
        rw [← hu2] at hdrop hr'
        refine ⟨hdrop.no_flag, hdrop.short, .inr ⟨r', hr', ?_⟩⟩
        rw [hv2, hq, List.length_append]
        rw [List.length_append] at hlong
        omega
      refine ⟨?_, hnot ?_, fun hfut => hnot ?_, ?_⟩
      · cases hc : checkFrame st'.assembled with
        | none => rwa [settle_none hc]
        | some w => rw [settle_some hc]; exact hgone.drop 0
      · intro ht
        have hk := (takes_eq hs hwf1 _).mp ht
        have hshort := hg.short
        rw [List.length_append] at hshort
        rw [← hu1] at hk
        omega
      · intro hh
        obtain ⟨-, -, hb, h0⟩ := (hands_iff ha _).mp hh
        rw [hfut, hwf2.unread_eq_nil.mpr h0] at hgone
        exact hgone.not_bytes hb
      · rw [stops, hs]
        show isFramingByte (st1.unread.headD 0) = false
        rw [← hu1]
        cases hu : st.unread with
        | nil => rfl
        | cons a u => exact hflag a (by rw [hu]; simp)

/-! ## The loop -/

theorem anyTurn_idle {st st' : Rx} (h : st.advance = some (st', false)) (p : Rx → Bool)
    (fuel : Nat) : st.anyTurn p (fuel + 1) = p st := by
  rw [anyTurn, h, Bool.or_false]

theorem anyTurn_work {st st' : Rx} (h : st.advance = some (st', true)) (p : Rx → Bool)
    (fuel : Nat) : st.anyTurn p (fuel + 1) = (p st || st'.settle.anyTurn p fuel) := by
  rw [anyTurn, h]

theorem WF.loop_gone {f : FrameT} {fut : List Byte} {fuel : Nat} {st st' : Rx}
    {fs : List (List Byte)} (h : st.WF) (hf : st.Fresh) (hacc : checkFrame st.assembled = none)
    (hg : Gone f st.unread st.assembled fut) (hl : st.loop fuel = some (st', fs)) :
    Gone f st'.unread st'.assembled fut
      ∧ st.anyTurn (takes (f.wire.length - fut.length)) fuel = false
      ∧ (fut = [] → st.anyTurn (hands f.bytes) fuel = false) ∧ st.anyTurn stops fuel = false := by
  induction fuel generalizing st fs with
  | zero => cases hl
  | succ fuel ih =>
      rcases h.loop_cases hf hl with ⟨ha, -⟩ | ⟨st1, fs1, ha, hwf, hfr, -, hl1, -⟩
      · obtain ⟨hgone, htk, hh, hst⟩ := h.turn_gone hf hg ha
        rw [settle_none (h.turn_idle hf hacc ha).1] at hgone
        simp only [anyTurn_idle ha]
        exact ⟨hgone, htk, hh, hst⟩
      · obtain ⟨hgone, htk, hh, hst⟩ := h.turn_gone hf hg ha
        rw [← settle_unread] at hgone
        obtain ⟨hgone', htk', hh', hst'⟩ :=
          ih hwf.settle hfr.settle (checkFrame_settle st1) hgone hl1
        simp only [anyTurn_work ha, htk, hst, Bool.false_or]
        exact ⟨hgone', htk', fun hfut => by rw [hh hfut, hh' hfut]; rfl, hst'⟩

theorem WF.loop_due {f : FrameT} {fut : List Byte} {fuel : Nat} {st st' : Rx}
    {fs : List (List Byte)} (h : st.WF) (hf : st.Fresh) (hacc : checkFrame st.assembled = none)
    (hd : Due f st.unread st.assembled fut) (hl : st.loop fuel = some (st', fs)) :
    Course f st'.unread st'.assembled fut
      (st.anyTurn (takes (f.wire.length - fut.length)) fuel)
      (st.anyTurn (hands f.bytes) fuel) (st.anyTurn stops fuel) := by
  induction fuel generalizing st fs with
  | zero => cases hl
  | succ fuel ih =>
      rcases h.loop_cases hf hl with ⟨ha, -⟩ | ⟨st1, fs1, ha, hwf, hfr, -, hl1, -⟩
      · have hturn := h.turn_due hf hd ha
        rw [settle_none (h.turn_idle hf hacc ha).1] at hturn
        simp only [anyTurn_idle ha]
        exact hturn
      · have hturn := h.turn_due hf hd ha
        rw [← settle_unread] at hturn
        have hwf' := hwf.settle
        have hfr' := hfr.settle
        have hacc' := checkFrame_settle st1
        simp only [anyTurn_work ha, h.stops_idle hf ha, Bool.false_or]
        generalize st.takes (f.wire.length - fut.length) = taken at hturn ⊢
        generalize st.hands f.bytes = handed at hturn ⊢
        generalize st.stops = stopped at hturn
        cases hturn with
        | due hdue hh =>
            -- the rest of the loop decides
            have hrest := ih hwf' hfr' hacc' hdue hl1
            rw [Bool.false_or]
            generalize st1.settle.anyTurn (takes (f.wire.length - fut.length)) fuel = taken
              at hrest ⊢
            generalize st1.settle.anyTurn (hands f.bytes) fuel = handed' at hrest ⊢
            generalize st1.settle.anyTurn stops fuel = stopped at hrest ⊢
            cases hrest with
            | due hdue' hh' =>
                exact .due hdue' fun hfut => by rw [hh hfut, hh' hfut]; rfl
            | lost hgone hh' =>
                exact .lost hgone fun hfut => by rw [hh hfut, hh' hfut]; rfl
            | handed hgone hfut =>
                rw [hh hfut]
                exact .handed hgone hfut
        | lost hgone hh =>
            obtain ⟨hgone', -, hh', -⟩ := hwf'.loop_gone hfr' hacc' hgone hl1
            exact .lost hgone' fun hfut => by rw [hh hfut, hh' hfut]; rfl
        | handed hgone hfut =>
            obtain ⟨hgone', htk', -, hst'⟩ := hwf'.loop_gone hfr' hacc' hgone hl1
            rw [htk', hst']
            exact .handed hgone' hfut

/-- A frame handed over with every byte used is the last one of the loop. -/
theorem WF.loop_hands {f : List Byte} {fuel : Nat} {st st' : Rx} {fs : List (List Byte)}
    (h : st.WF) (hf : st.Fresh) (hl : st.loop fuel = some (st', fs))
    (hh : st.anyTurn (hands f) fuel = true) : ∃ fs', fs = fs' ++ [f] := by
  induction fuel generalizing st fs with
  | zero => cases hl
  | succ fuel ih =>
      rcases h.loop_cases hf hl with ⟨ha, -⟩ | ⟨st1, fs1, ha, hwf, hfr, -, hl1, rfl⟩
      · rw [anyTurn_idle ha, hands_iff ha] at hh
        cases hh.1
      · rw [anyTurn_work ha, Bool.or_eq_true] at hh
        rcases hh with hh | hh
        · obtain ⟨-, hc, -, h0⟩ := (hands_iff ha f).mp hh
          have hu : st1.settle.unread = [] := by
            rw [settle_unread]
            exact hwf.unread_eq_nil.mpr h0
          rcases hwf.settle.startFrame_eq hfr.settle with ⟨st3, hs, -⟩ | ⟨st3, -, -, -, hstart⟩
          · have hidle : st1.settle.advance = some (st3, false) := by rw [advance, hs]
            cases fuel with
            | zero => cases hl1
            | succ fuel =>
                rw [loop_idle hidle] at hl1
                cases hl1
                exact ⟨[], by rw [hc]; rfl⟩
          · rw [hu, settle_some hc] at hstart
            cases hstart
        · obtain ⟨fs', rfl⟩ := ih hwf.settle hfr.settle hl1 hh
          exact ⟨(checkFrame st1.assembled).toList ++ fs', (List.append_assoc ..).symm⟩

end Rx

/-! ## The calls of `rx` -/

theorem rx_hands {f chunk : List Byte} {st : Rx} (h : RxInv st) (hfit : Fits st chunk)
    (hh : rxTurn (Rx.hands f) st chunk = true) :
    ∃ st' fs, rx st chunk = .ok (st', fs ++ [f]) := by
  obtain ⟨st1, st', fs, hread, hwf, hfr, -, -, -, hl, -, hr⟩ := rx_of_loop h hfit
  rw [rxTurn, hread] at hh
  obtain ⟨fs', rfl⟩ := hwf.loop_hands hfr hl hh
  exact ⟨st', fs', hr⟩

theorem rx_gone {f : FrameT} {fut chunk : List Byte} {st st' : Rx} {fs : List (List Byte)}
    (h : RxInv st) (hfit : Fits st chunk) (hg : Gone f st.unread st.assembled (chunk ++ fut))
    (hr : rx st chunk = .ok (st', fs)) :
    Gone f st'.unread st'.assembled fut
      ∧ (fut = [] → rxTurn (Rx.hands f.bytes) st chunk = false) := by
  obtain ⟨st1, st2, fs2, hread, hwf, hfr, hacc, hu, hv, hl, -, hr2⟩ := rx_of_loop h hfit
  cases hr.symm.trans hr2
  have hg1 := hg.read
  rw [← hu, ← hv] at hg1
  obtain ⟨hgone, -, hh, -⟩ := hwf.loop_gone hfr hacc hg1 hl
  rw [rxTurn, hread]
  exact ⟨hgone, hh⟩

theorem rx_due {f : FrameT} {fut chunk : List Byte} {st st' : Rx} {fs : List (List Byte)}
    (h : RxInv st) (hfit : Fits st chunk) (hd : Due f st.unread st.assembled (chunk ++ fut))
    (hr : rx st chunk = .ok (st', fs)) :
    Course f st'.unread st'.assembled fut
      (rxTurn (Rx.takes (f.wire.length - fut.length)) st chunk)
      (rxTurn (Rx.hands f.bytes) st chunk) (rxTurn Rx.stops st chunk) := by
  obtain ⟨st1, st2, fs2, hread, hwf, hfr, hacc, hu, hv, hl, -, hr2⟩ := rx_of_loop h hfit
  cases hr.symm.trans hr2
  have hd1 := hd.read
  rw [← hu, ← hv] at hd1
  rw [rxTurn, rxTurn, rxTurn, hread]
  exact hwf.loop_due hfr hacc hd1 hl

/-- No call of `unescape` takes the byte that begins the last `n` bytes of
what is read. -/
def Untaken (n : Nat) : Rx → List (List Byte) → Prop
  | _, [] => True
  | st, chunk :: chunks =>
      rxTurn (Rx.takes (n - chunks.flatten.length)) st chunk = false
        ∧ ∀ st' fs, rx st chunk = .ok (st', fs) → Untaken n st' chunks

instance decidableUntaken (n : Nat) : ∀ st chunks, Decidable (Untaken n st chunks)
  | _, [] => .isTrue trivial
  | st, chunk :: chunks =>
      match h : rx st chunk with
      | .error _ =>
          decidable_of_iff (rxTurn (Rx.takes (n - chunks.flatten.length)) st chunk = false)
            (by simp [Untaken, h])
      | .ok (st', _) =>
          have : Decidable (Untaken n st' chunks) := decidableUntaken n st' chunks
          decidable_of_iff (rxTurn (Rx.takes (n - chunks.flatten.length)) st chunk = false
            ∧ Untaken n st' chunks) (by simp [Untaken, h])

theorem gone_run {f : FrameT} {chunk : List Byte} {cs : List (List Byte)} {st st' : Rx}
    {fs : List (List Byte)} (h : RxInv st) (hfit : Along rx Fits st (cs ++ [chunk]))
    (hg : Gone f st.unread st.assembled (cs ++ [chunk]).flatten)
    (hrun : run rx st cs = .ok (st', fs)) :
    rxTurn (Rx.hands f.bytes) st' chunk = false := by
  induction cs generalizing st fs with
  | nil =>
      cases hrun
      obtain ⟨st2, fs2, hr⟩ := rx_returns h hfit.1
      exact (@rx_gone f [] chunk _ _ _ h hfit.1 hg hr).2 rfl
  | cons c cs ih =>
      obtain ⟨st1, fs1, fs2, hr, hrun', -⟩ := run_cons_ok.mp hrun
      exact ih (rx_drains h hfit.1 hr).1 (hfit.2 st1 fs1 hr) (rx_gone h hfit.1 hg hr).1 hrun'

theorem due_run {f : FrameT} {chunk : List Byte} {cs : List (List Byte)} {st st' : Rx}
    {fs : List (List Byte)} (h : RxInv st) (hfit : Along rx Fits st (cs ++ [chunk]))
    (hd : Due f st.unread st.assembled (cs ++ [chunk]).flatten)
    (hrun : run rx st cs = .ok (st', fs)) :
    rxTurn (Rx.hands f.bytes) st' chunk = true
      ↔ Untaken f.wire.length st (cs ++ [chunk]) ∧ rxTurn Rx.stops st' chunk = false := by
  induction cs generalizing st fs with
  | nil =>
      cases hrun
      obtain ⟨st2, fs2, hr⟩ := rx_returns h hfit.1
      have hcourse := @rx_due f [] chunk _ _ _ h hfit.1 hd hr
      have hun : Untaken f.wire.length st' ([] ++ [chunk])
          ↔ rxTurn (Rx.takes (f.wire.length - ([] : List Byte).length)) st' chunk = false :=
        and_iff_left fun _ _ _ => trivial
      have hend := (rx_drains h hfit.1 hr).2
      rw [hun]
      generalize rxTurn (Rx.takes _) st' chunk = taken at hcourse ⊢
      generalize rxTurn (Rx.hands f.bytes) st' chunk = handed at hcourse ⊢
      generalize rxTurn Rx.stops st' chunk = stopped at hcourse hend ⊢
      cases hcourse with
      | due hdue hh =>
          -- a frame still due is still unread
          cases stopped with
          | true => simp [hh rfl]
          | false =>
              rcases hend rfl with hu | hu
              · exact absurd (hu ▸ hdue) Due.not_nil
              · exact absurd (hu ▸ hdue) Due.not_lone_esc
      | lost _ hh => simp [hh rfl]
      | handed => simp
  | cons c cs ih =>
      obtain ⟨st1, fs1, fs2, hr, hrun', -⟩ := run_cons_ok.mp hrun
      have h1 := (rx_drains h hfit.1 hr).1
      have hfit1 := hfit.2 st1 fs1 hr
      have hcourse := rx_due h hfit.1 hd hr
      have hun : Untaken f.wire.length st (c :: cs ++ [chunk])
          ↔ rxTurn (Rx.takes (f.wire.length - (cs ++ [chunk]).flatten.length)) st c = false
            ∧ Untaken f.wire.length st1 (cs ++ [chunk]) := by
        refine and_congr_right fun _ => ⟨fun hall => hall st1 fs1 hr, ?_⟩
        intro hx st2 fs' hr2
        cases hr.symm.trans hr2
        exact hx
      rw [hun]
      generalize rxTurn (Rx.takes _) st c = taken at hcourse ⊢
      generalize rxTurn (Rx.hands f.bytes) st c = handed at hcourse
      generalize rxTurn Rx.stops st c = stopped at hcourse
      cases hcourse with
      | due hdue hh => simp [ih h1 hfit1 hdue hrun']
      | lost hgone hh => simp [gone_run h1 hfit1 hgone hrun']
      | handed hgone hfut =>
          -- the last read is still to come
          have hne := (along_at hfit1 hrun').1
          simp [hne] at hfut

/-- **Resynchronisation**: behind arbitrary bytes, however cut, the call of
`rx` that reads the last byte of a frame hands it over, with nothing else
in `unesc_rx` and no byte unused, exactly when its framing byte was not
taken for the byte behind an escape, and the call does not return early. -/
theorem rx_resynchronises {g chunk : List Byte} {f : FrameT} {cs : List (List Byte)} {st : Rx}
    {fs : List (List Byte)} (hcut : Cut (g ++ f.wire) (cs ++ [chunk]))
    (hrun : run rx Rx.init cs = .ok (st, fs)) :
    (∃ st' fs', rx st chunk = .ok (st', fs' ++ [f.bytes])
        ∧ rxTurn (Rx.hands f.bytes) st chunk = true)
      ↔ Untaken f.wire.length Rx.init (cs ++ [chunk]) ∧ rxTurn Rx.stops st chunk = false := by
  have hdue : Due f Rx.init.unread Rx.init.assembled (cs ++ [chunk]).flatten :=
    .ahead g (by rw [hcut.2]; rfl)
  rw [← due_run rxInv_init hcut.1 hdue hrun]
  constructor
  · intro hx
    obtain ⟨-, -, -, hh⟩ := hx
    exact hh
  · intro hh
    have hinv := rx_run_inv rxInv_init (along_init hcut.1) hrun
    obtain ⟨st', fs', hr⟩ := rx_hands hinv (along_at hcut.1 hrun) hh
    exact ⟨st', fs', hr, hh⟩

/-- Stray bytes and a stray escape, read together with the frame. -/
theorem rx_resynchronises_stray :
    ∃ st' fs', rx Rx.init [0x55, 0x7D, 0x7E, 0x02, 0x01, 0x00, 0x47, 0xA3]
        = .ok (st', fs' ++ [[0x7E, 0x02, 0x01, 0x00, 0x47, 0xA3]]) := by
  have hcut : Cut ([0x55, 0x7D] ++ FrameT.wire ⟨.sric, 2, .null, [], by decide⟩)
      ([] ++ [[0x55, 0x7D, 0x7E, 0x02, 0x01, 0x00, 0x47, 0xA3]]) := by decide +kernel
  obtain ⟨st', fs', hr, -⟩ := (rx_resynchronises hcut (run_nil Rx.init)).mpr
    ⟨by decide +kernel, by decide +kernel⟩
  have hbytes : FrameT.bytes ⟨.sric, 2, .null, [], by decide⟩
      = [0x7E, 0x02, 0x01, 0x00, 0x47, 0xA3] := by decide +kernel
  exact ⟨st', fs', by rw [hr, hbytes]⟩

/-- An escape right in front of a frame, inside what looks like another
one, hides it. -/
theorem rx_loses_frame_behind_escape :
    ¬∀ g (f : FrameT) chunks, Cut (g ++ f.wire) chunks →
      ∃ st fs, run rx Rx.init chunks = .ok (st, fs) ∧ f.bytes ∈ fs := by
  intro h
  obtain ⟨st, fs, hr, hmem⟩ := h [0x7E, 0x7D] ⟨.sric, 2, .null, [], by decide⟩
    [[0x7E, 0x7D, 0x7E, 0x02, 0x01, 0x00, 0x47, 0xA3]] (by decide +kernel)
  have hnone : ((run rx Rx.init [[0x7E, 0x7D, 0x7E, 0x02, 0x01, 0x00, 0x47, 0xA3]]).toOption.map
      Prod.snd) = some [] := by decide +kernel
  rw [hr] at hnone
  cases Option.some.inj hnone
  cases hmem

end Sricd
