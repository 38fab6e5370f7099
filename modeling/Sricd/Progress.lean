import Sricd.Ostric

/-!
# Damaged frames

What `ostric` does with a frame that is cut short, too long, or claims
another length than it has. `process_command` answers that it needs more
data, and nothing is taken from `pty_buf`; that is right as long as the
frame can grow. Where it cannot, the buffer stays as it is for ever
(`ostric_progress_iff`).
-/

namespace Sricd

open Sricd.Lib

/-! ## `unescape`, up to a framing byte -/

/-- Behind anything but an escape, a framing byte is where `unescape`
stops at the latest. -/
theorem unescape_stops {x y : List Byte} {b : Byte} (hb : isFramingByte b = true)
    (hx : x.getLast? ≠ some 0x7D) (n : Nat) :
    (unescape (x ++ b :: y) n).1 ≤ x.length
      ∧ (x.length < n →
        isFramingByte ((x ++ b :: y).getD (unescape (x ++ b :: y) n).1 0) = true) := by
  have hesc : b ≠ 0x7D := by
    intro h
    rw [h] at hb
    cases hb
  generalize hu : x ++ b :: y = u
  fun_induction unescape u n generalizing x with
  | case1 => cases x <;> cases hu
  | case2 => exact ⟨Nat.zero_le _, fun h => absurd h (Nat.not_lt_zero _)⟩
  | case3 =>
      cases x with
      | nil => exact absurd (List.cons.inj hu).1 hesc
      | cons c x => cases x <;> cases (List.cons.inj hu).2
  | case4 n z src spos dest h ih =>
      simp only [h] at ih
      cases x with
      | nil => exact absurd (List.cons.inj hu).1 hesc
      | cons c x =>
          cases x with
          | nil =>
              obtain ⟨rfl, -⟩ := List.cons.inj hu
              exact absurd rfl hx
          | cons d x =>
              have hu := (List.cons.inj (List.cons.inj hu).2).2
              have hx' : x.getLast? ≠ some 0x7D := by
                intro hl
                exact hx (by simp [List.getLast?_cons, hl])
              obtain ⟨hle, hflag⟩ := ih hx' hu
              refine ⟨Nat.add_le_add_right hle 2, fun hn => ?_⟩
              exact hflag (by simp only [List.length_cons] at hn; omega)
  | case5 c src n hc hf =>
      refine ⟨Nat.zero_le _, fun _ => isFramingByte_iff.mpr hf⟩
  | case6 c src n hc hf spos dest h ih =>
      simp only [h] at ih
      cases x with
      | nil =>
          obtain ⟨rfl, -⟩ := List.cons.inj hu
          exact absurd (isFramingByte_iff.mp hb) hf
      | cons d x =>
          have hu := (List.cons.inj hu).2
          have hx' : x.getLast? ≠ some 0x7D := by
            intro hl
            exact hx (by simp [List.getLast?_cons, hl])
          obtain ⟨hle, hflag⟩ := ih hx' hu
          refine ⟨Nat.add_le_add_right hle 1, fun hn => ?_⟩
          exact hflag (Nat.lt_of_succ_lt_succ hn)

/-- What lies behind the framing byte makes no difference. -/
theorem unescape_stopped {u : List Byte} {n : Nat}
    (h : isFramingByte (u.getD (unescape u n).1 0) = true) (w : List Byte) :
    unescape (u ++ w) n = unescape u n := by
  fun_induction unescape u n with
  | case1 => cases h
  | case2 => rfl
  | case3 => cases h
  | case4 n z src spos dest hu ih =>
      rw [hu] at ih
      show unescape (0x7D :: z :: (src ++ w)) (n + 1) = _
      rw [unescape_esc, ih h]
  | case5 c src n hc hf => exact unescape_framing (isFramingByte_iff.mpr hf) _ _
  | case6 c src n hc hf spos dest hu ih =>
      rw [hu] at ih
      show unescape (c :: (src ++ w)) (n + 1) = _
      rw [unescape_plain hc hf, ih h]

/-- Stuffed bytes, and what follows them. -/
theorem unescape_stuff_append (l y : List Byte) {n : Nat} (h : l.length ≤ n) :
    unescape (sricStuffing.stuff l ++ y) n
      = ((sricStuffing.stuff l).length + (unescape y (n - l.length)).1,
        l ++ (unescape y (n - l.length)).2) := by
  induction l generalizing n with
  | nil => simp
  | cons a l ih =>
      obtain ⟨n, rfl⟩ : ∃ m, n = m + 1 :=
        Nat.exists_eq_add_one.mpr (Nat.lt_of_lt_of_le (by simp) h)
      have hl := ih (Nat.le_of_succ_le_succ h)
      rw [List.length_cons, Nat.add_sub_add_right]
      by_cases ha : sricStuffing.flag a = true ∨ a = sricStuffing.esc
      · have hflip : sricStuffing.flip a ^^^ 0x20 = a := sricStuffing.flip_flip a
        have hesc : sricStuffing.esc = 0x7D := rfl
        rw [sricStuffing.stuff_special ha, hesc, List.cons_append, List.cons_append, unescape_esc,
          hl, hflip]
        simp only [List.length_cons, List.cons_append, Prod.mk.injEq, and_true]
        omega
      · rw [sricStuffing.stuff_plain ha]
        have hplain := not_or.mp ha
        rw [List.cons_append,
          unescape_plain hplain.2 (fun hf => hplain.1 (isFramingByte_iff.mpr hf)), hl]
        simp only [List.length_cons, List.cons_append, Prod.mk.injEq, and_true]
        omega

/-! ## `process_command` -/

/-- What the frame at the start of the buffer is unescaped to, behind its
first byte. -/
def unescaped (buf : List Byte) : Nat × List Byte := unescape buf.tail (ptyBufSize - 1)

/-- There are as many bytes as the length byte says. -/
def Carried (buf : List Byte) : Prop :=
  ((unescaped buf).2.getD 2 0 &&& 0x3F).toNat + 5 ≤ (unescaped buf).2.length

/-- The frame at the start of the buffer is complete, or never will be:
another one follows, or the buffer is full. -/
def CannotGrow (buf : List Byte) : Prop :=
  isFramingByte (buf.headD 0) = true
    ∧ (buf.length = ptyBufSize ∨ isFramingByte (buf.tail.getD (unescaped buf).1 0) = true)

instance (buf : List Byte) : Decidable (Carried buf) := inferInstanceAs (Decidable (_ ≤ _))

instance (buf : List Byte) : Decidable (CannotGrow buf) := inferInstanceAs (Decidable (_ ∧ _))

/-- More data is asked for exactly if the length byte says so, wherever it
is read from. -/
theorem processCommand_none_iff (b : Byte) (dest rest : List Byte) :
    processCommand (b :: dest ++ rest) (dest.length + 1) = none
      ↔ ¬(dest.getD 2 0 &&& 0x3F).toNat + 5 ≤ dest.length := by
  have hget : 3 ≤ dest.length → (b :: dest ++ rest).getD 3 0 = dest.getD 2 0 := by
    intro h
    rw [List.getD_eq_getElem?_getD, List.getElem?_append_left (by simp; omega),
      List.getElem?_cons_succ, List.getD_eq_getElem?_getD]
  have hnone : processCommand (b :: dest ++ rest) (dest.length + 1) = none
      ↔ dest.length + 1 < ((b :: dest ++ rest).getD 3 0 &&& 0x3F).toNat + 6 := by
    rw [processCommand]
    dsimp only
    constructor
    · intro h
      by_contra hle
      rw [if_neg hle] at h
      split at h
      · cases h
      · split at h <;> cases h
    · intro h
      exact if_pos h
  rw [hnone]
  by_cases h3 : 3 ≤ dest.length
  · rw [hget h3]
    omega
  · omega

/-- One turn with a framing byte in front. -/
theorem tryParsingStuff_flag {b : Byte} (hb : isFramingByte b = true) (pty tmp : List Byte) :
    ∃ rest, tryParsingStuff tmp (b :: pty)
      = match processCommand (b :: (unescaped (b :: pty)).2 ++ rest)
          ((unescaped (b :: pty)).2.length + 1) with
        | some cmds => ((b :: pty).drop ((unescaped (b :: pty)).1 + 1), cmds)
        | none => (b :: pty, []) := by
  obtain ⟨rest, hrest⟩ := tmpBuf_eq tmp (unescaped (b :: pty)).2 b
  refine ⟨rest, ?_⟩
  have hnot : ¬(b ≠ 0x7E ∧ b ≠ 0x8E) := by
    rw [isFramingByte_iff] at hb
    tauto
  rw [tryParsingStuff, if_neg hnot, ← hrest]
  rfl

/-- A byte that does not start a frame is dropped. -/
theorem tryParsingStuff_skip {b : Byte} (hb : ¬isFramingByte b = true) (pty tmp : List Byte) :
    tryParsingStuff tmp (b :: pty) = tryParsingStuff tmp pty := by
  rw [tryParsingStuff]
  apply if_pos
  rw [isFramingByte_iff] at hb
  tauto

/-- A frame that carries what it claims is used up, with what it was
unescaped from. -/
theorem tryParsingStuff_carried {b : Byte} (hb : isFramingByte b = true) {pty : List Byte}
    (h : Carried (b :: pty)) (tmp : List Byte) :
    (tryParsingStuff tmp (b :: pty)).1 = (b :: pty).drop ((unescaped (b :: pty)).1 + 1) := by
  obtain ⟨rest, hturn⟩ := tryParsingStuff_flag hb pty tmp
  rw [hturn]
  split
  · rfl
  · rename_i hnone
    exact absurd h ((processCommand_none_iff _ _ _).mp hnone)

/-- A frame that does not stays. -/
theorem tryParsingStuff_wait {buf : List Byte} (hb : isFramingByte (buf.headD 0) = true)
    (h : ¬Carried buf) (tmp : List Byte) : tryParsingStuff tmp buf = (buf, []) := by
  cases buf with
  | nil => cases hb
  | cons b pty =>
      obtain ⟨rest, hturn⟩ := tryParsingStuff_flag (b := b) hb pty tmp
      rw [hturn, (processCommand_none_iff _ _ _).mpr h]

/-- **One call**: a frame that cannot grow is taken from the buffer exactly
if it carries what it claims. -/
theorem parsing_progress_iff (tmp buf : List Byte) :
    (CannotGrow buf → (tryParsingStuff tmp buf).1.length < buf.length)
      ↔ (CannotGrow buf → Carried buf) := by
  refine imp_congr_right fun hgrow => ?_
  cases buf with
  | nil => cases hgrow.1
  | cons b pty =>
      constructor
      · intro hlt
        by_contra hc
        rw [tryParsingStuff_wait hgrow.1 hc] at hlt
        exact absurd hlt (Nat.lt_irrefl _)
      · intro hc
        rw [tryParsingStuff_carried (b := b) hgrow.1 hc, List.length_drop, List.length_cons]
        omega

/-! ## A frame in the way -/

theorem Pty.readFrames_eq (p : Pty) (r : ReadFrames) :
    p.readFrames r = .ok (⟨(p.tryReadingStuff r.ready).input,
        (tryParsingStuff r.tmp (p.tryReadingStuff r.ready).buf).1⟩,
      (tryParsingStuff r.tmp (p.tryReadingStuff r.ready).buf).2) := rfl

/-- What has been read of the line so far makes no difference to a frame
that cannot grow. -/
theorem CannotGrow.append {buf : List Byte} (h : CannotGrow buf) (w : List Byte)
    (hlen : (buf ++ w).length ≤ ptyBufSize) :
    CannotGrow (buf ++ w) ∧ (Carried (buf ++ w) ↔ Carried buf) := by
  obtain ⟨hflag, hend⟩ := h
  cases buf with
  | nil => cases hflag
  | cons b pty =>
      rcases hend with hfull | hstop
      · -- there is no room
        have hw : w = [] := by
          rw [List.length_append] at hlen
          exact List.length_eq_zero_iff.mp (by omega)
        subst hw
        rw [List.append_nil]
        exact ⟨⟨hflag, .inl hfull⟩, Iff.rfl⟩
      · have hsame : unescaped (b :: pty ++ w) = unescaped (b :: pty) := unescape_stopped hstop w
        refine ⟨⟨hflag, .inr ?_⟩, ?_⟩
        · rw [hsame]
          show isFramingByte ((pty ++ w).getD _ 0) = true
          change isFramingByte (pty.getD _ 0) = true at hstop
          rw [List.getD_eq_getElem?_getD] at hstop ⊢
          by_cases hin : (unescaped (b :: pty)).1 < pty.length
          · rwa [List.getElem?_append_left hin]
          · rw [List.getElem?_eq_none (Nat.le_of_not_lt hin)] at hstop
            cases hstop
        · rw [Carried, Carried, hsame]

/-- **A frame in the way stays there**, whatever is read behind it, and no
command is processed any more. -/
theorem wedged_run {p q : Pty} {reads : List ReadFrames} {cmds : List Command}
    (hlen : p.buf.length ≤ ptyBufSize) (hgrow : CannotGrow p.buf) (hc : ¬Carried p.buf)
    (hr : run Pty.readFrames p reads = .ok (q, cmds)) : cmds = [] ∧ p.buf <+: q.buf := by
  induction reads generalizing p cmds with
  | nil =>
      cases hr
      exact ⟨rfl, List.prefix_refl _⟩
  | cons r reads ih =>
      obtain ⟨p', o, os, hstep, hr', rfl⟩ := run_cons_ok.mp hr
      have hroom : (p.buf ++ p.input.take (min r.ready (ptyBufSize - p.buf.length))).length
          ≤ ptyBufSize := by
        rw [List.length_append, List.length_take]
        omega
      obtain ⟨hgrow', hiff⟩ := hgrow.append _ hroom
      have hbuf : (p.tryReadingStuff r.ready).buf
          = p.buf ++ p.input.take (min r.ready (ptyBufSize - p.buf.length)) := rfl
      rw [← hbuf] at hroom hgrow' hiff
      have hwait : tryParsingStuff r.tmp (p.tryReadingStuff r.ready).buf
          = ((p.tryReadingStuff r.ready).buf, []) :=
        tryParsingStuff_wait hgrow'.1 (fun h => hc (hiff.mp h)) r.tmp
      rw [Pty.readFrames_eq, hwait] at hstep
      cases hstep
      obtain ⟨rfl, hpre⟩ := ih (p := p.tryReadingStuff r.ready) hroom hgrow'
        (fun h => hc (hiff.mp h)) hr'
      rw [hbuf] at hpre
      exact ⟨rfl, (List.prefix_append _ _).trans hpre⟩

/-! ## Frames behind it -/

/-- What a frame is dispatched as. -/
def Command.of (g : List Byte) : Command := if g.getD 0 0 = 0x8E then .gateway g else .bus g

/-- A frame that `process_command` dispatches, and that is as long as it
says. -/
structure Complete (g : List Byte) : Prop where
  start : isFramingByte (g.headD 0) = true
  whole : (g.getD 3 0 &&& 0x3F).toNat + 6 = g.length
  dispatched : processCommand g g.length = some [.of g]

/-- The frame on the line. -/
def onWire (g : List Byte) : List Byte := g.headD 0 :: sricStuffing.stuff g.tail

/-- Frames, and what stands behind each of them. -/
def behind : List (List Byte × List Byte) → List Byte
  | [] => []
  | (g, d) :: fs => onWire g ++ (d ++ behind fs)

/-- The frames behind `d` are complete and fit the buffer, and no escape
stands right in front of them. -/
def Legible : List Byte → List (List Byte × List Byte) → Prop
  | _, [] => True
  | d, (g, d') :: fs =>
      d.getLast? ≠ some 0x7D ∧ Complete g ∧ (onWire g).length ≤ ptyBufSize ∧ Legible d' fs

theorem Complete.cons {g : List Byte} (h : Complete g) : g = g.headD 0 :: g.tail := by
  cases g with
  | nil => cases h.start
  | cons b l => rfl

theorem Legible.drop {d : List Byte} {fs : List (List Byte × List Byte)} (h : Legible d fs) (k : Nat) :
    Legible (d.drop k) fs := by
  cases fs with
  | nil => trivial
  | cons f fs =>
      refine ⟨?_, h.2⟩
      intro hl
      apply h.1
      rw [List.getLast?_drop] at hl
      split at hl
      · cases hl
      · exact hl

/-- What stands behind a frame that is dispatched makes no difference. -/
theorem Complete.processCommand {g : List Byte} (h : Complete g) (rest : List Byte) {len : Nat}
    (hlen : g.length ≤ len) : processCommand (g ++ rest) len = some [.of g] := by
  have h4 : 6 ≤ g.length := by
    rw [← h.whole]
    exact Nat.le_add_left _ _
  have hget : ∀ i, i < g.length → (g ++ rest).getD i 0 = g.getD i 0 := by
    intro i hi
    rw [List.getD_eq_getElem?_getD, List.getElem?_append_left hi, List.getD_eq_getElem?_getD]
  have htake : ∀ k, k ≤ g.length → (g ++ rest).take k = g.take k := by
    intro k hk
    rw [List.take_append_of_le_length hk]
  rw [← h.dispatched, Sricd.processCommand, Sricd.processCommand, hget 3 (by omega), h.whole]
  dsimp only
  rw [if_neg (by omega), if_neg (Nat.lt_irrefl _), htake _ (by omega), htake _ (Nat.le_refl _),
    hget 0 (by omega), hget _ (by omega), hget _ (by omega)]

/-- A part of a complete frame does not carry what it claims. -/
theorem Complete.part {g buf fut : List Byte} (h : Complete g) (hcut : buf ++ fut = onWire g)
    (hfut : fut ≠ []) (hne : buf ≠ []) : ¬Carried buf := by
  obtain ⟨b, u, rfl⟩ := List.exists_cons_of_ne_nil hne
  obtain ⟨-, hu⟩ := List.cons.inj hcut
  obtain ⟨q, r, hqr, hq, hr⟩ := unescape_stuff hu (ptyBufSize - 1)
  have hpos : 0 < r.length := by
    apply List.length_pos_iff.mpr
    intro hx
    rw [hx] at hr
    exact hfut (List.append_eq_nil_iff.mp hr).2
  have hlen := congrArg List.length hqr
  rw [List.length_tail, List.length_append, ← h.whole] at hlen
  have hdest : (unescaped (b :: u)).2 = q := hq
  rw [Carried, hdest]
  intro hc
  have hget : q.getD 2 0 = g.getD 3 0 := by
    rw [h.cons, hqr, List.getD_eq_getElem?_getD, List.getD_eq_getElem?_getD,
      List.getElem?_cons_succ, List.getElem?_append_left (by omega)]
  rw [hget] at hc
  omega

/-- A complete frame carries what it claims. -/
theorem Complete.carried {g : List Byte} (h : Complete g) (hfit : (onWire g).length ≤ ptyBufSize)
    (y : List Byte) : unescaped (onWire g ++ y)
      = ((sricStuffing.stuff g.tail).length
          + (unescape y (ptyBufSize - 1 - g.tail.length)).1,
        g.tail ++ (unescape y (ptyBufSize - 1 - g.tail.length)).2)
      ∧ Carried (onWire g ++ y) := by
  have hle := sricStuffing.length_le_stuff g.tail
  rw [onWire, List.length_cons] at hfit
  have heq : unescaped (onWire g ++ y) = _ :=
    unescape_stuff_append g.tail y (n := ptyBufSize - 1) (by omega)
  refine ⟨heq, ?_⟩
  have hlen := congrArg List.length h.cons
  rw [List.length_cons] at hlen
  have hwhole := h.whole
  have hget : (g.tail ++ (unescape y (ptyBufSize - 1 - g.tail.length)).2).getD 2 0 = g.getD 3 0 := by
    rw [List.getD_eq_getElem?_getD, List.getElem?_append_left (by omega)]
    conv_rhs => rw [h.cons, List.getD_eq_getElem?_getD, List.getElem?_cons_succ]
  rw [Carried, heq]
  dsimp only
  rw [hget, List.length_append]
  omega

/-- What stands in front of a frame is unescaped up to there. -/
theorem unescape_noise {u fut d : List Byte} {fs : List (List Byte × List Byte)}
    (h : Legible d fs) (hcut : u ++ fut = d ++ behind fs) (n : Nat) :
    (unescape u n).1 ≤ d.length := by
  have hle := (unescape_le u n).1
  cases fs with
  | nil =>
      have := congrArg List.length hcut
      rw [behind, List.append_nil, List.length_append] at this
      omega
  | cons f fs =>
      obtain ⟨hesc, hg, -⟩ := h
      rcases List.append_eq_append_iff.mp hcut with ⟨x, rfl, -⟩ | ⟨x, rfl, hx⟩
      · rw [List.length_append]
        omega
      · cases x with
        | nil => simpa using hle
        | cons b x =>
            obtain ⟨rfl, -⟩ := List.cons.inj hx
            exact (unescape_stops hg.start hesc n).1

/-- A frame at the front that carries what it claims is all there. -/
theorem Complete.all_there {g u fut w : List Byte} (hg : Complete g) (hne : u ≠ [])
    (hc : Carried u) (hcut : u ++ fut = onWire g ++ w) :
    ∃ y, u = onWire g ++ y ∧ y ++ fut = w := by
  rcases List.append_eq_append_iff.mp hcut with ⟨x, hx, hrest⟩ | ⟨y, hy, hrest⟩
  · cases x with
    | nil =>
        rw [List.append_nil] at hx
        exact ⟨[], by rw [hx, List.append_nil], hrest⟩
    | cons e x => exact absurd hc (hg.part hx.symm (List.cons_ne_nil _ _) hne)
  · exact ⟨y, hy, hrest.symm⟩

/-- The frame itself is dispatched. -/
theorem tryParsingStuff_frame (tmp : List Byte) {buf input g d' : List Byte}
    {fs : List (List Byte × List Byte)} (h : Legible [] ((g, d') :: fs)) (hne : buf ≠ [])
    (hc : Carried buf) (hcut : buf ++ input = onWire g ++ (d' ++ behind fs)) :
    ∃ k, (tryParsingStuff tmp buf).1 = buf.drop k ∧ k ≤ buf.length
      ∧ (tryParsingStuff tmp buf).2 = [.of g]
      ∧ (onWire g).length ≤ k ∧ k ≤ (onWire g).length + d'.length := by
  have hg := h.2.1
  obtain ⟨y, hy, hrest⟩ := hg.all_there hne hc hcut
  obtain ⟨heq, -⟩ := hg.carried h.2.2.1 y
  have hle := unescape_noise h.2.2.2 hrest (ptyBufSize - 1 - g.tail.length)
  cases buf with
  | nil => exact absurd rfl hne
  | cons b pty =>
      obtain rfl : b = g.headD 0 := (List.cons.inj hcut).1
      obtain ⟨rest, hturn⟩ := tryParsingStuff_flag hg.start pty tmp
      have hcmd : processCommand (g.headD 0 :: (unescaped (g.headD 0 :: pty)).2 ++ rest)
          ((unescaped (g.headD 0 :: pty)).2.length + 1) = some [.of g] := by
        rw [hy, heq]
        dsimp only
        rw [← List.cons_append, ← hg.cons, List.append_assoc]
        refine hg.processCommand _ ?_
        conv_lhs => rw [hg.cons]
        simp
      rw [hcmd] at hturn
      refine ⟨(unescaped (g.headD 0 :: pty)).1 + 1, congrArg Prod.fst hturn,
        Nat.succ_le_succ (unescape_le pty _).1, congrArg Prod.snd hturn, ?_⟩
      rw [hy, heq, onWire]
      simp only [List.length_cons]
      omega

/-- **One call, with a frame to come**: either it takes something of what
stands in front of the frame, or it dispatches the frame and takes it, and
perhaps something of what stands behind. -/
theorem tryParsingStuff_takes (tmp : List Byte) {buf input d g d' : List Byte}
    {fs : List (List Byte × List Byte)} (h : Legible d ((g, d') :: fs))
    (hcut : buf ++ input = d ++ behind ((g, d') :: fs)) :
    ∃ k, (tryParsingStuff tmp buf).1 = buf.drop k ∧ k ≤ buf.length
      ∧ (k ≤ d.length
        ∨ (tryParsingStuff tmp buf).2 = [.of g]
          ∧ d.length + (onWire g).length ≤ k
          ∧ k ≤ d.length + (onWire g).length + d'.length) := by
  induction buf generalizing d with
  | nil => exact ⟨0, rfl, Nat.zero_le _, .inl (Nat.zero_le _)⟩
  | cons b pty ih =>
      by_cases hb : isFramingByte b = true
      · by_cases hc : Carried (b :: pty)
        · cases d with
          | cons c d =>
              obtain ⟨rfl, hrest⟩ := List.cons.inj hcut
              refine ⟨_, tryParsingStuff_carried hb hc tmp,
                Nat.succ_le_succ (unescape_le pty _).1, .inl ?_⟩
              exact Nat.succ_le_succ (unescape_noise (d := d) (h.drop 1) hrest _)
          | nil =>
              obtain ⟨k, hk, hkle, hcmd, hge, hmax⟩ :=
                tryParsingStuff_frame tmp h (List.cons_ne_nil b pty) hc hcut
              exact ⟨k, hk, hkle, .inr ⟨hcmd, by simpa using hge, by simpa using hmax⟩⟩
        · have hhead : isFramingByte ((b :: pty).headD 0) = true := hb
          have hwait := tryParsingStuff_wait hhead hc tmp
          exact ⟨0, congrArg Prod.fst hwait, Nat.zero_le _, .inl (Nat.zero_le _)⟩
      · have hskip := tryParsingStuff_skip hb pty tmp
        cases d with
        | nil =>
            obtain ⟨rfl, -⟩ := List.cons.inj hcut
            exact absurd h.2.1.start hb
        | cons c d =>
            obtain ⟨rfl, hrest⟩ := List.cons.inj hcut
            obtain ⟨k, hk, hkle, hcase⟩ := ih (d := d) (h.drop 1) hrest
            refine ⟨k + 1, hskip ▸ hk, Nat.succ_le_succ hkle, ?_⟩
            rw [hskip, List.length_cons]
            rcases hcase with hle | ⟨hcmd, hge, hle⟩
            · exact .inl (Nat.succ_le_succ hle)
            · exact .inr ⟨hcmd, by omega, by omega⟩

theorem parsed_length_le (tmp buf : List Byte) :
    (tryParsingStuff tmp buf).1.length ≤ buf.length := by
  induction buf with
  | nil => exact Nat.le_refl _
  | cons b pty ih =>
      by_cases hb : isFramingByte b = true
      · by_cases hc : Carried (b :: pty)
        · rw [tryParsingStuff_carried hb hc, List.length_drop]
          exact Nat.sub_le _ _
        · have hhead : isFramingByte ((b :: pty).headD 0) = true := hb
          have hwait := tryParsingStuff_wait hhead hc tmp
          rw [hwait]
      · rw [tryParsingStuff_skip hb]
        exact Nat.le_succ_of_le ih

/-- With a frame to come, a call takes something as soon as nothing more
can be read. -/
theorem parsing_takes_some (tmp : List Byte) {buf input d g d' : List Byte}
    {fs : List (List Byte × List Byte)} (h : Legible d ((g, d') :: fs))
    (hcut : buf ++ input = d ++ behind ((g, d') :: fs)) (hlen : buf.length ≤ ptyBufSize)
    (hend : buf.length = ptyBufSize ∨ input = []) (hu : CannotGrow buf → Carried buf) :
    (tryParsingStuff tmp buf).1.length < buf.length := by
  cases buf with
  | nil =>
      rcases hend with h0 | rfl
      · cases h0
      · have := congrArg List.length hcut
        rw [behind, onWire, List.length_append, List.length_append, List.length_append] at this
        simp only [List.length_nil, List.length_cons] at this
        omega
  | cons b pty =>
      by_cases hb : isFramingByte b = true
      · have hc : Carried (b :: pty) := by
          rcases hend with hfull | rfl
          · exact hu ⟨hb, .inl hfull⟩
          rw [List.append_nil] at hcut
          cases d with
          | nil =>
              rw [hcut]
              exact (h.2.1.carried h.2.2.1 _).2
          | cons c d =>
              -- the frame is in the buffer, so the one in front of it cannot grow
              obtain ⟨-, hpty⟩ := List.cons.inj hcut
              have hpty' : pty = d ++ g.headD 0
                  :: (sricStuffing.stuff g.tail ++ (d' ++ behind fs)) := hpty
              have hroom : d.length < ptyBufSize - 1 := by
                rw [List.length_cons, hpty', List.length_append, List.length_cons] at hlen
                omega
              apply hu
              refine ⟨hb, .inr ?_⟩
              have hstop := (unescape_stops (y := sricStuffing.stuff g.tail ++ (d' ++ behind fs))
                h.2.1.start (h.drop 1).1 (ptyBufSize - 1)).2 hroom
              rw [unescaped]
              show isFramingByte (pty.getD (unescape pty (ptyBufSize - 1)).1 0) = true
              rw [hpty']
              exact hstop
        rw [tryParsingStuff_carried hb hc, List.length_drop, List.length_cons]
        omega
      · rw [tryParsingStuff_skip hb]
        exact Nat.lt_succ_of_le (parsed_length_le tmp pty)

/-! ## The whole line -/

/-- What is taken from the front. -/
theorem drop_cut {buf input e rest : List Byte} {k : Nat} (h : buf ++ input = e ++ rest)
    (hbuf : k ≤ buf.length) (he : k ≤ e.length) : buf.drop k ++ input = e.drop k ++ rest := by
  rw [← List.drop_append_of_le_length hbuf, h, List.drop_append_of_le_length he]

namespace Pty

/-- Where the frame at the start of the buffer cannot grow, it carries what
it claims. -/
def Unwedged (p : Pty) (r : ReadFrames) : Prop :=
  CannotGrow (p.tryReadingStuff r.ready).buf → Carried (p.tryReadingStuff r.ready).buf

instance (p : Pty) (r : ReadFrames) : Decidable (p.Unwedged r) :=
  inferInstanceAs (Decidable (_ → _))

/-- How many calls are needed at most: one to read a byte, and one to
use it. -/
def calls (p : Pty) : Nat := 2 * p.input.length + p.buf.length

/-- One call brings a frame nearer, or dispatches it. -/
theorem readFrames_step {p p' : Pty} {r : ReadFrames} {cmds : List Command} {d g d' : List Byte}
    {fs : List (List Byte × List Byte)} (h : Legible d ((g, d') :: fs))
    (hcut : p.buf ++ p.input = d ++ behind ((g, d') :: fs)) (hlen : p.buf.length ≤ ptyBufSize)
    (hready : 0 < r.ready) (hu : p.Unwedged r) (hstep : p.readFrames r = .ok (p', cmds)) :
    p'.buf.length ≤ ptyBufSize ∧ p'.calls < p.calls
      ∧ ((∃ e, Legible e ((g, d') :: fs) ∧ p'.buf ++ p'.input = e ++ behind ((g, d') :: fs))
        ∨ cmds = [.of g] ∧ ∃ e, Legible e fs ∧ p'.buf ++ p'.input = e ++ behind fs) := by
  have hcut' := (p.tryReadingStuff_append r.ready).trans hcut
  have hbuf : (p.tryReadingStuff r.ready).buf.length
      = p.buf.length + min (min r.ready (ptyBufSize - p.buf.length)) p.input.length := by
    rw [tryReadingStuff, List.length_append, List.length_take]
  have hinput : (p.tryReadingStuff r.ready).input.length
      = p.input.length - min r.ready (ptyBufSize - p.buf.length) := by
    rw [tryReadingStuff, List.length_drop]
  rw [Unwedged] at hu
  rw [readFrames_eq] at hstep
  generalize p.tryReadingStuff r.ready = q at hcut' hbuf hinput hu hstep
  obtain ⟨k, hk, hkle, hcase⟩ := tryParsingStuff_takes r.tmp h hcut'
  have hless : p.buf.length = ptyBufSize ∨ p.input = [] →
      (tryParsingStuff r.tmp q.buf).1.length < q.buf.length := by
    intro hend
    apply parsing_takes_some r.tmp h hcut' (by omega) _ hu
    rcases hend with hfull | hnil
    · exact .inl (by omega)
    · rw [hnil, List.length_nil, Nat.zero_sub] at hinput
      exact .inr (List.length_eq_zero_iff.mp hinput)
  have hle := parsed_length_le r.tmp q.buf
  cases hstep
  dsimp only [calls]
  refine ⟨by omega, ?_, ?_⟩
  · by_cases hend : p.buf.length = ptyBufSize ∨ p.input = []
    · have := hless hend
      omega
    · rw [not_or] at hend
      have := List.length_pos_iff.mpr hend.2
      omega
  · rw [hk]
    rcases hcase with hd | ⟨hcmd, hge, hmax⟩
    · exact .inl ⟨d.drop k, h.drop k, drop_cut hcut' hkle hd⟩
    · refine .inr ⟨hcmd, d'.drop (k - (d ++ onWire g).length), h.2.2.2.drop _, ?_⟩
      have hall : q.buf ++ q.input = d ++ onWire g ++ d' ++ behind fs := by
        rw [hcut', behind]
        simp only [List.append_assoc]
      rw [drop_cut hall hkle (by simp only [List.length_append]; omega), List.drop_append,
        List.drop_eq_nil_of_le (by rw [List.length_append]; omega), List.nil_append]

/-- Every call returns. -/
theorem run_total (p : Pty) (reads : List ReadFrames) :
    ∃ q cmds, run readFrames p reads = .ok (q, cmds) := by
  induction reads generalizing p with
  | nil => exact ⟨p, [], rfl⟩
  | cons r reads ih =>
      obtain ⟨q, cmds, hr⟩ := ih ⟨(p.tryReadingStuff r.ready).input,
        (tryParsingStuff r.tmp (p.tryReadingStuff r.ready).buf).1⟩
      exact ⟨q, _, run_cons_ok.mpr ⟨_, _, cmds, p.readFrames_eq r, hr, rfl⟩⟩

/-- **All frames to come are dispatched**, in order. -/
theorem run_dispatches {reads : List ReadFrames} (hready : ∀ r ∈ reads, 0 < r.ready) {p q : Pty}
    {cmds : List Command} {d : List Byte} {fs : List (List Byte × List Byte)}
    (h : Legible d fs) (hcut : p.buf ++ p.input = d ++ behind fs)
    (hlen : p.buf.length ≤ ptyBufSize) (hcalls : p.calls ≤ reads.length)
    (hu : Along readFrames Unwedged p reads) (hr : run readFrames p reads = .ok (q, cmds)) :
    (fs.map fun f => Command.of f.1).Sublist cmds := by
  induction reads generalizing p d fs cmds with
  | nil =>
      cases fs with
      | nil => exact List.nil_sublist _
      | cons f fs =>
          -- there is nothing left
          have := congrArg List.length hcut
          rw [calls] at hcalls
          rw [behind, onWire, List.length_append, List.length_append, List.length_append,
            List.length_cons] at this
          rw [List.length_nil] at hcalls
          omega
  | cons r reads ih =>
      cases fs with
      | nil => exact List.nil_sublist _
      | cons f fs =>
          obtain ⟨p', o, os, hstep, hr', rfl⟩ := run_cons_ok.mp hr
          have hready' := fun r' h => hready r' (List.mem_cons_of_mem _ h)
          obtain ⟨hlen', hless, hcase⟩ :=
            readFrames_step h hcut hlen (hready r List.mem_cons_self) hu.1 hstep
          rw [List.length_cons] at hcalls
          rcases hcase with ⟨e, he, hcut'⟩ | ⟨rfl, e, he, hcut'⟩
          · exact (ih hready' he hcut' hlen' (by omega) (hu.2 p' o hstep) hr').trans
              (List.sublist_append_right o os)
          · exact (ih hready' he hcut' hlen' (by omega) (hu.2 p' _ hstep) hr').cons_cons _

end Pty

/-- **Damaged frames and `ostric`.** A frame that cannot grow is taken from
the buffer exactly if it carries what it claims. One that does not stays
for ever, and nothing more is processed. Where there is none on the way,
every complete frame is processed, in order, whatever stands between. -/
theorem ostric_progress_iff (tmp buf : List Byte) :
    ((CannotGrow buf → (tryParsingStuff tmp buf).1.length < buf.length)
      ↔ (CannotGrow buf → Carried buf))
    ∧ (∀ (p q : Pty) (reads : List ReadFrames) (cmds : List Command),
      p.buf.length ≤ ptyBufSize → CannotGrow p.buf → ¬Carried p.buf →
      run Pty.readFrames p reads = .ok (q, cmds) → cmds = [] ∧ p.buf <+: q.buf)
    ∧ ∀ (p : Pty) (reads : List ReadFrames) (d : List Byte) (fs : List (List Byte × List Byte)),
      p.buf.length ≤ ptyBufSize → p.buf ++ p.input = d ++ behind fs → Legible d fs →
      (∀ r ∈ reads, 0 < r.ready) → p.calls ≤ reads.length →
      Along Pty.readFrames Pty.Unwedged p reads →
      ∃ q cmds, run Pty.readFrames p reads = .ok (q, cmds)
        ∧ (fs.map fun f => Command.of f.1).Sublist cmds := by
  refine ⟨parsing_progress_iff tmp buf, fun p q reads cmds => wedged_run, ?_⟩
  intro p reads d fs hlen hcut h hready hcalls hu
  obtain ⟨q, cmds, hr⟩ := Pty.run_total p reads
  exact ⟨q, cmds, hr, Pty.run_dispatches hready h hcut hlen hcalls hu hr⟩

/-- A frame with a wrong checksum, and one for device 2 behind it. -/
theorem ostric_progress_bad_crc :
    ∃ q cmds, run Pty.readFrames
        ⟨[0x7E, 2, 1, 0, 0, 0] ++ behind [((⟨.sric, 2, .null, [], Nat.zero_le _⟩ : FrameT).bytes, [])],
          []⟩ (List.replicate 24 ⟨64, []⟩) = .ok (q, cmds)
      ∧ [Command.of (⟨.sric, 2, .null, [], Nat.zero_le _⟩ : FrameT).bytes].Sublist cmds := by
  refine (ostric_progress_iff [] []).2.2
    ⟨[0x7E, 2, 1, 0, 0, 0] ++ behind [((⟨.sric, 2, .null, [], Nat.zero_le _⟩ : FrameT).bytes, [])],
      []⟩ (List.replicate 24 ⟨64, []⟩) [0x7E, 2, 1, 0, 0, 0]
    [((⟨.sric, 2, .null, [], Nat.zero_le _⟩ : FrameT).bytes, [])] (Nat.zero_le _) rfl
    ⟨by decide, ⟨by decide, by decide, by decide +kernel⟩, by decide +kernel, trivial⟩ ?_
    (by decide +kernel) (by decide +kernel)
  intro r hr
  obtain rfl := List.eq_of_mem_replicate hr
  decide

/-- A frame that is cut short by the next one stays in the buffer. -/
theorem ostric_keeps_cut_frame :
    ¬∀ tmp buf, CannotGrow buf → (tryParsingStuff tmp buf).1.length < buf.length := by
  intro h
  have := h [] [0x7E, 2, 0x7E] (by decide)
  revert this
  decide

end Sricd
