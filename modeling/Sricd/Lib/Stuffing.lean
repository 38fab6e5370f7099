import Mathlib.Data.List.Chain

/-!
# Byte stuffing and deframing

A frame on a serial line starts with a *flag*; inside the frame every
flag and every *escape* symbol is replaced by the escape symbol followed
by its flipped form, so that a flag on the line can only be the start of
a frame.

`Deframer` is a receiver of such frames, one symbol at a time and with no
buffer: a flag starts a frame unless it stands behind an escape, and a
frame is delivered with the symbol that completes it. Two facts carry
everything else: it delivers every frame that does not begin behind an
escape (`feed_wire`), and what it has delivered after any prefix of a
stream of frames is exactly the frames that are complete there
(`feed_frames_prefix`).
-/

namespace Sricd.Lib

variable {α β : Type}

/-- A stuffing discipline: the flags, the escape symbol, and the
involution applied behind an escape, which yields neither a flag nor an
escape for a symbol that is stuffed. -/
structure Stuffing (α : Type) where
  esc : α
  flag : α → Bool
  flip : α → α
  flip_flip : ∀ a, flip (flip a) = a
  esc_plain : flag esc = false
  flip_plain : ∀ a, flag a = true ∨ a = esc → flag (flip a) = false
  flip_ne_esc : ∀ a, flag a = true ∨ a = esc → flip a ≠ esc

namespace Stuffing

variable [DecidableEq α] (S : Stuffing α)

/-- The stuffed form of a list of symbols. -/
def stuff : List α → List α
  | [] => []
  | a :: as =>
      if S.flag a = true ∨ a = S.esc then S.esc :: S.flip a :: stuff as
      else a :: stuff as

@[simp] theorem stuff_nil : S.stuff [] = [] := rfl

theorem stuff_special {a : α} (h : S.flag a = true ∨ a = S.esc) (as : List α) :
    S.stuff (a :: as) = S.esc :: S.flip a :: S.stuff as := by
  rw [stuff, if_pos h]

theorem stuff_plain {a : α} (h : ¬(S.flag a = true ∨ a = S.esc)) (as : List α) :
    S.stuff (a :: as) = a :: S.stuff as := by
  rw [stuff, if_neg h]

theorem stuff_append (as bs : List α) :
    S.stuff (as ++ bs) = S.stuff as ++ S.stuff bs := by
  induction as with
  | nil => rfl
  | cons a as ih =>
      by_cases h : S.flag a = true ∨ a = S.esc
      · rw [List.cons_append, S.stuff_special h, S.stuff_special h, ih]
        rfl
      · rw [List.cons_append, S.stuff_plain h, S.stuff_plain h, ih]
        rfl

/-- A stuffed list holds no flag. -/
theorem flag_of_mem_stuff {as : List α} {b : α} (hb : b ∈ S.stuff as) :
    S.flag b = false := by
  induction as with
  | nil => cases hb
  | cons a as ih =>
      by_cases h : S.flag a = true ∨ a = S.esc
      · rw [S.stuff_special h] at hb
        rcases List.mem_cons.mp hb with rfl | hb
        · exact S.esc_plain
        · rcases List.mem_cons.mp hb with rfl | hb
          · exact S.flip_plain a h
          · exact ih hb
      · rw [S.stuff_plain h] at hb
        rcases List.mem_cons.mp hb with rfl | hb
        · simpa using fun hf => h (.inl hf)
        · exact ih hb

/-- Nor does the front of one. -/
theorem no_flag_of_append {as bs cs : List α} (h : bs ++ cs = S.stuff as) :
    ∀ b ∈ bs, S.flag b = false :=
  fun _ hb => S.flag_of_mem_stuff (h ▸ List.mem_append_left cs hb)

theorem length_le_stuff (as : List α) : as.length ≤ (S.stuff as).length := by
  induction as with
  | nil => exact Nat.le_refl _
  | cons a as ih =>
      by_cases h : S.flag a = true ∨ a = S.esc
      · rw [S.stuff_special h]
        simp only [List.length_cons]
        omega
      · rw [S.stuff_plain h]
        simp only [List.length_cons]
        omega

theorem stuff_length_le (as : List α) : (S.stuff as).length ≤ 2 * as.length := by
  induction as with
  | nil => exact Nat.le_refl _
  | cons a as ih =>
      by_cases h : S.flag a = true ∨ a = S.esc
      · rw [S.stuff_special h]
        simp only [List.length_cons]
        omega
      · rw [S.stuff_plain h]
        simp only [List.length_cons]
        omega

/-- A prefix of a stuffed list is a stuffed prefix, with an escape symbol
behind it where the cut fell inside a stuffed pair. -/
theorem prefix_stuff {as p : List α} (h : p <+: S.stuff as) :
    ∃ q r, as = q ++ r ∧ (p = S.stuff q ∨ r ≠ [] ∧ p = S.stuff q ++ [S.esc]) := by
  induction as generalizing p with
  | nil => exact ⟨[], [], rfl, .inl (List.prefix_nil.mp h)⟩
  | cons a as ih =>
      cases p with
      | nil => exact ⟨[], a :: as, rfl, .inl rfl⟩
      | cons b p =>
          by_cases ha : S.flag a = true ∨ a = S.esc
          · rw [S.stuff_special ha, List.cons_prefix_cons] at h
            obtain ⟨rfl, h⟩ := h
            cases p with
            | nil => exact ⟨[], a :: as, rfl, .inr ⟨by simp, rfl⟩⟩
            | cons c p =>
                obtain ⟨rfl, h'⟩ := List.cons_prefix_cons.mp h
                obtain ⟨q, r, rfl, hp⟩ := ih h'
                refine ⟨a :: q, r, rfl, ?_⟩
                rw [S.stuff_special ha]
                rcases hp with rfl | ⟨hr, rfl⟩
                · exact .inl rfl
                · exact .inr ⟨hr, rfl⟩
          · rw [S.stuff_plain ha, List.cons_prefix_cons] at h
            obtain ⟨rfl, h'⟩ := h
            obtain ⟨q, r, rfl, hp⟩ := ih h'
            refine ⟨b :: q, r, rfl, ?_⟩
            rw [S.stuff_plain ha]
            rcases hp with rfl | ⟨hr, rfl⟩
            · exact .inl rfl
            · exact .inr ⟨hr, rfl⟩

/-- What is stuffed can be read back from the front. -/
theorem prefix_of_stuff_prefix {as bs : List α} (h : S.stuff as <+: S.stuff bs) : as <+: bs := by
  induction as generalizing bs with
  | nil => exact List.nil_prefix
  | cons a as ih =>
      cases bs with
      | nil =>
          have := S.length_le_stuff (a :: as)
          rw [List.prefix_nil.mp h] at this
          exact absurd this (by simp)
      | cons b bs =>
          by_cases ha : S.flag a = true ∨ a = S.esc <;> by_cases hb : S.flag b = true ∨ b = S.esc
          · rw [S.stuff_special ha, S.stuff_special hb, List.cons_prefix_cons,
              List.cons_prefix_cons] at h
            obtain ⟨-, hflip, h⟩ := h
            have hab : a = b := by rw [← S.flip_flip a, hflip, S.flip_flip]
            exact List.cons_prefix_cons.mpr ⟨hab, ih h⟩
          · rw [S.stuff_special ha, S.stuff_plain hb, List.cons_prefix_cons] at h
            exact absurd (.inr h.1.symm) hb
          · rw [S.stuff_plain ha, S.stuff_special hb, List.cons_prefix_cons] at h
            exact absurd (.inr h.1) ha
          · rw [S.stuff_plain ha, S.stuff_plain hb, List.cons_prefix_cons] at h
            exact List.cons_prefix_cons.mpr ⟨h.1, ih h.2⟩

/-- A stuffed list does not end in an escape. -/
theorem getLast?_stuff_ne_esc (as : List α) : (S.stuff as).getLast? ≠ some S.esc := by
  induction as using List.reverseRecOn with
  | nil => simp
  | append_singleton as a _ =>
      rw [S.stuff_append]
      by_cases h : S.flag a = true ∨ a = S.esc
      · rw [S.stuff_special h, stuff_nil, List.getLast?_append]
        simpa using S.flip_ne_esc a h
      · rw [S.stuff_plain h, stuff_nil, List.getLast?_append]
        rw [not_or] at h
        simpa using h.2

/-- A reader that looks up what stands behind an escape, and gives up where
the table has nothing. -/
def unstuff (table : α → Option α) : List α → Option (List α)
  | [] => some []
  | a :: as =>
      if a = S.esc then
        match as with
        | [] => none
        | b :: as => (table b).bind fun c => (unstuff table as).map (c :: ·)
      else (unstuff table as).map (a :: ·)

theorem unstuff_esc (table : α → Option α) (b : α) (as : List α) :
    S.unstuff table (S.esc :: b :: as)
      = (table b).bind fun c => (S.unstuff table as).map (c :: ·) := by
  rw [unstuff, if_pos rfl]

theorem unstuff_plain (table : α → Option α) {a : α} (h : a ≠ S.esc) (as : List α) :
    S.unstuff table (a :: as) = (S.unstuff table as).map (a :: ·) := by
  rw [unstuff.eq_def]
  exact if_neg h

/-- With a table that knows all that was stuffed, everything comes back. -/
theorem unstuff_stuff {table : α → Option α} {as : List α}
    (h : ∀ a ∈ as, S.flag a = true ∨ a = S.esc → table (S.flip a) = some a) :
    S.unstuff table (S.stuff as) = some as := by
  induction as with
  | nil => rfl
  | cons a as ih =>
      have htail := ih fun b hb => h b (List.mem_cons_of_mem a hb)
      by_cases ha : S.flag a = true ∨ a = S.esc
      · rw [S.stuff_special ha, S.unstuff_esc, h a List.mem_cons_self ha, htail]
        rfl
      · rw [S.stuff_plain ha, S.unstuff_plain table (not_or.mp ha).2, htail]
        rfl

/-- One stuffed symbol that the table does not know is enough to give up. -/
theorem unstuff_stuff_none {table : α → Option α} {as : List α} {b : α} (hb : b ∈ as)
    (hspecial : S.flag b = true ∨ b = S.esc) (hnone : table (S.flip b) = none) :
    S.unstuff table (S.stuff as) = none := by
  induction as with
  | nil => cases hb
  | cons a as ih =>
      by_cases ha : S.flag a = true ∨ a = S.esc
      · rw [S.stuff_special ha, S.unstuff_esc]
        rcases List.mem_cons.mp hb with rfl | hb
        · rw [hnone]
          rfl
        · rw [ih hb]
          exact Option.bind_fun_none _
      · rw [S.stuff_plain ha, S.unstuff_plain table (not_or.mp ha).2]
        rcases List.mem_cons.mp hb with rfl | hb
        · exact absurd hspecial ha
        · rw [ih hb]
          rfl

/-- No flag stands behind a flag or an escape. -/
def Calm (as : List α) : Prop :=
  as.IsChain fun a b => S.flag b = true → S.flag a = false ∧ a ≠ S.esc

omit [DecidableEq α] in
/-- A list without flags is calm. -/
theorem calm_of_no_flag {as : List α} (h : ∀ a ∈ as, S.flag a = false) : S.Calm as := by
  rw [Calm, List.isChain_iff_forall_rel_of_append_cons_cons]
  intro a b l₁ l₂ hx hb
  obtain rfl := hx
  rw [h b (by simp)] at hb
  cases hb

end Stuffing

/-! ## The deframer -/

/-- A receiver of stuffed frames: `accept` recognises a complete frame in
the symbols assembled so far, of which there are never more than `cap`. -/
structure Deframer (α β : Type) extends Stuffing α where
  cap : Nat
  accept : List α → Option β

namespace Deframer

/-- Where a receiver stands: looking for a flag, or inside a frame with
the symbols assembled so far and, perhaps, an escape still to be applied. -/
inductive State (α : Type) where
  | hunt
  | frame (acc : List α) (escaped : Bool)
deriving DecidableEq, Repr

/-- The next symbol stands behind an escape. -/
def State.escaped : State α → Bool
  | .hunt => false
  | .frame _ e => e

variable (D : Deframer α β)

/-- One more symbol of the frame. -/
def push (acc : List α) (a : α) : State α × List β :=
  match D.accept (acc ++ [a]) with
  | some f => (.hunt, [f])
  | none =>
      if (acc ++ [a]).length < D.cap then (.frame (acc ++ [a]) false, [])
      else (.hunt, [])

theorem push_none {acc : List α} {a : α} (h : D.accept (acc ++ [a]) = none)
    (hl : (acc ++ [a]).length < D.cap) :
    D.push acc a = (.frame (acc ++ [a]) false, []) := by
  rw [push, h]
  exact if_pos hl

theorem push_full {acc : List α} {a : α} (h : D.accept (acc ++ [a]) = none)
    (hl : D.cap ≤ (acc ++ [a]).length) : D.push acc a = (.hunt, []) := by
  rw [push, h]
  exact if_neg (by omega)

theorem push_some {acc : List α} {a : α} {f : β}
    (h : D.accept (acc ++ [a]) = some f) : D.push acc a = (.hunt, [f]) := by
  rw [push, h]

variable [DecidableEq α]

/-- One symbol off the line. -/
def step (s : State α) (a : α) : State α × List β :=
  match s with
  | .hunt => if D.flag a then (.frame [a] false, []) else (.hunt, [])
  | .frame acc true => D.push acc (D.flip a)
  | .frame acc false =>
      if D.flag a then (.frame [a] false, [])
      else if a = D.esc then (.frame acc true, [])
      else D.push acc a

/-- A list of symbols off the line, and the frames delivered meanwhile. -/
def feed (s : State α) : List α → State α × List β
  | [] => (s, [])
  | a :: as =>
      let (s', f) := D.step s a
      let (t, fs) := feed s' as
      (t, f ++ fs)

/-- The frames delivered to a receiver that starts on `as`. -/
def frames (as : List α) : List β := (D.feed .hunt as).2

@[simp] theorem feed_nil (s : State α) : D.feed s [] = (s, []) := rfl

theorem feed_cons (s : State α) (a : α) (as : List α) :
    D.feed s (a :: as)
      = ((D.feed (D.step s a).1 as).1, (D.step s a).2 ++ (D.feed (D.step s a).1 as).2) :=
  rfl

theorem feed_append (s : State α) (as bs : List α) :
    D.feed s (as ++ bs)
      = ((D.feed (D.feed s as).1 bs).1,
         (D.feed s as).2 ++ (D.feed (D.feed s as).1 bs).2) := by
  induction as generalizing s with
  | nil => simp
  | cons a as ih =>
      rw [List.cons_append, feed_cons, ih, feed_cons]
      simp only [List.append_assoc]

theorem step_flag {s : State α} (hs : s.escaped = false) {a : α} (h : D.flag a = true) :
    D.step s a = (.frame [a] false, []) := by
  cases s with
  | hunt => exact if_pos h
  | frame acc e =>
      cases e with
      | false => exact if_pos h
      | true => cases hs

/-- Without a flag nothing is found. -/
theorem feed_hunt {as : List α} (h : ∀ a ∈ as, D.flag a = false) :
    D.feed .hunt as = (.hunt, []) := by
  induction as with
  | nil => rfl
  | cons a as ih =>
      have ha : D.step .hunt a = (.hunt, []) := if_neg (by simp [h a (by simp)])
      rw [feed_cons, ha, ih (fun b hb => h b (by simp [hb]))]
      rfl

theorem step_plain {a : α} (acc : List α)
    (h : ¬(D.flag a = true ∨ a = D.esc)) :
    D.step (.frame acc false) a = D.push acc a := by
  rw [not_or] at h
  exact (if_neg h.1).trans (if_neg h.2)

theorem step_esc (acc : List α) :
    D.step (.frame acc false) D.esc = (.frame acc true, []) :=
  (if_neg (by simp [D.esc_plain])).trans (if_pos rfl)

/-- An escape applies to whatever follows it, be it a flag. -/
theorem step_escaped (acc : List α) (a : α) :
    D.step (.frame acc true) a = D.push acc (D.flip a) := rfl

/-- A stuffed symbol and a plain one have the same effect. -/
theorem feed_stuff_cons (acc : List α) (a : α) (as : List α) :
    D.feed (.frame acc false) (D.stuff (a :: as))
      = ((D.feed (D.push acc a).1 (D.stuff as)).1,
         (D.push acc a).2 ++ (D.feed (D.push acc a).1 (D.stuff as)).2) := by
  by_cases h : D.flag a = true ∨ a = D.esc
  · rw [D.stuff_special h, feed_cons, step_esc, feed_cons, step_escaped, D.flip_flip]
    rfl
  · rw [D.stuff_plain h, feed_cons, D.step_plain acc h]

/-- `f` is what a frame of flag `a` and unstuffed rest `body` carries: it
is accepted when the frame is complete, and nothing is before. -/
structure Carries (a : α) (body : List α) (f : β) : Prop where
  flag : D.flag a = true
  fits : body.length < D.cap
  early : ∀ p q, body = p ++ q → p ≠ [] → q ≠ [] → D.accept (a :: p) = none
  complete : D.accept (a :: body) = some f
  nonempty : body ≠ []

/-- The frame as it goes over the line. -/
def wire (a : α) (body : List α) : List α := a :: D.stuff body

variable {D}

/-- Inside a frame, stuffed symbols short of its end are assembled and
deliver nothing. -/
theorem Carries.feed_early {a : α} {body : List α} {f : β}
    (h : D.Carries a body f) {p q r : List α} (hb : body = p ++ q ++ r)
    (hr : r ≠ []) :
    D.feed (.frame (a :: p) false) (D.stuff q)
      = (.frame (a :: (p ++ q)) false, []) := by
  induction q generalizing p with
  | nil => simp
  | cons b q ih =>
      have hpush : D.push (a :: p) b = (.frame (a :: (p ++ [b])) false, []) := by
        have hlen := h.fits
        have hr0 := List.length_pos_iff.mpr hr
        rw [hb] at hlen
        simp only [List.length_append, List.length_cons] at hlen
        apply D.push_none
        · exact h.early (p ++ [b]) (q ++ r) (by simp [hb]) (by simp) (by simp [hr])
        · simp only [List.length_append, List.length_cons, List.length_nil]
          omega
      rw [D.feed_stuff_cons, hpush, ih (p := p ++ [b]) (by simp [hb])]
      simp

/-- **Resynchronisation**: a frame on the line is delivered from every
state of the receiver but behind an escape. -/
theorem Carries.feed_wire {a : α} {body : List α} {f : β}
    (h : D.Carries a body f) {s : State α} (hs : s.escaped = false) :
    D.feed s (D.wire a body) = (.hunt, [f]) := by
  -- all symbols but the last are assembled, the last one completes
  obtain ⟨init, b, rfl⟩ : ∃ init b, body = init ++ [b] :=
    ⟨body.dropLast, body.getLast h.nonempty,
      (List.dropLast_concat_getLast h.nonempty).symm⟩
  have hearly := h.feed_early (p := []) (q := init) (r := [b]) (by simp) (by simp)
  have hlast : D.push (a :: init) b = (.hunt, [f]) :=
    D.push_some (by simpa using h.complete)
  rw [wire, feed_cons, D.step_flag hs h.flag, D.stuff_append, feed_append, hearly]
  simp only [List.nil_append]
  rw [D.feed_stuff_cons, hlast]
  simp

/-- A frame cut short delivers nothing. -/
theorem Carries.feed_prefix {a : α} {body : List α} {f : β}
    (h : D.Carries a body f) {s : State α} (hs : s.escaped = false) {p : List α}
    (hp : p <+: D.wire a body) (hne : p ≠ D.wire a body) :
    (D.feed s p).2 = [] := by
  cases p with
  | nil => rfl
  | cons b p =>
      obtain ⟨rfl, hpre⟩ := List.cons_prefix_cons.mp hp
      have hne' : p ≠ D.stuff body := fun hc => hne (by rw [hc, wire])
      obtain ⟨q, r, hqr, hcut⟩ := D.prefix_stuff hpre
      have hr : r ≠ [] := by
        intro hx
        obtain rfl := hx
        rcases hcut with rfl | ⟨hr, -⟩
        · exact hne' (by rw [hqr, List.append_nil])
        · exact hr rfl
      have hq := h.feed_early (p := []) (q := q) (r := r) (by simpa using hqr) hr
      rw [feed_cons, D.step_flag hs h.flag]
      rcases hcut with rfl | ⟨-, rfl⟩
      · rw [hq]
        rfl
      · rw [feed_append, hq, feed_cons, D.step_esc]
        rfl

/-- **What a stream of frames has delivered**: after any prefix of the
concatenated frames, exactly those that lie in it whole, in order. -/
theorem feed_frames_prefix {γ : Type} (flagOf : γ → α) (bodyOf : γ → List α)
    (frameOf : γ → β) {ms : List γ}
    (hms : ∀ m ∈ ms, D.Carries (flagOf m) (bodyOf m) (frameOf m))
    {p rest : List α}
    (hp : p ++ rest = (ms.map fun m => D.wire (flagOf m) (bodyOf m)).flatten)
    {s : State α} (hs : s.escaped = false) :
    ∃ n, n ≤ ms.length ∧ (D.feed s p).2 = (ms.take n).map frameOf
      ∧ (((ms.take n).map fun m => D.wire (flagOf m) (bodyOf m)).flatten).length
          ≤ p.length
      ∧ (n < ms.length → p.length
          < (((ms.take (n + 1)).map fun m => D.wire (flagOf m) (bodyOf m)).flatten).length) := by
  induction ms generalizing p s with
  | nil =>
      have hp0 : p = [] := by simpa using (List.append_eq_nil_iff.mp hp).1
      subst hp0
      exact ⟨0, Nat.le_refl _, rfl, Nat.le_refl _, fun h => absurd h (by simp)⟩
  | cons m ms ih =>
      have hm := hms m (by simp)
      rw [List.map_cons, List.flatten_cons] at hp
      by_cases hlen : p.length < (D.wire (flagOf m) (bodyOf m)).length
      · -- the cut lies inside the first frame
        refine ⟨0, Nat.zero_le _, ?_, by simp, fun _ => by simpa using hlen⟩
        have hpre : p <+: D.wire (flagOf m) (bodyOf m) :=
          List.prefix_of_prefix_length_le ⟨rest, hp⟩ ⟨_, rfl⟩ (by omega)
        have hne : p ≠ D.wire (flagOf m) (bodyOf m) := by
          intro hx
          obtain rfl := hx
          exact Nat.lt_irrefl _ hlen
        simpa using hm.feed_prefix hs hpre hne
      · -- the first frame is delivered, the rest is the tail's
        obtain ⟨p', rfl⟩ : ∃ p', p = D.wire (flagOf m) (bodyOf m) ++ p' := by
          obtain ⟨p', hp'⟩ : D.wire (flagOf m) (bodyOf m) <+: p :=
            List.prefix_of_prefix_length_le ⟨_, rfl⟩ ⟨rest, hp⟩ (by omega)
          exact ⟨p', hp'.symm⟩
        rw [List.append_assoc, List.append_cancel_left_eq] at hp
        obtain ⟨n, hn, hfr, hle, hlt⟩ :=
          ih (fun x hx => hms x (by simp [hx])) hp (s := .hunt) rfl
        refine ⟨n + 1, by simpa using hn, ?_, ?_, ?_⟩
        · rw [feed_append, hm.feed_wire hs, hfr]
          simp
        · simpa using hle
        · intro h
          have := hlt (by simpa using h)
          simpa using this

/-- The frames of a stream leave no flag behind a flag or an escape. -/
theorem calm_wires {γ : Type} (flagOf : γ → α) (bodyOf : γ → List α) {ms : List γ}
    (hms : ∀ m ∈ ms, bodyOf m ≠ []) :
    D.Calm (ms.map fun m => D.wire (flagOf m) (bodyOf m)).flatten := by
  induction ms with
  | nil => exact List.isChain_nil
  | cons m ms ih =>
      have hflag : ∀ b ∈ D.stuff (bodyOf m), D.flag b = false :=
        fun b hb => D.flag_of_mem_stuff hb
      have hne : D.stuff (bodyOf m) ≠ [] := by
        intro h
        have := D.length_le_stuff (bodyOf m)
        rw [h] at this
        exact hms m (by simp) (List.length_eq_zero_iff.mp (Nat.le_zero.mp this))
      rw [List.map_cons, List.flatten_cons, wire, List.cons_append]
      refine List.isChain_cons.mpr ⟨?_, ?_⟩
      · -- behind the flag comes a stuffed symbol
        intro b hb hf
        obtain ⟨c, cs, hc⟩ := List.exists_cons_of_ne_nil hne
        rw [hc] at hb hflag
        obtain rfl : c = b := by simpa using hb
        rw [hflag c (by simp)] at hf
        cases hf
      · -- and a stuffed symbol comes before the next flag
        refine List.isChain_append.mpr ⟨D.calm_of_no_flag hflag,
          ih fun x hx => hms x (by simp [hx]), ?_⟩
        intro a ha b _ _
        refine ⟨hflag a (List.mem_of_getLast? ha), ?_⟩
        intro hx
        obtain rfl := hx
        exact D.getLast?_stuff_ne_esc (bodyOf m) ha

end Deframer

end Sricd.Lib
