import Sricd.Lib.Run

/-!
# Programs made of parts

A reactive program may keep the state of another one as a part of its own.
Where each of its steps takes that part through a run of the other program,
every run of it does, and what the other program's histories say of the
part can be collected along the runs of the whole.
-/

namespace Sricd.Lib

variable {σ ε ω φ α β ψ χ τ : Type}

/-- What a step does to the part of the state is a run of `inner`, over the
events that it hands on. -/
def PartRuns (step : σ → ε → Except φ (σ × List ω)) (inner : α → β → Except χ (α × List ψ))
    (part : σ → α) (events : σ → ε → List β) : Prop :=
  ∀ s e s' o, step s e = .ok (s', o) →
    ∃ ps, run inner (part s) (events s e) = .ok (part s', ps)

section
variable {step : σ → ε → Except φ (σ × List ω)} {inner : α → β → Except χ (α × List ψ)}
  {part : σ → α} {events : σ → ε → List β} {s t : σ} {es : List ε} {os : List ω}

/-- **Every run of the whole is a run of the part.** -/
theorem PartRuns.run (h : PartRuns step inner part events) (hr : Lib.run step s es = .ok (t, os)) :
    ∃ ps, Lib.run inner (part s) (history step events s es) = .ok (part t, ps) := by
  induction es generalizing s os with
  | nil =>
      cases hr
      exact ⟨[], rfl⟩
  | cons e es ih =>
      obtain ⟨u, o, os', hs, hr', -⟩ := run_cons_ok.mp hr
      obtain ⟨ps, hps⟩ := h s e u o hs
      obtain ⟨qs, hqs⟩ := ih hr'
      rw [history, hs]
      exact ⟨ps ++ qs, run_append_ok.mpr ⟨part u, ps, qs, hps, hqs, rfl⟩⟩

/-- The part's history, collected step by step of the whole. -/
theorem PartRuns.history_eq (h : PartRuns step inner part events) (note : α → β → List τ)
    (hr : Lib.run step s es = .ok (t, os)) :
    history inner note (part s) (history step events s es)
      = history step (fun s e => history inner note (part s) (events s e)) s es := by
  induction es generalizing s os with
  | nil => rfl
  | cons e es ih =>
      obtain ⟨u, o, os', hs, hr', -⟩ := run_cons_ok.mp hr
      obtain ⟨ps, hps⟩ := h s e u o hs
      rw [history, history, hs, history_append hps, ih hr']

/-- Where what the part puts out is known of every step, it is known of the
run. -/
theorem run_part {outs : σ → ε → List ψ}
    (h : ∀ s e s' o, step s e = .ok (s', o) →
      Lib.run inner (part s) (events s e) = .ok (part s', outs s e))
    (hr : Lib.run step s es = .ok (t, os)) :
    Lib.run inner (part s) (history step events s es) = .ok (part t, history step outs s es) := by
  induction es generalizing s os with
  | nil =>
      cases hr
      rfl
  | cons e es ih =>
      obtain ⟨u, o, os', hs, hr', -⟩ := run_cons_ok.mp hr
      rw [history, history, hs]
      exact run_append_ok.mpr ⟨part u, outs s e, _, h s e u o hs, ih hr', rfl⟩

end

/-- A part that puts out what the whole puts out. -/
theorem run_same {step : σ → ε → Except φ (σ × List ω)} {inner : α → β → Except χ (α × List ω)}
    {p : σ → α} {g : σ → ε → List β} {s t : σ} {es : List ε} {os : List ω}
    (h : ∀ s e s' o, step s e = .ok (s', o) → run inner (p s) (g s e) = .ok (p s', o))
    (hr : run step s es = .ok (t, os)) :
    run inner (p s) (history step g s es) = .ok (p t, os) := by
  induction es generalizing s os with
  | nil =>
      cases hr
      rfl
  | cons e es ih =>
      obtain ⟨u, o, os', hs, hr', rfl⟩ := run_cons_ok.mp hr
      rw [history, hs]
      exact run_append_ok.mpr ⟨p u, o, os', h s e u o hs, ih hr', rfl⟩

section
variable {step : σ → ε → Except φ (σ × List ω)} {note note' : σ → ε → List τ} {s t : σ}
  {es : List ε} {os : List ω}

/-- What is noted of every step of a run. -/
theorem forall_history {Q : τ → Prop} (hstep : ∀ s e s' o, step s e = .ok (s', o) → ∀ x ∈ note s e, Q x)
    (hr : run step s es = .ok (t, os)) : ∀ x ∈ history step note s es, Q x := by
  induction es generalizing s os with
  | nil => exact fun _ hx => absurd hx List.not_mem_nil
  | cons e es ih =>
      obtain ⟨u, o, os', h, hr', -⟩ := run_cons_ok.mp hr
      intro x hx
      rw [history, h] at hx
      rcases List.mem_append.mp hx with hx | hx
      · exact hstep s e u o h x hx
      · exact ih hr' x hx

theorem history_congr (h : ∀ s, ∀ e ∈ es, note s e = note' s e) :
    history step note s es = history step note' s es := by
  induction es generalizing s with
  | nil => rfl
  | cons e es ih =>
      rw [history, history, h s e List.mem_cons_self]
      congr 1
      split
      · exact ih fun s e he => h s e (List.mem_cons_of_mem _ he)
      · rfl

theorem history_single (note : σ → ε → List τ) (s : σ) (e : ε) :
    history step note s [e] = note s e := by
  rw [history]
  split
  · exact List.append_nil _
  · exact List.append_nil _

theorem history_map {υ : Type} (f : τ → υ) :
    (history step note s es).map f = history step (fun s e => (note s e).map f) s es := by
  induction es generalizing s with
  | nil => rfl
  | cons e es ih =>
      rw [history, history, List.map_append]
      congr 1
      split
      · exact ih
      · rfl

theorem history_none (s : σ) (es : List ε) : history step (fun _ _ => ([] : List τ)) s es = [] := by
  induction es generalizing s with
  | nil => rfl
  | cons e es ih =>
      rw [history, List.nil_append]
      split
      · exact ih _
      · rfl

/-- What is made of a history, where that is made of each part of it. -/
theorem history_hom {υ : Type} {f : List τ → List υ} (hnil : f [] = [])
    (happend : ∀ x y, f (x ++ y) = f x ++ f y) :
    f (history step note s es) = history step (fun s e => f (note s e)) s es := by
  induction es generalizing s with
  | nil => exact hnil
  | cons e es ih =>
      rw [history, history, happend]
      congr 1
      split
      · exact ih
      · exact hnil

/-- Two notes that agree on every step of a run. -/
theorem history_congr_run {I : σ → Prop}
    (hstep : ∀ s e s' o, I s → step s e = .ok (s', o) → I s' ∧ note s e = note' s e) (hs : I s)
    (hr : run step s es = .ok (t, os)) : history step note s es = history step note' s es := by
  induction es generalizing s os with
  | nil => rfl
  | cons e es ih =>
      obtain ⟨u, o, os', h, hr', -⟩ := run_cons_ok.mp hr
      obtain ⟨hu, hnote⟩ := hstep s e u o hs h
      rw [history, history, h, hnote]
      exact congrArg (_ ++ ·) (ih hu hr')

/-- Notes that do not depend on the state. -/
theorem history_flatMap (f : ε → List τ) (hr : run step s es = .ok (t, os)) :
    history step (fun _ e => f e) s es = es.flatMap f := by
  induction es generalizing s os with
  | nil => rfl
  | cons e es ih =>
      obtain ⟨u, o, os', hs, hr', -⟩ := run_cons_ok.mp hr
      rw [history, hs, List.flatMap_cons, ← ih hr']

end

/-- A relation between what a run has output and what it has noted, which
each step extends. -/
theorem run_notes {step : σ → ε → Except φ (σ × List ω)} {note : σ → ε → List τ} {I : σ → Prop}
    {R : List ω → List τ → Prop} (hnil : R [] [])
    (happend : ∀ {a b : List ω} {x y : List τ}, R a x → R b y → R (a ++ b) (x ++ y))
    (hstep : ∀ s e s' o, I s → step s e = .ok (s', o) → I s' ∧ R o (note s e))
    {s t : σ} {es : List ε} {os : List ω} (hs : I s) (hr : run step s es = .ok (t, os)) :
    R os (history step note s es) := by
  induction es generalizing s os with
  | nil =>
      cases hr
      exact hnil
  | cons e es ih =>
      obtain ⟨u, o, os', h, hr', rfl⟩ := run_cons_ok.mp hr
      obtain ⟨hu, ho⟩ := hstep s e u o hs h
      rw [history, h]
      exact happend ho (ih hu hr')

/-- An invariant of the states, of what has been output and of what has been
noted. -/
theorem run_record {step : σ → ε → Except φ (σ × List ω)} {note : σ → ε → List τ}
    {I : σ → List ω → List τ → Prop}
    (hstep : ∀ s os h e s' o, I s os h → step s e = .ok (s', o) → I s' (os ++ o) (h ++ note s e))
    {s t : σ} {es : List ε} {os os' : List ω} {h : List τ} (hs : I s os h)
    (hr : run step s es = .ok (t, os')) : I t (os ++ os') (h ++ history step note s es) := by
  induction es generalizing s os os' h with
  | nil =>
      cases hr
      simpa [history] using hs
  | cons e es ih =>
      obtain ⟨u, o, os'', h', hr', rfl⟩ := run_cons_ok.mp hr
      have := ih (hstep s os h e u o hs h') hr'
      rwa [history, h', ← List.append_assoc, ← List.append_assoc]

end Sricd.Lib
