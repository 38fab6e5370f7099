import Mathlib.Tactic.Common

/-!
# Runs of a reactive program

A reactive program is a function from a state and an event to the next
state and the outputs it emitted, or to the reason why the event cannot
be served. This module gathers what holds of every such program: runs
compose, an invariant of one step is an invariant of every run, a
condition may be imposed on each step of a run, and a step-by-step
simulation lifts to runs.
-/

namespace Sricd.Lib

variable {σ ε ω φ : Type}

theorem ok_bind {α β : Type} (a : α) (f : α → Except φ β) : (Except.ok a >>= f) = f a := rfl

theorem bind_ok {α β : Type} {x : Except φ α} {f : α → Except φ β} {b : β} :
    (x >>= f) = .ok b ↔ ∃ a, x = .ok a ∧ f a = .ok b := by
  cases x <;> simp [bind, Except.bind]

theorem bind_error {α β : Type} {x : Except φ α} {f : α → Except φ β} {e : φ} :
    (x >>= f) = .error e ↔ x = .error e ∨ ∃ a, x = .ok a ∧ f a = .error e := by
  cases x <;> simp [bind, Except.bind]

/-- The run of `step` over a list of events, outputs concatenated. -/
def run (step : σ → ε → Except φ (σ × List ω)) :
    σ → List ε → Except φ (σ × List ω)
  | s, [] => .ok (s, [])
  | s, e :: es =>
      match step s e with
      | .error x => .error x
      | .ok (s', o) =>
          match run step s' es with
          | .error x => .error x
          | .ok (t, os) => .ok (t, o ++ os)

/-- `C` holds before each step of the run of `step` from `s`. -/
def Along (step : σ → ε → Except φ (σ × List ω)) (C : σ → ε → Prop) :
    σ → List ε → Prop
  | _, [] => True
  | s, e :: es => C s e ∧ ∀ s' o, step s e = .ok (s', o) → Along step C s' es

instance decidableAlong {step : σ → ε → Except φ (σ × List ω)} {C : σ → ε → Prop}
    [∀ s e, Decidable (C s e)] : ∀ s es, Decidable (Along step C s es)
  | _, [] => .isTrue trivial
  | s, e :: es =>
      match h : step s e with
      | .error _ => decidable_of_iff (C s e) (by simp [Along, h])
      | .ok (s', _) =>
          have : Decidable (Along step C s' es) := decidableAlong s' es
          decidable_of_iff (C s e ∧ Along step C s' es) (by simp [Along, h])

section
variable {step : σ → ε → Except φ (σ × List ω)}

@[simp] theorem run_nil (s : σ) : run step s [] = .ok (s, []) := rfl

theorem run_cons_ok {s t : σ} {e : ε} {es : List ε} {os : List ω} :
    run step s (e :: es) = .ok (t, os)
      ↔ ∃ s' o os', step s e = .ok (s', o) ∧ run step s' es = .ok (t, os')
          ∧ os = o ++ os' := by
  rw [run]
  constructor
  · intro h
    split at h
    · cases h
    · rename_i s' o hs
      split at h
      · cases h
      · rename_i t' os' hr
        cases h
        exact ⟨s', o, os', hs, hr, rfl⟩
  · intro hx
    obtain ⟨s', o, os', hs, hr, rfl⟩ := hx
    simp only [hs, hr]

/-- Where a step fails with `x` exactly under `C`, a run does exactly when
it comes to such a step. -/
theorem run_error_iff {I : σ → Prop} {C : σ → ε → Prop} {x : φ}
    (hstep : ∀ s e s' o, I s → step s e = .ok (s', o) → I s')
    (herr : ∀ s e, I s → (step s e = .error x ↔ ¬C s e)) {s : σ} {es : List ε} (hs : I s) :
    run step s es ≠ .error x ↔ Along step C s es := by
  induction es generalizing s with
  | nil => simp [run, Along]
  | cons e es ih =>
      rw [Along, run]
      have hiff := herr s e hs
      split
      · rename_i y hy
        constructor
        · intro hne
          refine ⟨by_contra fun hc => hne ?_, ?_⟩
          · exact congrArg Except.error (Except.error.inj (hy.symm.trans (hiff.mpr hc)))
          · intro s' o h
            cases hy.symm.trans h
        · intro hx h
          obtain ⟨hc, -⟩ := hx
          cases h
          exact hiff.mp hy hc
      · rename_i s' o h
        have hc : C s e := by
          by_contra hc
          cases h.symm.trans (hiff.mpr hc)
        have := ih (hstep s e s' o hs h)
        constructor
        · intro hne
          refine ⟨hc, ?_⟩
          intro t p ht
          cases h.symm.trans ht
          refine this.mp fun hr => hne ?_
          rw [hr]
        · intro hx hr
          obtain ⟨-, hal⟩ := hx
          apply this.mpr (hal s' o h)
          cases hq : run step s' es with
          | error y => rw [hq] at hr; exact hr
          | ok q => rw [hq] at hr; cases hr

/-- A run that was computed, and what it was found to end with. -/
theorem ok_of_any {α : Type} {r : Except φ α} {p : α → Bool} (h : r.toOption.any p = true) :
    ∃ a, r = .ok a ∧ p a = true := by
  cases r with
  | error x => cases h
  | ok a => exact ⟨a, rfl, h⟩

theorem run_append_ok {s t : σ} {es fs : List ε} {os : List ω} :
    run step s (es ++ fs) = .ok (t, os)
      ↔ ∃ u o o', run step s es = .ok (u, o) ∧ run step u fs = .ok (t, o')
          ∧ os = o ++ o' := by
  induction es generalizing s os with
  | nil =>
      constructor
      · intro h
        exact ⟨s, [], os, rfl, h, rfl⟩
      · intro hx
        obtain ⟨u, o, o', hu, h, rfl⟩ := hx
        cases hu
        exact h
  | cons e es ih =>
      rw [List.cons_append, run_cons_ok]
      constructor
      · intro hx
        obtain ⟨s', o, os', hs, hr, rfl⟩ := hx
        obtain ⟨u, p, q, hu, hf, rfl⟩ := ih.mp hr
        exact ⟨u, o ++ p, q, run_cons_ok.mpr ⟨s', o, p, hs, hu, rfl⟩, hf,
          (List.append_assoc ..).symm⟩
      · intro hx
        obtain ⟨u, p, q, hu, hf, rfl⟩ := hx
        obtain ⟨s', o, p', hs, hr, rfl⟩ := run_cons_ok.mp hu
        exact ⟨s', o, p' ++ q, hs, ih.mpr ⟨u, p', q, hr, hf, rfl⟩,
          List.append_assoc ..⟩

theorem run_single {s t : σ} {e : ε} {o : List ω} :
    run step s [e] = .ok (t, o) ↔ step s e = .ok (t, o) := by
  rw [run_cons_ok]
  constructor
  · intro hx
    obtain ⟨s', o', os', hs, hr, rfl⟩ := hx
    cases hr
    simpa using hs
  · intro h
    exact ⟨t, o, [], h, rfl, by simp⟩

/-- A run that goes on behind `es` takes a step there. -/
theorem run_step_at {s t u : σ} {es es' : List ε} {e : ε} {os o : List ω}
    (hr : run step s (es ++ e :: es') = .ok (t, os)) (hu : run step s es = .ok (u, o)) :
    ∃ v p, step u e = .ok (v, p) := by
  obtain ⟨u', o', os', hu', hrest, -⟩ := run_append_ok.mp hr
  cases hu.symm.trans hu'
  obtain ⟨v, p, -, hs, -⟩ := run_cons_ok.mp hrest
  exact ⟨v, p, hs⟩

/-- **Invariants of runs**: what every step preserves, every run
preserves. -/
theorem run_invariant {I : σ → Prop}
    (hstep : ∀ s e s' o, I s → step s e = .ok (s', o) → I s')
    {s t : σ} {es : List ε} {os : List ω}
    (hs : I s) (hr : run step s es = .ok (t, os)) : I t := by
  induction es generalizing s os with
  | nil => cases hr; exact hs
  | cons e es ih =>
      obtain ⟨s', o, os', h, hr', -⟩ := run_cons_ok.mp hr
      exact ih (hstep s e s' o hs h) hr'

/-- An invariant that a step preserves under the condition `C` holds at
the end of every run whose steps meet `C`. -/
theorem run_invariant_along {I : σ → Prop} {C : σ → ε → Prop}
    (hstep : ∀ s e s' o, I s → C s e → step s e = .ok (s', o) → I s')
    {s t : σ} {es : List ε} {os : List ω} (hs : I s)
    (hc : Along step C s es) (hr : run step s es = .ok (t, os)) : I t := by
  induction es generalizing s os with
  | nil => cases hr; exact hs
  | cons e es ih =>
      obtain ⟨s', o, os', h, hr', -⟩ := run_cons_ok.mp hr
      exact ih (hstep s e s' o hs hc.1 h) (hc.2 s' o h) hr'

/-- A run whose steps meet `C` fails only as one of its steps does. -/
theorem run_error_along {I : σ → Prop} {C : σ → ε → Prop} {x : φ}
    (hstep : ∀ s e s' o, I s → C s e → step s e = .ok (s', o) → I s')
    (herr : ∀ s e, I s → C s e → step s e ≠ .error x) {s : σ} {es : List ε} (hs : I s)
    (hc : Along step C s es) : run step s es ≠ .error x := by
  induction es generalizing s with
  | nil =>
      intro hr
      cases hr
  | cons e es ih =>
      intro hr
      rw [run] at hr
      split at hr
      · rename_i y hy
        cases hr
        exact herr s e hs hc.1 hy
      · rename_i s' o h
        split at hr
        · rename_i y hy
          cases hr
          exact ih (hstep s e s' o hs hc.1 h) (hc.2 s' o h) hy
        · cases hr

/-- What holds of everything that a step emits under the condition `C`
holds of everything that a run emits whose steps meet `C`. -/
theorem run_outputs_along {I : σ → Prop} {C : σ → ε → Prop} {P : ω → Prop}
    (hstep : ∀ s e s' o, I s → C s e → step s e = .ok (s', o) → I s' ∧ ∀ x ∈ o, P x)
    {s t : σ} {es : List ε} {os : List ω} (hs : I s) (hc : Along step C s es)
    (hr : run step s es = .ok (t, os)) : ∀ x ∈ os, P x := by
  induction es generalizing s os with
  | nil => cases hr; exact fun _ h => absurd h List.not_mem_nil
  | cons e es ih =>
      obtain ⟨s', o, os', h, hr', rfl⟩ := run_cons_ok.mp hr
      obtain ⟨hs', ho⟩ := hstep s e s' o hs hc.1 h
      intro x hx
      rcases List.mem_append.mp hx with hx | hx
      · exact ho x hx
      · exact ih hs' (hc.2 s' o h) hr' x hx

/-- Two conditions that agree under an invariant of the runs that meet the
second. -/
theorem along_congr {I : σ → Prop} {C D : σ → ε → Prop}
    (hiff : ∀ s e, I s → (C s e ↔ D s e))
    (hstep : ∀ s e s' o, I s → D s e → step s e = .ok (s', o) → I s')
    {s : σ} {es : List ε} (hs : I s) : Along step C s es ↔ Along step D s es := by
  induction es generalizing s with
  | nil => exact Iff.rfl
  | cons e es ih =>
      refine (and_congr_left' (hiff s e hs)).trans (and_congr_right fun hd => ?_)
      exact forall_congr' fun s' => forall_congr' fun o => forall_congr' fun h =>
        ih (hstep s e s' o hs hd h)

/-- What an invariant implies of every event holds along every run. -/
theorem along_of_invariant {I : σ → Prop} {C : σ → ε → Prop}
    (hstep : ∀ s e s' o, I s → step s e = .ok (s', o) → I s') (hC : ∀ s e, I s → C s e)
    {s : σ} {es : List ε} (hs : I s) : Along step C s es := by
  induction es generalizing s with
  | nil => trivial
  | cons e es ih => exact ⟨hC s e hs, fun s' o h => ih (hstep s e s' o hs h)⟩

theorem along_of_forall {C : ε → Prop} {s : σ} {es : List ε} (h : ∀ e ∈ es, C e) :
    Along step (fun _ e => C e) s es := by
  induction es generalizing s with
  | nil => trivial
  | cons e es ih =>
      exact ⟨h e List.mem_cons_self, fun s' o _ => ih fun e he => h e (List.mem_cons_of_mem _ he)⟩

theorem along_and {C D : σ → ε → Prop} {s : σ} {es : List ε} (hc : Along step C s es)
    (hd : Along step D s es) : Along step (fun s e => C s e ∧ D s e) s es := by
  induction es generalizing s with
  | nil => trivial
  | cons e es ih => exact ⟨⟨hc.1, hd.1⟩, fun s' o h => ih (hc.2 s' o h) (hd.2 s' o h)⟩

/-- A condition along a run holds along each of its prefixes. -/
theorem along_init {C : σ → ε → Prop} {s : σ} {es fs : List ε}
    (hc : Along step C s (es ++ fs)) : Along step C s es := by
  induction es generalizing s with
  | nil => trivial
  | cons e es ih => exact ⟨hc.1, fun s' o hs => ih (hc.2 s' o hs)⟩

/-- A condition along one run and along another behind it. -/
theorem along_append {C : σ → ε → Prop} {s u : σ} {es fs : List ε} {os : List ω}
    (hr : run step s es = .ok (u, os)) (hc : Along step C s es) (hc' : Along step C u fs) :
    Along step C s (es ++ fs) := by
  induction es generalizing s os with
  | nil =>
      cases hr
      exact hc'
  | cons e es ih =>
      obtain ⟨s', o, os', h, hr', -⟩ := run_cons_ok.mp hr
      refine ⟨hc.1, fun t p ht => ?_⟩
      cases h.symm.trans ht
      exact ih hr' (hc.2 s' o h)

/-- A condition along a run holds at the event that follows a prefix. -/
theorem along_at {C : σ → ε → Prop} {s u : σ} {es fs : List ε} {e : ε}
    {os : List ω} (hc : Along step C s (es ++ e :: fs))
    (hr : run step s es = .ok (u, os)) : C u e := by
  induction es generalizing s os with
  | nil => cases hr; exact hc.1
  | cons e' es ih =>
      obtain ⟨s', o, os', h, hr', -⟩ := run_cons_ok.mp hr
      exact ih (hc.2 s' o h) hr'

/-- A condition that each event meets behind the events that met it. -/
theorem along_of_prefixes {C : σ → ε → Prop} {s : σ} {es : List ε}
    (h : ∀ pre e post u os, es = pre ++ e :: post → Along step C s pre →
      run step s pre = .ok (u, os) → C u e) : Along step C s es := by
  induction es generalizing s with
  | nil => trivial
  | cons e es ih =>
      have he : C s e := h [] e es s [] rfl trivial rfl
      refine ⟨he, fun s' o hs => ih ?_⟩
      intro pre e' post u os hx hc hr
      obtain rfl := hx
      refine h (e :: pre) e' post u (o ++ os) rfl ⟨he, fun t p ht => ?_⟩
        (run_cons_ok.mpr ⟨s', o, os, hs, hr, rfl⟩)
      cases hs.symm.trans ht
      exact hc

end

/-- The only event of a list that meets a condition. -/
theorem split_only {α : Type} {p : α → Prop} {es fs pre post : List α} {a b : α}
    (hes : ∀ e ∈ es, ¬p e) (hfs : ∀ e ∈ fs, ¬p e) (hb : p b)
    (h : es ++ a :: fs = pre ++ b :: post) : pre = es ∧ b = a := by
  rcases List.append_eq_append_iff.mp h with ⟨as, rfl, has⟩ | ⟨bs, rfl, has⟩
  · cases as with
    | nil =>
        obtain ⟨rfl, -⟩ := List.cons.inj has
        exact ⟨List.append_nil _, rfl⟩
    | cons c cs =>
        obtain ⟨-, rfl⟩ := List.cons.inj has
        exact absurd hb (hfs b (List.mem_append_right _ List.mem_cons_self))
  · cases bs with
    | nil =>
        obtain ⟨rfl, -⟩ := List.cons.inj has
        exact ⟨(List.append_nil _).symm, rfl⟩
    | cons c cs =>
        obtain ⟨rfl, -⟩ := List.cons.inj has
        exact absurd hb (hes b (List.mem_append_right _ List.mem_cons_self))

/-! ## Histories

What a run has seen so far is often part of what is known of its end.
`history note s es` collects, along the run of `step`, what `note` says of
each step. -/

section
variable {τ : Type} {step : σ → ε → Except φ (σ × List ω)}

/-- The notes taken before each step of the run of `step` from `s`. -/
def history (step : σ → ε → Except φ (σ × List ω)) (note : σ → ε → List τ) :
    σ → List ε → List τ
  | _, [] => []
  | s, e :: es =>
      note s e ++ match step s e with
        | .ok (s', _) => history step note s' es
        | .error _ => []

/-- An invariant of states and histories. -/
theorem run_history_invariant {note : σ → ε → List τ} {I : σ → List τ → Prop}
    (hstep : ∀ s h e s' o, I s h → step s e = .ok (s', o) → I s' (h ++ note s e))
    {s t : σ} {h : List τ} {es : List ε} {os : List ω} (hs : I s h)
    (hr : run step s es = .ok (t, os)) : I t (h ++ history step note s es) := by
  induction es generalizing s h os with
  | nil => cases hr; simpa [history] using hs
  | cons e es ih =>
      obtain ⟨s', o, os', h', hr', -⟩ := run_cons_ok.mp hr
      have := ih (hstep s h e s' o hs h') hr'
      rwa [history, h', ← List.append_assoc]

/-- `D` holds, of the history and the state, before each step that a run
comes to. -/
def Noted (step : σ → ε → Except φ (σ × List ω)) (note : σ → ε → List τ)
    (D : List τ → σ → ε → Prop) (h : List τ) (s : σ) (es : List ε) : Prop :=
  ∀ pre e post u o, es = pre ++ e :: post → run step s pre = .ok (u, o) →
    D (h ++ history step note s pre) u e

section
variable {note : σ → ε → List τ} {D : List τ → σ → ε → Prop} {I : List τ → σ → Prop}
  {h : List τ} {s t u : σ} {e : ε} {es : List ε} {o os : List ω}

theorem Noted.head (hd : Noted step note D h s (e :: es)) : D h s e := by
  simpa [history] using hd [] e es s [] rfl rfl

theorem Noted.tail (hd : Noted step note D h s (e :: es)) (hs : step s e = .ok (u, o)) :
    Noted step note D (h ++ note s e) u es := by
  intro pre e' post v o' hes hv
  obtain rfl := hes
  have hrest := hd (e :: pre) e' post v (o ++ o') rfl (run_cons_ok.mpr ⟨u, o, o', hs, hv, rfl⟩)
  rwa [history, hs, ← List.append_assoc] at hrest

/-- An invariant of histories and states that a step preserves under `D`. -/
theorem run_noted
    (hstep : ∀ h s e s' o, I h s → D h s e → step s e = .ok (s', o) → I (h ++ note s e) s')
    (hs : I h s) (hd : Noted step note D h s es) (hr : run step s es = .ok (t, os)) :
    I (h ++ history step note s es) t := by
  induction es generalizing h s os with
  | nil =>
      cases hr
      simpa [history] using hs
  | cons e es ih =>
      obtain ⟨u, o, os', hu, hr', -⟩ := run_cons_ok.mp hr
      have hrest := ih (hstep h s e u o hs hd.head hu) (hd.tail hu) hr'
      rwa [history, hu, ← List.append_assoc]

/-- Where a step fails other than with `d` exactly against `C`, a run does
exactly when it comes to such a step. -/
theorem run_noted_ends {C : σ → ε → Prop} {d : φ}
    (hstep : ∀ h s e s' o, I h s → D h s e → step s e = .ok (s', o) → I (h ++ note s e) s')
    (hend : ∀ h s e, I h s → ((∀ x, step s e = .error x → x = d) ↔ C s e))
    (hs : I h s) (hd : Noted step note D h s es) :
    (∀ x, run step s es = .error x → x = d) ↔ Along step C s es := by
  induction es generalizing h s with
  | nil =>
      refine iff_of_true (fun x hx => ?_) trivial
      cases hx
  | cons e es ih =>
      rw [Along, ← hend h s e hs, run]
      cases hu : step s e with
      | error y =>
          refine ⟨fun hx => ⟨hx, fun u o hok => ?_⟩, fun hx => hx.1⟩
          cases hok
      | ok p =>
          obtain ⟨u, o⟩ := p
          have hrest := ih (hstep h s e u o hs hd.head hu) (hd.tail hu)
          dsimp only
          constructor
          · intro hx
            constructor
            · intro x hx'
              cases hx'
            · intro u' o' hok
              cases hok
              refine hrest.mp fun x hr => hx x ?_
              rw [hr]
          · intro hx x hr
            refine hrest.mpr (hx.2 u o rfl) x ?_
            cases hr' : run step u es with
            | error y =>
                rw [hr'] at hr
                exact hr
            | ok q =>
                rw [hr'] at hr
                cases hr

end

theorem history_append {note : σ → ε → List τ} {s t : σ} {es fs : List ε} {os : List ω}
    (hr : run step s es = .ok (t, os)) :
    history step note s (es ++ fs) = history step note s es ++ history step note t fs := by
  induction es generalizing s os with
  | nil => cases hr; rfl
  | cons e es ih =>
      obtain ⟨s', o, os', h', hr', -⟩ := run_cons_ok.mp hr
      rw [List.cons_append, history, history, h']
      simp only [ih hr', List.append_assoc]

end

/-! ## Simulation

`R` relates a concrete to an abstract state. One concrete step, taken
under the condition `C`, is matched by a run of the abstract program
(an empty one where the step is invisible there); then so is every
concrete run. -/

section
variable {α β ψ χ : Type} {step : σ → ε → Except φ (σ × List ω)}
  {astep : α → β → Except χ (α × List ψ)}

/-- **Simulation lifts to runs.** -/
theorem run_simulates {R : σ → α → Prop} {C : σ → ε → Prop}
    (hstep : ∀ s a e s' o, R s a → C s e → step s e = .ok (s', o) →
      ∃ bs a' ps, run astep a bs = .ok (a', ps) ∧ R s' a')
    {s t : σ} {a : α} {es : List ε} {os : List ω} (hR : R s a)
    (hc : Along step C s es) (hr : run step s es = .ok (t, os)) :
    ∃ bs a' ps, run astep a bs = .ok (a', ps) ∧ R t a' := by
  induction es generalizing s a os with
  | nil =>
      cases hr
      exact ⟨[], a, [], rfl, hR⟩
  | cons e es ih =>
      obtain ⟨s', o, os', h, hr', -⟩ := run_cons_ok.mp hr
      obtain ⟨bs, a', ps, hb, hR'⟩ := hstep s a e s' o hR hc.1 h
      obtain ⟨cs, a'', qs, hcs, hR''⟩ := ih hR' (hc.2 s' o h) hr'
      exact ⟨bs ++ cs, a'', ps ++ qs,
        run_append_ok.mpr ⟨a', ps, qs, hb, hcs, rfl⟩, hR''⟩

end

end Sricd.Lib
