import Sricd.Lib.Run

/-!
# Programs that count down

Some events are work, and a program that does enough of it comes to an
end: work takes at least one from what is still to be done, as long as
there is any, and no other event adds to it.
-/

namespace Sricd.Lib

variable {σ ε ω φ : Type}

section
variable {step : σ → ε → Except φ (σ × List ω)} {I : Nat → σ → Prop} {C : σ → ε → Prop}

/-- **A run is as far on as the work in it.** `I l` holds of the states in
which no more than `l` is to be done. -/
theorem run_lowers {work : ε → Bool}
    (hstep : ∀ l s e s' o, I l s → C s e → step s e = .ok (s', o) →
      I (l - if work e then 1 else 0) s')
    {l : Nat} {s t : σ} {es : List ε} {os : List ω} (hs : I l s) (hc : Along step C s es)
    (hr : run step s es = .ok (t, os)) : I (l - es.countP work) t := by
  induction es generalizing l s os with
  | nil =>
      cases hr
      exact hs
  | cons e es ih =>
      obtain ⟨s', o, os', h, hr', -⟩ := run_cons_ok.mp hr
      have hrest := ih (hstep l s e s' o hs hc.1 h) (hc.2 s' o h) hr'
      rwa [List.countP_cons, Nat.add_comm, Nat.sub_add_eq]

/-- Some run whose steps meet `C` leads from `s` to where `P` holds. -/
def Leads (step : σ → ε → Except φ (σ × List ω)) (C : σ → ε → Prop) (P : σ → Prop) (s : σ) : Prop :=
  ∃ es t os, run step s es = .ok (t, os) ∧ Along step C s es ∧ P t

variable {P Q : σ → Prop}

theorem Leads.here {s : σ} (h : P s) : Leads step C P s := ⟨[], s, [], rfl, trivial, h⟩

theorem Leads.trans {s : σ} (h : Leads step C Q s) (hp : ∀ t, Q t → Leads step C P t) :
    Leads step C P s := by
  obtain ⟨es, u, os, hr, hc, hu⟩ := h
  obtain ⟨fs, t, ps, hr', hc', ht⟩ := hp u hu
  exact ⟨es ++ fs, t, os ++ ps, run_append_ok.mpr ⟨u, os, ps, hr, hr', rfl⟩,
    along_append hr hc hc', ht⟩

theorem Leads.cons {s u : σ} {e : ε} {o : List ω} (hs : step s e = .ok (u, o)) (hc : C s e)
    (h : Leads step C P u) : Leads step C P s := by
  have hone : Leads step C (· = u) s := by
    refine ⟨[e], u, o, run_single.mpr hs, ⟨hc, fun _ _ _ => trivial⟩, rfl⟩
  refine hone.trans fun t ht => ?_
  rw [ht]
  exact h

/-- **The end can be reached** where some more work can always be done. -/
theorem leads_to_end (hmore : ∀ l s, I (l + 1) s → Leads step C (I l) s) {l : Nat} {s : σ}
    (hs : I l s) : Leads step C (I 0) s := by
  induction l generalizing s with
  | zero => exact .here hs
  | succ l ih => exact (hmore l s hs).trans fun t ht => ih ht

end

/-- Where every step that meets `C` takes from the rank, there is an end to
such steps. -/
theorem run_length_le {step : σ → ε → Except φ (σ × List ω)} {I : σ → Prop} {C : σ → ε → Prop}
    {rank : σ → Nat}
    (hstep : ∀ s e s' o, I s → C s e → step s e = .ok (s', o) → I s' ∧ rank s' < rank s)
    {s t : σ} {es : List ε} {os : List ω} (hs : I s) (hc : Along step C s es)
    (hr : run step s es = .ok (t, os)) : es.length + rank t ≤ rank s := by
  induction es generalizing s os with
  | nil =>
      cases hr
      exact Nat.le_of_eq (Nat.zero_add _)
  | cons e es ih =>
      obtain ⟨s', o, os', h, hr', -⟩ := run_cons_ok.mp hr
      obtain ⟨hs', hlt⟩ := hstep s e s' o hs hc.1 h
      have hrest := ih hs' (hc.2 s' o h) hr'
      rw [List.length_cons]
      omega

end Sricd.Lib
