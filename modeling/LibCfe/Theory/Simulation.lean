import LibCfe.Theory.Transition

/-!
# Simulations

A relation between the states of two systems simulates the first in the second when it
relates the starts and every step of the first is matched by a run, which may be empty,
of the second.

## What is proved

`Simulation.reachable` — each state the first system reaches is related to one that the
second reaches, so that what holds of all the states of the second can be said of the
first.
-/

namespace LibCfe.Theory

variable {σ α τ β : Type*}

/-- `R` relates each run of `S` to a run of `A`. -/
structure Simulation (S : System σ α) (C : σ → α → σ → Prop) (A : System τ β) (D : τ → β → τ → Prop)
    (R : σ → τ → Prop) : Prop where
  /-- The starts are related. -/
  init : R S.init A.init
  /-- Every step is matched. -/
  step : ∀ {s a s' t}, R s t → S.step s a = some s' → C s a s' → ∃ bs t', A.Runs D t bs t' ∧ R s' t'

variable {S : System σ α} {C : σ → α → σ → Prop} {A : System τ β} {D : τ → β → τ → Prop} {R : σ → τ → Prop}

/-- A run is matched by a run. -/
theorem Simulation.runs (h : Simulation S C A D R) {s s' : σ} {t : τ} {as : List α} (hR : R s t)
    (hs : S.Runs C s as s') : ∃ bs t', A.Runs D t bs t' ∧ R s' t' := by
  induction hs with
  | refl => exact ⟨[], t, .refl, hR⟩
  | step _ hst hC ih =>
    obtain ⟨bs, t', hbs, hR'⟩ := ih
    obtain ⟨cs, u, hcs, hR''⟩ := h.step hR' hst hC
    exact ⟨bs ++ cs, u, hbs.append hcs, hR''⟩

/-- **A reachable state is related to a reachable state.** -/
theorem Simulation.reachable (h : Simulation S C A D R) {s : σ} (hs : S.Reachable C s) :
    ∃ t, A.Reachable D t ∧ R s t := by
  obtain ⟨as, has⟩ := hs
  obtain ⟨bs, t, hbs, hR⟩ := h.runs h.init has
  exact ⟨t, ⟨bs, hbs⟩, hR⟩

end LibCfe.Theory
