import Mathlib.Data.List.Basic
import Mathlib.Tactic.TypeStar

/-!
# Transition systems and their runs

A system is a start state and a guarded step function: `step s a` is `some t`
when action `a` is possible in `s` and leads to `t`. A run is a list of actions
each of whose steps also meets a side condition `C`, which is where a model
states what its environment promises (a bound that is never crossed, an
argument that is never passed).

## What is proved

* `Runs.invariant` — what holds at the start and is kept by each step holds
  after every run; `Reachable.invariant` is the case of runs from the start.
* `Runs.relates` — a preorder that each step respects relates the two ends of
  a run.
* `runs_of_exec` — replaying a list of actions gives a run.
-/

namespace LibCfe.Theory

/-- A transition system: where it starts, and what each action does. -/
structure System (σ α : Type*) where
  /-- The start. -/
  init : σ
  /-- The state after an action, when the action is possible. -/
  step : σ → α → Option σ

namespace System

variable {σ α : Type*} (S : System σ α)

/-- `S.Runs C s as t`: the actions `as` lead from `s` to `t`, by steps that meet `C`. -/
inductive Runs (C : σ → α → σ → Prop) (s : σ) : List α → σ → Prop where
  /-- No action. -/
  | refl : Runs C s [] s
  /-- One more action. -/
  | step {as : List α} {t u : σ} {a : α} :
      Runs C s as t → S.step t a = some u → C t a u → Runs C s (as ++ [a]) u

/-- The states reached from the start by steps that meet `C`. -/
def Reachable (C : σ → α → σ → Prop) (t : σ) : Prop := ∃ as, S.Runs C S.init as t

/-- No side condition: every possible step is taken. -/
def Free (_ : σ) (_ : α) (_ : σ) : Prop := True

/-- Replay the actions from `s`; no result when one is not possible or its step does
not meet `C`. -/
def exec (C : σ → α → σ → Prop) [∀ s a t, Decidable (C s a t)] (s : σ) : List α → Option σ
  | [] => some s
  | a :: as =>
      match S.step s a with
      | some t => if C s a t then exec C t as else none
      | none => none

instance (s : σ) (a : α) (t : σ) : Decidable (Free s a t) := inferInstanceAs (Decidable True)

variable {S} {C : σ → α → σ → Prop}

theorem Runs.invariant {I : σ → Prop}
    (hI : ∀ t a u, I t → S.step t a = some u → C t a u → I u) {s t : σ} {as : List α}
    (h : S.Runs C s as t) (hs : I s) : I t := by
  induction h with
  | refl => exact hs
  | step _ hst hC ih => exact hI _ _ _ ih hst hC

theorem Runs.relates {R : σ → σ → Prop} (hrefl : ∀ s, R s s)
    (htrans : ∀ s t u, R s t → R t u → R s u)
    (hR : ∀ t a u, S.step t a = some u → C t a u → R t u) {s t : σ} {as : List α}
    (h : S.Runs C s as t) : R s t := by
  induction h with
  | refl => exact hrefl _
  | step _ hst hC ih => exact htrans _ _ _ ih (hR _ _ _ hst hC)

theorem Runs.append {s t u : σ} {as bs : List α} (h : S.Runs C s as t) (h' : S.Runs C t bs u) :
    S.Runs C s (as ++ bs) u := by
  induction h' with
  | refl => simpa using h
  | step _ hst hC ih =>
    rw [← List.append_assoc]
    exact .step ih hst hC

theorem Runs.cons {s t u : σ} {a : α} {as : List α} (hst : S.step s a = some t) (hC : C s a t)
    (h : S.Runs C t as u) : S.Runs C s (a :: as) u :=
  have h1 : S.Runs C s [a] t := .step .refl hst hC
  h1.append h

/-- What a replay gives is a run. -/
theorem runs_of_exec [∀ s a t, Decidable (C s a t)] {t : σ} : ∀ {as : List α} {s : σ},
    S.exec C s as = some t → S.Runs C s as t
  | [], _, h => by cases h; exact .refl
  | a :: as, s, h => by
    simp only [exec] at h
    cases hst : S.step s a with
    | none => rw [hst] at h; cases h
    | some u =>
      rw [hst] at h
      simp only [Option.ite_none_right_eq_some] at h
      exact .cons hst h.1 (runs_of_exec h.2)

/-- Weakening the side condition keeps a run. -/
theorem Runs.mono {D : σ → α → σ → Prop} (hCD : ∀ t a u, C t a u → D t a u) {s t : σ} {as : List α}
    (h : S.Runs C s as t) : S.Runs D s as t := by
  induction h with
  | refl => exact .refl
  | step _ hst hC ih => exact .step ih hst (hCD _ _ _ hC)

theorem reachable_of_exec [∀ s a t, Decidable (C s a t)] (as : List α)
    (h : (S.exec C S.init as).isSome) : S.Reachable C ((S.exec C S.init as).get h) :=
  ⟨as, runs_of_exec (Option.some_get h).symm⟩

theorem Reachable.runs {t u : σ} {as : List α} (h : S.Reachable C t) (hr : S.Runs C t as u) :
    S.Reachable C u := by
  obtain ⟨bs, hbs⟩ := h
  exact ⟨bs ++ as, hbs.append hr⟩

theorem Reachable.invariant {I : σ → Prop} (h0 : I S.init)
    (hI : ∀ t a u, I t → S.step t a = some u → C t a u → I u) {t : σ} (h : S.Reachable C t) : I t := by
  obtain ⟨as, has⟩ := h
  exact has.invariant hI h0

/-- An invariant whose preservation needs another one that is known to hold. -/
theorem Reachable.invariant_with {I J : σ → Prop} (hJ : ∀ t, S.Reachable C t → J t) (h0 : I S.init)
    (hI : ∀ t a u, J t → I t → S.step t a = some u → C t a u → I u) {t : σ}
    (h : S.Reachable C t) : I t := by
  obtain ⟨as, has⟩ := h
  induction has with
  | refl => exact h0
  | step hr hst hC ih => exact hI _ _ _ (hJ _ ⟨_, hr⟩) ih hst hC

end System

end LibCfe.Theory
