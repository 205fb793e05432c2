import LibCfe.Theory.Simulation
import Mathlib.Logic.Function.Basic

/-!
# Atomic objects

An object that threads share is described by what a call may do to it at one instant:
`spec m c m' r` says that a call `c` may turn `m` into `m'` and return `r`. In the
atomic system a thread calls, its call is served at some instant after that, and then it
returns. `events` is the history of calls and returns, which is all that a client can
see, and `log` the calls in the order in which they were served.

An implementation is linearizable when each of its histories is one of the atomic
system, so that its clients cannot tell it from the object itself.

## What is proved

* `AtomicState.serial` — the calls served, taken in that order, are a sequential
  execution that leads from the object at the start to the object now.
* `serve_run` — how a simulation serves a call.
-/

namespace LibCfe.Theory

/-- What clients see. -/
inductive Event (ι K X : Type*) where
  /-- A thread calls. -/
  | call (i : ι) (c : K)
  /-- Its call returns. -/
  | ret (i : ι) (r : X)

/-- Where the call of a thread is. -/
inductive Status (K X : Type*) where
  /-- There is none. -/
  | idle
  /-- It has not been served. -/
  | called (c : K)
  /-- It has, and returns this. -/
  | served (r : X)

/-- An atomic object and the threads that call it. -/
structure AtomicState (ι M K X : Type*) where
  /-- The object. -/
  object : M
  /-- The call of each thread. -/
  status : ι → Status K X
  /-- The calls and returns so far. -/
  events : List (Event ι K X)
  /-- The calls served so far, and what they return. -/
  log : List (K × X)

/-- What a thread can do. -/
inductive AtomicAction (ι M K X : Type*) where
  /-- Call. -/
  | call (i : ι) (c : K)
  /-- Its call is served. -/
  | serve (i : ι) (c : K) (m : M) (r : X)
  /-- Return. -/
  | ret (i : ι) (r : X)

variable {ι M K X : Type*} [DecidableEq ι] (spec : M → K → M → X → Prop)

open Classical in
/-- One step of the atomic system. -/
noncomputable def atomicStep (s : AtomicState ι M K X) : AtomicAction ι M K X → Option (AtomicState ι M K X)
  | .call i c =>
    if s.status i = .idle
    then some { s with status := Function.update s.status i (.called c), events := s.events ++ [.call i c] }
    else none
  | .serve i c m r =>
    if s.status i = .called c ∧ spec s.object c m r
    then some { s with object := m, status := Function.update s.status i (.served r), log := s.log ++ [(c, r)] }
    else none
  | .ret i r =>
    if s.status i = .served r
    then some { s with status := Function.update s.status i .idle, events := s.events ++ [.ret i r] }
    else none

/-- The atomic system, from an object and no calls. -/
noncomputable def atomicSystem (m : M) : System (AtomicState ι M K X) (AtomicAction ι M K X) where
  init := ⟨m, fun _ => .idle, [], []⟩
  step := atomicStep spec

/-- Calls made one after the other lead from one object to another. -/
inductive Serial (spec : M → K → M → X → Prop) (m : M) : List (K × X) → M → Prop where
  /-- No call. -/
  | nil : Serial spec m [] m
  /-- One more call. -/
  | snoc {log : List (K × X)} {m' m'' : M} {c : K} {r : X} :
      Serial spec m log m' → spec m' c m'' r → Serial spec m (log ++ [(c, r)]) m''

variable {spec}

/-- **The calls served are a sequential execution.** -/
theorem AtomicState.serial {m : M} {s : AtomicState ι M K X}
    (h : (atomicSystem spec m).Reachable System.Free s) : Serial spec m s.log s.object := by
  apply h.invariant (I := fun s => Serial spec m s.log s.object) .nil
  intro s a t ih hst _
  simp only [atomicSystem] at hst
  cases a with
  | call i c =>
    simp only [atomicStep, Option.ite_none_right_eq_some, Option.some.injEq] at hst
    obtain ⟨-, rfl⟩ := hst
    exact ih
  | serve i c m' r =>
    simp only [atomicStep, Option.ite_none_right_eq_some, Option.some.injEq] at hst
    obtain ⟨⟨-, hspec⟩, rfl⟩ := hst
    exact ih.snoc hspec
  | ret i r =>
    simp only [atomicStep, Option.ite_none_right_eq_some, Option.some.injEq] at hst
    obtain ⟨-, rfl⟩ := hst
    exact ih

section

variable {m₀ : M} {s : AtomicState ι M K X} {i : ι} {c : K} {r : X} {m : M}

/-- A call. -/
theorem call_run (h : s.status i = .idle) :
    (atomicSystem spec m₀).Runs System.Free s [.call i c]
      { s with status := Function.update s.status i (.called c), events := s.events ++ [.call i c] } :=
  .cons (if_pos h) trivial .refl

/-- A call that is served. -/
theorem serve_run (h : s.status i = .called c) (hspec : spec s.object c m r) :
    (atomicSystem spec m₀).Runs System.Free s [.serve i c m r]
      { s with object := m, status := Function.update s.status i (.served r), log := s.log ++ [(c, r)] } :=
  .cons (if_pos ⟨h, hspec⟩) trivial .refl

/-- A return. -/
theorem ret_run (h : s.status i = .served r) :
    (atomicSystem spec m₀).Runs System.Free s [.ret i r]
      { s with status := Function.update s.status i .idle, events := s.events ++ [.ret i r] } :=
  .cons (if_pos h) trivial .refl

end

end LibCfe.Theory
