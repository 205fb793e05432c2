import LibCfe.Theory.Linearizable
import Mathlib.Data.Set.Finite.Basic
import Mathlib.Logic.Relation

/-!
# Calls in pieces

Threads share a store and execute their calls piece by piece; between two pieces of a call
others do whatever they like. `Pieces` says what the pieces are, and `Pieces.system` is
any number of threads that call.

`Pieces.Serves` is what to show of single pieces, so that the threads cannot tell the store
from an atomic object. A call is served by one of its own pieces, or by a piece of another
call, which then serves all those that waited for it.

## What is proved

* `help_run` — calls that leave the object as it is can be served together.
* `Pieces.Serves.simulation` — the threads simulate the atomic object.
* `Pieces.returns` — a call whose pieces come to an end returns, however often others take their
  turns in between.
* `Pieces.runs_of_whole` — a thread that nobody interrupts executes its call as a whole.
-/

namespace LibCfe.Theory

variable {ι σ Pc M K X : Type*}

/-! ### Serving calls -/

/-- What can become of a call at one instant: nothing, and nothing happens to the object,
or it is served. -/
def Status.Serves (spec : M → K → M → X → Prop) (m : M) (x : Status K X) (m' : M) (x' : Status K X) : Prop :=
  (x' = x ∧ m' = m) ∨ ∃ c r, x = .called c ∧ x' = .served r ∧ spec m c m' r

/-- It is left alone. -/
theorem Status.Serves.same {spec : M → K → M → X → Prop} (m : M) (x : Status K X) : x.Serves spec m m x := .inl ⟨rfl, rfl⟩

section

variable [DecidableEq ι] {spec : M → K → M → X → Prop} (m₀ : M) {t : AtomicState ι M K X}

/-- One call. -/
theorem serves_run {i : ι} {m : M} {x : Status K X} (h : (t.status i).Serves spec t.object m x) :
    ∃ bs t', (atomicSystem spec m₀).Runs System.Free t bs t' ∧ t'.object = m ∧
      t'.status = Function.update t.status i x ∧ t'.events = t.events := by
  obtain ⟨rfl, rfl⟩ | ⟨c, r, hcalled, rfl, hspec⟩ := h
  · exact ⟨[], t, .refl, rfl, (Function.update_eq_self i t.status).symm, rfl⟩
  · exact ⟨_, _, serve_run hcalled hspec, rfl, rfl, rfl⟩

/-- **Calls that leave the object as it is are served together.** -/
theorem help_run {status : ι → Status K X} (h : ∀ i, (t.status i).Serves spec t.object t.object (status i))
    (hfin : {i | status i ≠ t.status i}.Finite) :
    ∃ bs t', (atomicSystem spec m₀).Runs System.Free t bs t' ∧ t'.object = t.object ∧ t'.status = status ∧
      t'.events = t.events := by
  -- the threads are served one after the other
  have hsome : ∀ S : Finset ι, ∃ bs t', (atomicSystem spec m₀).Runs System.Free t bs t' ∧ t'.object = t.object ∧
      (∀ i, t'.status i = if i ∈ S then status i else t.status i) ∧ t'.events = t.events := by
    intro S
    induction S using Finset.induction_on with
    | empty => exact ⟨[], t, .refl, rfl, fun i => (if_neg (Finset.notMem_empty i)).symm, rfl⟩
    | insert j S hj ih =>
      obtain ⟨bs, t', hbs, hobject, hstatus, hevents⟩ := ih
      have hserves : (t'.status j).Serves spec t'.object t'.object (status j) := by
        rw [hstatus, if_neg hj, hobject]
        exact h j
      obtain ⟨cs, t'', hcs, hobject', hstatus', hevents'⟩ := serves_run m₀ hserves
      refine ⟨bs ++ cs, t'', hbs.append hcs, hobject'.trans hobject, ?_, hevents'.trans hevents⟩
      intro i
      rw [hstatus']
      by_cases hi : i = j
      · subst hi
        simp
      · simp [hi, hstatus i]
  obtain ⟨bs, t', hbs, hobject, hstatus, hevents⟩ := hsome hfin.toFinset
  refine ⟨bs, t', hbs, hobject, ?_, hevents⟩
  funext i
  rw [hstatus]
  by_cases hi : status i = t.status i
  · simp [hi]
  · simp [hi]

end

/-! ### Threads -/

/-- The pieces of calls, over program counters `Pc` that hold the local variables. -/
structure Pieces (σ Pc K X : Type*) where
  /-- Where a call starts. -/
  start : K → Pc
  /-- Its next piece. There is none where it does not go on. -/
  next : Pc → σ → Option (Pc × σ)
  /-- What it returns, when it is at its end. -/
  ret : Pc → Option X
  /-- Nothing comes after the end. -/
  next_ret : ∀ {pc r s}, ret pc = some r → next pc s = none

/-- Threads and the store they share. -/
structure Pieces.State (ι σ Pc K X : Type*) where
  /-- The store. -/
  store : σ
  /-- The call of each thread. -/
  threads : ι → Option Pc
  /-- The calls and returns so far. -/
  events : List (Event ι K X)

/-- What a thread can do. -/
inductive Turn (K : Type*) where
  /-- Call. -/
  | call (c : K)
  /-- The next piece of its call, or its return. -/
  | next

namespace Pieces

variable (P : Pieces σ Pc K X)

section

variable [DecidableEq ι]

/-- One step, by thread `a.1`. -/
def step (s : State ι σ Pc K X) (a : ι × Turn K) : Option (State ι σ Pc K X) :=
  match a.2, s.threads a.1 with
  | .call c, none =>
    some { s with threads := Function.update s.threads a.1 (some (P.start c)), events := s.events ++ [.call a.1 c] }
  | .call _, some _ => none
  | .next, none => none
  | .next, some pc =>
    match P.ret pc with
    | some r => some { s with threads := Function.update s.threads a.1 none, events := s.events ++ [.ret a.1 r] }
    | none => (P.next pc s.store).map fun (pc, store) =>
      { s with store, threads := Function.update s.threads a.1 (some pc) }

/-- A store, and no calls. -/
def system (ι : Type*) [DecidableEq ι] (store : σ) : System (State ι σ Pc K X) (ι × Turn K) where
  init := ⟨store, fun _ => none, []⟩
  step := P.step

/-- What a step can have been. -/
inductive Step (s : State ι σ Pc K X) (i : ι) : State ι σ Pc K X → Prop where
  /-- A call. -/
  | call (c : K) (hpc : s.threads i = none) :
      Step s i { s with threads := Function.update s.threads i (some (P.start c)), events := s.events ++ [.call i c] }
  /-- A return. -/
  | ret (pc : Pc) (r : X) (hpc : s.threads i = some pc) (hret : P.ret pc = some r) :
      Step s i { s with threads := Function.update s.threads i none, events := s.events ++ [.ret i r] }
  /-- A piece of a call. -/
  | piece (pc pc' : Pc) (store : σ) (hpc : s.threads i = some pc) (hret : P.ret pc = none)
      (hnext : P.next pc s.store = some (pc', store)) :
      Step s i { s with store, threads := Function.update s.threads i (some pc') }

variable {P}

/-- **Every step is one of these.** -/
theorem step_cases {s s' : State ι σ Pc K X} {i : ι} {a : Turn K} (h : P.step s (i, a) = some s') : P.Step s i s' := by
  cases a with
  | call c =>
    cases hpc : s.threads i with
    | none =>
      simp only [step, hpc, Option.some.injEq] at h
      rw [← h]
      exact .call c hpc
    | some pc => simp only [step, hpc, reduceCtorEq] at h
  | next =>
    cases hpc : s.threads i with
    | none => simp only [step, hpc, reduceCtorEq] at h
    | some pc =>
      cases hret : P.ret pc with
      | some r =>
        simp only [step, hpc, hret, Option.some.injEq] at h
        rw [← h]
        exact .ret pc r hpc hret
      | none =>
        simp only [step, hpc, hret] at h
        obtain ⟨⟨pc', store⟩, hnext, rfl⟩ := Option.map_eq_some_iff.mp h
        exact .piece pc pc' store hpc hret hnext

end

/-! ### An atomic object -/

/-- What to show of each piece. How far a call has come depends on the store too, since
others may serve it. -/
structure Serves (P : Pieces σ Pc K X) (spec : M → K → M → X → Prop) (object : σ → M) (status : σ → Pc → Status K X)
    (Valid : σ → Pc → Prop) : Prop where
  /-- At its start a call has not been served, -/
  start : ∀ s c, Valid s (P.start c) ∧ status s (P.start c) = .called c
  /-- and at its end it has. -/
  ret : ∀ s pc r, P.ret pc = some r → status s pc = .served r
  /-- A piece serves its own call, or nothing can be seen of it, -/
  own : ∀ {s pc pc' s'}, Valid s pc → P.next pc s = some (pc', s') →
    Valid s' pc' ∧ (status s pc).Serves spec (object s) (object s') (status s' pc')
  /-- and the calls of others may be served right after that. -/
  others : ∀ {s pc pc' s' other}, Valid s pc → P.next pc s = some (pc', s') → Valid s other →
    Valid s' other ∧ (status s other).Serves spec (object s') (object s') (status s' other)

/-- How far a thread has come. -/
def threadStatus (status : σ → Pc → Status K X) (s : σ) : Option Pc → Status K X
  | none => .idle
  | some pc => status s pc

/-- The atomic object that the threads and their store stand for. -/
structure Matches (object : σ → M) (status : σ → Pc → Status K X) (Valid : σ → Pc → Prop) (s : State ι σ Pc K X)
    (t : AtomicState ι M K X) : Prop where
  object : t.object = object s.store
  status : ∀ i, t.status i = threadStatus status s.store (s.threads i)
  events : t.events = s.events
  valid : ∀ i pc, s.threads i = some pc → Valid s.store pc
  /-- There are only so many calls in progress. -/
  active : {i | s.threads i ≠ none}.Finite

namespace Serves

variable [DecidableEq ι] {P} {spec : M → K → M → X → Prop} {object : σ → M} {status : σ → Pc → Status K X}
  {Valid : σ → Pc → Prop}

/-- One thread more has a call in progress. -/
theorem active_update {threads : ι → Option Pc} (h : {i | threads i ≠ none}.Finite) (i : ι) (pc : Option Pc) :
    {j | Function.update threads i pc j ≠ none}.Finite := by
  refine (h.insert i).subset ?_
  intro j hj
  by_cases hji : j = i
  · exact .inl hji
  · refine .inr ?_
    simpa [hji] using hj

/-- One thread goes on in the same store. -/
theorem update {s : State ι σ Pc K X} {t : AtomicState ι M K X} (h : Matches object status Valid s t) (i : ι)
    {pc : Option Pc} (events : List (Event ι K X)) (hvalid : ∀ pc', pc = some pc' → Valid s.store pc') :
    Matches object status Valid { s with threads := Function.update s.threads i pc, events }
      { t with status := Function.update t.status i (threadStatus status s.store pc), events } := by
  refine ⟨h.object, ?_, rfl, ?_, active_update h.active i pc⟩
  · intro j
    by_cases hj : j = i
    · subst hj
      simp
    · simpa [hj] using h.status j
  · intro j pc' hpc'
    by_cases hj : j = i
    · subst hj
      simp only [Function.update_self] at hpc'
      exact hvalid pc' hpc'
    · simp only [Function.update_of_ne hj] at hpc'
      exact h.valid j pc' hpc'

/-- A piece serves its own call and then those of others. -/
theorem piece (h : P.Serves spec object status Valid) (m₀ : M) {s : State ι σ Pc K X}
    {t : AtomicState ι M K X} (hmatch : Matches object status Valid s t) {i : ι} {pc pc' : Pc} {store : σ}
    (hpc : s.threads i = some pc) (hnext : P.next pc s.store = some (pc', store)) :
    ∃ bs t', (atomicSystem spec m₀).Runs System.Free t bs t' ∧
      Matches object status Valid { s with store, threads := Function.update s.threads i (some pc') } t' := by
  have hvalid := hmatch.valid i pc hpc
  obtain ⟨hvalid', hown⟩ := h.own hvalid hnext
  have hstatus : t.status i = status s.store pc := by rw [hmatch.status, hpc]; rfl
  rw [← hmatch.object, ← hstatus] at hown
  obtain ⟨bs, u, hbs, hobject, hserved, hevents⟩ := serves_run m₀ hown
  have hothers : ∀ j, (u.status j).Serves spec u.object u.object
      (threadStatus status store (Function.update s.threads i (some pc') j)) := by
    intro j
    rw [hobject, hserved]
    by_cases hj : j = i
    · subst hj
      simp only [Function.update_self]
      exact .same _ _
    · simp only [Function.update_of_ne hj]
      rw [hmatch.status j]
      cases hother : s.threads j with
      | none => exact .same _ _
      | some other => exact (h.others hvalid hnext (hmatch.valid j other hother)).2
  -- a thread without a call stays as it is
  have hfin : {j | threadStatus status store (Function.update s.threads i (some pc') j) ≠ u.status j}.Finite := by
    refine hmatch.active.subset ?_
    intro j hj hnone
    have hji : j ≠ i := by
      rintro rfl
      rw [hpc] at hnone
      cases hnone
    refine hj ?_
    rw [hserved, Function.update_of_ne hji, Function.update_of_ne hji, hmatch.status j, hnone]
    rfl
  obtain ⟨cs, t', hcs, hobject', hserved', hevents'⟩ := help_run m₀ hothers hfin
  refine ⟨bs ++ cs, t', hbs.append hcs, hobject'.trans hobject, fun j => congrFun hserved' j,
    (hevents'.trans hevents).trans hmatch.events, ?_, active_update hmatch.active i (some pc')⟩
  intro j other hother
  by_cases hj : j = i
  · subst hj
    simp only [Function.update_self, Option.some.injEq] at hother
    rw [← hother]
    exact hvalid'
  · simp only [Function.update_of_ne hj] at hother
    exact (h.others hvalid hnext (hmatch.valid j other hother)).1

/-- **The threads simulate the atomic object.** -/
theorem simulation (h : P.Serves spec object status Valid) (store : σ) :
    Simulation (P.system ι store) System.Free (atomicSystem spec (object store)) System.Free
      (Matches object status Valid) where
  init := by
    refine ⟨rfl, fun _ => rfl, rfl, ?_, ?_⟩
    · intro i pc hpc
      cases hpc
    · exact Set.finite_empty.subset fun i hi => hi rfl
  step := by
    rintro s ⟨i, a⟩ s' t hmatch hst -
    have hstatus := hmatch.status i
    cases step_cases hst with
    | call c hpc =>
      rw [hpc] at hstatus
      obtain ⟨hvalid, hcalled⟩ := h.start s.store c
      refine ⟨_, _, call_run (c := c) hstatus, ?_⟩
      rw [hmatch.events, ← hcalled]
      refine update hmatch i _ ?_
      rintro pc ⟨⟩
      exact hvalid
    | ret pc r hpc hret =>
      rw [hpc] at hstatus
      refine ⟨_, _, ret_run (hstatus.trans (h.ret s.store pc r hret)), ?_⟩
      rw [hmatch.events]
      refine update hmatch i _ ?_
      intro pc' hpc'
      cases hpc'
    | piece pc pc' store' hpc _ hnext => exact h.piece _ hmatch hpc hnext

/-- **The calls and returns of the threads are a history of the atomic object.** -/
theorem linearizable (h : P.Serves spec object status Valid) {store : σ} {s : State ι σ Pc K X}
    (hs : (P.system ι store).Reachable System.Free s) :
    ∃ t : AtomicState ι M K X, (atomicSystem spec (object store)).Reachable System.Free t ∧ t.events = s.events ∧
      Serial spec (object store) t.log (object s.store) := by
  obtain ⟨t, ht, hmatch⟩ := (h.simulation store).reachable hs
  have hserial := AtomicState.serial ht
  rw [hmatch.object] at hserial
  exact ⟨t, ht, hmatch.events, hserial⟩

end Serves

/-! ### Progress -/

/-- Whatever others have done and will do, a call in progress can go on unless it is at a place where
it is `stuck`, and it has returned by the time its thread has had more than `bound` turns. -/
def Returns (P : Pieces σ Pc K X) (stuck : Pc → Prop) (bound : ℕ) (ι : Type*) [DecidableEq ι] : Prop :=
  ∀ (store : σ) (s : State ι σ Pc K X) (i : ι) (pc : Pc), s.threads i = some pc →
    (¬stuck pc → (P.step s (i, .next)).isSome = true) ∧
    ∀ as s', (P.system ι store).Runs System.Free s as s' → bound < as.countP (fun a => decide (a.1 = i)) →
      ∃ new r, s'.events = s.events ++ new ∧ Event.ret i r ∈ new

section

variable {P} [DecidableEq ι]

/-- A call has returned, or it is so much nearer to its end. -/
theorem progress (rank : Pc → ℕ) (hrank : ∀ {pc s pc' s'}, P.next pc s = some (pc', s') → rank pc' < rank pc)
    {store : σ} {s s' : State ι σ Pc K X} {i : ι} {pc : Pc} {as : List (ι × Turn K)}
    (h : (P.system ι store).Runs System.Free s as s') (hpc : s.threads i = some pc) :
    ∃ new, s'.events = s.events ++ new ∧ ((∃ r, Event.ret i r ∈ new) ∨
      ∃ pc', s'.threads i = some pc' ∧ rank pc' + as.countP (fun a => decide (a.1 = i)) ≤ rank pc) := by
  induction h with
  | refl => exact ⟨[], by simp, .inr ⟨pc, hpc, by simp⟩⟩
  | @step as t u a _ hst _ ih =>
    obtain ⟨j, a⟩ := a
    obtain ⟨new, hnew, hreturned | ⟨pc', hpc', hle⟩⟩ := ih
    · -- it stays returned
      obtain ⟨r, hr⟩ := hreturned
      cases step_cases hst with
      | call c _ => exact ⟨new ++ [.call j c], by simp [hnew], .inl ⟨r, by simp [hr]⟩⟩
      | ret _ r' _ _ => exact ⟨new ++ [.ret j r'], by simp [hnew], .inl ⟨r, by simp [hr]⟩⟩
      | piece _ _ _ _ _ _ => exact ⟨new, hnew, .inl ⟨r, hr⟩⟩
    · by_cases hj : j = i
      · subst hj
        cases step_cases hst with
        | call c hidle =>
          rw [hpc'] at hidle
          cases hidle
        | ret _ r _ _ => exact ⟨new ++ [.ret j r], by simp [hnew], .inl ⟨r, by simp⟩⟩
        | piece pc₁ pc₂ _ hpc₁ _ hnext =>
          rw [hpc'] at hpc₁
          cases hpc₁
          have hlt := hrank hnext
          refine ⟨new, hnew, .inr ⟨pc₂, by simp, ?_⟩⟩
          simp only [List.countP_append, List.countP_singleton, decide_true, if_true]
          omega
      · -- others do not touch it
        have hcount : (as ++ [(j, a)]).countP (fun a => decide (a.1 = i)) = as.countP (fun a => decide (a.1 = i)) := by
          simp [hj]
        rw [hcount]
        cases step_cases hst with
        | call c _ => exact ⟨new ++ [.call j c], by simp [hnew], .inr ⟨pc', by simp [Ne.symm hj, hpc'], hle⟩⟩
        | ret _ r _ _ => exact ⟨new ++ [.ret j r], by simp [hnew], .inr ⟨pc', by simp [Ne.symm hj, hpc'], hle⟩⟩
        | piece _ _ _ _ _ _ => exact ⟨new, hnew, .inr ⟨pc', by simp [Ne.symm hj, hpc'], hle⟩⟩

/-- **A call whose pieces come to an end returns.** -/
theorem returns {stuck : Pc → Prop} {bound : ℕ} (rank : Pc → ℕ) (hbound : ∀ pc, rank pc ≤ bound)
    (hrank : ∀ {pc s pc' s'}, P.next pc s = some (pc', s') → rank pc' < rank pc)
    (hnext : ∀ pc s, ¬stuck pc → P.ret pc = none → (P.next pc s).isSome = true) : P.Returns stuck bound ι := by
  intro store s i pc hpc
  constructor
  · intro hstuck
    simp only [step, hpc]
    cases hret : P.ret pc with
    | some r => rfl
    | none => simpa using hnext pc s.store hstuck hret
  · intro as s' hruns hturns
    obtain ⟨new, hnew, ⟨r, hr⟩ | ⟨pc', -, hle⟩⟩ := progress rank hrank hruns hpc
    · exact ⟨new, r, hnew, hr⟩
    · have hpcbound := hbound pc
      omega

end

/-! ### Calls that nothing interrupts -/

/-- Pieces of a call, one after the other. -/
def Whole (P : Pieces σ Pc K X) (x y : Pc × σ) : Prop :=
  Relation.ReflTransGen (fun x y => P.next x.1 x.2 = some y) x y

variable {P} [DecidableEq ι]

/-- One thread takes pieces of its call. -/
theorem runs_of_pieces (store : σ) (s : State ι σ Pc K X) (i : ι) {pc : Pc} {now : σ} {y : Pc × σ}
    (h : P.Whole (pc, now) y) :
    ∃ n, (P.system ι store).Runs System.Free ⟨now, Function.update s.threads i (some pc), s.events⟩
      (List.replicate n (i, .next)) ⟨y.2, Function.update s.threads i (some y.1), s.events⟩ := by
  induction h with
  | refl => exact ⟨0, .refl⟩
  | @tail y z _ hnext ih =>
    obtain ⟨n, hruns⟩ := ih
    refine ⟨n + 1, ?_⟩
    rw [List.replicate_succ']
    refine hruns.step ?_ trivial
    have hret : P.ret y.1 = none := by
      by_contra hend
      obtain ⟨r, hr⟩ := Option.ne_none_iff_exists'.mp hend
      rw [P.next_ret hr] at hnext
      cases hnext
    simp only [system, step, Function.update_self, hret, hnext, Option.map_some, Function.update_idem]

/-- **A thread that nobody interrupts executes its call as a whole.** -/
theorem runs_of_whole (store : σ) (s : State ι σ Pc K X) {i : ι} (hidle : s.threads i = none) {c : K} {pc : Pc}
    {r : X} {store' : σ} (h : P.Whole (P.start c, s.store) (pc, store')) (hret : P.ret pc = some r) :
    ∃ n, (P.system ι store).Runs System.Free s ((i, .call c) :: List.replicate n (i, .next))
      { s with store := store', events := s.events ++ [.call i c, .ret i r] } := by
  obtain ⟨n, hruns⟩ := runs_of_pieces store { s with events := s.events ++ [.call i c] } i h
  refine ⟨n + 1, .cons (t := ⟨s.store, Function.update s.threads i (some (P.start c)), s.events ++ [.call i c]⟩) ?_
    trivial ?_⟩
  · simp only [system, step, hidle]
  · rw [List.replicate_succ']
    refine hruns.step ?_ trivial
    simp only [system, step, Function.update_self, hret, Function.update_idem, List.append_assoc]
    rw [← hidle, Function.update_eq_self]
    rfl

end Pieces

end LibCfe.Theory
