import Mathlib.Data.Finset.Basic

/-!
# Read-write locks

A read-write lock is held by any number of readers, or by one writer. It is free when it
has no readers. `rdlock` and `wrlock` have no result while a thread has to wait.

## What is proved

`Agrees.alone` — of the threads that are in a locked section, as the lock has it: a writer is
there alone. The other lemmas keep `Agrees` as threads enter, go on and leave.
-/

namespace LibCfe.Theory

/-- A read-write lock, and which threads hold it. -/
inductive RwLock (ι : Type*) where
  /-- Held by these readers. -/
  | reading (readers : Finset ι)
  /-- Held by a writer. -/
  | writing (i : ι)

namespace RwLock

variable {ι : Type*}

/-- Nobody holds it. -/
def free : RwLock ι := .reading ∅

/-- A thread holds it. -/
def Holds (i : ι) : RwLock ι → Prop
  | .reading readers => i ∈ readers
  | .writing j => i = j

section

variable [DecidableEq ι]

/-- It is locked for reading, unless there is a writer. -/
def rdlock (i : ι) : RwLock ι → Option (RwLock ι)
  | .reading readers => some (.reading (insert i readers))
  | .writing _ => none

/-- It is locked for writing, unless somebody holds it. -/
def wrlock (i : ι) : RwLock ι → Option (RwLock ι)
  | .reading readers => if readers = ∅ then some (.writing i) else none
  | .writing _ => none

/-- It is given back. -/
def unlock (i : ι) : RwLock ι → RwLock ι
  | .reading readers => .reading (readers.erase i)
  | .writing j => if i = j then free else .writing j

end

/-! ### Locked sections -/

/-- The threads in a locked section hold the lock, and those that write hold it as the writer. What a
thread does there is `some` value, and `writes` says of which it needs to be the writer. -/
structure Agrees {γ : Type*} (writes : γ → Prop) (lock : RwLock ι) (sections : ι → Option γ) : Prop where
  holds : ∀ i, lock.Holds i ↔ sections i ≠ none
  writer : ∀ i sec, sections i = some sec → writes sec → lock = .writing i

namespace Agrees

variable {γ : Type*} {writes : γ → Prop} {lock lock' : RwLock ι} {sections : ι → Option γ} {i j : ι} {sec sec' : γ}

/-- Nobody is in a section. -/
theorem free : Agrees writes (RwLock.free : RwLock ι) fun _ => none := by
  refine ⟨?_, ?_⟩
  · intro i
    simp [RwLock.free, Holds]
  · intro i sec hsec
    cases hsec

/-- **A writer is alone.** -/
theorem alone (h : Agrees writes lock sections) (hi : sections i = some sec) (hwrites : writes sec)
    (hj : j ≠ i) : sections j = none := by
  by_contra hsec
  have hholds := (h.holds j).mpr hsec
  rw [h.writer i sec hi hwrites] at hholds
  exact hj hholds

variable [DecidableEq ι]

/-- A thread goes on, and does not write unless it is the writer. -/
theorem goto (h : Agrees writes lock sections) (hi : sections i = some sec)
    (hwrites : writes sec' → lock = .writing i) : Agrees writes lock (Function.update sections i (some sec')) := by
  refine ⟨?_, ?_⟩
  · intro j
    rw [h.holds j]
    by_cases hj : j = i
    · subst hj
      simp [hi]
    · simp [hj]
  · intro j sec₁ hsec hw
    by_cases hj : j = i
    · subst hj
      simp only [Function.update_self, Option.some.injEq] at hsec
      exact hwrites (hsec ▸ hw)
    · simp only [Function.update_of_ne hj] at hsec
      exact h.writer j sec₁ hsec hw

/-- A thread begins to read. -/
theorem rdlock (h : Agrees writes lock sections) (hi : sections i = none) (hlock : lock.rdlock i = some lock')
    (hreads : ¬writes sec) : Agrees writes lock' (Function.update sections i (some sec)) := by
  cases lock with
  | writing j => cases hlock
  | reading readers =>
    cases hlock
    refine ⟨?_, ?_⟩
    · intro j
      have hholds := h.holds j
      simp only [Holds] at hholds ⊢
      by_cases hj : j = i
      · subst hj
        simp
      · simp [hj, hholds]
    · intro j sec₁ hsec hw
      by_cases hj : j = i
      · subst hj
        simp only [Function.update_self, Option.some.injEq] at hsec
        exact absurd (hsec ▸ hw) hreads
      · simp only [Function.update_of_ne hj] at hsec
        cases h.writer j sec₁ hsec hw

omit [DecidableEq ι] in
/-- When the lock is free nobody is in a section. -/
theorem none_of_free (h : Agrees writes (RwLock.free : RwLock ι) sections) (j : ι) : sections j = none := by
  by_contra hsec
  have hholds := (h.holds j).mpr hsec
  simp [RwLock.free, Holds] at hholds

/-- A thread begins to write. -/
theorem wrlock (h : Agrees writes lock sections) (hlock : lock.wrlock i = some lock') :
    (∀ j, sections j = none) ∧ Agrees writes lock' (Function.update sections i (some sec)) := by
  cases lock with
  | writing j => cases hlock
  | reading readers =>
    simp only [RwLock.wrlock, Option.ite_none_right_eq_some, Option.some.injEq] at hlock
    obtain ⟨rfl, rfl⟩ := hlock
    have hnone := h.none_of_free
    refine ⟨hnone, ?_, ?_⟩
    · intro j
      by_cases hj : j = i
      · subst hj
        simp [Holds]
      · simp [Holds, hj, hnone]
    · intro j sec₁ hsec _
      by_cases hj : j = i
      · rw [hj]
      · simp [hj, hnone] at hsec

/-- A thread leaves. -/
theorem unlock (h : Agrees writes lock sections) (hi : sections i = some sec) :
    Agrees writes (lock.unlock i) (Function.update sections i none) := by
  cases lock with
  | reading readers =>
    refine ⟨?_, ?_⟩
    · intro j
      have hholds := h.holds j
      simp only [Holds, RwLock.unlock] at hholds ⊢
      by_cases hj : j = i
      · subst hj
        simp
      · simp [hj, hholds]
    · intro j sec₁ hsec hw
      by_cases hj : j = i
      · subst hj
        simp at hsec
      · simp only [Function.update_of_ne hj] at hsec
        cases h.writer j sec₁ hsec hw
  | writing j =>
    -- the writer, who is alone
    have hij : i = j := (h.holds i).mpr (by rw [hi]; simp)
    subst hij
    have hnone : Function.update sections i none = fun _ => none := by
      funext j
      by_cases hj : j = i
      · simp [hj]
      · by_contra hsec
        simp only [Function.update_of_ne hj] at hsec
        exact hj ((h.holds j).mpr hsec)
    have hfree : (RwLock.writing i).unlock i = RwLock.free := if_pos rfl
    rw [hnone, hfree]
    exact .free

end Agrees

end RwLock

end LibCfe.Theory
