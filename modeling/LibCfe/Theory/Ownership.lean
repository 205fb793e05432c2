import Mathlib.Algebra.BigOperators.Group.Finset.Basic
import Mathlib.Data.Fintype.Defs

/-!
# What threads own

Finitely many threads each own a part of something that adds up: memory, say, or
references. `owns t m` says that a thread in the state `t` may own `m`, and
`SumOwned` that the total is the sum of what the threads own. A thread's step is
proved to keep this without looking at the other threads: whatever the rest is, the
step turns the thread's own part and the rest into a new part and the same rest.

## What is proved

* `SumOwned.step` — such a step keeps the total accounted for.
* `SumOwned.eq_zero` — nothing is in use when no thread can own anything.
-/

namespace LibCfe.Theory

variable {ι τ M : Type*} [Fintype ι] [AddCommMonoid M]

/-- The total is the sum of what the threads own. -/
def SumOwned (owns : τ → M → Prop) (threads : ι → τ) (total : M) : Prop :=
  ∃ own : ι → M, (∀ i, owns (threads i) (own i)) ∧ total = ∑ i, own i

variable {owns : τ → M → Prop} {threads : ι → τ} {total : M}

/-- Threads that own nothing. -/
theorem SumOwned.zero (h : ∀ i, owns (threads i) 0) : SumOwned owns threads 0 :=
  ⟨fun _ => 0, h, by simp⟩

/-- A thread's part, and the rest, to which the part of another state of the thread may be
added. -/
theorem SumOwned.split [DecidableEq ι] (h : SumOwned owns threads total) (i : ι) :
    ∃ m rest, owns (threads i) m ∧ total = m + rest ∧
      ∀ t' m', owns t' m' → SumOwned owns (Function.update threads i t') (m' + rest) := by
  obtain ⟨own, hown, htotal⟩ := h
  refine ⟨own i, ∑ j ∈ Finset.univ.erase i, own j, hown i, ?_, ?_⟩
  · rw [htotal, Finset.add_sum_erase _ _ (Finset.mem_univ i)]
  · intro t' m' hm'
    refine ⟨Function.update own i m', ?_, ?_⟩
    · intro j
      by_cases hj : j = i
      · subst hj
        simpa using hm'
      · simpa [hj] using hown j
    · have hrest : ∑ j ∈ Finset.univ.erase i, Function.update own i m' j = ∑ j ∈ Finset.univ.erase i, own j := by
        apply Finset.sum_congr rfl
        intro j hj
        rw [Function.update_of_ne (Finset.ne_of_mem_erase hj)]
      rw [← Finset.add_sum_erase _ _ (Finset.mem_univ i), Function.update_self, hrest]

/-- **A step of one thread that works whatever the others own.** -/
theorem SumOwned.step [DecidableEq ι] (h : SumOwned owns threads total) {i : ι} {t' : τ} {total' : M}
    (hlocal : ∀ m rest, owns (threads i) m → total = m + rest → ∃ m', owns t' m' ∧ total' = m' + rest) :
    SumOwned owns (Function.update threads i t') total' := by
  obtain ⟨m, rest, hm, htotal, hset⟩ := h.split i
  obtain ⟨m', hm', htotal'⟩ := hlocal m rest hm htotal
  rw [htotal']
  exact hset t' m' hm'

/-- Threads that can only own nothing. -/
theorem SumOwned.eq_zero (h : SumOwned owns threads total) (hz : ∀ i m, owns (threads i) m → m = 0) : total = 0 := by
  obtain ⟨own, hown, rfl⟩ := h
  exact Finset.sum_eq_zero fun i _ => hz i _ (hown i)

end LibCfe.Theory
