import LibCfe.Cfe.Atomic
import LibCfe.Theory.Transition
import Mathlib.Data.Multiset.AddSub
import Mathlib.Data.Multiset.Replicate

/-!
# Reference counting

`include/cfe/ref.h`: a `struct cfe_ref` counts the holders of an object, and
`cfe_ref_sub` calls the object's `release` when the last reference is given up.

## The model

Any number of threads hold references; `held` has one entry for each reference
held, naming the thread that holds it. The steps are the atomic accesses to the
counter, and, separately from the decrement that leads to it, the call of
`release`: between the two other threads may run. A holder may take another
reference, give up any number of the references it holds, or hand one to another
thread, which does not touch the counter. `returned` records every `put` and
`sub` that has returned: whether it gave up the last reference, whether it called
`release`, and what it returned.

## What is proved

`ref_released_once` — the counter is the number of references held, and
`release` is called exactly once, by the call that gives up the last of them.
-/

namespace LibCfe

open Theory

/-- `struct cfe_ref`. -/
structure CfeRef where
  /-- `refcount`. -/
  refcount : CfeAtomic

/-- `cfe_ref_init`. -/
def cfeRefInit : CfeRef := ⟨cfeAtomicSet 1⟩

/-- `cfe_ref_get`. -/
def cfeRefGet (ref : CfeRef) : CfeRef := ⟨cfeAtomicInc ref.refcount⟩

/-- `cfe_ref_sub` up to its test: whether it goes on to call `release` and return
`1`; otherwise it returns `0`. -/
def cfeRefSub (ref : CfeRef) (count : BitVec 32) : Bool × CfeRef :=
  ((cfeAtomicSubAndTest ref.refcount count).1, ⟨(cfeAtomicSubAndTest ref.refcount count).2⟩)

/-- `cfe_ref_put` up to the same test. -/
def cfeRefPut (ref : CfeRef) : Bool × CfeRef := cfeRefSub ref 1

/-! ### Threads that share an object -/

variable {Tid : Type} [DecidableEq Tid]

/-- A `put` or `sub` that has returned. -/
structure RefCall (Tid : Type) where
  /-- The caller. -/
  tid : Tid
  /-- It gave up the last reference. -/
  last : Bool
  /-- It called `release`. -/
  released : Bool
  /-- What it returned. -/
  ret : ℤ

/-- The counter, and what the threads hold and do. -/
structure RefState (Tid : Type) where
  /-- The object's counter. -/
  ref : CfeRef
  /-- The holder of each reference. -/
  held : Multiset Tid
  /-- The threads about to call `release`, and whether they gave up the last reference. -/
  releasing : Multiset (Tid × Bool)
  /-- How often `release` has been called. -/
  released : ℕ
  /-- The calls that have returned. -/
  returned : List (RefCall Tid)

/-- What a thread can do. -/
inductive RefAction (Tid : Type) where
  /-- `cfe_ref_get`, by a holder. -/
  | get (i : Tid)
  /-- The decrement and test of `cfe_ref_sub`. -/
  | sub (i : Tid) (count : BitVec 32)
  /-- The decrement and test of `cfe_ref_put`. -/
  | put (i : Tid)
  /-- The call of `release` after a test that succeeded, and the return. -/
  | release (i : Tid) (last : Bool)
  /-- A holder hands a reference to another thread. -/
  | handOver (i j : Tid)

/-- Thread `i` gives up `count` of its references; `res` is the outcome of the
decrement and test. -/
def RefState.giveUp (s : RefState Tid) (i : Tid) (count : ℕ) (res : Bool × CfeRef) : RefState Tid :=
  let held := s.held - Multiset.replicate count i
  if res.1 then { s with ref := res.2, held, releasing := (i, decide (held = 0)) ::ₘ s.releasing }
  else { s with ref := res.2, held, returned := ⟨i, decide (held = 0), false, 0⟩ :: s.returned }

/-- One step. Nobody gives up more references than it holds, or fewer than one. -/
def refStep (s : RefState Tid) : RefAction Tid → Option (RefState Tid)
  | .get i => if i ∈ s.held then some { s with ref := cfeRefGet s.ref, held := i ::ₘ s.held } else none
  | .sub i count =>
      if 1 ≤ count.toInt ∧ count.toNat ≤ s.held.count i
      then some (s.giveUp i count.toNat (cfeRefSub s.ref count)) else none
  | .put i => if i ∈ s.held then some (s.giveUp i 1 (cfeRefPut s.ref)) else none
  | .release i last =>
      if (i, last) ∈ s.releasing
      then some { s with releasing := s.releasing.erase (i, last), released := s.released + 1,
                         returned := ⟨i, last, true, 1⟩ :: s.returned }
      else none
  | .handOver i j => if i ∈ s.held then some { s with held := j ::ₘ s.held.erase i } else none

/-- The object starts with one holder. -/
def refSystem (holder : Tid) : System (RefState Tid) (RefAction Tid) where
  init := ⟨cfeRefInit, {holder}, 0, 0, []⟩
  step := refStep

/-- The number of references stays in the range of `long`. -/
def InLong (_ : RefState Tid) (_ : RefAction Tid) (t : RefState Tid) : Prop := Multiset.card t.held < 2 ^ 63

instance (s : RefState Tid) (a : RefAction Tid) (t : RefState Tid) : Decidable (InLong s a t) :=
  inferInstanceAs (Decidable (_ < _))

/-- What ties the counter, the holders, and the calls of `release` together. -/
structure RefInv (s : RefState Tid) : Prop where
  counter : s.ref.refcount.val = Multiset.card s.held
  range : Multiset.card s.held < 2 ^ 63
  /-- Only the call that gives up the last reference is about to release, or has released. -/
  once : Multiset.card s.releasing + s.released = if s.held = 0 then 1 else 0
  due : ∀ p ∈ s.releasing, p.2 = true
  calls : ∀ c ∈ s.returned, c.released = c.last ∧ c.ret = if c.last then 1 else 0
  count : (s.returned.filter (·.last)).length = s.released

theorem refInv_init (holder : Tid) : RefInv (refSystem holder).init := by
  refine ⟨rfl, ?_, ?_, ?_, ?_, rfl⟩ <;> simp [refSystem]

/-- Giving up at least one reference, with the counter at the number of references. -/
theorem RefInv.giveUp {s : RefState Tid} (h : RefInv s) {i : Tid} {count : BitVec 32}
    (h1 : 0 < count.toNat) (h2 : count.toNat < 2 ^ 31) (hc : count.toNat ≤ s.held.count i) :
    RefInv (s.giveUp i count.toNat (cfeRefSub s.ref count)) := by
  have hle : Multiset.replicate count.toNat i ≤ s.held := Multiset.le_count_iff_replicate_le.mp hc
  have hcard : Multiset.card (s.held - Multiset.replicate count.toNat i)
      = Multiset.card s.held - count.toNat := by
    rw [Multiset.card_sub hle, Multiset.card_replicate]
  have hcount : count.toNat ≤ s.ref.refcount.val := by
    rw [h.counter, ← Multiset.card_replicate count.toNat i]
    exact Multiset.card_le_card hle
  have hval := val_cfeAtomicSub h2 hcount
  have hheld : s.held ≠ 0 := by
    intro h0
    rw [h0, Multiset.count_zero] at hc
    omega
  -- the test succeeds exactly when no reference is left
  have htest : (cfeRefSub s.ref count).1 = decide (s.held - Multiset.replicate count.toNat i = 0) := by
    unfold cfeRefSub
    rw [cfeAtomicSubAndTest_fst h2 hcount, h.counter]
    congr 1
    rw [← Multiset.card_eq_zero, hcard]
    have := h.counter ▸ hcount
    exact propext ⟨fun h => by omega, fun h => by omega⟩
  have honce := h.once
  rw [if_neg hheld] at honce
  unfold RefState.giveUp
  rw [htest]
  by_cases hlast : s.held - Multiset.replicate count.toNat i = 0
  · -- the last reference: this thread is about to release
    simp only [hlast, decide_true, if_true]
    refine ⟨?_, by simp, ?_, ?_, h.calls, h.count⟩
    · rw [Multiset.card_zero, ← Multiset.card_eq_zero.mpr hlast, hcard, ← h.counter]
      exact hval
    · simp only [Multiset.card_cons, if_true]
      omega
    · intro p hp
      rcases Multiset.mem_cons.mp hp with rfl | hp
      · rfl
      · exact h.due p hp
  · simp only [hlast, decide_false, Bool.false_eq_true, if_false]
    refine ⟨?_, ?_, ?_, h.due, ?_, ?_⟩
    · rw [hcard, ← h.counter]
      exact hval
    · rw [hcard]
      have := h.range
      omega
    · rw [if_neg hlast]
      exact honce
    · intro c hc
      rcases List.mem_cons.mp hc with rfl | hc
      · exact ⟨rfl, rfl⟩
      · exact h.calls c hc
    · simpa using h.count

theorem RefInv.get {s : RefState Tid} (h : RefInv s) {i : Tid} (hi : i ∈ s.held)
    (hr : Multiset.card (i ::ₘ s.held) < 2 ^ 63) :
    RefInv { s with ref := cfeRefGet s.ref, held := i ::ₘ s.held } := by
  have hne : s.held ≠ 0 := by rintro h0; rw [h0] at hi; exact Multiset.notMem_zero i hi
  have honce := h.once
  rw [if_neg hne] at honce
  refine ⟨?_, hr, ?_, h.due, h.calls, h.count⟩
  · rw [Multiset.card_cons, ← h.counter]
    exact val_cfeAtomicInc (by rw [h.counter]; exact h.range)
  · rw [if_neg (Multiset.cons_ne_zero)]
    exact honce

theorem RefInv.release {s : RefState Tid} (h : RefInv s) {i : Tid} {last : Bool}
    (hi : (i, last) ∈ s.releasing) :
    RefInv { s with releasing := s.releasing.erase (i, last), released := s.released + 1,
                    returned := ⟨i, last, true, 1⟩ :: s.returned } := by
  obtain rfl : last = true := h.due _ hi
  have hcard := Multiset.card_erase_add_one hi
  have honce := h.once
  refine ⟨h.counter, h.range, ?_, fun p hp => h.due p (Multiset.mem_of_mem_erase hp), ?_, ?_⟩
  · simp only at honce ⊢
    omega
  · intro c hc
    rcases List.mem_cons.mp hc with rfl | hc
    · exact ⟨rfl, rfl⟩
    · exact h.calls c hc
  · simpa using h.count

theorem RefInv.handOver {s : RefState Tid} (h : RefInv s) {i j : Tid} (hi : i ∈ s.held) :
    RefInv { s with held := j ::ₘ s.held.erase i } := by
  have hcard : Multiset.card (j ::ₘ s.held.erase i) = Multiset.card s.held := by
    rw [Multiset.card_cons, Multiset.card_erase_add_one hi]
  have hne : s.held ≠ 0 := by rintro h0; rw [h0] at hi; exact Multiset.notMem_zero i hi
  have honce := h.once
  rw [if_neg hne] at honce
  refine ⟨by rw [hcard]; exact h.counter, by rw [hcard]; exact h.range, ?_, h.due, h.calls, h.count⟩
  rw [if_neg (Multiset.cons_ne_zero)]
  exact honce

/-- Every step keeps the invariant. -/
theorem RefInv.step {s t : RefState Tid} {a : RefAction Tid} (h : RefInv s) (hst : refStep s a = some t)
    (hr : InLong s a t) : RefInv t := by
  cases a with
  | get i =>
    simp only [refStep, Option.ite_none_right_eq_some, Option.some.injEq] at hst
    obtain ⟨hi, rfl⟩ := hst
    exact h.get hi hr
  | sub i count =>
    simp only [refStep, Option.ite_none_right_eq_some, Option.some.injEq] at hst
    obtain ⟨⟨h1, hc⟩, rfl⟩ := hst
    -- an `int` that is at least `1` is its own value
    have hlt := count.isLt
    rw [BitVec.toInt_eq_toNat_cond] at h1
    split_ifs at h1 <;> exact h.giveUp (by omega) (by omega) hc
  | put i =>
    simp only [refStep, Option.ite_none_right_eq_some, Option.some.injEq] at hst
    obtain ⟨hi, rfl⟩ := hst
    have hone : 0 < (1 : BitVec 32).toNat := by decide
    exact h.giveUp hone (by decide) (Multiset.count_pos.mpr hi)
  | release i last =>
    simp only [refStep, Option.ite_none_right_eq_some, Option.some.injEq] at hst
    obtain ⟨hi, rfl⟩ := hst
    exact h.release hi
  | handOver i j =>
    simp only [refStep, Option.ite_none_right_eq_some, Option.some.injEq] at hst
    obtain ⟨hi, rfl⟩ := hst
    exact h.handOver hi

theorem RefInv.of_reachable {holder : Tid} {s : RefState Tid}
    (h : (refSystem holder).Reachable InLong s) : RefInv s := by
  apply h.invariant
  · exact refInv_init holder
  · intro t a u ih hst hr
    exact ih.step hst hr

/-- **A reference is released exactly once, by its last holder.** In every state
that threads reach from one holder: the counter is the number of references held;
`release` has not been called, and nobody is about to call it, while a reference
is held; a call that has returned called `release` and returned `1` if it gave up
the last reference, and returned `0` without calling it otherwise; at most one
call, returned or still running, gave up the last reference; and once all
references are given up and all calls have returned, `release` has been called
once. -/
theorem ref_released_once {holder : Tid} {s : RefState Tid}
    (h : (refSystem holder).Reachable InLong s) :
    s.ref.refcount.val = Multiset.card s.held ∧
    (s.held ≠ 0 → s.released = 0 ∧ s.releasing = 0) ∧
    (∀ c ∈ s.returned, (c.last = true → c.released = true ∧ c.ret = 1) ∧
      (c.last = false → c.released = false ∧ c.ret = 0)) ∧
    (∀ p ∈ s.releasing, p.2 = true) ∧
    (s.returned.filter (·.last)).length + Multiset.card s.releasing = (if s.held = 0 then 1 else 0) ∧
    (s.held = 0 → s.releasing = 0 → s.released = 1) := by
  have hinv := RefInv.of_reachable h
  have honce := hinv.once
  refine ⟨hinv.counter, ?_, ?_, hinv.due, ?_, ?_⟩
  · intro hne
    rw [if_neg hne] at honce
    exact ⟨by omega, Multiset.card_eq_zero.mp (by omega)⟩
  · intro c hc
    obtain ⟨hrel, hret⟩ := hinv.calls c hc
    exact ⟨fun hl => ⟨hrel.trans hl, by rw [hret, hl]; rfl⟩, fun hl => ⟨hrel.trans hl, by rw [hret, hl]; rfl⟩⟩
  · rw [hinv.count, ← honce, Nat.add_comm]
  · intro h0 hrel
    rw [if_pos h0, hrel, Multiset.card_zero] at honce
    omega

/-- One thread takes a second reference and hands it over; both give theirs up. -/
theorem ref_released_once_handed_over :
    ∃ s : RefState Bool, (refSystem true).Reachable InLong s ∧ s.held = 0 ∧ s.released = 1 := by
  have h := System.reachable_of_exec (S := refSystem true) (C := InLong)
    [.get true, .handOver true false, .put true, .sub false 1, .release false true] (by decide)
  exact ⟨_, h, by decide, (ref_released_once h).2.2.2.2.2 (by decide) (by decide)⟩

end LibCfe
