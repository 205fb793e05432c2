import Mathlib.Algebra.Group.Nat.Defs
import Mathlib.Tactic.SplitIfs

/-!
# Atomic counters

`include/cfe/atomic.h`. A `cfe_atomic_t` is a `long` that is only accessed by the
sequentially consistent `__atomic` builtins, so each function is one step on its
value. The counter has 64 bits and wraps around; `cfe_atomic_set` takes an `int`
and `cfe_atomic_get` returns one, so a value is sign-extended on its way in and
loses its upper half on its way out.
-/

namespace LibCfe

/-- `cfe_atomic_t`. -/
@[ext]
structure CfeAtomic where
  /-- The `long`. -/
  counter : BitVec 64
  deriving DecidableEq

/-- What the store of `cfe_atomic_set` leaves in the counter. -/
def cfeAtomicSet (val : BitVec 32) : CfeAtomic := ⟨val.signExtend 64⟩

/-- `cfe_atomic_get`: the `long` converted to `int`. -/
def cfeAtomicGet (v : CfeAtomic) : BitVec 32 := v.counter.setWidth 32

/-- `cfe_atomic_add`. -/
def cfeAtomicAdd (v : CfeAtomic) (count : BitVec 32) : CfeAtomic := ⟨v.counter + count.signExtend 64⟩

/-- `cfe_atomic_sub`. -/
def cfeAtomicSub (v : CfeAtomic) (count : BitVec 32) : CfeAtomic := ⟨v.counter - count.signExtend 64⟩

/-- `cfe_atomic_inc`. -/
def cfeAtomicInc (v : CfeAtomic) : CfeAtomic := cfeAtomicAdd v 1

/-- `cfe_atomic_dec`. -/
def cfeAtomicDec (v : CfeAtomic) : CfeAtomic := cfeAtomicSub v 1

/-- `cfe_atomic_sub_and_test`: whether the counter is `0` after the subtraction,
and the counter. -/
def cfeAtomicSubAndTest (v : CfeAtomic) (count : BitVec 32) : Bool × CfeAtomic :=
  ((cfeAtomicSub v count).counter == 0, cfeAtomicSub v count)

/-- The value of a counter that never went below `0` or above the range of `long`. -/
def CfeAtomic.val (v : CfeAtomic) : ℕ := v.counter.toNat

@[simp] theorem val_cfeAtomicSet_one : (cfeAtomicSet 1#32).val = 1 := rfl

theorem signExtend_one : (1 : BitVec 32).signExtend 64 = 1 := by decide

theorem val_cfeAtomicInc {v : CfeAtomic} (h : v.val < 2 ^ 63) : (cfeAtomicInc v).val = v.val + 1 := by
  simp only [CfeAtomic.val, cfeAtomicInc, cfeAtomicAdd, signExtend_one] at h ⊢
  rw [BitVec.toNat_add]
  have : (1 : BitVec 64).toNat = 1 := rfl
  omega

theorem val_cfeAtomicDec {v : CfeAtomic} (h : 0 < v.val) : (cfeAtomicDec v).val = v.val - 1 := by
  have hlt := v.counter.isLt
  simp only [CfeAtomic.val, cfeAtomicDec, cfeAtomicSub, signExtend_one] at h ⊢
  rw [BitVec.toNat_sub]
  have : (1 : BitVec 64).toNat = 1 := rfl
  omega

/-- Taking a reference and dropping it again leaves the counter as it was, at every value. -/
@[simp] theorem cfeAtomicDec_inc (v : CfeAtomic) : cfeAtomicDec (cfeAtomicInc v) = v := by
  ext1
  exact BitVec.add_sub_cancel _ _

/-- A count that is not negative is subtracted as it is. -/
theorem val_cfeAtomicSub {v : CfeAtomic} {count : BitVec 32} (hc : count.toNat < 2 ^ 31)
    (h : count.toNat ≤ v.val) : (cfeAtomicSub v count).val = v.val - count.toNat := by
  have hlt := v.counter.isLt
  have hmsb : count.msb = false := by rw [BitVec.msb_eq_false_iff_two_mul_lt]; omega
  have hext : (count.signExtend 64).toNat = count.toNat := by
    rw [BitVec.signExtend_eq_setWidth_of_msb_false hmsb, BitVec.toNat_setWidth]
    omega
  simp only [CfeAtomic.val, cfeAtomicSub] at h ⊢
  rw [BitVec.toNat_sub, hext]
  omega

/-- The test of `cfe_atomic_sub_and_test` succeeds when all of the counter is subtracted. -/
theorem cfeAtomicSubAndTest_fst {v : CfeAtomic} {count : BitVec 32} (hc : count.toNat < 2 ^ 31)
    (h : count.toNat ≤ v.val) : (cfeAtomicSubAndTest v count).1 = decide (v.val = count.toNat) := by
  have hval := val_cfeAtomicSub hc h
  have hzero : (cfeAtomicSub v count).counter = 0 ↔ (cfeAtomicSub v count).val = 0 := by
    rw [CfeAtomic.val, ← BitVec.toNat_inj]; rfl
  rw [Bool.eq_iff_iff, decide_eq_true_iff]
  simp only [cfeAtomicSubAndTest, beq_iff_eq, hzero, hval]
  omega

/-- Within the range of `int`, what `cfe_atomic_get` returns is the counter. -/
theorem cfeAtomicGet_eq_one_iff {v : CfeAtomic} (h : v.val < 2 ^ 31) : cfeAtomicGet v = 1 ↔ v.val = 1 := by
  have h1 : (1 : BitVec 32).toNat = 1 := rfl
  simp only [CfeAtomic.val, cfeAtomicGet] at h ⊢
  rw [← BitVec.toNat_inj, BitVec.toNat_setWidth, h1]
  omega

end LibCfe
