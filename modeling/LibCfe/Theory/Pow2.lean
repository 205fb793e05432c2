import Mathlib.Algebra.Group.Nat.Defs
import Mathlib.Data.Nat.Log
import Mathlib.Order.Bounds.Basic

/-!
# Powers of two

The least power of two that is not below `n`, and how leading zeros give its exponent.

## What is proved

* `pow_clog_isLeast` — `2 ^ Nat.clog 2 n` is the least power of two from `n` on.
* `pow_clog_idem`, `pow_clog_lt_two_mul` — rounding up twice is rounding up once, and
  it less than doubles.
* `clz_toNat_eq` — a word `n - 1` has `w - Nat.clog 2 n` leading zeros.
-/

namespace LibCfe.Theory

/-- A power of two. -/
def IsPow2 (m : ℕ) : Prop := ∃ k, m = 2 ^ k

/-- **The least power of two from `n` on.** -/
theorem pow_clog_isLeast (n : ℕ) : IsLeast {m | IsPow2 m ∧ n ≤ m} (2 ^ Nat.clog 2 n) := by
  constructor
  · exact ⟨⟨Nat.clog 2 n, rfl⟩, Nat.le_pow_clog (by omega) n⟩
  · rintro m ⟨⟨k, rfl⟩, hle⟩
    apply Nat.pow_le_pow_right (by omega)
    exact Nat.clog_le_of_le_pow hle

theorem pow_clog_mono {m n : ℕ} (h : m ≤ n) : 2 ^ Nat.clog 2 m ≤ 2 ^ Nat.clog 2 n :=
  Nat.pow_le_pow_right (by omega) (Nat.clog_mono_right 2 h)

/-- Rounding up twice is rounding up once. -/
theorem pow_clog_idem (n : ℕ) : 2 ^ Nat.clog 2 (2 ^ Nat.clog 2 n) = 2 ^ Nat.clog 2 n := by
  rw [Nat.clog_pow 2 _ (by omega)]

/-- The power of two before the one rounded up to is below `n`. -/
theorem pow_clog_lt_two_mul {n : ℕ} (hn : 1 ≤ n) : 2 ^ Nat.clog 2 n < 2 * n := by
  by_cases h : n = 1
  · subst h
    rw [Nat.clog_one_right]
    omega
  · have hpos : 0 < Nat.clog 2 n := Nat.clog_pos (by omega) (by omega)
    have hlt : 2 ^ (Nat.clog 2 n).pred < n := Nat.pow_pred_clog_lt_self (by omega) (by omega)
    have hsplit : 2 ^ Nat.clog 2 n = 2 ^ (Nat.clog 2 n).pred * 2 := by
      rw [← Nat.pow_succ, Nat.succ_pred_eq_of_pos hpos]
    omega

/-! ### Leading zeros -/

/-- The leading zeros of `n - 1` are what the exponent for `n` leaves of the width. -/
theorem clz_toNat_eq {w n : ℕ} {x : BitVec w} (hx : x ≠ 0) (hn : x.toNat + 1 = n) :
    x.clz.toNat + Nat.clog 2 n = w := by
  have hw : 0 < w := by
    rcases w with _ | w
    · exact absurd (Subsingleton.elim x 0) hx
    · omega
  have hlow := BitVec.two_pow_sub_clz_le_toNat_of_ne_zero hw hx
  have hhigh := BitVec.toNat_lt_two_pow_sub_clz (x := x)
  have hlt : x.clz.toNat < w := by
    have h := BitVec.lt_def.mp (BitVec.clz_lt_iff_ne_zero.mpr hx)
    simpa [Nat.mod_eq_of_lt (Nat.lt_two_pow_self (n := w))] using h
  have hclog : Nat.clog 2 n = w - x.clz.toNat := by
    apply le_antisymm
    · exact Nat.clog_le_of_le_pow (by omega)
    · have hpred : w - 1 - x.clz.toNat < Nat.clog 2 n := by
        rw [Nat.lt_clog_iff_pow_lt (by omega)]
        omega
      omega
  omega

end LibCfe.Theory
