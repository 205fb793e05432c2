import Mathlib.Data.Nat.Bitwise
import Mathlib.Order.Bounds.Basic

/-!
# Rounding up

The least multiple of `a` that is not below `n`, and the usual way to compute it in
machine words when `a` is a power of two: add `a - 1` and clear the low bits.

## What is proved

* `roundUp_isLeast` — `roundUp a n` is the least multiple of `a` from `n` on.
* `roundUp_max_isLeast` — and `roundUp a (max n 1)` the least of those that are not `0`.
* `toNat_and_not_mask` — clearing the low `k` bits of a word rounds it down.
* `toNat_add_and_not_mask` — so the computation in words gives `roundUp`, when the
  sum does not overflow.
-/

namespace LibCfe.Theory

/-- The least multiple of `a` that is at least `n`. -/
def roundUp (a n : ℕ) : ℕ := (n + (a - 1)) / a * a

theorem dvd_roundUp (a n : ℕ) : a ∣ roundUp a n := Dvd.intro_left _ rfl

theorem le_roundUp {a : ℕ} (ha : 0 < a) (n : ℕ) : n ≤ roundUp a n := by
  have hmod := Nat.mod_add_div (n + (a - 1)) a
  have hlt := Nat.mod_lt (n + (a - 1)) ha
  rw [Nat.mul_comm] at hmod
  unfold roundUp
  omega

theorem roundUp_le {a n m : ℕ} (ha : 0 < a) (hdvd : a ∣ m) (h : n ≤ m) : roundUp a n ≤ m := by
  obtain ⟨c, rfl⟩ := hdvd
  have hdiv : (n + (a - 1)) / a ≤ c := by
    rw [Nat.div_le_iff_le_mul_add_pred ha]
    omega
  rw [Nat.mul_comm a c]
  exact Nat.mul_le_mul_right a hdiv

/-- **`roundUp` is the least multiple from `n` on.** -/
theorem roundUp_isLeast {a : ℕ} (ha : 0 < a) (n : ℕ) : IsLeast {m | a ∣ m ∧ n ≤ m} (roundUp a n) := by
  constructor
  · exact ⟨dvd_roundUp a n, le_roundUp ha n⟩
  · intro m hm
    exact roundUp_le ha hm.1 hm.2

/-- The least multiple of all that is not `0`. -/
theorem roundUp_max_isLeast {a : ℕ} (ha : 0 < a) (n : ℕ) :
    IsLeast {m | 0 < m ∧ a ∣ m ∧ n ≤ m} (roundUp a (max n 1)) := by
  obtain ⟨⟨hdvd, hle⟩, hleast⟩ := roundUp_isLeast ha (max n 1)
  constructor
  · exact ⟨by omega, hdvd, by omega⟩
  · intro m hm
    exact hleast ⟨hm.2.1, by have := hm.1; have := hm.2.2; omega⟩

/-! ### In machine words -/

theorem toNat_mask {w k : ℕ} (hk : k < w) : (BitVec.ofNat w (2 ^ k) - 1).toNat = 2 ^ k - 1 := by
  have hlt : 2 ^ k < 2 ^ w := Nat.pow_lt_pow_right (by omega) hk
  have hpos : 0 < 2 ^ k := Nat.two_pow_pos k
  have hone : (1 : BitVec w).toNat = 1 := by
    show 1 % 2 ^ w = 1
    exact Nat.mod_eq_of_lt (by omega)
  rw [BitVec.toNat_sub, BitVec.toNat_ofNat, Nat.mod_eq_of_lt hlt, hone, Nat.add_comm,
    ← Nat.add_sub_assoc (by omega), Nat.add_comm, Nat.add_sub_assoc hpos, Nat.add_mod_left,
    Nat.mod_eq_of_lt (by omega)]

/-- Clearing the low `k` bits of a word rounds it down. -/
theorem toNat_and_not_mask {w k : ℕ} (hk : k < w) (x : BitVec w) :
    (x &&& ~~~(BitVec.ofNat w (2 ^ k) - 1)).toNat = x.toNat / 2 ^ k * 2 ^ k := by
  have hlt : 2 ^ k < 2 ^ w := Nat.pow_lt_pow_right (by omega) hk
  have hpos : 0 < 2 ^ k := Nat.two_pow_pos k
  apply Nat.eq_of_testBit_eq
  intro i
  rw [BitVec.toNat_and, BitVec.toNat_not, toNat_mask hk, Nat.testBit_and, Nat.sub_sub, Nat.add_comm 1,
    Nat.testBit_two_pow_sub_succ (by omega), Nat.testBit_two_pow_sub_one, Nat.testBit_mul_two_pow,
    Nat.testBit_div_two_pow]
  by_cases hki : k ≤ i
  · rw [Nat.sub_add_cancel hki]
    by_cases hw : i < w
    · simp [hki, hw, Nat.not_lt.mpr hki]
    · have hhigh : x.toNat.testBit i = false :=
        Nat.testBit_lt_two_pow (lt_of_lt_of_le x.isLt (Nat.pow_le_pow_right (by omega) (by omega)))
      simp [hhigh]
  · simp [hki, Nat.lt_of_not_le hki]

/-- Adding the mask before that rounds up. -/
theorem toNat_add_and_not_mask {w k : ℕ} (hk : k < w) {x : BitVec w} (hx : x.toNat + (2 ^ k - 1) < 2 ^ w) :
    ((x + (BitVec.ofNat w (2 ^ k) - 1)) &&& ~~~(BitVec.ofNat w (2 ^ k) - 1)).toNat =
      roundUp (2 ^ k) x.toNat := by
  rw [toNat_and_not_mask hk, BitVec.toNat_add, toNat_mask hk, Nat.mod_eq_of_lt hx]
  rfl

end LibCfe.Theory
