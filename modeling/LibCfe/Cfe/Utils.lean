import LibCfe.Theory.Pow2
import Mathlib.Algebra.Group.Nat.Defs
import Mathlib.Algebra.Group.Int.Defs

/-!
# Rounding up to a power of two

`next_pow2_16`, `next_pow2_32` and `next_pow2_64` of `cfe/utils.h`. The three are one
text with the operand's width, the width in which C computes it, and the constant
from which the leading zeros are subtracted. C promotes an operand of 16 bits to an
`int`, so the first of them counts the leading zeros of 32 bits, and subtracts them
from 16 all the same.

## What is proved

* `nextPow2_eq` — with the width of the computation as the constant, the text is the
  least power of two from `num` on.
* `nextPow2_32_64_roundsUp` — so it is for the 32 and the 64 bit variant.
* `nextPow2_16_undefined` — the 16 bit variant shifts by a negative amount from 3 on.
* `nextPow2_agree_iff` — two widths agree just when the narrower is not 16 bits or
  `num` is at most 2.
-/

namespace LibCfe

open Theory

/-! ### The text -/

/-- `__builtin_clz` and `__builtin_clzll`: undefined for `0`. -/
def builtinClz {w : ℕ} (x : BitVec w) : Option ℤ := if x = 0 then none else some x.clz.toNat

/-- `1U << n` and `1ULL << n`: undefined unless `n` is from `0` on and below the width. -/
def oneShl (w : ℕ) (n : ℤ) : Option (BitVec w) :=
  if 0 ≤ n ∧ n < w then some (BitVec.ofNat w (2 ^ n.toNat)) else none

/-- The text of the three, for an operand of `w` bits that C computes with in `p` bits,
and the constant `c`. -/
def nextPow2 (w p : ℕ) (c : ℤ) (num : BitVec w) : Option (BitVec w) :=
  if num.toNat ≤ 2 then some num
  else (builtinClz (num.setWidth p - 1)).bind fun zeros => (oneShl p (c - zeros)).map (·.setWidth w)

/-- `next_pow2_16`: `num - 1` is an `int`, and so is what `__builtin_clz` counts in. -/
def nextPow2_16 : BitVec 16 → Option (BitVec 16) := nextPow2 16 32 16

/-- `next_pow2_32`. -/
def nextPow2_32 : BitVec 32 → Option (BitVec 32) := nextPow2 32 32 32

/-- `next_pow2_64`. -/
def nextPow2_64 : BitVec 64 → Option (BitVec 64) := nextPow2 64 64 64

/-! ### One run -/

/-- Promoting an operand and subtracting one loses nothing. -/
theorem toNat_setWidth_sub_one {w p : ℕ} (hwp : w ≤ p) (num : BitVec w) (hnum : 1 ≤ num.toNat) :
    (num.setWidth p - 1).toNat + 1 = num.toNat := by
  have hlt : num.toNat < 2 ^ p := lt_of_lt_of_le num.isLt (Nat.pow_le_pow_right (by omega) hwp)
  have hone : (1 : BitVec p).toNat = 1 := by
    show 1 % 2 ^ p = 1
    exact Nat.mod_eq_of_lt (by omega)
  have hwide : (num.setWidth p).toNat = num.toNat := by
    rw [BitVec.toNat_setWidth]
    exact Nat.mod_eq_of_lt hlt
  rw [BitVec.toNat_sub_of_le (by rw [BitVec.le_def, hone, hwide]; exact hnum), hone, hwide]
  omega

/-- Above 2 the text shifts by the exponent, less what the constant falls short of the width. -/
theorem nextPow2_of_lt {w p : ℕ} (hwp : w ≤ p) (c : ℤ) {num : BitVec w} (hnum : 2 < num.toNat) :
    nextPow2 w p c num = (oneShl p (c - p + Nat.clog 2 num.toNat)).map (·.setWidth w) := by
  have hval := toNat_setWidth_sub_one hwp num (by omega)
  have hne : num.setWidth p - 1 ≠ 0 := by
    intro h
    rw [h] at hval
    simp at hval
    omega
  have hclz := clz_toNat_eq hne hval
  rw [nextPow2, if_neg (by omega), builtinClz, if_neg hne]
  simp only [Option.bind_some]
  congr 2
  omega

/-- Where the exponent is below the width, `1 << n` is the power. -/
theorem oneShl_of_lt {w : ℕ} {n : ℕ} (h : n < w) : oneShl w n = some (BitVec.ofNat w (2 ^ n)) := by
  rw [oneShl, if_pos ⟨by omega, by omega⟩]
  rfl

/-- **With the right constant the text is the least power of two from `num` on.** -/
theorem nextPow2_eq {w p : ℕ} (hwp : w ≤ p) (num : BitVec w) (hnum : num.toNat ≤ 2 ^ (w - 1)) (hpos : 1 ≤ num.toNat) :
    ∃ r, nextPow2 w p p num = some r ∧ r.toNat = 2 ^ Nat.clog 2 num.toNat := by
  by_cases h2 : num.toNat ≤ 2
  · refine ⟨num, if_pos h2, ?_⟩
    rcases Nat.lt_or_ge num.toNat 2 with h | h
    · have hone : num.toNat = 1 := by omega
      rw [hone, Nat.clog_one_right, Nat.pow_zero]
    · have htwo : num.toNat = 2 := by omega
      rw [htwo, Nat.clog_eq_one (by omega) (by omega), Nat.pow_one]
  · have hw : 0 < w := by
      rcases w with _ | w
      · have := num.isLt
        omega
      · omega
    have hle : Nat.clog 2 num.toNat ≤ w - 1 := Nat.clog_le_of_le_pow hnum
    have hpow : 2 ^ Nat.clog 2 num.toNat < 2 ^ w := Nat.pow_lt_pow_right (by omega) (by omega)
    have hpow' : 2 ^ w ≤ 2 ^ p := Nat.pow_le_pow_right (by omega) hwp
    refine ⟨(BitVec.ofNat p (2 ^ Nat.clog 2 num.toNat)).setWidth w, ?_, ?_⟩
    · rw [nextPow2_of_lt hwp p (by omega), Int.sub_self, Int.zero_add, oneShl_of_lt (by omega)]
      rfl
    · rw [BitVec.toNat_setWidth, BitVec.toNat_ofNat, Nat.mod_eq_of_lt (a := 2 ^ Nat.clog 2 num.toNat) (by omega),
        Nat.mod_eq_of_lt hpow]

theorem nextPow2_zero (w p : ℕ) (c : ℤ) : nextPow2 w p c 0 = some 0 := if_pos (by simp)

/-! ### Rounding up -/

/-- What the function is for, on the operands up to `2 ^ (w - 1)`. That there is a
result says that C defines what is computed: `__builtin_clz` is not given `0`, and the
shift is by less than the width and not by a negative amount. -/
structure RoundsUp (w : ℕ) (next : BitVec w → Option (BitVec w)) : Prop where
  /-- C defines the result. -/
  defined : ∀ num, num.toNat ≤ 2 ^ (w - 1) → ∃ r, next num = some r
  /-- `0` stays `0`. -/
  zero : next 0 = some 0
  /-- Else it is the least power of two from `num` on. -/
  least : ∀ num r, 1 ≤ num.toNat → num.toNat ≤ 2 ^ (w - 1) → next num = some r →
    IsLeast {m | IsPow2 m ∧ num.toNat ≤ m} r.toNat
  /-- A larger operand has no smaller result. -/
  monotone : ∀ a b r r', a.toNat ≤ b.toNat → b.toNat ≤ 2 ^ (w - 1) → next a = some r → next b = some r' →
    r.toNat ≤ r'.toNat
  /-- A result is its own result. -/
  idempotent : ∀ num r, num.toNat ≤ 2 ^ (w - 1) → next num = some r → next r = some r
  /-- Nothing is doubled. -/
  lt_two_mul : ∀ num r, 1 ≤ num.toNat → num.toNat ≤ 2 ^ (w - 1) → next num = some r → r.toNat < 2 * num.toNat

/-- With the right constant the text rounds up. -/
theorem nextPow2_roundsUp {w p : ℕ} (hwp : w ≤ p) : RoundsUp w (nextPow2 w p p) := by
  have hval : ∀ num r, 1 ≤ num.toNat → num.toNat ≤ 2 ^ (w - 1) → nextPow2 w p p num = some r →
      r.toNat = 2 ^ Nat.clog 2 num.toNat := by
    intro num r hpos hnum hr
    obtain ⟨r', hr', hpow⟩ := nextPow2_eq hwp num hnum hpos
    rw [hr', Option.some.injEq] at hr
    rw [← hr, hpow]
  have hzero : ∀ num : BitVec w, num.toNat = 0 → num = 0 := fun num h => BitVec.eq_of_toNat_eq (by simpa using h)
  have hzero' : ∀ num r, num.toNat = 0 → nextPow2 w p p num = some r → r = 0 := by
    intro num r h hr
    rw [hzero num h, nextPow2_zero, Option.some.injEq] at hr
    exact hr.symm
  constructor
  · intro num hnum
    rcases Nat.eq_zero_or_pos num.toNat with h0 | hpos
    · exact ⟨0, by rw [hzero num h0, nextPow2_zero]⟩
    · obtain ⟨r, hr, -⟩ := nextPow2_eq hwp num hnum hpos
      exact ⟨r, hr⟩
  · exact nextPow2_zero w p p
  · intro num r hpos hnum hr
    rw [hval num r hpos hnum hr]
    exact pow_clog_isLeast num.toNat
  · intro a b r r' hab hb hr hr'
    rcases Nat.eq_zero_or_pos a.toNat with h0 | hpos
    · rw [hzero' a r h0 hr]
      simp
    · rw [hval a r hpos (by omega) hr, hval b r' (by omega) hb hr']
      exact pow_clog_mono hab
  · intro num r hnum hr
    rcases Nat.eq_zero_or_pos num.toNat with h0 | hpos
    · rw [hzero' num r h0 hr, nextPow2_zero]
    · have hr2 := hval num r hpos hnum hr
      have hle : 2 ^ Nat.clog 2 num.toNat ≤ 2 ^ (w - 1) :=
        Nat.pow_le_pow_right (by omega) (Nat.clog_le_of_le_pow hnum)
      have hpos' : 1 ≤ r.toNat := by
        rw [hr2]
        exact Nat.one_le_two_pow
      obtain ⟨r', hr', hpow⟩ := nextPow2_eq hwp r (hr2 ▸ hle) hpos'
      have heq : r' = r := by
        apply BitVec.eq_of_toNat_eq
        rw [hpow, hr2, pow_clog_idem]
      rw [hr', heq]
  · intro num r hpos hnum hr
    rw [hval num r hpos hnum hr]
    exact pow_clog_lt_two_mul hpos

/-- **`next_pow2_32` and `next_pow2_64` round up to a power of two.** -/
theorem nextPow2_32_64_roundsUp : RoundsUp 32 nextPow2_32 ∧ RoundsUp 64 nextPow2_64 :=
  ⟨nextPow2_roundsUp le_rfl, nextPow2_roundsUp le_rfl⟩

/-- So would the 16 bit variant, with the width of an `int` in the place of its own. -/
theorem nextPow2_16_fixed : RoundsUp 16 (nextPow2 16 32 32) := nextPow2_roundsUp (by omega)

/-! ### The three widths -/

/-- Which of the three. -/
inductive Pow2Width
  /-- `next_pow2_16`. -/
  | w16
  /-- `next_pow2_32`. -/
  | w32
  /-- `next_pow2_64`. -/
  | w64
  deriving DecidableEq

namespace Pow2Width

/-- How many bits the operand has. -/
def bits : Pow2Width → ℕ
  | w16 => 16
  | w32 => 32
  | w64 => 64

/-- The function of that width. -/
def next : (v : Pow2Width) → BitVec v.bits → Option (BitVec v.bits)
  | w16 => nextPow2_16
  | w32 => nextPow2_32
  | w64 => nextPow2_64

end Pow2Width

/-- C defines what both compute for `num`, and it is the same integer. -/
def SamePow2 (v w : Pow2Width) (num : ℕ) : Prop :=
  ∃ r r', v.next (BitVec.ofNat v.bits num) = some r ∧ w.next (BitVec.ofNat w.bits num) = some r' ∧ r.toNat = r'.toNat

/-- The 16 bit variant subtracts at least 17 leading zeros from 16. -/
theorem nextPow2_16_undefined {num : BitVec 16} (h2 : 2 < num.toNat) (hnum : num.toNat ≤ 2 ^ 15) :
    nextPow2_16 num = none := by
  have hle : Nat.clog 2 num.toNat ≤ 15 := Nat.clog_le_of_le_pow hnum
  rw [nextPow2_16, nextPow2_of_lt (by omega) 16 h2, oneShl, if_neg (by omega)]
  rfl

/-- Up to 2 every width returns its operand. -/
theorem Pow2Width.next_of_le (v : Pow2Width) {num : BitVec v.bits} (h : num.toNat ≤ 2) : v.next num = some num := by
  cases v <;> exact if_pos h

/-- From 3 on the narrowest has no result. -/
theorem Pow2Width.next_w16 {num : ℕ} (h2 : 2 < num) (hnum : num ≤ 2 ^ 15) :
    Pow2Width.w16.next (BitVec.ofNat Pow2Width.w16.bits num) = none := by
  have hval : (BitVec.ofNat 16 num).toNat = num := by
    rw [BitVec.toNat_ofNat]
    omega
  have hnone : nextPow2_16 (BitVec.ofNat 16 num) = none :=
    nextPow2_16_undefined (by rw [hval]; exact h2) (by rw [hval]; exact hnum)
  exact hnone

/-- The two wider variants are the least power of two. -/
theorem Pow2Width.next_eq {v : Pow2Width} (hv : v ≠ .w16) (num : ℕ) (hpos : 1 ≤ num) (hnum : num ≤ 2 ^ (v.bits - 1)) :
    ∃ r, v.next (BitVec.ofNat v.bits num) = some r ∧ r.toNat = 2 ^ Nat.clog 2 num := by
  have hval : (BitVec.ofNat v.bits num).toNat = num := by
    have hlt : 2 ^ (v.bits - 1) < 2 ^ v.bits := Nat.pow_lt_pow_right (by omega) (by cases v <;> decide)
    rw [BitVec.toNat_ofNat, Nat.mod_eq_of_lt (by omega)]
  have h := fun (p : ℕ) (hp : v.bits ≤ p) => nextPow2_eq hp (BitVec.ofNat v.bits num)
    (by rw [hval]; exact hnum) (by rw [hval]; exact hpos)
  rw [hval] at h
  cases v with
  | w16 => exact absurd rfl hv
  | w32 => exact h 32 le_rfl
  | w64 => exact h 64 le_rfl

/-- **Two widths agree just when the narrower is not 16 bits, or `num` is at most 2.** -/
theorem nextPow2_agree_iff {v w : Pow2Width} (hvw : v.bits < w.bits) {num : ℕ} (hnum : num ≤ 2 ^ (v.bits - 1)) :
    SamePow2 v w num ↔ v ≠ .w16 ∨ num ≤ 2 := by
  have hle : ∀ u : Pow2Width, v.bits ≤ u.bits → (BitVec.ofNat u.bits num).toNat = num := by
    intro u hu
    have hlt : 2 ^ (v.bits - 1) < 2 ^ u.bits :=
      Nat.pow_lt_pow_right (by omega) (by cases u <;> cases v <;> simp_all [Pow2Width.bits])
    rw [BitVec.toNat_ofNat, Nat.mod_eq_of_lt (by omega)]
  have hv := hle v le_rfl
  have hw := hle w (by omega)
  constructor
  · rintro ⟨r, r', hr, -, -⟩
    by_contra hcon
    rw [not_or, not_not] at hcon
    obtain ⟨rfl, h2⟩ := hcon
    rw [Pow2Width.next_w16 (by omega) hnum] at hr
    exact absurd hr (by simp)
  · intro h
    by_cases h2 : num ≤ 2
    · exact ⟨_, _, v.next_of_le (by rw [hv]; exact h2), w.next_of_le (by rw [hw]; exact h2), by rw [hv, hw]⟩
    · have hv16 : v ≠ .w16 := by
        rcases h with h | h
        · exact h
        · exact absurd h h2
      have hw16 : w ≠ .w16 := by
        rintro rfl
        cases v <;> simp [Pow2Width.bits] at hvw
      have hwider : 2 ^ (v.bits - 1) ≤ 2 ^ (w.bits - 1) := Nat.pow_le_pow_right (by omega) (by omega)
      obtain ⟨r, hr, hpow⟩ := Pow2Width.next_eq hv16 num (by omega) hnum
      obtain ⟨r', hr', hpow'⟩ := Pow2Width.next_eq hw16 num (by omega) (by omega)
      exact ⟨r, r', hr, hr', by rw [hpow, hpow']⟩

/-- At 3 the 16 and the 32 bit variant do not agree. -/
theorem nextPow2_agree_three :
    Pow2Width.w16.bits < Pow2Width.w32.bits ∧ 3 ≤ 2 ^ (Pow2Width.w16.bits - 1) ∧
      (SamePow2 .w16 .w32 3 ↔ Pow2Width.w16 ≠ .w16 ∨ 3 ≤ 2) :=
  ⟨by decide, by decide, nextPow2_agree_iff (by decide) (by decide)⟩

/-- For 3 the 16 bit variant shifts by `16 - 30`. -/
theorem nextPow2_agree_fails :
    ¬ ∀ (v w : Pow2Width) (num : ℕ), v.bits < w.bits → num ≤ 2 ^ (v.bits - 1) → SamePow2 v w num := by
  intro h
  obtain ⟨r, -, hr, -⟩ := h .w16 .w32 3 (by decide) (by decide)
  rw [Pow2Width.next_w16 (by decide) (by decide)] at hr
  exact absurd hr (by simp)

end LibCfe
