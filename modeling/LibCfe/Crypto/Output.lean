import LibCfe.Crypto.Input
import Mathlib.Algebra.GroupWithZero.Nat

/-!
# The length of the output

The adaptor hands the caller's `size_t *olen` to OpenSSL as an `int *`. OpenSSL stores
the number of bytes it has written there, and so replaces four bytes of eight. With the
low half first the upper half stays what it was; with the high half first the number
ends up in the upper half.

## What is proved

`olen_true` — the length that a call of `update` or `finalize` reports is the true one
exactly when `*olen` was below `2 ^ 32` before, on a little-endian target, or when the
number and the low half of `*olen` were both `0`, on a big-endian one. Over a sequence of
calls that share the variable the reported lengths add up to the total exactly when each
of them is true in that sense of what the variable held at the start.
-/

namespace LibCfe

variable {σ : Type}

/-- What `*olen` must hold before an `int` is stored there for it to hold just that number. -/
def LengthTrue (order : ByteOrder) (old : BitVec 64) (m : BitVec 32) : Prop :=
  match order with
  | .little => old.toNat < 2 ^ 32
  | .big => m = 0 ∧ old.toNat % 2 ^ 32 = 0

/-! ### Storing an `int` in a `size_t` -/

theorem storeInt_little (old : BitVec 64) (m : BitVec 32) :
    (storeInt .little old m).toNat = old.toNat / 2 ^ 32 * 2 ^ 32 + m.toNat := by
  have hold := old.isLt
  rw [storeInt, BitVec.toNat_append, ← Nat.shiftLeft_add_eq_or_of_lt m.isLt, BitVec.extractLsb'_toNat,
    Nat.shiftLeft_eq, Nat.shiftRight_eq_div_pow, Nat.mod_eq_of_lt (by omega)]

theorem storeInt_big (old : BitVec 64) (m : BitVec 32) :
    (storeInt .big old m).toNat = m.toNat * 2 ^ 32 + old.toNat % 2 ^ 32 := by
  rw [storeInt, BitVec.toNat_append, ← Nat.shiftLeft_add_eq_or_of_lt (old.extractLsb' 0 32).isLt,
    BitVec.extractLsb'_toNat, Nat.shiftLeft_eq, Nat.shiftRight_zero]

/-- The value stored is read back when the other half does not count. -/
theorem storeInt_eq_iff (order : ByteOrder) (old : BitVec 64) (m : BitVec 32) :
    (storeInt order old m).toNat = m.toNat ↔ LengthTrue order old m := by
  cases order with
  | little =>
    rw [storeInt_little]
    simp only [LengthTrue]
    omega
  | big =>
    have hm : m = 0 ↔ m.toNat = 0 := by
      rw [← BitVec.toNat_inj]
      rfl
    rw [storeInt_big]
    simp only [LengthTrue, hm]
    omega

/-- Storing a second number over the first makes no difference to the other half. -/
theorem lengthTrue_storeInt (order : ByteOrder) (old : BitVec 64) (m m' : BitVec 32) :
    LengthTrue order (storeInt order old m) m' ↔ LengthTrue order old m' := by
  cases order with
  | little =>
    have hm := m.isLt
    simp only [LengthTrue, storeInt_little]
    omega
  | big =>
    have hlow : (m.toNat * 2 ^ 32 + old.toNat % 2 ^ 32) % 2 ^ 32 = old.toNat % 2 ^ 32 := by omega
    simp only [LengthTrue, storeInt_big, hlow]

/-- What is read back is never too small. -/
theorem le_storeInt (order : ByteOrder) (old : BitVec 64) (m : BitVec 32) :
    m.toNat ≤ (storeInt order old m).toNat := by
  cases order with
  | little =>
    rw [storeInt_little]
    omega
  | big =>
    rw [storeInt_big]
    omega

/-! ### Calls that report a length -/

/-- A call that writes output. -/
inductive OutputCall where
  /-- `cfe_cipher_ctx_update`. -/
  | update (input : Option Bytes) (ilen : BitVec 64) (out : Bool)
  /-- `cfe_cipher_ctx_finalize`. -/
  | finalize (out : Bool)

variable (E : Evp σ) (order : ByteOrder)

namespace OutputCall

/-- The call, with `*olen` as it was before. -/
def call (ctx : Option (OpensslGenericCtx σ)) (olen : BitVec 64) : OutputCall → OutCall (Option (OpensslGenericCtx σ))
  | update input ilen out => (cfeCipherCtxUpdate E order ctx input ilen out olen).1
  | finalize out => (cfeCipherCtxFinalize E order ctx out olen).1

/-- The number of bytes that `EVP_CipherUpdate` or `EVP_CipherFinal_ex` stores in it. -/
def stored (ctx : Option (OpensslGenericCtx σ)) : OutputCall → Option (BitVec 32)
  | update input ilen out => ctx.bind fun octx => (E.cipherUpdate octx.ctx out input (toCInt ilen)).outl
  | finalize out => ctx.bind fun octx => (E.cipherFinal octx.ctx out).outl

/-- It is stored over `*olen`. -/
theorem call_olen {ctx : Option (OpensslGenericCtx σ)} {olen : BitVec 64} {c : OutputCall} {m : BitVec 32}
    (h : c.stored E ctx = some m) : (c.call E order ctx olen).olen = storeInt order olen m := by
  cases ctx with
  | none => cases c <;> cases h
  | some octx =>
    cases c with
    | update input ilen out =>
      have hout : (E.cipherUpdate octx.ctx out input (toCInt ilen)).outl = some m := h
      simp only [call, cfeCipherCtxUpdate, opensslGenericCtxUpdate, hout]
      rfl
    | finalize out =>
      have hout : (E.cipherFinal octx.ctx out).outl = some m := h
      simp only [call, cfeCipherCtxFinalize, opensslGenericCtxFinalize, hout]
      rfl

end OutputCall

/-- What each call of a sequence that shares `*olen` stores there, and what `*olen` then holds. -/
def outputRun (ctx : Option (OpensslGenericCtx σ)) (olen : BitVec 64) :
    List OutputCall → List (Option (BitVec 32) × BitVec 64)
  | [] => []
  | c :: calls =>
    let r := c.call E order ctx olen
    (c.stored E ctx, r.olen) :: outputRun r.ctx r.olen calls

/-- The total of the numbers stored. -/
def totalStored (reports : List (Option (BitVec 32) × BitVec 64)) : ℕ :=
  (reports.map fun r => (r.1.map BitVec.toNat).getD 0).sum

/-- The total of the lengths read back. -/
def totalReported (reports : List (Option (BitVec 32) × BitVec 64)) : ℕ := (reports.map fun r => r.2.toNat).sum

theorem outputRun_total {ctx : Option (OpensslGenericCtx σ)} {olen : BitVec 64} {calls : List OutputCall}
    (h : ∀ r ∈ outputRun E order ctx olen calls, r.1.isSome = true) :
    totalStored (outputRun E order ctx olen calls) ≤ totalReported (outputRun E order ctx olen calls) ∧
    (totalReported (outputRun E order ctx olen calls) = totalStored (outputRun E order ctx olen calls) ↔
      ∀ r ∈ outputRun E order ctx olen calls, ∀ m, r.1 = some m → LengthTrue order olen m) := by
  induction calls generalizing ctx olen with
  | nil => simp [outputRun, totalStored, totalReported]
  | cons c calls ih =>
    simp only [outputRun, List.mem_cons, forall_eq_or_imp] at h ⊢
    obtain ⟨hfirst, hrest⟩ := h
    obtain ⟨m, hm⟩ := Option.isSome_iff_exists.mp hfirst
    obtain ⟨hle, hiff⟩ := ih hrest
    have hfirst_le := le_storeInt order olen m
    have hfirst_iff := storeInt_eq_iff order olen m
    rw [c.call_olen E order hm] at hle hiff ⊢
    simp only [lengthTrue_storeInt] at hiff
    simp only [totalStored, totalReported, List.map_cons, List.sum_cons, hm, Option.map_some, Option.getD_some] at hle hiff ⊢
    refine ⟨by omega, ?_⟩
    rw [← hiff]
    constructor
    · intro hsum
      refine ⟨?_, by omega⟩
      rintro m' ⟨⟩
      exact hfirst_iff.mp (by omega)
    · rintro ⟨htrue, hsum⟩
      rw [hfirst_iff.mpr (htrue m rfl), hsum]

/-- **The length reported is the true one**, after a call of `update` or `finalize` in which
OpenSSL stores the number of bytes, exactly when the half of `*olen` that is not
overwritten was `0` before and, with the high half first, the number is `0` too. Over
any sequence of such calls on one variable the lengths reported add up to the number of
bytes written exactly when this is so of every number stored and of what the variable
held at the start. -/
theorem olen_true (ctx : Option (OpensslGenericCtx σ)) (olen : BitVec 64) :
    (∀ (c : OutputCall) (m : BitVec 32), c.stored E ctx = some m →
      ((c.call E order ctx olen).olen.toNat = m.toNat ↔ LengthTrue order olen m)) ∧
    ∀ calls : List OutputCall, (∀ r ∈ outputRun E order ctx olen calls, r.1.isSome = true) →
      (totalReported (outputRun E order ctx olen calls) = totalStored (outputRun E order ctx olen calls) ↔
        ∀ r ∈ outputRun E order ctx olen calls, ∀ m, r.1 = some m → LengthTrue order olen m) := by
  constructor
  · intro c m h
    rw [c.call_olen E order h]
    exact storeInt_eq_iff order olen m
  · intro calls h
    exact (outputRun_total E order h).2

/-- After five bytes of additional data a variable that was `0` holds `5`. -/
theorem olen_true_five :
    (cfeCipherCtxUpdate evpAad .little (some aadCtx) (some fun _ => 0x61) 5 false 0).1.olen.toNat = 5 :=
  ((olen_true evpAad .little (some aadCtx) 0).1 (.update (some fun _ => 0x61) 5 false) 5 rfl).mpr
    (show (0 : BitVec 64).toNat < 2 ^ 32 by decide)

/-- A variable that was not `0` does not, and with the high half first neither does one that was. -/
theorem olen_not_true :
    (cfeCipherCtxUpdate evpAad .little (some aadCtx) (some fun _ => 0x61) 5 false (-1)).1.ret = 0 ∧
    (cfeCipherCtxUpdate evpAad .little (some aadCtx) (some fun _ => 0x61) 5 false (-1)).1.olen = 0xffffffff00000005 ∧
    (cfeCipherCtxUpdate evpAad .big (some aadCtx) (some fun _ => 0x61) 5 false 0).1.ret = 0 ∧
    (cfeCipherCtxUpdate evpAad .big (some aadCtx) (some fun _ => 0x61) 5 false 0).1.olen = 0x500000000 := by
  refine ⟨rfl, ?_, rfl, ?_⟩
  · decide
  · decide

end LibCfe
