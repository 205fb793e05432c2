import LibCfe.Crypto.Input
import LibCfe.Registry.FullNames

/-!
# Random bytes

`cfe_rand_get` takes the size of the buffer as a `size_t`, and the adaptor hands it to
`RAND_bytes` as an `int`. For a whole multiple of `2 ^ 32` that is `0`: nothing is
written, and the call succeeds.

`RAND_bytes` is a parameter, as the set of all it may do: a call with a number of bytes
that is not negative either fails or writes that many.

## What is proved

`rand_fills_iff` — in every state of the registry that any threads reach with the OpenSSL
type in it, whatever `RAND_bytes` does, a successful call has filled the buffer and a size
that is too large is refused with the buffer untouched, exactly when the size is below
`2 ^ 31`, or turns negative as an `int` and `RAND_bytes` refuses it so.
-/

namespace LibCfe

open Theory

/-! ### OpenSSL -/

/-- What `RAND_bytes` or a function that calls it leaves. -/
structure RandOutcome where
  /-- The return value. -/
  ret : ℤ
  /-- The bytes written from the start of the buffer on. -/
  written : List UInt8
  deriving DecidableEq

/-- All that `RAND_bytes` may do, as functions of `num`. -/
abbrev RandBytes := Set (ℤ → RandOutcome)

namespace RandBytes

/-- What is documented of it. -/
structure Documented (R : RandBytes) : Prop where
  /-- A call that succeeds writes `num` bytes. -/
  fills : ∀ rand ∈ R, ∀ num : ℤ, 0 ≤ num → (rand num).ret = 1 → (rand num).written.length = num.toNat
  /-- A call may succeed. -/
  succeeds : ∀ num : ℤ, 0 ≤ num → ∃ rand ∈ R, (rand num).ret = 1

/-- A call with `num` fails and writes nothing. -/
def Refuses (R : RandBytes) (num : ℤ) : Prop := ∀ rand ∈ R, (rand num).ret ≠ 1 ∧ (rand num).written = []

end RandBytes

/-! ### The adaptor and the front end -/

/-- The functions that a `get` field can point to, given what `RAND_bytes` does. -/
abbrev RandGet := (ℤ → RandOutcome) → BitVec 64 → RandOutcome

/-- `openssl_rand_get`. -/
def opensslRandGet : RandGet := fun rand size =>
  let r := rand (toCInt size)
  { r with ret := if r.ret ≠ 1 then 1 else 0 }

/-- `openssl_type_rand`. -/
def opensslTypeRand : CfeRandType RandGet := ⟨some randName, some opensslRandGet⟩

variable {T : Type} [DecidableEq T]

/-- What `cfe_rand_get` leaves. -/
structure RandResult (T : Type) extends RandOutcome where
  /-- What was stored in `errno`. -/
  errno : Option Errno
  /-- The registry. -/
  registry : Registry T

/-- `cfe_rand_get`, of a buffer that may be `NULL`. It has no result when it calls through
`NULL`. -/
def cfeRandGet (f : T → CfeRandType RandGet) (rand : ℤ → RandOutcome) (buffer : Bool) (size : BitVec 64)
    (s : Registry T) : Option (RandResult T) :=
  if !buffer || size = 0 then some { ret := 1, written := [], errno := some EINVAL, registry := s }
  else
    match findAlg (randClass f) s randName with
    | none => some { ret := 1, written := [], errno := some ENOSYS, registry := s }
    | some type =>
      let s := s.inc type
      match (f type).get with
      | none => none
      | some get => some { get rand size with errno := none, registry := s.dec type }

/-! ### What a call should do -/

/-- Whatever `RAND_bytes` does, a call that succeeds has filled the buffer, a size that
`RAND_bytes` cannot take is refused with the buffer untouched, and every counter is what
it was. -/
def FillsBuffer (R : RandBytes) (f : T → CfeRandType RandGet) (size : BitVec 64) (s : Registry T) : Prop :=
  ∀ rand ∈ R, ∃ r, cfeRandGet f rand true size s = some r ∧
    (r.ret = 0 → r.written.length = size.toNat) ∧
    (2 ^ 31 ≤ size.toNat → r.ret ≠ 0 ∧ r.written = []) ∧
    r.registry = s

/-! ### What a call does -/

variable {Tid : Type} [DecidableEq Tid] [Fintype Tid] {f : T → CfeRandType RandGet} {t : T} {size : BitVec 64}

/-- With the OpenSSL type registered, a call is a call of the adaptor, and the reference it
takes is given back. -/
theorem cfeRandGet_openssl (hf : f t = opensslTypeRand) {s : Shared Tid T}
    (h : (regSystem Tid (.crypto .rand) f).Reachable System.Free s) (ht : t ∈ s.registry.list)
    (hsize : 1 ≤ size.toNat) (rand : ℤ → RandOutcome) :
    cfeRandGet f rand true size s.registry =
      some { opensslRandGet rand size with errno := none, registry := s.registry } := by
  have hne : size ≠ 0 := by
    rintro rfl
    simp at hsize
  have hfind := findAlg_plain (plainNamesDiffer_of_reachable h) ht (.inl trivial)
  simp only [CryptoKind.nameOf, hf, opensslTypeRand, Option.getD_some] at hfind
  simp only [cfeRandGet]
  rw [if_neg (by simpa using hne), show findAlg (randClass f) s.registry randName = some t from hfind]
  simp only [hf, opensslTypeRand, Registry.dec_inc]

/-- **A successful call has filled the buffer** exactly when the size is below `2 ^ 31`, or
turns negative and `RAND_bytes` refuses it. -/
theorem rand_fills_iff {R : RandBytes} (hR : R.Documented) (hf : f t = opensslTypeRand) {s : Shared Tid T}
    (h : (regSystem Tid (.crypto .rand) f).Reachable System.Free s) (ht : t ∈ s.registry.list)
    (hsize : 1 ≤ size.toNat) :
    FillsBuffer R f size s.registry ↔
      size.toNat < 2 ^ 31 ∨ (2 ^ 31 ≤ size.toNat % 2 ^ 32 ∧ R.Refuses (toCInt size)) := by
  have hcall := cfeRandGet_openssl hf h ht hsize
  constructor
  · intro hfills
    by_contra hnot
    obtain ⟨hge, hneg⟩ := not_or.mp hnot
    have hrefused : ∀ rand ∈ R, (rand (toCInt size)).ret ≠ 1 ∧ (rand (toCInt size)).written = [] := by
      intro rand hrand
      obtain ⟨r, hr, -, hlarge, -⟩ := hfills rand hrand
      rw [hcall rand, Option.some.injEq] at hr
      obtain ⟨hret, hwritten⟩ := hlarge (by omega)
      rw [← hr] at hret hwritten
      refine ⟨?_, hwritten⟩
      intro hone
      apply hret
      simp only [opensslRandGet]
      rw [if_neg (not_not.mpr hone)]
    -- as an `int` the size is not negative, so a call may succeed
    have hpos : size.toNat % 2 ^ 32 < 2 ^ 31 := by
      by_contra hge'
      exact hneg ⟨by omega, hrefused⟩
    obtain ⟨rand, hrand, hone⟩ := hR.succeeds (toCInt size) (toCInt_nonneg hpos)
    exact (hrefused rand hrand).1 hone
  · intro hcond rand hrand
    refine ⟨_, hcall rand, ?_, ?_, rfl⟩
    · intro hret
      have hone : (rand (toCInt size)).ret = 1 := by
        by_contra hne
        simp only [opensslRandGet] at hret
        rw [if_pos hne] at hret
        cases hret
      rcases hcond with hlt | ⟨-, hrefuses⟩
      · have hlen := hR.fills rand hrand (toCInt size) (by rw [toCInt_of_lt hlt]; omega) hone
        simp only [opensslRandGet]
        rw [hlen, toCInt_of_lt hlt, Int.toNat_natCast]
      · exact absurd hone (hrefuses rand hrand).1
    · intro hge
      obtain ⟨-, hrefuses⟩ := hcond.resolve_left (by omega)
      obtain ⟨hne, hwritten⟩ := hrefuses rand hrand
      simp only [opensslRandGet]
      rw [if_pos hne]
      exact ⟨by omega, hwritten⟩

/-- A `RAND_bytes` that may fail, and refuses a negative number. -/
def randBytesTest : RandBytes :=
  {rand | ∀ num : ℤ, (0 ≤ num → (rand num).ret = 1 → (rand num).written.length = num.toNat) ∧
    (num < 0 → (rand num).ret = 0 ∧ (rand num).written = [])}

/-- One of the things it may do: write zeros. -/
def randZeros (num : ℤ) : RandOutcome :=
  if 0 ≤ num then ⟨1, List.replicate num.toNat 0⟩ else ⟨0, []⟩

theorem randZeros_mem : randZeros ∈ randBytesTest := by
  intro num
  constructor
  · intro hpos _
    simp only [randZeros]
    rw [if_pos hpos, List.length_replicate]
  · intro hneg
    simp only [randZeros]
    rw [if_neg (by omega)]
    exact ⟨rfl, rfl⟩

theorem randBytesTest_documented : RandBytes.Documented randBytesTest where
  fills rand hrand num hpos hone := (hrand num).1 hpos hone
  succeeds num hpos := by
    refine ⟨randZeros, randZeros_mem, ?_⟩
    simp only [randZeros]
    rw [if_pos hpos]

theorem testRand_reachable : (regSystem Unit (.crypto .rand) fun _ : Unit => opensslTypeRand).Reachable
    System.Free ⟨Registry.only (), fun _ => {}⟩ :=
  reachable_only rfl

/-- A buffer of 16 bytes is filled. -/
theorem rand_fills_sixteen : FillsBuffer randBytesTest (fun _ : Unit => opensslTypeRand) 16 (Registry.only ()) :=
  (rand_fills_iff (t := ()) randBytesTest_documented rfl testRand_reachable List.mem_cons_self (by decide)).mpr
    (.inl (by decide))

/-- One of `2 ^ 32` bytes is not: the call succeeds, and nothing is written. -/
theorem rand_not_filled :
    (∃ r, cfeRandGet (fun _ : Unit => opensslTypeRand) randZeros true (BitVec.ofNat 64 (2 ^ 32)) (Registry.only ())
        = some r ∧ r.ret = 0 ∧ r.written = []) ∧
      ¬FillsBuffer randBytesTest (fun _ : Unit => opensslTypeRand) (BitVec.ofNat 64 (2 ^ 32)) (Registry.only ()) := by
  refine ⟨⟨_, rfl, rfl, rfl⟩, ?_⟩
  intro h
  obtain ⟨r, hr, hfull, -⟩ := h randZeros randZeros_mem
  obtain rfl := Option.some.inj hr
  exact absurd (hfull rfl) (by decide)

end LibCfe
