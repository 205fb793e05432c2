import LibCfe.Crypto.Alloc
import LibCfe.Crypto.Input
import LibCfe.Registry.FullNames

/-!
# What a key is derived from

`cfe_pbkdf_derive` takes the lengths of the password, the salt and the key as `size_t`
and the number of rounds as an `unsigned`. The adaptor hands all four to
`PKCS5_PBKDF2_HMAC` as an `int`. There `-1` as the length of the password means that it
is a string, and a number of rounds below 1 means one round. So a number of rounds from
`2 ^ 31` on is one round, and `2 ^ 32 - 1` bytes of password are those before the first
zero byte.

`PKCS5_PBKDF2_HMAC` is a parameter. What it did is recorded as what PBKDF2 was run on.

## What is proved

`derive_exact_iff` — in every state of the registry that any threads reach, with every
registered OpenSSL type, a call runs PBKDF2 on just what it was given, and fails for what
an `int` cannot represent, exactly when an `int` can represent it all or OpenSSL refuses
a negative length.
-/

namespace LibCfe

open Theory

/-! ### OpenSSL -/

/-- What PBKDF2 is run on. -/
structure Pbkdf2Run where
  /-- The digest. -/
  md : EvpMd
  /-- The password. -/
  pass : List UInt8
  /-- The salt. -/
  salt : List UInt8
  /-- The number of iterations. -/
  iter : ℕ
  /-- How many bytes of output. -/
  keylen : ℕ
  deriving DecidableEq

/-- What a key derivation leaves. -/
structure Pbkdf2Call where
  /-- The return value. -/
  ret : ℤ
  /-- What PBKDF2 was run on, if it was. -/
  run : Option Pbkdf2Run

/-- `PKCS5_PBKDF2_HMAC` with `pass`, `passlen`, `salt`, `saltlen`, `iter`, `digest` and `keylen`. -/
abbrev Pkcs5 := Bytes → ℤ → Bytes → ℤ → ℤ → EvpMd → ℤ → Pbkdf2Call

/-- `strlen`: where the first zero byte is, in an address space of `2 ^ 64` bytes. -/
def strlen (p : Bytes) : Option ℕ := (List.range (2 ^ 64)).find? fun i => p i == 0

/-- How many bytes `PKCS5_PBKDF2_HMAC` takes for the password; it says nothing of other
negative lengths. -/
def passwordLength (pass : Bytes) (passlen : ℤ) : Option ℕ :=
  if 0 ≤ passlen then some passlen.toNat else if passlen = -1 then strlen pass else none

/-- What is documented of `PKCS5_PBKDF2_HMAC`. -/
def Pkcs5.Documented (P : Pkcs5) : Prop :=
  ∀ pass passlen salt saltlen iter md keylen n, passwordLength pass passlen = some n → 0 ≤ saltlen → 0 ≤ keylen →
    P pass passlen salt saltlen iter md keylen =
      ⟨1, some ⟨md, pass.read n, salt.read saltlen.toNat, (max iter 1).toNat, keylen.toNat⟩⟩

/-! ### The adaptor -/

/-- The functions that a `derive` field can point to: of `rounds`, `in`, `ilen`, `salt`, `slen` and `olen`. -/
abbrev Derive := BitVec 32 → Bytes → BitVec 64 → Bytes → BitVec 64 → BitVec 64 → Pbkdf2Call

variable (P : Pkcs5)

/-- The text of the five. -/
def opensslPbkdfText (md : EvpMd) : Derive := fun rounds input ilen salt slen olen =>
  let r := P input (toCInt ilen) salt (toCInt slen) rounds.toInt md (toCInt olen)
  { r with ret := if r.ret ≠ 1 then 1 else 0 }

/-- `openssl_pbkdf_sha1`. -/
def opensslPbkdfSha1 : Derive := opensslPbkdfText P .sha1

/-- `openssl_pbkdf_sha224`. -/
def opensslPbkdfSha224 : Derive := opensslPbkdfText P .sha224

/-- `openssl_pbkdf_sha256`. -/
def opensslPbkdfSha256 : Derive := opensslPbkdfText P .sha256

/-- `openssl_pbkdf_sha384`. -/
def opensslPbkdfSha384 : Derive := opensslPbkdfText P .sha384

/-- `openssl_pbkdf_sha512`. -/
def opensslPbkdfSha512 : Derive := opensslPbkdfText P .sha512

/-- The `struct cfe_pbkdf_type`s of `pbkdf-openssl.c`. -/
inductive OpensslPbkdfType where
  | sha1 | sha224 | sha256 | sha384 | sha512
  deriving DecidableEq

namespace OpensslPbkdfType

/-- `name`: `"pbkdf-sha1"` and so on. -/
def name : OpensslPbkdfType → List.Vector UInt8 16
  | sha1 => ⟨[0x70, 0x62, 0x6b, 0x64, 0x66, 0x2d, 0x73, 0x68, 0x61, 0x31, 0, 0, 0, 0, 0, 0], rfl⟩
  | sha224 => ⟨[0x70, 0x62, 0x6b, 0x64, 0x66, 0x2d, 0x73, 0x68, 0x61, 0x32, 0x32, 0x34, 0, 0, 0, 0], rfl⟩
  | sha256 => ⟨[0x70, 0x62, 0x6b, 0x64, 0x66, 0x2d, 0x73, 0x68, 0x61, 0x32, 0x35, 0x36, 0, 0, 0, 0], rfl⟩
  | sha384 => ⟨[0x70, 0x62, 0x6b, 0x64, 0x66, 0x2d, 0x73, 0x68, 0x61, 0x33, 0x38, 0x34, 0, 0, 0, 0], rfl⟩
  | sha512 => ⟨[0x70, 0x62, 0x6b, 0x64, 0x66, 0x2d, 0x73, 0x68, 0x61, 0x35, 0x31, 0x32, 0, 0, 0, 0], rfl⟩

/-- `openssl_type_kdf_sha…`. -/
def struct : OpensslPbkdfType → CfePbkdfType Derive
  | sha1 => ⟨name .sha1, some (opensslPbkdfSha1 P)⟩
  | sha224 => ⟨name .sha224, some (opensslPbkdfSha224 P)⟩
  | sha256 => ⟨name .sha256, some (opensslPbkdfSha256 P)⟩
  | sha384 => ⟨name .sha384, some (opensslPbkdfSha384 P)⟩
  | sha512 => ⟨name .sha512, some (opensslPbkdfSha512 P)⟩

/-- The digest of each. -/
def evpMd : OpensslPbkdfType → EvpMd
  | sha1 => .sha1
  | sha224 => .sha224
  | sha256 => .sha256
  | sha384 => .sha384
  | sha512 => .sha512

theorem struct_eq (type : OpensslPbkdfType) :
    type.struct P = ⟨type.name, some (opensslPbkdfText P type.evpMd)⟩ := by
  cases type <;> rfl

/-- The name ends in its array. -/
theorem terminated (type : OpensslPbkdfType) : 0 ∈ type.name.toList := by
  cases type <;> decide

end OpensslPbkdfType

/-! ### The front end -/

variable {T : Type} [DecidableEq T]

/-- What `cfe_pbkdf_derive` leaves. -/
structure DeriveResult (T : Type) extends Pbkdf2Call where
  /-- What was stored in `errno`. -/
  errno : Option Errno
  /-- The registry. -/
  registry : Registry T

/-- `cfe_pbkdf_derive`. It has no result when it calls through `NULL`. -/
def cfePbkdfDerive (f : T → CfePbkdfType Derive) (algname : Option CString) (rounds : BitVec 32) (input : Option Bytes)
    (ilen : BitVec 64) (salt : Bytes) (slen olen : BitVec 64) (s : Registry T) : Option (DeriveResult T) :=
  match algname, input with
  | some algname, some input =>
    if ilen = 0 then some { ret := 1, run := none, errno := some EINVAL, registry := s }
    else
      match findAlg (pbkdfClass f) s algname with
      | none => some { ret := 1, run := none, errno := some ENOSYS, registry := s }
      | some type =>
        let s := s.inc type
        match (f type).derive with
        | none => none
        | some derive =>
          some { derive rounds input ilen salt slen olen with errno := none, registry := s.dec type }
  | _, _ => some { ret := 1, run := none, errno := some EINVAL, registry := s }

/-! ### What a call should do -/

/-- An `int` can represent all four. -/
def FitsInt (rounds : BitVec 32) (ilen slen olen : BitVec 64) : Prop :=
  rounds.toNat < 2 ^ 31 ∧ ilen.toNat < 2 ^ 31 ∧ slen.toNat < 2 ^ 31 ∧ olen.toNat < 2 ^ 31

/-- What a call asks for. -/
def OpensslPbkdfType.asked (type : OpensslPbkdfType) (rounds : BitVec 32) (input : Bytes) (ilen : BitVec 64)
    (salt : Bytes) (slen olen : BitVec 64) : Pbkdf2Run :=
  ⟨type.evpMd, input.read ilen.toNat, salt.read slen.toNat, rounds.toNat, olen.toNat⟩

/-- Calls that differ in the password run PBKDF2 on just what they are given. -/
structure DerivesExactly (type : OpensslPbkdfType) (derive : Bytes → Option (DeriveResult T)) (rounds : BitVec 32)
    (input : Bytes) (ilen : BitVec 64) (salt : Bytes) (slen olen : BitVec 64) : Prop where
  returns : ∃ r, derive input = some r
  exact : ∀ r, derive input = some r → r.ret = 0 → r.run = some (type.asked rounds input ilen salt slen olen)
  /-- What OpenSSL cannot be told is refused. -/
  refused : ¬FitsInt rounds ilen slen olen → ∀ r, derive input = some r → r.ret ≠ 0
  /-- Two passwords are not taken for one. -/
  distinct : ∀ input' r r' run run', derive input = some r → derive input' = some r' → r.ret = 0 → r'.ret = 0 →
    r.run = some run → r'.run = some run' → input.read ilen.toNat ≠ input'.read ilen.toNat → run.pass ≠ run'.pass

/-- OpenSSL is given a negative length of which nothing is documented. -/
def NegativeLength (input : Bytes) (ilen slen olen : BitVec 64) : Prop :=
  passwordLength input (toCInt ilen) = none ∨ toCInt slen < 0 ∨ toCInt olen < 0

/-! ### What a call does -/

variable {P} {f : T → CfePbkdfType Derive} {openssl : OpensslPbkdfType → T} {type : OpensslPbkdfType}
  {rounds : BitVec 32} {input : Bytes} {ilen slen olen : BitVec 64} {salt : Bytes}

/-- With numbers that fit, OpenSSL runs PBKDF2 on them. -/
theorem opensslPbkdfText_fits (hP : P.Documented) (hrounds : 1 ≤ rounds.toNat) (h : FitsInt rounds ilen slen olen) :
    opensslPbkdfText P type.evpMd rounds input ilen salt slen olen =
      ⟨0, some (type.asked rounds input ilen salt slen olen)⟩ := by
  obtain ⟨hr, hi, hs, ho⟩ := h
  have hlen : passwordLength input (toCInt ilen) = some ilen.toNat := by
    rw [toCInt_of_lt hi, passwordLength, if_pos (by omega), Int.toNat_natCast]
  have hiter : (max rounds.toInt 1).toNat = rounds.toNat := by
    rw [BitVec.toInt_eq_toNat_cond, if_pos (by omega)]
    omega
  have hcall := hP input (toCInt ilen) salt (toCInt slen) rounds.toInt type.evpMd (toCInt olen) _ hlen
    (by rw [toCInt_of_lt hs]; omega) (by rw [toCInt_of_lt ho]; omega)
  simp only [opensslPbkdfText]
  rw [hcall, hiter, toCInt_of_lt hs, toCInt_of_lt ho, Int.toNat_natCast, Int.toNat_natCast]
  rfl

/-- With lengths that are not negative, or the one that stands for a string, it succeeds. -/
theorem Pkcs5.Documented.ret_eq (hP : P.Documented) (h : ¬NegativeLength input ilen slen olen) (iter : ℤ) (md : EvpMd) :
    (P input (toCInt ilen) salt (toCInt slen) iter md (toCInt olen)).ret = 1 := by
  obtain ⟨hi, h⟩ := not_or.mp h
  obtain ⟨hs, ho⟩ := not_or.mp h
  obtain ⟨n, hn⟩ := Option.ne_none_iff_exists'.mp hi
  rw [hP input _ salt _ iter md _ n hn (by omega) (by omega)]

variable {Tid : Type} [DecidableEq Tid] [Fintype Tid]

/-- The name of a registered OpenSSL type gives that type. -/
theorem findAlg_opensslPbkdf (hf : f (openssl type) = type.struct P) {s : Shared Tid T}
    (h : (regSystem Tid (.crypto .pbkdf) f).Reachable System.Free s) (ht : openssl type ∈ s.registry.list) :
    findAlg (pbkdfClass f) s.registry (CString.ofMem type.name.toList) = some (openssl type) := by
  have hplain : CryptoKind.Plain .pbkdf (f (openssl type)) := by
    rw [hf, type.struct_eq P]
    exact .inl type.terminated
  have hfind := findAlg_plain (plainNamesDiffer_of_reachable h) ht hplain
  rw [hf, type.struct_eq P] at hfind
  exact hfind

/-- A call with a registered OpenSSL type is a call of the adaptor; the reference it takes
is given back. -/
theorem cfePbkdfDerive_openssl (hf : f (openssl type) = type.struct P) {s : Shared Tid T}
    (h : (regSystem Tid (.crypto .pbkdf) f).Reachable System.Free s) (ht : openssl type ∈ s.registry.list)
    (rounds : BitVec 32) (input : Bytes) (hilen : 1 ≤ ilen.toNat) (salt : Bytes) (slen olen : BitVec 64) :
    cfePbkdfDerive f (some (CString.ofMem type.name.toList)) rounds (some input) ilen salt slen olen s.registry =
      some { opensslPbkdfText P type.evpMd rounds input ilen salt slen olen with errno := none, registry := s.registry } := by
  have hne : ilen ≠ 0 := by
    rintro rfl
    simp at hilen
  simp only [cfePbkdfDerive]
  rw [if_neg hne, findAlg_opensslPbkdf hf h ht]
  simp only [hf, type.struct_eq P, Registry.dec_inc]

/-- **A key is derived from just what was given**, exactly when an `int` can represent it
or OpenSSL refuses a negative length. -/
theorem derive_exact_iff (hP : P.Documented) (hf : f (openssl type) = type.struct P) {s : Shared Tid T}
    (h : (regSystem Tid (.crypto .pbkdf) f).Reachable System.Free s) (ht : openssl type ∈ s.registry.list)
    (hrounds : 1 ≤ rounds.toNat) (hilen : 1 ≤ ilen.toNat) :
    DerivesExactly type (fun input => cfePbkdfDerive f (some (CString.ofMem type.name.toList)) rounds (some input) ilen
        salt slen olen s.registry) rounds input ilen salt slen olen ↔
      FitsInt rounds ilen slen olen ∨
        (NegativeLength input ilen slen olen ∧
          (P input (toCInt ilen) salt (toCInt slen) rounds.toInt type.evpMd (toCInt olen)).ret ≠ 1) := by
  have hcall := fun input => cfePbkdfDerive_openssl hf h ht rounds input hilen salt slen olen
  by_cases hfits : FitsInt rounds ilen slen olen
  · apply iff_of_true _ (.inl hfits)
    have hval := fun input => (hcall input).trans (by rw [opensslPbkdfText_fits hP hrounds hfits])
    constructor
    · exact ⟨_, hval input⟩
    · intro r hr _
      rw [hval input, Option.some.injEq] at hr
      rw [← hr]
    · exact fun hnot => absurd hfits hnot
    · intro input' r r' run run' hr hr' _ _ hrun hrun' hne
      rw [hval input, Option.some.injEq] at hr
      rw [hval input', Option.some.injEq] at hr'
      rw [← hr, Option.some.injEq] at hrun
      rw [← hr', Option.some.injEq] at hrun'
      rw [← hrun, ← hrun']
      exact hne
  · constructor
    · intro hexact
      have hret : (P input (toCInt ilen) salt (toCInt slen) rounds.toInt type.evpMd (toCInt olen)).ret ≠ 1 := by
        intro hone
        apply hexact.refused hfits _ (hcall input)
        simp only [opensslPbkdfText]
        rw [if_neg (not_not.mpr hone)]
      refine .inr ⟨?_, hret⟩
      by_contra hneg
      exact hret (hP.ret_eq hneg _ _)
    · intro hcond
      obtain ⟨-, hret⟩ := hcond.resolve_left hfits
      have hfails : ∀ r, cfePbkdfDerive f (some (CString.ofMem type.name.toList)) rounds (some input) ilen salt slen olen
          s.registry = some r → r.ret ≠ 0 := by
        intro r hr
        rw [hcall input, Option.some.injEq] at hr
        rw [← hr]
        simp only [opensslPbkdfText]
        rw [if_pos hret]
        omega
      constructor
      · exact ⟨_, hcall input⟩
      · exact fun r hr h0 => absurd h0 (hfails r hr)
      · exact fun _ => hfails
      · exact fun _ r _ _ _ hr _ h0 => absurd h0 (hfails r hr)

/-! ### An OpenSSL -/

/-- `PKCS5_PBKDF2_HMAC` that refuses every length it says nothing of. -/
def pkcs5Pbkdf2Hmac : Pkcs5 := fun pass passlen salt saltlen iter md keylen =>
  match passwordLength pass passlen with
  | none => ⟨0, none⟩
  | some n =>
    if 0 ≤ saltlen ∧ 0 ≤ keylen
    then ⟨1, some ⟨md, pass.read n, salt.read saltlen.toNat, (max iter 1).toNat, keylen.toNat⟩⟩
    else ⟨0, none⟩

theorem pkcs5Pbkdf2Hmac_documented : Pkcs5.Documented pkcs5Pbkdf2Hmac := by
  intro pass passlen salt saltlen iter md keylen n hn hs hk
  simp only [pkcs5Pbkdf2Hmac, hn]
  rw [if_pos ⟨hs, hk⟩]

/-- The registry with `pbkdf-sha1` in it. -/
def testPbkdfs : Shared Unit OpensslPbkdfType := ⟨Registry.only .sha1, fun _ => {}⟩

theorem testPbkdfs_reachable : (regSystem Unit (.crypto .pbkdf)
    fun type : OpensslPbkdfType => type.struct pkcs5Pbkdf2Hmac).Reachable System.Free testPbkdfs :=
  reachable_only rfl

/-- The password `"password"`, and zeros behind it. -/
def testPass : Bytes := fun i => [0x70, 0x61, 0x73, 0x73, 0x77, 0x6f, 0x72, 0x64].getD i 0

/-- 1000 rounds of `pbkdf-sha1` with 8 bytes of each are done as asked. -/
theorem derive_exact_test :
    DerivesExactly .sha1 (fun input => cfePbkdfDerive (fun type : OpensslPbkdfType => type.struct pkcs5Pbkdf2Hmac)
      (some (CString.ofMem (OpensslPbkdfType.name .sha1).toList)) 1000 (some input) 8 testPass 8 20 testPbkdfs.registry)
      1000 testPass 8 testPass 8 20 :=
  (derive_exact_iff pkcs5Pbkdf2Hmac_documented (show _ = OpensslPbkdfType.struct pkcs5Pbkdf2Hmac (id .sha1) from rfl)
    testPbkdfs_reachable List.mem_cons_self (by decide) (by decide)).mpr (.inl ⟨by decide, by decide, by decide, by decide⟩)

/-- `2 ^ 31` rounds of it are one round, and the call succeeds. -/
theorem derive_not_exact :
    ∃ r, cfePbkdfDerive (fun type : OpensslPbkdfType => type.struct pkcs5Pbkdf2Hmac)
      (some (CString.ofMem (OpensslPbkdfType.name .sha1).toList)) (BitVec.ofNat 32 (2 ^ 31)) (some testPass) 8
      testPass 8 20 testPbkdfs.registry = some r ∧
      r.ret = 0 ∧ r.run = some ⟨.sha1, testPass.read 8, testPass.read 8, 1, 20⟩ ∧
      r.run ≠ some (OpensslPbkdfType.asked .sha1 (BitVec.ofNat 32 (2 ^ 31)) testPass 8 testPass 8 20) := by
  refine ⟨_, rfl, ?_, ?_, ?_⟩
  · decide
  · decide
  · decide

end LibCfe
