import LibCfe.Cfe.Base

/-!
# OpenSSL, as the cipher adaptor uses it

OpenSSL is not part of the library. `Evp σ` is the part of its interface that
`src/crypto/cipher-openssl.c` calls, over any type `σ` of cipher contexts; each
function gives its return value and the context it leaves.

`Evp.Documented` is what OpenSSL says of these functions as far as keys go.
Everything proved of a cipher context is proved for every `Evp` that meets it.
`evpFirstBlock` is one that does: it is OpenSSL on inputs that are still buffered
in the first block of a CBC cipher, and gives up on all others.
-/

namespace LibCfe

/-- The ciphers that the adaptor asks OpenSSL for, `EVP_aes_128_cbc()` and so on. -/
inductive EvpCipher where
  | aes128Cbc | aes192Cbc | aes256Cbc | aes128Gcm | aes192Gcm | aes256Gcm
  deriving DecidableEq

namespace EvpCipher

/-- The length of a key. -/
def keyBytes : EvpCipher → ℕ
  | aes128Cbc | aes128Gcm => 16
  | aes192Cbc | aes192Gcm => 24
  | aes256Cbc | aes256Gcm => 32

/-- One of the authenticated ciphers. -/
def isGcm : EvpCipher → Bool
  | aes128Cbc | aes192Cbc | aes256Cbc => false
  | aes128Gcm | aes192Gcm | aes256Gcm => true

end EvpCipher

/-- The commands of `EVP_CIPHER_CTX_ctrl`. -/
inductive EvpCtrl where
  /-- `EVP_CTRL_GCM_SET_IVLEN`. -/
  | gcmSetIvlen
  /-- `EVP_CTRL_GCM_GET_TAG`. -/
  | gcmGetTag
  /-- `EVP_CTRL_GCM_SET_TAG`. -/
  | gcmSetTag

/-- What `EVP_CipherUpdate` or `EVP_CipherFinal_ex` leaves. -/
structure EvpOutput (σ : Type*) where
  /-- The return value. -/
  ret : ℤ
  /-- The context. -/
  ctx : σ
  /-- The bytes written from `out` on. -/
  out : List UInt8
  /-- The `int` written to `*outl`, if any. -/
  outl : Option (BitVec 32)

/-- The functions of OpenSSL. A pointer is `none` when it is `NULL`; of `out` only that matters. -/
structure Evp (σ : Type*) where
  /-- An `EVP_CIPHER_CTX` of zero bytes, as `cfe_calloc` leaves it. -/
  zeroed : σ
  /-- `EVP_CIPHER_key_length`. -/
  keyLength : EvpCipher → ℤ
  /-- `EVP_CipherInit_ex` of a context with `cipher`, `key`, `iv` and `enc`; `impl` is `NULL`. -/
  cipherInit : σ → Option EvpCipher → Option Bytes → Option Bytes → ℤ → ℤ × σ
  /-- `EVP_CIPHER_CTX_ctrl` with `arg` and `ptr`, and the bytes it writes from `ptr` on. -/
  ctrl : σ → EvpCtrl → ℤ → Option Bytes → ℤ × σ × List UInt8
  /-- `EVP_CIPHER_CTX_set_padding`. -/
  setPadding : σ → ℤ → ℤ × σ
  /-- `EVP_CipherUpdate`: whether `out` is there, `in` and `inl`. -/
  cipherUpdate : σ → Bool → Option Bytes → ℤ → EvpOutput σ
  /-- `EVP_CipherFinal_ex`. -/
  cipherFinal : σ → Bool → EvpOutput σ
  /-- The cipher a context has been set to. -/
  cipherOf : σ → Option EvpCipher
  /-- The key that a context processes data under, when one was set. -/
  keyInForce : σ → Option (List UInt8)

namespace Evp

variable {σ : Type*} (E : Evp σ)

/-- Nothing has happened to the key. -/
def SameKey (s t : σ) : Prop := E.keyInForce t = E.keyInForce s ∧ E.cipherOf t = E.cipherOf s

/-- What OpenSSL documents, as far as keys go. -/
structure Documented : Prop where
  keyLength : ∀ c, E.keyLength c = c.keyBytes
  zeroed_cipher : E.cipherOf E.zeroed = none
  zeroed_key : E.keyInForce E.zeroed = none
  /-- With a cipher and no key, the earlier key is dropped. -/
  cipher_key : ∀ s c iv enc, E.keyInForce (E.cipherInit s (some c) none iv enc).2 = none
  /-- The cipher is then the new one, or still the earlier one when the call failed. -/
  cipher_cipher : ∀ s c iv enc,
    E.cipherOf (E.cipherInit s (some c) none iv enc).2 = some c ∨
      (E.cipherInit s (some c) none iv enc).1 ≠ 1 ∧
        (E.cipherOf (E.cipherInit s (some c) none iv enc).2 = none ∨
          E.cipherOf (E.cipherInit s (some c) none iv enc).2 = E.cipherOf s)
  /-- With neither, no key is set and none is dropped. -/
  iv_only : ∀ s iv enc, E.SameKey s (E.cipherInit s none none iv enc).2
  /-- A key alone is set, as many of its bytes as the cipher takes. -/
  key_set : ∀ s c key iv enc, E.cipherOf s = some c → (E.cipherInit s none (some key) iv enc).1 = 1 →
    E.keyInForce (E.cipherInit s none (some key) iv enc).2 = some (key.read c.keyBytes)
  /-- A call that fails sets none. -/
  key_failed : ∀ s key iv enc, (E.cipherInit s none (some key) iv enc).1 ≠ 1 →
    E.keyInForce (E.cipherInit s none (some key) iv enc).2 = E.keyInForce s
  /-- And the cipher stays. -/
  key_cipher : ∀ s key iv enc, E.cipherOf (E.cipherInit s none (some key) iv enc).2 = E.cipherOf s
  ctrl_same : ∀ s cmd arg ptr, E.SameKey s (E.ctrl s cmd arg ptr).2.1
  setPadding_same : ∀ s pad, E.SameKey s (E.setPadding s pad).2
  update_same : ∀ s out input inl, E.SameKey s (E.cipherUpdate s out input inl).ctx
  final_same : ∀ s out, E.SameKey s (E.cipherFinal s out).ctx
  /-- A context without a cipher processes nothing, and a GCM cipher without a key neither;
  a CBC cipher does not look whether a key was set. -/
  update_checks : ∀ s out input inl, (E.cipherUpdate s out input inl).ret = 1 → E.keyInForce s = none →
    ∃ c, E.cipherOf s = some c ∧ c.isGcm = false

variable {E}

theorem SameKey.refl (s : σ) : E.SameKey s s := ⟨rfl, rfl⟩

/-- A call without a cipher leaves the cipher there was. -/
theorem Documented.cipherOf_init (hE : E.Documented) (s : σ) (key iv : Option Bytes) (enc : ℤ) :
    E.cipherOf (E.cipherInit s none key iv enc).2 = E.cipherOf s := by
  cases key with
  | none => exact (hE.iv_only s iv enc).2
  | some key => exact hE.key_cipher s key iv enc

/-- A context with a cipher and no key has the key of the call after it, if that succeeds. -/
theorem Documented.keyInForce_init (hE : E.Documented) {s : σ} {c : EvpCipher} (hc : E.cipherOf s = some c)
    (hk : E.keyInForce s = none) (key iv : Option Bytes) (enc : ℤ) :
    E.keyInForce (E.cipherInit s none key iv enc).2 =
      if (E.cipherInit s none key iv enc).1 = 1 then key.map (·.read c.keyBytes) else none := by
  cases key with
  | none =>
    rw [(hE.iv_only s iv enc).1, hk]
    split <;> rfl
  | some key =>
    by_cases hret : (E.cipherInit s none (some key) iv enc).1 = 1
    · rw [if_pos hret]
      exact hE.key_set s c key iv enc hc hret
    · rw [if_neg hret, hE.key_failed s key iv enc hret]
      exact hk

end Evp

/-! ### OpenSSL before the first block is full -/

/-- A context that has processed nothing yet. -/
structure FirstBlock where
  /-- The cipher. -/
  cipher : Option EvpCipher
  /-- The key. -/
  key : Option (List UInt8)
  /-- The number of bytes buffered. -/
  buffered : ℤ

/-- OpenSSL as long as all input fits into a block that is not full. -/
def evpFirstBlock : Evp FirstBlock where
  zeroed := ⟨none, none, 0⟩
  keyLength c := c.keyBytes
  cipherInit s cipher key _ _ :=
    match cipher with
    | some c => (1, ⟨some c, key.map (·.read c.keyBytes), 0⟩)
    | none =>
        match s.cipher, key with
        | none, _ => (0, s)
        | some c, some key => (1, ⟨some c, some (key.read c.keyBytes), 0⟩)
        | some c, none => (1, ⟨some c, s.key, 0⟩)
  ctrl s cmd arg _ :=
    match cmd with
    | .gcmSetIvlen => (if s.cipher.any EvpCipher.isGcm ∧ 0 < arg then 1 else 0, s, [])
    | _ => (0, s, [])
  setPadding s _ := (1, s)
  cipherUpdate s _ _ inl :=
    if s.cipher.any (!·.isGcm) ∧ 0 ≤ inl ∧ s.buffered + inl < 16 then
      ⟨1, { s with buffered := s.buffered + inl }, [], some 0⟩
    else ⟨0, s, [], none⟩
  cipherFinal s _ := ⟨0, s, [], none⟩
  cipherOf s := s.cipher
  keyInForce s := s.key

/-- It meets all that OpenSSL documents. -/
theorem evpFirstBlock_documented : evpFirstBlock.Documented where
  keyLength _ := rfl
  zeroed_cipher := rfl
  zeroed_key := rfl
  cipher_key _ _ _ _ := rfl
  cipher_cipher _ _ _ _ := .inl rfl
  iv_only s iv enc := by
    obtain ⟨cipher, key, buffered⟩ := s
    cases cipher with
    | none => exact ⟨rfl, rfl⟩
    | some c => exact ⟨rfl, rfl⟩
  key_set s c key iv enc hc _ := by
    obtain ⟨cipher, key', buffered⟩ := s
    obtain rfl : cipher = some c := hc
    rfl
  key_failed s key iv enc h := by
    obtain ⟨cipher, key', buffered⟩ := s
    cases cipher with
    | none => rfl
    | some c => exact absurd rfl h
  key_cipher s key iv enc := by
    obtain ⟨cipher, key', buffered⟩ := s
    cases cipher with
    | none => rfl
    | some c => rfl
  ctrl_same s cmd arg ptr := by
    cases cmd with
    | gcmSetIvlen => exact ⟨rfl, rfl⟩
    | gcmGetTag => exact ⟨rfl, rfl⟩
    | gcmSetTag => exact ⟨rfl, rfl⟩
  setPadding_same _ _ := ⟨rfl, rfl⟩
  update_same s out input inl := by
    simp only [evpFirstBlock]
    split
    · exact ⟨rfl, rfl⟩
    · exact ⟨rfl, rfl⟩
  final_same _ _ := ⟨rfl, rfl⟩
  update_checks s out input inl h _ := by
    obtain ⟨cipher, key, buffered⟩ := s
    cases cipher with
    | none => simp [evpFirstBlock] at h
    | some c =>
      refine ⟨c, rfl, ?_⟩
      cases hgcm : c.isGcm with
      | false => rfl
      | true => simp [evpFirstBlock, hgcm] at h

end LibCfe
