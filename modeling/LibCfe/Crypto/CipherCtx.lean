import LibCfe.Crypto.Evp
import LibCfe.Registry.Kinds

/-!
# Cipher contexts

`src/crypto/cipher.c` in front and `src/crypto/cipher-openssl.c` behind it: the six
OpenSSL types, the allocation of a context, and the functions on it. The front end
checks its arguments and calls the adaptor, which calls OpenSSL. All six types have
the same operations, so a call through `ctx->ops` is a call of the adaptor.

A `size_t` is a `BitVec 64`. Handing one to OpenSSL as an `int` keeps its low 32 bits.
OpenSSL stores the length of an output through the `size_t *olen` of the caller as
through an `int *`, which replaces four of its eight bytes; which four depends on
the byte order.
-/

namespace LibCfe

variable {σ : Type}

/-! ### The OpenSSL types -/

/-- The `struct cfe_cipher_type`s of `cipher-openssl.c`, in the order in which its
constructor registers them. -/
inductive OpensslType where
  | aesCbc128 | aesCbc192 | aesCbc256 | aesGcm128 | aesGcm192 | aesGcm256
  deriving DecidableEq

/-- `openssl_aes_…_alloc_ctx`: the type and the cipher it hands to `openssl_alloc_ctx`. -/
structure OpensslAlloc where
  /-- `type`. -/
  type : OpensslType
  /-- `cipher`. -/
  cipher : EvpCipher

/-- `CIPHER_TYPE_AEAD`. -/
def CIPHER_TYPE_AEAD : BitVec 32 := 1

namespace OpensslType

/-- All of them, in that order. -/
def all : List OpensslType := [aesCbc128, aesCbc192, aesCbc256, aesGcm128, aesGcm192, aesGcm256]

/-- The cipher of each type. -/
def evpCipher : OpensslType → EvpCipher
  | aesCbc128 => .aes128Cbc
  | aesCbc192 => .aes192Cbc
  | aesCbc256 => .aes256Cbc
  | aesGcm128 => .aes128Gcm
  | aesGcm192 => .aes192Gcm
  | aesGcm256 => .aes256Gcm

/-- The array `name`: `"aes-cbc-128"` and so on, and zeros behind it. -/
def name : OpensslType → List.Vector UInt8 16
  | aesCbc128 => ⟨[0x61, 0x65, 0x73, 0x2d, 0x63, 0x62, 0x63, 0x2d, 0x31, 0x32, 0x38, 0, 0, 0, 0, 0], rfl⟩
  | aesCbc192 => ⟨[0x61, 0x65, 0x73, 0x2d, 0x63, 0x62, 0x63, 0x2d, 0x31, 0x39, 0x32, 0, 0, 0, 0, 0], rfl⟩
  | aesCbc256 => ⟨[0x61, 0x65, 0x73, 0x2d, 0x63, 0x62, 0x63, 0x2d, 0x32, 0x35, 0x36, 0, 0, 0, 0, 0], rfl⟩
  | aesGcm128 => ⟨[0x61, 0x65, 0x73, 0x2d, 0x67, 0x63, 0x6d, 0x2d, 0x31, 0x32, 0x38, 0, 0, 0, 0, 0], rfl⟩
  | aesGcm192 => ⟨[0x61, 0x65, 0x73, 0x2d, 0x67, 0x63, 0x6d, 0x2d, 0x31, 0x39, 0x32, 0, 0, 0, 0, 0], rfl⟩
  | aesGcm256 => ⟨[0x61, 0x65, 0x73, 0x2d, 0x67, 0x63, 0x6d, 0x2d, 0x32, 0x35, 0x36, 0, 0, 0, 0, 0], rfl⟩

/-- `openssl_type_aes_…`. -/
def struct : OpensslType → CfeCipherType OpensslAlloc
  | aesCbc128 => ⟨name .aesCbc128, 0, 16, 16, 16, some ⟨.aesCbc128, .aes128Cbc⟩⟩
  | aesCbc192 => ⟨name .aesCbc192, 0, 16, 24, 16, some ⟨.aesCbc192, .aes192Cbc⟩⟩
  | aesCbc256 => ⟨name .aesCbc256, 0, 16, 32, 16, some ⟨.aesCbc256, .aes256Cbc⟩⟩
  | aesGcm128 => ⟨name .aesGcm128, CIPHER_TYPE_AEAD, 16, 16, 1, some ⟨.aesGcm128, .aes128Gcm⟩⟩
  | aesGcm192 => ⟨name .aesGcm192, CIPHER_TYPE_AEAD, 16, 24, 1, some ⟨.aesGcm192, .aes192Gcm⟩⟩
  | aesGcm256 => ⟨name .aesGcm256, CIPHER_TYPE_AEAD, 16, 32, 1, some ⟨.aesGcm256, .aes256Gcm⟩⟩

/-- `type->flags & CIPHER_TYPE_AEAD`. -/
def isAead (type : OpensslType) : Bool := type.struct.flags &&& CIPHER_TYPE_AEAD != 0

/-- The authenticated types are those with a GCM cipher. -/
theorem isAead_eq (type : OpensslType) : type.isAead = type.evpCipher.isGcm := by
  cases type <;> rfl

/-- The key size of a type is the length of a key of its cipher. -/
theorem keysize_toNat (type : OpensslType) : type.struct.keysize.toNat = type.evpCipher.keyBytes := by
  cases type <;> rfl

/-- Every type allocates contexts of its own, with its cipher. -/
theorem allocCtx_eq (type : OpensslType) : type.struct.allocCtx = some ⟨type, type.evpCipher⟩ := by
  cases type <;> rfl

end OpensslType

/-! ### The adaptor -/

/-- `struct openssl_generic_ctx`. -/
structure OpensslGenericCtx (σ : Type) where
  /-- `cipher`. -/
  cipher : EvpCipher
  /-- `ctx`, the context of OpenSSL. -/
  ctx : σ
  /-- `base.type`. -/
  type : OpensslType

/-- How the bytes of a number lie in memory. -/
inductive ByteOrder where
  | little | big
  deriving DecidableEq

/-- An `int` stored through a pointer to a `size_t` that holds `old`. -/
def storeInt (order : ByteOrder) (old : BitVec 64) (v : BitVec 32) : BitVec 64 :=
  match order with
  | .little => old.extractLsb' 32 32 ++ v
  | .big => v ++ old.extractLsb' 0 32

/-- A `size_t` passed as an `int`. -/
def toCInt (n : BitVec 64) : ℤ := (n.setWidth 32).toInt

/-- The modes. -/
inductive CfeCipherMode where
  /-- `CFE_CIPHER_MODE_DECRYPT`. -/
  | decrypt
  /-- `CFE_CIPHER_MODE_ENCRYPT`. -/
  | encrypt
  deriving DecidableEq

/-- Its value. -/
def CfeCipherMode.toInt : CfeCipherMode → ℤ
  | decrypt => 0
  | encrypt => 1

/-- What a function that writes output leaves: its return value, the context, the bytes
written from `out` on, and `*olen`. -/
structure OutCall (κ : Type) where
  /-- The return value. -/
  ret : ℤ
  /-- The context. -/
  ctx : κ
  /-- The bytes written from `out` on. -/
  out : List UInt8
  /-- `*olen`. -/
  olen : BitVec 64

variable (E : Evp σ) (order : ByteOrder)

/-- `openssl_generic_ctx_init`. -/
def opensslGenericCtxInit (octx : OpensslGenericCtx σ) (mode : CfeCipherMode) (key : Option Bytes)
    (ksize : BitVec 64) (iv : Option Bytes) (isize : BitVec 64) : ℤ × OpensslGenericCtx σ :=
  if BitVec.ofInt 64 (E.keyLength octx.cipher) ≠ ksize then (1, octx)
  else
    let first := E.cipherInit octx.ctx (some octx.cipher) none none mode.toInt
    if first.1 ≠ 1 then (1, { octx with ctx := first.2 })
    else
      -- only an authenticated cipher is told the length of the iv
      let ivlen :=
        if octx.type.isAead then E.ctrl first.2 .gcmSetIvlen (toCInt isize) none else (1, first.2, [])
      if ivlen.1 ≠ 1 then (1, { octx with ctx := ivlen.2.1 })
      else
        let last := E.cipherInit ivlen.2.1 none key iv mode.toInt
        (if last.1 ≠ 1 then 1 else 0, { octx with ctx := last.2 })

/-- `openssl_generic_ctx_update`. -/
def opensslGenericCtxUpdate (octx : OpensslGenericCtx σ) (input : Option Bytes) (inlen : BitVec 64)
    (out : Bool) (olen : BitVec 64) : OutCall (OpensslGenericCtx σ) :=
  let r := E.cipherUpdate octx.ctx out input (toCInt inlen)
  { ret := if r.ret ≠ 1 then 1 else 0
    ctx := { octx with ctx := r.ctx }
    out := r.out
    olen := (r.outl.map (storeInt order olen)).getD olen }

/-- `openssl_generic_ctx_finalize`. -/
def opensslGenericCtxFinalize (octx : OpensslGenericCtx σ) (out : Bool) (olen : BitVec 64) :
    OutCall (OpensslGenericCtx σ) :=
  let r := E.cipherFinal octx.ctx out
  { ret := if r.ret ≠ 1 then 1 else 0
    ctx := { octx with ctx := r.ctx }
    out := r.out
    olen := (r.outl.map (storeInt order olen)).getD olen }

/-- `openssl_generic_ctx_set_padding`. -/
def opensslGenericCtxSetPadding (octx : OpensslGenericCtx σ) (on : BitVec 32) : ℤ × OpensslGenericCtx σ :=
  let r := E.setPadding octx.ctx (if on ≠ 0 then 1 else 0)
  (if r.1 ≠ 1 then 1 else 0, { octx with ctx := r.2 })

/-- `openssl_generic_ctx_set_aad`. The local `size` is not read, neither before nor after. -/
def opensslGenericCtxSetAad (octx : OpensslGenericCtx σ) (aad : Option Bytes) (asize : BitVec 64) :
    ℤ × OpensslGenericCtx σ :=
  let size := 0
  let r := opensslGenericCtxUpdate E order octx aad asize false size
  (r.ret, r.ctx)

/-- `openssl_generic_ctx_get_tag`: also the bytes written to `tag`. -/
def opensslGenericCtxGetTag (octx : OpensslGenericCtx σ) (tag : Option Bytes) (tsize : BitVec 64) :
    ℤ × OpensslGenericCtx σ × List UInt8 :=
  let r := E.ctrl octx.ctx .gcmGetTag (toCInt tsize) tag
  (if r.1 ≠ 1 then 1 else 0, { octx with ctx := r.2.1 }, r.2.2)

/-- `openssl_generic_ctx_set_tag`. -/
def opensslGenericCtxSetTag (octx : OpensslGenericCtx σ) (tag : Option Bytes) (tsize : BitVec 64) :
    ℤ × OpensslGenericCtx σ :=
  let r := E.ctrl octx.ctx .gcmSetTag (toCInt tsize) tag
  (if r.1 ≠ 1 then 1 else 0, { octx with ctx := r.2.1 })

/-- `openssl_alloc_ctx` in the block of zero bytes that `cfe_calloc` returned. -/
def opensslAllocCtx (alloc : OpensslAlloc) : OpensslGenericCtx σ where
  cipher := alloc.cipher
  ctx := E.zeroed
  type := alloc.type

/-! ### The front end -/

/-- What a function of the front end leaves: its return value, what it stored in
`errno`, and the context. -/
structure CtxCall (σ : Type) where
  /-- The return value. -/
  ret : ℤ
  /-- What it stored in `errno`, if anything. -/
  errno : Option Errno
  /-- The context; `none` is `NULL`. -/
  ctx : Option (OpensslGenericCtx σ)

/-- A refused call. -/
def CtxCall.invalid (ctx : Option (OpensslGenericCtx σ)) : CtxCall σ := ⟨1, some EINVAL, ctx⟩

/-- A call handed on to the adaptor, which does not set `errno`. -/
def CtxCall.ofAdaptor (r : ℤ × OpensslGenericCtx σ) : CtxCall σ := ⟨r.1, none, some r.2⟩

/-- `cfe_cipher_alloc_ctx` when there is memory: no context for a name that is not
registered, and otherwise one that holds a reference to its type. -/
def cfeCipherAllocCtx (algname : CString) (s : Registry OpensslType) :
    Option (OpensslGenericCtx σ) × Registry OpensslType :=
  match cfeCipherRef OpensslType.struct algname s with
  | (none, s) => (none, s)
  | (some type, s) =>
      match type.struct.allocCtx with
      | none => (none, cfeCipherPut (some type) s)
      | some alloc => (some { opensslAllocCtx E alloc with type := type }, s)

/-- `ret += cfe_cipher_register(&…)`. -/
def countingRegister (acc : ℕ × Registry OpensslType) (type : OpensslType) : ℕ × Registry OpensslType :=
  match cfeCipherRegister OpensslType.struct type acc.2 with
  | .ok s => (acc.1, s)
  | .error _ => (acc.1 + 1, acc.2)

/-- `cipher_openssl_init`; no result when it calls `abort`. -/
def cipherOpensslInit (s : Registry OpensslType) : Option (Registry OpensslType) :=
  let r := OpensslType.all.foldl countingRegister (0, s)
  if r.1 ≠ 0 then none else some r.2

/-- The constructor registers every type, and its name then gives a context of that type. -/
theorem cfeCipherAllocCtx_openssl (type : OpensslType) :
    ∃ s, cipherOpensslInit .empty = some s ∧
      cfeCipherAllocCtx E (CString.ofMem type.name.toList) s = (some (opensslAllocCtx E ⟨type, type.evpCipher⟩), s.inc type) := by
  refine ⟨_, rfl, ?_⟩
  cases type <;> rfl

/-- `cfe_cipher_ctx_init`. -/
def cfeCipherCtxInit (ctx : Option (OpensslGenericCtx σ)) (mode : CfeCipherMode) (key : Option Bytes)
    (ksize : BitVec 64) (iv : Option Bytes) (isize : BitVec 64) : CtxCall σ :=
  match ctx with
  | none => .invalid ctx
  | some octx =>
      -- iv is optional
      if iv.isSome ∧ octx.type.struct.ivsize < isize then .invalid ctx
      -- key is mandatory
      else if ksize ≠ octx.type.struct.keysize then .invalid ctx
      else .ofAdaptor (opensslGenericCtxInit E octx mode key ksize iv isize)

/-- `cfe_cipher_ctx_update`, with what it stored in `errno`. -/
def cfeCipherCtxUpdate (ctx : Option (OpensslGenericCtx σ)) (input : Option Bytes) (ilen : BitVec 64)
    (out : Bool) (olen : BitVec 64) : OutCall (Option (OpensslGenericCtx σ)) × Option Errno :=
  match ctx with
  | none => (⟨1, none, [], olen⟩, some EINVAL)
  | some octx =>
      let r := opensslGenericCtxUpdate E order octx input ilen out olen
      (⟨r.ret, some r.ctx, r.out, r.olen⟩, none)

/-- `cfe_cipher_ctx_finalize`, with what it stored in `errno`. -/
def cfeCipherCtxFinalize (ctx : Option (OpensslGenericCtx σ)) (out : Bool) (olen : BitVec 64) :
    OutCall (Option (OpensslGenericCtx σ)) × Option Errno :=
  match ctx with
  | none => (⟨1, none, [], olen⟩, some EINVAL)
  | some octx =>
      let r := opensslGenericCtxFinalize E order octx out olen
      (⟨r.ret, some r.ctx, r.out, r.olen⟩, none)

/-- `cfe_cipher_ctx_set_padding`. -/
def cfeCipherCtxSetPadding (ctx : Option (OpensslGenericCtx σ)) (on : BitVec 32) : CtxCall σ :=
  match ctx with
  | none => .invalid ctx
  | some octx => .ofAdaptor (opensslGenericCtxSetPadding E octx on)

/-- `cfe_cipher_ctx_set_aad`. -/
def cfeCipherCtxSetAad (ctx : Option (OpensslGenericCtx σ)) (aad : Option Bytes) (asize : BitVec 64) :
    CtxCall σ :=
  match ctx with
  | none => .invalid ctx
  | some octx =>
      if !octx.type.isAead then .invalid ctx
      else .ofAdaptor (opensslGenericCtxSetAad E order octx aad asize)

/-- `cfe_cipher_ctx_set_tag`. -/
def cfeCipherCtxSetTag (ctx : Option (OpensslGenericCtx σ)) (tag : Option Bytes) (tsize : BitVec 64) :
    CtxCall σ :=
  match ctx with
  | none => .invalid ctx
  | some octx =>
      if !octx.type.isAead then .invalid ctx
      else .ofAdaptor (opensslGenericCtxSetTag E octx tag tsize)

/-- `cfe_cipher_ctx_get_tag`, with the bytes written to `tag`. -/
def cfeCipherCtxGetTag (ctx : Option (OpensslGenericCtx σ)) (tag : Option Bytes) (tsize : BitVec 64) :
    CtxCall σ × List UInt8 :=
  match ctx with
  | none => (.invalid ctx, [])
  | some octx =>
      if !octx.type.isAead then (.invalid ctx, [])
      else
        let r := opensslGenericCtxGetTag E octx tag tsize
        (.ofAdaptor (r.1, r.2.1), r.2.2)

end LibCfe
