import LibCfe.Crypto.CipherCtx
import LibCfe.Registry.Names

/-!
# Allocating a context

`cfe_cipher_alloc_ctx` and `cfe_hash_alloc_ctx` take a reference to a type and call its
`alloc_ctx`. In the OpenSSL types that is `openssl_alloc_ctx`, of which
`cipher-openssl.c` and `hash-openssl.c` have a copy each: it allocates a `struct
openssl_generic_ctx` and returns the address of its member `base`, also when there is
no block. `base` is not the first member, so that address is not `NULL`, and the front
end takes it for a context.

Here a pointer is an address, and a call leaves the writes that it made. A call that
gets a block is `cfeCipherAllocCtx`, which speaks of the contents of the block.

## What is proved

`alloc_ctx_reported` — in every state of the two registries that any threads reach, for
the name of every OpenSSL type that is registered, a call does what it should exactly
when `cfe_calloc` returned a block.
-/

namespace LibCfe

open Theory

/-- An address; `0` is `NULL`. -/
abbrev Pointer := BitVec 64

/-- Where `base` lies in a `struct openssl_generic_ctx`: behind the cipher or digest and
the context of OpenSSL. It is two pointers itself, `ops` and `type`. -/
structure CtxLayout where
  /-- The offset of `base`. -/
  base : ℕ
  /-- The size of the `struct`. -/
  size : ℕ
  base_pos : 0 < base
  base_le : base + 16 ≤ size
  size_lt : size < 2 ^ 64

/-- A block of that size that `cfe_calloc` returned. -/
structure CtxBlock (layout : CtxLayout) where
  /-- Its address. -/
  addr : Pointer
  addr_ne : addr ≠ 0
  addr_le : addr.toNat + layout.size ≤ 2 ^ 64

/-- A write through a pointer, of types at `T` and with what OpenSSL calls a cipher or digest, `M`. -/
inductive CtxWrite (T M : Type) where
  /-- `octx->cipher = cipher` or `octx->md = md`. -/
  | handle (addr : Pointer) (m : M)
  /-- `octx->base.type = type`, also `ctx->type = type`. -/
  | type (addr : Pointer) (t : T)
  /-- `octx->base.ops = ops`. -/
  | ops (addr : Pointer)
  deriving DecidableEq

/-- What a function that allocates a context leaves. -/
structure AllocResult (T M : Type) where
  /-- The context. -/
  ctx : Pointer
  /-- What was stored in `errno`. -/
  errno : Option Errno
  /-- The writes made. -/
  writes : List (CtxWrite T M)

/-- The `alloc_ctx` of a type, given how its call of `cfe_calloc` ends. -/
abbrev CtxAlloc (layout : CtxLayout) (T M : Type) := Option (CtxBlock layout) → AllocResult T M

/-- What `cfe_cipher_alloc_ctx` or `cfe_hash_alloc_ctx` leaves. -/
structure AllocCall (T M : Type) extends AllocResult T M where
  /-- The registry. -/
  registry : Registry T

variable {T M F : Type}

/-! ### The adaptors -/

/-- The text of `openssl_alloc_ctx`, the same in both adaptors. -/
def opensslAllocText {layout : CtxLayout} (type : T) (handle : M) : CtxAlloc layout T M
  | some octx =>
    { ctx := octx.addr + BitVec.ofNat 64 layout.base
      errno := none
      writes := [.handle octx.addr handle, .type (octx.addr + BitVec.ofNat 64 layout.base + 8) type,
        .ops (octx.addr + BitVec.ofNat 64 layout.base)] }
  | none => { ctx := 0 + BitVec.ofNat 64 layout.base, errno := some ENOMEM, writes := [] }

/-- `openssl_alloc_ctx` of `cipher-openssl.c`. -/
def opensslCipherAllocCtx {layout : CtxLayout} (type : T) (cipher : EvpCipher) : CtxAlloc layout T EvpCipher :=
  opensslAllocText type cipher

/-- The digests that the adaptor asks OpenSSL for, `EVP_sha1()` and so on. -/
inductive EvpMd where
  | sha1 | sha224 | sha256 | sha384 | sha512
  deriving DecidableEq

/-- `openssl_alloc_ctx` of `hash-openssl.c`. -/
def opensslHashAllocCtx {layout : CtxLayout} (type : T) (md : EvpMd) : CtxAlloc layout T EvpMd :=
  opensslAllocText type md

/-- `openssl_type_aes_…`, where `openssl` has the addresses of the `struct`s. -/
def OpensslType.structAt (layout : CtxLayout) (openssl : OpensslType → T) (type : OpensslType) :
    CfeCipherType (CtxAlloc layout T EvpCipher) :=
  { type.struct with
    allocCtx := type.struct.allocCtx.map fun alloc => opensslCipherAllocCtx (openssl alloc.type) alloc.cipher }

/-- The `struct cfe_hash_type`s of `hash-openssl.c`. -/
inductive OpensslHashType where
  | sha1 | sha224 | sha256 | sha384 | sha512
  deriving DecidableEq

namespace OpensslHashType

/-- `name`: `"sha1"` and so on. -/
def name : OpensslHashType → CString
  | sha1 => ⟨[0x73, 0x68, 0x61, 0x31], by decide⟩
  | sha224 => ⟨[0x73, 0x68, 0x61, 0x32, 0x32, 0x34], by decide⟩
  | sha256 => ⟨[0x73, 0x68, 0x61, 0x32, 0x35, 0x36], by decide⟩
  | sha384 => ⟨[0x73, 0x68, 0x61, 0x33, 0x38, 0x34], by decide⟩
  | sha512 => ⟨[0x73, 0x68, 0x61, 0x35, 0x31, 0x32], by decide⟩

/-- `openssl_type_sha…`, where `openssl` has the addresses of the `struct`s. -/
def structAt (layout : CtxLayout) (openssl : OpensslHashType → T) :
    OpensslHashType → CfeHashType (CtxAlloc layout T EvpMd)
  | sha1 => ⟨some (name .sha1), 20, some (opensslHashAllocCtx (openssl .sha1) .sha1)⟩
  | sha224 => ⟨some (name .sha224), 28, some (opensslHashAllocCtx (openssl .sha224) .sha224)⟩
  | sha256 => ⟨some (name .sha256), 32, some (opensslHashAllocCtx (openssl .sha256) .sha256)⟩
  | sha384 => ⟨some (name .sha384), 48, some (opensslHashAllocCtx (openssl .sha384) .sha384)⟩
  | sha512 => ⟨some (name .sha512), 64, some (opensslHashAllocCtx (openssl .sha512) .sha512)⟩

/-- The digest of each type. -/
def evpMd : OpensslHashType → EvpMd
  | sha1 => .sha1
  | sha224 => .sha224
  | sha256 => .sha256
  | sha384 => .sha384
  | sha512 => .sha512

end OpensslHashType

/-! ### The front ends -/

variable [DecidableEq T] {layout : CtxLayout}

/-- The end of both front ends, from the call of `alloc_ctx` on. It has no result when
that is `NULL`. -/
def callAllocCtx (allocCtx : Option (CtxAlloc layout T M)) (block : Option (CtxBlock layout)) (type : T)
    (s : Registry T) : Option (AllocCall T M) :=
  match allocCtx with
  | none => none
  | some allocCtx =>
    let r := allocCtx block
    if r.ctx = 0 then some { r with registry := s.dec type }
    else some { r with registry := s, writes := r.writes ++ [.type (r.ctx + 8) type] }

/-- `cfe_cipher_alloc_ctx`. -/
def cfeCipherAllocCtxPtr (f : T → CfeCipherType (CtxAlloc layout T M)) (block : Option (CtxBlock layout))
    (algname : CString) (s : Registry T) : Option (AllocCall T M) :=
  match cfeCipherRef f algname s with
  | (none, s) => some { ctx := 0, errno := some ENOSYS, writes := [], registry := s }
  | (some type, s) => callAllocCtx (f type).allocCtx block type s

/-- `cfe_hash_alloc_ctx`. -/
def cfeHashAllocCtxPtr (f : T → CfeHashType (CtxAlloc layout T M)) (block : Option (CtxBlock layout))
    (algname : CString) (s : Registry T) : Option (AllocCall T M) :=
  match findAlg (hashClass f) s algname with
  | none => some { ctx := 0, errno := some ENOSYS, writes := [], registry := s }
  | some type => callAllocCtx (f type).allocCtx block type (s.inc type)

/-! ### What a call should do -/

/-- The whole of a context at `ctx` is inside a block. -/
def CtxBlock.Contains (block : CtxBlock layout) (ctx : Pointer) : Prop :=
  block.addr.toNat ≤ ctx.toNat ∧ ctx.toNat + 16 ≤ block.addr.toNat + layout.size

/-- A call that gets a block returns a context inside it, with one reference more to the
type; one that gets none returns `NULL`, leaves every counter and writes nothing. -/
def AllocReported (type : T) (s : Registry T) (block : Option (CtxBlock layout)) (call : AllocCall T M) : Prop :=
  match block with
  | some block => block.Contains call.ctx ∧ call.ctx ≠ 0 ∧ call.registry = s.inc type
  | none => call.ctx = 0 ∧ call.registry.refcnt = s.refcnt ∧ call.writes = []

/-! ### What a call does -/

/-- Inside a block the address of `base` does not wrap around. -/
theorem CtxBlock.base_toNat (block : CtxBlock layout) :
    (block.addr + BitVec.ofNat 64 layout.base).toNat = block.addr.toNat + layout.base := by
  have haddr := block.addr_le
  have hle := layout.base_le
  have hsize := layout.size_lt
  rw [BitVec.toNat_add, BitVec.toNat_ofNat]
  omega

/-- So it is not `NULL`. -/
theorem CtxBlock.base_ne (block : CtxBlock layout) : block.addr + BitVec.ofNat 64 layout.base ≠ 0 := by
  have hbase := block.base_toNat
  have hpos := layout.base_pos
  have hzero : (0 : Pointer).toNat = 0 := rfl
  intro h
  rw [h] at hbase
  omega

/-- Behind `NULL` it is not `NULL` either. -/
theorem CtxLayout.base_ne (layout : CtxLayout) : (0 : Pointer) + BitVec.ofNat 64 layout.base ≠ 0 := by
  have hpos := layout.base_pos
  have hle := layout.base_le
  have hsize := layout.size_lt
  have hzero : (0 : Pointer).toNat = 0 := rfl
  intro h
  have hval := congrArg BitVec.toNat h
  rw [BitVec.toNat_add, BitVec.toNat_ofNat] at hval
  omega

/-- The front end with the type of an adaptor: whatever `cfe_calloc` returned, it returns
the address of `base` and writes there. -/
theorem callAllocCtx_openssl (type : T) (handle : M) (block : Option (CtxBlock layout)) (s : Registry T) :
    callAllocCtx (some (opensslAllocText type handle)) block type s =
      some { opensslAllocText type handle block with
        registry := s
        writes := (opensslAllocText type handle block).writes ++
          [.type ((opensslAllocText (M := M) type handle block).ctx + 8) type] } := by
  cases block with
  | none => exact if_neg layout.base_ne
  | some block => exact if_neg block.base_ne

/-- So it does what it should when there is a block, and only then. -/
theorem callAllocCtx_reported_iff (type : T) (handle : M) (block : Option (CtxBlock layout)) (s : Registry T) :
    (∃ call, callAllocCtx (some (opensslAllocText type handle)) block type (s.inc type) = some call ∧
      AllocReported type s block call) ↔ block.isSome = true := by
  rw [callAllocCtx_openssl]
  cases block with
  | none =>
    apply iff_of_false _ (by simp)
    rintro ⟨call, hcall, hnull, -⟩
    obtain rfl := Option.some.inj hcall
    exact layout.base_ne hnull
  | some block =>
    apply iff_of_true _ rfl
    have hbase := block.base_toNat
    have hpos := layout.base_pos
    have hle := layout.base_le
    refine ⟨_, rfl, ⟨?_, ?_⟩, block.base_ne, rfl⟩
    · simp only [opensslAllocText, hbase]
      omega
    · simp only [opensslAllocText, hbase]
      omega

omit [DecidableEq T] in
/-- The types have the name and the `alloc_ctx` of `cipher-openssl.c`. -/
theorem OpensslType.structAt_eq (openssl : OpensslType → T) (type : OpensslType) :
    (type.structAt layout openssl).name = type.name ∧
      (type.structAt layout openssl).allocCtx = some (opensslAllocText (openssl type) type.evpCipher) := by
  cases type <;> exact ⟨rfl, rfl⟩

omit [DecidableEq T] in
theorem OpensslHashType.structAt_eq (openssl : OpensslHashType → T) (type : OpensslHashType) :
    (type.structAt layout openssl).name = some type.name ∧
      (type.structAt layout openssl).allocCtx = some (opensslAllocText (openssl type) type.evpMd) := by
  cases type <;> exact ⟨rfl, rfl⟩

/-! ### The contents of the block -/

/-- The contents that the writes of a call leave in its block of zero bytes, when they
make a context. -/
def writtenCtx {σ : Type} (E : Evp σ) (writes : List (CtxWrite OpensslType EvpCipher)) :
    Option (OpensslGenericCtx σ) := do
  let cipher ← writes.findSome? fun | .handle _ cipher => some cipher | _ => none
  let type ← writes.reverse.findSome? fun | .type _ type => some type | _ => none
  return ⟨cipher, E.zeroed, type⟩

/-- With a block, the call leaves the context and the registry of `cfeCipherAllocCtx`. -/
theorem cfeCipherAllocCtxPtr_block {σ : Type} (E : Evp σ) (block : CtxBlock layout) (algname : CString)
    (s : Registry OpensslType) :
    ∃ call, cfeCipherAllocCtxPtr (fun type => type.structAt layout id) (some block) algname s = some call ∧
      (writtenCtx E call.writes, call.registry) = cfeCipherAllocCtx E algname s := by
  have hfind : findAlg (cipherClass fun type : OpensslType => type.structAt layout id) s algname =
      findAlg (cipherClass OpensslType.struct) s algname := by
    have hname : (cipherClass fun type : OpensslType => type.structAt layout id).name =
        (cipherClass OpensslType.struct).name := rfl
    simp only [findAlg, hname]
  simp only [cfeCipherAllocCtxPtr, cfeCipherAllocCtx, cfeCipherRef, hfind]
  cases findAlg (cipherClass OpensslType.struct) s algname with
  | none => exact ⟨_, rfl, rfl⟩
  | some type =>
    simp only [(OpensslType.structAt_eq id type).2, OpensslType.allocCtx_eq, id_eq, callAllocCtx_openssl]
    exact ⟨_, rfl, rfl⟩

/-! ### From the name to the context -/

variable {Tid : Type} [DecidableEq Tid] [Fintype Tid]

/-- The name of a registered OpenSSL type gives that type. -/
theorem findAlg_openssl {f : T → CfeCipherType (CtxAlloc layout T EvpCipher)} {openssl : OpensslType → T}
    {type : OpensslType} (hf : f (openssl type) = type.structAt layout openssl) {s : Shared Tid T}
    (h : (regSystem Tid (.crypto .cipher) f).Reachable System.Free s) (ht : openssl type ∈ s.registry.list) :
    findAlg (cipherClass f) s.registry (CString.ofMem type.name.toList) = some (openssl type) := by
  have hname : (cipherClass f).name s.registry.refcnt (openssl type) = CString.ofMem type.name.toList := by
    simp only [cipherClass, hf, (OpensslType.structAt_eq openssl type).1]
    apply CString.ofMem_append
    cases type <;> decide
  have hdistinct := distinctNames_of_reachable (k := .cipher) (f := f) (cipherClass_fixed f) h
  rw [← hname]
  exact findAlg_name hdistinct ht

theorem findAlg_opensslHash {f : T → CfeHashType (CtxAlloc layout T EvpMd)} {openssl : OpensslHashType → T}
    {type : OpensslHashType} (hf : f (openssl type) = type.structAt layout openssl) {s : Shared Tid T}
    (h : (regSystem Tid (.crypto .hash) f).Reachable System.Free s) (ht : openssl type ∈ s.registry.list) :
    findAlg (hashClass f) s.registry type.name = some (openssl type) := by
  have hname : (hashClass f).name s.registry.refcnt (openssl type) = type.name := by
    simp only [hashClass, hf, (OpensslHashType.structAt_eq openssl type).1, Option.getD_some]
  have hdistinct := distinctNames_of_reachable (k := .hash) (f := f) (hashClass_fixed f) h
  rw [← hname]
  exact findAlg_name hdistinct ht

/-- **Only a call that gets a block does what it should**, in every state that any threads
reach, with the name of any registered OpenSSL type, cipher or hash: running out of
memory is never reported. -/
theorem alloc_ctx_reported (layout : CtxLayout) :
    (∀ (f : T → CfeCipherType (CtxAlloc layout T EvpCipher)) (openssl : OpensslType → T) (type : OpensslType)
        (s : Shared Tid T), f (openssl type) = type.structAt layout openssl →
        (regSystem Tid (.crypto .cipher) f).Reachable System.Free s → openssl type ∈ s.registry.list →
        ∀ block : Option (CtxBlock layout),
      (∃ call, cfeCipherAllocCtxPtr f block (CString.ofMem type.name.toList) s.registry = some call ∧
        AllocReported (openssl type) s.registry block call) ↔ block.isSome = true) ∧
    (∀ (f : T → CfeHashType (CtxAlloc layout T EvpMd)) (openssl : OpensslHashType → T) (type : OpensslHashType)
        (s : Shared Tid T), f (openssl type) = type.structAt layout openssl →
        (regSystem Tid (.crypto .hash) f).Reachable System.Free s → openssl type ∈ s.registry.list →
        ∀ block : Option (CtxBlock layout),
      (∃ call, cfeHashAllocCtxPtr f block type.name s.registry = some call ∧
        AllocReported (openssl type) s.registry block call) ↔ block.isSome = true) := by
  constructor
  · intro f openssl type s hf h ht block
    rw [cfeCipherAllocCtxPtr, cfeCipherRef, findAlg_openssl hf h ht]
    simp only [hf, (OpensslType.structAt_eq openssl type).2]
    exact callAllocCtx_reported_iff (openssl type) type.evpCipher block s.registry
  · intro f openssl type s hf h ht block
    rw [cfeHashAllocCtxPtr, findAlg_opensslHash hf h ht]
    simp only [hf, (OpensslHashType.structAt_eq openssl type).2]
    exact callAllocCtx_reported_iff (openssl type) type.evpMd block s.registry

/-- A layout: 168 bytes of `EVP_CIPHER_CTX` or `EVP_MD_CTX` behind the first pointer. -/
def testLayout : CtxLayout := ⟨176, 192, by decide, by decide, by decide⟩

/-- A block. -/
def testBlock : CtxBlock testLayout := ⟨0x1000, by decide, by decide⟩

/-- A registry with one cipher, `aes-cbc-128`. -/
def testCiphers : Registry OpensslType := ⟨[.aesCbc128], none, Function.update (fun _ => ⟨0⟩) .aesCbc128 ⟨1⟩⟩

theorem testCiphers_reachable : (regSystem Unit (.crypto .cipher) fun type => type.structAt testLayout id).Reachable
    System.Free ⟨testCiphers, fun _ => {}⟩ :=
  ⟨[((), .register .aesCbc128)], .step .refl rfl trivial⟩

/-- With memory, `cfe_cipher_alloc_ctx("aes-cbc-128")` returns a context in the block. -/
theorem alloc_ctx_reported_aes :
    ∃ call, cfeCipherAllocCtxPtr (fun type : OpensslType => type.structAt testLayout id) (some testBlock)
      (CString.ofMem OpensslType.aesCbc128.name.toList) testCiphers = some call ∧
      AllocReported OpensslType.aesCbc128 testCiphers (some testBlock) call :=
  ((alloc_ctx_reported testLayout).1 _ id .aesCbc128 _ rfl testCiphers_reachable
    (List.mem_singleton_self _) (some testBlock)).mpr rfl

/-- Without, it returns the address `176`, keeps the reference and writes there. -/
theorem alloc_ctx_not_reported :
    ∃ call, cfeCipherAllocCtxPtr (fun type : OpensslType => type.structAt testLayout id) none
      (CString.ofMem OpensslType.aesCbc128.name.toList) testCiphers = some call ∧
      call.ctx = 176 ∧ (call.registry.refcnt .aesCbc128).val = 2 ∧ call.writes = [.type 184 .aesCbc128] ∧
      ¬AllocReported OpensslType.aesCbc128 testCiphers (none : Option (CtxBlock testLayout)) call := by
  refine ⟨_, rfl, by decide, by decide, by decide, ?_⟩
  rintro ⟨hnull, -⟩
  exact absurd hnull (by decide)

end LibCfe
