import LibCfe.Crypto.Alloc
import LibCfe.Crypto.Contexts

/-!
# Hash contexts

`src/crypto/hash.c` in front and `src/crypto/hash-openssl.c` behind it: the contexts of
the five OpenSSL types, the functions on them, and threads that allocate, use and destroy
contexts while types are registered and unregistered.

OpenSSL is a parameter, `EvpDigest σ`, and `EvpDigest.Documented` is what it documents of
the functions that the adaptor calls, each for a context in which a digest is under way.
An allocation is one that gets memory; `LibCfe.Crypto.Alloc` has the others.

## What is proved

* `hash_contexts_stream` — in every state that threads reach, the next finalize of a
  context that succeeds gives the digest of all that was fed to it since it was last
  initialised, in as many pieces as it was, and exactly `cfe_hash_ctx_digestsize` bytes of
  it; whatever else was done to this and other contexts in between does not matter.
* `hash_contexts_accounted` — the counters of the types count the contexts and the calls in
  progress, and the type of a context is registered and cannot be unregistered.
-/

namespace LibCfe

open Theory

variable {σ : Type}

/-! ### OpenSSL -/

/-- The length of a digest. -/
def EvpMd.size : EvpMd → ℕ
  | sha1 => 20
  | sha224 => 28
  | sha256 => 32
  | sha384 => 48
  | sha512 => 64

/-- The functions of OpenSSL that the adaptor calls, over the contexts `σ`. -/
structure EvpDigest (σ : Type) where
  /-- An `EVP_MD_CTX` of zero bytes, as `cfe_calloc` leaves it. -/
  zeroed : σ
  /-- `EVP_DigestInit_ex`; `impl` is `NULL`. -/
  digestInit : σ → EvpMd → ℤ × σ
  /-- `EVP_DigestUpdate` with so many bytes. -/
  digestUpdate : σ → Option Bytes → BitVec 64 → ℤ × σ
  /-- `EVP_DigestFinal`, and the bytes it writes; the pointer to the length is `NULL`. -/
  digestFinal : σ → ℤ × σ × List UInt8

namespace EvpDigest

/-- What OpenSSL documents. -/
structure Documented (E : EvpDigest σ) where
  /-- The digest of a message. -/
  hash : EvpMd → List UInt8 → List UInt8
  /-- The digest under way in a context, and what was fed to it. -/
  absorbed : σ → Option (EvpMd × List UInt8)
  hash_length : ∀ md m, (hash md m).length = md.size
  /-- A digest is started, whatever the context was used for before. -/
  init_ok : ∀ s md, (E.digestInit s md).1 ≠ 0 → absorbed (E.digestInit s md).2 = some (md, [])
  update_ok : ∀ s md m p n, absorbed s = some (md, m) → (E.digestUpdate s (some p) n).1 ≠ 0 →
    absorbed (E.digestUpdate s (some p) n).2 = some (md, m ++ p.read n.toNat)
  final_ok : ∀ s md m, absorbed s = some (md, m) → (E.digestFinal s).1 ≠ 0 → (E.digestFinal s).2.2 = hash md m

end EvpDigest

/-! ### hash-openssl.c -/

/-- `openssl_sha…_alloc_ctx`: the type and the digest it hands to `openssl_alloc_ctx`. -/
structure OpensslHashAlloc where
  /-- `type`. -/
  type : OpensslHashType
  /-- `md`. -/
  md : EvpMd

/-- `openssl_type_sha…`. -/
def OpensslHashType.struct : OpensslHashType → CfeHashType OpensslHashAlloc
  | sha1 => ⟨some (name .sha1), 20, some ⟨.sha1, .sha1⟩⟩
  | sha224 => ⟨some (name .sha224), 28, some ⟨.sha224, .sha224⟩⟩
  | sha256 => ⟨some (name .sha256), 32, some ⟨.sha256, .sha256⟩⟩
  | sha384 => ⟨some (name .sha384), 48, some ⟨.sha384, .sha384⟩⟩
  | sha512 => ⟨some (name .sha512), 64, some ⟨.sha512, .sha512⟩⟩

namespace OpensslHashType

instance : Fintype OpensslHashType := ⟨{sha1, sha224, sha256, sha384, sha512}, fun type => by cases type <;> decide⟩

/-- The digest size of a type is the length of its digests. -/
theorem digestsize_toInt (type : OpensslHashType) : type.struct.digestsize.toInt = type.evpMd.size := by
  cases type <;> rfl

/-- Every type allocates contexts of its own, with its digest. -/
theorem allocCtx_eq (type : OpensslHashType) : type.struct.allocCtx = some ⟨type, type.evpMd⟩ := by
  cases type <;> rfl

end OpensslHashType

/-- `struct openssl_generic_ctx` of `hash-openssl.c`. -/
structure OpensslHashCtx (σ : Type) where
  /-- `md`. -/
  md : EvpMd
  /-- `mdctx`, the context of OpenSSL. -/
  mdctx : σ
  /-- `base.type`. -/
  type : OpensslHashType

variable (E : EvpDigest σ)

/-- `openssl_alloc_ctx` in the block of zero bytes that `cfe_calloc` returned. -/
def opensslHashAlloc (alloc : OpensslHashAlloc) : OpensslHashCtx σ where
  md := alloc.md
  mdctx := E.zeroed
  type := alloc.type

/-- `openssl_generic_ctx_init` of `hash-openssl.c`. -/
def opensslHashInit (octx : OpensslHashCtx σ) : ℤ × OpensslHashCtx σ :=
  let r := E.digestInit octx.mdctx octx.md
  (if r.1 = 0 then 1 else 0, { octx with mdctx := r.2 })

/-- `openssl_generic_ctx_update` of `hash-openssl.c`. -/
def opensslHashUpdate (octx : OpensslHashCtx σ) (buffer : Option Bytes) (size : BitVec 64) : ℤ × OpensslHashCtx σ :=
  let r := E.digestUpdate octx.mdctx buffer size
  (if r.1 = 0 then 1 else 0, { octx with mdctx := r.2 })

/-- `openssl_generic_ctx_finalize` of `hash-openssl.c`, and the bytes written. -/
def opensslHashFinalize (octx : OpensslHashCtx σ) : ℤ × OpensslHashCtx σ × List UInt8 :=
  let r := E.digestFinal octx.mdctx
  (if r.1 = 0 then 1 else 0, { octx with mdctx := r.2.1 }, r.2.2)

/-! ### hash.c -/

/-- What a function of the front end leaves: its return value, what it stored in `errno`,
the context and the bytes written. -/
structure HashCall (σ : Type) where
  /-- The return value. -/
  ret : ℤ
  /-- What it stored in `errno`, if anything. -/
  errno : Option Errno := none
  /-- The context; `none` is `NULL`. -/
  ctx : Option (OpensslHashCtx σ)
  /-- The bytes written to the buffer. -/
  out : List UInt8 := []

/-- `cfe_hash_ctx_init`. -/
def cfeHashCtxInit (ctx : Option (OpensslHashCtx σ)) : HashCall σ :=
  match ctx with
  | none => { ret := 1, errno := some EINVAL, ctx }
  | some octx =>
    let r := opensslHashInit E octx
    { ret := r.1, ctx := some r.2 }

/-- `cfe_hash_ctx_update`. -/
def cfeHashCtxUpdate (ctx : Option (OpensslHashCtx σ)) (buffer : Option Bytes) (size : BitVec 64) : HashCall σ :=
  match ctx with
  | none => { ret := 1, errno := some EINVAL, ctx }
  | some octx =>
    let r := opensslHashUpdate E octx buffer size
    { ret := r.1, ctx := some r.2 }

/-- `cfe_hash_ctx_finalize`. -/
def cfeHashCtxFinalize (ctx : Option (OpensslHashCtx σ)) : HashCall σ :=
  match ctx with
  | none => { ret := 1, errno := some EINVAL, ctx }
  | some octx =>
    let r := opensslHashFinalize E octx
    { ret := r.1, ctx := some r.2.1, out := r.2.2 }

/-- `cfe_hash_ctx_digestsize`: an `unsigned` returned as an `int`, and `errno`. -/
def cfeHashCtxDigestsize (ctx : Option (OpensslHashCtx σ)) : ℤ × Option Errno :=
  match ctx with
  | none => (-1, some EINVAL)
  | some octx => (octx.type.struct.digestsize.toInt, none)

/-- `cfe_hash_alloc_ctx` when there is memory, from its call of `alloc_ctx` on. -/
def cfeHashAllocCtxOf (type : OpensslHashType) : Option (OpensslHashCtx σ) :=
  type.struct.allocCtx.map fun alloc => { opensslHashAlloc E alloc with type := type }

/-! ### Threads -/

/-- A context, and what was fed to it since it was last initialised, as long as every call
since then succeeded and it was not finalized. -/
structure HashSlot (σ : Type) where
  /-- The context. -/
  ctx : OpensslHashCtx σ
  /-- What was fed to it. -/
  since : Option (List UInt8)

/-- The context after a call that feeds it so much when it succeeds. -/
def HashSlot.after (slot : HashSlot σ) (call : HashCall σ) (since : Option (List UInt8)) : HashSlot σ :=
  ⟨call.ctx.getD slot.ctx, if call.ret = 0 then since else none⟩

/-- A call of the front end on a context. -/
inductive HashCtxAction where
  /-- `cfe_hash_ctx_init`. -/
  | init
  /-- `cfe_hash_ctx_update`. -/
  | update (buffer : Option Bytes) (size : BitVec 64)
  /-- `cfe_hash_ctx_finalize`. -/
  | finalize

/-- What a call on a context does to the context. -/
def HashSlot.call (slot : HashSlot σ) : HashCtxAction → HashSlot σ
  | .init => slot.after (cfeHashCtxInit E (some slot.ctx)) (some [])
  | .update buffer size =>
    slot.after (cfeHashCtxUpdate E (some slot.ctx) buffer size)
      (do return (← slot.since) ++ (← buffer).read size.toNat)
  | .finalize => slot.after (cfeHashCtxFinalize E (some slot.ctx)) none

/-- A new context. -/
theorem cfeHashAllocCtxOf_eq (type : OpensslHashType) :
    cfeHashAllocCtxOf E type = some ⟨type.evpMd, E.zeroed, type⟩ := by
  simp only [cfeHashAllocCtxOf, type.allocCtx_eq, Option.map_some, opensslHashAlloc]

variable {E} in
/-- A call leaves the digest and the type of a context. -/
theorem HashSlot.call_same (slot : HashSlot σ) (a : HashCtxAction) :
    (slot.call E a).ctx.md = slot.ctx.md ∧ (slot.call E a).ctx.type = slot.ctx.type := by
  cases a <;> exact ⟨rfl, rfl⟩

/-- The contexts of the hash registry. -/
def hashContexts : Contexts (.crypto .hash) OpensslHashType OpensslHashAlloc (HashSlot σ) HashCtxAction where
  struct := OpensslHashType.struct
  alloc type := (cfeHashAllocCtxOf E type).map fun ctx => ⟨ctx, none⟩
  type slot := slot.ctx.type
  call := HashSlot.call E
  type_alloc h := by
    rw [cfeHashAllocCtxOf_eq] at h
    cases h
    rfl
  type_call slot a := (slot.call_same a).2

/-! ### What is known of a context -/

variable {E}

/-- A context computes the digest of its type, and what is known to have been fed to it is
what OpenSSL has taken. -/
structure HashSlot.Valid (L : E.Documented) (slot : HashSlot σ) : Prop where
  md : slot.ctx.md = slot.ctx.type.evpMd
  since : ∀ m, slot.since = some m → L.absorbed slot.ctx.mdctx = some (slot.ctx.md, m)

/-- **A call on a context keeps what is known of it.** -/
theorem HashSlot.Valid.call {L : E.Documented} {slot : HashSlot σ} (h : slot.Valid L) (a : HashCtxAction) :
    (slot.call E a).Valid L := by
  refine ⟨by rw [(slot.call_same a).1, (slot.call_same a).2]; exact h.md, ?_⟩
  intro m hm
  cases a with
  | init =>
    simp only [HashSlot.call, HashSlot.after, cfeHashCtxInit, opensslHashInit] at hm ⊢
    by_cases hret : (E.digestInit slot.ctx.mdctx slot.ctx.md).1 = 0
    · simp [hret] at hm
    · simp only [hret, if_false, if_true, Option.some.injEq] at hm
      obtain rfl := hm
      exact L.init_ok _ _ hret
  | update buffer size =>
    simp only [HashSlot.call, HashSlot.after, cfeHashCtxUpdate, opensslHashUpdate] at hm ⊢
    by_cases hret : (E.digestUpdate slot.ctx.mdctx buffer size).1 = 0
    · simp [hret] at hm
    · simp only [hret, if_false, if_true, Option.bind_eq_bind, Option.bind_eq_some_iff] at hm
      obtain ⟨before, hbefore, p, rfl, hfed⟩ := hm
      obtain rfl := Option.some.inj hfed
      exact L.update_ok _ _ _ _ _ (h.since _ hbefore) hret
  | finalize =>
    simp only [HashSlot.call, HashSlot.after, ite_self] at hm
    cases hm

variable {Tid : Type} [DecidableEq Tid] {s : ContextProcess Tid OpensslHashType (HashSlot σ)}

/-- What is known of the contexts holds in every state. -/
theorem hashSlots_valid (L : E.Documented) {D : ContextProcess Tid OpensslHashType (HashSlot σ) → _ → _ → Prop}
    (h : ((hashContexts E).system Tid).Reachable D s) : ∀ i, ∀ slot ∈ (s.threads i).ctxs, slot.Valid L := by
  refine Contexts.forall_ctxs (P := HashSlot.Valid L) ?_ (fun slot a hslot => hslot.call a) h
  intro type slot hslot
  simp only [hashContexts, cfeHashAllocCtxOf_eq, Option.map_some, Option.some.injEq] at hslot
  rw [← hslot]
  exact ⟨rfl, fun m hm => by cases hm⟩

/-- **Contexts are streams.** In every state that any threads reach by any calls on any
contexts: when everything since the last initialisation of a context succeeded, the next
finalize that succeeds gives the digest, of the algorithm of the context's type, of all that
was fed to the context since then, and it writes exactly as many bytes as
`cfe_hash_ctx_digestsize` says. -/
theorem hash_contexts_stream (L : E.Documented)
    (h : ((hashContexts E).system Tid).Reachable System.Free s) {i : Tid} {slot : HashSlot σ}
    (hslot : slot ∈ (s.threads i).ctxs) {m : List UInt8} (hm : slot.since = some m)
    (hret : (cfeHashCtxFinalize E (some slot.ctx)).ret = 0) :
    (cfeHashCtxFinalize E (some slot.ctx)).out = L.hash slot.ctx.type.evpMd m ∧
      (cfeHashCtxDigestsize (some slot.ctx)).1 = (cfeHashCtxFinalize E (some slot.ctx)).out.length := by
  have hvalid := hashSlots_valid L h i slot hslot
  have hfinal : (E.digestFinal slot.ctx.mdctx).1 ≠ 0 := by
    intro hzero
    simp [cfeHashCtxFinalize, opensslHashFinalize, hzero] at hret
  have hout : (cfeHashCtxFinalize E (some slot.ctx)).out = L.hash slot.ctx.type.evpMd m := by
    rw [← hvalid.md]
    exact L.final_ok _ _ _ (hvalid.since m hm) hfinal
  refine ⟨hout, ?_⟩
  rw [hout, L.hash_length]
  exact slot.ctx.type.digestsize_toInt

/-- The SHA-1 digest of `"abc"`, which is all that this OpenSSL knows. -/
def abcHash (md : EvpMd) (m : List UInt8) : List UInt8 :=
  if md = .sha1 ∧ m = [0x61, 0x62, 0x63] then
    [0xa9, 0x99, 0x3e, 0x36, 0x47, 0x06, 0x81, 0x6a, 0xba, 0x3e, 0x25, 0x71, 0x78, 0x50, 0xc2, 0x6c, 0x9c, 0xd0, 0xd8, 0x9d]
  else List.replicate md.size 0

/-- OpenSSL with a context that keeps what it was fed. -/
def evpAbc : EvpDigest (Option (EvpMd × List UInt8)) where
  zeroed := none
  digestInit _ md := (1, some (md, []))
  digestUpdate s input n :=
    match s, input with
    | some (md, m), some input => (1, some (md, m ++ input.read n.toNat))
    | _, _ => (0, s)
  digestFinal
    | some (md, m) => (1, none, abcHash md m)
    | none => (0, none, [])

/-- It is as documented. -/
def evpAbcDocumented : evpAbc.Documented where
  hash := abcHash
  absorbed := id
  hash_length md m := by
    rw [abcHash]
    split_ifs with h
    · rw [h.1]
      rfl
    · exact List.length_replicate
  init_ok _ _ _ := rfl
  update_ok s md m p n hs _ := by
    obtain rfl : s = some (md, m) := hs
    rfl
  final_ok s md m hs _ := by
    obtain rfl : s = some (md, m) := hs
    rfl

/-- Two threads have a context each, and one has fed `"a"` and `"bc"` to its context. -/
def abcCalls : List (Bool × ContextAction OpensslHashType CString HashCtxAction) :=
  [(false, .register .sha1), (true, .register .sha256), (false, .find (OpensslHashType.name .sha1)),
    (true, .find (OpensslHashType.name .sha1)), (false, .alloc), (false, .call 0 .init),
    (false, .call 0 (.update (some fun _ => 0x61) 1)), (true, .alloc), (true, .call 0 .init),
    (false, .call 0 (.update (some fun n => 0x62 + UInt8.ofNat n) 2))]

/-- The context of the first gives the digest of `"abc"`. -/
theorem hash_contexts_stream_abc :
    ∃ s, ((hashContexts evpAbc).system Bool).Reachable System.Free s ∧ ∃ slot ∈ (s.threads false).ctxs,
      (cfeHashCtxFinalize evpAbc (some slot.ctx)).out = abcHash .sha1 [0x61, 0x62, 0x63] := by
  have h := System.reachable_of_exec (S := (hashContexts evpAbc).system Bool) (C := System.Free) abcCalls (by decide)
  refine ⟨_, h, _, .head _, ?_⟩
  exact (hash_contexts_stream evpAbcDocumented h (i := false) (.head _) rfl (by decide)).1

/-- **Contexts are accounted for.** In every state that any threads reach, while every counter
stays below `2 ^ 31`: the counter of a registered type is one more than its contexts and the
calls in progress that hold a reference to it, and the type of every context and of every
such call is registered and cannot be unregistered. -/
theorem hash_contexts_accounted [Fintype Tid]
    (h : ((hashContexts E).system Tid).Reachable Contexts.CountersInInt s) :
    RefsCounted ((Kind.crypto .hash).api OpensslHashType.struct) s.registry
      (fun i => (s.threads i).held fun slot => slot.ctx.type) :=
  Contexts.counted h

/-- Both contexts hold a reference to their type. -/
theorem hash_contexts_accounted_abc :
    ∃ s, ((hashContexts evpAbc).system Bool).Reachable Contexts.CountersInInt s ∧
      (s.registry.refcnt .sha1).val = 3 := by
  have h := System.reachable_of_exec (S := (hashContexts evpAbc).system Bool) (C := Contexts.CountersInInt) abcCalls
    (by decide)
  refine ⟨_, h, ?_⟩
  rw [(hash_contexts_accounted h).counted .sha1 (by decide)]
  decide

end LibCfe
