import LibCfe.Crypto.CipherCtx

/-!
# How much input a call takes

`cfe_cipher_ctx_update` and `cfe_cipher_ctx_set_aad` take the length of the input as a
`size_t`, and the adaptor hands it to `EVP_CipherUpdate` as an `int`. A length of
`2 ^ 32 + k` bytes becomes `k`: the call succeeds and all but `k` bytes are dropped.

What OpenSSL does with its input is a parameter, `Evp.Absorbing`. The bytes that a
context has taken in are two streams: what it was given with a place for output, and
what it was given without, which a GCM cipher authenticates.

## What is proved

`update_takes_whole_input` — a call takes the whole input, or fails for a length that
OpenSSL cannot be given, exactly when the length is below `2 ^ 31` or turns negative as
an `int`; and a sequence of successful calls with such lengths takes in the
concatenation of all inputs.
-/

namespace LibCfe

variable {σ : Type}

/-- What OpenSSL does with the input of `EVP_CipherUpdate`. -/
structure Evp.Absorbing (E : Evp σ) where
  /-- The bytes a context has taken in, with a place for output or without. -/
  absorbed : σ → Bool → List UInt8
  /-- The context is set up for input of this sort. -/
  Ready : σ → Bool → Prop
  accepted : ∀ s out input inl, Ready s out → 0 ≤ inl → (E.cipherUpdate s out (some input) inl).ret = 1
  /-- A call that succeeds takes in `inl` bytes. -/
  taken : ∀ s out input inl, 0 ≤ inl → (E.cipherUpdate s out (some input) inl).ret = 1 →
    absorbed (E.cipherUpdate s out (some input) inl).ctx out = absorbed s out ++ input.read inl.toNat ∧
      absorbed (E.cipherUpdate s out (some input) inl).ctx (!out) = absorbed s (!out)
  /-- A negative length is refused. -/
  refused : ∀ s out input inl, inl < 0 → (E.cipherUpdate s out (some input) inl).ret ≠ 1

/-- The length, as an `int`, is the length or is negative. -/
def LengthKept (n : BitVec 64) : Prop := n.toNat < 2 ^ 31 ∨ 2 ^ 31 ≤ n.toNat % 2 ^ 32

/-- What a call given `n` bytes should do to a context: when it succeeds, take in just
these bytes, and when OpenSSL cannot be given that many in one call, fail. -/
structure TakesWhole {E : Evp σ} (A : E.Absorbing) (octx : OpensslGenericCtx σ) (out : Bool) (input : Bytes)
    (n : BitVec 64) (ret : ℤ) (ctx : Option (OpensslGenericCtx σ)) : Prop where
  taken : ret = 0 → ∃ octx', ctx = some octx' ∧
    A.absorbed octx'.ctx out = A.absorbed octx.ctx out ++ input.read n.toNat ∧
    A.absorbed octx'.ctx (!out) = A.absorbed octx.ctx (!out)
  refused : 2 ^ 31 ≤ n.toNat → ret ≠ 0

/-- What a successful call then did to each stream. -/
theorem TakesWhole.stream {E : Evp σ} {A : E.Absorbing} {octx : OpensslGenericCtx σ} {out : Bool} {input : Bytes}
    {n : BitVec 64} {ctx : Option (OpensslGenericCtx σ)} (h : TakesWhole A octx out input n 0 ctx) :
    ∃ octx', ctx = some octx' ∧ ∀ stream, A.absorbed octx'.ctx stream =
      A.absorbed octx.ctx stream ++ if out = stream then input.read n.toNat else [] := by
  obtain ⟨octx', hctx, hsame, hother⟩ := h.taken rfl
  refine ⟨octx', hctx, ?_⟩
  intro stream
  by_cases hstream : out = stream
  · rw [if_pos hstream, ← hstream]
    exact hsame
  · obtain rfl : stream = !out := by
      cases stream <;> cases out <;> simp_all
    rw [if_neg hstream, List.append_nil]
    exact hother

/-! ### The length as an `int` -/

theorem toCInt_eq (n : BitVec 64) : toCInt n =
    if n.toNat % 2 ^ 32 < 2 ^ 31 then ((n.toNat % 2 ^ 32 : ℕ) : ℤ) else ((n.toNat % 2 ^ 32 : ℕ) : ℤ) - 2 ^ 32 := by
  rw [toCInt, BitVec.toInt_eq_toNat_cond, BitVec.toNat_setWidth]
  split_ifs <;> omega

theorem toCInt_of_lt {n : BitVec 64} (h : n.toNat < 2 ^ 31) : toCInt n = n.toNat := by
  rw [toCInt_eq, Nat.mod_eq_of_lt (by omega), if_pos h]

theorem toCInt_neg {n : BitVec 64} (h : 2 ^ 31 ≤ n.toNat % 2 ^ 32) : toCInt n < 0 := by
  have hlt : n.toNat % 2 ^ 32 < 2 ^ 32 := Nat.mod_lt _ (by omega)
  rw [toCInt_eq, if_neg (by omega)]
  omega

theorem toCInt_nonneg {n : BitVec 64} (h : n.toNat % 2 ^ 32 < 2 ^ 31) : 0 ≤ toCInt n := by
  rw [toCInt_eq, if_pos h]
  omega

/-! ### One call -/

variable (E : Evp σ) (order : ByteOrder) (A : E.Absorbing)

/-- A call of the adaptor for `EVP_CipherUpdate`. -/
theorem opensslGenericCtxUpdate_takes (octx : OpensslGenericCtx σ) (out : Bool) (input : Bytes) {n : BitVec 64}
    (olen : BitVec 64) (h : LengthKept n) :
    TakesWhole A octx out input n (opensslGenericCtxUpdate E order octx (some input) n out olen).ret
      (some (opensslGenericCtxUpdate E order octx (some input) n out olen).ctx) := by
  simp only [opensslGenericCtxUpdate]
  rcases h with hlt | hneg
  · constructor
    · intro hret
      have hone : (E.cipherUpdate octx.ctx out (some input) (toCInt n)).ret = 1 := by
        by_contra hne
        rw [if_pos hne] at hret
        cases hret
      obtain ⟨hsame, hother⟩ := A.taken octx.ctx out input (toCInt n) (by rw [toCInt_of_lt hlt]; omega) hone
      refine ⟨_, rfl, ?_, hother⟩
      rw [hsame, toCInt_of_lt hlt, Int.toNat_natCast]
    · intro hge
      omega
  · have hfails : ¬(E.cipherUpdate octx.ctx out (some input) (toCInt n)).ret = 1 :=
      A.refused octx.ctx out input (toCInt n) (toCInt_neg hneg)
    rw [if_pos hfails]
    constructor
    · intro hret
      cases hret
    · intro _ hret
      cases hret

/-- With any other length it succeeds, though OpenSSL was not given all. -/
theorem opensslGenericCtxUpdate_drops {octx : OpensslGenericCtx σ} {out : Bool} {input : Bytes} {n : BitVec 64}
    (olen : BitVec 64) (hready : A.Ready octx.ctx out) (h : ¬LengthKept n) :
    (opensslGenericCtxUpdate E order octx (some input) n out olen).ret = 0 ∧ 2 ^ 31 ≤ n.toNat := by
  obtain ⟨hge, hpos⟩ := not_or.mp h
  have hone := A.accepted octx.ctx out input (toCInt n) hready (toCInt_nonneg (by omega))
  constructor
  · simp only [opensslGenericCtxUpdate, hone]
    rfl
  · omega

theorem opensslGenericCtxUpdate_takes_iff {octx : OpensslGenericCtx σ} {out : Bool} {input : Bytes} {n : BitVec 64}
    (olen : BitVec 64) (hready : A.Ready octx.ctx out) :
    TakesWhole A octx out input n (opensslGenericCtxUpdate E order octx (some input) n out olen).ret
      (some (opensslGenericCtxUpdate E order octx (some input) n out olen).ctx) ↔ LengthKept n := by
  constructor
  · intro htakes
    by_contra hlost
    obtain ⟨hret, hge⟩ := opensslGenericCtxUpdate_drops E order A olen hready hlost
    exact htakes.refused hge hret
  · exact opensslGenericCtxUpdate_takes E order A octx out input olen

/-! ### A sequence of calls -/

/-- A call that gives input to a context. -/
inductive InputCall where
  /-- `cfe_cipher_ctx_update`, with a place for output or without. -/
  | update (input : Bytes) (ilen : BitVec 64) (out : Bool) (olen : BitVec 64)
  /-- `cfe_cipher_ctx_set_aad`. -/
  | setAad (aad : Bytes) (asize : BitVec 64)

namespace InputCall

/-- The length of the input. -/
def length : InputCall → BitVec 64
  | update _ ilen _ _ => ilen
  | setAad _ asize => asize

/-- The bytes of the input that belong to a stream. -/
def bytes (stream : Bool) : InputCall → List UInt8
  | update input ilen out _ => if out = stream then input.read ilen.toNat else []
  | setAad aad asize => if false = stream then aad.read asize.toNat else []

/-- The call: its return value and the context. -/
def call (ctx : Option (OpensslGenericCtx σ)) : InputCall → ℤ × Option (OpensslGenericCtx σ)
  | update input ilen out olen =>
    let r := cfeCipherCtxUpdate E order ctx (some input) ilen out olen
    (r.1.ret, r.1.ctx)
  | setAad aad asize =>
    let r := cfeCipherCtxSetAad E order ctx (some aad) asize
    (r.ret, r.ctx)

end InputCall

/-- The context after a sequence of calls, when all of them succeed. -/
def inputRun (ctx : Option (OpensslGenericCtx σ)) : List InputCall → Option (Option (OpensslGenericCtx σ))
  | [] => some ctx
  | c :: calls =>
    match c.call E order ctx with
    | (0, ctx) => inputRun ctx calls
    | _ => none

/-- A call that succeeds takes in its input, and nothing else. -/
theorem InputCall.call_takes {octx : OpensslGenericCtx σ} {c : InputCall} {ctx : Option (OpensslGenericCtx σ)}
    (hc : LengthKept c.length) (h : c.call E order (some octx) = (0, ctx)) :
    ∃ octx', ctx = some octx' ∧
      ∀ stream, A.absorbed octx'.ctx stream = A.absorbed octx.ctx stream ++ c.bytes stream := by
  cases c with
  | update input ilen out olen =>
    have htakes := opensslGenericCtxUpdate_takes E order A octx out input olen hc
    obtain ⟨hret, rfl⟩ := Prod.mk.inj h
    simp only [cfeCipherCtxUpdate, InputCall.length] at hret htakes
    rw [hret] at htakes
    exact htakes.stream
  | setAad aad asize =>
    have htakes := opensslGenericCtxUpdate_takes E order A octx false aad 0 hc
    simp only [InputCall.call, cfeCipherCtxSetAad] at h
    split at h
    · cases h
    · obtain ⟨hret, rfl⟩ := Prod.mk.inj h
      simp only [CtxCall.ofAdaptor, opensslGenericCtxSetAad, InputCall.length] at hret htakes
      rw [hret] at htakes
      exact htakes.stream

/-- A sequence of them takes in all the inputs, one after the other. -/
theorem inputRun_takes {octx : OpensslGenericCtx σ} {calls : List InputCall} {ctx : Option (OpensslGenericCtx σ)}
    (hcalls : ∀ c ∈ calls, LengthKept c.length) (h : inputRun E order (some octx) calls = some ctx) :
    ∃ octx', ctx = some octx' ∧
      ∀ stream, A.absorbed octx'.ctx stream = A.absorbed octx.ctx stream ++ calls.flatMap (·.bytes stream) := by
  induction calls generalizing octx with
  | nil =>
    obtain rfl := Option.some.inj h
    exact ⟨octx, rfl, fun stream => by simp⟩
  | cons c calls ih =>
    simp only [inputRun] at h
    split at h
    · next ctx' hcall =>
      obtain ⟨octx', rfl, htaken⟩ := c.call_takes E order A (hcalls c List.mem_cons_self) hcall
      obtain ⟨octx'', rfl, hrest⟩ := ih (fun d hd => hcalls d (List.mem_cons_of_mem _ hd)) h
      refine ⟨octx'', rfl, ?_⟩
      intro stream
      rw [hrest, htaken, List.flatMap_cons, List.append_assoc]
    · cases h

/-- **A call takes its whole input**, or fails when OpenSSL cannot be given that many bytes
in one call, exactly when the length is kept or turned negative on the way. This is so
of `cfe_cipher_ctx_update`, and of `cfe_cipher_ctx_set_aad` on an AEAD type; and in any
sequence of successful calls with such lengths the bytes encrypted and the bytes
authenticated are the concatenation of all the inputs. -/
theorem update_takes_whole_input (octx : OpensslGenericCtx σ) :
    (∀ (input : Bytes) (n : BitVec 64) (out : Bool) (olen : BitVec 64), A.Ready octx.ctx out →
      (TakesWhole A octx out input n (cfeCipherCtxUpdate E order (some octx) (some input) n out olen).1.ret
        (cfeCipherCtxUpdate E order (some octx) (some input) n out olen).1.ctx ↔ LengthKept n)) ∧
    (octx.type.isAead = true → A.Ready octx.ctx false → ∀ (aad : Bytes) (n : BitVec 64),
      (TakesWhole A octx false aad n (cfeCipherCtxSetAad E order (some octx) (some aad) n).ret
        (cfeCipherCtxSetAad E order (some octx) (some aad) n).ctx ↔ LengthKept n)) ∧
    (∀ (calls : List InputCall) (ctx : Option (OpensslGenericCtx σ)), (∀ c ∈ calls, LengthKept c.length) →
      inputRun E order (some octx) calls = some ctx → ∃ octx', ctx = some octx' ∧
        ∀ stream, A.absorbed octx'.ctx stream =
          A.absorbed octx.ctx stream ++ calls.flatMap (·.bytes stream)) := by
  refine ⟨?_, ?_, ?_⟩
  · intro input n out olen hready
    exact opensslGenericCtxUpdate_takes_iff E order A olen hready
  · intro haead hready aad n
    simp only [cfeCipherCtxSetAad, haead, Bool.not_true, Bool.false_eq_true, if_false, CtxCall.ofAdaptor,
      opensslGenericCtxSetAad]
    exact opensslGenericCtxUpdate_takes_iff E order A 0 hready
  · intro calls ctx hcalls h
    exact inputRun_takes E order A hcalls h

/-! ### OpenSSL as long as it is only given additional data -/

/-- A GCM context that has been given a key and an iv: the additional data so far. -/
structure AadCtx where
  /-- The additional data. -/
  aad : List UInt8

/-- OpenSSL authenticating additional data; it gives up on everything else. -/
def evpAad : Evp AadCtx where
  zeroed := ⟨[]⟩
  keyLength c := c.keyBytes
  cipherInit s _ _ _ _ := (0, s)
  ctrl s _ _ _ := (0, s, [])
  setPadding s _ := (1, s)
  cipherUpdate s out input inl :=
    match out, input with
    | false, some input =>
      if 0 ≤ inl then ⟨1, ⟨s.aad ++ input.read inl.toNat⟩, [], some (BitVec.ofInt 32 inl)⟩ else ⟨0, s, [], none⟩
    | _, _ => ⟨0, s, [], none⟩
  cipherFinal s _ := ⟨0, s, [], none⟩
  cipherOf _ := some .aes128Gcm
  keyInForce _ := some (List.replicate 16 0)

/-- What it takes in. -/
def evpAadAbsorbing : evpAad.Absorbing where
  absorbed s out := if out then [] else s.aad
  Ready _ out := out = false
  accepted s out input inl hready hinl := by
    subst hready
    simp [evpAad, hinl]
  taken s out input inl hinl hret := by
    cases out with
    | true => simp [evpAad] at hret
    | false => simp [evpAad, hinl]
  refused s out input inl hinl := by
    cases out with
    | true => simp [evpAad]
    | false => simp [evpAad, not_le.mpr hinl]

/-- A GCM context. -/
def aadCtx : OpensslGenericCtx AadCtx := ⟨.aes128Gcm, ⟨[]⟩, .aesGcm128⟩

/-- Five bytes of additional data are taken in. -/
theorem update_takes_whole_input_five :
    TakesWhole evpAadAbsorbing aadCtx false (fun _ => 0x61) 5
      (cfeCipherCtxSetAad evpAad .little (some aadCtx) (some fun _ => 0x61) 5).ret
      (cfeCipherCtxSetAad evpAad .little (some aadCtx) (some fun _ => 0x61) 5).ctx :=
  ((update_takes_whole_input evpAad .little evpAadAbsorbing aadCtx).2.1 rfl rfl (fun _ => 0x61) 5).mpr
    (.inl (by decide))

/-- Of `2 ^ 32 + 5` bytes only five are, and `cfe_cipher_ctx_set_aad` returns `0`. -/
theorem setAad_drops_input :
    ∃ octx, (cfeCipherCtxSetAad evpAad .little (some aadCtx) (some fun _ => 0x61) 0x100000005).ret = 0 ∧
      (cfeCipherCtxSetAad evpAad .little (some aadCtx) (some fun _ => 0x61) 0x100000005).ctx = some octx ∧
      evpAadAbsorbing.absorbed octx.ctx false = List.replicate 5 0x61 ∧
      ¬TakesWhole evpAadAbsorbing aadCtx false (fun _ => 0x61) 0x100000005
        (cfeCipherCtxSetAad evpAad .little (some aadCtx) (some fun _ => 0x61) 0x100000005).ret
        (cfeCipherCtxSetAad evpAad .little (some aadCtx) (some fun _ => 0x61) 0x100000005).ctx := by
  refine ⟨_, rfl, rfl, rfl, ?_⟩
  intro h
  exact h.refused (by decide) rfl

end LibCfe
