import LibCfe.Crypto.CipherCtx
import LibCfe.Theory.Transition

/-!
# The key that data is processed under

A caller allocates a context and then calls `init`, `set_padding`, `set_aad`,
`set_tag`, `get_tag`, `update` and `finalize` on it in any order and with any
arguments. `Session` is the context together with what has been asked of `init`.

`cfe_cipher_ctx_init` calls the key mandatory, but only compares its length. On a
CBC type, `init` with a `NULL` key therefore drops the earlier key, sets none and
returns 0, and OpenSSL lets `update` go on without one. An `init` that fails in
OpenSSL also leaves the context without a key, and says so.

## What is proved

* `opensslGenericCtxInit_key` — what is left of the key after `init`.
* `Session.inv` — in every run, the key in force is that of the latest `init` that
  passed the checks, if it had a key and succeeded, and there is none otherwise.
* `update_keyGiven_iff` — so an `update` that succeeds runs under the key given
  just when that `init` had a key and succeeded.
* `update_keyGiven` — which holds in every run in which `init` on a CBC type is given
  a key and OpenSSL takes it. The GCM types need no such promise, because OpenSSL
  checks there that a key was set.
-/

namespace LibCfe

open Theory

variable {σ : Type}

/-! ### Calls on a context -/

/-- The arguments of `cfe_cipher_ctx_init`. -/
structure InitArgs where
  /-- `mode`. -/
  mode : CfeCipherMode
  /-- `key`. -/
  key : Option Bytes
  /-- `ksize`. -/
  ksize : BitVec 64
  /-- `iv`. -/
  iv : Option Bytes
  /-- `isize`. -/
  isize : BitVec 64

/-- A call on a context. -/
inductive CtxAction where
  /-- `cfe_cipher_ctx_init`. -/
  | init (args : InitArgs)
  /-- `cfe_cipher_ctx_set_padding`. -/
  | setPadding (on : BitVec 32)
  /-- `cfe_cipher_ctx_set_aad`. -/
  | setAad (aad : Option Bytes) (asize : BitVec 64)
  /-- `cfe_cipher_ctx_set_tag`. -/
  | setTag (tag : Option Bytes) (tsize : BitVec 64)
  /-- `cfe_cipher_ctx_get_tag`. -/
  | getTag (tag : Option Bytes) (tsize : BitVec 64)
  /-- `cfe_cipher_ctx_update`. -/
  | update (input : Option Bytes) (ilen : BitVec 64) (out : Bool) (olen : BitVec 64)
  /-- `cfe_cipher_ctx_finalize`. -/
  | finalize (out : Bool) (olen : BitVec 64)

/-- A context, and what has been asked of `init`. -/
structure Session (σ : Type) where
  /-- The context; `none` is `NULL`. -/
  ctx : Option (OpensslGenericCtx σ)
  /-- The key pointer of the latest `init` that returned 0. -/
  initialized : Option (Option Bytes)
  /-- The latest `init` that the checks of the front end let through: its key pointer,
  and whether it returned 0. -/
  attempted : Option (Option Bytes × Bool)

/-- The front end lets these arguments through. -/
def OpensslGenericCtx.accepts (octx : OpensslGenericCtx σ) (args : InitArgs) : Bool :=
  !(args.iv.isSome && decide (octx.type.struct.ivsize < args.isize)) && args.ksize == octx.type.struct.keysize

variable (E : Evp σ) (order : ByteOrder)

/-- What a call leaves of the session. -/
def Session.after (s : Session σ) : CtxAction → Session σ
  | .init args =>
      let r := cfeCipherCtxInit E s.ctx args.mode args.key args.ksize args.iv args.isize
      { ctx := r.ctx
        initialized := if r.ret = 0 then some args.key else s.initialized
        attempted := if s.ctx.any (·.accepts args) then some (args.key, r.ret == 0) else s.attempted }
  | .setPadding on => { s with ctx := (cfeCipherCtxSetPadding E s.ctx on).ctx }
  | .setAad aad asize => { s with ctx := (cfeCipherCtxSetAad E order s.ctx aad asize).ctx }
  | .setTag tag tsize => { s with ctx := (cfeCipherCtxSetTag E s.ctx tag tsize).ctx }
  | .getTag tag tsize => { s with ctx := (cfeCipherCtxGetTag E s.ctx tag tsize).1.ctx }
  | .update input ilen out olen => { s with ctx := (cfeCipherCtxUpdate E order s.ctx input ilen out olen).1.ctx }
  | .finalize out olen => { s with ctx := (cfeCipherCtxFinalize E order s.ctx out olen).1.ctx }

/-- The sessions of a context allocated by name, with the types that are registered then. -/
def sessions (algname : CString) (types : Registry OpensslType) : System (Session σ) CtxAction where
  init := ⟨(cfeCipherAllocCtx E algname types).1, none, none⟩
  step s a := some (s.after E order a)

/-- The key in force is as many bytes as the type takes, from the key pointer of the
latest `init` that returned 0, which was not `NULL`. -/
def Session.KeyGiven (s : Session σ) : Prop :=
  ∃ octx key, s.ctx = some octx ∧ s.initialized = some (some key) ∧
    E.keyInForce octx.ctx = some (key.read octx.type.struct.keysize.toNat)

/-- OpenSSL accepts the cipher of the context, and then this key. -/
def OpensslGenericCtx.Takes (octx : OpensslGenericCtx σ) (key : Bytes) (args : InitArgs) : Prop :=
  (E.cipherInit octx.ctx (some octx.cipher) none none args.mode.toInt).1 = 1 ∧
    (E.cipherInit (E.cipherInit octx.ctx (some octx.cipher) none none args.mode.toInt).2 none (some key)
      args.iv args.mode.toInt).1 = 1

/-- A step at which an `init` of a CBC context is refused by the front end, or is given a
key that OpenSSL takes. -/
def GivesKey (s : Session σ) (a : CtxAction) (_ : Session σ) : Prop :=
  ∀ octx args, s.ctx = some octx → a = .init args → octx.type.isAead = false → octx.accepts args = true →
    ∃ key, args.key = some key ∧ octx.Takes E key args

/-! ### Each call -/

variable {E}

theorem keyLength_eq (hE : E.Documented) {octx : OpensslGenericCtx σ} (hown : octx.cipher = octx.type.evpCipher) :
    BitVec.ofInt 64 (E.keyLength octx.cipher) = octx.type.struct.keysize := by
  rw [hE.keyLength, hown]
  cases octx.type <;> rfl

/-- What is left of the key after `init` of a context with the cipher of its type: the
key it was given when it returns 0, none otherwise. The cipher of the context in
OpenSSL is its own, or what it was before. -/
theorem opensslGenericCtxInit_key (hE : E.Documented) {octx : OpensslGenericCtx σ}
    (hown : octx.cipher = octx.type.evpCipher) (mode : CfeCipherMode) (key iv : Option Bytes)
    (isize : BitVec 64) :
    ∃ res e, opensslGenericCtxInit E octx mode key octx.type.struct.keysize iv isize =
        (res, { octx with ctx := e }) ∧
      (E.cipherOf e = some octx.cipher ∨ E.cipherOf e = none ∨ E.cipherOf e = E.cipherOf octx.ctx) ∧
      E.keyInForce e = if res = 0 then key.map (·.read octx.type.struct.keysize.toNat) else none := by
  have hlen := keyLength_eq hE hown
  have hread : octx.type.struct.keysize.toNat = octx.cipher.keyBytes := by
    rw [hown]
    exact octx.type.keysize_toNat
  -- the first call drops the key
  have hdrop := hE.cipher_key octx.ctx octx.cipher none mode.toInt
  have hset := hE.cipher_cipher octx.ctx octx.cipher none mode.toInt
  unfold opensslGenericCtxInit
  rw [if_neg (not_not.mpr hlen)]
  generalize E.cipherInit octx.ctx (some octx.cipher) none none mode.toInt = first at hdrop hset ⊢
  by_cases h₁ : first.1 = 1
  · rw [if_neg (not_not.mpr h₁)]
    have hcipher : E.cipherOf first.2 = some octx.cipher := by
      rcases hset with h | ⟨hne, -⟩
      · exact h
      · exact absurd h₁ hne
    -- setting the length of the iv changes neither
    have hiv : E.SameKey first.2 (if octx.type.isAead then E.ctrl first.2 .gcmSetIvlen (toCInt isize) none
        else (1, first.2, [])).2.1 := by
      split
      · exact hE.ctrl_same first.2 .gcmSetIvlen (toCInt isize) none
      · exact Evp.SameKey.refl first.2
    generalize (if octx.type.isAead then E.ctrl first.2 .gcmSetIvlen (toCInt isize) none
      else (1, first.2, [])) = ivlen at hiv ⊢
    have hcipher' := hiv.2.trans hcipher
    have hnone := hiv.1.trans hdrop
    by_cases h₂ : ivlen.1 = 1
    · rw [if_neg (not_not.mpr h₂)]
      refine ⟨_, _, rfl, .inl ((hE.cipherOf_init _ key iv mode.toInt).trans hcipher'), ?_⟩
      rw [hread, hE.keyInForce_init hcipher' hnone]
      by_cases h₃ : (E.cipherInit ivlen.2.1 none key iv mode.toInt).1 = 1 <;> simp [h₃]
    · rw [if_pos h₂]
      exact ⟨_, _, rfl, .inl hcipher', by rw [hnone]; rfl⟩
  · rw [if_pos h₁]
    refine ⟨_, _, rfl, ?_, by rw [hdrop]; rfl⟩
    rcases hset with h | ⟨-, h | h⟩
    · exact .inl h
    · exact .inr (.inl h)
    · exact .inr (.inr h)

/-- `init` of a CBC context with a key that OpenSSL takes returns 0. -/
theorem opensslGenericCtxInit_takes (hE : E.Documented) {octx : OpensslGenericCtx σ}
    (hown : octx.cipher = octx.type.evpCipher) (hcbc : octx.type.isAead = false) {args : InitArgs} {key : Bytes}
    (htakes : octx.Takes E key args) :
    (opensslGenericCtxInit E octx args.mode (some key) octx.type.struct.keysize args.iv args.isize).1 = 0 := by
  have hlen := keyLength_eq hE hown
  obtain ⟨hfirst, hlast⟩ := htakes
  simp [opensslGenericCtxInit, hlen, hfirst, hcbc, hlast]

/-- Arguments that the front end does not let through change nothing. -/
theorem Session.after_refused {s : Session σ} {args : InitArgs} (h : s.ctx.any (·.accepts args) = false) :
    s.after E order (.init args) = s := by
  obtain ⟨ctx, initialized, attempted⟩ := s
  cases ctx with
  | none => rfl
  | some octx =>
    have hret : cfeCipherCtxInit E (some octx) args.mode args.key args.ksize args.iv args.isize =
        .invalid (some octx) := by
      have hacc : octx.accepts args = false := h
      simp only [OpensslGenericCtx.accepts, Bool.and_eq_false_iff, Bool.not_eq_false', Bool.and_eq_true,
        decide_eq_true_eq, beq_eq_false_iff_ne] at hacc
      simp only [cfeCipherCtxInit]
      rcases hacc with hiv | hkey
      · rw [if_pos hiv]
      · rw [if_pos hkey, ite_self]
    simp only [Session.after, hret, CtxCall.invalid, h]
    rfl

/-- Arguments that it lets through go to the adaptor. -/
theorem Session.after_accepted {s : Session σ} {octx : OpensslGenericCtx σ} {args : InitArgs}
    (hctx : s.ctx = some octx) (h : octx.accepts args = true) {res : ℤ} {octx' : OpensslGenericCtx σ}
    (hinit : opensslGenericCtxInit E octx args.mode args.key octx.type.struct.keysize args.iv args.isize =
      (res, octx')) :
    s.after E order (.init args) =
      ⟨some octx', if res = 0 then some args.key else s.initialized, some (args.key, res == 0)⟩ := by
  obtain ⟨ctx, initialized, attempted⟩ := s
  obtain rfl : ctx = some octx := hctx
  have hany : (some octx).any (·.accepts args) = true := h
  simp only [OpensslGenericCtx.accepts, Bool.and_eq_true, Bool.not_eq_true', beq_iff_eq] at h
  obtain ⟨hiv, hkey⟩ := h
  have hiv' : ¬(args.iv.isSome = true ∧ octx.type.struct.ivsize < args.isize) := by
    intro hcon
    rw [hcon.1, decide_eq_true hcon.2] at hiv
    cases hiv
  have hret : cfeCipherCtxInit E (some octx) args.mode args.key args.ksize args.iv args.isize =
      ⟨res, none, some octx'⟩ := by
    simp only [cfeCipherCtxInit]
    rw [if_neg hiv', if_neg (not_not.mpr hkey), hkey, hinit]
    rfl
  simp only [Session.after, hret, hany, if_true]

/-- The same block, with a context of OpenSSL that has the same key and cipher. -/
def OpensslGenericCtx.Kept (E : Evp σ) (octx octx' : OpensslGenericCtx σ) : Prop :=
  ∃ e, octx' = { octx with ctx := e } ∧ E.SameKey octx.ctx e

/-- The other calls ask nothing of `init` and leave the key alone. -/
theorem Session.after_kept (hE : E.Documented) (s : Session σ) {a : CtxAction} (ha : ∀ args, a ≠ .init args) :
    (s.after E order a).initialized = s.initialized ∧ (s.after E order a).attempted = s.attempted ∧
      ∀ octx', (s.after E order a).ctx = some octx' → ∃ octx, s.ctx = some octx ∧ octx.Kept E octx' := by
  obtain ⟨ctx, initialized, attempted⟩ := s
  -- a call that goes to the adaptor, and one that does not
  have hdone : ∀ {octx : OpensslGenericCtx σ} {e : σ}, E.SameKey octx.ctx e → ∀ octx',
      some ({ octx with ctx := e } : OpensslGenericCtx σ) = some octx' →
        ∃ octx₀, some octx = some octx₀ ∧ octx₀.Kept E octx' := by
    intro octx e hsame octx' h
    exact ⟨octx, rfl, e, (Option.some.inj h).symm, hsame⟩
  have hrefused : ∀ octx', ctx = some octx' → ∃ octx, ctx = some octx ∧ octx.Kept E octx' := by
    intro octx' h
    exact ⟨octx', h, octx'.ctx, rfl, Evp.SameKey.refl _⟩
  cases ctx with
  | none =>
    cases a with
    | init args => exact absurd rfl (ha args)
    | setPadding on => exact ⟨rfl, rfl, hrefused⟩
    | setAad aad asize => exact ⟨rfl, rfl, hrefused⟩
    | setTag tag tsize => exact ⟨rfl, rfl, hrefused⟩
    | getTag tag tsize => exact ⟨rfl, rfl, hrefused⟩
    | update input ilen out olen => exact ⟨rfl, rfl, hrefused⟩
    | finalize out olen => exact ⟨rfl, rfl, hrefused⟩
  | some octx =>
    cases a with
    | init args => exact absurd rfl (ha args)
    | setPadding on => exact ⟨rfl, rfl, hdone (hE.setPadding_same octx.ctx _)⟩
    | setAad aad asize =>
      refine ⟨rfl, rfl, ?_⟩
      simp only [Session.after, cfeCipherCtxSetAad]
      split
      · exact hrefused
      · exact hdone (hE.update_same octx.ctx false aad _)
    | setTag tag tsize =>
      refine ⟨rfl, rfl, ?_⟩
      simp only [Session.after, cfeCipherCtxSetTag]
      split
      · exact hrefused
      · exact hdone (hE.ctrl_same octx.ctx .gcmSetTag _ tag)
    | getTag tag tsize =>
      refine ⟨rfl, rfl, ?_⟩
      simp only [Session.after, cfeCipherCtxGetTag]
      split
      · exact hrefused
      · exact hdone (hE.ctrl_same octx.ctx .gcmGetTag _ tag)
    | update input ilen out olen => exact ⟨rfl, rfl, hdone (hE.update_same octx.ctx out input _)⟩
    | finalize out olen => exact ⟨rfl, rfl, hdone (hE.final_same octx.ctx out)⟩

/-- What a call does: it leaves the key and what was asked of `init`, or it is an `init`
that the front end lets through. -/
theorem Session.after_cases (hE : E.Documented) (s : Session σ) (a : CtxAction) :
    ((s.after E order a).initialized = s.initialized ∧ (s.after E order a).attempted = s.attempted ∧
      ∀ octx', (s.after E order a).ctx = some octx' → ∃ octx, s.ctx = some octx ∧ octx.Kept E octx') ∨
    ∃ octx args, a = .init args ∧ s.ctx = some octx ∧ octx.accepts args = true := by
  by_cases ha : ∃ args, a = .init args
  · obtain ⟨args, rfl⟩ := ha
    cases hacc : s.ctx.any (·.accepts args) with
    | false =>
      rw [Session.after_refused order hacc]
      refine .inl ⟨rfl, rfl, ?_⟩
      intro octx hctx
      exact ⟨octx, hctx, octx.ctx, rfl, Evp.SameKey.refl _⟩
    | true =>
      obtain ⟨octx, hctx, hacc⟩ := (Option.any_eq_true _ _).mp hacc
      exact .inr ⟨octx, args, rfl, hctx, hacc⟩
  · left
    apply Session.after_kept order hE s
    intro args h
    exact ha ⟨args, h⟩

/-! ### The invariant -/

/-- The key that the latest `init` let through by the checks leaves in force. -/
def Session.keyLeft (s : Session σ) (type : OpensslType) : Option (List UInt8) :=
  match s.attempted with
  | some (some key, true) => some (key.read type.struct.keysize.toNat)
  | _ => none

/-- What is known of the context of a session. -/
structure Session.Inv (E : Evp σ) (s : Session σ) (octx : OpensslGenericCtx σ) : Prop where
  /-- Its cipher is that of its type. -/
  own : octx.cipher = octx.type.evpCipher
  /-- OpenSSL has that cipher, or none. -/
  cipher : E.cipherOf octx.ctx = some octx.cipher ∨ E.cipherOf octx.ctx = none
  /-- It has none before `init` got that far. -/
  untouched : s.attempted = none → E.cipherOf octx.ctx = none
  /-- The key in force is the one that `init` left. -/
  key : E.keyInForce octx.ctx = s.keyLeft octx.type
  /-- An `init` that returned 0 after the checks is the latest that returned 0. -/
  latest : ∀ key, s.attempted = some (key, true) → s.initialized = some key

/-- It holds of a new context. -/
theorem Session.Inv.init (hE : E.Documented) {algname : CString} {types : Registry OpensslType}
    {octx : OpensslGenericCtx σ} (h : (cfeCipherAllocCtx E algname types).1 = some octx) :
    Session.Inv E (sessions E order algname types).init octx := by
  have hoctx : ∃ type, octx = { opensslAllocCtx E ⟨type, type.evpCipher⟩ with type := type } := by
    simp only [cfeCipherAllocCtx] at h
    split at h
    · cases h
    · next type types' hf =>
      rw [type.allocCtx_eq] at h
      exact ⟨type, (Option.some.inj h).symm⟩
  obtain ⟨type, rfl⟩ := hoctx
  constructor
  · rfl
  · exact .inr hE.zeroed_cipher
  · intro _
    exact hE.zeroed_cipher
  · exact hE.zeroed_key
  · intro key hkey
    cases hkey

/-- An `init` that the front end lets through keeps it. -/
theorem Session.Inv.afterInit (hE : E.Documented) {s : Session σ} {octx : OpensslGenericCtx σ} {args : InitArgs}
    (h : s.Inv E octx) (hctx : s.ctx = some octx) (hacc : octx.accepts args = true) {octx' : OpensslGenericCtx σ}
    (hctx' : (s.after E order (.init args)).ctx = some octx') : (s.after E order (.init args)).Inv E octx' := by
  obtain ⟨res, e, hinit, hcipher, hkey⟩ :=
    opensslGenericCtxInit_key hE h.own args.mode args.key args.iv args.isize
  rw [Session.after_accepted order hctx hacc hinit] at hctx' ⊢
  obtain rfl := Option.some.inj hctx'
  constructor
  · exact h.own
  · rcases hcipher with hc | hc | hc
    · exact .inl hc
    · exact .inr hc
    · show E.cipherOf e = _ ∨ E.cipherOf e = _
      rw [hc]
      exact h.cipher
  · intro hnone
    cases hnone
  · show E.keyInForce e = _
    rw [hkey]
    by_cases hres : res = 0
    · cases args.key with
      | none => simp [Session.keyLeft, hres]
      | some key => simp [Session.keyLeft, hres]
    · simp [Session.keyLeft, hres]
  · intro key hatt
    obtain ⟨rfl, hres⟩ := Prod.mk.inj (Option.some.inj hatt)
    exact if_pos (by simpa using hres)

/-- So does every other call. -/
theorem Session.Inv.kept {s s' : Session σ} {octx octx' : OpensslGenericCtx σ} (h : s.Inv E octx)
    (hini : s'.initialized = s.initialized) (hatt : s'.attempted = s.attempted) (hkept : octx.Kept E octx') :
    s'.Inv E octx' := by
  obtain ⟨e, rfl, hsame⟩ := hkept
  constructor
  · exact h.own
  · show E.cipherOf e = _ ∨ E.cipherOf e = _
    rw [hsame.2]
    exact h.cipher
  · intro hnone
    rw [hatt] at hnone
    exact hsame.2.trans (h.untouched hnone)
  · have hleft : s'.keyLeft octx.type = s.keyLeft octx.type := by simp only [Session.keyLeft, hatt]
    show E.keyInForce e = s'.keyLeft octx.type
    rw [hleft]
    exact hsame.1.trans h.key
  · intro key hkey
    rw [hatt] at hkey
    rw [hini]
    exact h.latest key hkey

variable {order} {algname : CString} {types : Registry OpensslType} {C : Session σ → CtxAction → Session σ → Prop}

/-- So it holds in every run. -/
theorem Session.inv (hE : E.Documented) {s : Session σ} (h : (sessions E order algname types).Reachable C s) :
    ∀ octx, s.ctx = some octx → s.Inv E octx := by
  apply h.invariant
  · intro octx hoctx
    exact Session.Inv.init order hE hoctx
  · intro t a u ht hstep _ octx' hctx'
    obtain rfl := Option.some.inj hstep
    rcases Session.after_cases order hE t a with ⟨hini, hatt, hkept⟩ | ⟨octx, args, rfl, hctx, hacc⟩
    · obtain ⟨octx, hctx, hkept⟩ := hkept octx' hctx'
      exact (ht octx hctx).kept hini hatt hkept
    · exact (ht octx hctx).afterInit order hE hctx hacc hctx'

/-! ### Updates -/

/-- An `update` that succeeds has a context. -/
theorem ctx_of_update {ctx : Option (OpensslGenericCtx σ)} {input : Option Bytes} {ilen olen : BitVec 64}
    {out : Bool} (h : (cfeCipherCtxUpdate E order ctx input ilen out olen).1.ret = 0) :
    ∃ octx, ctx = some octx ∧ (E.cipherUpdate octx.ctx out input (toCInt ilen)).ret = 1 := by
  cases ctx with
  | none => cases h
  | some octx =>
    refine ⟨octx, rfl, ?_⟩
    by_contra hret
    have hone : (cfeCipherCtxUpdate E order (some octx) input ilen out olen).1.ret = 1 := if_pos hret
    rw [hone] at h
    cases h

/-- An `update` that succeeds runs under the key given to the latest `init` that returned
0, just when the latest `init` let through by the checks had a key and returned 0. -/
theorem update_keyGiven_iff (hE : E.Documented) {s : Session σ}
    (h : (sessions E order algname types).Reachable C s) {input : Option Bytes} {ilen olen : BitVec 64} {out : Bool}
    (hok : (cfeCipherCtxUpdate E order s.ctx input ilen out olen).1.ret = 0) :
    s.KeyGiven E ↔ ∃ key, s.attempted = some (some key, true) := by
  obtain ⟨octx, hctx, -⟩ := ctx_of_update hok
  have hinv := Session.inv hE h octx hctx
  constructor
  · rintro ⟨octx', key, hctx', -, hkey⟩
    obtain rfl : octx = octx' := Option.some.inj (hctx.symm.trans hctx')
    rw [hinv.key] at hkey
    simp only [Session.keyLeft] at hkey
    split at hkey
    · next key' hatt => exact ⟨key', hatt⟩
    · cases hkey
  · rintro ⟨key, hatt⟩
    refine ⟨octx, key, hctx, hinv.latest _ hatt, ?_⟩
    rw [hinv.key, Session.keyLeft, hatt]

/-- When `init` on a CBC context is always given a key that OpenSSL takes, then the latest
one let through by the checks was. -/
theorem Session.attempted_of_givesKey (hE : E.Documented) {s : Session σ}
    (h : (sessions E order algname types).Reachable (GivesKey E) s) :
    ∀ octx, s.ctx = some octx → octx.type.isAead = false →
      s.attempted = none ∨ ∃ key, s.attempted = some (some key, true) := by
  apply h.invariant_with (fun t ht => Session.inv hE ht)
  · intro octx _ _
    exact .inl rfl
  · intro t a u hinv ih hstep hgives octx' hctx' hcbc
    obtain rfl := Option.some.inj hstep
    rcases Session.after_cases order hE t a with ⟨-, hatt, hkept⟩ | ⟨octx, args, rfl, hctx, hacc⟩
    · obtain ⟨octx, hctx, e, rfl, -⟩ := hkept octx' hctx'
      rw [hatt]
      exact ih octx hctx hcbc
    · have hown := (hinv octx hctx).own
      obtain ⟨res, e, hinit, -, -⟩ :=
        opensslGenericCtxInit_key hE hown args.mode args.key args.iv args.isize
      rw [Session.after_accepted order hctx hacc hinit] at hctx' ⊢
      obtain rfl := Option.some.inj hctx'
      obtain ⟨key, hkey, htakes⟩ := hgives octx args hctx rfl hcbc hacc
      have hres := opensslGenericCtxInit_takes hE hown hcbc htakes
      rw [← hkey, hinit] at hres
      simp only at hres
      exact .inr ⟨key, by rw [hkey, hres]; rfl⟩

/-- No data is processed without a key: in every run in which `init` on a CBC context is
always given a key that OpenSSL takes, an `update` that succeeds runs under the key
given to the latest `init` that returned 0. -/
theorem update_keyGiven (hE : E.Documented) {s : Session σ}
    (h : (sessions E order algname types).Reachable (GivesKey E) s) {input : Option Bytes}
    {ilen olen : BitVec 64} {out : Bool}
    (hok : (cfeCipherCtxUpdate E order s.ctx input ilen out olen).1.ret = 0) : s.KeyGiven E := by
  rw [update_keyGiven_iff hE h hok]
  obtain ⟨octx, hctx, hret⟩ := ctx_of_update hok
  have hinv := Session.inv hE h octx hctx
  by_contra hnone
  -- then no key is in force, so OpenSSL has refused unless the cipher is a CBC cipher
  have hkey : E.keyInForce octx.ctx = none := by
    rw [hinv.key, Session.keyLeft]
    split
    · next key hatt => exact absurd ⟨key, hatt⟩ hnone
    · rfl
  obtain ⟨c, hc, hgcm⟩ := hE.update_checks octx.ctx out input (toCInt ilen) hret hkey
  have hcipher : E.cipherOf octx.ctx = some octx.cipher := by
    rcases hinv.cipher with h | h
    · exact h
    · rw [hc] at h
      cases h
  obtain rfl : octx.cipher = c := Option.some.inj (hcipher.symm.trans hc)
  have hcbc : octx.type.isAead = false := by rw [octx.type.isAead_eq, ← hinv.own, hgcm]
  rcases Session.attempted_of_givesKey hE h octx hctx hcbc with hatt | hatt
  · rw [hinv.untouched hatt] at hcipher
    cases hcipher
  · exact hnone hatt

/-! ### With a key and without -/

/-- The registry as the constructor of the OpenSSL types leaves it. -/
def opensslTypes : Registry OpensslType := (cipherOpensslInit .empty).getD .empty

/-- The name `"aes-cbc-128"`. -/
def aesCbc128Name : CString := CString.ofMem OpensslType.aesCbc128.name.toList

/-- The arguments that start an encryption with `key`, which is said to have 16 bytes, and no iv. -/
def encryptWith (key : Option Bytes) : InitArgs := ⟨.encrypt, key, 16, none, 0⟩

/-- The session of a new context of that type after `init` with them. -/
def startedWith (key : Option Bytes) : Session FirstBlock :=
  (sessions evpFirstBlock .little aesCbc128Name opensslTypes).init.after evpFirstBlock .little
    (.init (encryptWith key))

/-- After `init` with a key of zeros, five bytes are processed under that key. -/
theorem update_keyGiven_zeros : (startedWith (some fun _ => 0)).KeyGiven evpFirstBlock := by
  have hrun : (sessions evpFirstBlock .little aesCbc128Name opensslTypes).Reachable (GivesKey evpFirstBlock)
      (startedWith (some fun _ => 0)) := by
    refine ⟨[.init (encryptWith (some fun _ => 0))], .step .refl rfl ?_⟩
    intro octx args hctx hargs _ _
    obtain rfl := CtxAction.init.inj hargs
    obtain rfl := Option.some.inj hctx
    exact ⟨_, rfl, rfl, rfl⟩
  have hok : (cfeCipherCtxUpdate evpFirstBlock .little (startedWith (some fun _ => 0)).ctx (some fun _ => 0)
      5 true 0).1.ret = 0 := rfl
  exact update_keyGiven evpFirstBlock_documented hrun hok

/-- After `init` with `NULL` for a key, which returns 0, they are processed too. -/
theorem update_without_key :
    (sessions evpFirstBlock .little aesCbc128Name opensslTypes).Reachable System.Free (startedWith none) ∧
      (startedWith none).initialized = some none ∧
      (startedWith none).ctx.map (fun octx => evpFirstBlock.keyInForce octx.ctx) = some none ∧
      (cfeCipherCtxUpdate evpFirstBlock .little (startedWith none).ctx (some fun _ => 0) 5 true 0).1.ret = 0 ∧
      ¬(startedWith none).KeyGiven evpFirstBlock := by
  refine ⟨⟨[.init (encryptWith none)], .step .refl rfl trivial⟩, rfl, rfl, rfl, ?_⟩
  rintro ⟨octx, key, -, hini, -⟩
  cases hini

end LibCfe
