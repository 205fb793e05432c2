import LibCfe.Crypto.Contexts
import LibCfe.Crypto.Iv
import LibCfe.Crypto.Key

/-!
# Encrypting and decrypting

Threads allocate, use and destroy contexts of the six OpenSSL types, with any calls of the
front end in any order, the data and the additional data in pieces of any size, while types
are registered and unregistered.

OpenSSL is a parameter, and `Evp.Streaming` is what it documents of the calls that the
adaptor makes, of a context that was set up and with which nothing went wrong since.
`CipherSlot` keeps next to a context what went through it since its last successful
`cfe_cipher_ctx_init`. It keeps nothing once a call failed, or was given a length that the
adaptor cuts, or did what OpenSSL does not describe. An allocation is one that gets memory;
`LibCfe.Crypto.Alloc` has the others.

## What is proved

* `cipher_round_trip` — for every two contexts of one type with the same key, iv, additional
  data and padding, of which one has encrypted and the other has been fed the result: the last
  call of the other succeeds just when the tag is that of the first, or the type has none, and
  then the data is what it was.
* `cipher_contexts_accounted` — the counters of the types count the contexts, the references of
  `cfe_cipher_ref` and the calls in progress, and the type of each of these is registered and
  cannot be unregistered.
-/

namespace LibCfe

open Theory

variable {σ : Type}

/-! ### OpenSSL -/

/-- What went through a context since it was set up. -/
structure CipherStream where
  /-- The cipher. -/
  cipher : EvpCipher
  /-- The mode. -/
  mode : CfeCipherMode
  /-- The key. -/
  key : List UInt8
  /-- The iv. -/
  iv : List UInt8
  /-- The additional data. -/
  aad : List UInt8 := []
  /-- The input. -/
  input : List UInt8 := []
  /-- The output. -/
  output : List UInt8 := []
  /-- The tag that decrypting expects. -/
  tag : Option (List UInt8) := none
  /-- It is over. -/
  final : Bool := false

namespace CipherStream

/-- More additional data, which is possible before the input. -/
def moreAad (x : CipherStream) (data : List UInt8) : Option CipherStream :=
  if x.cipher.isGcm ∧ x.input = [] ∧ x.final = false then some { x with aad := x.aad ++ data } else none

/-- More input, and the output that it gives. -/
def moreInput (x : CipherStream) (data out : List UInt8) : Option CipherStream :=
  if x.final = false then some { x with input := x.input ++ data, output := x.output ++ out } else none

/-- A tag to expect. -/
def expectTag (x : CipherStream) (tag : List UInt8) : Option CipherStream :=
  if x.cipher.isGcm ∧ x.mode = .decrypt ∧ x.final = false then some { x with tag := some tag } else none

/-- The end, and the last of the output. -/
def finish (x : CipherStream) (out : List UInt8) : Option CipherStream :=
  if x.final = false then some { x with output := x.output ++ out, final := true } else none

end CipherStream

/-- What OpenSSL documents of its ciphers. -/
structure Evp.Streaming (E : Evp σ) where
  /-- What a cipher makes of a message, with padding or without, a key and an iv. -/
  encrypt : EvpCipher → Bool → List UInt8 → List UInt8 → List UInt8 → Option (List UInt8)
  /-- The message. -/
  decrypt : EvpCipher → Bool → List UInt8 → List UInt8 → List UInt8 → Option (List UInt8)
  /-- The tag, for a key, an iv, additional data and an encrypted message. -/
  tagOf : EvpCipher → List UInt8 → List UInt8 → List UInt8 → List UInt8 → List UInt8
  decrypt_encrypt : ∀ c pad key iv m x, encrypt c pad key iv m = some x → decrypt c pad key iv x = some m
  /-- What went through a context, if it is set up. -/
  stream : σ → Option CipherStream
  /-- The iv length of a context. -/
  ivLength : σ → ℕ
  /-- Padding is on. -/
  padded : σ → Bool
  keyLength : ∀ c, E.keyLength c = c.keyBytes
  cipher_set : ∀ s c enc, (E.cipherInit s (some c) none none enc).1 = 1 →
    E.cipherOf (E.cipherInit s (some c) none none enc).2 = some c ∧
      (c.isGcm = false → ivLength (E.cipherInit s (some c) none none enc).2 = 16)
  ivLength_set : ∀ s n, 0 ≤ n → (E.ctrl s .gcmSetIvlen n none).1 = 1 →
    E.cipherOf (E.ctrl s .gcmSetIvlen n none).2.1 = E.cipherOf s ∧ ivLength (E.ctrl s .gcmSetIvlen n none).2.1 = n.toNat
  /-- A key and an iv start a stream. -/
  started : ∀ s c key iv mode, E.cipherOf s = some c → (E.cipherInit s none (some key) (some iv) mode.toInt).1 = 1 →
    stream (E.cipherInit s none (some key) (some iv) mode.toInt).2 =
      some { cipher := c, mode := mode, key := key.read c.keyBytes, iv := iv.read (ivLength s) }
  aad_taken : ∀ s x y data n, stream s = some x → 0 ≤ n → x.moreAad (data.read n.toNat) = some y →
    (E.cipherUpdate s false (some data) n).ret = 1 → stream (E.cipherUpdate s false (some data) n).ctx = some y
  input_taken : ∀ s x y data n, stream s = some x → 0 ≤ n → (E.cipherUpdate s true (some data) n).ret = 1 →
    x.moreInput (data.read n.toNat) (E.cipherUpdate s true (some data) n).out = some y →
    stream (E.cipherUpdate s true (some data) n).ctx = some y
  tag_set : ∀ s x y tag n, stream s = some x → 0 ≤ n → x.expectTag (tag.read n.toNat) = some y →
    (E.ctrl s .gcmSetTag n (some tag)).1 = 1 → stream (E.ctrl s .gcmSetTag n (some tag)).2.1 = some y
  /-- The tag of an encrypted message, at the end. -/
  tag_got : ∀ s x ptr n, stream s = some x → x.cipher.isGcm = true → x.mode = .encrypt → x.final = true → 0 ≤ n →
    (E.ctrl s .gcmGetTag n ptr).1 = 1 →
    (E.ctrl s .gcmGetTag n ptr).2.2 = (tagOf x.cipher x.key x.iv x.aad x.output).take n.toNat
  getTag_stream : ∀ s n ptr, (E.ctrl s .gcmGetTag n ptr).1 = 1 → stream (E.ctrl s .gcmGetTag n ptr).2.1 = stream s
  finished : ∀ s x y, stream s = some x → (E.cipherFinal s true).ret = 1 → x.finish (E.cipherFinal s true).out = some y →
    stream (E.cipherFinal s true).ctx = some y
  /-- All the output of encrypting is the encrypted message. -/
  encrypted : ∀ s x, stream s = some x → x.mode = .encrypt → x.final = false → (E.cipherFinal s true).ret = 1 →
    encrypt x.cipher (padded s) x.key x.iv x.input = some (x.output ++ (E.cipherFinal s true).out)
  /-- All the output of decrypting one is the message. -/
  decrypted : ∀ s x m, stream s = some x → x.mode = .decrypt → x.final = false →
    decrypt x.cipher (padded s) x.key x.iv x.input = some m → (E.cipherFinal s true).ret = 1 →
    x.output ++ (E.cipherFinal s true).out = m
  /-- A GCM cipher looks at the tag, at as many bytes as it was given. -/
  verified : ∀ s x m, stream s = some x → x.mode = .decrypt → x.final = false →
    decrypt x.cipher (padded s) x.key x.iv x.input = some m →
    ((E.cipherFinal s true).ret = 1 ↔ (x.cipher.isGcm = true →
      ∃ tag, x.tag = some tag ∧ tag <+: tagOf x.cipher x.key x.iv x.aad x.input))
  /-- Padding is on until it is turned off. -/
  padded_zeroed : padded E.zeroed = true
  cipherInit_padded : ∀ s c key iv enc, padded s = true → padded (E.cipherInit s c key iv enc).2 = true
  setPadding_padded : ∀ s pad, (E.setPadding s pad).1 = 1 → padded (E.setPadding s pad).2 = decide (pad ≠ 0)
  setPadding_stream : ∀ s pad x, (E.setPadding s pad).1 = 1 → stream s = some x → x.input = [] →
    stream (E.setPadding s pad).2 = some x
  ctrl_padded : ∀ s cmd n ptr, padded (E.ctrl s cmd n ptr).2.1 = padded s
  update_padded : ∀ s out data n, padded (E.cipherUpdate s out data n).ctx = padded s
  final_padded : ∀ s out, padded (E.cipherFinal s out).ctx = padded s

/-! ### Contexts and what went through them -/

/-- A context, what went through it since it was initialised, and what is known of its padding. -/
structure CipherSlot (σ : Type) where
  /-- The context. -/
  ctx : OpensslGenericCtx σ
  /-- What went through it. -/
  since : Option CipherStream
  /-- Whether its padding is on. -/
  padding : Option Bool

variable (E : Evp σ) (order : ByteOrder)

namespace CipherSlot

/-- What a context is set up with by a call of `cfe_cipher_ctx_init` that succeeds. -/
def start (slot : CipherSlot σ) (args : InitArgs) : Option CipherStream := do
  let key ← args.key
  let iv ← args.iv
  return { cipher := slot.ctx.type.evpCipher, mode := args.mode, key := key.read args.ksize.toNat
           iv := iv.read (if slot.ctx.type.isAead then args.isize.toNat else 16) }

/-- So many bytes, when they are there and OpenSSL can be told how many. -/
def bytesAt (data : Option Bytes) (n : BitVec 64) : Option (List UInt8) :=
  if n.toNat < 2 ^ 31 then data.map (·.read n.toNat) else none

/-- The slot after a call that leaves padding alone, where `since` holds if the call succeeded. -/
def after (slot : CipherSlot σ) (ret : ℤ) (ctx : Option (OpensslGenericCtx σ)) (since : Option CipherStream) :
    CipherSlot σ :=
  { slot with ctx := ctx.getD slot.ctx, since := if ret = 0 then since else none }

/-- What a call does to a context. -/
def call (slot : CipherSlot σ) : CtxAction → CipherSlot σ
  | .init args =>
    let r := cfeCipherCtxInit E (some slot.ctx) args.mode args.key args.ksize args.iv args.isize
    -- older releases of OpenSSL turn padding on again
    { slot.after r.ret r.ctx (slot.start args) with padding := slot.padding.filter id }
  | .setPadding on =>
    let r := cfeCipherCtxSetPadding E (some slot.ctx) on
    { slot.after r.ret r.ctx (slot.since.filter (·.input.isEmpty)) with
      padding := if r.ret = 0 then some (decide (on ≠ 0)) else none }
  | .setAad aad asize =>
    let r := cfeCipherCtxSetAad E order (some slot.ctx) aad asize
    slot.after r.ret r.ctx (do (← slot.since).moreAad (← bytesAt aad asize))
  | .setTag tag tsize =>
    let r := cfeCipherCtxSetTag E (some slot.ctx) tag tsize
    slot.after r.ret r.ctx (do (← slot.since).expectTag (← bytesAt tag tsize))
  | .getTag tag tsize =>
    let r := (cfeCipherCtxGetTag E (some slot.ctx) tag tsize).1
    slot.after r.ret r.ctx slot.since
  | .update input ilen out olen =>
    let r := (cfeCipherCtxUpdate E order (some slot.ctx) input ilen out olen).1
    slot.after r.ret r.ctx (do
      let data ← bytesAt input ilen
      if out then (← slot.since).moreInput data r.out else (← slot.since).moreAad data)
  | .finalize out olen =>
    let r := (cfeCipherCtxFinalize E order (some slot.ctx) out olen).1
    slot.after r.ret r.ctx (if out then slot.since.bind (·.finish r.out) else none)

end CipherSlot

/-! ### What holds of a context -/

variable {E} {order} {type : OpensslType}

/-- A context of a type, of which everything that is kept is so. -/
structure CipherSlot.Valid (D : E.Streaming) (type : OpensslType) (slot : CipherSlot σ) : Prop where
  type_eq : slot.ctx.type = type
  cipher_eq : slot.ctx.cipher = type.evpCipher
  since : ∀ x, slot.since = some x → D.stream slot.ctx.ctx = some x ∧ x.cipher = type.evpCipher
  padding : ∀ p, slot.padding = some p → D.padded slot.ctx.ctx = p

/-- A call of OpenSSL that the adaptor takes to have succeeded. -/
theorem eq_one_of_ret {r : ℤ} (h : (if r ≠ 1 then (1 : ℤ) else 0) = 0) : r = 1 := by
  by_contra hne
  rw [if_pos hne] at h
  cases h

namespace CipherSlot

/-- Bytes that are there. -/
theorem bytesAt_eq {data : Option Bytes} {n : BitVec 64} {l : List UInt8} (h : bytesAt data n = some l) :
    ∃ p, data = some p ∧ toCInt n = n.toNat ∧ 0 ≤ toCInt n ∧ p.read (toCInt n).toNat = l := by
  rw [bytesAt] at h
  split_ifs at h with hn
  obtain ⟨p, rfl, rfl⟩ := Option.map_eq_some_iff.mp h
  have hlength := toCInt_of_lt hn
  refine ⟨p, rfl, hlength, by omega, ?_⟩
  rw [hlength, Int.toNat_natCast]

variable {slot : CipherSlot σ}

/-- A context is set up with a key and an iv. -/
theorem start_eq_some {args : InitArgs} {x : CipherStream} (h : slot.start args = some x) :
    ∃ key iv, args.key = some key ∧ args.iv = some iv ∧
      x = { cipher := slot.ctx.type.evpCipher, mode := args.mode, key := key.read args.ksize.toNat
            iv := iv.read (if slot.ctx.type.isAead then args.isize.toNat else 16) } := by
  simp only [CipherSlot.start, Option.bind_eq_bind, Option.bind_eq_some_iff] at h
  obtain ⟨key, hkey, iv, hiv, hx⟩ := h
  exact ⟨key, iv, hkey, hiv, (Option.some.inj hx).symm⟩

/-- A call that leaves the type and the cipher of a context, and its padding. -/
theorem Valid.after {D : E.Streaming} (h : slot.Valid D type) {ret : ℤ} {e : σ} {since : Option CipherStream}
    (hpadded : D.padded e = D.padded slot.ctx.ctx)
    (hsince : ret = 0 → ∀ x, since = some x → D.stream e = some x ∧ x.cipher = type.evpCipher) :
    (slot.after ret (some { slot.ctx with ctx := e }) since).Valid D type where
  type_eq := h.type_eq
  cipher_eq := h.cipher_eq
  since x hx := by
    obtain ⟨hret, hx⟩ := Option.ite_none_right_eq_some.mp hx
    exact hsince hret x hx
  padding p hp := hpadded.trans (h.padding p hp)

/-- A call that the front end refuses. -/
theorem Valid.refused {D : E.Streaming} (h : slot.Valid D type) (since : Option CipherStream) :
    (slot.after 1 (some slot.ctx) since).Valid D type :=
  h.after rfl fun hret => absurd hret (by decide)

end CipherSlot

/-! ### Each call -/

section

variable (D : E.Streaming) {octx : OpensslGenericCtx σ} {mode : CfeCipherMode} {isize : BitVec 64}

/-- The iv length, when it is what the caller said or need not be. -/
theorem Evp.Streaming.setIvlen (hc : octx.cipher = octx.type.evpCipher) (hisize : isize.toNat ≤ 16)
    (hfirst : (E.cipherInit octx.ctx (some octx.cipher) none none mode.toInt).1 = 1)
    (hret : (setIvlen E octx mode isize).1 = 1) :
    E.cipherOf (LibCfe.setIvlen E octx mode isize).2.1 = some octx.type.evpCipher ∧
      D.ivLength (LibCfe.setIvlen E octx mode isize).2.1 = if octx.type.isAead then isize.toNat else 16 := by
  obtain ⟨hcipher, hcbc⟩ := D.cipher_set octx.ctx octx.cipher mode.toInt hfirst
  rw [hc] at hcipher hcbc
  cases haead : octx.type.isAead with
  | false =>
    simp only [LibCfe.setIvlen, haead, Bool.false_eq_true, if_false]
    rw [hc]
    exact ⟨hcipher, hcbc (octx.type.isAead_eq.symm.trans haead)⟩
  | true =>
    simp only [LibCfe.setIvlen, haead, if_true] at hret ⊢
    have hlength : toCInt isize = isize.toNat := toCInt_of_lt (by omega)
    obtain ⟨hsame, hlen⟩ := D.ivLength_set _ _ (by omega) hret
    rw [hsame, hlen, hlength, hc]
    exact ⟨hcipher, rfl⟩

/-- Padding that is on stays on. -/
theorem Evp.Streaming.setIvlen_padded (hpadded : D.padded octx.ctx = true) :
    D.padded (LibCfe.setIvlen E octx mode isize).2.1 = true := by
  have hfirst := D.cipherInit_padded octx.ctx (some octx.cipher) none none mode.toInt hpadded
  simp only [LibCfe.setIvlen]
  split_ifs
  · rw [D.ctrl_padded]
    exact hfirst
  · exact hfirst

/-- The adaptor, called with a key and an iv that are there. -/
theorem opensslGenericCtxInit_started (hc : octx.cipher = octx.type.evpCipher) {key iv : Bytes} {ksize : BitVec 64}
    (hisize : isize.toNat ≤ 16) (hret : (opensslGenericCtxInit E octx mode (some key) ksize (some iv) isize).1 = 0) :
    D.stream (opensslGenericCtxInit E octx mode (some key) ksize (some iv) isize).2.ctx =
      some { cipher := octx.type.evpCipher, mode := mode, key := key.read ksize.toNat
             iv := iv.read (if octx.type.isAead then isize.toNat else 16) } := by
  rw [opensslGenericCtxInit_eq] at hret ⊢
  by_cases hkey : BitVec.ofInt 64 (E.keyLength octx.cipher) = ksize
  · rw [if_neg (not_not.mpr hkey)] at hret ⊢
    by_cases hfirst : (E.cipherInit octx.ctx (some octx.cipher) none none mode.toInt).1 = 1
    · rw [if_neg (not_not.mpr hfirst)] at hret ⊢
      by_cases hivlen : (setIvlen E octx mode isize).1 = 1
      · rw [if_neg (not_not.mpr hivlen)] at hret ⊢
        obtain ⟨hcipher, hlen⟩ := D.setIvlen hc hisize hfirst hivlen
        have hksize : ksize.toNat = octx.type.evpCipher.keyBytes := by
          rw [← hkey, D.keyLength, hc]
          cases octx.type <;> rfl
        have hlast := D.started _ _ key iv mode hcipher (by simpa using hret)
        simp only [hlast, hlen, hksize]
      · rw [if_pos hivlen] at hret
        cases hret
    · rw [if_pos hfirst] at hret
      cases hret
  · rw [if_pos hkey] at hret
    cases hret

/-- The adaptor leaves padding on that is on. -/
theorem opensslGenericCtxInit_padded (key iv : Option Bytes) (ksize : BitVec 64)
    (hpadded : D.padded octx.ctx = true) :
    D.padded (opensslGenericCtxInit E octx mode key ksize iv isize).2.ctx = true := by
  rw [opensslGenericCtxInit_eq]
  split_ifs
  · exact hpadded
  · exact D.cipherInit_padded _ _ _ _ _ hpadded
  · exact D.setIvlen_padded hpadded
  · exact D.cipherInit_padded _ _ _ _ _ (D.setIvlen_padded hpadded)

/-- It leaves all but the context of OpenSSL. -/
theorem opensslGenericCtxInit_ctx (key iv : Option Bytes) (ksize : BitVec 64) :
    ∃ e, (opensslGenericCtxInit E octx mode key ksize iv isize).2 = { octx with ctx := e } := by
  rw [opensslGenericCtxInit_eq]
  split_ifs
  all_goals exact ⟨_, rfl⟩

end

namespace CipherSlot

variable {D : E.Streaming} {slot : CipherSlot σ}

/-- What is known of the padding of a context after `init`. -/
theorem Valid.filter (h : slot.Valid D type) {p : Bool} (hp : slot.padding.filter id = some p) :
    D.padded slot.ctx.ctx = true ∧ p = true := by
  obtain ⟨hp, hid⟩ := Option.filter_eq_some_iff.mp hp
  obtain rfl : p = true := hid
  exact ⟨h.padding true hp, rfl⟩

theorem Valid.init (h : slot.Valid D type) (args : InitArgs) : (slot.call E order (.init args)).Valid D type := by
  have hc : slot.ctx.cipher = slot.ctx.type.evpCipher := by
    rw [h.type_eq]
    exact h.cipher_eq
  have hrefused : ({ slot.after 1 (some slot.ctx) (slot.start args) with padding := slot.padding.filter id } :
      CipherSlot σ).Valid D type := by
    refine ⟨h.type_eq, h.cipher_eq, (h.refused (slot.start args)).since, ?_⟩
    intro p hp
    obtain ⟨hpadded, rfl⟩ := h.filter hp
    exact hpadded
  simp only [CipherSlot.call, cfeCipherCtxInit]
  by_cases hiv : args.iv.isSome ∧ slot.ctx.type.struct.ivsize < args.isize
  · rw [if_pos hiv]
    exact hrefused
  rw [if_neg hiv]
  by_cases hkey : args.ksize ≠ slot.ctx.type.struct.keysize
  · rw [if_pos hkey]
    exact hrefused
  rw [if_neg hkey]
  obtain ⟨e, he⟩ : ∃ e, (opensslGenericCtxInit E slot.ctx args.mode args.key args.ksize args.iv args.isize).2 =
      { slot.ctx with ctx := e } := opensslGenericCtxInit_ctx args.key args.iv args.ksize
  refine ⟨?_, ?_, ?_, ?_⟩
  · simp only [CtxCall.ofAdaptor, CipherSlot.after, Option.getD_some, he]
    exact h.type_eq
  · simp only [CtxCall.ofAdaptor, CipherSlot.after, Option.getD_some, he]
    exact h.cipher_eq
  · intro x hx
    obtain ⟨hret, hx⟩ := Option.ite_none_right_eq_some.mp hx
    obtain ⟨key, iv, hkeyarg, hivarg, rfl⟩ := start_eq_some hx
    have hisize : args.isize.toNat ≤ 16 := by
      rw [hivarg] at hiv
      have hle : ¬slot.ctx.type.struct.ivsize < args.isize := fun hlt => hiv ⟨rfl, hlt⟩
      rw [BitVec.lt_def, slot.ctx.type.ivsize_toNat] at hle
      omega
    rw [hkeyarg, hivarg] at hret ⊢
    refine ⟨opensslGenericCtxInit_started D hc hisize hret, ?_⟩
    rw [h.type_eq]
  · intro p hp
    obtain ⟨hpadded, rfl⟩ := h.filter hp
    exact opensslGenericCtxInit_padded D args.key args.iv args.ksize hpadded

theorem Valid.setPadding (h : slot.Valid D type) (on : BitVec 32) :
    (slot.call E order (.setPadding on)).Valid D type := by
  refine ⟨h.type_eq, h.cipher_eq, ?_, ?_⟩
  · intro x hx
    obtain ⟨hret, hx⟩ := Option.ite_none_right_eq_some.mp hx
    obtain ⟨hx, hinput⟩ := Option.filter_eq_some_iff.mp hx
    exact ⟨D.setPadding_stream _ _ x (eq_one_of_ret hret) (h.since x hx).1 (List.isEmpty_iff.mp hinput), (h.since x hx).2⟩
  · intro p hp
    simp only [CipherSlot.call] at hp
    split_ifs at hp with hret
    obtain rfl := Option.some.inj hp
    refine (D.setPadding_padded _ _ (eq_one_of_ret hret)).trans ?_
    by_cases hon : on = 0
    · rw [hon]
      rfl
    · simp

/-- Additional data, through `cfe_cipher_ctx_set_aad` or `cfe_cipher_ctx_update`. -/
theorem Valid.moreAad (order : ByteOrder) (h : slot.Valid D type) (data : Option Bytes) (n olen : BitVec 64) (ret : ℤ)
    (hret : ret = 0 → (opensslGenericCtxUpdate E order slot.ctx data n false olen).ret = 0) :
    (slot.after ret (some (opensslGenericCtxUpdate E order slot.ctx data n false olen).ctx)
      (do (← slot.since).moreAad (← bytesAt data n))).Valid D type := by
  refine h.after (D.update_padded ..) ?_
  intro hzero y hy
  obtain ⟨x, hx, l, hl, hy⟩ := by simpa only [Option.bind_eq_bind, Option.bind_eq_some_iff] using hy
  obtain ⟨p, rfl, hlength, hnonneg, rfl⟩ := bytesAt_eq hl
  refine ⟨D.aad_taken _ x y p _ (h.since x hx).1 hnonneg hy (eq_one_of_ret (hret hzero)), ?_⟩
  rw [CipherStream.moreAad] at hy
  split_ifs at hy
  obtain rfl := Option.some.inj hy
  exact (h.since x hx).2

theorem Valid.setAad (h : slot.Valid D type) (aad : Option Bytes) (asize : BitVec 64) :
    (slot.call E order (.setAad aad asize)).Valid D type := by
  simp only [CipherSlot.call, cfeCipherCtxSetAad]
  cases haead : slot.ctx.type.isAead with
  | false => exact h.refused _
  | true => exact h.moreAad order aad asize 0 _ id

theorem Valid.update (h : slot.Valid D type) (input : Option Bytes) (ilen : BitVec 64) (out : Bool) (olen : BitVec 64) :
    (slot.call E order (.update input ilen out olen)).Valid D type := by
  cases out with
  | false =>
    have haad := h.moreAad order input ilen olen _ id
    simp only [Option.bind_eq_bind] at haad
    simp only [CipherSlot.call, cfeCipherCtxUpdate, Option.bind_eq_bind, Bool.false_eq_true, if_false]
    rw [Option.bind_comm]
    exact haad
  | true =>
    refine h.after (D.update_padded ..) ?_
    intro hret y hy
    simp only [Option.bind_eq_bind, Option.bind_eq_some_iff, if_true] at hy
    obtain ⟨l, hl, x, hx, hy⟩ := hy
    obtain ⟨p, rfl, hlength, hnonneg, rfl⟩ := bytesAt_eq hl
    refine ⟨D.input_taken _ x y p _ (h.since x hx).1 hnonneg (eq_one_of_ret hret) hy, ?_⟩
    rw [CipherStream.moreInput] at hy
    split_ifs at hy
    obtain rfl := Option.some.inj hy
    exact (h.since x hx).2

theorem Valid.setTag (h : slot.Valid D type) (tag : Option Bytes) (tsize : BitVec 64) :
    (slot.call E order (.setTag tag tsize)).Valid D type := by
  simp only [CipherSlot.call, cfeCipherCtxSetTag]
  cases haead : slot.ctx.type.isAead with
  | false => exact h.refused _
  | true =>
    refine h.after (D.ctrl_padded ..) ?_
    intro hret y hy
    simp only [Option.bind_eq_bind, Option.bind_eq_some_iff] at hy
    obtain ⟨x, hx, l, hl, hy⟩ := hy
    obtain ⟨p, rfl, hlength, hnonneg, rfl⟩ := bytesAt_eq hl
    refine ⟨D.tag_set _ x y p _ (h.since x hx).1 hnonneg hy (eq_one_of_ret hret), ?_⟩
    rw [CipherStream.expectTag] at hy
    split_ifs at hy
    obtain rfl := Option.some.inj hy
    exact (h.since x hx).2

theorem Valid.getTag (h : slot.Valid D type) (tag : Option Bytes) (tsize : BitVec 64) :
    (slot.call E order (.getTag tag tsize)).Valid D type := by
  simp only [CipherSlot.call, cfeCipherCtxGetTag]
  cases haead : slot.ctx.type.isAead with
  | false => exact h.refused _
  | true =>
    refine h.after (D.ctrl_padded ..) ?_
    intro hret x hx
    rw [D.getTag_stream _ _ _ (eq_one_of_ret hret)]
    exact h.since x hx

theorem Valid.finalize (h : slot.Valid D type) (out : Bool) (olen : BitVec 64) :
    (slot.call E order (.finalize out olen)).Valid D type := by
  refine h.after (D.final_padded ..) ?_
  intro hret y hy
  cases out with
  | false => cases hy
  | true =>
    simp only [if_true, Option.bind_eq_some_iff] at hy
    obtain ⟨x, hx, hy⟩ := hy
    refine ⟨D.finished _ x y (h.since x hx).1 (eq_one_of_ret hret) hy, ?_⟩
    rw [CipherStream.finish] at hy
    split_ifs at hy
    obtain rfl := Option.some.inj hy
    exact (h.since x hx).2

/-- **A call on a context keeps what is known of it.** -/
theorem Valid.call (h : slot.Valid D type) (a : CtxAction) : (slot.call E order a).Valid D type := by
  cases a with
  | init args => exact h.init args
  | setPadding on => exact h.setPadding on
  | setAad aad asize => exact h.setAad aad asize
  | setTag tag tsize => exact h.setTag tag tsize
  | getTag tag tsize => exact h.getTag tag tsize
  | update input ilen out olen => exact h.update input ilen out olen
  | finalize out olen => exact h.finalize out olen

end CipherSlot

/-! ### Threads -/

instance : Fintype OpensslType :=
  ⟨{.aesCbc128, .aesCbc192, .aesCbc256, .aesGcm128, .aesGcm192, .aesGcm256}, fun type => by cases type <;> decide⟩

/-- A call leaves all of a context but the context of OpenSSL. -/
theorem CipherSlot.call_ctx (slot : CipherSlot σ) (a : CtxAction) :
    ∃ e, (slot.call E order a).ctx = { slot.ctx with ctx := e } := by
  cases a with
  | init args =>
    simp only [CipherSlot.call, CipherSlot.after, cfeCipherCtxInit]
    split_ifs
    · exact ⟨slot.ctx.ctx, rfl⟩
    · exact ⟨slot.ctx.ctx, rfl⟩
    · exact opensslGenericCtxInit_ctx args.key args.iv args.ksize
  | setAad aad asize =>
    simp only [CipherSlot.call, CipherSlot.after, cfeCipherCtxSetAad]
    split_ifs
    · exact ⟨slot.ctx.ctx, rfl⟩
    · exact ⟨_, rfl⟩
  | setTag tag tsize =>
    simp only [CipherSlot.call, CipherSlot.after, cfeCipherCtxSetTag]
    split_ifs
    · exact ⟨slot.ctx.ctx, rfl⟩
    · exact ⟨_, rfl⟩
  | getTag tag tsize =>
    simp only [CipherSlot.call, CipherSlot.after, cfeCipherCtxGetTag]
    split_ifs
    · exact ⟨slot.ctx.ctx, rfl⟩
    · exact ⟨_, rfl⟩
  | setPadding on => exact ⟨_, rfl⟩
  | update input ilen out olen => exact ⟨_, rfl⟩
  | finalize out olen => exact ⟨_, rfl⟩

/-- `cfe_cipher_alloc_ctx` when there is memory, from its call of `alloc_ctx` on. -/
def cfeCipherAllocCtxOf (E : Evp σ) (type : OpensslType) : Option (OpensslGenericCtx σ) :=
  type.struct.allocCtx.map fun alloc => { opensslAllocCtx E alloc with type := type }

/-- A new context. -/
theorem cfeCipherAllocCtxOf_eq (type : OpensslType) :
    cfeCipherAllocCtxOf E type = some ⟨type.evpCipher, E.zeroed, type⟩ := by
  simp only [cfeCipherAllocCtxOf, type.allocCtx_eq, Option.map_some, opensslAllocCtx]

variable (E order) in
/-- The contexts of the cipher registry. -/
def cipherContexts : Contexts (.crypto .cipher) OpensslType OpensslAlloc (CipherSlot σ) CtxAction where
  struct := OpensslType.struct
  alloc type := (cfeCipherAllocCtxOf E type).map fun ctx => ⟨ctx, none, some true⟩
  type slot := slot.ctx.type
  call := CipherSlot.call E order
  type_alloc h := by
    rw [cfeCipherAllocCtxOf_eq] at h
    cases h
    rfl
  type_call slot a := by
    obtain ⟨e, he⟩ := slot.call_ctx a
    rw [he]

variable {Tid : Type} [DecidableEq Tid] {s : ContextProcess Tid OpensslType (CipherSlot σ)}

/-- What is known of the contexts holds in every state. -/
theorem cipherSlots_valid (D : E.Streaming) {C : ContextProcess Tid OpensslType (CipherSlot σ) → _ → _ → Prop}
    (h : ((cipherContexts E order).system Tid).Reachable C s) :
    ∀ i, ∀ slot ∈ (s.threads i).ctxs, slot.Valid D slot.ctx.type := by
  refine Contexts.forall_ctxs (P := fun slot => slot.Valid D slot.ctx.type) ?_ ?_ h
  · intro type slot hslot
    simp only [cipherContexts, cfeCipherAllocCtxOf_eq, Option.map_some, Option.some.injEq] at hslot
    subst hslot
    refine ⟨rfl, rfl, ?_, ?_⟩
    · intro x hx
      cases hx
    · intro p hp
      cases hp
      exact D.padded_zeroed
  · intro slot a hslot
    have hcall : (slot.call E order a).Valid D slot.ctx.type := hslot.call a
    rw [← hcall.type_eq] at hcall
    exact hcall

/-! ### Round trips -/

/-- **Decrypting gives back what was encrypted.** In every state that any threads reach, of two
contexts of one type: with the same key, iv, additional data and padding, the first has encrypted
and is about to finish, the second decrypts and its input, in whatever pieces, is all of the
output of the first. When `cfe_cipher_ctx_finalize` of the first succeeds, that of the second
does just when the type has no tag or the second was told the tag that
`cfe_cipher_ctx_get_tag` gives of the first; and then its output, in whatever pieces, is what
the first was given. -/
theorem cipher_round_trip (D : E.Streaming) (h : ((cipherContexts E order).system Tid).Reachable System.Free s)
    {i j : Tid} {a b : CipherSlot σ} (ha : a ∈ (s.threads i).ctxs) (hb : b ∈ (s.threads j).ctxs)
    (htype : a.ctx.type = type ∧ b.ctx.type = type)
    {x y : CipherStream} (hx : a.since = some x) (hy : b.since = some y)
    (hmode : x.mode = .encrypt ∧ y.mode = .decrypt) (hfinal : x.final = false ∧ y.final = false)
    (hkey : y.key = x.key) (hiv : y.iv = x.iv) (haad : y.aad = x.aad)
    {pad : Bool} (hpad : a.padding = some pad ∧ b.padding = some pad) (olen olen' : BitVec 64)
    {sealed opened : OutCall (Option (OpensslGenericCtx σ))}
    (hsealed : sealed = (cfeCipherCtxFinalize E order (some a.ctx) true olen).1)
    (hopened : opened = (cfeCipherCtxFinalize E order (some b.ctx) true olen').1)
    (hret : sealed.ret = 0) (hinput : y.input = x.output ++ sealed.out) :
    (opened.ret = 0 → y.output ++ opened.out = x.input) ∧
      (type.isAead = false → opened.ret = 0) ∧
      (type.isAead = true → y.tag = none → opened.ret = 1) ∧
      (type.isAead = true → ∀ tag ptr tsize, y.tag = some tag → tag.length = tsize.toNat → tsize.toNat < 2 ^ 31 →
        (cfeCipherCtxGetTag E sealed.ctx ptr tsize).1.ret = 0 →
        (opened.ret = 0 ↔ tag = (cfeCipherCtxGetTag E sealed.ctx ptr tsize).2)) := by
  have hva : a.Valid D type := htype.1 ▸ cipherSlots_valid D h i a ha
  have hvb : b.Valid D type := htype.2 ▸ cipherSlots_valid D h j b hb
  obtain ⟨hstreama, hciphera⟩ := hva.since x hx
  obtain ⟨hstreamb, hcipherb⟩ := hvb.since y hy
  have hfa : (E.cipherFinal a.ctx.ctx true).ret = 1 := by
    rw [hsealed] at hret
    exact eq_one_of_ret hret
  -- what was encrypted
  have henc := D.encrypted _ _ hstreama hmode.1 hfinal.1 hfa
  rw [hva.padding pad hpad.1, hciphera] at henc
  have hout : sealed.out = (E.cipherFinal a.ctx.ctx true).out := by rw [hsealed]; rfl
  rw [← hout, ← hinput] at henc
  have hdec : D.decrypt y.cipher (D.padded b.ctx.ctx) y.key y.iv y.input = some x.input := by
    rw [hvb.padding pad hpad.2, hcipherb, hkey, hiv]
    exact D.decrypt_encrypt _ _ _ _ _ _ henc
  have hverified := D.verified _ _ _ hstreamb hmode.2 hfinal.2 hdec
  have hopenedret : opened.ret = if (E.cipherFinal b.ctx.ctx true).ret ≠ 1 then 1 else 0 := by rw [hopened]; rfl
  have hzero : opened.ret = 0 ↔ (E.cipherFinal b.ctx.ctx true).ret = 1 := by
    rw [hopenedret]
    refine ⟨eq_one_of_ret, ?_⟩
    intro hone
    rw [if_neg (not_not.mpr hone)]
  have hgcm : y.cipher.isGcm = type.isAead := by rw [hcipherb, type.isAead_eq]
  refine ⟨?_, ?_, ?_, ?_⟩
  · intro hopen
    have hdone := D.decrypted _ _ _ hstreamb hmode.2 hfinal.2 hdec (hzero.mp hopen)
    rw [hopened]
    exact hdone
  · intro haead
    rw [hzero, hverified, hgcm, haead]
    exact fun h => absurd h (by decide)
  · intro haead hnone
    rw [hopenedret, if_pos]
    rw [ne_eq, hverified, hgcm, hnone]
    intro h
    obtain ⟨tag, htag, -⟩ := h haead
    cases htag
  · intro haead tag ptr tsize htag hlength htsize hgot
    have hctx : sealed.ctx = some { a.ctx with ctx := (E.cipherFinal a.ctx.ctx true).ctx } := by rw [hsealed]; rfl
    have haead' : a.ctx.type.isAead = true := by rw [hva.type_eq]; exact haead
    have hnat := toCInt_of_lt htsize
    -- the context that has encrypted
    have hend : x.finish (E.cipherFinal a.ctx.ctx true).out =
        some { x with output := x.output ++ (E.cipherFinal a.ctx.ctx true).out, final := true } := by
      rw [CipherStream.finish, if_pos hfinal.1]
    have hstream := D.finished _ _ _ hstreama hfa hend
    rw [hctx] at hgot ⊢
    simp only [cfeCipherCtxGetTag, haead', Bool.not_true, Bool.false_eq_true, if_false] at hgot ⊢
    have hgcma : x.cipher.isGcm = true := by rw [hciphera, ← type.isAead_eq]; exact haead
    have htagof := D.tag_got _ _ ptr (toCInt tsize) hstream hgcma hmode.1 rfl (by omega) (eq_one_of_ret hgot)
    simp only [opensslGenericCtxGetTag, htagof, hzero, hverified, hgcm, haead, htag]
    rw [hnat, Int.toNat_natCast, ← hlength, hciphera, hcipherb, ← hout, ← hinput, hkey, hiv, haad]
    rw [← List.prefix_iff_eq_take]
    constructor
    · intro h
      obtain ⟨t, ht, hprefix⟩ := h trivial
      obtain rfl := Option.some.inj ht
      exact hprefix
    · intro hprefix _
      exact ⟨tag, rfl, hprefix⟩

/-! ### AES-GCM with a key and an iv of zeros -/

/-- What the first block is combined with. -/
def zeroKeystream : List UInt8 :=
  [0x03, 0x88, 0xda, 0xce, 0x60, 0xb6, 0xa3, 0x92, 0xf3, 0x28, 0xc2, 0xb9, 0x71, 0xb2, 0xfe, 0x78]

/-- The tag of a block of zeros without additional data; of no other message is it known. -/
def zeroTag (aad data : List UInt8) : List UInt8 :=
  if aad = [] ∧ data = zeroKeystream then
    [0xab, 0x6e, 0x47, 0xd4, 0x2c, 0xec, 0x13, 0xbd, 0xf5, 0x3a, 0x67, 0xb2, 0x12, 0x57, 0xbd, 0xdf]
  else List.replicate 16 0

/-- A message combined with it. -/
def zeroXor (data : List UInt8) : List UInt8 := data.zipWith (· ^^^ ·) zeroKeystream

/-- What a context is at. -/
structure GcmRun where
  /-- The mode. -/
  mode : CfeCipherMode
  /-- The additional data. -/
  aad : List UInt8 := []
  /-- The input. -/
  input : List UInt8 := []
  /-- The tag that decrypting expects. -/
  tag : Option (List UInt8) := none
  /-- It is over. -/
  final : Bool := false

/-- What went through it. -/
def GcmRun.stream (run : GcmRun) : CipherStream where
  cipher := .aes128Gcm
  mode := run.mode
  key := List.replicate 16 0
  iv := List.replicate 12 0
  aad := run.aad
  input := run.input
  output := zeroXor run.input
  tag := run.tag
  final := run.final

/-- A context. -/
structure GcmCtx where
  /-- The cipher. -/
  cipher : Option EvpCipher
  /-- The iv length. -/
  ivlen : ℕ
  /-- What it is at. -/
  run : Option GcmRun
  /-- Padding is on. -/
  padded : Bool

namespace GcmCtx

/-- A call that gives up. -/
def fail (s : GcmCtx) : EvpOutput GcmCtx := ⟨0, s, [], none⟩

/-- `EVP_CipherInit_ex`. -/
def init (s : GcmCtx) (cipher : Option EvpCipher) (key iv : Option Bytes) (enc : ℤ) : ℤ × GcmCtx :=
  match cipher, key, iv with
  | some c, _, _ => (1, ⟨some c, if c.isGcm then 12 else 16, none, s.padded⟩)
  | none, some key, some iv =>
    if s.cipher = some .aes128Gcm ∧ key.read 16 = List.replicate 16 0 ∧ iv.read s.ivlen = List.replicate 12 0 then
      (1, { s with run := some { mode := if enc = 1 then .encrypt else .decrypt } })
    else (0, s)
  | _, _, _ => (0, s)

/-- `EVP_CIPHER_CTX_ctrl`. -/
def ctrl (s : GcmCtx) (cmd : EvpCtrl) (arg : ℤ) (ptr : Option Bytes) : ℤ × GcmCtx × List UInt8 :=
  match cmd, s.run, ptr with
  | .gcmSetIvlen, _, _ => if s.cipher.any (·.isGcm) ∧ 0 < arg then (1, { s with ivlen := arg.toNat }, []) else (0, s, [])
  | .gcmGetTag, some run, _ =>
    if run.final ∧ run.mode = .encrypt ∧ 0 < arg ∧ arg ≤ 16 then
      (1, s, (zeroTag run.aad (zeroXor run.input)).take arg.toNat)
    else (0, s, [])
  | .gcmSetTag, some run, some tag =>
    if run.mode = .decrypt ∧ 0 < arg ∧ arg ≤ 16 then (1, { s with run := some { run with tag := some (tag.read arg.toNat) } }, [])
    else (0, s, [])
  | _, _, _ => (0, s, [])

/-- `EVP_CipherUpdate`. -/
def update (s : GcmCtx) (out : Bool) (input : Option Bytes) (inl : ℤ) : EvpOutput GcmCtx :=
  match s.run, input with
  | some run, some data =>
    if 0 ≤ inl then
      if out then
        ⟨1, { s with run := some { run with input := run.input ++ data.read inl.toNat } },
          (data.read inl.toNat).zipWith (· ^^^ ·) (zeroKeystream.drop run.input.length), some (BitVec.ofInt 32 inl)⟩
      else ⟨1, { s with run := some { run with aad := run.aad ++ data.read inl.toNat } }, [], some (BitVec.ofInt 32 inl)⟩
    else s.fail
  | _, _ => s.fail

/-- `EVP_CipherFinal_ex`, of a message of one block. -/
def finish (s : GcmCtx) : EvpOutput GcmCtx :=
  match s.run with
  | some run =>
    if run.input.length ≤ 16 ∧ (run.mode = .decrypt → run.tag.any (· <+: zeroTag run.aad run.input)) then
      ⟨1, { s with run := some { run with final := true } }, [], some 0⟩
    else s.fail
  | none => s.fail

end GcmCtx

/-- OpenSSL with this key and iv; it gives up on all others, and on messages of several blocks. -/
def evpGcmZero : Evp GcmCtx where
  zeroed := ⟨none, 0, none, true⟩
  keyLength c := c.keyBytes
  cipherInit := GcmCtx.init
  ctrl := GcmCtx.ctrl
  setPadding s pad := (1, { s with padded := decide (pad ≠ 0) })
  cipherUpdate := GcmCtx.update
  cipherFinal s _ := s.finish
  cipherOf s := s.cipher
  keyInForce s := s.run.map fun _ => List.replicate 16 0

/-- What is encrypted with the same bytes twice is what it was. -/
theorem zeroXor_zeroXor {data : List UInt8} (h : data.length ≤ 16) : zeroXor (zeroXor data) = data := by
  apply List.ext_getElem
  · simp [zeroXor, zeroKeystream, h]
  · intro i hi hi'
    simp only [zeroXor, List.getElem_zipWith, UInt8.xor_assoc, UInt8.xor_self, UInt8.xor_zero]

theorem zeroXor_append (a b : List UInt8) :
    zeroXor (a ++ b) = zeroXor a ++ b.zipWith (· ^^^ ·) (zeroKeystream.drop a.length) := by
  rw [zeroXor, zeroXor]
  generalize zeroKeystream = key
  induction a generalizing key with
  | nil => rfl
  | cons x a ih =>
    cases key with
    | nil => simp
    | cons k key => simp [ih]

/-- What went through a context. -/
def GcmCtx.stream (s : GcmCtx) : Option CipherStream := s.run.map (·.stream)

theorem GcmCtx.stream_eq_some {s : GcmCtx} {x : CipherStream} (h : s.stream = some x) :
    ∃ run, s.run = some run ∧ x = run.stream := by
  obtain ⟨run, hrun, rfl⟩ := Option.map_eq_some_iff.mp h
  exact ⟨run, hrun, rfl⟩

/-- A step of `EVP_CIPHER_CTX_ctrl` leaves padding. -/
theorem GcmCtx.ctrl_padded (s : GcmCtx) (cmd : EvpCtrl) (n : ℤ) (ptr : Option Bytes) :
    (s.ctrl cmd n ptr).2.1.padded = s.padded := by
  simp only [GcmCtx.ctrl]
  split
  · split_ifs <;> rfl
  · split_ifs <;> rfl
  · split_ifs <;> rfl
  · rfl

theorem GcmCtx.update_padded (s : GcmCtx) (out : Bool) (data : Option Bytes) (n : ℤ) :
    (s.update out data n).ctx.padded = s.padded := by
  simp only [GcmCtx.update]
  split
  · split_ifs <;> rfl
  · rfl

theorem GcmCtx.init_padded (s : GcmCtx) (cipher : Option EvpCipher) (key iv : Option Bytes) (enc : ℤ) :
    (s.init cipher key iv enc).2.padded = s.padded := by
  simp only [GcmCtx.init]
  split
  · rfl
  · split_ifs <;> rfl
  · rfl

/-- How the last call ends. -/
theorem GcmCtx.finish_eq {s : GcmCtx} {run : GcmRun} (h : s.run = some run) :
    (s.finish.ret = 1 ↔ run.input.length ≤ 16 ∧
      (run.mode = .decrypt → run.tag.any (· <+: zeroTag run.aad run.input))) ∧ s.finish.out = [] ∧
      (s.finish.ret = 1 → s.finish.ctx = { s with run := some { run with final := true } }) := by
  simp only [GcmCtx.finish, h]
  by_cases hok : run.input.length ≤ 16 ∧ (run.mode = .decrypt → run.tag.any (· <+: zeroTag run.aad run.input))
  · rw [if_pos hok]
    exact ⟨⟨fun _ => hok, fun _ => rfl⟩, rfl, fun _ => rfl⟩
  · have hfail : ¬s.fail.ret = 1 := Int.zero_ne_one
    rw [if_neg hok]
    exact ⟨⟨fun hret => absurd hret hfail, fun h' => absurd h' hok⟩, rfl, fun hret => absurd hret hfail⟩

/-- It is as documented. -/
def evpGcmZeroStreaming : evpGcmZero.Streaming where
  encrypt _ _ _ _ m := if m.length ≤ 16 then some (zeroXor m) else none
  decrypt _ _ _ _ m := if m.length ≤ 16 then some (zeroXor m) else none
  tagOf _ _ _ aad data := zeroTag aad data
  decrypt_encrypt c pad key iv m x h := by
    split_ifs at h with hlength
    obtain rfl := Option.some.inj h
    rw [zeroXor_zeroXor hlength, if_pos]
    simp [zeroXor, zeroKeystream]
  stream := GcmCtx.stream
  ivLength s := s.ivlen
  padded s := s.padded
  keyLength _ := rfl
  cipher_set s c enc _ := by
    refine ⟨rfl, ?_⟩
    intro hcbc
    simp [evpGcmZero, GcmCtx.init, hcbc]
  ivLength_set s n _ hret := by
    simp only [evpGcmZero, GcmCtx.ctrl] at hret ⊢
    split_ifs at hret ⊢
    · exact ⟨rfl, rfl⟩
    · cases hret
  started s c key iv mode hc hret := by
    simp only [evpGcmZero, GcmCtx.init] at hc hret ⊢
    by_cases hzero : s.cipher = some .aes128Gcm ∧ key.read 16 = List.replicate 16 0 ∧ iv.read s.ivlen = List.replicate 12 0
    · rw [if_pos hzero]
      rw [hzero.1] at hc
      obtain rfl := Option.some.inj hc
      have hmode : (if mode.toInt = 1 then CfeCipherMode.encrypt else .decrypt) = mode := by cases mode <;> rfl
      simp only [GcmCtx.stream, Option.map_some, GcmRun.stream, hmode, EvpCipher.keyBytes, hzero.2]
      rfl
    · rw [if_neg hzero] at hret
      cases hret
  aad_taken s x y data n hx hn hy hret := by
    obtain ⟨run, hrun, rfl⟩ := GcmCtx.stream_eq_some hx
    rw [CipherStream.moreAad] at hy
    split_ifs at hy
    obtain rfl := Option.some.inj hy
    simp only [evpGcmZero, GcmCtx.update, hrun, if_pos hn]
    rfl
  input_taken s x y data n hx hn hret hy := by
    obtain ⟨run, hrun, rfl⟩ := GcmCtx.stream_eq_some hx
    rw [CipherStream.moreInput] at hy
    split_ifs at hy
    obtain rfl := Option.some.inj hy
    simp only [evpGcmZero, GcmCtx.update, hrun, if_pos hn, if_true, GcmCtx.stream, Option.map_some, GcmRun.stream,
      zeroXor_append]
  tag_set s x y tag n hx hn hy hret := by
    obtain ⟨run, hrun, rfl⟩ := GcmCtx.stream_eq_some hx
    rw [CipherStream.expectTag] at hy
    split_ifs at hy
    obtain rfl := Option.some.inj hy
    simp only [evpGcmZero, GcmCtx.ctrl, hrun] at hret ⊢
    split_ifs at hret ⊢
    · rfl
    · cases hret
  tag_got s x ptr n hx _ hmode hfinal hn hret := by
    obtain ⟨run, hrun, rfl⟩ := GcmCtx.stream_eq_some hx
    simp only [evpGcmZero, GcmCtx.ctrl, hrun] at hret ⊢
    split_ifs at hret ⊢
    · rfl
    · cases hret
  getTag_stream s n ptr hret := by
    simp only [evpGcmZero, GcmCtx.ctrl]
    cases s.run with
    | none => rfl
    | some run =>
      simp only
      split_ifs <;> rfl
  finished s x y hx hret hy := by
    obtain ⟨run, hrun, rfl⟩ := GcmCtx.stream_eq_some hx
    obtain ⟨-, hout, hctx⟩ := GcmCtx.finish_eq hrun
    rw [CipherStream.finish] at hy
    split_ifs at hy
    obtain rfl := Option.some.inj hy
    simp only [evpGcmZero] at hret ⊢
    rw [hctx hret, hout, List.append_nil]
    rfl
  encrypted s x hx _ _ hret := by
    obtain ⟨run, hrun, rfl⟩ := GcmCtx.stream_eq_some hx
    obtain ⟨hiff, hout, -⟩ := GcmCtx.finish_eq hrun
    simp only [evpGcmZero] at hret ⊢
    rw [hout, List.append_nil]
    exact if_pos (hiff.mp hret).1
  decrypted s x m hx _ _ hm hret := by
    obtain ⟨run, hrun, rfl⟩ := GcmCtx.stream_eq_some hx
    obtain ⟨-, hout, -⟩ := GcmCtx.finish_eq hrun
    split_ifs at hm
    obtain rfl := Option.some.inj hm
    simp only [evpGcmZero]
    rw [hout, List.append_nil]
    rfl
  verified s x m hx hmode hfinal hm := by
    obtain ⟨run, hrun, rfl⟩ := GcmCtx.stream_eq_some hx
    obtain ⟨hiff, -, -⟩ := GcmCtx.finish_eq hrun
    split_ifs at hm with hlength
    simp only [evpGcmZero]
    rw [hiff]
    constructor
    · intro h _
      obtain ⟨tag, htag, hprefix⟩ := (Option.any_eq_true _ _).mp (h.2 hmode)
      exact ⟨tag, htag, of_decide_eq_true hprefix⟩
    · intro h
      refine ⟨hlength, ?_⟩
      intro _
      obtain ⟨tag, htag, hprefix⟩ := h rfl
      exact (Option.any_eq_true _ _).mpr ⟨tag, htag, decide_eq_true hprefix⟩
  padded_zeroed := rfl
  cipherInit_padded s c key iv enc h := (s.init_padded c key iv enc).trans h
  setPadding_padded _ _ _ := rfl
  setPadding_stream _ _ _ _ hx _ := hx
  ctrl_padded := GcmCtx.ctrl_padded
  update_padded := GcmCtx.update_padded
  final_padded s out := by
    simp only [evpGcmZero, GcmCtx.finish]
    split
    · split_ifs <;> rfl
    · rfl

/-- One thread encrypts a block of zeros in two pieces, and another decrypts it in two others,
with its tag. -/
def zeroCalls : List (Bool × ContextAction OpensslType CString CtxAction) :=
  [(false, .register .aesGcm128), (false, .find (CString.ofMem OpensslType.aesGcm128.name.toList)),
    (true, .find (CString.ofMem OpensslType.aesGcm128.name.toList)), (true, .alloc), (false, .alloc),
    (false, .call 0 (.init ⟨.encrypt, some fun _ => 0, 16, some fun _ => 0, 12⟩)),
    (true, .call 0 (.init ⟨.decrypt, some fun _ => 0, 16, some fun _ => 0, 12⟩)),
    (false, .call 0 (.update (some fun _ => 0) 5 true 0)),
    (true, .call 0 (.setTag (some fun n => (zeroTag [] zeroKeystream).getD n 0) 16)),
    (true, .call 0 (.update (some fun n => zeroKeystream.getD n 0) 9 true 0)),
    (false, .call 0 (.update (some fun _ => 0) 11 true 0)),
    (true, .call 0 (.update (some fun n => zeroKeystream.getD (9 + n) 0) 7 true 0))]

/-- The zeros are there again. -/
theorem cipher_round_trip_zeros :
    ∃ s, ((cipherContexts evpGcmZero .little).system Bool).Reachable System.Free s ∧
      ∃ b ∈ (s.threads true).ctxs, ∃ y, b.since = some y ∧
        (cfeCipherCtxFinalize evpGcmZero .little (some b.ctx) true 0).1.ret = 0 ∧
        y.output ++ (cfeCipherCtxFinalize evpGcmZero .little (some b.ctx) true 0).1.out = List.replicate 16 0 := by
  have hs := System.reachable_of_exec (S := (cipherContexts evpGcmZero .little).system Bool) (C := System.Free)
    zeroCalls (by decide)
  have h := cipher_round_trip evpGcmZeroStreaming hs (i := false) (j := true) (.head _) (.head _) ⟨rfl, rfl⟩ rfl rfl
    ⟨rfl, rfl⟩ ⟨rfl, rfl⟩ (by decide) (by decide) rfl ⟨rfl, rfl⟩ 0 0 rfl rfl (by decide) (by decide)
  have hret := (h.2.2.2 rfl _ (some fun _ => 0) 16 rfl (by decide) (by decide) (by decide)).mpr (by decide)
  exact ⟨_, hs, _, .head _, _, rfl, hret, h.1 hret⟩

/-! ### What contexts hold -/

/-- **Contexts are accounted for.** In every state that any threads reach, while every counter
stays below `2 ^ 31`: the counter of a registered type is one more than its contexts, the
references of `cfe_cipher_ref` and the calls in progress that hold one; and the type of each
of these is registered and cannot be unregistered. -/
theorem cipher_contexts_accounted [Fintype Tid]
    (h : ((cipherContexts E order).system Tid).Reachable Contexts.CountersInInt s) :
    RefsCounted ((Kind.crypto .cipher).api OpensslType.struct) s.registry
      (fun i => (s.threads i).held fun slot => slot.ctx.type) :=
  Contexts.counted h

/-- One thread has a reference besides its context, and the other is destroying its context. -/
theorem cipher_contexts_accounted_zeros :
    ∃ s, ((cipherContexts evpGcmZero .little).system Bool).Reachable Contexts.CountersInInt s ∧
      (s.registry.refcnt .aesGcm128).val = 4 := by
  have h := System.reachable_of_exec (S := (cipherContexts evpGcmZero .little).system Bool) (C := Contexts.CountersInInt)
    (zeroCalls ++ [(true, .ref (CString.ofMem OpensslType.aesGcm128.name.toList)), (false, .destroy 0)]) (by decide)
  refine ⟨_, h, ?_⟩
  rw [(cipher_contexts_accounted h).counted .aesGcm128 (by decide)]
  decide

end LibCfe
