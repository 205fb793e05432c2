import LibCfe.Crypto.Input
import Mathlib.Logic.Function.DependsOn
import Mathlib.Order.Interval.Set.Basic

/-!
# How much of an iv is read

`cfe_cipher_ctx_init` takes an iv and its size, and refuses a size above that of the type.
OpenSSL is told the size only for an authenticated cipher. A CBC cipher reads 16 bytes, so
with fewer declared the context depends on what lies behind them.

That a result depends on the first bytes only is Mathlib's `DependsOn`, of the iv as a
function from positions to bytes. What OpenSSL reads is a parameter, `Evp.IvRead`.

## What is proved

`iv_declared_iff` — what a call returns and what every later sequence of updates gives
depends on the declared bytes only, exactly when the cipher is authenticated, or 16 bytes
are declared, or OpenSSL refuses the cipher or the key.
-/

namespace LibCfe

variable {σ : Type}

/-! ### What OpenSSL reads -/

/-- What OpenSSL does with an iv. -/
structure Evp.IvRead (E : Evp σ) where
  /-- The iv length of a context. -/
  ivLength : σ → ℕ
  keyLength : ∀ c, E.keyLength c = c.keyBytes
  /-- For AES-CBC it is 16. -/
  cbc_ivLength : ∀ s c enc, c.isGcm = false → (E.cipherInit s (some c) none none enc).1 = 1 →
    ivLength (E.cipherInit s (some c) none none enc).2 = 16
  /-- For AES-GCM it is what it was set to. -/
  gcm_ivLength : ∀ s arg, 0 ≤ arg → (E.ctrl s .gcmSetIvlen arg none).1 = 1 →
    ivLength (E.ctrl s .gcmSetIvlen arg none).2.1 = arg.toNat
  /-- So many bytes of an iv are read. -/
  reads : ∀ s key enc, DependsOn (fun iv : Bytes => E.cipherInit s none key (some iv) enc) (Set.Iio (ivLength s))
  /-- They are not looked at to see whether the call succeeds. -/
  ret_eq : ∀ s key iv iv' enc,
    (E.cipherInit s none key (some iv) enc).1 = (E.cipherInit s none key (some iv') enc).1
  /-- In CBC mode, with a key, the first block is combined with all 16 bytes, so for other bytes some
  input gives other output. -/
  chained : ∀ s c key iv iv' enc, c.isGcm = false → (E.cipherInit s (some c) none none enc).1 = 1 →
    (E.cipherInit (E.cipherInit s (some c) none none enc).2 none (some key) (some iv) enc).1 = 1 →
    ∀ i < 16, iv i ≠ iv' i → ∃ (input : Bytes) (inl : ℕ), inl < 2 ^ 31 ∧
      (E.cipherUpdate (E.cipherInit (E.cipherInit s (some c) none none enc).2 none (some key) (some iv) enc).2
        true (some input) inl).out ≠
      (E.cipherUpdate (E.cipherInit (E.cipherInit s (some c) none none enc).2 none (some key) (some iv') enc).2
        true (some input) inl).out

/-! ### What a caller sees -/

variable (E : Evp σ) (order : ByteOrder)

/-- The arguments of a call of `cfe_cipher_ctx_update`. -/
structure UpdateCall where
  /-- `in`. -/
  input : Option Bytes
  /-- `ilen`. -/
  ilen : BitVec 64
  /-- Whether there is a place for output. -/
  out : Bool
  /-- `*olen` before the call. -/
  olen : BitVec 64

/-- What a sequence of updates gives: of each the return value, the bytes written and `*olen`. -/
def updateRun (ctx : Option (OpensslGenericCtx σ)) : List UpdateCall → List (ℤ × List UInt8 × BitVec 64)
  | [] => []
  | c :: calls =>
    let r := (cfeCipherCtxUpdate E order ctx c.input c.ilen c.out c.olen).1
    (r.ret, r.out, r.olen) :: updateRun r.ctx calls

/-- What a caller sees of a call of `cfe_cipher_ctx_init`: what it returns, and when that is
`0` the outcome of every later sequence of updates. -/
def CtxCall.seen (call : CtxCall σ) : ℤ × Option (List UpdateCall → List (ℤ × List UInt8 × BitVec 64)) :=
  (call.ret, if call.ret = 0 then some (updateRun E order call.ctx) else none)

/-- For calls with all ivs, what is seen depends on the declared bytes only. -/
def IvDeclared (octx : OpensslGenericCtx σ) (mode : CfeCipherMode) (key : Bytes) (isize : BitVec 64) : Prop :=
  DependsOn (fun iv : Bytes =>
      (cfeCipherCtxInit E (some octx) mode (some key) octx.type.struct.keysize (some iv) isize).seen E order)
    (Set.Iio isize.toNat)

/-- OpenSSL refuses the cipher of the context, or the key. -/
def EvpRefuses (octx : OpensslGenericCtx σ) (mode : CfeCipherMode) (key : Bytes) : Prop :=
  (E.cipherInit octx.ctx (some octx.cipher) none none mode.toInt).1 ≠ 1 ∨
  ∀ iv, (E.cipherInit (E.cipherInit octx.ctx (some octx.cipher) none none mode.toInt).2 none (some key) (some iv)
    mode.toInt).1 ≠ 1

/-! ### What a call does -/

/-- What `EVP_CTRL_GCM_SET_IVLEN` leaves, or nothing when the cipher is not authenticated. -/
def setIvlen (octx : OpensslGenericCtx σ) (mode : CfeCipherMode) (isize : BitVec 64) : ℤ × σ × List UInt8 :=
  let first := E.cipherInit octx.ctx (some octx.cipher) none none mode.toInt
  if octx.type.isAead then E.ctrl first.2 .gcmSetIvlen (toCInt isize) none else (1, first.2, [])

variable {E} {octx : OpensslGenericCtx σ} {mode : CfeCipherMode} {key : Bytes} {isize : BitVec 64}

/-- Every type has an iv of 16 bytes. -/
theorem OpensslType.ivsize_toNat (type : OpensslType) : type.struct.ivsize.toNat = 16 := by
  cases type <;> rfl

/-- A key of the size of the type is long enough for its cipher. -/
theorem Evp.IvRead.keyLength_eq (R : E.IvRead) (hc : octx.cipher = octx.type.evpCipher) :
    BitVec.ofInt 64 (E.keyLength octx.cipher) = octx.type.struct.keysize := by
  rw [R.keyLength, hc]
  cases octx.type <;> rfl

/-- The adaptor, with the second of its three calls of OpenSSL under that name. -/
theorem opensslGenericCtxInit_eq (key iv : Option Bytes) (ksize : BitVec 64) :
    opensslGenericCtxInit E octx mode key ksize iv isize =
      if BitVec.ofInt 64 (E.keyLength octx.cipher) ≠ ksize then (1, octx)
      else if (E.cipherInit octx.ctx (some octx.cipher) none none mode.toInt).1 ≠ 1 then
        (1, { octx with ctx := (E.cipherInit octx.ctx (some octx.cipher) none none mode.toInt).2 })
      else if (setIvlen E octx mode isize).1 ≠ 1 then (1, { octx with ctx := (setIvlen E octx mode isize).2.1 })
      else
        let last := E.cipherInit (setIvlen E octx mode isize).2.1 none key iv mode.toInt
        (if last.1 ≠ 1 then 1 else 0, { octx with ctx := last.2 }) := rfl

/-- The front end refuses a size above 16. -/
theorem cfeCipherCtxInit_of_lt (h : 16 < isize.toNat) (iv : Bytes) :
    cfeCipherCtxInit E (some octx) mode (some key) octx.type.struct.keysize (some iv) isize = .invalid (some octx) := by
  have hlt : octx.type.struct.ivsize < isize := by
    rw [BitVec.lt_def, octx.type.ivsize_toNat]
    exact h
  simp only [cfeCipherCtxInit]
  rw [if_pos ⟨rfl, hlt⟩]

/-- Else it hands the call on. -/
theorem cfeCipherCtxInit_of_le (h : isize.toNat ≤ 16) (iv : Bytes) :
    cfeCipherCtxInit E (some octx) mode (some key) octx.type.struct.keysize (some iv) isize =
      .ofAdaptor (opensslGenericCtxInit E octx mode (some key) octx.type.struct.keysize (some iv) isize) := by
  have hle : ¬octx.type.struct.ivsize < isize := by
    rw [BitVec.lt_def, octx.type.ivsize_toNat]
    omega
  simp only [cfeCipherCtxInit]
  rw [if_neg (fun hand => hle hand.2), if_neg (not_not.mpr rfl)]

/-- The iv is only passed to the last call of OpenSSL, so a caller sees no more of it than
that call. -/
theorem ivDeclared_of_dependsOn
    (h : isize.toNat ≤ 16 → (E.cipherInit octx.ctx (some octx.cipher) none none mode.toInt).1 = 1 →
      (setIvlen E octx mode isize).1 = 1 →
      DependsOn (fun iv : Bytes => E.cipherInit (setIvlen E octx mode isize).2.1 none (some key) (some iv) mode.toInt)
        (Set.Iio isize.toNat)) :
    IvDeclared E order octx mode key isize := by
  intro iv iv' hagree
  apply congrArg (CtxCall.seen E order)
  by_cases hle : isize.toNat ≤ 16
  · rw [cfeCipherCtxInit_of_le hle, cfeCipherCtxInit_of_le hle, opensslGenericCtxInit_eq, opensslGenericCtxInit_eq]
    split_ifs with hklen hfirst hset
    · rfl
    · rfl
    · rfl
    · have hlast := h hle (not_not.mp hfirst) (not_not.mp hset) hagree
      simp only at hlast ⊢
      rw [hlast]
  · rw [cfeCipherCtxInit_of_lt (by omega), cfeCipherCtxInit_of_lt (by omega)]

/-- When OpenSSL refuses, every call fails. -/
theorem ivDeclared_of_refuses (h : ∀ iv : Bytes,
      (cfeCipherCtxInit E (some octx) mode (some key) octx.type.struct.keysize (some iv) isize).ret = 1) :
    IvDeclared E order octx mode key isize := by
  intro iv iv' _
  simp only [CtxCall.seen, h]
  rfl

/-! ### Authenticated ciphers -/

/-- An authenticated cipher reads as many bytes as were declared. -/
theorem ivDeclared_aead (R : E.IvRead) (haead : octx.type.isAead = true) : IvDeclared E order octx mode key isize := by
  apply ivDeclared_of_dependsOn
  intro hle _ hset
  have hint : toCInt isize = isize.toNat := toCInt_of_lt (by omega)
  simp only [setIvlen] at hset ⊢
  rw [if_pos haead, hint] at hset ⊢
  have hlen := R.gcm_ivLength _ _ (by omega) hset
  rw [Int.toNat_natCast] at hlen
  have hreads := R.reads (E.ctrl (E.cipherInit octx.ctx (some octx.cipher) none none mode.toInt).2 .gcmSetIvlen
    isize.toNat none).2.1 (some key) mode.toInt
  rw [hlen] at hreads
  exact hreads

/-! ### CBC -/

theorem isGcm_cbc (hc : octx.cipher = octx.type.evpCipher) (hcbc : octx.type.isAead = false) :
    octx.cipher.isGcm = false := by
  rw [hc, ← octx.type.isAead_eq]
  exact hcbc

theorem setIvlen_cbc (hcbc : octx.type.isAead = false) :
    setIvlen E octx mode isize = (1, (E.cipherInit octx.ctx (some octx.cipher) none none mode.toInt).2, []) := by
  simp only [setIvlen, hcbc]
  rfl

/-- A CBC cipher reads 16 bytes. -/
theorem ivDeclared_cbc (R : E.IvRead) (hc : octx.cipher = octx.type.evpCipher) (hcbc : octx.type.isAead = false)
    (hisize : 16 ≤ isize.toNat) : IvDeclared E order octx mode key isize := by
  apply ivDeclared_of_dependsOn
  intro _ hfirst _
  rw [setIvlen_cbc hcbc]
  have hreads := R.reads (E.cipherInit octx.ctx (some octx.cipher) none none mode.toInt).2 (some key) mode.toInt
  rw [R.cbc_ivLength _ _ _ (isGcm_cbc hc hcbc) hfirst] at hreads
  exact hreads.mono (Set.Iio_subset_Iio hisize)

/-- What the adaptor does with a CBC cipher that OpenSSL takes. -/
theorem cfeCipherCtxInit_cbc (R : E.IvRead) (hc : octx.cipher = octx.type.evpCipher) (hcbc : octx.type.isAead = false)
    (hle : isize.toNat ≤ 16) (hfirst : (E.cipherInit octx.ctx (some octx.cipher) none none mode.toInt).1 = 1) (iv : Bytes) :
    let last := E.cipherInit (E.cipherInit octx.ctx (some octx.cipher) none none mode.toInt).2 none (some key) (some iv)
      mode.toInt
    cfeCipherCtxInit E (some octx) mode (some key) octx.type.struct.keysize (some iv) isize =
      .ofAdaptor (if last.1 ≠ 1 then 1 else 0, { octx with ctx := last.2 }) := by
  rw [cfeCipherCtxInit_of_le hle, opensslGenericCtxInit_eq, if_neg (not_not.mpr (R.keyLength_eq hc)),
    if_neg (not_not.mpr hfirst), setIvlen_cbc hcbc, if_neg (not_not.mpr rfl)]

/-- What a caller sees of such a call. -/
theorem seen_cbc (R : E.IvRead) (hc : octx.cipher = octx.type.evpCipher) (hcbc : octx.type.isAead = false)
    (hle : isize.toNat ≤ 16) (hfirst : (E.cipherInit octx.ctx (some octx.cipher) none none mode.toInt).1 = 1) {iv : Bytes}
    (hlast : (E.cipherInit (E.cipherInit octx.ctx (some octx.cipher) none none mode.toInt).2 none (some key) (some iv)
      mode.toInt).1 = 1) :
    (cfeCipherCtxInit E (some octx) mode (some key) octx.type.struct.keysize (some iv) isize).seen E order =
      (0, some (updateRun E order (some { octx with
        ctx := (E.cipherInit (E.cipherInit octx.ctx (some octx.cipher) none none mode.toInt).2 none (some key) (some iv)
          mode.toInt).2 }))) := by
  rw [cfeCipherCtxInit_cbc R hc hcbc hle hfirst]
  rw [if_neg (not_not.mpr hlast)]
  rfl

/-- With fewer than 16 bytes declared, those behind them matter. -/
theorem not_ivDeclared_cbc (R : E.IvRead) (hc : octx.cipher = octx.type.evpCipher) (hcbc : octx.type.isAead = false)
    (hlt : isize.toNat < 16) (hno : ¬EvpRefuses E octx mode key) : ¬IvDeclared E order octx mode key isize := by
  intro hdep
  obtain ⟨hfirst, hlast⟩ := not_or.mp hno
  rw [not_not] at hfirst
  obtain ⟨iv₀, hiv₀⟩ := not_forall.mp hlast
  rw [not_not] at hiv₀
  -- two buffers that differ in the first byte that is not declared
  let zeros : Bytes := fun _ => 0
  let other : Bytes := fun i => if i = isize.toNat then 1 else 0
  have hret : ∀ iv : Bytes, (E.cipherInit (E.cipherInit octx.ctx (some octx.cipher) none none mode.toInt).2 none (some key)
      (some iv) mode.toInt).1 = 1 := fun iv => (R.ret_eq _ _ iv iv₀ _).trans hiv₀
  have hne : zeros isize.toNat ≠ other isize.toNat := by
    simp only [zeros, other, if_true]
    decide
  obtain ⟨input, inl, hinl, hout⟩ :=
    R.chained octx.ctx octx.cipher key zeros other mode.toInt (isGcm_cbc hc hcbc) hfirst (hret zeros) isize.toNat hlt hne
  have hseen := hdep (x := zeros) (y := other) fun i hi => by
    simp only [zeros, other]
    rw [if_neg (Nat.ne_of_lt hi)]
  simp only at hseen
  rw [seen_cbc order R hc hcbc (by omega) hfirst (hret zeros), seen_cbc order R hc hcbc (by omega) hfirst (hret other)]
    at hseen
  have hrun := congrFun (Option.some.inj (Prod.mk.inj hseen).2) [⟨some input, BitVec.ofNat 64 inl, true, 0⟩]
  have hint : toCInt (BitVec.ofNat 64 inl) = inl := by
    have hval : (BitVec.ofNat 64 inl).toNat = inl := by
      rw [BitVec.toNat_ofNat]
      omega
    rw [toCInt_of_lt (by rw [hval]; exact hinl), hval]
  simp only [updateRun, cfeCipherCtxUpdate, opensslGenericCtxUpdate, hint, List.cons.injEq, Prod.mk.injEq] at hrun
  exact hout hrun.1.2.1

/-- When OpenSSL refuses a CBC cipher or its key, every call fails. -/
theorem ivDeclared_cbc_refused (R : E.IvRead) (hc : octx.cipher = octx.type.evpCipher) (hcbc : octx.type.isAead = false)
    (hno : EvpRefuses E octx mode key) : IvDeclared E order octx mode key isize := by
  by_cases hle : isize.toNat ≤ 16
  · apply ivDeclared_of_refuses
    intro iv
    by_cases hfirst : (E.cipherInit octx.ctx (some octx.cipher) none none mode.toInt).1 = 1
    · have hlast := (hno.resolve_left (not_not.mpr hfirst)) iv
      rw [cfeCipherCtxInit_cbc R hc hcbc hle hfirst]
      simp only [CtxCall.ofAdaptor]
      rw [if_pos hlast]
    · rw [cfeCipherCtxInit_of_le hle, opensslGenericCtxInit_eq, if_neg (not_not.mpr (R.keyLength_eq hc)), if_pos hfirst]
      rfl
  · exact ivDeclared_cbc order R hc hcbc (by omega)

/-- **A context depends only on the bytes of the iv that were declared**, exactly when its
cipher is authenticated, or 16 bytes are declared, or OpenSSL refuses the cipher or the key. -/
theorem iv_declared_iff (R : E.IvRead) (hc : octx.cipher = octx.type.evpCipher) :
    IvDeclared E order octx mode key isize ↔
      octx.type.isAead = true ∨ 16 ≤ isize.toNat ∨ EvpRefuses E octx mode key := by
  constructor
  · intro hdep
    by_contra hno
    obtain ⟨hcbc, hno⟩ := not_or.mp hno
    obtain ⟨hlt, hno⟩ := not_or.mp hno
    exact not_ivDeclared_cbc order R hc (Bool.eq_false_of_not_eq_true hcbc) (by omega) hno hdep
  · intro h
    cases hmode : octx.type.isAead with
    | true => exact ivDeclared_aead order R hmode
    | false =>
      rcases h with h | h | h
      · rw [hmode] at h
        cases h
      · exact ivDeclared_cbc order R hc hmode h
      · exact ivDeclared_cbc_refused order R hc hmode h

/-! ### One block of AES -/

/-- The key of the AES-128 example of the standard: `00` to `0f`. -/
def aesKey : Bytes := fun i => UInt8.ofNat i

/-- Its ciphertext. -/
def aesCiphertext : List UInt8 :=
  [0x69, 0xc4, 0xe0, 0xd8, 0x6a, 0x7b, 0x04, 0x30, 0xd8, 0xcd, 0xb7, 0x80, 0x70, 0xb4, 0xc5, 0x5a]

/-- Its plaintext. -/
def aesPlaintext : List UInt8 :=
  [0x00, 0x11, 0x22, 0x33, 0x44, 0x55, 0x66, 0x77, 0x88, 0x99, 0xaa, 0xbb, 0xcc, 0xdd, 0xee, 0xff]

/-- A context for that block. -/
structure OneBlock where
  /-- The cipher. -/
  cipher : Option EvpCipher
  /-- The iv length of a GCM cipher. -/
  ivlen : ℕ
  /-- The iv, when the block can be decrypted. -/
  iv : Option (List UInt8)

namespace OneBlock

/-- How many bytes of an iv are read. -/
def ivLength (s : OneBlock) : ℕ := if s.cipher.any EvpCipher.isGcm then s.ivlen else 16

/-- `EVP_CipherInit_ex` with a cipher resets the context. With an iv it sets up the
decryption of `aes128Cbc` under that key, and gives up on all else. -/
def init (s : OneBlock) (cipher : Option EvpCipher) (key iv : Option Bytes) (enc : ℤ) : ℤ × OneBlock :=
  match cipher, key, iv with
  | some c, _, _ => (1, ⟨some c, 12, none⟩)
  | none, some key, some iv =>
    if s.cipher = some .aes128Cbc ∧ enc = 0 ∧ key.read 16 = aesKey.read 16
    then (1, { s with iv := some (iv.read 16) }) else (0, s)
  | none, _, _ => (0, s)

/-- `EVP_CipherUpdate` of the ciphertext and one byte more, so that the block is not the
last, gives the plaintext combined with the iv; it gives up on all else. -/
def update (s : OneBlock) (out : Bool) (input : Option Bytes) (inl : ℤ) : EvpOutput OneBlock :=
  match s.iv, input with
  | some iv, some input =>
    if out = true ∧ inl = 17 ∧ input.read 16 = aesCiphertext
    then ⟨1, { s with iv := none }, List.zipWith (· ^^^ ·) aesPlaintext iv, some 16⟩ else ⟨0, s, [], none⟩
  | _, _ => ⟨0, s, [], none⟩

end OneBlock

/-- OpenSSL, as far as it decrypts that block. -/
def evpOneBlock : Evp OneBlock where
  zeroed := ⟨none, 0, none⟩
  keyLength c := c.keyBytes
  cipherInit := OneBlock.init
  ctrl s cmd arg _ :=
    match cmd with
    | .gcmSetIvlen => if s.cipher.any EvpCipher.isGcm ∧ 0 < arg then (1, { s with ivlen := arg.toNat }, []) else (0, s, [])
    | _ => (0, s, [])
  setPadding s _ := (1, s)
  cipherUpdate := OneBlock.update
  cipherFinal s _ := ⟨0, s, [], none⟩
  cipherOf s := s.cipher
  keyInForce s := s.iv.map fun _ => aesKey.read 16

/-- Combining with other bytes gives other bytes. -/
theorem zipWith_xor_inj : ∀ (text : List UInt8) {iv iv' : List UInt8}, iv.length = text.length →
    iv'.length = text.length → List.zipWith (· ^^^ ·) text iv = List.zipWith (· ^^^ ·) text iv' → iv = iv'
  | [], iv, iv', h, h', _ => by rw [List.length_eq_zero_iff.mp h, List.length_eq_zero_iff.mp h']
  | t :: text, b :: iv, b' :: iv', h, h', heq => by
    simp only [List.zipWith_cons_cons, List.cons.injEq] at heq
    obtain ⟨hhead, htail⟩ := heq
    have hiv := zipWith_xor_inj text (Nat.succ.inj h) (Nat.succ.inj h') htail
    rw [hiv, (UInt8.xor_right_inj t).mp hhead]

/-- After the init with a cipher, an init with an iv succeeds for that cipher and key only. -/
theorem OneBlock.init_eq_one {c : EvpCipher} {key : Option Bytes} {iv : Bytes} {enc : ℤ}
    (h : (OneBlock.init ⟨some c, 12, none⟩ none key (some iv) enc).1 = 1) :
    OneBlock.init ⟨some c, 12, none⟩ none key (some iv) enc = (1, ⟨some c, 12, some (iv.read 16)⟩) := by
  cases key with
  | none => cases h
  | some key =>
    simp only [OneBlock.init] at h ⊢
    split_ifs at h ⊢
    · rfl
    · cases h

/-- Whether an init succeeds does not depend on the iv. -/
theorem OneBlock.init_ret (s : OneBlock) (key : Option Bytes) (iv iv' : Bytes) (enc : ℤ) :
    (OneBlock.init s none key (some iv) enc).1 = (OneBlock.init s none key (some iv') enc).1 := by
  cases key with
  | none => rfl
  | some key =>
    simp only [OneBlock.init]
    split_ifs <;> rfl

/-- It reads an iv as OpenSSL does. -/
def evpOneBlockReads : evpOneBlock.IvRead where
  ivLength := OneBlock.ivLength
  keyLength _ := rfl
  cbc_ivLength s c enc hcbc _ := by
    simp [evpOneBlock, OneBlock.init, OneBlock.ivLength, hcbc]
  gcm_ivLength s arg _ hret := by
    simp only [evpOneBlock] at hret ⊢
    split_ifs at hret ⊢ with h
    · simp [OneBlock.ivLength, h.1]
    · cases hret
  reads s key enc := by
    intro iv iv' hagree
    cases key with
    | none => rfl
    | some key =>
      simp only [evpOneBlock, OneBlock.init]
      split_ifs with h
      · have hlen : s.ivLength = 16 := by
          simp [OneBlock.ivLength, h.1, EvpCipher.isGcm]
        have hread : Bytes.read iv 16 = Bytes.read iv' 16 :=
          Bytes.read_eq_iff.mpr fun i hi => hagree i (by rw [Set.mem_Iio, hlen]; exact hi)
        rw [hread]
      · rfl
  ret_eq := OneBlock.init_ret
  chained s c key iv iv' enc _ _ hret i hi hne := by
    have hinit := OneBlock.init_eq_one hret
    have hinit' := OneBlock.init_eq_one ((OneBlock.init_ret _ _ iv' iv enc).trans hret)
    refine ⟨fun i => aesCiphertext.getD i 0, 17, by omega, ?_⟩
    intro hout
    simp only [evpOneBlock, OneBlock.init] at hinit hinit' hout
    rw [hinit, hinit'] at hout
    have hxor := zipWith_xor_inj aesPlaintext (by rw [Bytes.read_length]; rfl) (by rw [Bytes.read_length]; rfl) hout
    exact hne (Bytes.read_eq_iff.mp hxor i hi)

/-- A new context for `aes-cbc-128`. -/
def testCbc : OpensslGenericCtx OneBlock := opensslAllocCtx evpOneBlock ⟨.aesCbc128, .aes128Cbc⟩

/-- With 16 bytes declared, no other byte matters. -/
theorem iv_declared_sixteen : IvDeclared evpOneBlock .little testCbc .decrypt aesKey 16 :=
  (iv_declared_iff .little evpOneBlockReads rfl).mpr (.inr (.inl (by decide)))

/-- An iv of zeros, but for the byte behind the first eight. -/
def testIv (b : UInt8) : Bytes := fun i => if i = 8 then b else 0

/-- With eight declared, two that only differ in that byte are both taken and give other
output. -/
theorem iv_not_declared :
    (∀ i < 8, testIv 0 i = testIv 1 i) ∧
      (∀ b, (cfeCipherCtxInit evpOneBlock (some testCbc) .decrypt (some aesKey) 16 (some (testIv b)) 8).ret = 0) ∧
      updateRun evpOneBlock .little
          (cfeCipherCtxInit evpOneBlock (some testCbc) .decrypt (some aesKey) 16 (some (testIv 0)) 8).ctx
          [⟨some fun i => aesCiphertext.getD i 0, 17, true, 0⟩] ≠
        updateRun evpOneBlock .little
          (cfeCipherCtxInit evpOneBlock (some testCbc) .decrypt (some aesKey) 16 (some (testIv 1)) 8).ctx
          [⟨some fun i => aesCiphertext.getD i 0, 17, true, 0⟩] := by
  refine ⟨?_, ?_, ?_⟩
  · decide
  · intro b
    rfl
  · decide

end LibCfe
