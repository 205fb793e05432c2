import LibCfe.Crypto.HashCtx
import LibCfe.Crypto.Pbkdf
import LibCfe.Crypto.Rand
import LibCfe.Registry.Busy
import LibCfe.Registry.Order

/-!
# Loading the library

The types of the library itself are registered by six constructors, one for each registry.
They run in no particular order, and types of other modules may have been registered before,
under names that the library uses itself. Then all of them call `abort`, except for
`hash_openssl_init`: it adds up what `register` returned, like the others, and does nothing
with it.

`Builtins` says where in memory the types of the library are, among all types of a registry.

## What is proved

`builtins_loaded` — when a constructor aborts, and what its names and versions find in every
state that threads can reach after it.
-/

namespace LibCfe

open Theory

variable {Tid T F : Type} [DecidableEq T]

/-! ### The types -/

/-- The types of the library. -/
def Builtin : Kind → Type
  | .crypto .cipher => OpensslType
  | .crypto .hash => OpensslHashType
  | .crypto .pbkdf => OpensslPbkdfType
  | .crypto .rand => Unit
  | .format _ => Unit

namespace Builtin

/-- In the order in which the constructor registers them. -/
def all : (k : Kind) → List (Builtin k)
  | .crypto .cipher => OpensslType.all
  | .crypto .hash => [OpensslHashType.sha1, .sha224, .sha256, .sha384, .sha512]
  | .crypto .pbkdf => [OpensslPbkdfType.sha1, .sha224, .sha256, .sha384, .sha512]
  | .crypto .rand => [()]
  | .format _ => [()]

/-- `openssl_type_…`, `header_v1_type` and `writer_v1_type`, with the address of the callback of each. -/
def struct : (k : Kind) → (Builtin k → F) → Builtin k → k.Struct F
  | .crypto .cipher, g, type =>
    { OpensslType.struct type with allocCtx := some (g type) : CfeCipherType F }
  | .crypto .hash, g, type => { OpensslHashType.struct type with allocCtx := some (g type) : CfeHashType F }
  | .crypto .pbkdf, g, type => (⟨OpensslPbkdfType.name type, some (g type)⟩ : CfePbkdfType F)
  | .crypto .rand, g, type => (⟨some randName, some (g type)⟩ : CfeRandType F)
  | .format .header, g, type => (⟨1, some (g type)⟩ : CfeHeaderType F)
  | .format .filewriter, g, type => (⟨1, some (g type)⟩ : CfeFilewriterType F)

/-- What a lookup of the type asks for. -/
def query : (k : Kind) → Builtin k → k.Query
  | .crypto .cipher, type => CString.ofMem (OpensslType.name type).toList
  | .crypto .hash, type => OpensslHashType.name type
  | .crypto .pbkdf, type => CString.ofMem (OpensslPbkdfType.name type).toList
  | .crypto .rand, _ => ()
  | .format _, _ => (1 : BitVec 32)

/-- Every type is registered. -/
theorem mem_all : (k : Kind) → (b : Builtin k) → b ∈ all k
  | .crypto .cipher, b => by
    show b ∈ OpensslType.all
    cases b <;> decide
  | .crypto .hash, b => by
    show b ∈ [OpensslHashType.sha1, .sha224, .sha256, .sha384, .sha512]
    cases b <;> decide
  | .crypto .pbkdf, b => by
    show b ∈ [OpensslPbkdfType.sha1, .sha224, .sha256, .sha384, .sha512]
    cases b <;> decide
  | .crypto .rand, _ => List.mem_singleton_self _
  | .format _, _ => List.mem_singleton_self _

/-- No type is registered twice. -/
theorem nodup_all : (k : Kind) → (all k).Nodup
  | .crypto .cipher => by
    show OpensslType.all.Nodup
    decide
  | .crypto .hash => by
    show [OpensslHashType.sha1, .sha224, .sha256, .sha384, .sha512].Nodup
    decide
  | .crypto .pbkdf => by
    show [OpensslPbkdfType.sha1, .sha224, .sha256, .sha384, .sha512].Nodup
    decide
  | .crypto .rand => List.nodup_singleton _
  | .format _ => List.nodup_singleton _

/-- No two have one name. -/
theorem asked_injective : (k : CryptoKind) → {b b' : Builtin (.crypto k)} →
    k.asked (query (.crypto k) b) = k.asked (query (.crypto k) b') → b = b'
  | .cipher, b, b', h => by
    have hinj : ∀ t t' : OpensslType, CString.ofMem t.name.toList = CString.ofMem t'.name.toList → t = t' := by
      intro t t'
      cases t <;> cases t' <;> decide
    exact hinj b b' h
  | .hash, b, b', h => by
    have hinj : ∀ t t' : OpensslHashType, t.name = t'.name → t = t' := by
      intro t t'
      cases t <;> cases t' <;> decide
    exact hinj b b' h
  | .pbkdf, b, b', h => by
    have hinj : ∀ t t' : OpensslPbkdfType, CString.ofMem t.name.toList = CString.ofMem t'.name.toList → t = t' := by
      intro t t'
      cases t <;> cases t' <;> decide
    exact hinj b b' h
  | .rand, _, _, _ => rfl

end Builtin

/-- The types of the library among those of a registry. -/
structure Builtins (k : Kind) (f : T → k.Struct F) where
  /-- Where they are. -/
  addr : Builtin k → T
  /-- Their callbacks. -/
  callback : Builtin k → F
  /-- They are what the source says. -/
  struct_eq : ∀ b, f (addr b) = Builtin.struct k callback b

/-! ### The constructors -/

/-- `ret += cfe_…_register(&…)` for each type: `ret`, and the registry. -/
def registerAll (k : Kind) (f : T → k.Struct F) (types : List T) (s : Registry T) : ℕ × Registry T :=
  ((registerRun k f s types).1.countP Option.isSome, (registerRun k f s types).2)

/-- `if (ret) abort()`; there is no result then. -/
def unlessFailed (r : ℕ × Registry T) : Option (Registry T) := if r.1 ≠ 0 then none else some r.2

/-- `cipher_openssl_init`, for ciphers in memory; `cipherOpensslInit` has those of the library only. -/
def cipherOpensslInitAt (f : T → CfeCipherType F) (openssl : OpensslType → T) (s : Registry T) : Option (Registry T) :=
  unlessFailed (registerAll (.crypto .cipher) f (OpensslType.all.map openssl) s)

/-- `hash_openssl_init`, which does not look at `ret`. -/
def hashOpensslInit (f : T → CfeHashType F) (openssl : OpensslHashType → T) (s : Registry T) : Option (Registry T) :=
  some (registerAll (.crypto .hash) f ([.sha1, .sha224, .sha256, .sha384, .sha512].map openssl) s).2

/-- `pbkdf_openssl_init`. -/
def pbkdfOpensslInit (f : T → CfePbkdfType F) (openssl : OpensslPbkdfType → T) (s : Registry T) : Option (Registry T) :=
  unlessFailed (registerAll (.crypto .pbkdf) f ([.sha1, .sha224, .sha256, .sha384, .sha512].map openssl) s)

/-- `rand_openssl_init`; whether there is a hardware generator is only logged. -/
def randOpensslInit (f : T → CfeRandType F) (opensslTypeRand : T) (s : Registry T) : Option (Registry T) :=
  unlessFailed (registerAll (.crypto .rand) f [opensslTypeRand] s)

/-- `header_v1_init`. -/
def headerV1Init (f : T → CfeHeaderType F) (headerV1Type : T) (s : Registry T) : Option (Registry T) :=
  unlessFailed (registerAll (.format .header) f [headerV1Type] s)

/-- `writer_v1_init`. -/
def writerV1Init (f : T → CfeFilewriterType F) (writerV1Type : T) (s : Registry T) : Option (Registry T) :=
  unlessFailed (registerAll (.format .filewriter) f [writerV1Type] s)

/-- The constructor of a registry. -/
def Builtins.constructor : {k : Kind} → {f : T → k.Struct F} → Builtins k f → Registry T → Option (Registry T)
  | .crypto .cipher, f, B => cipherOpensslInitAt f B.addr
  | .crypto .hash, f, B => hashOpensslInit f B.addr
  | .crypto .pbkdf, f, B => pbkdfOpensslInit f B.addr
  | .crypto .rand, f, B => randOpensslInit f (B.addr ())
  | .format .header, f, B => headerV1Init f (B.addr ())
  | .format .filewriter, f, B => writerV1Init f (B.addr ())

/-- All of them register every type, and all but one then look whether that failed. -/
theorem Builtins.constructor_eq {k : Kind} {f : T → k.Struct F} (B : Builtins k f) (s : Registry T) :
    B.constructor s = if k ≠ .crypto .hash ∧ (registerAll k f ((Builtin.all k).map B.addr) s).1 ≠ 0 then none
      else some (registerAll k f ((Builtin.all k).map B.addr) s).2 := by
  cases k with
  | crypto k =>
    cases k with
    | hash => rfl
    | _ => simp only [ne_eq, Kind.crypto.injEq, reduceCtorEq, not_false_eq_true, true_and]; rfl
  | format k =>
    simp only [ne_eq, reduceCtorEq, not_false_eq_true, true_and]
    cases k <;> rfl

/-- Counting failures in a run. -/
theorem foldl_countingRegister (l : List OpensslType) (n : ℕ) (s : Registry OpensslType) :
    l.foldl countingRegister (n, s) =
      (n + (registerAll (.crypto .cipher) OpensslType.struct l s).1,
        (registerAll (.crypto .cipher) OpensslType.struct l s).2) := by
  induction l generalizing n s with
  | nil => rfl
  | cons type l ih =>
    have hregister : ((Kind.crypto .cipher).api OpensslType.struct).register type s =
        cfeCipherRegister OpensslType.struct type s := rfl
    simp only [List.foldl_cons, countingRegister, registerAll, registerRun, hregister]
    cases cfeCipherRegister OpensslType.struct type s with
    | ok s' => simp [ih, registerAll]
    | error e => simp [ih, registerAll, add_assoc, add_comm]

/-- With the types of the library only it is `cipherOpensslInit`. -/
theorem cipherOpensslInitAt_eq (s : Registry OpensslType) :
    cipherOpensslInitAt OpensslType.struct id s = cipherOpensslInit s := by
  simp only [cipherOpensslInitAt, cipherOpensslInit, unlessFailed, List.map_id, foldl_countingRegister, zero_add]

/-! ### Lookups -/

/-- The type is what a lookup asks for, whatever the counters are. -/
def Kind.Answers : (k : Kind) → (T → k.Struct F) → T → k.Query → Prop
  | .crypto k, f, t, q => k.Plain (f t) ∧ k.nameOf (f t) = k.asked q
  | .format k, f, t, q => q ≠ (-1 : BitVec 32) ∧ k.version (f t) = BitVec.setWidth k.width q

/-- A lookup of another version than the default's. -/
theorem Kind.lookup_format (k : FormatKind) (f : T → k.Struct F) {q : BitVec 32} (hq : q ≠ -1)
    (s : Registry T) :
    ((Kind.format k).api f).lookup q s = formatFind (fun t => k.version (f t)) s (q.setWidth k.width) :=
  if_neg hq

/-- The versions in a registry differ. -/
theorem versionsDiffer_of_reachable [DecidableEq Tid] [Fintype Tid] {k : FormatKind} {f : T → k.Struct F}
    {s : Shared Tid T} (h : (regSystem Tid (.format k) f).Reachable System.Free s) :
    Keyed (fun t => k.version (f t)) s.registry.list := by
  apply h.invariant (I := fun s => Keyed (fun t => k.version (f t)) s.registry.list)
  · exact List.Pairwise.nil
  · intro s a s' ih hst _
    cases formatStep_effect hst with
    | stay hr =>
      rw [hr]
      exact ih
    | register t hr =>
      obtain ⟨hnew, hlist, -⟩ := formatRegister_ok _ hr
      rw [hlist]
      refine List.pairwise_append.mpr ⟨ih, List.pairwise_singleton _ t, ?_⟩
      intro u hu v hv
      rw [List.mem_singleton.mp hv]
      exact hnew u hu
    | unregister t hr =>
      obtain ⟨-, -, hs'⟩ := formatUnregister_ok hr
      rw [hs']
      exact ih.sublist List.erase_sublist
    | take q t _ hr =>
      rw [hr]
      exact ih
    | drop t hr =>
      rw [hr]
      exact ih

section

variable [DecidableEq Tid] [Fintype Tid] {k : Kind} {f : T → k.Struct F} {s : Shared Tid T} {t : T} {q : k.Query}

/-- **A registered type is found by those who ask for it**, in every state that any threads reach. -/
theorem lookup_of_answers (hs : (regSystem Tid k f).Reachable System.Free s) (ht : t ∈ s.registry.list)
    (h : k.Answers f t q) : (k.api f).lookup q s.registry = some t := by
  cases k with
  | crypto k =>
    obtain ⟨hplain, hname⟩ := h
    show findAlg (k.toClass f) s.registry (k.asked q) = some t
    rw [← hname]
    exact findAlg_plain (plainNamesDiffer_of_reachable hs) ht hplain
  | format k =>
    obtain ⟨hq, hversion⟩ := h
    refine (Kind.lookup_format k f hq s.registry).trans ?_
    rw [← hversion]
    apply ((versionsDiffer_of_reachable hs).find?_eq_some_iff (k := k.version (f t)) _).mpr ⟨ht, rfl⟩
    intro u _
    exact beq_iff_eq

end

namespace Builtins

variable {k : Kind} {f : T → k.Struct F} (B : Builtins k f)

omit [DecidableEq T] in
/-- The types of the library are what their lookups ask for. -/
theorem answers_addr : {k : Kind} → {f : T → k.Struct F} → (B : Builtins k f) → (b : Builtin k) →
    k.Answers f (B.addr b) (Builtin.query k b)
  | .crypto .cipher, f, B, b => by
    have h := B.struct_eq b
    have hname : (f (B.addr b)).name = OpensslType.name b := by
      rw [h]
      cases b <;> rfl
    refine ⟨.inl ?_, ?_⟩
    · show 0 ∈ (f (B.addr b)).name.toList
      rw [hname]
      cases b <;> decide
    · show CString.ofMem (f (B.addr b)).name.toList = _
      rw [hname]
      rfl
  | .crypto .hash, f, B, b => by
    have h := B.struct_eq b
    refine ⟨.inl trivial, ?_⟩
    show (f (B.addr b)).name.getD _ = _
    rw [h]
    cases b <;> rfl
  | .crypto .pbkdf, f, B, b => by
    have h := B.struct_eq b
    refine ⟨.inl ?_, ?_⟩
    · show 0 ∈ (f (B.addr b)).name.toList
      rw [h]
      exact OpensslPbkdfType.terminated b
    · show CString.ofMem (f (B.addr b)).name.toList = _
      rw [h]
      rfl
  | .crypto .rand, f, B, b => by
    have h := B.struct_eq b
    refine ⟨.inl trivial, ?_⟩
    show (f (B.addr b)).name.getD _ = _
    rw [h]
    rfl
  | .format .header, f, B, b => by
    have h := B.struct_eq b
    refine ⟨show (1 : BitVec 32) ≠ -1 by decide, ?_⟩
    show (f (B.addr b)).version = _
    rw [h]
    rfl
  | .format .filewriter, f, B, b => by
    have h := B.struct_eq b
    refine ⟨show (1 : BitVec 32) ≠ -1 by decide, ?_⟩
    show (f (B.addr b)).version = _
    rw [h]
    rfl

omit [DecidableEq T] in
/-- `register` has nothing against them. -/
theorem valid_addr : {k : Kind} → {f : T → k.Struct F} → (B : Builtins k f) → (b : Builtin k) → k.Valid f (B.addr b)
  | .crypto .cipher, f, B, b => by
    show ((f (B.addr b)).blocksize != 0 && (f (B.addr b)).allocCtx.isSome) = true
    rw [B.struct_eq b]
    cases b <;> rfl
  | .crypto .hash, f, B, b => by
    show ((f (B.addr b)).name.isSome && (f (B.addr b)).digestsize != 0 && (f (B.addr b)).allocCtx.isSome) = true
    rw [B.struct_eq b]
    cases b <;> rfl
  | .crypto .pbkdf, f, B, b => by
    show (f (B.addr b)).derive.isSome = true
    rw [B.struct_eq b]
    rfl
  | .crypto .rand, f, B, b => by
    show ((f (B.addr b)).name.isSome && (f (B.addr b)).get.isSome) = true
    rw [B.struct_eq b]
    rfl
  | .format _, _, _, _ => trivial

omit [DecidableEq T] in
/-- A lookup asks for one of them. -/
theorem eq_of_answers {b b' : Builtin k} (h : k.Answers f (B.addr b) (Builtin.query k b')) : b = b' := by
  cases k with
  | crypto k => exact Builtin.asked_injective k ((B.answers_addr b).2.symm.trans h.2)
  | format k => rfl

/-- What is found in the place of one of them is what was asked for. -/
theorem answers_of_lookup (B : Builtins k f) {b : Builtin k} {s : Registry T} {u : T}
    (h : (k.api f).lookup (Builtin.query k b) s = some u) : u ∈ s.list ∧ k.Answers f u (Builtin.query k b) := by
  cases k with
  | crypto k =>
    obtain ⟨hplain, hasked⟩ := B.answers_addr b
    have hfind : findAlg (k.toClass f) s (k.asked (Builtin.query (.crypto k) b)) = some u := h
    have hname : (k.toClass f).name s.refcnt u = k.nameOf (f (B.addr b)) := by
      have hcmp := List.find?_some hfind
      rw [beq_iff_eq, strcmp_eq_zero_iff] at hcmp
      rw [hasked, hcmp]
    have hplain' := CryptoKind.plain_of_name hplain hname
    refine ⟨mem_of_findAlg _ hfind, hplain', ?_⟩
    rw [← hasked, ← hname, CryptoKind.name_of_plain hplain']
  | format k =>
    have hne := (B.answers_addr b).1
    have hfind := (Kind.lookup_format k f hne s).symm.trans h
    obtain ⟨hmem, hversion⟩ := mem_of_formatFind (fun t => k.version (f t)) hfind
    exact ⟨hmem, hne, hversion⟩

/-- One of them is refused just when something is found in its place. -/
theorem register_addr (b : Builtin k) (s : Registry T) :
    (∃ u, (k.api f).lookup (Builtin.query k b) s = some u ∧ (k.api f).register (B.addr b) s = .error EBUSY) ∨
      (k.api f).lookup (Builtin.query k b) s = none ∧
        ∃ s', (k.api f).register (B.addr b) s = .ok s' ∧ s'.list = s.list ++ [B.addr b] := by
  have hanswers := B.answers_addr b
  have hvalid := B.valid_addr b
  cases k with
  | crypto k =>
    obtain ⟨hplain, hasked⟩ := hanswers
    have hlookup : ((Kind.crypto k).api f).lookup (Builtin.query (.crypto k) b) s =
        findAlg (k.toClass f) s ((k.toClass f).name s.refcnt (B.addr b)) := by
      rw [CryptoKind.name_of_plain hplain, hasked]
      rfl
    have hregister := Kind.register_crypto k f (B.addr b) s
    have haccepts : (k.toClass f).accepts (B.addr b) = true := hvalid
    rw [hlookup]
    cases hfind : findAlg (k.toClass f) s ((k.toClass f).name s.refcnt (B.addr b)) with
    | some u =>
      refine .inl ⟨u, rfl, hregister.trans ?_⟩
      rw [cryptoRegister_busy_iff haccepts, hfind]
      rfl
    | none =>
      cases hok : cryptoRegister (k.toClass f) (B.addr b) s with
      | error e =>
        simp only [cryptoRegister, haccepts, hfind] at hok
        cases hok
      | ok s' =>
        obtain ⟨-, -, rfl⟩ := cryptoRegister_ok _ hok
        exact .inr ⟨rfl, _, hregister.trans hok, rfl⟩
  | format k =>
    obtain ⟨hne, hversion⟩ := hanswers
    have hlookup : ((Kind.format k).api f).lookup (Builtin.query (.format k) b) s =
        formatFind (fun t => k.version (f t)) s (k.version (f (B.addr b))) := by
      rw [hversion]
      exact Kind.lookup_format k f hne s
    have hregister := Kind.register_format k f (B.addr b) s
    rw [hlookup]
    cases hfind : formatFind (fun t => k.version (f t)) s (k.version (f (B.addr b))) with
    | some u =>
      refine .inl ⟨u, rfl, hregister.trans ?_⟩
      simp only [formatRegister, hfind]
    | none =>
      cases hok : formatRegister (fun t => k.version (f t)) (B.addr b) s with
      | error e =>
        simp only [formatRegister, hfind] at hok
        cases hok
      | ok s' =>
        obtain ⟨-, hlist, -⟩ := formatRegister_ok _ hok
        exact .inr ⟨rfl, s', hregister.trans hok, hlist⟩

end Builtins

/-! ### Runs -/

section

variable [DecidableEq Tid] [Fintype Tid] {k : Kind} {f : T → k.Struct F} {s s' : Shared Tid T}

/-- The default is what it should be. -/
theorem good_of_reachable (h : (regSystem Tid k f).Reachable System.Free s) : k.Good s.registry := by
  apply h.invariant (I := fun s => k.Good s.registry)
  · exact (k.lawful f).good_empty
  · intro s a s' ih hst _
    exact (regStep_effect hst).good (k.lawful f) ih

/-- A type stays registered when nobody unregisters it. -/
theorem stays_listed (hs : (regSystem Tid k f).Reachable System.Free s) {t : T} {as : List (Tid × RegAction T k.Query)}
    (h : (regSystem Tid k f).Runs (fun _ a _ => a.2 ≠ .unregister t) s as s') (ht : t ∈ s.registry.list) :
    (regSystem Tid k f).Reachable System.Free s' ∧ t ∈ s'.registry.list := by
  refine h.invariant (I := fun s => (regSystem Tid k f).Reachable System.Free s ∧ t ∈ s.registry.list) ?_ ⟨hs, ht⟩
  rintro s ⟨i, a⟩ s' ⟨hreach, hmem⟩ hst hne
  refine ⟨hreach.runs (.step .refl hst trivial), ?_⟩
  by_contra hgone
  exact hne (regStep_removes hst (good_of_reachable hreach) hmem hgone)

omit [Fintype Tid] in
/-- Calls of `register` by one thread. -/
theorem registerRun_reachable (hs : (regSystem Tid k f).Reachable System.Free s) {i : Tid}
    (hidle : (s.threads i).pc = .idle) (l : List T) :
    (regSystem Tid k f).Reachable System.Free ⟨(registerRun k f s.registry l).2, s.threads⟩ := by
  induction l generalizing s with
  | nil => exact hs
  | cons t l ih =>
    have hstep : (regSystem Tid k f).step s (i, .register t) =
        some ⟨s.registry.after ((k.api f).register t s.registry), s.threads⟩ := by
      simp only [regSystem, regStep, hidle, if_true]
    have hnext := ih (hs.runs (.step .refl hstep trivial)) hidle
    simp only [registerRun]
    cases hregister : (k.api f).register t s.registry with
    | ok s' =>
      rw [hregister] at hnext
      exact hnext
    | error e =>
      rw [hregister] at hnext
      exact hnext

/-- What is found under the name of a type of the library once its constructor has run: the type,
unless there was another. -/
def Builtins.found (B : Builtins k f) (s : Registry T) (b : Builtin k) : T :=
  ((k.api f).lookup (Builtin.query k b) s).getD (B.addr b)

omit [DecidableEq Tid] [Fintype Tid] in
/-- It is what was asked for. -/
theorem Builtins.answers_found (B : Builtins k f) (s : Registry T) (b : Builtin k) :
    k.Answers f (B.found s b) (Builtin.query k b) := by
  rw [Builtins.found]
  cases h : (k.api f).lookup (Builtin.query k b) s with
  | none => exact B.answers_addr b
  | some u => exact (B.answers_of_lookup h).2

/-- Registering a type of the library makes no difference to those who ask for another one. -/
theorem Builtins.lookup_register (B : Builtins k f) (hs : (regSystem Tid k f).Reachable System.Free s)
    (hs' : (regSystem Tid k f).Reachable System.Free s') {b b' : Builtin k} (hne : b ≠ b')
    (hlist : s'.registry.list = s.registry.list ++ [B.addr b]) :
    (k.api f).lookup (Builtin.query k b') s'.registry = (k.api f).lookup (Builtin.query k b') s.registry := by
  apply Option.ext
  intro u
  constructor
  · intro h
    obtain ⟨hmem, hanswers⟩ := B.answers_of_lookup h
    rw [hlist] at hmem
    obtain hmem | hmem := List.mem_append.mp hmem
    · exact lookup_of_answers hs hmem hanswers
    · rw [List.mem_singleton.mp hmem] at hanswers
      exact absurd (B.eq_of_answers hanswers) hne
  · intro h
    obtain ⟨hmem, hanswers⟩ := B.answers_of_lookup h
    exact lookup_of_answers hs' (by rw [hlist]; exact List.mem_append_left _ hmem) hanswers

/-- **What a constructor does with each of its types**: it is refused when something is found in
its place, and registered otherwise. -/
theorem Builtins.registerRun (B : Builtins k f) (hs : (regSystem Tid k f).Reachable System.Free s) {i : Tid}
    (hidle : (s.threads i).pc = .idle) {l : List (Builtin k)} (hl : l.Nodup) :
    (LibCfe.registerRun k f s.registry (l.map B.addr)).1 =
        l.map (fun b => if ((k.api f).lookup (Builtin.query k b) s.registry).isSome then some EBUSY else none) ∧
      (∀ t ∈ s.registry.list, t ∈ (LibCfe.registerRun k f s.registry (l.map B.addr)).2.list) ∧
      ∀ b ∈ l, B.found s.registry b ∈ (LibCfe.registerRun k f s.registry (l.map B.addr)).2.list := by
  induction l generalizing s with
  | nil => exact ⟨rfl, fun t ht => ht, by simp⟩
  | cons b l ih =>
    obtain ⟨hb, hl⟩ := List.nodup_cons.mp hl
    simp only [List.map_cons, LibCfe.registerRun]
    obtain ⟨u, hu, hrefused⟩ | ⟨hfree, s', hok, hlist⟩ := B.register_addr b s.registry
    · -- there is another type
      obtain ⟨herrors, hkept, hfound⟩ := ih hs hidle hl
      simp only [hrefused, hu, Option.isSome_some, if_true]
      refine ⟨by rw [herrors], hkept, ?_⟩
      intro b' hb'
      obtain rfl | hb' := List.mem_cons.mp hb'
      · rw [found, hu]
        exact hkept u (B.answers_of_lookup hu).1
      · exact hfound b' hb'
    · have hreach := registerRun_reachable hs hidle [B.addr b]
      simp only [LibCfe.registerRun, hok] at hreach
      obtain ⟨herrors, hkept, hfound⟩ := ih hreach hidle hl
      -- the others find what they found before
      have hsame : ∀ b' ∈ l, (k.api f).lookup (Builtin.query k b') s' =
          (k.api f).lookup (Builtin.query k b') s.registry :=
        fun b' hb' => B.lookup_register hs hreach (fun heq : b = b' => hb (heq ▸ hb')) hlist
      simp only [hok, hfree]
      refine ⟨?_, ?_, ?_⟩
      · rw [herrors, List.map_congr_left fun b' hb' => by rw [hsame b' hb']]
        rfl
      · intro t ht
        exact hkept t (by rw [hlist]; exact List.mem_append_left _ ht)
      · intro b' hb'
        obtain rfl | hb' := List.mem_cons.mp hb'
        · rw [found, hfree]
          exact hkept _ (by rw [hlist]; simp)
        · have hmem := hfound b' hb'
          rw [found, hsame b' hb'] at hmem
          exact hmem

/-- A constructor aborts when something was found in the place of one of its types. -/
theorem Builtins.constructor_eq_none_iff (B : Builtins k f) (hs : (regSystem Tid k f).Reachable System.Free s) {i : Tid}
    (hidle : (s.threads i).pc = .idle) :
    B.constructor s.registry = none ↔
      k ≠ .crypto .hash ∧ ∃ b, ((k.api f).lookup (Builtin.query k b) s.registry).isSome = true := by
  obtain ⟨herrors, -, -⟩ := B.registerRun hs hidle (Builtin.nodup_all k)
  have hfailed : (registerAll k f ((Builtin.all k).map B.addr) s.registry).1 ≠ 0 ↔
      ∃ b, ((k.api f).lookup (Builtin.query k b) s.registry).isSome = true := by
    simp only [registerAll, herrors, ne_eq, List.countP_eq_zero, List.forall_mem_map]
    constructor
    · intro h
      by_contra hnone
      refine h fun b _ => ?_
      rw [if_neg (fun hb => hnone ⟨b, hb⟩)]
      simp
    · rintro ⟨b, hb⟩ h
      refine h b (Builtin.mem_all k b) ?_
      rw [if_pos hb]
      rfl
  rw [B.constructor_eq, ← hfailed, ite_eq_left_iff]
  simp

/-- Otherwise all that is found in their places is registered. -/
theorem Builtins.constructor_eq_some (B : Builtins k f) (hs : (regSystem Tid k f).Reachable System.Free s) {i : Tid}
    (hidle : (s.threads i).pc = .idle) {r : Registry T} (hr : B.constructor s.registry = some r) :
    (regSystem Tid k f).Reachable System.Free ⟨r, s.threads⟩ ∧ ∀ b, B.found s.registry b ∈ r.list := by
  rw [B.constructor_eq] at hr
  split_ifs at hr
  cases hr
  obtain ⟨-, -, hfound⟩ := B.registerRun hs hidle (Builtin.nodup_all k)
  exact ⟨registerRun_reachable hs hidle _, fun b => hfound b (Builtin.mem_all k b)⟩

/-- **What loading the library does to each registry.** Whatever threads have done to the registry
before, its constructor aborts just when another type has one of the names of the library, or its
version, except that of the hashes, which never does. If it returns, a lookup finds the type of the
library, or for a hash the type that was there before, in every state that any threads reach from
then on without unregistering that type. -/
theorem builtins_loaded (B : Builtins k f) (hs : (regSystem Tid k f).Reachable System.Free s) {i : Tid}
    (hidle : (s.threads i).pc = .idle) :
    (B.constructor s.registry = none ↔
      k ≠ .crypto .hash ∧ ∃ b, ((k.api f).lookup (Builtin.query k b) s.registry).isSome = true) ∧
    ∀ r, B.constructor s.registry = some r → ∀ b as s',
      (regSystem Tid k f).Runs (fun _ a _ => a.2 ≠ .unregister (B.found s.registry b)) ⟨r, s.threads⟩ as s' →
      (k.api f).lookup (Builtin.query k b) s'.registry = some (B.found s.registry b) := by
  refine ⟨B.constructor_eq_none_iff hs hidle, ?_⟩
  intro r hr b as s' hruns
  obtain ⟨hreach, hfound⟩ := B.constructor_eq_some hs hidle hr
  obtain ⟨hreach', hmem⟩ := stays_listed hreach hruns (hfound b)
  exact lookup_of_answers hreach' hmem (B.answers_found s.registry b)

end

/-- Hash types in memory: another module has one that is called `"sha1"` too. -/
def foreignSha1 : Option OpensslHashType → CfeHashType Unit
  | none => ⟨some (OpensslHashType.name .sha1), 20, some ()⟩
  | some type => Builtin.struct (.crypto .hash) (fun _ => ()) type

/-- Those of the library. -/
def foreignSha1Builtins : Builtins (.crypto .hash) foreignSha1 := ⟨some, fun _ => (), fun _ => rfl⟩

/-- The other module came first, and nobody notices. -/
theorem builtins_loaded_foreign_sha1 :
    ∃ s r, (regSystem (Fin 1) (.crypto .hash) foreignSha1).Reachable System.Free s ∧
      foreignSha1Builtins.constructor s.registry = some r ∧
      findAlg (hashClass foreignSha1) r (OpensslHashType.name .sha1) = some none ∧
      findAlg (hashClass foreignSha1) r (OpensslHashType.name .sha256) = some (some .sha256) := by
  have hs := System.reachable_of_exec (S := regSystem (Fin 1) (.crypto .hash) foreignSha1) (C := System.Free)
    [(0, .register none)] (by decide)
  obtain ⟨-, hloaded⟩ := builtins_loaded foreignSha1Builtins hs (i := 0) rfl
  refine ⟨_, _, hs, rfl, ?_, ?_⟩
  · exact hloaded _ rfl OpensslHashType.sha1 _ _ .refl
  · exact hloaded _ rfl OpensslHashType.sha256 _ _ .refl

end LibCfe
