import LibCfe.Open.References
import LibCfe.Registry.Busy

/-!
# What a file writer is made with

`cfe_filewriter_create` looks up a type, takes a reference to the cipher and calls the
`alloc` of the type with the cipher and the block size. `cfe_filewriter_v1_alloc` does
nothing with either: the writer has neither, and the reference to the cipher, which is
handed over with it, is in no field of any object.

## The model

`Owners` is the registries of file writers and ciphers together with what the callers
have got from them: contexts, references and file writers. `made` is no state of the
program. It records the ciphers that file writers were made with. The steps are whole
calls, one after another.

## What is proved

* `ownStep_simulates` — a call does to the registry of ciphers what one step of a thread
  does, or nothing.
* `writer_carries` — a call gives a writer what was asked for only when it makes none; and
  the counters count the live writers by their cipher fields just as long as no writer was
  made with the cipher.
-/

namespace LibCfe

open Theory World

variable {H W C F : Type} [DecidableEq W] [DecidableEq C]

/-! ### One call -/

/-- The writer is what was asked for. -/
structure CarriesRequest (writer : CfeFilewriter H W C) (type : W) (cipher : C) (blocksize : BitVec 32) : Prop where
  blocksize : writer.blocksize = blocksize
  cipher : writer.cipher = some cipher
  type : writer.type = type

section

variable {types : W → CfeFilewriterType (FilewriterAlloc H W C)} {ciphers : C → CfeCipherType F} {env : Env}
  {version : BitVec 32} {cipher : Option CString} {blocksize : BitVec 32} {s s' : World H W C}

/-- What a call that makes a writer of version 1 has found and done. -/
theorem cfeFilewriterCreate_made
    (hv1 : ∀ w alloc, formatLookup (fun t => (types t).version) version s.writers = some w →
      (types w).alloc = some alloc → alloc = filewriterV1)
    {writer : CfeFilewriter H W C}
    (h : cfeFilewriterCreate types ciphers env version cipher blocksize s = some (some writer, s')) :
    ∃ type name c block, formatLookup (fun t => (types t).version) version s.writers = some type ∧
      cipher = some name ∧ findAlg (cipherClass ciphers) s.ciphers name = some c ∧ env.writerBlock = .ok block ∧
      writer = { CfeFilewriterV1.base { block } with type } ∧ s'.ciphers = s.ciphers.inc c := by
  obtain ⟨type, name, c, alloc, new, htype, hname, hfind, halloc, hnew, rfl⟩ := cfeFilewriterCreate_parts h
  obtain rfl := hv1 type alloc htype halloc
  rw [filewriterV1_alloc] at hnew
  cases hblock : env.writerBlock with
  | error e =>
    rw [hblock] at hnew
    cases hnew
  | ok block =>
    rw [hblock] at hnew
    obtain ⟨hbase, rfl⟩ := Prod.mk.inj hnew
    obtain rfl := Option.some.inj hbase
    exact ⟨type, name, c, block, htype, hname, hfind, rfl, rfl, rfl⟩

/-- With a type, a cipher and a block there is a writer. -/
theorem cfeFilewriterCreate_makes {type : W} {name : CString} {c : C} {block : Addr}
    (halloc : (types type).alloc = some filewriterV1)
    (htype : formatLookup (fun t => (types t).version) version s.writers = some type)
    (hfind : findAlg (cipherClass ciphers) s.ciphers name = some c) (hblock : env.writerBlock = .ok block) :
    ∃ s', cfeFilewriterCreate types ciphers env version (some name) blocksize s =
      some (some { CfeFilewriterV1.base { block } with type }, s') := by
  unfold cfeFilewriterCreate
  simp only [htype, cfeCipherRefPtr, cfeCipherRef, hfind, halloc, filewriterV1_alloc, hblock]
  exact ⟨_, rfl⟩

/-- **A writer is what was asked for** just when there is none. -/
theorem carries_iff {type : W} {name : CString} {c : C} (halloc : (types type).alloc = some filewriterV1)
    (htype : formatLookup (fun t => (types t).version) version s.writers = some type)
    (hfind : findAlg (cipherClass ciphers) s.ciphers name = some c) :
    (∀ writer s', cfeFilewriterCreate types ciphers env version (some name) blocksize s = some (some writer, s') →
      CarriesRequest writer type c blocksize) ↔ ∃ e, env.writerBlock = .error e := by
  constructor
  · intro hcarries
    cases hblock : env.writerBlock with
    | error e => exact ⟨e, rfl⟩
    | ok block =>
      obtain ⟨s', hmakes⟩ := cfeFilewriterCreate_makes halloc htype hfind hblock
      have hcipher := (hcarries _ s' hmakes).cipher
      cases hcipher
  · rintro ⟨e, he⟩ writer s' h
    have hv1 : ∀ w alloc, formatLookup (fun t => (types t).version) version s.writers = some w →
        (types w).alloc = some alloc → alloc = filewriterV1 := by
      intro w alloc hw ha
      rw [htype, Option.some.injEq] at hw
      rw [← hw, halloc, Option.some.injEq] at ha
      exact ha.symm
    obtain ⟨-, -, -, block, -, -, -, hblock, -⟩ := cfeFilewriterCreate_made hv1 h
    rw [he] at hblock
    cases hblock

end

/-! ### Calls, one after another -/

/-- The registries, and what was got from them. -/
structure Owners (H W C : Type) where
  /-- The registries. -/
  world : World H W C
  /-- The cipher types of the live contexts. -/
  contexts : List C
  /-- Those that `cfe_cipher_ref` returned and that were not put back. -/
  refs : List C
  /-- The live writers. -/
  writers : List (CfeFilewriter H W C)
  /-- The cipher types that writers were made with, live or not. -/
  made : List C

/-- The calls. -/
inductive OwnerCall where
  /-- `cfe_cipher_register`. -/
  | registerCipher (c : C)
  /-- `cfe_cipher_unregister`. -/
  | unregisterCipher (c : C)
  /-- `cfe_filewriter_register`. -/
  | registerWriter (w : W)
  /-- `cfe_filewriter_unregister`. -/
  | unregisterWriter (w : W)
  /-- `cfe_cipher_alloc_ctx`, and whether the `alloc_ctx` of the type succeeds. -/
  | allocCtx (name : CString) (ok : Bool)
  /-- `cfe_cipher_destroy_ctx` of a context of that type. -/
  | destroyCtx (c : C)
  /-- `cfe_cipher_ref`. -/
  | ref (name : CString)
  /-- `cfe_cipher_put`. -/
  | put (c : C)
  /-- `cfe_filewriter_create`. -/
  | create (env : Env) (version : BitVec 32) (cipher : Option CString) (blocksize : BitVec 32)
  /-- `ops->free` of the writer at that place among the live ones. -/
  | free (i : ℕ)

variable (types : W → CfeFilewriterType (FilewriterAlloc H W C)) (ciphers : C → CfeCipherType F)

/-- The cipher that a name means. -/
def namedCipher (cipher : Option CString) (s : World H W C) : Option C :=
  cipher.bind (findAlg (cipherClass ciphers) s.ciphers)

/-- The same with another registry of ciphers. -/
def Owners.withCiphers (o : Owners H W C) (r : Registry C) : Owners H W C :=
  { o with world := { o.world with ciphers := r } }

/-- One call. -/
def ownStep (o : Owners H W C) : OwnerCall (W := W) (C := C) → Option (Owners H W C)
  | .registerCipher c => some (o.withCiphers (o.world.ciphers.after (cfeCipherRegister ciphers c o.world.ciphers)))
  | .unregisterCipher c => some (o.withCiphers (o.world.ciphers.after (cfeCipherUnregister c o.world.ciphers)))
  | .registerWriter w =>
      some { o with world := { o.world with
        writers := o.world.writers.after (cfeFilewriterRegister types w o.world.writers) } }
  | .unregisterWriter w =>
      some { o with world := { o.world with
        writers := o.world.writers.after (cfeFilewriterUnregister w o.world.writers) } }
  | .allocCtx name ok =>
      match cfeCipherRef ciphers name o.world.ciphers with
      | (none, _) => some o
      | (some c, r) =>
        if ok then some { o.withCiphers r with contexts := c :: o.contexts }
        else some (o.withCiphers (cfeCipherPut (some c) r))
  | .destroyCtx c =>
      if c ∈ o.contexts
      then some { o.withCiphers (cfeCipherPut (some c) o.world.ciphers) with contexts := o.contexts.erase c } else none
  | .ref name =>
      match cfeCipherRef ciphers name o.world.ciphers with
      | (none, _) => some o
      | (some c, r) => some { o.withCiphers r with refs := c :: o.refs }
  | .put c =>
      if c ∈ o.refs
      then some { o.withCiphers (cfeCipherPut (some c) o.world.ciphers) with refs := o.refs.erase c } else none
  | .create env version cipher blocksize =>
      match cfeFilewriterCreate types ciphers env version cipher blocksize o.world with
      | none => none
      | some (none, s) => some { o with world := s }
      | some (some writer, s) =>
        some { o with
          world := s
          writers := writer :: o.writers
          made := (namedCipher ciphers cipher o.world).toList ++ o.made }
  | .free i =>
      o.writers[i]?.map fun writer => { o with world := writer.free o.world, writers := o.writers.eraseIdx i }

/-! ### The registry of ciphers alone -/

/-- Who holds references to ciphers. -/
inductive Holder where
  /-- The contexts. -/
  | contexts
  /-- The callers of `cfe_cipher_ref`. -/
  | callers
  /-- Nobody any more: what writers were made with. -/
  | writers
  deriving DecidableEq

instance : Fintype Holder := ⟨{.contexts, .callers, .writers}, fun h => by cases h <;> simp⟩

namespace Owners

/-- The references to a cipher that were taken and not given back. -/
def owned (o : Owners H W C) (c : C) : ℕ := o.contexts.count c + o.refs.count c + o.made.count c

/-- The references that a holder has. -/
def held (o : Owners H W C) : Holder → List C
  | .contexts => o.contexts
  | .callers => o.refs
  | .writers => o.made

/-- The registry of ciphers, each holder being a thread that has called `cfe_cipher_ref`. -/
def shared (o : Owners H W C) : Shared Holder C := ⟨o.world.ciphers, fun h => { refs := o.held h }⟩

omit [DecidableEq W] in
theorem shared_outstanding (o : Owners H W C) (c : C) : o.shared.outstanding c = o.owned c := by
  have huniv : (Finset.univ : Finset Holder) = {.contexts, .callers, .writers} := rfl
  rw [Shared.outstanding, huniv, Finset.sum_insert (by decide), Finset.sum_insert (by decide), Finset.sum_singleton]
  simp only [shared, held, owned, Thread.holds, Pc.holds, List.count_nil]
  omega

omit [DecidableEq W] [DecidableEq C] in
/-- One holder has others, and the registry is another. -/
theorem shared_eq_set {o o' : Owners H W C} (h : Holder) (hother : ∀ h', h' ≠ h → o'.held h' = o.held h') :
    o'.shared = o.shared.set h o'.world.ciphers { refs := o'.held h } := by
  simp only [shared, Shared.set, Shared.mk.injEq, true_and]
  funext h'
  by_cases hh : h' = h
  · subst hh
    rw [Function.update_self]
  · rw [Function.update_of_ne hh, hother h' hh]

omit [DecidableEq W] [DecidableEq C] in
/-- The other holders have what they had. -/
theorem held_of_ne {o o' : Owners H W C} {h : Holder} (hcontexts : h ≠ .contexts → o'.contexts = o.contexts)
    (hrefs : h ≠ .callers → o'.refs = o.refs) (hmade : h ≠ .writers → o'.made = o.made) :
    ∀ h', h' ≠ h → o'.held h' = o.held h' := by
  intro h' hne
  cases h' with
  | contexts => exact hcontexts hne.symm
  | callers => exact hrefs hne.symm
  | writers => exact hmade hne.symm

variable {ciphers : C → CfeCipherType F} {o o' : Owners H W C}

omit [DecidableEq W] in
/-- A holder takes a reference. -/
theorem shared_ref (h : Holder) {name : CString} {c : C}
    (hfind : findAlg (cipherClass ciphers) o.world.ciphers name = some c)
    (hr : o'.world.ciphers = o.world.ciphers.inc c) (hheld : o'.held h = c :: o.held h)
    (hother : ∀ h', h' ≠ h → o'.held h' = o.held h') :
    regStep (.crypto .cipher) ciphers o.shared (h, .ref name) = some o'.shared := by
  have hlookup : (Kind.api (.crypto .cipher) ciphers).lookup name o.shared.registry = some c := hfind
  rw [shared_eq_set h hother, hr, hheld]
  simp only [regStep, hlookup]
  exact if_pos ⟨rfl, rfl⟩

omit [DecidableEq W] in
/-- A holder gives one back. -/
theorem shared_put (h : Holder) {c : C} (hmem : c ∈ o.held h) (hr : o'.world.ciphers = o.world.ciphers.dec c)
    (hheld : o'.held h = (o.held h).erase c) (hother : ∀ h', h' ≠ h → o'.held h' = o.held h') :
    regStep (.crypto .cipher) ciphers o.shared (h, .put c) = some o'.shared := by
  rw [shared_eq_set h hother, hr, hheld]
  exact if_pos ⟨rfl, hmem⟩

omit [DecidableEq W] [DecidableEq C] in
/-- Nobody takes or gives back any. -/
theorem shared_congr (hr : o'.world.ciphers = o.world.ciphers) (hheld : ∀ h, o'.held h = o.held h) :
    o'.shared = o.shared := by
  simp only [shared, hr, hheld]

end Owners

omit [DecidableEq W] [DecidableEq C] in
/-- What every writer of version 1 is like: it has no cipher, and its `free` does nothing to
the registries. -/
def Bare (writer : CfeFilewriter H W C) : Prop := writer.cipher = none ∧ ∀ s, SameRegistries s (writer.free s)

variable {types ciphers}

omit [DecidableEq W] in
/-- A cipher that is looked up is referenced. -/
theorem cfeCipherRef_some {name : CString} {r r' : Registry C} {c : C}
    (h : cfeCipherRef ciphers name r = (some c, r')) : findAlg (cipherClass ciphers) r name = some c ∧ r' = r.inc c := by
  unfold cfeCipherRef at h
  split at h
  · next type hfind =>
    obtain ⟨hc, rfl⟩ := Prod.mk.inj h
    obtain rfl := Option.some.inj hc
    exact ⟨hfind, rfl⟩
  · cases h

variable (types) in
/-- A call of `cfe_filewriter_create` chooses the type of version 1. -/
def ChoosesV1 (o : Owners H W C) (a : OwnerCall (W := W) (C := C)) : Prop :=
  ∀ env version cipher blocksize, a = .create env version cipher blocksize →
    ∀ w alloc, formatLookup (fun t => (types t).version) version o.world.writers = some w →
      (types w).alloc = some alloc → alloc = filewriterV1

/-- **A call does to the registry of ciphers what one step of a thread does, or nothing.** -/
theorem ownStep_simulates {o o' : Owners H W C} {a : OwnerCall (W := W) (C := C)} (hv1 : ChoosesV1 types o a)
    (hbare : ∀ writer ∈ o.writers, Bare writer) (h : ownStep types ciphers o a = some o') :
    o'.shared = o.shared ∨ ∃ i b, regStep (.crypto .cipher) ciphers o.shared (i, b) = some o'.shared ∧
      ∀ c, b = .unregister c → a = .unregisterCipher c := by
  cases a with
  | registerCipher c =>
    obtain rfl := Option.some.inj h
    refine .inr ⟨.callers, .register c, rfl, ?_⟩
    intro d hd
    cases hd
  | unregisterCipher c =>
    obtain rfl := Option.some.inj h
    refine .inr ⟨.callers, .unregister c, rfl, ?_⟩
    intro d hd
    cases hd
    rfl
  | registerWriter w =>
    obtain rfl := Option.some.inj h
    exact .inl rfl
  | unregisterWriter w =>
    obtain rfl := Option.some.inj h
    exact .inl rfl
  | allocCtx name ok =>
    simp only [ownStep] at h
    split at h
    · obtain rfl := Option.some.inj h
      exact .inl rfl
    · next c r href =>
      obtain ⟨hfind, rfl⟩ := cfeCipherRef_some href
      split at h
      · obtain rfl := Option.some.inj h
        refine .inr ⟨.contexts, .ref name, Owners.shared_ref .contexts hfind rfl rfl ?_, fun d hd => by cases hd⟩
        exact Owners.held_of_ne (absurd rfl) (fun _ => rfl) fun _ => rfl
      · -- the reference is given back
        obtain rfl := Option.some.inj h
        exact .inl (Owners.shared_congr (Registry.dec_inc _ _) fun _ => rfl)
  | destroyCtx c =>
    simp only [ownStep, Option.ite_none_right_eq_some, Option.some.injEq] at h
    obtain ⟨hmem, rfl⟩ := h
    refine .inr ⟨.contexts, .put c, Owners.shared_put .contexts hmem rfl rfl ?_, fun d hd => by cases hd⟩
    exact Owners.held_of_ne (absurd rfl) (fun _ => rfl) fun _ => rfl
  | ref name =>
    simp only [ownStep] at h
    split at h
    · obtain rfl := Option.some.inj h
      exact .inl rfl
    · next c r href =>
      obtain ⟨hfind, rfl⟩ := cfeCipherRef_some href
      obtain rfl := Option.some.inj h
      refine .inr ⟨.callers, .ref name, Owners.shared_ref .callers hfind rfl rfl ?_, fun d hd => by cases hd⟩
      exact Owners.held_of_ne (fun _ => rfl) (absurd rfl) fun _ => rfl
  | put c =>
    simp only [ownStep, Option.ite_none_right_eq_some, Option.some.injEq] at h
    obtain ⟨hmem, rfl⟩ := h
    refine .inr ⟨.callers, .put c, Owners.shared_put .callers hmem rfl rfl ?_, fun d hd => by cases hd⟩
    exact Owners.held_of_ne (fun _ => rfl) (absurd rfl) fun _ => rfl
  | create env version cipher blocksize =>
    simp only [ownStep] at h
    split at h
    · cases h
    · next s hcreate =>
      obtain rfl := Option.some.inj h
      obtain ⟨⟨-, -, hc⟩, -⟩ := cfeFilewriterCreate_none hcreate
      exact .inl (Owners.shared_congr hc fun h => by cases h <;> rfl)
    · next writer s hcreate =>
      -- the reference is handed over
      obtain rfl := Option.some.inj h
      obtain ⟨-, name, c, -, -, rfl, hfind, -, -, hc⟩ := cfeFilewriterCreate_made (hv1 _ _ _ _ rfl) hcreate
      have hnamed : namedCipher ciphers (some name) o.world = some c := hfind
      refine .inr ⟨.writers, .ref name, Owners.shared_ref .writers hfind hc ?_ ?_, fun d hd => by cases hd⟩
      · simp only [Owners.held, hnamed, Option.toList_some, List.singleton_append]
      · exact Owners.held_of_ne (fun _ => rfl) (fun _ => rfl) (absurd rfl)
  | free i =>
    simp only [ownStep, Option.map_eq_some_iff] at h
    obtain ⟨writer, hi, rfl⟩ := h
    obtain ⟨-, -, hc⟩ := (hbare writer (List.mem_of_getElem? hi)).2 o.world
    exact .inl (Owners.shared_congr hc fun h => by cases h <;> rfl)

/-- A call that leaves a writer that was not there is a `create`. -/
theorem ownStep_writers {o o' : Owners H W C} {a : OwnerCall (W := W) (C := C)}
    (h : ownStep types ciphers o a = some o') :
    (o'.made = o.made ∧ ∀ writer ∈ o'.writers, writer ∈ o.writers) ∨
      ∃ env version cipher blocksize writer s, a = .create env version cipher blocksize ∧
        cfeFilewriterCreate types ciphers env version cipher blocksize o.world = some (some writer, s) ∧
        o'.writers = writer :: o.writers := by
  have hsame : ∀ {o'' : Owners H W C}, some o'' = some o' → o''.made = o.made → o''.writers = o.writers →
      o'.made = o.made ∧ ∀ writer ∈ o'.writers, writer ∈ o.writers := by
    intro o'' heq hmade hwriters
    obtain rfl := Option.some.inj heq
    exact ⟨hmade, fun writer hmem => hwriters ▸ hmem⟩
  cases a with
  | registerCipher c => exact .inl (hsame h rfl rfl)
  | unregisterCipher c => exact .inl (hsame h rfl rfl)
  | registerWriter w => exact .inl (hsame h rfl rfl)
  | unregisterWriter w => exact .inl (hsame h rfl rfl)
  | allocCtx name ok =>
    simp only [ownStep] at h
    split at h
    · exact .inl (hsame h rfl rfl)
    · split at h
      · exact .inl (hsame h rfl rfl)
      · exact .inl (hsame h rfl rfl)
  | destroyCtx c =>
    simp only [ownStep, Option.ite_none_right_eq_some] at h
    exact .inl (hsame h.2 rfl rfl)
  | ref name =>
    simp only [ownStep] at h
    split at h
    · exact .inl (hsame h rfl rfl)
    · exact .inl (hsame h rfl rfl)
  | put c =>
    simp only [ownStep, Option.ite_none_right_eq_some] at h
    exact .inl (hsame h.2 rfl rfl)
  | create env version cipher blocksize =>
    simp only [ownStep] at h
    split at h
    · cases h
    · exact .inl (hsame h rfl rfl)
    · next writer s hcreate =>
      obtain rfl := Option.some.inj h
      exact .inr ⟨env, version, cipher, blocksize, writer, s, rfl, hcreate, rfl⟩
  | free i =>
    simp only [ownStep, Option.map_eq_some_iff] at h
    obtain ⟨_, _, rfl⟩ := h
    exact .inl ⟨rfl, fun writer hmem => List.mem_of_mem_eraseIdx hmem⟩

/-! ### Runs -/

variable (types ciphers)

/-- The calls, from empty registries on. -/
def ownSystem (s : World H W C) : System (Owners H W C) (OwnerCall (W := W) (C := C)) where
  init := ⟨{ s with writers := .empty, ciphers := .empty }, [], [], [], []⟩
  step := ownStep types ciphers

/-- The calls looked at. A writer is of version 1. `unregister` of a cipher is not called at
a positive multiple of `2 ^ 32` references, and there are fewer than `2 ^ 63 - 1` of them, so
that counters count. -/
structure OwnerStep (o : Owners H W C) (a : OwnerCall (W := W) (C := C)) (o' : Owners H W C) : Prop where
  v1 : ChoosesV1 types o a
  unmistaken : ∀ c, a = .unregisterCipher c → o.owned c = 0 ∨ ¬2 ^ 32 ∣ o.owned c
  few : ∀ c, o'.owned c < 2 ^ 63 - 1

/-- A call that makes no writer: there is no type, no cipher or no block. -/
def MakesNone (o : Owners H W C) (a : OwnerCall (W := W) (C := C)) : Prop :=
  ∀ env version cipher blocksize, a = .create env version cipher blocksize →
    formatLookup (fun t => (types t).version) version o.world.writers = none ∨
      namedCipher ciphers cipher o.world = none ∨ ∃ e, env.writerBlock = .error e

/-- What holds after every call: the registry of ciphers is one that threads can reach, and
no writer has a cipher. -/
structure OwnInv (o : Owners H W C) : Prop where
  reachable : (regSystem Holder (.crypto .cipher) ciphers).Reachable BusyStep o.shared
  bare : ∀ writer ∈ o.writers, Bare writer

variable {types ciphers}

/-- The invariant, kept by one call. -/
theorem OwnInv.step {o o' : Owners H W C} {a : OwnerCall (W := W) (C := C)} (hinv : OwnInv ciphers o)
    (h : ownStep types ciphers o a = some o') (hstep : OwnerStep types o a o') : OwnInv ciphers o' := by
  constructor
  · rcases ownStep_simulates hstep.v1 hinv.bare h with hsame | ⟨i, b, hreg, hun⟩
    · rw [hsame]
      exact hinv.reachable
    · apply hinv.reachable.runs (.step .refl hreg ?_)
      constructor
      · cases b with
        | unregister c =>
          refine .inr ?_
          rw [Owners.shared_outstanding]
          exact hstep.unmistaken c (hun c rfl)
        | _ => trivial
      · intro c
        rw [Owners.shared_outstanding]
        exact hstep.few c
  · intro writer hmem
    rcases ownStep_writers h with ⟨-, hold⟩ | ⟨env, version, cipher, blocksize, new, s, ha, hcreate, hwriters⟩
    · exact hinv.bare writer (hold writer hmem)
    · rw [hwriters] at hmem
      rcases List.mem_cons.mp hmem with rfl | hold
      · obtain ⟨_, _, _, _, -, -, -, -, rfl, -⟩ := cfeFilewriterCreate_made (hstep.v1 _ _ _ _ ha) hcreate
        exact ⟨rfl, fun s => ⟨rfl, rfl, rfl⟩⟩
      · exact hinv.bare writer hold

theorem OwnInv.of_reachable {s : World H W C} {o : Owners H W C}
    (h : (ownSystem types ciphers s).Reachable (OwnerStep types) o) : OwnInv ciphers o := by
  apply h.invariant
  · constructor
    · have hinit : (ownSystem types ciphers s).init.shared = (regSystem Holder (.crypto .cipher) ciphers).init := by
        simp only [Owners.shared, ownSystem, regSystem, Shared.mk.injEq, true_and]
        funext h
        cases h <;> rfl
      rw [hinit]
      exact ⟨[], .refl⟩
    · intro writer hmem
      cases hmem
  · exact fun o a o' hinv hst hstep => hinv.step hst hstep

/-- A run in which no call makes a writer leaves none recorded. -/
theorem made_eq_nil {s : World H W C} {o : Owners H W C}
    (h : (ownSystem types ciphers s).Reachable (fun o a o' => OwnerStep types o a o' ∧ MakesNone types ciphers o a) o) :
    o.made = [] := by
  apply h.invariant
  · rfl
  · rintro o a o' hnil hst ⟨hstep, hnone⟩
    rcases ownStep_writers hst with ⟨hmade, -⟩ | ⟨env, version, cipher, blocksize, writer, s, ha, hcreate, -⟩
    · rw [hmade, hnil]
    · exfalso
      obtain ⟨type, name, c, block, htype, hname, hfind, hblock, -⟩ :=
        cfeFilewriterCreate_made (hstep.v1 _ _ _ _ ha) hcreate
      rcases hnone _ _ _ _ ha with hno | hno | ⟨e, he⟩
      · rw [htype] at hno
        cases hno
      · rw [hname] at hno
        exact Option.some_ne_none c (hfind.symm.trans hno)
      · rw [hblock] at he
        cases he

/-- The counter of a cipher counts the live writers by their field `cipher`, next to the
reference of the registry, the contexts and the references taken directly. -/
def CountsWriters (o : Owners H W C) (c : C) : Prop :=
  (o.world.ciphers.refcnt c).val =
    1 + o.contexts.count c + o.refs.count c + o.writers.countP fun writer => writer.cipher = some c

omit [DecidableEq W] in
/-- It does just when no writer was made with the cipher. -/
theorem OwnInv.countsWriters_iff {o : Owners H W C} (hinv : OwnInv ciphers o) {c : C} (hc : c ∈ o.world.ciphers.list) :
    CountsWriters o c ↔ c ∉ o.made := by
  have hcount := (counterInv_of_reachable hinv.reachable).listed c hc
  rw [Owners.shared_outstanding] at hcount
  have hzero : o.writers.countP (fun writer => writer.cipher = some c) = 0 := by
    rw [List.countP_eq_zero]
    intro writer hmem
    rw [(hinv.bare writer hmem).1]
    simp
  have hval : (o.world.ciphers.refcnt c).val = 1 + o.owned c := hcount
  rw [CountsWriters, hzero, hval, Owners.owned, ← List.count_eq_zero]
  omega

/-- **What a writer is made with.** A call that chooses the type of version 1 and finds the
cipher gives a writer with the block size, the cipher and the type that were asked for only
when it gives none, for want of a block. In every state that calls lead to, the counter of a
registered cipher counts the live writers with that cipher just when no writer was made with
it; so in every run none of whose calls makes a writer, it does so in every state. -/
theorem writer_carries (types : W → CfeFilewriterType (FilewriterAlloc H W C)) (ciphers : C → CfeCipherType F) :
    (∀ (s : World H W C) (env : Env) (version : BitVec 32) (name : CString) (blocksize : BitVec 32) (type : W) (c : C),
      (types type).alloc = some filewriterV1 →
      formatLookup (fun t => (types t).version) version s.writers = some type →
      findAlg (cipherClass ciphers) s.ciphers name = some c →
      ((∀ writer s', cfeFilewriterCreate types ciphers env version (some name) blocksize s = some (some writer, s') →
        CarriesRequest writer type c blocksize) ↔ ∃ e, env.writerBlock = .error e)) ∧
    (∀ (s : World H W C) (o : Owners H W C), (ownSystem types ciphers s).Reachable (OwnerStep types) o →
      ∀ c ∈ o.world.ciphers.list, (CountsWriters o c ↔ c ∉ o.made)) ∧
    ∀ (s : World H W C) (o : Owners H W C),
      (ownSystem types ciphers s).Reachable (fun o a o' => OwnerStep types o a o' ∧ MakesNone types ciphers o a) o →
      ∀ c ∈ o.world.ciphers.list, CountsWriters o c := by
  refine ⟨?_, ?_, ?_⟩
  · intro s env version name blocksize type c halloc htype hfind
    exact carries_iff halloc htype hfind
  · intro s o h c hc
    exact (OwnInv.of_reachable h).countsWriters_iff hc
  · intro s o h c hc
    obtain ⟨as, has⟩ := h
    have hinv := OwnInv.of_reachable ⟨as, has.mono fun _ _ _ hstep => hstep.1⟩
    rw [hinv.countsWriters_iff hc, made_eq_nil ⟨as, has⟩]
    exact List.not_mem_nil

/-! ### The types of the test -/

/-- Version 1 and the cipher are registered, and there is a context. -/
def testCalls : List (OwnerCall (W := Unit) (C := Unit)) :=
  [.registerWriter (), .registerCipher (), .allocCtx aesCbc256Name true]

/-- What these calls lead to. -/
def testOwners : Owners Unit Unit Unit :=
  { world := { checkCreateWorld with ciphers := ⟨[()], none, fun _ => ⟨2⟩⟩ }
    contexts := [()], refs := [], writers := [], made := [] }

theorem testOwners_reachable : (ownSystem checkCreateTypes.writer checkCreateTypes.cipher checkCreateWorld).Reachable
    (fun o a o' => OwnerStep checkCreateTypes.writer o a o' ∧
      MakesNone checkCreateTypes.writer checkCreateTypes.cipher o a) testOwners := by
  have hstep : ∀ {o o' : Owners Unit Unit Unit} {a : OwnerCall (W := Unit) (C := Unit)}, a ∈ testCalls →
      (∀ c, o'.owned c < 2 ^ 63 - 1) → OwnerStep checkCreateTypes.writer o a o' ∧
        MakesNone checkCreateTypes.writer checkCreateTypes.cipher o a := by
    intro o o' a ha hfew
    have hcreate : ∀ env version cipher blocksize, a ≠ .create env version cipher blocksize := by
      rintro env version cipher blocksize rfl
      simp [testCalls] at ha
    have hun : ∀ c, a ≠ .unregisterCipher c := by
      rintro c rfl
      simp [testCalls] at ha
    exact ⟨⟨fun _ _ _ _ h => absurd h (hcreate _ _ _ _), fun c h => absurd h (hun c), hfew⟩,
      fun _ _ _ _ h => absurd h (hcreate _ _ _ _)⟩
  refine ⟨testCalls, .step (u := testOwners) (.step (.step .refl rfl (hstep ?_ ?_)) rfl (hstep ?_ ?_)) rfl (hstep ?_ ?_)⟩
  · exact List.mem_cons_self
  · decide
  · exact List.mem_cons_of_mem _ List.mem_cons_self
  · decide
  · exact List.mem_cons_of_mem _ (List.mem_cons_of_mem _ List.mem_cons_self)
  · decide

/-- Without a block there is no writer, and after the three calls the counter of the cipher
is right. -/
theorem writer_carries_test :
    (∀ writer s', cfeFilewriterCreate checkCreateTypes.writer checkCreateTypes.cipher
        { checkCreateEnv with writerBlock := .error ⟨ENOMEM, by decide⟩ } (-1) (some aesCbc256Name) 512 checkCreateWorld =
          some (some writer, s') → CarriesRequest writer () () 512) ∧
      (CountsWriters testOwners () ↔ () ∉ testOwners.made) ∧ CountsWriters testOwners () := by
  obtain ⟨hcarries, hcounts, hnone⟩ :=
    writer_carries (H := Unit) checkCreateTypes.writer checkCreateTypes.cipher
  have hreach : (ownSystem checkCreateTypes.writer checkCreateTypes.cipher checkCreateWorld).Reachable
      (OwnerStep checkCreateTypes.writer) testOwners := by
    obtain ⟨as, has⟩ := testOwners_reachable
    exact ⟨as, has.mono fun _ _ _ h => h.1⟩
  exact ⟨(hcarries checkCreateWorld _ _ _ _ () () rfl rfl rfl).mpr ⟨_, rfl⟩,
    hcounts checkCreateWorld testOwners hreach () List.mem_cons_self,
    hnone checkCreateWorld testOwners testOwners_reachable () List.mem_cons_self⟩

/-- With one, the writer has block size 0 and no cipher, and the counter counts a reference
that no writer has. -/
theorem writer_not_carried :
    (∃ writer s', cfeFilewriterCreate checkCreateTypes.writer checkCreateTypes.cipher checkCreateEnv (-1)
        (some aesCbc256Name) 512 checkCreateWorld = some (some writer, s') ∧
      writer.blocksize = 0 ∧ writer.cipher = none ∧ ¬CarriesRequest writer () () 512) ∧
    ∃ o, (ownSystem checkCreateTypes.writer checkCreateTypes.cipher checkCreateWorld).Reachable
        (OwnerStep checkCreateTypes.writer) o ∧
      o.contexts = [()] ∧ o.refs = [] ∧ o.writers.map (·.cipher) = [none] ∧
      (o.world.ciphers.refcnt ()).val = 3 ∧ ¬CountsWriters o () := by
  constructor
  · refine ⟨_, _, rfl, rfl, rfl, ?_⟩
    intro h
    exact absurd h.blocksize (by decide)
  · obtain ⟨as, has⟩ := testOwners_reachable
    have hrun := has.mono fun _ _ _ h => h.1
    refine ⟨_, ⟨_, .step (a := .create checkCreateEnv (-1) (some aesCbc256Name) 512) hrun rfl ⟨?_, ?_, ?_⟩⟩, rfl, rfl, rfl,
      rfl, ?_⟩
    · intro _ _ _ _ _ w alloc _ halloc
      exact (Option.some.inj halloc).symm
    · intro c hc
      cases hc
    · decide
    · show ¬(3 : ℕ) = 1 + 1 + 0 + 0
      omega

end LibCfe
