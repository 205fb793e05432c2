import LibCfe.Fs.World

/-!
# File writers

`cfe_filewriter_create` of `src/fs/filewriter.c`, and `src/fs/filewriter-v1.c`, the
one type there is in the library. As with headers, `FilewriterAlloc` states what
the `alloc` of a type is relied on for, and `filewriterV1` has these properties. What
the `free` of a writer does is apart from that, since nothing in the library calls it.
-/

namespace LibCfe

open World

variable {H W C F : Type}

/-- A file writer as the `alloc` of its type makes it. -/
structure NewFilewriter (H W C : Type) where
  /-- `blocksize`. -/
  blocksize : BitVec 32
  /-- `key`. -/
  key : Option Addr
  /-- `keysize`. -/
  keysize : BitVec 64
  /-- `cipher`. -/
  cipher : Option C
  /-- `ops->free` of this writer. -/
  free : World H W C → World H W C

/-- `struct cfe_filewriter`. -/
structure CfeFilewriter (H W C : Type) extends NewFilewriter H W C where
  /-- `type`. -/
  type : W

/-- What an `alloc` of a file writer type does. -/
structure FilewriterAlloc (H W C : Type) where
  /-- The function: cipher type and block size to a writer or `NULL`. -/
  alloc : Env → C → BitVec 32 → World H W C → Option (NewFilewriter H W C) × World H W C
  same : ∀ env cipher blocksize s, SameRegistries s (alloc env cipher blocksize s).2
  /-- A failure leaves nothing behind. -/
  failed : ∀ env cipher blocksize s, (alloc env cipher blocksize s).1 = none →
    (alloc env cipher blocksize s).2.live = s.live
  /-- A success gives back nothing that is held already. -/
  taken : ∀ env cipher blocksize s writer, (alloc env cipher blocksize s).1 = some writer →
    ∃ held : Multiset Resource, (alloc env cipher blocksize s).2.live = held + s.live

/-- `P` is true of each writer made and what it took. -/
def FilewriterAlloc.Makes (alloc : FilewriterAlloc H W C) (P : NewFilewriter H W C → Multiset Resource → Prop) : Prop :=
  ∀ env cipher blocksize s writer, (alloc.alloc env cipher blocksize s).1 = some writer →
    ∃ held : Multiset Resource, (alloc.alloc env cipher blocksize s).2.live = held + s.live ∧ P writer held

/-- The writer's `free` gives back so much, and leaves the registries alone. -/
def NewFilewriter.Frees (writer : NewFilewriter H W C) (held : Multiset Resource) : Prop :=
  ∀ (s : World H W C) (rest : Multiset Resource), s.live = held + rest →
    (writer.free s).live = rest ∧ SameRegistries s (writer.free s)

theorem FilewriterAlloc.makes_true (alloc : FilewriterAlloc H W C) : alloc.Makes fun _ _ => True := by
  intro env cipher blocksize s writer h
  obtain ⟨held, hlive⟩ := alloc.taken env cipher blocksize s writer h
  exact ⟨held, hlive, trivial⟩

/-! ### filewriter.c -/

/-- `CFE_FILEWRITER_VERSION_DEFAULT`. -/
def CFE_FILEWRITER_VERSION_DEFAULT : BitVec 32 := -1

/-- `cfe_cipher_ref` of a pointer that may be `NULL`. Looking for `NULL` calls `strcmp`
with it, unless there is no cipher at all. -/
def cfeCipherRefPtr [DecidableEq C] (f : C → CfeCipherType F) (algname : Option CString) (s : Registry C) :
    Option (Option C × Registry C) :=
  match algname with
  | some algname => some (cfeCipherRef f algname s)
  | none => if s.list.isEmpty then some (none, s) else none

/-- `cfe_filewriter_create`. It has no result when it calls `strcmp` with `NULL`, or
through a `NULL` `alloc`. -/
def cfeFilewriterCreate [DecidableEq W] [DecidableEq C] (types : W → CfeFilewriterType (FilewriterAlloc H W C))
    (ciphers : C → CfeCipherType F) (env : Env) (version : BitVec 32) (cipher : Option CString)
    (blocksize : BitVec 32) (s : World H W C) : Option (Option (CfeFilewriter H W C) × World H W C) :=
  match formatLookup (fun t => (types t).version) version s.writers with
  | none => some (none, s.setErrno ENOSYS)
  | some type =>
    let s := { s with writers := s.writers.inc type }
    match cfeCipherRefPtr ciphers cipher s.ciphers with
    | none => none
    | some (none, _) => some (none, { s with writers := s.writers.dec type })
    | some (some ctype, ciphers) =>
      let s := { s with ciphers }
      match (types type).alloc with
      | none => none
      | some alloc =>
        match alloc.alloc env ctype blocksize s with
        | (none, s) =>
          let s := { s with writers := s.writers.dec type }
          some (none, { s with ciphers := cfeCipherPut (some ctype) s.ciphers })
        | (some writer, s) => some (some { writer with type }, s)

/-! ### filewriter-v1.c -/

/-- `struct cfe_filewriter_v1`, and the block it is in. -/
structure CfeFilewriterV1 (C : Type) where
  /-- The block. -/
  block : Addr
  /-- `base.blocksize`. -/
  blocksize : BitVec 32 := 0
  /-- `base.key`. -/
  key : Option Addr := none
  /-- `base.keysize`. -/
  keysize : BitVec 64 := 0
  /-- `base.cipher`. -/
  cipher : Option C := none

/-- `cfe_filewriter_v1_destroy`. -/
def cfeFilewriterV1Destroy (writer : CfeFilewriterV1 C) (s : World H W C) : World H W C :=
  let s := s.emit (.rwlockDestroy writer.block)
  match writer.key with
  | some key => free key s
  | none => s

/-- `cfe_filewriter_v1_free`, also `cfe_filewriter_free`. -/
def cfeFilewriterV1Free (writer : CfeFilewriterV1 C) (s : World H W C) : World H W C :=
  free writer.block (cfeFilewriterV1Destroy writer s)

/-- `cfe_filewriter_v1_init`. -/
def cfeFilewriterV1Init (writer : CfeFilewriterV1 C) (s : World H W C) : ℤ × World H W C :=
  (0, s.emit (.rwlockInit writer.block))

/-- `cfe_filewriter_v1_new`. -/
def cfeFilewriterV1New (env : Env) (s : World H W C) : Option (CfeFilewriterV1 C) × World H W C :=
  match calloc env.writerBlock s with
  | (none, s) => (none, s)
  | (some block, s) =>
    let writer : CfeFilewriterV1 C := { block }
    let (ret, s) := cfeFilewriterV1Init writer s
    if ret ≠ 0 then (none, cfeFilewriterV1Free writer s)
    else (some writer, s)

/-- `cfe_filewriter_v1_alloc`. It does nothing with its arguments. -/
def cfeFilewriterV1Alloc (env : Env) (_ : C) (_ : BitVec 32) (s : World H W C) :
    Option (CfeFilewriterV1 C) × World H W C :=
  match cfeFilewriterV1New env s with
  | (none, s) => (none, s)
  | (some writer, s) => (some writer, s)

/-- `&writer->base`. -/
def CfeFilewriterV1.base (writer : CfeFilewriterV1 C) : NewFilewriter H W C where
  blocksize := writer.blocksize
  key := writer.key
  keysize := writer.keysize
  cipher := writer.cipher
  free := cfeFilewriterV1Free writer

/-! ### What version 1 does -/

/-- It fails when there is no block, and otherwise makes an empty writer. -/
theorem cfeFilewriterV1Alloc_eq (env : Env) (cipher : C) (blocksize : BitVec 32) (s : World H W C) :
    cfeFilewriterV1Alloc env cipher blocksize s = match env.writerBlock with
      | .error e => (none, s.setErrno e)
      | .ok block => (some { block }, (s.emit (.calloc block)).emit (.rwlockInit block)) := by
  unfold cfeFilewriterV1Alloc cfeFilewriterV1New calloc
  cases env.writerBlock with
  | error e => rfl
  | ok block => rfl

/-- What version 1 takes for a writer. -/
def CfeFilewriterV1.held (writer : CfeFilewriterV1 C) : Multiset Resource := .lock writer.block ::ₘ {.block writer.block}

/-- A writer that was made has no key, and holds its block and the lock in it. -/
theorem cfeFilewriterV1Alloc_some {env : Env} (cipher : C) (blocksize : BitVec 32) {s : World H W C}
    {writer : CfeFilewriterV1 C} (h : (cfeFilewriterV1Alloc env cipher blocksize s).1 = some writer) :
    writer.key = none ∧ (cfeFilewriterV1Alloc env cipher blocksize s).2.live = writer.held + s.live := by
  rw [cfeFilewriterV1Alloc_eq] at h ⊢
  cases hblock : env.writerBlock with
  | error e =>
    rw [hblock] at h
    cases h
  | ok block =>
    rw [hblock] at h
    obtain rfl := Option.some.inj h
    refine ⟨rfl, ?_⟩
    simp only [live_emit, SysCall.effect, CfeFilewriterV1.held, Multiset.cons_add, Multiset.singleton_add]

/-- The file writer type of version 1 is what a file writer type has to be. -/
def filewriterV1 : FilewriterAlloc H W C where
  alloc env cipher blocksize s :=
    let (writer, s) := cfeFilewriterV1Alloc env cipher blocksize s
    (writer.map CfeFilewriterV1.base, s)
  same env cipher blocksize s := by
    rw [cfeFilewriterV1Alloc_eq]
    cases env.writerBlock with
    | error e => exact ⟨rfl, rfl, rfl⟩
    | ok block => exact ⟨rfl, rfl, rfl⟩
  failed env cipher blocksize s h := by
    rw [cfeFilewriterV1Alloc_eq] at h ⊢
    cases hblock : env.writerBlock with
    | error e => rfl
    | ok block =>
      rw [hblock] at h
      cases h
  taken env cipher blocksize s writer h := by
    obtain ⟨v1, hv1, rfl⟩ := Option.map_eq_some_iff.mp h
    exact ⟨v1.held, (cfeFilewriterV1Alloc_some cipher blocksize hv1).2⟩

/-- Freeing a writer of version 1 gives back all that it took. -/
theorem filewriterV1_frees : (filewriterV1 : FilewriterAlloc H W C).Makes NewFilewriter.Frees := by
  intro env cipher blocksize s writer h
  obtain ⟨v1, hv1, rfl⟩ := Option.map_eq_some_iff.mp h
  obtain ⟨hkey, hlive⟩ := cfeFilewriterV1Alloc_some cipher blocksize hv1
  refine ⟨v1.held, hlive, fun s' rest hrest => ?_⟩
  simp only [CfeFilewriterV1.base, cfeFilewriterV1Free, cfeFilewriterV1Destroy, hkey]
  refine ⟨?_, rfl, rfl, rfl⟩
  simp only [free, live_emit, hrest, SysCall.effect, CfeFilewriterV1.held, Multiset.cons_add, Multiset.singleton_add,
    Multiset.erase_cons_head]

theorem filewriterV1_alloc (env : Env) (cipher : C) (blocksize : BitVec 32) (s : World H W C) :
    filewriterV1.alloc env cipher blocksize s = match env.writerBlock with
      | .error e => (none, s.setErrno e)
      | .ok block => (some (CfeFilewriterV1.base { block }), (s.emit (.calloc block)).emit (.rwlockInit block)) := by
  show ((cfeFilewriterV1Alloc env cipher blocksize s).1.map CfeFilewriterV1.base,
    (cfeFilewriterV1Alloc env cipher blocksize s).2) = _
  rw [cfeFilewriterV1Alloc_eq]
  cases env.writerBlock with
  | error e => rfl
  | ok block => rfl

end LibCfe
