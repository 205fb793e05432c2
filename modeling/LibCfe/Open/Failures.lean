import LibCfe.Open.References

/-!
# How a file is not created

With the types of the library itself, built with `posix_fallocate`, each call of
`cfe_create` can be followed to its end. `course` looks only at what the call is
given and meets, and says which of its steps is the first to fail, if one does, or
that the program follows a `NULL` pointer. `cfe_create_course` says what the call
leaves for each: what it returns, what is in `errno` and how long the file is.

Two things go wrong on the way out. `cfe_header_v1_alloc` unmaps `MAP_FAILED` when
`mmap` has failed, so that `errno` holds the error of `munmap`; and
`cfe_filewriter_create` does not set `errno` when there is no such cipher.
-/

namespace LibCfe

open World

variable {H W C F : Type}

/-! ### Steps that fail -/

/-- A step of `cfe_create` that fails. -/
inductive Failure where
  /-- The arguments are rejected. -/
  | args
  /-- `fstat` fails. -/
  | fstat (e : ErrorCode)
  /-- The file is not a regular one, or not empty. -/
  | notEmpty
  /-- The file is not allocated. -/
  | fileBlock (e : ErrorCode)
  /-- No header type is registered. -/
  | noHeaderType
  /-- The header is not allocated. -/
  | headerBlock (e : ErrorCode)
  /-- There is no space for the header. -/
  | space (e : Errno)
  /-- The header is not mapped. -/
  | mapping (e : ErrorCode)
  /-- No file writer type is registered. -/
  | noWriterType
  /-- No cipher of that name is registered. -/
  | noCipher
  /-- The file writer is not allocated. -/
  | writerBlock (e : ErrorCode)
  deriving DecidableEq

/-- The code of the step. -/
def Failure.code : Failure → Errno
  | args => EINVAL
  | fstat e => e
  | notEmpty => EINVAL
  | fileBlock e => e
  | noHeaderType => ENOSYS
  | headerBlock e => e
  | space e => e
  | mapping e => e
  | noWriterType => ENOSYS
  | noCipher => ENOSYS
  | writerBlock e => e

/-- What the code leaves in `errno`, which held `old`. -/
def Failure.reported (old : Option Errno) : Failure → Option Errno
  | mapping _ => some EINVAL
  | noCipher => old
  | f => some f.code

/-- The step comes after the file was made longer. -/
def Failure.afterGrowth : Failure → Bool
  | mapping _ => true
  | noWriterType => true
  | noCipher => true
  | writerBlock _ => true
  | _ => false

/-- How a call goes. -/
inductive Course where
  /-- No step fails. -/
  | works
  /-- This step is the first to fail. -/
  | fails (f : Failure)
  /-- A `NULL` pointer is followed first. -/
  | crashes
  deriving DecidableEq

/-! ### The course of a call -/

/-- What `posix_fallocate` returns, asked for `size` bytes from the start. -/
def spaceError (env : Env) (size : BitVec 64) : Option Errno :=
  if size = 0 then some EINVAL else env.fallocate.map Subtype.val

/-- `cfe_header_v1_alloc`. -/
def headerV1Course (env : Env) (size : BitVec 64) : Course :=
  match env.headerBlock with
  | .error e => .fails (.headerBlock e)
  | .ok _ =>
    match spaceError env size with
    | some e => .fails (.space e)
    | none =>
      match env.mmap with
      | .error e => .fails (.mapping e)
      | .ok _ => .works

/-- `cfe_header_create` of the default version. -/
def headerCourse (types : H → CfeHeaderType (HeaderAlloc H W C)) (env : Env) (size : BitVec 64)
    (s : World H W C) : Course :=
  match s.headers.dflt with
  | none => .fails .noHeaderType
  | some type => if (types type).alloc.isNone then .crashes else headerV1Course env size

/-- `cfe_filewriter_create` of the default version. -/
def writerCourse [DecidableEq C] (types : W → CfeFilewriterType (FilewriterAlloc H W C))
    (ciphers : C → CfeCipherType F) (env : Env) (cipher : Option CString) (s : World H W C) : Course :=
  match s.writers.dflt with
  | none => .fails .noWriterType
  | some type =>
    match cipher.map (findAlg (cipherClass ciphers) s.ciphers) with
    | none => if s.ciphers.list.isEmpty then .fails .noCipher else .crashes
    | some none => .fails .noCipher
    | some (some _) =>
      if (types type).alloc.isNone then .crashes
      else match env.writerBlock with
        | .error e => .fails (.writerBlock e)
        | .ok _ => .works

/-- The size of the header asked for. -/
def CfeOpenParams.size (env : Env) (p : CfeOpenParams) : BitVec 64 :=
  (normalizeHeadersize env.pagesize p.headerSize).setWidth 64

/-- The arguments are accepted, and these are the parameters. -/
def acceptedArgs (fd : ℤ) (params : Option CfeOpenParams) : Option CfeOpenParams :=
  params.filter fun p => decide (0 ≤ fd) && p.keyIdent.any fun id => strncmp id cfePrefix 4 == 0

instance (st : FileStat) : Decidable (EmptyRegular st) :=
  inferInstanceAs (Decidable (sIsreg st.mode = true ∧ st.size = 0))

/-- `do_create`. -/
def doCreateCourse [DecidableEq C] (types : Types H W C F) (env : Env) (p : CfeOpenParams) (s : World H W C) :
    Course :=
  match env.fileBlock with
  | .error e => .fails (.fileBlock e)
  | .ok _ =>
    match headerCourse types.header env (p.size env) s with
    | .works => writerCourse types.writer types.cipher env p.cipher s
    | c => c

/-- `cfe_create`. -/
def course [DecidableEq C] (types : Types H W C F) (env : Env) (fd : ℤ) (params : Option CfeOpenParams)
    (s : World H W C) : Course :=
  match acceptedArgs fd params with
  | none => .fails .args
  | some p =>
    match env.fstat with
    | some e => .fails (.fstat e)
    | none =>
      if ¬ EmptyRegular (s.files fd) then .fails .notEmpty
      else doCreateCourse types env p s

/-- The types call the functions of the library, where they have any. -/
structure Types.V1 (types : Types H W C F) : Prop where
  header : ∀ t alloc, (types.header t).alloc = some alloc → alloc = headerV1
  writer : ∀ t alloc, (types.writer t).alloc = some alloc → alloc = filewriterV1

/-! ### Headers -/

/-- What is left of the file and of `errno` when a step fails. -/
structure Left (f : Failure) (fd : ℤ) (size : BitVec 64) (s s' : World H W C) : Prop where
  errno : s'.errno = f.reported s.errno
  files : s'.files = if f.afterGrowth then (s.grow fd size.toInt).files else s.files
  positive : f.afterGrowth = true → 0 < size.toInt

section

variable {env : Env} {fd : ℤ} {size : BitVec 64} {s : World H W C}

/-- The size of a header is not negative as an `off_t`. -/
theorem size_toInt_pos (x : BitVec 32) (h : x.setWidth 64 ≠ 0) : 0 < (x.setWidth 64).toInt := by
  have hlt := x.isLt
  have hval : (x.setWidth 64).toNat = x.toNat := by
    rw [BitVec.toNat_setWidth]
    exact Nat.mod_eq_of_lt (by omega)
  have hne : (x.setWidth 64).toNat ≠ 0 := fun h0 => h (BitVec.eq_of_toNat_eq h0)
  rw [BitVec.toInt_eq_toNat_cond]
  split_ifs <;> omega

/-- With `posix_fallocate`, this is what asking for the space of a header comes to. -/
theorem spaceErrno_header (hb : env.build = .posixFallocate) (hsize : size ≠ 0 → 0 < size.toInt) :
    env.spaceErrno 0 size.toInt = spaceError env size := by
  simp only [Env.spaceErrno, hb, spaceError]
  by_cases h0 : size = 0
  · subst h0
    rfl
  · have hpos := hsize h0
    rw [if_neg (by omega), if_neg h0]

theorem size_ne_zero (h : spaceError env size = none) : size ≠ 0 := by
  intro h0
  rw [spaceError, if_pos h0] at h
  cases h

/-- What `cfe_header_v1_alloc` does on each course. -/
theorem headerV1_course (hb : env.build = .posixFallocate) (hsize : size ≠ 0 → 0 < size.toInt)
    {r : Option CfeHeaderV1 × World H W C} (h : HeaderV1Result env fd size s r) :
    match headerV1Course env size with
    | .fails f => r.1 = none ∧ Left f fd size s r.2
    | .works => (∃ v1, r.1 = some v1 ∧ env.mmap = .ok v1.mapping ∧ v1.msize ≠ 0) ∧ 0 < size.toInt ∧
        r.2.errno = s.errno ∧ r.2.files = (s.grow fd size.toInt).files
    | .crashes => False := by
  unfold headerV1Course
  have herror := spaceErrno_header hb hsize
  cases h with
  | noBlock e hblock =>
    rw [hblock]
    exact ⟨rfl, rfl, rfl, fun h => by cases h⟩
  | noSpace block ret s' hblock hspace hret =>
    obtain ⟨e, he⟩ := Option.ne_none_iff_exists'.mp ((log_of_fallocate hspace).2.2.not.mp hret)
    rw [cfeFallocate_posix hb, he] at hspace
    obtain ⟨rfl, rfl⟩ := Prod.mk.inj hspace
    rw [hblock, ← herror, he]
    exact ⟨rfl, rfl, rfl, fun h => by cases h⟩
  | noMapping block e s' hblock hspace hmap =>
    have hnone := (log_of_fallocate hspace).2.2.mp rfl
    rw [cfeFallocate_posix hb, hnone, Int.zero_add] at hspace
    obtain ⟨-, rfl⟩ := Prod.mk.inj hspace
    rw [hblock, ← herror, hnone]
    rcases hmap with ⟨h0, -⟩ | ⟨h0, c, hmap, rfl⟩
    · exact absurd h0 (size_ne_zero (herror ▸ hnone))
    · rw [hmap]
      exact ⟨rfl, rfl, rfl, fun _ => hsize h0⟩
  | made block addr s' hblock hspace h0 hmap =>
    have hnone := (log_of_fallocate hspace).2.2.mp rfl
    rw [cfeFallocate_posix hb, hnone, Int.zero_add] at hspace
    obtain ⟨-, rfl⟩ := Prod.mk.inj hspace
    rw [hblock, ← herror, hnone, hmap]
    exact ⟨⟨_, rfl, rfl, h0⟩, hsize h0, rfl, rfl⟩

variable [DecidableEq H] {types : H → CfeHeaderType (HeaderAlloc H W C)}

/-- What `cfe_header_create` does on each course. -/
theorem cfeHeaderCreate_course (hb : env.build = .posixFallocate)
    (hv1 : ∀ t alloc, (types t).alloc = some alloc → alloc = headerV1) (fd : ℤ) (x : BitVec 32)
    (s : World H W C) :
    match headerCourse types env ((normalizeHeadersize env.pagesize x).setWidth 64) s with
    | .fails f => ∃ s', cfeHeaderCreate types env CFE_HEADER_VERSION_DEFAULT fd (x.setWidth 64) s = some (none, s') ∧
        Left f fd ((normalizeHeadersize env.pagesize x).setWidth 64) s s'
    | .works => ∃ header s', cfeHeaderCreate types env CFE_HEADER_VERSION_DEFAULT fd (x.setWidth 64) s =
          some (some header, s') ∧
        0 < ((normalizeHeadersize env.pagesize x).setWidth 64).toInt ∧ s'.errno = s.errno ∧
        s'.files = (s.grow fd ((normalizeHeadersize env.pagesize x).setWidth 64).toInt).files ∧
        ∀ t : World H W C, (cfeHeaderClose env header t).errno = t.errno ∧
          (cfeHeaderClose env header t).files = t.files
    | .crashes => cfeHeaderCreate types env CFE_HEADER_VERSION_DEFAULT fd (x.setWidth 64) s = none := by
  have hx : (x.setWidth 64).setWidth 32 = x := by simp
  unfold headerCourse cfeHeaderCreate
  rw [CFE_HEADER_VERSION_DEFAULT, formatLookup_default, hx]
  cases hd : s.headers.dflt with
  | none => exact ⟨_, rfl, rfl, rfl, fun h => by cases h⟩
  | some type =>
    simp only
    cases halloc : (types type).alloc with
    | none => rfl
    | some alloc =>
      obtain rfl := hv1 type alloc halloc
      simp only [Option.isNone_some, Bool.false_eq_true, if_false]
      have hcourse := headerV1_course hb (size_toInt_pos _) (cfeHeaderV1Alloc_result env fd
        ((normalizeHeadersize env.pagesize x).setWidth 64) { s with headers := s.headers.inc type })
      rw [headerV1_alloc]
      generalize cfeHeaderV1Alloc env fd ((normalizeHeadersize env.pagesize x).setWidth 64)
          { s with headers := s.headers.inc type } = r at hcourse ⊢
      obtain ⟨v1, s₁⟩ := r
      cases hc : headerV1Course env ((normalizeHeadersize env.pagesize x).setWidth 64) with
      | crashes =>
        rw [hc] at hcourse
        exact hcourse.elim
      | fails f =>
        rw [hc] at hcourse
        obtain ⟨hnone, hleft⟩ := hcourse
        obtain rfl : v1 = none := hnone
        exact ⟨_, rfl, hleft.errno, hleft.files, hleft.positive⟩
      | works =>
        rw [hc] at hcourse
        obtain ⟨⟨v1, hsome, hmap, h0⟩, hpos, herrno, hfiles⟩ := hcourse
        obtain rfl : _ = some v1 := hsome
        refine ⟨_, _, rfl, hpos, herrno, hfiles, ?_⟩
        intro t
        have hfree : cfeHeaderV1Free env v1 t = ((t.emit (.munmap v1.mapping v1.msize true)).emit
            (.rwlockDestroy v1.block)).emit (.free v1.block) := cfeHeaderV1Free_made hmap h0 v1.block t
        simp only [cfeHeaderClose, CfeHeaderV1.base, hfree, errno_emit, files_emit, and_self]

end

/-! ### File writers -/

section

variable [DecidableEq W] [DecidableEq C] {types : W → CfeFilewriterType (FilewriterAlloc H W C)}


/-- What `cfe_filewriter_create` does on each course. -/
theorem cfeFilewriterCreate_course (hv1 : ∀ t alloc, (types t).alloc = some alloc → alloc = filewriterV1)
    (ciphers : C → CfeCipherType F) (env : Env) (cipher : Option CString) (blocksize : BitVec 32) (s : World H W C) :
    match writerCourse types ciphers env cipher s with
    | .fails f => ∃ s', cfeFilewriterCreate types ciphers env CFE_FILEWRITER_VERSION_DEFAULT cipher blocksize s =
        some (none, s') ∧ s'.errno = f.reported s.errno ∧ s'.files = s.files ∧ f.afterGrowth = true
    | .works => ∃ writer s', cfeFilewriterCreate types ciphers env CFE_FILEWRITER_VERSION_DEFAULT cipher blocksize s =
        some (some writer, s')
    | .crashes => cfeFilewriterCreate types ciphers env CFE_FILEWRITER_VERSION_DEFAULT cipher blocksize s = none := by
  unfold writerCourse cfeFilewriterCreate
  rw [CFE_FILEWRITER_VERSION_DEFAULT, formatLookup_default]
  cases hd : s.writers.dflt with
  | none => exact ⟨_, rfl, rfl, rfl, rfl⟩
  | some type =>
    simp only
    cases cipher with
    | none =>
      simp only [Option.map_none, cfeCipherRefPtr]
      cases s.ciphers.list.isEmpty with
      | true => exact ⟨_, rfl, rfl, rfl, rfl⟩
      | false => rfl
    | some name =>
      simp only [Option.map_some, cfeCipherRefPtr, cfeCipherRef]
      cases hfind : findAlg (cipherClass ciphers) s.ciphers name with
      | none => exact ⟨_, rfl, rfl, rfl, rfl⟩
      | some c =>
        simp only
        cases halloc : (types type).alloc with
        | none => rfl
        | some alloc =>
          obtain rfl := hv1 type alloc halloc
          simp only [filewriterV1_alloc, Option.isNone_some, Bool.false_eq_true, if_false]
          cases env.writerBlock with
          | error e => exact ⟨_, rfl, rfl, rfl, rfl⟩
          | ok block => exact ⟨_, _, rfl⟩

end

/-! ### The whole call -/

section

variable [DecidableEq H] [DecidableEq W] [DecidableEq C] {types : Types H W C F} {env : Env} {fd : ℤ}
  {flags mode : BitVec 32} {params : Option CfeOpenParams} {s : World H W C}

theorem acceptedArgs_some {p : CfeOpenParams} {id : CString} (h : ValidArgs fd params p id) :
    acceptedArgs fd params = some p := by
  rw [acceptedArgs, h.params_eq]
  simp [h.fd_nonneg, h.keyIdent_eq, h.prefixed]

theorem acceptedArgs_none (h : ∀ p id, ¬ ValidArgs fd params p id) : acceptedArgs fd params = none := by
  rw [acceptedArgs, Option.filter_eq_none_iff]
  intro p hp hok
  rw [Bool.and_eq_true, decide_eq_true_iff, Option.any_eq_true] at hok
  obtain ⟨hfd, id, hid, hstart⟩ := hok
  exact h p id ⟨hfd, hp, hid, by simpa using hstart⟩

omit [DecidableEq H] [DecidableEq W] in
/-- The course of the file writer only depends on the registries it looks at. -/
theorem writerCourse_congr {s₁ : World H W C} (hw : s₁.writers = s.writers) (hc : s₁.ciphers = s.ciphers)
    (cipher : Option CString) :
    writerCourse types.writer types.cipher env cipher s₁ = writerCourse types.writer types.cipher env cipher s := by
  unfold writerCourse
  rw [hw, hc]

/-- What `do_create` leaves on each course. -/
theorem doCreate_course (hv1 : types.V1) (hb : env.build = .posixFallocate) (fd : ℤ)
    (flags mode : BitVec 32) (p : CfeOpenParams) (s : World H W C) :
    match doCreateCourse types env p s with
    | .fails f => ∃ s', doCreate types env fd flags mode p s = some (none, s') ∧ Left f fd (p.size env) s s'
    | .works => ∃ file s', doCreate types env fd flags mode p s = some (some file, s')
    | .crashes => doCreate types env fd flags mode p s = none := by
  unfold doCreateCourse doCreate
  rw [cfeFileNew_eq]
  cases hblock : env.fileBlock with
  | error e => exact ⟨_, rfl, rfl, rfl, fun h => by cases h⟩
  | ok block =>
    simp only
    have hcourse := cfeHeaderCreate_course hb hv1.header fd p.headerSize (s.emit (.calloc block))
    have hsame : headerCourse types.header env ((normalizeHeadersize env.pagesize p.headerSize).setWidth 64)
        (s.emit (.calloc block)) = headerCourse types.header env (p.size env) s := rfl
    rw [hsame] at hcourse
    cases hc : headerCourse types.header env (p.size env) s with
    | crashes =>
      rw [hc] at hcourse
      rw [hcourse]
    | fails f =>
      rw [hc] at hcourse
      obtain ⟨s₁, hs₁, hleft⟩ := hcourse
      rw [hs₁]
      exact ⟨_, rfl, hleft.errno, hleft.files, hleft.positive⟩
    | works =>
      rw [hc] at hcourse
      obtain ⟨header, s₁, hs₁, hpos, herrno, hfiles, hclose⟩ := hcourse
      obtain ⟨-, -, hw, hciphers, -⟩ := cfeHeaderCreate_some hs₁
      simp only [hs₁]
      have hcourse := cfeFilewriterCreate_course hv1.writer types.cipher env p.cipher p.blocksize s₁
      rw [writerCourse_congr (s := s) hw hciphers] at hcourse
      cases hc : writerCourse types.writer types.cipher env p.cipher s with
      | crashes =>
        rw [hc] at hcourse
        rw [hcourse]
      | works =>
        rw [hc] at hcourse
        obtain ⟨writer, s₂, hs₂⟩ := hcourse
        exact ⟨_, s₂, by rw [hs₂]⟩
      | fails f =>
        rw [hc] at hcourse
        obtain ⟨s₂, hs₂, herrno₂, hfiles₂, hgrown⟩ := hcourse
        obtain ⟨hcerrno, hcfiles⟩ := hclose s₂
        refine ⟨_, by rw [hs₂], ?_, ?_, fun _ => hpos⟩
        · show (cfeHeaderClose env header s₂).errno = f.reported s.errno
          rw [hcerrno, herrno₂, herrno]
          rfl
        · show (cfeHeaderClose env header s₂).files = _
          rw [hcfiles, hfiles₂, hfiles, if_pos hgrown]
          rfl

/-- **What `cfe_create` leaves on each course.** -/
theorem cfeCreate_course (hv1 : types.V1) (hb : env.build = .posixFallocate) (fd : ℤ) (flags mode : BitVec 32)
    (params : Option CfeOpenParams) :
    match course types env fd params s with
    | .fails f => ∃ params' s', cfeCreate types env fd flags mode params s = some (none, params', s') ∧
        s'.errno = f.reported s.errno ∧
        (f.afterGrowth = true → 0 < (s'.files fd).size) ∧ (f.afterGrowth = false → s'.files = s.files)
    | .works => ∃ file params' s', cfeCreate types env fd flags mode params s = some (some file, params', s')
    | .crashes => cfeCreate types env fd flags mode params s = none := by
  have hres := cfeCreate_result types env fd flags mode params s
  generalize cfeCreate types env fd flags mode params s = r at hres ⊢
  unfold course
  cases hres with
  | rejected hargs =>
    rw [acceptedArgs_none hargs]
    exact ⟨_, _, rfl, rfl, fun h => absurd h (by decide), fun _ => rfl⟩
  | noStat p id hargs e hstat =>
    rw [acceptedArgs_some hargs, hstat]
    exact ⟨_, _, rfl, rfl, fun h => Bool.noConfusion h, fun _ => rfl⟩
  | notEmpty p id hargs hstat hfile =>
    rw [acceptedArgs_some hargs, hstat]
    simp only [hfile, not_false_eq_true, if_true]
    exact ⟨_, _, rfl, rfl, fun h => absurd h (by decide), fun _ => rfl⟩
  | created p id hargs hstat hfile =>
    rw [acceptedArgs_some hargs, hstat]
    simp only [hfile, not_true_eq_false, if_false]
    -- the prefix of the identifier does not matter to `do_create`
    have hdo : doCreateCourse types env p s = doCreateCourse types env (p.strip id) s := rfl
    rw [hdo]
    have hcourse := doCreate_course hv1 hb fd flags mode (p.strip id) s
    cases hc : doCreateCourse types env (p.strip id) s with
    | works =>
      rw [hc] at hcourse
      obtain ⟨file, s', hs'⟩ := hcourse
      exact ⟨file, _, s', by rw [hs']; rfl⟩
    | crashes =>
      rw [hc] at hcourse
      rw [hcourse]
      rfl
    | fails f =>
      rw [hc] at hcourse
      obtain ⟨s', hs', hleft⟩ := hcourse
      refine ⟨_, s', by rw [hs']; rfl, hleft.errno, ?_, ?_⟩
      · intro hf
        have hpos : 0 < (p.size env).toInt := hleft.positive hf
        have hsize : (s'.files fd).size = max (s.files fd).size (p.size env).toInt := by
          rw [hleft.files, if_pos hf]
          simp [World.grow]
          rfl
        rw [hsize]
        omega
      · intro hf
        rw [hleft.files, hf]
        rfl

/-! ### What is reported, and what stays behind -/

/-- Two failures are not reported as what they are. -/
theorem Failure.reported_iff (f : Failure) :
    f.reported none = some f.code ↔ f ≠ .noCipher ∧ ∀ e : ErrorCode, f = .mapping e → e.val = EINVAL := by
  cases f with
  | mapping e => simp [Failure.reported, Failure.code, eq_comm]
  | noCipher => simp [Failure.reported]
  | _ => simp [Failure.reported]

/-- **When a failure is reported through `errno`.** A call that starts with `errno` not set
returns, and if it returns `NULL` has set `errno` to the code of the step that failed,
exactly when it is not one of these: a cipher is looked for that is not registered,
which leaves `errno` alone; a `NULL` pointer is followed, which may be that of the
cipher's name; or `mmap` fails with another error than `EINVAL`, which is then
overwritten. -/
theorem cfeCreate_errno (hv1 : types.V1) (hb : env.build = .posixFallocate) (hs : s.errno = none) :
    (∃ file params' s', cfeCreate types env fd flags mode params s = some (file, params', s') ∧
      (file = none → ∃ f, course types env fd params s = .fails f ∧ s'.errno = some f.code)) ↔
    course types env fd params s ≠ .crashes ∧ course types env fd params s ≠ .fails .noCipher ∧
      ∀ e : ErrorCode, course types env fd params s = .fails (.mapping e) → e.val = EINVAL := by
  have hcourse := cfeCreate_course (s := s) hv1 hb fd flags mode params
  cases hc : course types env fd params s with
  | works =>
    rw [hc] at hcourse
    obtain ⟨file, params', s', hcreate⟩ := hcourse
    exact iff_of_true ⟨some file, params', s', hcreate, fun h => by cases h⟩ (by simp)
  | crashes =>
    rw [hc] at hcourse
    refine iff_of_false ?_ fun h => h.1 rfl
    rintro ⟨file, params', s', hcreate, -⟩
    rw [hcourse] at hcreate
    cases hcreate
  | fails f =>
    rw [hc] at hcourse
    obtain ⟨params', s', hcreate, herrno, -⟩ := hcourse
    rw [hs] at herrno
    -- what is left is whether the code in `errno` is that of the step
    have hreported : (∃ file params' s', cfeCreate types env fd flags mode params s = some (file, params', s') ∧
        (file = none → ∃ g, Course.fails f = .fails g ∧ s'.errno = some g.code)) ↔
        f.reported none = some f.code := by
      constructor
      · rintro ⟨file, params'', s'', hcreate', hnone⟩
        rw [hcreate] at hcreate'
        cases hcreate'
        obtain ⟨g, hg, hcode⟩ := hnone rfl
        cases hg
        rw [← herrno, hcode]
      · exact fun h => ⟨none, params', s', hcreate, fun _ => ⟨f, rfl, by rw [herrno, h]⟩⟩
    rw [hreported, Failure.reported_iff]
    simp only [ne_eq, reduceCtorEq, not_false_eq_true, Course.fails.injEq, true_and]

end

/-- The types of the test are those of the library. -/
theorem checkCreateTypes_v1 : checkCreateTypes.V1 :=
  ⟨fun _ _ h => (Option.some.inj h).symm, fun _ _ h => (Option.some.inj h).symm⟩

/-- There is no space left for the header of the test. -/
def noSpaceEnv : Env := { checkCreateEnv with fallocate := some ⟨28, by decide⟩ }

/-- That is reported. -/
theorem cfeCreate_errno_no_space :
    ∃ file params' s', cfeCreate checkCreateTypes noSpaceEnv 3 0 0 (some checkCreateParams) checkCreateWorld =
      some (file, params', s') ∧ (file = none →
        ∃ f, course checkCreateTypes noSpaceEnv 3 (some checkCreateParams) checkCreateWorld = .fails f ∧
          s'.errno = some f.code) := by
  apply (cfeCreate_errno checkCreateTypes_v1 rfl rfl).mpr
  have hcourse : course checkCreateTypes noSpaceEnv 3 (some checkCreateParams) checkCreateWorld =
      .fails (.space 28) := by decide
  rw [hcourse]
  simp

/-- What the test passes, but for a cipher that is not registered. -/
def unknownCipherParams : CfeOpenParams := { checkCreateParams with cipher := some nonexisting }

/-- The header of the test may not be mapped. -/
def noAccessEnv : Env :=
  { checkCreateEnv with
    mmap := .error ⟨13, by decide⟩
    mmap_page := fun _ h => by cases h }

/-- What the test passes, but for no cipher at all. -/
def nullCipherParams : CfeOpenParams := { checkCreateParams with cipher := none }

/-- An unknown cipher leaves `errno` alone, the error of `mmap` is lost, and no cipher at
all is a `NULL` for `strcmp`. -/
theorem cfeCreate_errno_lost :
    (∃ params' s', cfeCreate checkCreateTypes checkCreateEnv 3 0 0 (some unknownCipherParams) checkCreateWorld =
      some (none, params', s') ∧ s'.errno = none) ∧
    (∃ params' s', cfeCreate checkCreateTypes noAccessEnv 3 0 0 (some checkCreateParams) checkCreateWorld =
      some (none, params', s') ∧ s'.errno = some EINVAL) ∧
    (cfeCreate checkCreateTypes checkCreateEnv 3 0 0 (some nullCipherParams) checkCreateWorld).isNone = true :=
  ⟨⟨_, _, rfl, by decide⟩, ⟨_, _, rfl, by decide⟩, by decide⟩

section

variable [DecidableEq H] [DecidableEq W] [DecidableEq C] {types : Types H W C F} {env : Env} {fd : ℤ}
  {flags mode : BitVec 32} {params : Option CfeOpenParams} {s : World H W C}

/-- **When a failed call leaves the file empty**: exactly when no step fails after
`posix_fallocate` has made the file longer. -/
theorem cfeCreate_leaves_empty (hv1 : types.V1) (hb : env.build = .posixFallocate)
    (hfile : EmptyRegular (s.files fd)) :
    (∀ params' s', cfeCreate types env fd flags mode params s = some (none, params', s') →
      EmptyRegular (s'.files fd)) ↔
    ∀ f, course types env fd params s = .fails f → f.afterGrowth = false := by
  have hcourse := cfeCreate_course (s := s) hv1 hb fd flags mode params
  cases hc : course types env fd params s with
  | works =>
    rw [hc] at hcourse
    obtain ⟨file, params', s', hcreate⟩ := hcourse
    refine iff_of_true ?_ fun f h => by cases h
    intro params'' s'' hcreate'
    rw [hcreate] at hcreate'
    cases hcreate'
  | crashes =>
    rw [hc] at hcourse
    refine iff_of_true ?_ fun f h => by cases h
    intro params'' s'' hcreate'
    rw [hcourse] at hcreate'
    cases hcreate'
  | fails f =>
    rw [hc] at hcourse
    obtain ⟨params', s', hcreate, -, hgrown, hsame⟩ := hcourse
    constructor
    · intro h g hg
      cases hg
      have hempty := (h params' s' hcreate).2
      cases hf : f.afterGrowth with
      | false => rfl
      | true =>
        have := hgrown hf
        omega
    · intro h params'' s'' hcreate'
      rw [hcreate] at hcreate'
      cases hcreate'
      rw [hsame (h f rfl)]
      exact hfile

end

/-- Without space for the header the file stays as it was. -/
theorem cfeCreate_leaves_empty_no_space :
    ∃ params' s', cfeCreate checkCreateTypes noSpaceEnv 3 0 0 (some checkCreateParams) checkCreateWorld =
      some (none, params', s') ∧ EmptyRegular (s'.files 3) := by
  have hempty : EmptyRegular (checkCreateWorld.files 3) := by decide
  have hcourse : course checkCreateTypes noSpaceEnv 3 (some checkCreateParams) checkCreateWorld =
      .fails (.space 28) := by decide
  have hnull : ∃ params' s', cfeCreate checkCreateTypes noSpaceEnv 3 0 0 (some checkCreateParams) checkCreateWorld =
      some (none, params', s') := ⟨_, _, rfl⟩
  obtain ⟨params', s', h⟩ := hnull
  refine ⟨params', s', h, (cfeCreate_leaves_empty checkCreateTypes_v1 rfl hempty).mpr ?_ params' s' h⟩
  intro f hf
  rw [hcourse] at hf
  cases hf
  rfl

/-- After asking for an unknown cipher the file is a page long. -/
theorem cfeCreate_leaves_page :
    ∃ params' s', cfeCreate checkCreateTypes checkCreateEnv 3 0 0 (some unknownCipherParams) checkCreateWorld =
      some (none, params', s') ∧ (s'.files 3).size = 4096 ∧ ¬ EmptyRegular (s'.files 3) :=
  ⟨_, _, rfl, by decide, by decide⟩

end LibCfe
