import LibCfe.Fs.World

/-!
# File headers

`src/fs/header.c`, which makes and closes headers through the functions of their
type, and `src/fs/header-v1.c`, the one type there is in the library.

A header type may come from elsewhere. What its `alloc` is relied on for is stated
in `HeaderAlloc`: it leaves the registries alone, it leaves nothing behind when it
fails, and the header's `free` gives back what `alloc` took. `headerV1` is version
1, which has these properties.
-/

namespace LibCfe

open World

variable {H W C : Type}

/-- A header as the `alloc` of its type makes it. -/
structure NewHeader (H W C : Type) where
  /-- `ops->free` of this header. -/
  free : Env → World H W C → World H W C

/-- `struct cfe_header`. -/
structure CfeHeader (H W C : Type) extends NewHeader H W C where
  /-- `type`. -/
  type : H

/-- What an `alloc` of a header type does. -/
structure HeaderAlloc (H W C : Type) where
  /-- The function: descriptor and size to a header or `NULL`. -/
  alloc : Env → ℤ → BitVec 64 → World H W C → Option (NewHeader H W C) × World H W C
  same : ∀ env fd size s, SameRegistries s (alloc env fd size s).2
  /-- A failure leaves nothing behind. -/
  failed : ∀ env fd size s, (alloc env fd size s).1 = none → (alloc env fd size s).2.live = s.live
  /-- What was taken is given back by `free`. -/
  made : ∀ env fd size s header, (alloc env fd size s).1 = some header → ∃ held : Multiset Resource,
    (alloc env fd size s).2.live = held + s.live ∧
    ∀ s' rest, s'.live = held + rest → (header.free env s').live = rest ∧ SameRegistries s' (header.free env s')

/-! ### header.c -/

/-- `normalize_headersize`, the page size being given. -/
def normalizeHeadersize (pagesize : BitVec 64) (size : BitVec 32) : BitVec 32 :=
  if size ≠ 0 then ((size.setWidth 64 + (pagesize - 1)) &&& ~~~(pagesize - 1)).setWidth 32
  else pagesize.setWidth 32

/-- `CFE_HEADER_VERSION_DEFAULT`. -/
def CFE_HEADER_VERSION_DEFAULT : BitVec 32 := -1

variable [DecidableEq H]

/-- `cfe_header_create`. It has no result when it calls through a `NULL` `alloc`. -/
def cfeHeaderCreate (types : H → CfeHeaderType (HeaderAlloc H W C)) (env : Env) (version : BitVec 32) (fd : ℤ)
    (size : BitVec 64) (s : World H W C) : Option (Option (CfeHeader H W C) × World H W C) :=
  match formatLookup (fun t => (types t).version) version s.headers with
  | none => some (none, s.setErrno ENOSYS)
  | some type =>
    let s := { s with headers := s.headers.inc type }
    let size := (normalizeHeadersize env.pagesize (size.setWidth 32)).setWidth 64
    match (types type).alloc with
    | none => none
    | some alloc =>
      match alloc.alloc env fd size s with
      | (none, s) => some (none, { s with headers := s.headers.dec type })
      | (some header, s) => some (some { header with type }, s)

/-- `cfe_header_close`. -/
def cfeHeaderClose (env : Env) (header : CfeHeader H W C) (s : World H W C) : World H W C :=
  let s := header.free env s
  { s with headers := s.headers.dec header.type }

/-! ### header-v1.c -/

/-- `struct cfe_header_v1`, and the block it is in. -/
structure CfeHeaderV1 where
  /-- The block. -/
  block : Addr
  /-- `mapping`; `0` is `NULL`. -/
  mapping : Addr
  /-- `msize`. -/
  msize : BitVec 64

omit [DecidableEq H]

/-- `cfe_header_v1_destroy`. -/
def cfeHeaderV1Destroy (env : Env) (header : CfeHeaderV1) (s : World H W C) : World H W C :=
  let s := if header.mapping ≠ 0 then munmap env header.mapping header.msize s else s
  s.emit (.rwlockDestroy header.block)

/-- `cfe_header_v1_free`, also `cfe_header_free`. -/
def cfeHeaderV1Free (env : Env) (header : CfeHeaderV1) (s : World H W C) : World H W C :=
  free header.block (cfeHeaderV1Destroy env header s)

/-- `cfe_header_v1_init`. -/
def cfeHeaderV1Init (header : CfeHeaderV1) (s : World H W C) : ℤ × World H W C :=
  (0, s.emit (.rwlockInit header.block))

/-- `cfe_header_v1_new`. -/
def cfeHeaderV1New (env : Env) (s : World H W C) : Option CfeHeaderV1 × World H W C :=
  match calloc env.headerBlock s with
  | (none, s) => (none, s)
  | (some block, s) =>
    let header : CfeHeaderV1 := ⟨block, 0, 0⟩
    let (ret, s) := cfeHeaderV1Init header s
    if ret ≠ 0 then (none, cfeHeaderV1Free env header s)
    else (some header, s)

/-- `cfe_header_v1_alloc`. -/
def cfeHeaderV1Alloc (env : Env) (fd : ℤ) (size : BitVec 64) (s : World H W C) :
    Option CfeHeaderV1 × World H W C :=
  match cfeHeaderV1New env s with
  | (none, s) => (none, s)
  | (some header, s) =>
    let (ret, s) := cfeFallocate env fd 0 size.toInt s
    if ret ≠ 0 then (none, cfeHeaderV1Free env header (s.setErrno ret))
    else
      let (mapping, s) := mmap env size s
      let header := { header with msize := size, mapping := mapping }
      if mapping = MAP_FAILED then (none, cfeHeaderV1Free env header s)
      else (some header, s)

/-- `&header->base`. -/
def CfeHeaderV1.base (header : CfeHeaderV1) : NewHeader H W C where
  free env := cfeHeaderV1Free env header

/-! ### What version 1 does -/

/-- How a call of `cfe_header_v1_alloc` ends. -/
inductive HeaderV1Result (env : Env) (fd : ℤ) (size : BitVec 64) (s : World H W C) :
    Option CfeHeaderV1 × World H W C → Prop where
  /-- There is no block. -/
  | noBlock (e : ErrorCode) (hblock : env.headerBlock = .error e) :
      HeaderV1Result env fd size s (none, s.setErrno e)
  /-- There is no space for it in the file. -/
  | noSpace (block : Addr) (ret : ℤ) (s' : World H W C) (hblock : env.headerBlock = .ok block)
      (hspace : cfeFallocate env fd 0 size.toInt ((s.emit (.calloc block)).emit (.rwlockInit block)) = (ret, s'))
      (hret : ret ≠ 0) :
      HeaderV1Result env fd size s
        (none, ((s'.setErrno ret).emit (.rwlockDestroy block)).emit (.free block))
  /-- It cannot be mapped. -/
  | noMapping (block : Addr) (e : Errno) (s' : World H W C) (hblock : env.headerBlock = .ok block)
      (hspace : cfeFallocate env fd 0 size.toInt ((s.emit (.calloc block)).emit (.rwlockInit block)) = (0, s'))
      (hmap : (size = 0 ∧ e = EINVAL) ∨ size ≠ 0 ∧ ∃ c : ErrorCode, env.mmap = .error c ∧ e = c) :
      HeaderV1Result env fd size s (none,
        (((((s'.setErrno e).emit (.munmap MAP_FAILED size false)).setErrno EINVAL).emit
          (.rwlockDestroy block)).emit (.free block)))
  /-- It is made. -/
  | made (block addr : Addr) (s' : World H W C) (hblock : env.headerBlock = .ok block)
      (hspace : cfeFallocate env fd 0 size.toInt ((s.emit (.calloc block)).emit (.rwlockInit block)) = (0, s'))
      (hsize : size ≠ 0) (hmap : env.mmap = .ok addr) :
      HeaderV1Result env fd size s (some ⟨block, addr, size⟩, s'.emit (.mmap addr size))

theorem cfeHeaderV1New_eq (env : Env) (s : World H W C) :
    cfeHeaderV1New env s = match env.headerBlock with
      | .error e => (none, s.setErrno e)
      | .ok block => (some ⟨block, 0, 0⟩, (s.emit (.calloc block)).emit (.rwlockInit block)) := by
  unfold cfeHeaderV1New calloc
  cases env.headerBlock with
  | error e => rfl
  | ok block => rfl

/-- Freeing a header that was not mapped. -/
theorem cfeHeaderV1Free_unmapped (env : Env) (block : Addr) (msize : BitVec 64) (s : World H W C) :
    cfeHeaderV1Free env ⟨block, 0, msize⟩ s = (s.emit (.rwlockDestroy block)).emit (.free block) := rfl

/-- Freeing a header whose mapping failed tries to unmap `MAP_FAILED`. -/
theorem cfeHeaderV1Free_failed (env : Env) (block : Addr) (msize : BitVec 64) (s : World H W C) :
    cfeHeaderV1Free env ⟨block, MAP_FAILED, msize⟩ s =
      ((((s.emit (.munmap MAP_FAILED msize false)).setErrno EINVAL).emit (.rwlockDestroy block)).emit
        (.free block)) := by
  have hne : MAP_FAILED ≠ 0 := by decide
  simp only [cfeHeaderV1Free, cfeHeaderV1Destroy, free, if_pos hne, munmap_map_failed]

/-- Freeing a header that was made. -/
theorem cfeHeaderV1Free_made {env : Env} {addr : Addr} (h : env.mmap = .ok addr) {msize : BitVec 64}
    (hsize : msize ≠ 0) (block : Addr) (s : World H W C) :
    cfeHeaderV1Free env ⟨block, addr, msize⟩ s =
      ((s.emit (.munmap addr msize true)).emit (.rwlockDestroy block)).emit (.free block) := by
  simp only [cfeHeaderV1Free, cfeHeaderV1Destroy, free, if_pos (env.mmap_page addr h).1, munmap_mapped h hsize]

/-- **A call of `cfe_header_v1_alloc` ends in one of these ways.** -/
theorem cfeHeaderV1Alloc_result (env : Env) (fd : ℤ) (size : BitVec 64) (s : World H W C) :
    HeaderV1Result env fd size s (cfeHeaderV1Alloc env fd size s) := by
  unfold cfeHeaderV1Alloc
  rw [cfeHeaderV1New_eq]
  cases hblock : env.headerBlock with
  | error e => exact .noBlock e hblock
  | ok block =>
    simp only
    cases hspace : cfeFallocate env fd 0 size.toInt ((s.emit (.calloc block)).emit (.rwlockInit block)) with
    | mk ret s' =>
      by_cases hret : ret = 0
      · subst hret
        simp only [ne_eq, not_true_eq_false, if_false, mmap]
        by_cases hsize : size = 0
        · simp only [hsize, if_true]
          rw [cfeHeaderV1Free_failed]
          rw [hsize] at hspace
          exact .noMapping block EINVAL s' hblock hspace (.inl ⟨rfl, rfl⟩)
        · simp only [hsize, if_false]
          cases hmap : env.mmap with
          | error e =>
            simp only [if_true]
            rw [cfeHeaderV1Free_failed]
            exact .noMapping block e s' hblock hspace (.inr ⟨hsize, e, hmap, rfl⟩)
          | ok addr =>
            simp only [(env.mmap_page addr hmap).2.1, if_false]
            exact .made block addr s' hblock hspace hsize hmap
      · simp only [ne_eq, hret, not_false_eq_true, if_true]
        rw [cfeHeaderV1Free_unmapped]
        exact .noSpace block ret s' hblock hspace hret

/-- What version 1 takes for a header. -/
def CfeHeaderV1.held (header : CfeHeaderV1) : Multiset Resource :=
  .mapping header.mapping header.msize ::ₘ .lock header.block ::ₘ {.block header.block}

/-- What was called before `mmap`, or before giving up for want of space. -/
theorem log_of_fallocate {env : Env} {fd ret : ℤ} {size : BitVec 64} {s s' : World H W C} {block : Addr}
    (h : cfeFallocate env fd 0 size.toInt ((s.emit (.calloc block)).emit (.rwlockInit block)) = (ret, s')) :
    SameRegistries s s' ∧ s'.log = s.log ++ [.calloc block, .rwlockInit block] ∧
      (ret = 0 ↔ env.spaceErrno 0 size.toInt = none) := by
  have hsame := cfeFallocate_same env fd 0 size.toInt ((s.emit (.calloc block)).emit (.rwlockInit block))
  have hret := cfeFallocate_eq_zero_iff env fd 0 size.toInt ((s.emit (.calloc block)).emit (.rwlockInit block))
  rw [h] at hsame hret
  exact ⟨hsame.1, by rw [hsame.2]; simp [emit], hret⟩

/-- After reserving space, successful or not, the block and its lock are held. -/
theorem live_of_fallocate {env : Env} {fd ret : ℤ} {size : BitVec 64} {s s' : World H W C} {block : Addr}
    (h : cfeFallocate env fd 0 size.toInt ((s.emit (.calloc block)).emit (.rwlockInit block)) = (ret, s')) :
    SameRegistries s s' ∧ s'.live = .lock block ::ₘ .block block ::ₘ s.live := by
  obtain ⟨hsame, hlog, -⟩ := log_of_fallocate h
  refine ⟨hsame, ?_⟩
  rw [live, hlog, List.foldl_append]
  rfl

section

variable {env : Env} {fd : ℤ} {size : BitVec 64} {s : World H W C} {r : Option CfeHeaderV1 × World H W C}

theorem HeaderV1Result.same (h : HeaderV1Result env fd size s r) : SameRegistries s r.2 := by
  cases h with
  | noBlock e => exact ⟨rfl, rfl, rfl⟩
  | noSpace block ret s' _ hspace => exact (live_of_fallocate hspace).1
  | noMapping block e s' _ hspace => exact (live_of_fallocate hspace).1
  | made block addr s' _ hspace => exact (live_of_fallocate hspace).1

theorem HeaderV1Result.live_of_none (h : HeaderV1Result env fd size s r) (hr : r.1 = none) : r.2.live = s.live := by
  cases h with
  | noBlock e => rfl
  | noSpace block ret s' _ hspace =>
    simp only [live_emit, live_setErrno, (live_of_fallocate hspace).2, SysCall.effect, Multiset.erase_cons_head]
  | noMapping block e s' _ hspace =>
    simp only [live_emit, live_setErrno, (live_of_fallocate hspace).2, SysCall.effect, Multiset.erase_cons_head]
  | made block addr s' => cases hr

/-- A header that was made is mapped, and freeing it gives back all that it took. -/
theorem HeaderV1Result.live_of_some (h : HeaderV1Result env fd size s r) {header : CfeHeaderV1}
    (hr : r.1 = some header) : r.2.live = header.held + s.live ∧
    ∀ (s' : World H W C) (rest : Multiset Resource), s'.live = header.held + rest →
      (cfeHeaderV1Free env header s').live = rest ∧ SameRegistries s' (cfeHeaderV1Free env header s') := by
  cases h with
  | noBlock e => cases hr
  | noSpace block ret s' => cases hr
  | noMapping block e s' => cases hr
  | made block addr s' _ hspace hsize hmap =>
    obtain rfl := Option.some.inj hr
    constructor
    · simp only [live_emit, (live_of_fallocate hspace).2, SysCall.effect, CfeHeaderV1.held, Multiset.cons_add,
        Multiset.singleton_add]
    · intro s'' rest hlive
      rw [cfeHeaderV1Free_made hmap hsize]
      refine ⟨?_, rfl, rfl, rfl⟩
      simp only [live_emit, hlive, SysCall.effect, CfeHeaderV1.held, Multiset.cons_add, Multiset.singleton_add,
        Multiset.erase_cons_head]

end

/-- The header type of version 1 is what a header type has to be. -/
def headerV1 : HeaderAlloc H W C where
  alloc env fd size s :=
    let (header, s) := cfeHeaderV1Alloc env fd size s
    (header.map CfeHeaderV1.base, s)
  same env fd size s := (cfeHeaderV1Alloc_result env fd size s).same
  failed env fd size s h := (cfeHeaderV1Alloc_result env fd size s).live_of_none (Option.map_eq_none_iff.mp h)
  made env fd size s header h := by
    obtain ⟨v1, hv1, rfl⟩ := Option.map_eq_some_iff.mp h
    exact ⟨v1.held, (cfeHeaderV1Alloc_result env fd size s).live_of_some hv1⟩

theorem headerV1_alloc (env : Env) (fd : ℤ) (size : BitVec 64) (s : World H W C) :
    headerV1.alloc env fd size s =
      ((cfeHeaderV1Alloc env fd size s).1.map CfeHeaderV1.base, (cfeHeaderV1Alloc env fd size s).2) := rfl

end LibCfe
