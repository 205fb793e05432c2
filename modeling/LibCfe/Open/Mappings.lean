import LibCfe.Open.Failures
import LibCfe.Fs.Size

/-!
# The mapping of a header

One routine, `cfe_header_v1_destroy`, is run when a header is closed and on the two
ways out of `cfe_header_v1_alloc` that leave a header behind. It unmaps unless
`mapping` is `NULL`, but when `mmap` has failed `mapping` is `MAP_FAILED`, and so
`munmap` is called with an address that was never mapped.

## What is proved

`cfeHeader_tidy` — making a header of version 1 and closing it unmaps just what was
mapped, destroys the lock once and frees the block once, exactly when `mmap` is not
reached or succeeds.
-/

namespace LibCfe

open World

variable {H W C : Type}

/-! ### What the calls take and give back -/

namespace SysCall

/-- The address and length of an `mmap` that succeeded. -/
def mapped : SysCall → Option (Addr × BitVec 64)
  | mmap addr len => some (addr, len)
  | _ => none

/-- The arguments of a `munmap`, successful or not. -/
def unmapped : SysCall → Option (Addr × BitVec 64)
  | munmap addr len _ => some (addr, len)
  | _ => none

/-- The block of a lock that was initialised. -/
def initialised : SysCall → Option Addr
  | rwlockInit addr => some addr
  | _ => none

/-- The block of a lock that was destroyed. -/
def destroyed : SysCall → Option Addr
  | rwlockDestroy addr => some addr
  | _ => none

/-- The block that `calloc` returned. -/
def allocated : SysCall → Option Addr
  | calloc addr => some addr
  | _ => none

/-- The block that was freed. -/
def freed : SysCall → Option Addr
  | free addr => some addr
  | _ => none

end SysCall

/-- Each mapping is unmapped once and nothing else is; each lock is destroyed once, and
each block freed once. -/
structure Tidy (calls : List SysCall) : Prop where
  mappings : calls.filterMap SysCall.unmapped = calls.filterMap SysCall.mapped
  locks : calls.filterMap SysCall.destroyed = calls.filterMap SysCall.initialised
  blocks : calls.filterMap SysCall.freed = calls.filterMap SysCall.allocated

/-! ### Whether `mmap` fails -/

/-- `cfe_header_v1_alloc` comes to its call of `mmap`. -/
def Env.ReachesMmap (env : Env) (size : BitVec 64) : Prop :=
  (∃ block, env.headerBlock = .ok block) ∧ env.fallocate = none ∧
    (env.build = .posixFallocate → 0 < size.toInt)

/-- The call fails. -/
def Env.MmapFails (env : Env) (size : BitVec 64) : Prop := size = 0 ∨ ∃ e, env.mmap = .error e

/-- When there is space. -/
theorem spaceErrno_eq_none_iff (env : Env) (size : BitVec 64) :
    env.spaceErrno 0 size.toInt = none ↔
      env.fallocate = none ∧ (env.build = .posixFallocate → 0 < size.toInt) := by
  cases hb : env.build with
  | posixFallocate =>
    simp only [Env.spaceErrno, hb]
    by_cases hlen : size.toInt ≤ 0
    · rw [if_pos (.inr hlen)]
      constructor
      · intro h
        cases h
      · intro h
        exact absurd (h.2 trivial) (by omega)
    · rw [if_neg (by omega), Option.map_eq_none_iff]
      exact ⟨fun h => ⟨h, fun _ => by omega⟩, fun h => h.1⟩
  | preallocate =>
    simp only [Env.spaceErrno, hb, Option.map_eq_none_iff]
    exact ⟨fun h => ⟨h, fun hb => by cases hb⟩, fun h => h.1⟩

/-! ### A header made and closed -/

variable [DecidableEq H]

/-- `cfe_header_create`, and `cfe_header_close` of the header it returned. -/
def createAndClose (types : H → CfeHeaderType (HeaderAlloc H W C)) (env : Env) (version : BitVec 32) (fd : ℤ)
    (size : BitVec 64) (s : World H W C) : Option (World H W C) :=
  match cfeHeaderCreate types env version fd size s with
  | none => none
  | some (none, s) => some s
  | some (some header, s) => some (cfeHeaderClose env header s)

theorem createAndClose_v1 {types : H → CfeHeaderType (HeaderAlloc H W C)} {env : Env} {version : BitVec 32}
    {s : World H W C} {type : H}
    (hlookup : formatLookup (fun t => (types t).version) version s.headers = some type)
    (hv1 : (types type).alloc = some headerV1) (fd : ℤ) (size : BitVec 64) :
    createAndClose types env version fd size s = some
      (match cfeHeaderV1Alloc env fd (headerSize env.pagesize size) { s with headers := s.headers.inc type } with
        | (none, s) => { s with headers := s.headers.dec type }
        | (some header, s) => cfeHeaderClose env { header.base with type } s) := by
  simp only [createAndClose, cfeHeaderCreate_eq hlookup hv1, headerV1_alloc]
  generalize cfeHeaderV1Alloc env fd (headerSize env.pagesize size) { s with headers := s.headers.inc type } = r
  obtain ⟨header, s'⟩ := r
  cases header with
  | none => rfl
  | some header => rfl

/-- **A mapping is unmapped once and nothing else is**, the lock is destroyed once and the
block freed once, when a header of version 1 is made and closed, exactly when `mmap`
is not reached or succeeds. -/
theorem cfeHeader_tidy {types : H → CfeHeaderType (HeaderAlloc H W C)} {env : Env} {version : BitVec 32}
    {s : World H W C} {type : H}
    (hlookup : formatLookup (fun t => (types t).version) version s.headers = some type)
    (hv1 : (types type).alloc = some headerV1) (fd : ℤ) (size : BitVec 64) :
    (∃ t calls, createAndClose types env version fd size s = some t ∧ t.log = s.log ++ calls ∧ Tidy calls) ↔
      ¬(env.ReachesMmap (headerSize env.pagesize size) ∧ env.MmapFails (headerSize env.pagesize size)) := by
  rw [createAndClose_v1 hlookup hv1]
  have hresult := cfeHeaderV1Alloc_result env fd (headerSize env.pagesize size)
    { s with headers := s.headers.inc type }
  generalize headerSize env.pagesize size = size at hresult ⊢
  generalize cfeHeaderV1Alloc env fd size { s with headers := s.headers.inc type } = r at hresult ⊢
  cases hresult with
  | noBlock e hblock =>
    apply iff_of_true
    · exact ⟨_, [], rfl, (List.append_nil _).symm, rfl, rfl, rfl⟩
    · rintro ⟨⟨⟨block, hok⟩, -⟩, -⟩
      rw [hblock] at hok
      cases hok
  | noSpace block ret s' hblock hspace hret =>
    obtain ⟨-, hlog, hzero⟩ := log_of_fallocate hspace
    rw [spaceErrno_eq_none_iff] at hzero
    apply iff_of_true
    · refine ⟨_, [.calloc block, .rwlockInit block, .rwlockDestroy block, .free block], rfl, ?_, rfl, rfl, rfl⟩
      simp [emit, setErrno, hlog]
    · rintro ⟨⟨-, hreach⟩, -⟩
      exact hret (hzero.mpr hreach)
  | noMapping block e s' hblock hspace hmap =>
    obtain ⟨-, hlog, hzero⟩ := log_of_fallocate hspace
    rw [spaceErrno_eq_none_iff] at hzero
    apply iff_of_false
    · rintro ⟨t, calls, ht, hcalls, htidy⟩
      obtain rfl := Option.some.inj ht
      have heq : calls = [.calloc block, .rwlockInit block, .munmap MAP_FAILED size false, .rwlockDestroy block,
          .free block] := by
        have hsame : s.log ++ calls = s.log ++ [.calloc block, .rwlockInit block, .munmap MAP_FAILED size false,
            .rwlockDestroy block, .free block] := by
          rw [← hcalls]
          simp [emit, setErrno, hlog]
        exact List.append_cancel_left hsame
      -- `MAP_FAILED` is unmapped, and nothing was mapped
      have hmappings := htidy.mappings
      rw [heq] at hmappings
      cases hmappings
    · intro hnot
      apply hnot
      refine ⟨⟨⟨block, hblock⟩, hzero.mp rfl⟩, ?_⟩
      rcases hmap with ⟨hsize, -⟩ | ⟨-, c, hc, -⟩
      · exact .inl hsize
      · exact .inr ⟨c, hc⟩
  | made block addr s' hblock hspace hsize hmap =>
    obtain ⟨-, hlog, -⟩ := log_of_fallocate hspace
    apply iff_of_true
    · refine ⟨_, [.calloc block, .rwlockInit block, .mmap addr size, .munmap addr size true, .rwlockDestroy block,
        .free block], rfl, ?_, rfl, rfl, rfl⟩
      simp only [cfeHeaderClose, CfeHeaderV1.base, cfeHeaderV1Free_made hmap hsize]
      simp [emit, hlog]
    · rintro ⟨-, hfail | ⟨e, hfail⟩⟩
      · exact hsize hfail
      · rw [hmap] at hfail
        cases hfail

/-- A header of the test is closed. -/
theorem cfeHeader_tidy_test : ∃ t calls, createAndClose checkCreateTypes.header checkCreateEnv (-1) 3 0 checkCreateWorld =
    some t ∧ t.log = checkCreateWorld.log ++ calls ∧ Tidy calls := by
  apply (cfeHeader_tidy rfl rfl 3 0).mpr
  rintro ⟨-, hfail | ⟨e, hfail⟩⟩
  · exact absurd hfail (by decide)
  · cases hfail

/-- When it cannot be mapped, `munmap` is called with `MAP_FAILED`. -/
theorem cfeHeader_unmaps_failed :
    ∃ t, createAndClose checkCreateTypes.header noAccessEnv (-1) 3 0 checkCreateWorld = some t ∧
      t.log = checkCreateWorld.log ++ [.calloc 0x2000, .rwlockInit 0x2000, .munmap MAP_FAILED 4096 false,
        .rwlockDestroy 0x2000, .free 0x2000] ∧
      ¬ ∃ calls, t.log = checkCreateWorld.log ++ calls ∧ Tidy calls := by
  refine ⟨_, rfl, rfl, ?_⟩
  rintro ⟨calls, hcalls, htidy⟩
  have heq : calls = [.calloc 0x2000, .rwlockInit 0x2000, .munmap MAP_FAILED 4096 false, .rwlockDestroy 0x2000,
      .free 0x2000] := hcalls.symm
  have hmappings := htidy.mappings
  rw [heq] at hmappings
  cases hmappings

end LibCfe
