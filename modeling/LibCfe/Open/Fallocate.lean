import LibCfe.Open.Mappings

/-!
# Space for a header

`cfe_fallocate` is one of two system interfaces. `posix_fallocate` returns the number
of its error and makes the file as long as asked. `fcntl(F_PREALLOCATE)` returns `-1`,
with the number in `errno`, and reserves blocks for a file that stays as long as it is.
`cfe_header_v1_alloc` takes the first for granted: it stores what was returned in
`errno`, and maps the range without looking at the length of the file.

## What is proved

`fallocate_contract_iff` — the contract of `posix_fallocate` is kept by the call, and by
`cfe_header_v1_alloc` on top of it, in the first build always; in the second exactly
when nothing fails and the file is long enough to begin with, or when the header does
not get as far.
-/

namespace LibCfe

open World

variable {H W C : Type}

/-! ### The call -/

/-- The contract of `posix_fallocate`: it returns `0`, and the file reaches to the end of the
range, or it returns the number of an error, and the file is as long as before. -/
def KeepsContract (fd offset len : ℤ) (s : World H W C) (r : ℤ × World H W C) : Prop :=
  (r.1 = 0 ∧ offset + len ≤ (r.2.files fd).size) ∨ (0 < r.1 ∧ (r.2.files fd).size = (s.files fd).size)

/-- A file that has grown reaches to the new end. -/
theorem le_size_grow (s : World H W C) (fd size : ℤ) : size ≤ ((s.grow fd size).files fd).size := by
  simp only [grow, Function.update_self]
  exact le_max_right _ _

section

variable {env : Env} {fd offset len : ℤ} {s : World H W C}

/-- `posix_fallocate` keeps its contract. -/
theorem keepsContract_posix (hb : env.build = .posixFallocate) :
    KeepsContract fd offset len s (cfeFallocate env fd offset len s) := by
  rw [cfeFallocate_posix hb]
  cases he : env.spaceErrno offset len with
  | none => exact .inl ⟨rfl, le_size_grow s fd (offset + len)⟩
  | some e => exact .inr ⟨Env.spaceErrno_pos he, rfl⟩

/-- `F_PREALLOCATE` keeps it when there was nothing to be done. -/
theorem keepsContract_preallocate (hb : env.build = .preallocate) :
    KeepsContract fd offset len s (cfeFallocate env fd offset len s) ↔
      env.fallocate = none ∧ offset + len ≤ (s.files fd).size := by
  simp only [cfeFallocate, hb, fcntlPreallocate]
  cases env.fallocate with
  | none =>
    constructor
    · rintro (⟨-, hle⟩ | ⟨hpos, -⟩)
      · exact ⟨rfl, hle⟩
      · exact absurd hpos (lt_irrefl 0)
    · rintro ⟨-, hle⟩
      exact .inl ⟨rfl, hle⟩
  | some e =>
    -- what is returned is neither `0` nor the number of an error
    apply iff_of_false
    · rintro (⟨hzero, -⟩ | ⟨hpos, -⟩)
      · cases hzero
      · cases hpos
    · rintro ⟨hnone, -⟩
      cases hnone

/-- When either build keeps the contract. -/
theorem keepsContract_iff :
    KeepsContract fd offset len s (cfeFallocate env fd offset len s) ↔
      env.build = .posixFallocate ∨ env.fallocate = none ∧ offset + len ≤ (s.files fd).size := by
  cases hb : env.build with
  | posixFallocate => exact iff_of_true (keepsContract_posix hb) (.inl rfl)
  | preallocate =>
    rw [keepsContract_preallocate hb]
    exact ⟨.inr, fun h => h.resolve_left nofun⟩

end

/-! ### The header -/

/-- What `cfe_header_v1_alloc` makes of the contract. -/
structure InsideFile (env : Env) (fd : ℤ) (size : BitVec 64) (r : Option CfeHeaderV1 × World H W C) : Prop where
  /-- What a header has mapped, from the start of the file on, is inside the file. -/
  inside : ∀ header, r.1 = some header → (header.msize.toNat : ℤ) ≤ (r.2.files fd).size
  /-- When there is a block and no space, `errno` is the number of the error. -/
  errno : ∀ block e, env.headerBlock = .ok block → env.spaceErrno 0 size.toInt = some e → r.2.errno = some e

section

variable {env : Env} {fd : ℤ} {size : BitVec 64} {s : World H W C} {r : Option CfeHeaderV1 × World H W C}

/-- Without a block, nothing is asked of the file. -/
theorem InsideFile.of_noBlock {e : ErrorCode} (hblock : env.headerBlock = .error e) (hr : r.1 = none) :
    InsideFile env fd size r := by
  constructor
  · intro header hsome
    rw [hr] at hsome
    cases hsome
  · intro block e' hok
    rw [hblock] at hok
    cases hok

/-- When there is space, it comes down to the header. -/
theorem InsideFile.of_space (hnone : env.spaceErrno 0 size.toInt = none)
    (hinside : ∀ header, r.1 = some header → (header.msize.toNat : ℤ) ≤ (r.2.files fd).size) :
    InsideFile env fd size r := by
  refine ⟨hinside, ?_⟩
  intro block e _ he
  rw [hnone] at he
  cases he

/-- In the build with `posix_fallocate` it keeps to it. -/
theorem insideFile_posix (hb : env.build = .posixFallocate) (h : HeaderV1Result env fd size s r) :
    InsideFile env fd size r := by
  cases h with
  | noBlock e hblock => exact .of_noBlock hblock rfl
  | noSpace block ret s' hblock hspace hret =>
    constructor
    · intro header hr
      cases hr
    · intro block' e _ he
      rw [cfeFallocate_posix hb, he] at hspace
      obtain ⟨rfl, -⟩ := Prod.mk.inj hspace
      rfl
  | noMapping block e s' hblock hspace hmap =>
    apply InsideFile.of_space ((log_of_fallocate hspace).2.2.mp rfl)
    intro header hr
    cases hr
  | made block addr s' hblock hspace hsize hmap =>
    have hnone := (log_of_fallocate hspace).2.2.mp rfl
    have hpos := ((spaceErrno_eq_none_iff env size).mp hnone).2 hb
    apply InsideFile.of_space hnone
    intro header hr
    obtain rfl := Option.some.inj hr
    rw [cfeFallocate_posix hb, hnone] at hspace
    obtain ⟨-, rfl⟩ := Prod.mk.inj hspace
    -- a size that is positive as an `off_t` is the same as a `size_t`
    have hval : (size.toNat : ℤ) = 0 + size.toInt := by
      rw [BitVec.toInt_eq_toNat_cond] at hpos ⊢
      split_ifs at hpos ⊢ <;> omega
    rw [hval]
    exact le_size_grow _ fd (0 + size.toInt)

/-- In the build with `F_PREALLOCATE` it keeps to it in these cases. -/
theorem insideFile_preallocate (hb : env.build = .preallocate) (hsize : size ≠ 0) (h : HeaderV1Result env fd size s r) :
    InsideFile env fd size r ↔ (∃ e, env.headerBlock = .error e) ∨
      env.fallocate = none ∧ ((∃ e, env.mmap = .error e) ∨ (size.toNat : ℤ) ≤ (s.files fd).size) := by
  have hfallocate : env.spaceErrno 0 size.toInt = none ↔ env.fallocate = none := by
    simp only [Env.spaceErrno, hb, Option.map_eq_none_iff]
  cases h with
  | noBlock e hblock => exact iff_of_true (.of_noBlock hblock rfl) (.inl ⟨e, hblock⟩)
  | noSpace block ret s' hblock hspace hret =>
    have hsome := (log_of_fallocate hspace).2.2.not.mp hret
    obtain ⟨e, he⟩ := Option.ne_none_iff_exists'.mp hsome
    rw [cfeFallocate_preallocate hb, he] at hspace
    obtain ⟨rfl, rfl⟩ := Prod.mk.inj hspace
    apply iff_of_false
    · -- `errno` is `-1`
      intro hinside
      have herr : (-1 : ℤ) = e := Option.some.inj (hinside.errno block e hblock he)
      have hpos : (0 : ℤ) < e := Env.spaceErrno_pos he
      omega
    · rintro (⟨e', he'⟩ | ⟨hnone, -⟩)
      · rw [hblock] at he'
        cases he'
      · exact hsome (hfallocate.mpr hnone)
  | noMapping block e s' hblock hspace hmap =>
    have hnone := (log_of_fallocate hspace).2.2.mp rfl
    apply iff_of_true
    · apply InsideFile.of_space hnone
      intro header hr
      cases hr
    · rcases hmap with ⟨h0, -⟩ | ⟨-, c, hc, -⟩
      · exact absurd h0 hsize
      · exact .inr ⟨hfallocate.mp hnone, .inl ⟨c, hc⟩⟩
  | made block addr s' hblock hspace _ hmap =>
    have hnone := (log_of_fallocate hspace).2.2.mp rfl
    rw [cfeFallocate_preallocate hb, hnone] at hspace
    obtain ⟨-, rfl⟩ := Prod.mk.inj hspace
    constructor
    · intro hinside
      exact .inr ⟨hfallocate.mp hnone, .inr (hinside.inside _ rfl)⟩
    · rintro (⟨e, he⟩ | ⟨-, ⟨e, he⟩ | hle⟩)
      · rw [hblock] at he
        cases he
      · rw [hmap] at he
        cases he
      · apply InsideFile.of_space hnone
        intro header hr
        obtain rfl := Option.some.inj hr
        exact hle

end

/-- **The two builds of `cfe_fallocate`.** The one with `posix_fallocate` keeps its contract
always. The one with `F_PREALLOCATE` does so exactly when nothing fails and the file
reaches to the end of the range as it is. So a header of version 1 is inside its file,
and `errno` is the number of the error when there is no space, in the first build always;
in the second exactly when there is no block, or no error and then no mapping or a file
that is long enough. -/
theorem fallocate_contract_iff (env : Env) (fd : ℤ) (s : World H W C) :
    (∀ offset len : ℤ, 0 ≤ offset → 1 ≤ len →
      (KeepsContract fd offset len s (cfeFallocate env fd offset len s) ↔
        env.build = .posixFallocate ∨ env.fallocate = none ∧ offset + len ≤ (s.files fd).size)) ∧
    ∀ size : BitVec 64, size ≠ 0 →
      (InsideFile env fd size (cfeHeaderV1Alloc env fd size s) ↔
        env.build = .posixFallocate ∨ (∃ e, env.headerBlock = .error e) ∨
          env.fallocate = none ∧ ((∃ e, env.mmap = .error e) ∨ (size.toNat : ℤ) ≤ (s.files fd).size)) := by
  constructor
  · intro offset len _ _
    exact keepsContract_iff
  · intro size hsize
    have hresult := cfeHeaderV1Alloc_result env fd size s
    cases hb : env.build with
    | posixFallocate => exact iff_of_true (insideFile_posix hb hresult) (.inl rfl)
    | preallocate =>
      rw [insideFile_preallocate hb hsize hresult]
      exact ⟨.inr, fun h => h.resolve_left nofun⟩

/-- The header of the test is inside its file. -/
theorem fallocate_contract_test :
    KeepsContract 3 0 4096 checkCreateWorld (cfeFallocate checkCreateEnv 3 0 4096 checkCreateWorld) ∧
      InsideFile checkCreateEnv 3 4096 (cfeHeaderV1Alloc checkCreateEnv 3 4096 checkCreateWorld) := by
  obtain ⟨hcall, hheader⟩ := fallocate_contract_iff checkCreateEnv 3 checkCreateWorld
  exact ⟨(hcall 0 4096 (by decide) (by decide)).mpr (.inl rfl), (hheader 4096 (by decide)).mpr (.inl rfl)⟩

/-- With `F_PREALLOCATE` it has mapped 4096 bytes of an empty file; and without space on the
device, `errno` is `-1`. -/
theorem preallocate_breaks_contract :
    (∃ header s', cfeFallocate { checkCreateEnv with build := .preallocate } 3 0 4096 checkCreateWorld =
        (0, checkCreateWorld) ∧ (checkCreateWorld.files 3).size = 0 ∧
      ¬KeepsContract 3 0 4096 checkCreateWorld (0, checkCreateWorld) ∧
      cfeHeaderV1Alloc { checkCreateEnv with build := .preallocate } 3 4096 checkCreateWorld = (some header, s') ∧
      header.msize = 4096 ∧ (s'.files 3).size = 0 ∧
      ¬InsideFile { checkCreateEnv with build := .preallocate } 3 4096 (some header, s')) ∧
    (cfeFallocate { noSpaceEnv with build := .preallocate } 3 0 4096 checkCreateWorld).1 = -1 ∧
      (cfeHeaderV1Alloc { noSpaceEnv with build := .preallocate } 3 4096 checkCreateWorld).2.errno = some (-1) ∧
      ¬InsideFile { noSpaceEnv with build := .preallocate } 3 4096
        (cfeHeaderV1Alloc { noSpaceEnv with build := .preallocate } 3 4096 checkCreateWorld) := by
  refine ⟨⟨_, _, rfl, rfl, ?_, rfl, rfl, rfl, ?_⟩, rfl, rfl, ?_⟩
  · rintro (⟨-, hle⟩ | ⟨hpos, -⟩)
    · exact absurd hle (by decide)
    · exact absurd hpos (by decide)
  · intro hinside
    exact absurd (hinside.inside _ rfl) (by decide)
  · intro hinside
    exact absurd (hinside.errno 0x2000 28 rfl rfl) (by decide)

end LibCfe
