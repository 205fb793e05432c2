import LibCfe.Fs.Filewriter
import LibCfe.Fs.Size
import LibCfe.Open.Create

/-!
# Asking for a version

`cfe_header_create` and `cfe_filewriter_create` take the version as an `int`, `-1`
being the default. The two lookups convert it: `cfe_header_find` to `uint16_t`,
`cfe_filewriter_find` to `unsigned int`. So another version than the one asked for
is found when the `int` does not fit, and `65537` gives a header of version 1.

## What is proved

`create_honours_version` — in any state of the two registries, a version is honoured
exactly when it is one that the keys of the registry can express, or no registered
type has the version that it is converted to.
-/

namespace LibCfe

open World

variable {T O H W C F : Type} {w : ℕ}

/-- What a call that was asked for version `v` returned honours it: an object is of a
registered type of just that version, and when no such type is registered the call
fails with `ENOSYS` and moves no counter. -/
structure Honours (version : T → BitVec w) (registry : Registry T) (typeOf : O → T) (v : BitVec 32)
    (s : World H W C) (r : Option (Option O × World H W C)) : Prop where
  object : ∀ o s', r = some (some o, s') →
    typeOf o ∈ registry.list ∧ ((version (typeOf o)).toNat : ℤ) = v.toInt
  missing : (∀ t ∈ registry.list, ((version t).toNat : ℤ) ≠ v.toInt) →
    ∃ s', r = some (none, s') ∧ s'.errno = some ENOSYS ∧ SameRegistries s s'

/-- The `int` is a version, or what it is converted to is not registered. -/
def Unaliased (version : T → BitVec w) (registry : Registry T) (v : BitVec 32) : Prop :=
  (0 ≤ v.toInt ∧ v.toInt < 2 ^ w) ∨ ∀ t ∈ registry.list, version t ≠ v.setWidth w

/-! ### The conversion -/

/-- An `int` that is a version is converted to that version only. -/
theorem toInt_of_eq_setWidth {x : BitVec w} {v : BitVec 32} (h : x = v.setWidth w)
    (hv : 0 ≤ v.toInt ∧ v.toInt < 2 ^ w) : (x.toNat : ℤ) = v.toInt := by
  have hnat : (v.toNat : ℤ) = v.toInt := by
    have hnonneg := hv.1
    rw [BitVec.toInt_eq_toNat_cond] at hnonneg ⊢
    have := v.isLt
    split at hnonneg
    · next hlt => rw [if_pos hlt]
    · omega
  have hlt : v.toNat < 2 ^ w := by
    have := hv.2
    rw [← hnat] at this
    exact_mod_cast this
  rw [h, BitVec.toNat_setWidth, Nat.mod_eq_of_lt hlt, hnat]

/-- An `int` that does not fit is no version. -/
theorem toInt_ne_of_not_fits {x : BitVec w} {v : BitVec 32} (hv : ¬(0 ≤ v.toInt ∧ v.toInt < 2 ^ w)) :
    (x.toNat : ℤ) ≠ v.toInt := by
  intro h
  apply hv
  rw [← h]
  exact ⟨Int.natCast_nonneg _, by exact_mod_cast x.isLt⟩

/-! ### Both calls -/

variable {version : T → BitVec w} {registry : Registry T} {typeOf : O → T} {v : BitVec 32} {s : World H W C}
  {r : Option (Option O × World H W C)}

/-- A call that returns objects of the type that it looks up, and fails when there is
none, honours a version that is unaliased. -/
theorem Honours.of_unaliased
    (hnone : formatFind version registry (v.setWidth w) = none → r = some (none, s.setErrno ENOSYS))
    (hsome : ∀ o s', r = some (some o, s') → formatFind version registry (v.setWidth w) = some (typeOf o))
    (h : Unaliased version registry v) : Honours version registry typeOf v s r := by
  constructor
  · intro o s' hr
    obtain ⟨hmem, hversion⟩ := mem_of_formatFind version (hsome o s' hr)
    rcases h with hfits | habsent
    · exact ⟨hmem, toInt_of_eq_setWidth hversion hfits⟩
    · exact absurd hversion (habsent _ hmem)
  · intro hmissing
    refine ⟨_, hnone ?_, rfl, .refl _⟩
    rw [formatFind_eq_none_iff]
    intro t hmem hversion
    rcases h with hfits | habsent
    · exact hmissing t hmem (toInt_of_eq_setWidth hversion hfits)
    · exact habsent t hmem hversion

/-- For a version that is aliased a type is found, and honouring it means to fail with
`ENOSYS`. -/
theorem Honours.of_aliased (hr : Honours version registry typeOf v s r) (h : ¬Unaliased version registry v) :
    ∃ s', r = some (none, s') ∧ s'.errno = some ENOSYS := by
  obtain ⟨hfits, -⟩ := not_or.mp h
  obtain ⟨s', hs', herrno, -⟩ := hr.missing fun t _ => toInt_ne_of_not_fits hfits
  exact ⟨s', hs', herrno⟩

theorem exists_of_aliased (h : ¬Unaliased version registry v) :
    ∃ t, formatFind version registry (v.setWidth w) = some t := by
  obtain ⟨-, hpresent⟩ := not_or.mp h
  cases hfind : formatFind version registry (v.setWidth w) with
  | none => exact absurd ((formatFind_eq_none_iff version).mp hfind) hpresent
  | some t => exact ⟨t, rfl⟩

theorem formatLookup_of_ne (hv : v ≠ -1) : formatLookup version v registry = formatFind version registry (v.setWidth w) :=
  if_neg hv

/-! ### The header registry -/

section

variable [DecidableEq H] {types : H → CfeHeaderType (HeaderAlloc H W C)} {env : Env} {fd : ℤ} {size : BitVec 64}

/-- A header is of the type that was looked up. -/
theorem cfeHeaderCreate_type {header : CfeHeader H W C} {s' : World H W C}
    (h : cfeHeaderCreate types env v fd size s = some (some header, s')) :
    formatLookup (fun t => (types t).version) v s.headers = some header.type := by
  unfold cfeHeaderCreate at h
  cases hlookup : formatLookup (fun t => (types t).version) v s.headers with
  | none =>
    rw [hlookup] at h
    cases h
  | some type =>
    simp only [hlookup] at h
    split at h
    · cases h
    · split at h
      · cases h
      · obtain ⟨hheader, -⟩ := Prod.mk.inj (Option.some.inj h)
        rw [← Option.some.inj hheader]

theorem cfeHeaderCreate_missing (h : formatLookup (fun t => (types t).version) v s.headers = none) :
    cfeHeaderCreate types env v fd size s = some (none, s.setErrno ENOSYS) := by
  unfold cfeHeaderCreate
  rw [h]

/-- A type of version 1 or of any other that is allocated like it, when all goes well. -/
theorem cfeHeaderCreate_made {type : H} (h : formatLookup (fun t => (types t).version) v s.headers = some type)
    (halloc : (types type).alloc = some headerV1) :
    ∃ header s', cfeHeaderCreate types checkCreateEnv v 3 0 s = some (some header, s') := by
  rw [cfeHeaderCreate_eq h halloc]
  exact ⟨_, _, rfl⟩

end

/-! ### The file writer registry -/

section

variable [DecidableEq W] [DecidableEq C] {types : W → CfeFilewriterType (FilewriterAlloc H W C)}
  {ciphers : C → CfeCipherType F} {env : Env} {cipher : Option CString} {blocksize : BitVec 32}

/-- A file writer is of the type that was looked up. -/
theorem cfeFilewriterCreate_type {writer : CfeFilewriter H W C} {s' : World H W C}
    (h : cfeFilewriterCreate types ciphers env v cipher blocksize s = some (some writer, s')) :
    formatLookup (fun t => (types t).version) v s.writers = some writer.type := by
  unfold cfeFilewriterCreate at h
  cases hlookup : formatLookup (fun t => (types t).version) v s.writers with
  | none =>
    rw [hlookup] at h
    cases h
  | some type =>
    simp only [hlookup] at h
    split at h
    · cases h
    · cases h
    · split at h
      · cases h
      · split at h
        · cases h
        · obtain ⟨hwriter, -⟩ := Prod.mk.inj (Option.some.inj h)
          rw [← Option.some.inj hwriter]

theorem cfeFilewriterCreate_missing (h : formatLookup (fun t => (types t).version) v s.writers = none) :
    cfeFilewriterCreate types ciphers env v cipher blocksize s = some (none, s.setErrno ENOSYS) := by
  unfold cfeFilewriterCreate
  rw [h]

/-- With no cipher registered, a version that is found leads to a failure other than
`ENOSYS`. -/
theorem cfeFilewriterCreate_noCipher (ciphers : C → CfeCipherType F) (env : Env) (blocksize : BitVec 32) {type : W}
    (h : formatLookup (fun t => (types t).version) v s.writers = some type) (hciphers : s.ciphers = Registry.empty) :
    ∃ s', cfeFilewriterCreate types ciphers env v none blocksize s = some (none, s') ∧ s'.errno = s.errno := by
  unfold cfeFilewriterCreate
  simp only [h, hciphers, cfeCipherRefPtr]
  exact ⟨_, rfl, rfl⟩

end

/-! ### A requested version -/

/-- By the header registry. -/
theorem cfeHeaderCreate_honours_iff [DecidableEq H] {v : BitVec 32} (hv : v ≠ -1) (version : H → BitVec 16)
    (headers : Registry H) :
    (∀ (types : H → CfeHeaderType (HeaderAlloc H W C)) (env : Env) (fd : ℤ) (size : BitVec 64) (s : World H W C),
        (∀ t, (types t).version = version t) → s.headers = headers →
        Honours version headers CfeHeader.type v s (cfeHeaderCreate types env v fd size s)) ↔
      Unaliased version headers v := by
  constructor
  · intro hall
    by_contra haliased
    obtain ⟨t, ht⟩ := exists_of_aliased haliased
    let types : H → CfeHeaderType (HeaderAlloc H W C) := fun t => ⟨version t, some headerV1⟩
    let s : World H W C := ⟨headers, Registry.empty, Registry.empty, none, fun _ => ⟨0o100600, 0⟩, []⟩
    have hfound : formatLookup (fun t => (types t).version) v s.headers = some t := (formatLookup_of_ne hv).trans ht
    obtain ⟨header, s', hmade⟩ := cfeHeaderCreate_made hfound rfl
    obtain ⟨s'', hfailed, -⟩ := (hall types checkCreateEnv 3 0 s (fun _ => rfl) rfl).of_aliased haliased
    rw [hmade] at hfailed
    cases hfailed
  · rintro hunaliased types env fd size s hversion rfl
    obtain rfl : (fun t => (types t).version) = version := funext hversion
    apply Honours.of_unaliased _ _ hunaliased
    · intro hnone
      exact cfeHeaderCreate_missing ((formatLookup_of_ne hv).trans hnone)
    · intro header s' hr
      exact (formatLookup_of_ne hv).symm.trans (cfeHeaderCreate_type hr)

/-- By the file writer registry. -/
theorem cfeFilewriterCreate_honours_iff [DecidableEq W] [DecidableEq C] {v : BitVec 32} (hv : v ≠ -1)
    (version : W → BitVec 32) (writers : Registry W) :
    (∀ (types : W → CfeFilewriterType (FilewriterAlloc H W C)) (ciphers : C → CfeCipherType F) (env : Env)
        (cipher : Option CString) (blocksize : BitVec 32) (s : World H W C),
        (∀ t, (types t).version = version t) → s.writers = writers →
        Honours version writers CfeFilewriter.type v s
          (cfeFilewriterCreate types ciphers env v cipher blocksize s)) ↔
      Unaliased version writers v := by
  constructor
  · intro hall
    by_contra haliased
    obtain ⟨t, ht⟩ := exists_of_aliased haliased
    let types : W → CfeFilewriterType (FilewriterAlloc H W C) := fun t => ⟨version t, some filewriterV1⟩
    let s : World H W C := ⟨Registry.empty, writers, Registry.empty, none, fun _ => ⟨0o100600, 0⟩, []⟩
    let ciphers : C → CfeCipherType F := fun _ => ⟨⟨List.replicate 16 0, rfl⟩, 0, 0, 0, 0, none⟩
    have hfound : formatLookup (fun t => (types t).version) v s.writers = some t := (formatLookup_of_ne hv).trans ht
    obtain ⟨s', hmade, herrno⟩ := cfeFilewriterCreate_noCipher ciphers checkCreateEnv 512 hfound rfl
    obtain ⟨s'', hfailed, henosys⟩ :=
      (hall types ciphers checkCreateEnv none 512 s (fun _ => rfl) rfl).of_aliased haliased
    rw [hmade] at hfailed
    obtain ⟨-, rfl⟩ := Prod.mk.inj (Option.some.inj hfailed)
    rw [herrno] at henosys
    cases henosys
  · rintro hunaliased types ciphers env cipher blocksize s hversion rfl
    obtain rfl : (fun t => (types t).version) = version := funext hversion
    apply Honours.of_unaliased _ _ hunaliased
    · intro hnone
      exact cfeFilewriterCreate_missing ((formatLookup_of_ne hv).trans hnone)
    · intro writer s' hr
      exact (formatLookup_of_ne hv).symm.trans (cfeFilewriterCreate_type hr)

/-- **An explicitly requested version is honoured** by a registry exactly when it is a
version at all, or nothing is registered under the version that it is converted to.
The conversion is to 16 bits for headers and to 32 bits for file writers. -/
theorem create_honours_version [DecidableEq H] [DecidableEq W] [DecidableEq C] {v : BitVec 32} (hv : v ≠ -1)
    (headerVersion : H → BitVec 16) (writerVersion : W → BitVec 32) (headers : Registry H) (writers : Registry W) :
    ((∀ (types : H → CfeHeaderType (HeaderAlloc H W C)) (env : Env) (fd : ℤ) (size : BitVec 64) (s : World H W C),
        (∀ t, (types t).version = headerVersion t) → s.headers = headers →
        Honours headerVersion headers CfeHeader.type v s (cfeHeaderCreate types env v fd size s)) ↔
      Unaliased headerVersion headers v) ∧
    ((∀ (types : W → CfeFilewriterType (FilewriterAlloc H W C)) (ciphers : C → CfeCipherType F) (env : Env)
        (cipher : Option CString) (blocksize : BitVec 32) (s : World H W C),
        (∀ t, (types t).version = writerVersion t) → s.writers = writers →
        Honours writerVersion writers CfeFilewriter.type v s
          (cfeFilewriterCreate types ciphers env v cipher blocksize s)) ↔
      Unaliased writerVersion writers v) :=
  ⟨cfeHeaderCreate_honours_iff hv headerVersion headers, cfeFilewriterCreate_honours_iff hv writerVersion writers⟩

/-- Version 1 is honoured by the registries of the test. -/
theorem create_honours_version_one :
    Honours (fun _ : Unit => (1 : BitVec 16)) checkCreateWorld.headers CfeHeader.type 1 checkCreateWorld
      (cfeHeaderCreate checkCreateTypes.header checkCreateEnv 1 3 0 checkCreateWorld) :=
  (create_honours_version (v := 1) (H := Unit) (W := Unit) (C := Unit) (F := Unit) (by decide) (fun _ => 1)
    (fun _ => 1) checkCreateWorld.headers checkCreateWorld.writers).1.mpr (.inl (by decide))
    checkCreateTypes.header checkCreateEnv 3 0 checkCreateWorld (fun _ => rfl) rfl

/-- Asked for version `65537`, `cfe_header_create` makes a header of version 1; asked for
version `-2`, `cfe_filewriter_create` makes a writer of version `4294967294`. -/
theorem create_aliases_version :
    (∃ header s', cfeHeaderCreate checkCreateTypes.header checkCreateEnv 65537 3 0 checkCreateWorld =
        some (some header, s') ∧ (checkCreateTypes.header header.type).version = 1 ∧
      ¬Honours (fun _ : Unit => (1 : BitVec 16)) checkCreateWorld.headers CfeHeader.type 65537 checkCreateWorld
        (some (some header, s'))) ∧
    ∃ writer s', cfeFilewriterCreate (fun _ => ⟨4294967294, some filewriterV1⟩) checkCreateTypes.cipher checkCreateEnv
        (-2) (some aesCbc256Name) 512 checkCreateWorld = some (some writer, s') ∧
      ¬Honours (fun _ : Unit => (4294967294 : BitVec 32)) checkCreateWorld.writers CfeFilewriter.type (-2)
        checkCreateWorld (some (some writer, s')) := by
  constructor
  · refine ⟨_, _, rfl, rfl, ?_⟩
    intro h
    exact absurd (h.object _ _ rfl).2 (by decide)
  · refine ⟨_, _, rfl, ?_⟩
    intro h
    exact absurd (h.object _ _ rfl).2 (by decide)

end LibCfe
