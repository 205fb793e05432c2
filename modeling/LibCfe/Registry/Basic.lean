import LibCfe.Cfe.Atomic
import LibCfe.Cfe.Base
import Mathlib.Data.List.Nodup
import Mathlib.Logic.Function.Basic

/-!
# Registries

The library keeps six registries of types that modules register at start-up:
ciphers, hashes, key derivations and random number generators under a name, and
file headers and file writers under a version number. Each is a list of the
`struct`s handed to `register`, each `struct` with its own reference counter. The
two registries of formats also point to a default, the newest type registered.

The source has two texts, one repeated in the four crypto registries and one in
the two format registries. Here each text is one definition, over what its copies
differ in: what `register` demands of a type before it takes the lock, and how
the key of a type is read. `LibCfe.Registry.Kinds` has the six registries.

A type is an address, so types are compared by identity. `refcnt` is the counter
in each of them. A locked section that fails leaves the registry as it was, so a
failure is just the `errno` it stores.

## What is proved

`Lawful` says what the operations of a registry do, in terms that hold of both
texts; the proofs about runs (`LibCfe.Registry.Concurrent`) use nothing else.
-/

namespace LibCfe

/-- The state of a registry. -/
structure Registry (T : Type) where
  /-- `alg_list`, `header_list` or `writer_list`: the types in it, in order. -/
  list : List T
  /-- `header_default` or `writer_default`; a crypto registry has none. -/
  dflt : Option T
  /-- The counter of each type, in the list or not. -/
  refcnt : T → CfeAtomic

namespace Registry

variable {T : Type} [DecidableEq T]

/-- Before anything is registered; types are zero-initialised. -/
def empty : Registry T := ⟨[], none, fun _ => ⟨0⟩⟩

/-- `cfe_atomic_inc(&type->refcnt)`. -/
def inc (s : Registry T) (type : T) : Registry T :=
  { s with refcnt := Function.update s.refcnt type (cfeAtomicInc (s.refcnt type)) }

/-- `cfe_atomic_dec(&type->refcnt)`. -/
def dec (s : Registry T) (type : T) : Registry T :=
  { s with refcnt := Function.update s.refcnt type (cfeAtomicDec (s.refcnt type)) }

@[simp] theorem inc_list (s : Registry T) (t : T) : (s.inc t).list = s.list := rfl
@[simp] theorem inc_dflt (s : Registry T) (t : T) : (s.inc t).dflt = s.dflt := rfl
@[simp] theorem dec_list (s : Registry T) (t : T) : (s.dec t).list = s.list := rfl
@[simp] theorem dec_dflt (s : Registry T) (t : T) : (s.dec t).dflt = s.dflt := rfl

@[simp] theorem inc_refcnt_self (s : Registry T) (t : T) : (s.inc t).refcnt t = cfeAtomicInc (s.refcnt t) :=
  Function.update_self _ _ _

@[simp] theorem dec_refcnt_self (s : Registry T) (t : T) : (s.dec t).refcnt t = cfeAtomicDec (s.refcnt t) :=
  Function.update_self _ _ _

/-- Only the counter of the type itself moves. -/
theorem inc_refcnt_of_ne (s : Registry T) {t u : T} (h : u ≠ t) : (s.inc t).refcnt u = s.refcnt u :=
  Function.update_of_ne h _ _

theorem dec_refcnt_of_ne (s : Registry T) {t u : T} (h : u ≠ t) : (s.dec t).refcnt u = s.refcnt u :=
  Function.update_of_ne h _ _

/-- Taking a reference and dropping it leaves the registry as it was. -/
@[simp] theorem dec_inc (s : Registry T) (t : T) : (s.inc t).dec t = s := by
  simp [inc, dec]

end Registry

variable {T : Type} [DecidableEq T]

/-! ### The crypto registries -/

/-- What the four crypto registries differ in. -/
structure CryptoClass (T : Type) where
  /-- What `register` checks before it takes the lock. -/
  accepts : T → Bool
  /-- The string at `type->name`, given the counters: a name without a NUL in its
  array runs on into the fields behind it. -/
  name : (T → CfeAtomic) → T → CString

variable (c : CryptoClass T)

/-- `find_alg`. -/
def findAlg (s : Registry T) (name : CString) : Option T :=
  s.list.find? fun tmp => strcmp name (c.name s.refcnt tmp) == 0

/-- `cfe_…_register` of a crypto registry. -/
def cryptoRegister (type : T) (s : Registry T) : Except Errno (Registry T) :=
  if !c.accepts type then .error EINVAL
  else match findAlg c s (c.name s.refcnt type) with
    | some _ => .error EBUSY
    | none => .ok { s with refcnt := Function.update s.refcnt type (cfeAtomicSet 1),
                           list := s.list ++ [type] }

omit c in
/-- `cfe_…_unregister` of a crypto registry. -/
def cryptoUnregister (type : T) (s : Registry T) : Except Errno (Registry T) :=
  if cfeAtomicGet (s.refcnt type) ≠ 1 then .error EBUSY
  else .ok { s with list := s.list.erase type }

/-! ### The format registries -/

variable {w : ℕ} (version : T → BitVec w)

/-- `cfe_header_find`, `cfe_filewriter_find`. -/
def formatFind (s : Registry T) (v : BitVec w) : Option T :=
  s.list.find? fun tmp => version tmp == v

/-- `cfe_…_register` of a format registry. -/
def formatRegister (type : T) (s : Registry T) : Except Errno (Registry T) :=
  match formatFind version s (version type) with
  | some _ => .error EBUSY
  | none => .ok { refcnt := Function.update s.refcnt type (cfeAtomicSet 1),
                  list := s.list ++ [type],
                  dflt := match s.dflt with
                    | none => some type
                    | some d => if version d < version type then some type else some d }

/-- `cfe_…_unregister` of a format registry. -/
def formatUnregister (type : T) (s : Registry T) : Except Errno (Registry T) :=
  if s.dflt = some type then .error EBUSY
  else if cfeAtomicGet (s.refcnt type) ≠ 1 then .error EBUSY
  else .ok { s with list := s.list.erase type }

/-- The choice of a type in `cfe_…_create`: the default for `-1`, otherwise the type
with that version, the `int` being converted to the version's own type. -/
def formatLookup (v : BitVec 32) (s : Registry T) : Option T :=
  if v = -1 then s.dflt else formatFind version s (v.setWidth w)

/-! ### Both -/

/-- The locked sections of a registry. -/
structure Api (T Q : Type) where
  /-- The write-locked section of `register`, with the check before it. -/
  register : T → Registry T → Except Errno (Registry T)
  /-- The write-locked section of `unregister`. -/
  unregister : T → Registry T → Except Errno (Registry T)
  /-- The read-locked lookup, before the increment. -/
  lookup : Q → Registry T → Option T

/-- A crypto registry asked with queries that each stand for a name. -/
def cryptoApi {Q : Type} (asked : Q → CString) : Api T Q where
  register := cryptoRegister c
  unregister := cryptoUnregister
  lookup q s := findAlg c s (asked q)

/-- A format registry asked with a version. -/
def formatApi : Api T (BitVec 32) where
  register := formatRegister version
  unregister := formatUnregister
  lookup := formatLookup version

/-- There is no default. -/
def NoDefault (s : Registry T) : Prop := s.dflt = none

/-- The default is registered. -/
def DefaultListed (s : Registry T) : Prop := ∀ d, s.dflt = some d → d ∈ s.list

/-- What the operations of a registry do, where `good` is known of the default. -/
structure Api.Lawful {Q : Type} (api : Api T Q) (good : Registry T → Prop) : Prop where
  good_empty : good Registry.empty
  /-- The counters do not matter for it. -/
  good_congr : ∀ {s s' : Registry T}, s'.list = s.list → s'.dflt = s.dflt → good s → good s'
  register_ok : ∀ {s s' : Registry T} {t : T}, good s → api.register t s = .ok s' →
    good s' ∧ t ∉ s.list ∧ s'.list = s.list ++ [t] ∧ s'.refcnt = Function.update s.refcnt t (cfeAtomicSet 1)
  unregister_ok : ∀ {s s' : Registry T} {t : T}, good s → api.unregister t s = .ok s' →
    good s' ∧ cfeAtomicGet (s.refcnt t) = 1 ∧ s'.list = s.list.erase t ∧ s'.refcnt = s.refcnt
  lookup_mem : ∀ {s : Registry T} {q : Q} {t : T}, good s → api.lookup q s = some t → t ∈ s.list

omit [DecidableEq T] in
theorem mem_of_findAlg {s : Registry T} {name : CString} {t : T} (h : findAlg c s name = some t) :
    t ∈ s.list := List.mem_of_find?_eq_some h

omit [DecidableEq T] in
/-- A type in the list is found, or another of the same name is. -/
theorem findAlg_isSome {s : Registry T} {t : T} (h : t ∈ s.list) :
    (findAlg c s (c.name s.refcnt t)).isSome := by
  rw [findAlg, List.find?_isSome]
  exact ⟨t, h, by simp⟩

omit [DecidableEq T] in
theorem mem_of_formatFind {s : Registry T} {v : BitVec w} {t : T} (h : formatFind version s v = some t) :
    t ∈ s.list ∧ version t = v :=
  ⟨List.mem_of_find?_eq_some h, by simpa using List.find?_some h⟩

omit [DecidableEq T] in
theorem formatFind_eq_none_iff {s : Registry T} {v : BitVec w} :
    formatFind version s v = none ↔ ∀ t ∈ s.list, version t ≠ v := by
  simp [formatFind]

/-- What a successful `register` of a crypto registry does. -/
theorem cryptoRegister_ok {s s' : Registry T} {t : T} (h : cryptoRegister c t s = .ok s') :
    c.accepts t = true ∧ findAlg c s (c.name s.refcnt t) = none ∧
      s' = { s with refcnt := Function.update s.refcnt t (cfeAtomicSet 1), list := s.list ++ [t] } := by
  unfold cryptoRegister at h
  split at h
  · cases h
  · next ha =>
    split at h
    · cases h
    · next hf => exact ⟨by simpa using ha, hf, (Except.ok.inj h).symm⟩

/-- What `register` accepts is not in the list yet, for it was not found there. -/
theorem cryptoRegister_new {s s' : Registry T} {t : T} (h : cryptoRegister c t s = .ok s') : t ∉ s.list := by
  intro hmem
  have := findAlg_isSome c hmem
  rw [(cryptoRegister_ok c h).2.1] at this
  cases this

omit c in
/-- What a successful `unregister` of a crypto registry does. -/
theorem cryptoUnregister_ok {s s' : Registry T} {t : T} (h : cryptoUnregister t s = .ok s') :
    cfeAtomicGet (s.refcnt t) = 1 ∧ s' = { s with list := s.list.erase t } := by
  unfold cryptoUnregister at h
  split at h
  · cases h
  · next hg => exact ⟨not_not.mp hg, (Except.ok.inj h).symm⟩

/-- What a successful `register` of a format registry does. -/
theorem formatRegister_ok {s s' : Registry T} {t : T} (h : formatRegister version t s = .ok s') :
    (∀ u ∈ s.list, version u ≠ version t) ∧ s'.list = s.list ++ [t] ∧
      s'.refcnt = Function.update s.refcnt t (cfeAtomicSet 1) ∧
      ((s'.dflt = some t ∧ ∀ d, s.dflt = some d → version d < version t) ∨
        ∃ d, s.dflt = some d ∧ s'.dflt = some d ∧ ¬ version d < version t) := by
  unfold formatRegister at h
  split at h
  · cases h
  · next hf =>
    obtain rfl := Except.ok.inj h
    refine ⟨(formatFind_eq_none_iff version).mp hf, rfl, rfl, ?_⟩
    cases hd : s.dflt with
    | none => exact .inl ⟨rfl, fun d h => by cases h⟩
    | some d =>
      by_cases hlt : version d < version t
      · exact .inl ⟨if_pos hlt, fun d' h => by cases h; exact hlt⟩
      · exact .inr ⟨d, rfl, if_neg hlt, hlt⟩

/-- What a successful `unregister` of a format registry does. -/
theorem formatUnregister_ok {s s' : Registry T} {t : T} (h : formatUnregister t s = .ok s') :
    s.dflt ≠ some t ∧ cfeAtomicGet (s.refcnt t) = 1 ∧ s' = { s with list := s.list.erase t } := by
  unfold formatUnregister at h
  split at h
  · cases h
  · next hd =>
    split at h
    · cases h
    · next hg => exact ⟨hd, not_not.mp hg, (Except.ok.inj h).symm⟩

/-- The crypto registries are lawful: they have no default. -/
theorem cryptoApi_lawful {Q : Type} (asked : Q → CString) : (cryptoApi c asked).Lawful NoDefault where
  good_empty := rfl
  good_congr _ hd h := hd.trans h
  register_ok hs h := by
    have hnew := cryptoRegister_new c h
    obtain ⟨-, -, rfl⟩ := cryptoRegister_ok c h
    exact ⟨hs, hnew, rfl, rfl⟩
  unregister_ok hs h := by
    obtain ⟨hg, rfl⟩ := cryptoUnregister_ok h
    exact ⟨hs, hg, rfl, rfl⟩
  lookup_mem _ h := mem_of_findAlg c h

/-- The format registries are lawful: the default is in the list. -/
theorem formatApi_lawful : (formatApi version).Lawful DefaultListed where
  good_empty := fun d h => by cases h
  good_congr hl hd h d hd' := by
    rw [hl]
    exact h d (hd ▸ hd')
  register_ok hs h := by
    obtain ⟨hf, hl, hr, hd⟩ := formatRegister_ok version h
    refine ⟨?_, fun hmem => hf _ hmem rfl, hl, hr⟩
    intro d hd'
    rw [hl]
    rcases hd with ⟨hnew, -⟩ | ⟨d₀, hold, hkept, -⟩
    · rw [hnew] at hd'
      obtain rfl := Option.some.inj hd'
      simp
    · rw [hkept] at hd'
      obtain rfl := Option.some.inj hd'
      exact List.mem_append_left _ (hs _ hold)
  unregister_ok hs h := by
    obtain ⟨hne, hg, rfl⟩ := formatUnregister_ok h
    refine ⟨?_, hg, rfl, rfl⟩
    intro d hd
    exact (List.mem_erase_of_ne (fun hdt => hne (by rw [hd, hdt]))).mpr (hs d hd)
  lookup_mem hs h := by
    simp only [formatApi, formatLookup] at h
    split at h
    · exact hs _ h
    · exact (mem_of_formatFind version h).1

end LibCfe
