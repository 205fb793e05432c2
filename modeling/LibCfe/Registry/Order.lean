import LibCfe.Registry.Default
import LibCfe.Registry.Names

/-!
# The order of registration

Modules register their types in constructors, which run in no particular order. The
lists that this leaves are in different orders, and the default of a format registry is
found by comparing each new type with the default so far.

## What is proved

`registration_order` — from the empty registry, types with different keys are all
accepted in every order, and the registries that two orders leave answer every lookup
alike, have the same counters and the same default. A duplicate that is refused makes
no difference, wherever it comes after the type whose key it has.
-/

namespace LibCfe

open Theory

variable {T F : Type} [DecidableEq T]

/-! ### Keys -/

namespace Kind

/-- What a registry distinguishes its types by: a name, or a version. -/
def Key : Kind → Type
  | crypto _ => CString
  | format k => BitVec k.width

/-- The key of a type. -/
def key : (k : Kind) → k.Struct F → k.Key
  | crypto k, t => k.nameOf t
  | format k, t => k.version t

/-- What `register` demands of a type before it takes the lock. -/
def Valid : (k : Kind) → (T → k.Struct F) → T → Prop
  | crypto k, f, t => (k.toClass f).accepts t = true
  | format _, _, _ => True

/-- A search reads the key as it is: a name has to end inside its array. -/
def KeyEnds : (k : Kind) → k.Struct F → Prop
  | crypto k, t => k.Terminated t
  | format _, _ => True

/-- `find_alg`, `cfe_header_find` or `cfe_filewriter_find`. -/
def find : (k : Kind) → (T → k.Struct F) → k.Key → Registry T → Option T
  | crypto k, f, name, s => findAlg (k.toClass f) s name
  | format k, f, v, s => formatFind (fun t => k.version (f t)) s v

/-- The default is what it should be: none, or the newest type. -/
def DefaultRight : (k : Kind) → (T → k.Struct F) → Registry T → Prop
  | crypto _, _, s => NoDefault s
  | format k, f, s => DefaultInv (fun t => k.version (f t)) s

theorem register_crypto (k : CryptoKind) (f : T → k.Struct F) (t : T) (s : Registry T) :
    (Kind.api (.crypto k) f).register t s = cryptoRegister (k.toClass f) t s := by
  cases k <;> rfl

theorem register_format (k : FormatKind) (f : T → k.Struct F) (t : T) (s : Registry T) :
    (Kind.api (.format k) f).register t s = formatRegister (fun t => k.version (f t)) t s := by
  cases k <;> rfl

end Kind

/-! ### Registering one type after the other -/

/-- Calls of `register`: the `errno` of each that fails, and the registry. -/
def registerRun (k : Kind) (f : T → k.Struct F) (s : Registry T) : List T → List (Option Errno) × Registry T
  | [] => ([], s)
  | t :: l =>
    match (k.api f).register t s with
    | .ok s' => (none :: (registerRun k f s' l).1, (registerRun k f s' l).2)
    | .error e => (some e :: (registerRun k f s l).1, (registerRun k f s l).2)

/-- Two registries that no caller can tell apart. -/
structure SameLookups (k : Kind) (f : T → k.Struct F) (s s' : Registry T) : Prop where
  find : ∀ key, k.find f key s = k.find f key s'
  lookup : ∀ q, (k.api f).lookup q s = (k.api f).lookup q s'
  refcnt : s.refcnt = s'.refcnt
  dflt : s.dflt = s'.dflt

/-- What registering the types of `l`, in this order, leaves. -/
structure Registered (k : Kind) (f : T → k.Struct F) (l : List T) (s : Registry T) : Prop where
  list : s.list = l
  refcnt : ∀ t, s.refcnt t = if t ∈ l then cfeAtomicSet 1 else ⟨0⟩
  dflt : k.DefaultRight f s

variable {k : Kind} {f : T → k.Struct F} {s s' : Registry T} {l l' l₁ l₂ : List T}

theorem registerRun_append (l₁ l₂ : List T) : registerRun k f s (l₁ ++ l₂) =
    ((registerRun k f s l₁).1 ++ (registerRun k f (registerRun k f s l₁).2 l₂).1,
      (registerRun k f (registerRun k f s l₁).2 l₂).2) := by
  induction l₁ generalizing s with
  | nil => rfl
  | cons t l₁ ih =>
    simp only [List.cons_append, registerRun]
    cases (k.api f).register t s with
    | ok s' => simp only [ih, List.cons_append]
    | error e => simp only [ih, List.cons_append]

theorem registered_empty : Registered k f [] Registry.empty := by
  refine ⟨rfl, fun t => by simp [Registry.empty], ?_⟩
  cases k with
  | crypto k => rfl
  | format k => exact defaultInv_empty _

/-- One more type. -/
theorem Registered.snoc {t : T} (h : Registered k f l s) (hlist : s'.list = s.list ++ [t])
    (hrefcnt : s'.refcnt = Function.update s.refcnt t (cfeAtomicSet 1)) (hdflt : k.DefaultRight f s') :
    Registered k f (l ++ [t]) s' := by
  refine ⟨by rw [hlist, h.list], ?_, hdflt⟩
  intro u
  rw [hrefcnt]
  by_cases hut : u = t
  · subst hut
    simp
  · rw [Function.update_of_ne hut, h.refcnt]
    simp [hut]

/-- A type whose key is free is accepted. -/
theorem Registered.register {t : T} (h : Registered k f l s) (hvalid : k.Valid f t)
    (hfree : ∀ u ∈ l, k.key (f u) ≠ k.key (f t)) :
    ∃ s', (k.api f).register t s = .ok s' ∧ Registered k f (l ++ [t]) s' := by
  cases k with
  | crypto k =>
    have hfind : findAlg (k.toClass f) s ((k.toClass f).name s.refcnt t) = none := by
      rw [findAlg, List.find?_eq_none]
      intro u hu hname
      rw [beq_iff_eq, strcmp_eq_zero_iff] at hname
      exact hfree u (h.list ▸ hu) (CryptoKind.nameOf_of_name hname.symm)
    have hok : cryptoRegister (k.toClass f) t s =
        .ok { s with refcnt := Function.update s.refcnt t (cfeAtomicSet 1), list := s.list ++ [t] } := by
      simp only [cryptoRegister, hfind, show (k.toClass f).accepts t = true from hvalid]
      rfl
    exact ⟨_, (Kind.register_crypto k f t s).trans hok, h.snoc rfl rfl h.dflt⟩
  | format k =>
    have hfind : formatFind (fun t => k.version (f t)) s (k.version (f t)) = none := by
      rw [formatFind_eq_none_iff, h.list]
      exact hfree
    cases hok : formatRegister (fun t => k.version (f t)) t s with
    | error e =>
      simp only [formatRegister, hfind] at hok
      cases hok
    | ok s' =>
      obtain ⟨-, hlist, hrefcnt, -⟩ := formatRegister_ok _ hok
      exact ⟨s', (Kind.register_format k f t s).trans hok, h.snoc hlist hrefcnt (DefaultInv.register h.dflt hok)⟩

/-- So all of them are, when their keys differ. -/
theorem Registered.run (h : Registered k f l₁ s) (hvalid : ∀ t ∈ l₂, k.Valid f t)
    (hkeys : Keyed (fun t => k.key (f t)) (l₁ ++ l₂)) :
    (registerRun k f s l₂).1 = List.replicate l₂.length none ∧ Registered k f (l₁ ++ l₂) (registerRun k f s l₂).2 := by
  induction l₂ generalizing l₁ s with
  | nil => simpa [registerRun] using h
  | cons t l₂ ih =>
    have hfree : ∀ u ∈ l₁, k.key (f u) ≠ k.key (f t) := fun u hu =>
      (List.pairwise_append.mp hkeys).2.2 u hu t List.mem_cons_self
    obtain ⟨s', hok, hreg⟩ := h.register (hvalid t List.mem_cons_self) hfree
    rw [List.append_cons] at hkeys
    obtain ⟨hnone, hrest⟩ := ih hreg (fun u hu => hvalid u (List.mem_cons_of_mem _ hu)) hkeys
    simp only [registerRun, hok]
    refine ⟨?_, ?_⟩
    · rw [hnone]
      rfl
    · rw [List.append_cons]
      exact hrest

/-! ### Two orders -/

/-- There is one newest type. -/
theorem Newest.unique {w : ℕ} {version : T → BitVec w} {d d' : T} (h : Newest version s d) (h' : Newest version s' d')
    (hmem : ∀ t, t ∈ s.list ↔ t ∈ s'.list) : d = d' := by
  by_contra hne
  have hlt := h.2 d' ((hmem d').mpr h'.1) (Ne.symm hne)
  have hlt' := h'.2 d ((hmem d).mp h.1) hne
  omega

theorem DefaultInv.same {w : ℕ} {version : T → BitVec w} (h : DefaultInv version s) (h' : DefaultInv version s')
    (hperm : s.list.Perm s'.list) : s.dflt = s'.dflt := by
  cases hd : s.dflt with
  | none =>
    have hnil : s'.list = [] := by
      have hempty := h.empty_iff.mp hd
      rw [hempty] at hperm
      exact hperm.nil_eq.symm
    exact (h'.empty_iff.mpr hnil).symm
  | some d =>
    cases hd' : s'.dflt with
    | none =>
      have hnil : s.list = [] := by
        have hempty := h'.empty_iff.mp hd'
        rw [hempty] at hperm
        exact hperm.eq_nil
      rw [h.empty_iff.mpr hnil] at hd
      cases hd
    | some d' => rw [(h.newest d hd).unique (h'.newest d' hd') fun t => hperm.mem_iff]

/-- **The order does not matter** to the registry that it leaves. -/
theorem Registered.same (h : Registered k f l s) (h' : Registered k f l' s') (hperm : l.Perm l')
    (hkeys : Keyed (fun t => k.key (f t)) l) : SameLookups k f s s' := by
  have hlists : s.list.Perm s'.list := by
    rw [h.list, h'.list]
    exact hperm
  have hrefcnt : s.refcnt = s'.refcnt := by
    funext t
    simp only [h.refcnt, h'.refcnt, hperm.mem_iff]
  cases k with
  | crypto k =>
    have hfind : ∀ name, findAlg (k.toClass f) s name = findAlg (k.toClass f) s' name := by
      intro name
      have hkeyed : Keyed ((k.toClass f).name s.refcnt) s.list := by
        rw [h.list]
        exact CryptoKind.keyed_name hkeys s.refcnt
      simp only [findAlg, ← hrefcnt]
      apply hkeyed.find?_perm hlists
      intro t _
      rw [beq_iff_eq, strcmp_eq_zero_iff]
      exact eq_comm
    exact ⟨hfind, fun q => hfind (k.asked q), hrefcnt, h.dflt.trans (Eq.symm h'.dflt)⟩
  | format k =>
    have hfind : ∀ v, formatFind (fun t => k.version (f t)) s v = formatFind (fun t => k.version (f t)) s' v := by
      intro v
      have hkeyed : Keyed (fun t => k.version (f t)) s.list := by
        rw [h.list]
        exact hkeys
      apply hkeyed.find?_perm hlists
      intro t _
      exact beq_iff_eq
    have hdflt := DefaultInv.same h.dflt h'.dflt hlists
    refine ⟨hfind, ?_, hrefcnt, hdflt⟩
    intro v
    show formatLookup _ v s = formatLookup _ v s'
    simp only [formatLookup, hdflt, hfind]

/-- A registered type is found under its key. -/
theorem Registered.find_key (h : Registered k f l s) (hkeys : Keyed (fun t => k.key (f t)) l) {t : T} (ht : t ∈ l)
    (hends : k.KeyEnds (f t)) : k.find f (k.key (f t)) s = some t := by
  cases k with
  | crypto k =>
    have hdistinct : DistinctNames (k.toClass f) s := by
      rw [DistinctNames, h.list]
      exact CryptoKind.keyed_name hkeys s.refcnt
    have hfind := findAlg_name hdistinct (h.list.symm ▸ ht)
    rw [k.name_of_terminated f hends] at hfind
    exact hfind
  | format k =>
    have hkeyed : Keyed (fun t => k.version (f t)) s.list := by
      rw [h.list]
      exact hkeys
    apply (hkeyed.find?_eq_some_iff (k := k.version (f t)) _).mpr ⟨h.list.symm ▸ ht, rfl⟩
    intro u _
    exact beq_iff_eq

/-! ### A duplicate -/

/-- A crypto registry reads as the name of a duplicate what every other registry with the
type it duplicates reads. -/
theorem Registered.name_eq {k : CryptoKind} {f : T → k.Struct F} {all : List T} {d t : T}
    (hkeys : Keyed (fun t => (Kind.crypto k).key (f t)) all) (h : Registered (.crypto k) f l s)
    (h' : Registered (.crypto k) f l' s') (hsub : ∀ u ∈ l, u ∈ all) (hsub' : ∀ u ∈ l', u ∈ all) (ht : t ∈ l)
    (ht' : t ∈ l') (hdup : (Kind.crypto k).key (f d) = (Kind.crypto k).key (f t)) :
    (k.toClass f).name s.refcnt d = (k.toClass f).name s'.refcnt d := by
  apply CryptoKind.name_congr
  by_cases hdt : d = t
  · simp only [h.refcnt, h'.refcnt, hdt, ht, ht']
  · have hd : d ∉ l := fun hd => hdt (hkeys.inj (hsub d hd) (hsub t ht) hdup)
    have hd' : d ∉ l' := fun hd' => hdt (hkeys.inj (hsub' d hd') (hsub t ht) hdup)
    simp only [h.refcnt, h'.refcnt, hd, hd']

/-- A crypto registry refuses the duplicate, then, if another does. -/
theorem Registered.refuses_crypto {k : CryptoKind} {f : T → k.Struct F} {all : List T} {d t : T} {e : Errno}
    (hkeys : Keyed (fun t => (Kind.crypto k).key (f t)) all) (h : Registered (.crypto k) f l s)
    (h' : Registered (.crypto k) f l' s') (hsub : ∀ u ∈ l, u ∈ all) (hsub' : ∀ u ∈ l', u ∈ all) (ht : t ∈ l)
    (ht' : t ∈ l') (hdup : (Kind.crypto k).key (f d) = (Kind.crypto k).key (f t))
    (hrefused : cryptoRegister (k.toClass f) d s = .error e) : cryptoRegister (k.toClass f) d s' = .error e := by
  cases hacc : (k.toClass f).accepts d with
  | false =>
    simp only [cryptoRegister, hacc, Bool.not_false, if_true] at hrefused ⊢
    exact hrefused
  | true =>
    simp only [cryptoRegister, hacc, Bool.not_true, Bool.false_eq_true, if_false] at hrefused ⊢
    cases hfind : findAlg (k.toClass f) s ((k.toClass f).name s.refcnt d) with
    | none =>
      rw [hfind] at hrefused
      cases hrefused
    | some u =>
      have hu : u ∈ l := h.list ▸ mem_of_findAlg _ hfind
      have hname : (k.toClass f).name s.refcnt d = (k.toClass f).name s.refcnt u := by
        simpa using List.find?_some hfind
      obtain rfl : u = t := hkeys.inj (hsub u hu) (hsub t ht) ((CryptoKind.nameOf_of_name hname).symm.trans hdup)
      -- neither name is another in the other registry
      have hname' : (k.toClass f).name s'.refcnt d = (k.toClass f).name s'.refcnt u :=
        (h.name_eq hkeys h' hsub hsub' ht ht' hdup).symm.trans
          (hname.trans (h.name_eq hkeys h' hsub hsub' ht ht' rfl))
      have hsome := findAlg_isSome (k.toClass f) (h'.list.symm ▸ ht' : u ∈ s'.list)
      rw [← hname'] at hsome
      obtain ⟨v, hv⟩ := Option.isSome_iff_exists.mp hsome
      rw [hfind] at hrefused
      rw [hv]
      exact hrefused

/-- A format registry always does. -/
theorem Registered.refuses_format {k : FormatKind} {f : T → k.Struct F} {d t : T} (h : Registered (.format k) f l s)
    (ht : t ∈ l) (hdup : (Kind.format k).key (f d) = (Kind.format k).key (f t)) :
    formatRegister (fun t => k.version (f t)) d s = .error EBUSY := by
  cases hfind : formatFind (fun t => k.version (f t)) s (k.version (f d)) with
  | none =>
    have hfree := (formatFind_eq_none_iff _).mp hfind t (h.list.symm ▸ ht)
    exact absurd hdup.symm hfree
  | some u => simp only [formatRegister, hfind]

/-- A type with the key of a registered one is refused by every registry that the other
type is in, or by none. It need not be refused: a name that fills its array reads
differently once the type is registered. -/
theorem Registered.refuses {all : List T} {d t : T} {e : Errno} (hkeys : Keyed (fun t => k.key (f t)) all)
    (h : Registered k f l s) (h' : Registered k f l' s') (hsub : ∀ u ∈ l, u ∈ all) (hsub' : ∀ u ∈ l', u ∈ all)
    (ht : t ∈ l) (ht' : t ∈ l') (hdup : k.key (f d) = k.key (f t)) (hrefused : (k.api f).register d s = .error e) :
    (k.api f).register d s' = .error e := by
  cases k with
  | crypto k =>
    replace hrefused := (Kind.register_crypto k f d s).symm.trans hrefused
    exact (Kind.register_crypto k f d s').trans (h.refuses_crypto hkeys h' hsub hsub' ht ht' hdup hrefused)
  | format k =>
    replace hrefused := ((Kind.register_format k f d s).trans (h.refuses_format ht hdup)).symm.trans hrefused
    exact ((Kind.register_format k f d s').trans (h'.refuses_format ht' hdup)).trans hrefused

/-- A duplicate that is refused changes nothing for the types after it. -/
theorem registerRun_duplicate {d : T} {e : Errno} (hvalid : ∀ t ∈ l₁ ++ l₂, k.Valid f t)
    (hkeys : Keyed (fun t => k.key (f t)) (l₁ ++ l₂))
    (hrefused : (k.api f).register d (registerRun k f .empty l₁).2 = .error e) :
    registerRun k f .empty (l₁ ++ d :: l₂) =
      (List.replicate l₁.length none ++ some e :: List.replicate l₂.length none,
        (registerRun k f .empty (l₁ ++ l₂)).2) := by
  have hvalid₁ : ∀ t ∈ l₁, k.Valid f t := fun t ht => hvalid t (List.mem_append_left _ ht)
  have hvalid₂ : ∀ t ∈ l₂, k.Valid f t := fun t ht => hvalid t (List.mem_append_right _ ht)
  obtain ⟨hnone₁, hreg₁⟩ := registered_empty.run hvalid₁ (List.pairwise_append.mp hkeys).1
  obtain ⟨hnone₂, -⟩ := hreg₁.run hvalid₂ hkeys
  rw [registerRun_append, registerRun_append]
  simp only [registerRun, hrefused, hnone₁, hnone₂]

/-- **The order of registration does not matter**, in any of the six registries. Valid
types with different keys are all accepted in every order, and what two orders leave
answers every lookup alike, with the same counters and the same default; in each of
them a type is found under its key. And a duplicate that is refused when it comes
somewhere after the type whose key it has is refused anywhere after it, in any order,
and changes nothing. -/
theorem registration_order (hperm : l.Perm l') (hvalid : ∀ t ∈ l, k.Valid f t)
    (hkeys : Keyed (fun t => k.key (f t)) l) :
    (registerRun k f .empty l).1 = List.replicate l.length none ∧
    (registerRun k f .empty l').1 = List.replicate l'.length none ∧
    SameLookups k f (registerRun k f .empty l).2 (registerRun k f .empty l').2 ∧
    (∀ t ∈ l, k.KeyEnds (f t) → k.find f (k.key (f t)) (registerRun k f .empty l).2 = some t) ∧
    ∀ d t e l₁ l₂ l₁' l₂', l = l₁ ++ l₂ → l' = l₁' ++ l₂' → t ∈ l₁ → t ∈ l₁' → k.key (f d) = k.key (f t) →
      (k.api f).register d (registerRun k f .empty l₁).2 = .error e →
      registerRun k f .empty (l₁ ++ d :: l₂) =
        (List.replicate l₁.length none ++ some e :: List.replicate l₂.length none, (registerRun k f .empty l).2) ∧
      registerRun k f .empty (l₁' ++ d :: l₂') =
        (List.replicate l₁'.length none ++ some e :: List.replicate l₂'.length none,
          (registerRun k f .empty l').2) := by
  have hvalid' : ∀ t ∈ l', k.Valid f t := fun t ht => hvalid t (hperm.mem_iff.mpr ht)
  have hkeys' := hkeys.perm hperm
  obtain ⟨hnone, hreg⟩ := registered_empty.run hvalid hkeys
  obtain ⟨hnone', hreg'⟩ := registered_empty.run hvalid' hkeys'
  refine ⟨hnone, hnone', hreg.same hreg' hperm hkeys, fun t ht => hreg.find_key hkeys ht, ?_⟩
  rintro d t e l₁ l₂ l₁' l₂' rfl rfl ht ht' hdup hrefused
  refine ⟨registerRun_duplicate hvalid hkeys hrefused, registerRun_duplicate hvalid' hkeys' ?_⟩
  obtain ⟨-, hreg₁⟩ := registered_empty.run (fun t ht => hvalid t (List.mem_append_left _ ht))
    (List.pairwise_append.mp hkeys).1
  obtain ⟨-, hreg₁'⟩ := registered_empty.run (fun t ht => hvalid' t (List.mem_append_left _ ht))
    (List.pairwise_append.mp hkeys').1
  apply Registered.refuses hkeys hreg₁ hreg₁' _ _ ht ht' hdup hrefused
  · intro u hu
    exact List.mem_append_left _ hu
  · intro u hu
    exact hperm.mem_iff.mpr (List.mem_append_left _ hu)

/-- Two versions of headers. -/
theorem registration_order_two_headers :
    SameLookups (.format .header) twoHeaders (registerRun (.format .header) twoHeaders .empty [false, true]).2
      (registerRun (.format .header) twoHeaders .empty [true, false]).2 := by
  have hkeys : Keyed (fun t => Kind.key (.format .header) (twoHeaders t)) [false, true] := by
    refine List.pairwise_pair.mpr ?_
    show (1 : BitVec 16) ≠ 2
    decide
  exact (registration_order (k := .format .header) (f := twoHeaders) (List.Perm.swap true false [])
    (fun _ _ => trivial) hkeys).2.2.1

end LibCfe
