import LibCfe.Registry.Concurrent
import LibCfe.Theory.Keyed

/-!
# Finding a type by its name

`register` refuses a name that is registered, so the names in a registry differ, and
looking for the name of a registered type finds that type. In the registries of
ciphers and hashes a name does not run on into the counter, so a name stays what it
was when it was registered.

Whatever the counters are, types that differ in the name field itself have different
names, and the name of a type depends on no counter but its own.
-/

namespace LibCfe

open Theory

variable {Tid T F : Type} [DecidableEq Tid] [DecidableEq T]

/-- No two registered types have one name. -/
def DistinctNames (c : CryptoClass T) (s : Registry T) : Prop :=
  Keyed (c.name s.refcnt) s.list

/-- The names do not run on into the counters. -/
def CryptoClass.Fixed (c : CryptoClass T) : Prop := ∀ r r' t, c.name r t = c.name r' t

omit [DecidableEq T] in
theorem cipherClass_fixed (f : T → CfeCipherType F) : (cipherClass f).Fixed := fun _ _ _ => rfl

omit [DecidableEq T] in
theorem hashClass_fixed (f : T → CfeHashType F) : (hashClass f).Fixed := fun _ _ _ => rfl

omit [DecidableEq T] in
theorem DistinctNames.congr {c : CryptoClass T} (hc : c.Fixed) {s : Registry T} (h : DistinctNames c s) (s' : Registry T)
    (hl : s'.list.Sublist s.list) : DistinctNames c s' := by
  have hsub := List.Pairwise.sublist hl h
  apply hsub.imp
  intro t u hne
  rw [hc s'.refcnt s.refcnt t, hc s'.refcnt s.refcnt u]
  exact hne

omit [DecidableEq T] in
/-- Looking for the name of a registered type finds the type. -/
theorem findAlg_name {c : CryptoClass T} {s : Registry T} (h : DistinctNames c s) {t : T} (ht : t ∈ s.list) :
    findAlg c s (c.name s.refcnt t) = some t := by
  apply (h.find?_eq_some_iff (k := c.name s.refcnt t) _).mpr ⟨ht, rfl⟩
  intro u _
  rw [beq_iff_eq, strcmp_eq_zero_iff]
  exact eq_comm

/-! ### Names and name fields -/

/-- What a string that starts in an array has of the array. -/
theorem CString.ofMem_inj_append {mem mem' rest rest' : List UInt8} (hlen : mem.length = mem'.length)
    (h : ofMem (mem ++ rest) = ofMem (mem' ++ rest')) : ofMem mem = ofMem mem' := by
  have htake : ∀ l r : List UInt8, (ofMem (l ++ r)).chars.take l.length = (ofMem l).chars := by
    intro l r
    simp only [ofMem, List.take_takeWhile, List.take_left']
  ext1
  rw [← htake mem rest, ← htake mem' rest', h, hlen]

namespace CryptoKind

variable {k : CryptoKind} {f : T → k.Struct F}

omit [DecidableEq T] in
/-- Types of one name, whatever the counters, have one name field. -/
theorem nameOf_of_name {r r' : T → CfeAtomic} {t u : T} (h : (k.toClass f).name r t = (k.toClass f).name r' u) :
    k.nameOf (f t) = k.nameOf (f u) := by
  cases k with
  | cipher => exact CString.ofMem_inj_append (by simp) h
  | hash => exact h
  | pbkdf => exact CString.ofMem_inj_append (by simp) h
  | rand => exact h

omit [DecidableEq T] in
/-- Only the counter of the type itself matters. -/
theorem name_congr {r r' : T → CfeAtomic} {t : T} (h : r t = r' t) :
    (k.toClass f).name r t = (k.toClass f).name r' t := by
  cases k with
  | cipher => rfl
  | hash => rfl
  | pbkdf =>
    simp only [toClass, pbkdfClass, h]
  | rand => rfl

omit [DecidableEq T] in
/-- Types with different name fields have different names. -/
theorem keyed_name {l : List T} (h : Keyed (fun t => k.nameOf (f t)) l) (r : T → CfeAtomic) :
    Keyed ((k.toClass f).name r) l :=
  h.imp fun hne hname => hne (nameOf_of_name hname)

end CryptoKind

/-! ### Runs -/

variable [Fintype Tid]

omit [DecidableEq Tid] in
/-- Every effect keeps the names distinct. -/
theorem DistinctNames.effect {k : CryptoKind} {f : T → k.Struct F} (hc : (k.toClass f).Fixed) {s s' : Shared Tid T}
    (h : DistinctNames (k.toClass f) s.registry) (he : Effect (k.api f) s s') :
    DistinctNames (k.toClass f) s'.registry := by
  rw [k.api_eq] at he
  cases he with
  | stay hr => rw [hr]; exact h
  | register t hr =>
    obtain ⟨-, hfind, hs'⟩ := cryptoRegister_ok _ hr
    rw [hs']
    apply List.pairwise_append.mpr
    refine ⟨h.congr hc { s.registry with refcnt := _ } (List.Sublist.refl _), List.pairwise_singleton _ t, ?_⟩
    intro u hu v hv
    obtain rfl := List.mem_singleton.mp hv
    have hnot := List.find?_eq_none.mp hfind u hu
    intro hname
    have hold : (k.toClass f).name s.registry.refcnt v = (k.toClass f).name s.registry.refcnt u := by
      rw [hc s.registry.refcnt (Function.update s.registry.refcnt v (cfeAtomicSet 1)) v,
        hc s.registry.refcnt (Function.update s.registry.refcnt v (cfeAtomicSet 1)) u]
      exact hname.symm
    apply hnot
    simp [hold]
  | unregister t hr =>
    obtain ⟨-, hs'⟩ := cryptoUnregister_ok hr
    rw [hs']
    exact h.congr hc _ List.erase_sublist
  | take q t _ hr =>
    rw [hr]
    exact h.congr hc _ (List.Sublist.refl _)
  | drop t hr =>
    rw [hr]
    exact h.congr hc _ (List.Sublist.refl _)

/-- **The names in a registry of ciphers or hashes differ**, in every state that any
threads reach. -/
theorem distinctNames_of_reachable {k : CryptoKind} {f : T → k.Struct F} (hc : (k.toClass f).Fixed)
    {s : Shared Tid T} (h : (regSystem Tid (.crypto k) f).Reachable System.Free s) :
    DistinctNames (k.toClass f) s.registry := by
  apply h.invariant (I := fun s => DistinctNames (k.toClass f) s.registry)
  · exact List.Pairwise.nil
  · intro s a s' ih hst _
    exact ih.effect hc (regStep_effect hst)

end LibCfe
