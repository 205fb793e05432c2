import LibCfe.Registry.Names

/-!
# Names that fill their array

The name of a cipher or a key derivation stands in an array of 16 bytes, and `strcmp`
reads on behind it until it finds a zero byte. A name of 16 characters has none, so the
string goes on with the field behind the array: the `flags` of a cipher, which are what
the module set, or the counter of a key derivation, which `register` sets to 1.

## What is proved

* `findAlg_plain` — a registered type whose string is just the characters of its name is
  found under them, in every state that any threads reach.
* `cryptoRegister_plain` — and another such type with the same characters is refused.
* `nameKept_iff` — what is needed for a type to be found and to stay the only one, in
  every reachable state: that its name ends in its array, or that the byte behind the
  array is zero and is so for every type with the same characters.
-/

namespace LibCfe

open Theory

variable {Tid T F : Type} [DecidableEq Tid] [DecidableEq T]

/-! ### Strings that run on -/

namespace CString

/-- Without a NUL in the array the string goes on behind it. -/
theorem ofMem_append_of_not_mem {mem : List UInt8} (h : 0 ∉ mem) (rest : List UInt8) :
    (ofMem (mem ++ rest)).chars = mem ++ (ofMem rest).chars := by
  apply List.takeWhile_append_of_pos
  intro b hb
  rw [bne_iff_ne]
  exact fun hb0 => h (hb0 ▸ hb)

theorem ofMem_of_not_mem {mem : List UInt8} (h : 0 ∉ mem) : (ofMem mem).chars = mem := by
  have happ := ofMem_append_of_not_mem h []
  rwa [List.append_nil, show (ofMem []).chars = [] from rfl, List.append_nil] at happ

/-- A zero byte behind the array ends the string there. -/
theorem ofMem_append_zero (mem rest : List UInt8) : ofMem (mem ++ 0 :: rest) = ofMem mem := by
  by_cases h : 0 ∈ mem
  · exact ofMem_append h _
  · ext1
    rw [ofMem_append_of_not_mem h, ofMem_of_not_mem h]
    exact List.append_nil mem

/-- Any other byte does not. -/
theorem ofMem_append_ne {mem : List UInt8} (h : 0 ∉ mem) {b : UInt8} (hb : b ≠ 0) (rest : List UInt8) :
    mem.length < (ofMem (mem ++ b :: rest)).chars.length := by
  rw [ofMem_append_of_not_mem h, List.length_append]
  have hhead : (ofMem (b :: rest)).chars = b :: (ofMem rest).chars := by
    simp only [ofMem]
    rw [List.takeWhile_cons_of_pos (by simpa using hb)]
  rw [hhead, List.length_cons]
  omega

/-- The characters of an array fill it just when it has no NUL. -/
theorem length_ofMem (mem : List UInt8) : (ofMem mem).chars.length ≤ mem.length :=
  (List.takeWhile_prefix _).length_le

theorem length_ofMem_eq_iff {mem : List UInt8} : (ofMem mem).chars.length = mem.length ↔ 0 ∉ mem := by
  constructor
  · intro hlen h0
    have heq : (ofMem mem).chars = mem := (List.takeWhile_prefix _).eq_of_length hlen
    exact (ofMem mem).noNul (heq.symm ▸ h0)
  · intro h0
    rw [ofMem_of_not_mem h0]

end CString

/-- The bytes of a number start with the lowest. -/
theorem leBytes_succ (n v : ℕ) : ∃ rest, leBytes (n + 1) v = UInt8.ofNat v :: rest := by
  rw [leBytes, List.range_succ_eq_map, List.map_cons, Nat.pow_zero, Nat.div_one]
  exact ⟨_, rfl⟩

theorem uint8_ofNat_eq_zero_iff {v : ℕ} : UInt8.ofNat v = 0 ↔ v % 256 = 0 := by
  rw [← UInt8.toNat_inj, UInt8.toNat_ofNat']
  rfl

/-! ### Plain names -/

namespace CryptoKind

/-- The byte behind the array of the name is zero as long as the type is registered: the
lowest of the `flags` of a cipher is. That of the counter of a key derivation is 1 when
the type has just been registered. -/
def ZeroBehind : (k : CryptoKind) → k.Struct F → Prop
  | cipher, t => t.flags.toNat % 256 = 0
  | hash, _ => True
  | pbkdf, _ => False
  | rand, _ => True

/-- The string at `type->name` is just the characters of the name. -/
def Plain (k : CryptoKind) (t : k.Struct F) : Prop := k.Terminated t ∨ k.ZeroBehind t

variable {k : CryptoKind} {f : T → k.Struct F}

omit [DecidableEq T] in
theorem name_of_plain {t : T} (h : k.Plain (f t)) (refcnt : T → CfeAtomic) :
    (k.toClass f).name refcnt t = k.nameOf (f t) := by
  rcases h with h | h
  · exact k.name_of_terminated f h refcnt
  · cases k with
    | cipher =>
      obtain ⟨rest, hrest⟩ := leBytes_succ 3 (f t).flags.toNat
      simp only [toClass, cipherClass, nameOf]
      rw [hrest, uint8_ofNat_eq_zero_iff.mpr h]
      exact CString.ofMem_append_zero _ _
    | hash => rfl
    | pbkdf => cases h
    | rand => rfl

omit [DecidableEq T] in
/-- A name that is not plain runs on, whatever is behind it. -/
theorem name_of_not_plain {u : T} (h : ¬ k.Plain (f u)) {refcnt : T → CfeAtomic}
    (hone : k = pbkdf → (refcnt u).counter = 1) (t : T) : (k.toClass f).name refcnt u ≠ k.nameOf (f t) := by
  obtain ⟨hterm, hzero⟩ := not_or.mp h
  intro heq
  have hlen : ((k.toClass f).name refcnt u).chars.length = (k.nameOf (f t)).chars.length := by rw [heq]
  cases k with
  | cipher =>
    obtain ⟨rest, hrest⟩ := leBytes_succ 3 (f u).flags.toNat
    have hlong := CString.ofMem_append_ne (show 0 ∉ (f u).name.toList from hterm)
      (fun h0 => hzero (uint8_ofNat_eq_zero_iff.mp h0)) (rest ++ leBytes 4 0)
    have hshort := CString.length_ofMem (f t).name.toList
    simp only [toClass, cipherClass, nameOf, hrest, List.cons_append] at hlen
    rw [List.Vector.toList_length] at hlong hshort
    omega
  | hash => exact hzero trivial
  | pbkdf =>
    obtain ⟨rest, hrest⟩ := leBytes_succ 7 (refcnt u).counter.toNat
    have hlow : UInt8.ofNat (refcnt u).counter.toNat ≠ 0 := by
      rw [hone rfl]
      decide
    have hlong := CString.ofMem_append_ne (show 0 ∉ (f u).name.toList from hterm) hlow rest
    have hshort := CString.length_ofMem (f t).name.toList
    simp only [toClass, pbkdfClass, nameOf, hrest] at hlen
    rw [List.Vector.toList_length] at hlong hshort
    omega
  | rand => exact hzero trivial

omit [DecidableEq T] in
/-- A type that ends in its array shares its characters with no type that does not. -/
theorem terminated_of_nameOf {t u : T} (h : k.Terminated (f t)) (heq : k.nameOf (f u) = k.nameOf (f t)) :
    k.Terminated (f u) := by
  have harray : ∀ v w : List.Vector UInt8 16, 0 ∈ v.toList → CString.ofMem w.toList = CString.ofMem v.toList →
      0 ∈ w.toList := by
    intro v w hv hvw
    by_contra hw
    have hlen := CString.length_ofMem_eq_iff.mpr hw
    rw [hvw, List.Vector.toList_length] at hlen
    exact CString.length_ofMem_eq_iff.mp (hlen.trans (List.Vector.toList_length v).symm) hv
  cases k with
  | cipher => exact harray _ _ h heq
  | hash => trivial
  | pbkdf => exact harray _ _ h heq
  | rand => trivial

omit [DecidableEq T] in
/-- What is found under the characters of a plain name is plain. -/
theorem plain_of_name {t u : T} {refcnt : T → CfeAtomic} (h : k.Plain (f t))
    (heq : (k.toClass f).name refcnt u = k.nameOf (f t)) : k.Plain (f u) := by
  have hname : k.nameOf (f u) = k.nameOf (f t) := by
    rw [← name_of_plain h refcnt] at heq
    exact nameOf_of_name heq
  by_contra hnot
  rcases h with h | h
  · exact hnot (.inl (terminated_of_nameOf h hname))
  · cases k with
    | pbkdf => exact h
    | cipher => exact name_of_not_plain hnot (fun hk => by cases hk) t heq
    | hash => exact name_of_not_plain hnot (fun hk => by cases hk) t heq
    | rand => exact name_of_not_plain hnot (fun hk => by cases hk) t heq

end CryptoKind

/-! ### Registered types -/

/-- What `register` does with a type that it does not refuse for its fields. -/
theorem cryptoRegister_busy_iff {c : CryptoClass T} {s : Registry T} {t : T} (h : c.accepts t = true) :
    cryptoRegister c t s = .error EBUSY ↔ (findAlg c s (c.name s.refcnt t)).isSome := by
  unfold cryptoRegister
  rw [if_neg (by simp [h])]
  cases findAlg c s (c.name s.refcnt t) <;> simp

/-- Registered types with plain names differ in the characters. -/
def PlainNamesDiffer (k : CryptoKind) (f : T → k.Struct F) (s : Registry T) : Prop :=
  ∀ t ∈ s.list, ∀ u ∈ s.list, k.Plain (f t) → k.Plain (f u) → k.nameOf (f t) = k.nameOf (f u) → t = u

section

variable {k : CryptoKind} {f : T → k.Struct F}

omit [DecidableEq T] in
theorem PlainNamesDiffer.subset {s s' : Registry T} (h : PlainNamesDiffer k f s) (hl : ∀ t ∈ s'.list, t ∈ s.list) :
    PlainNamesDiffer k f s' :=
  fun t ht u hu => h t (hl t ht) u (hl u hu)

/-- A type is only registered when its string was not found. -/
theorem PlainNamesDiffer.register {s s' : Registry T} {t : T} (h : PlainNamesDiffer k f s)
    (hr : cryptoRegister (k.toClass f) t s = .ok s') : PlainNamesDiffer k f s' := by
  obtain ⟨-, hfind, rfl⟩ := cryptoRegister_ok _ hr
  have hnew : ∀ u ∈ s.list, k.Plain (f u) → k.Plain (f t) → k.nameOf (f u) ≠ k.nameOf (f t) := by
    intro u hu hpu hpt heq
    apply List.find?_eq_none.mp hfind u hu
    rw [CryptoKind.name_of_plain hpu, CryptoKind.name_of_plain hpt, heq]
    simp
  intro u hu v hv hpu hpv heq
  rcases List.mem_append.mp hu with hold | hnewu <;> rcases List.mem_append.mp hv with hold' | hnewv
  · exact h u hold v hold' hpu hpv heq
  · obtain rfl := List.mem_singleton.mp hnewv
    exact absurd heq (hnew u hold hpu hpv)
  · obtain rfl := List.mem_singleton.mp hnewu
    exact absurd heq.symm (hnew v hold' hpv hpu)
  · rw [List.mem_singleton.mp hnewu, List.mem_singleton.mp hnewv]

variable [Fintype Tid]

/-- In every state that any threads reach. -/
theorem plainNamesDiffer_of_reachable {s : Shared Tid T}
    (h : (regSystem Tid (.crypto k) f).Reachable System.Free s) : PlainNamesDiffer k f s.registry := by
  apply h.invariant (I := fun s => PlainNamesDiffer k f s.registry)
  · intro t ht
    cases ht
  · intro s a s' ih hst _
    have he : Effect (k.api f) s s' := regStep_effect hst
    rw [k.api_eq] at he
    cases he with
    | stay hr => rw [hr]; exact ih
    | register t hr => exact ih.register hr
    | unregister t hr =>
      obtain ⟨-, hs'⟩ := cryptoUnregister_ok hr
      rw [hs']
      exact ih.subset fun u hu => List.mem_of_mem_erase hu
    | take q t _ hr =>
      rw [hr]
      exact ih.subset fun u hu => hu
    | drop t hr =>
      rw [hr]
      exact ih.subset fun u hu => hu

end

omit [DecidableEq T] in
/-- **A registered type with a plain name is found under its characters.** -/
theorem findAlg_plain {k : CryptoKind} {f : T → k.Struct F} {s : Registry T} (h : PlainNamesDiffer k f s) {t : T}
    (ht : t ∈ s.list) (hp : k.Plain (f t)) : findAlg (k.toClass f) s (k.nameOf (f t)) = some t := by
  have hsome := findAlg_isSome (k.toClass f) ht
  rw [CryptoKind.name_of_plain hp] at hsome
  obtain ⟨u, hu⟩ := Option.isSome_iff_exists.mp hsome
  have hname : (k.toClass f).name s.refcnt u = k.nameOf (f t) := by
    have hcmp := List.find?_some hu
    rw [beq_iff_eq, strcmp_eq_zero_iff] at hcmp
    exact hcmp.symm
  have hpu := CryptoKind.plain_of_name hp hname
  rw [CryptoKind.name_of_plain hpu] at hname
  rw [hu, h u (mem_of_findAlg _ hu) t ht hpu hp hname]

/-- Another type with a plain name and the same characters is refused. -/
theorem cryptoRegister_plain {k : CryptoKind} {f : T → k.Struct F} {s : Registry T} {t u : T} (ht : t ∈ s.list)
    (hp : k.Plain (f t)) (hu : (k.toClass f).accepts u = true) (hpu : k.Plain (f u))
    (heq : k.nameOf (f u) = k.nameOf (f t)) : cryptoRegister (k.toClass f) u s = .error EBUSY := by
  rw [cryptoRegister_busy_iff hu, CryptoKind.name_of_plain hpu, heq, ← CryptoKind.name_of_plain hp s.refcnt]
  exact findAlg_isSome _ ht

/-! ### Who is found, and stays alone -/

/-- Whatever the threads do while `t` is registered: a lookup with the characters of its
name returns it, and `register` refuses another type with these characters, unless it
refuses its fields. -/
def NameKept (Tid : Type) [DecidableEq Tid] (k : CryptoKind) (f : T → k.Struct F) (t : T) : Prop :=
  ∀ s : Shared Tid T, (regSystem Tid (.crypto k) f).Reachable System.Free s → t ∈ s.registry.list →
    findAlg (k.toClass f) s.registry (k.nameOf (f t)) = some t ∧
    ∀ u, u ≠ t → (k.toClass f).accepts u = true → k.nameOf (f u) = k.nameOf (f t) →
      k.register f u s.registry = .error EBUSY

/-- A registry with one type in it. -/
def Registry.only (t : T) : Registry T := ⟨[t], none, Function.update (fun _ => ⟨0⟩) t (cfeAtomicSet 1)⟩

omit [DecidableEq T] in
theorem CryptoKind.register_eq [DecidableEq T] (k : CryptoKind) (f : T → k.Struct F) :
    k.register f = cryptoRegister (k.toClass f) := by
  cases k <;> rfl

/-- The first type is registered unless its fields are refused. -/
theorem reachable_only [Inhabited Tid] {k : CryptoKind} {f : T → k.Struct F} {t : T}
    (h : (k.toClass f).accepts t = true) :
    (regSystem Tid (.crypto k) f).Reachable System.Free ⟨Registry.only t, fun _ => {}⟩ := by
  refine ⟨[(default, .register t)], .step .refl ?_ trivial⟩
  have hok : k.register f t Registry.empty = .ok (Registry.only t) := by
    rw [k.register_eq, cryptoRegister, if_neg (by simp [h])]
    rfl
  show regStep (.crypto k) f ⟨Registry.empty, fun _ => {}⟩ (default, .register t) = _
  simp only [regStep, ↓reduceIte]
  rw [show ((Kind.crypto k).api f).register t Registry.empty = .ok (Registry.only t) from hok]
  rfl

variable [Fintype Tid]

/-- **When a type is found under its characters, and no other with these is registered.** -/
theorem nameKept_iff [Inhabited Tid] {k : CryptoKind} {f : T → k.Struct F} {t : T}
    (ht : (k.toClass f).accepts t = true) :
    NameKept Tid k f t ↔
      k.Terminated (f t) ∨
        (k.ZeroBehind (f t) ∧
          ∀ u, (k.toClass f).accepts u = true → k.nameOf (f u) = k.nameOf (f t) → k.ZeroBehind (f u)) := by
  constructor
  · intro h
    obtain ⟨hfind, hbusy⟩ := h ⟨Registry.only t, fun _ => {}⟩ (reachable_only ht) List.mem_cons_self
    have hone : ((Registry.only t).refcnt t).counter = 1 := by
      simp [Registry.only, cfeAtomicSet]
    have hname : (k.toClass f).name (Registry.only t).refcnt t = k.nameOf (f t) := by
      have hcmp := List.find?_some hfind
      rw [beq_iff_eq, strcmp_eq_zero_iff] at hcmp
      exact hcmp.symm
    have hplain : k.Plain (f t) := by
      by_contra hnot
      exact CryptoKind.name_of_not_plain hnot (fun _ => hone) t hname
    by_cases hterm : k.Terminated (f t)
    · exact .inl hterm
    · have hzero := hplain.resolve_left hterm
      refine .inr ⟨hzero, ?_⟩
      intro u hu heq
      by_cases hut : u = t
      · rw [hut]
        exact hzero
      · -- `u` is refused for its own string, so `t` has the same
        have hfound := hbusy u hut hu heq
        rw [k.register_eq, cryptoRegister_busy_iff hu] at hfound
        obtain ⟨v, hv⟩ := Option.isSome_iff_exists.mp hfound
        obtain rfl : v = t := List.mem_singleton.mp (mem_of_findAlg _ hv)
        have hcmp := List.find?_some hv
        rw [beq_iff_eq, strcmp_eq_zero_iff, hname] at hcmp
        have hpu : k.Plain (f u) := CryptoKind.plain_of_name hplain hcmp
        exact hpu.resolve_left fun hut' => hterm (CryptoKind.terminated_of_nameOf hut' heq.symm)
  · intro h s hs hmem
    have hplain : k.Plain (f t) := h.imp id And.left
    have hdiffer := plainNamesDiffer_of_reachable hs
    refine ⟨findAlg_plain hdiffer hmem hplain, ?_⟩
    intro u _ hu heq
    rw [k.register_eq]
    apply cryptoRegister_plain hmem hplain hu _ heq
    rcases h with h | h
    · exact .inl (CryptoKind.terminated_of_nameOf h heq)
    · exact .inr (h.2 u hu heq)

/-- The 16 characters `pbkdf-sha512/256`. -/
def pbkdfSha512_256 : List.Vector UInt8 16 :=
  ⟨[0x70, 0x62, 0x6b, 0x64, 0x66, 0x2d, 0x73, 0x68, 0x61, 0x35, 0x31, 0x32, 0x2f, 0x32, 0x35, 0x36], rfl⟩

/-- A key derivation of that name. -/
def fullPbkdf : Unit → CryptoKind.Struct Unit .pbkdf := fun _ => ⟨pbkdfSha512_256, some ()⟩

/-- It does not end in its array, and the counter behind is not zero. -/
theorem nameKept_iff_fullPbkdf :
    (CryptoKind.toClass .pbkdf fullPbkdf).accepts () = true ∧
      (NameKept Unit .pbkdf fullPbkdf () ↔
        CryptoKind.Terminated .pbkdf (fullPbkdf ()) ∨
          (CryptoKind.ZeroBehind .pbkdf (fullPbkdf ()) ∧
            ∀ u, (CryptoKind.toClass .pbkdf fullPbkdf).accepts u = true →
              CryptoKind.nameOf .pbkdf (fullPbkdf u) = CryptoKind.nameOf .pbkdf (fullPbkdf ()) →
              CryptoKind.ZeroBehind .pbkdf (fullPbkdf u))) :=
  ⟨rfl, nameKept_iff rfl⟩

/-- So it is registered and not found. -/
theorem nameKept_fails :
    ¬ ∀ (k : CryptoKind) (f : Unit → k.Struct Unit) (t : Unit), (k.toClass f).accepts t = true →
      NameKept Unit k f t := by
  intro h
  have hkept := h .pbkdf fullPbkdf () rfl
  obtain ⟨hfind, -⟩ := hkept ⟨Registry.only (), fun _ => {}⟩ (reachable_only rfl) List.mem_cons_self
  revert hfind
  decide

end LibCfe
