import LibCfe.Registry.Concurrent

/-!
# How busy a type can be

A reference counter is a `long`, but `unregister` reads it through `cfe_atomic_get`,
which returns an `int`. So it sees the number of references modulo `2 ^ 32`: with
that many of them outstanding it reads `1`, as if there were none, and takes the
type out.

## What is proved

`unregister_busy_exact` — while no such call is made, and fewer than `2 ^ 63 - 1`
references are outstanding, `unregister` of a type that is in use fails just when the
type is the default or the number of references is not a multiple of `2 ^ 32`.
-/

namespace LibCfe

open Theory

variable {Tid T F : Type} [DecidableEq Tid] [DecidableEq T]

/-! ### What `unregister` looks at -/

/-- `cfe_atomic_get` sees the counter modulo `2 ^ 32`. -/
theorem cfeAtomicGet_eq_one_iff_mod (v : CfeAtomic) : cfeAtomicGet v = 1 ↔ v.val % 2 ^ 32 = 1 := by
  have h1 : (1 : BitVec 32).toNat = 1 := rfl
  simp only [CfeAtomic.val, cfeAtomicGet]
  rw [← BitVec.toNat_inj, BitVec.toNat_setWidth, h1]

/-- `unregister` fails when the type is the default or the counter is not read as `1`,
and otherwise takes the type out. -/
theorem Kind.unregister_eq (k : Kind) (f : T → k.Struct F) {s : Registry T} (hg : k.Good s) (t : T) :
    (k.api f).unregister t s = if s.dflt = some t ∨ cfeAtomicGet (s.refcnt t) ≠ 1 then .error EBUSY
      else .ok { s with list := s.list.erase t } := by
  have hformat : formatUnregister t s = if s.dflt = some t ∨ cfeAtomicGet (s.refcnt t) ≠ 1 then .error EBUSY
      else .ok { s with list := s.list.erase t } := by
    unfold formatUnregister
    by_cases hd : s.dflt = some t
    · rw [if_pos hd, if_pos (.inl hd)]
    · simp only [hd, if_false, false_or]
  have hcrypto : s.dflt = none → cryptoUnregister t s =
      if s.dflt = some t ∨ cfeAtomicGet (s.refcnt t) ≠ 1 then .error EBUSY
      else .ok { s with list := s.list.erase t } := by
    intro hd
    simp only [cryptoUnregister, hd, reduceCtorEq, false_or]
  cases k with
  | crypto k => cases k <;> exact hcrypto hg
  | format k => cases k <;> exact hformat

/-! ### The only step that takes a type out -/

/-- **Only `unregister` of a type takes it out.** -/
theorem regStep_removes {k : Kind} {f : T → k.Struct F} {s s' : Shared Tid T} {i : Tid} {a : RegAction T k.Query}
    (h : regStep k f s (i, a) = some s') (hg : k.Good s.registry) {t : T} (ht : t ∈ s.registry.list)
    (ht' : t ∉ s'.registry.list) : a = .unregister t := by
  cases regStep_cases h with
  | register u _ =>
    exfalso
    apply ht'
    rcases s.registry.after_cases ((k.api f).register u s.registry) with hok | hsame
    · obtain ⟨-, -, hlist, -⟩ := (k.lawful f).register_ok hg hok
      rw [hlist]
      exact List.mem_append_left _ ht
    · simp only [hsame]
      exact ht
  | unregister u _ =>
    rcases s.registry.after_cases ((k.api f).unregister u s.registry) with hok | hsame
    · obtain ⟨-, -, hlist, -⟩ := (k.lawful f).unregister_ok hg hok
      simp only [hlist] at ht'
      by_contra hne
      apply ht'
      exact (List.mem_erase_of_ne fun htu => hne (by rw [htu])).mpr ht
    · simp only [hsame] at ht'
      exact absurd ht ht'
  | _ => exact absurd ht ht'

/-! ### Runs -/

variable [Fintype Tid]

/-- Fewer than `2 ^ 63 - 1` references to each type are outstanding. -/
def FewOutstanding (s : Shared Tid T) : Prop := ∀ t, s.outstanding t < 2 ^ 63 - 1

/-- `unregister` is not called for a type, other than the default, to which a positive
multiple of `2 ^ 32` references are outstanding. -/
def Unmistaken {Q : Type} (s : Shared Tid T) : Tid × RegAction T Q → Prop
  | (_, .unregister t) => s.registry.dflt = some t ∨ s.outstanding t = 0 ∨ ¬2 ^ 32 ∣ s.outstanding t
  | _ => True

/-- The steps looked at. -/
def BusyStep {Q : Type} (s : Shared Tid T) (a : Tid × RegAction T Q) (s' : Shared Tid T) : Prop :=
  Unmistaken s a ∧ FewOutstanding s'

instance {Q : Type} [Fintype T] (s : Shared Tid T) (a : Tid × RegAction T Q) (s' : Shared Tid T) :
    Decidable (BusyStep s a s') :=
  have : Decidable (Unmistaken s a) := match a with
    | (_, .unregister t) =>
      inferInstanceAs (Decidable (s.registry.dflt = some t ∨ s.outstanding t = 0 ∨ ¬2 ^ 32 ∣ s.outstanding t))
    | (_, .register _) | (_, .enter _) | (_, .callback _) | (_, .drop) | (_, .ref _) | (_, .put _)
    | (_, .destroy _) => inferInstanceAs (Decidable True)
  inferInstanceAs (Decidable (Unmistaken s a ∧ ∀ t, s'.outstanding t < 2 ^ 63 - 1))

omit [DecidableEq Tid] in
/-- The counter of a registered type is read as `1` when the references to it are a
multiple of `2 ^ 32`. -/
theorem CounterInv.get_eq_one_iff {good : Registry T → Prop} {s : Shared Tid T} (h : CounterInv good s) {t : T}
    (ht : t ∈ s.registry.list) : cfeAtomicGet (s.registry.refcnt t) = 1 ↔ 2 ^ 32 ∣ s.outstanding t := by
  rw [cfeAtomicGet_eq_one_iff_mod, h.listed t ht]
  omega

theorem counterInv_of_reachable {k : Kind} {f : T → k.Struct F} {s : Shared Tid T}
    (h : (regSystem Tid k f).Reachable BusyStep s) : CounterInv k.Good s := by
  apply h.invariant
  · exact counterInv_init (k.lawful f)
  · rintro s ⟨i, a⟩ s' ih hst ⟨hunmistaken, hlong⟩
    apply ih.effect (k.lawful f) (regStep_effect hst)
    · intro t ht hr
      obtain ⟨-, hone, hlist, -⟩ := (k.lawful f).unregister_ok ih.good hr
      have hgone : t ∉ s'.registry.list := by
        rw [hlist]
        exact ih.nodup.not_mem_erase
      -- the step is the call itself
      obtain rfl := regStep_removes hst ih.good ht hgone
      rcases hunmistaken with hdflt | hzero | hdvd
      · rw [k.unregister_eq f ih.good, if_pos (.inl hdflt)] at hr
        cases hr
      · exact hzero
      · exact absurd ((ih.get_eq_one_iff ht).mp hone) hdvd
    · intro t ht hmore
      have hlt := hlong t
      rw [ih.listed t ht]
      omega

/-- **The busy test, exactly.** In every state that any threads reach, in any of the six
registries, without an `unregister` at a positive multiple of `2 ^ 32` references and
with fewer than `2 ^ 63 - 1` outstanding: the counter of a registered type is read as
`1` just when the references to it are a multiple of `2 ^ 32`, none being one; and
`unregister` of it fails with `EBUSY` and leaves it in the list just when it is the
default or they are not. -/
theorem unregister_busy_exact {k : Kind} {f : T → k.Struct F} {s : Shared Tid T}
    (h : (regSystem Tid k f).Reachable BusyStep s) {t : T} (ht : t ∈ s.registry.list) :
    (cfeAtomicGet (s.registry.refcnt t) = 1 ↔ 2 ^ 32 ∣ s.outstanding t) ∧
    (((k.api f).unregister t s.registry = .error EBUSY ∧
        t ∈ (s.registry.after ((k.api f).unregister t s.registry)).list) ↔
      s.registry.dflt = some t ∨ ¬2 ^ 32 ∣ s.outstanding t) := by
  have hinv := counterInv_of_reachable h
  have hget := hinv.get_eq_one_iff ht
  refine ⟨hget, ?_⟩
  rw [k.unregister_eq f hinv.good, ← hget]
  by_cases hrefused : s.registry.dflt = some t ∨ cfeAtomicGet (s.registry.refcnt t) ≠ 1
  · rw [if_pos hrefused]
    exact iff_of_true ⟨rfl, ht⟩ hrefused
  · rw [if_neg hrefused]
    apply iff_of_false _ hrefused
    rintro ⟨herror, -⟩
    cases herror

/-- While a header of version 1 is being made, that version cannot be taken out. -/
theorem unregister_busy_exact_header :
    ∃ s : Shared Bool Bool, (regSystem Bool (.format .header) twoHeaders).Reachable BusyStep s ∧
      s.outstanding false = 1 ∧ (Kind.api (.format .header) twoHeaders).unregister false s.registry = .error EBUSY := by
  have h := System.reachable_of_exec (S := regSystem Bool (.format .header) twoHeaders) (C := BusyStep)
    [(false, .register false), (true, .register true), (false, .enter (1 : BitVec 32)), (true, .unregister true)]
    (by decide)
  exact ⟨_, h, by decide, ((unregister_busy_exact h (t := false) (by decide)).2.mpr (.inr (by decide))).1⟩

/-! ### Too many references -/

/-- A cipher. -/
def manyCipher : Unit → CfeCipherType Unit := fun _ =>
  ⟨⟨[0x61] ++ List.replicate 15 0, rfl⟩, 0, 0, 0, 1, some ()⟩

/-- One thread has called `cfe_cipher_ref` so many times. -/
def manyRefs (n : ℕ) : Shared Unit Unit where
  registry := ⟨[()], none, fun _ => ⟨BitVec.ofNat 64 (1 + n)⟩⟩
  threads _ := { refs := List.replicate n () }

theorem outstanding_manyRefs (n : ℕ) : (manyRefs n).outstanding () = n := by
  simp [Shared.outstanding, manyRefs, Thread.holds, Pc.holds]

/-- A call of `cfe_cipher_ref` with its name. -/
def manyRef : Unit × RegAction Unit (Kind.crypto .cipher).Query := ((), .ref (CString.ofMem [0x61, 0]))

/-- One call more. -/
theorem manyRefs_step (n : ℕ) :
    regStep (.crypto .cipher) manyCipher (manyRefs n) manyRef = some (manyRefs (n + 1)) := by
  have hlookup : (Kind.api (.crypto .cipher) manyCipher).lookup (CString.ofMem [0x61, 0]) (manyRefs n).registry =
      some () := rfl
  have hcounter : cfeAtomicInc ⟨BitVec.ofNat 64 (1 + n)⟩ = ⟨BitVec.ofNat 64 (1 + (n + 1))⟩ := by
    rw [cfeAtomicInc, cfeAtomicAdd, signExtend_one, ← Nat.add_assoc, BitVec.ofNat_add (1 + n) 1]
    rfl
  have hinc : (manyRefs n).registry.inc () = (manyRefs (n + 1)).registry := by
    simp only [manyRefs, Registry.inc, hcounter]
    congr 1
  simp only [regStep, manyRef, hlookup, hinc]
  rw [if_pos ⟨rfl, rfl⟩]
  congr 1

/-- As many references as there may be can be taken. -/
theorem manyRefs_reachable {n : ℕ} (hn : n < 2 ^ 63 - 1) :
    (regSystem Unit (.crypto .cipher) manyCipher).Reachable (fun _ _ s' => FewOutstanding s') (manyRefs n) := by
  induction n with
  | zero =>
    have hregister : regStep (.crypto .cipher) manyCipher (regSystem Unit (.crypto .cipher) manyCipher).init
        ((), .register ()) = some (manyRefs 0) := by
      rfl
    refine ⟨[((), .register ())], .step .refl hregister ?_⟩
    rintro ⟨⟩
    rw [outstanding_manyRefs]
    exact hn
  | succ n ih =>
    obtain ⟨as, has⟩ := ih (by omega)
    refine ⟨as ++ [manyRef], has.step (manyRefs_step n) ?_⟩
    rintro ⟨⟩
    rw [outstanding_manyRefs]
    exact hn

/-- When the counter is read as `1` the cipher is taken out. -/
theorem manyRefs_unregister {n : ℕ} (hget : cfeAtomicGet ((manyRefs n).registry.refcnt ()) = 1) :
    ∃ r, (Kind.api (.crypto .cipher) manyCipher).unregister () (manyRefs n).registry = .ok r ∧ () ∉ r.list := by
  rw [Kind.unregister_eq (.crypto .cipher) manyCipher (s := (manyRefs n).registry) rfl, if_neg]
  · exact ⟨_, rfl, by simp [manyRefs]⟩
  · rintro (hdflt | hnot)
    · cases hdflt
    · exact hnot hget

/-- With `2 ^ 32` references outstanding the counter is read as `1`, and `unregister`
takes out a type that is in use. -/
theorem unregister_not_busy : ∃ s : Shared Unit Unit,
    (regSystem Unit (.crypto .cipher) manyCipher).Reachable (fun _ _ s' => FewOutstanding s') s ∧
      () ∈ s.registry.list ∧ s.outstanding () = 2 ^ 32 ∧ cfeAtomicGet (s.registry.refcnt ()) = 1 ∧
      ∃ r, (Kind.api (.crypto .cipher) manyCipher).unregister () s.registry = .ok r ∧ () ∉ r.list := by
  have hreach := manyRefs_reachable (n := 2 ^ 32) (by omega)
  have hget : cfeAtomicGet ((manyRefs (2 ^ 32)).registry.refcnt ()) = 1 := by decide
  exact ⟨manyRefs (2 ^ 32), hreach, List.mem_singleton_self (), outstanding_manyRefs _, hget,
    manyRefs_unregister hget⟩

end LibCfe
