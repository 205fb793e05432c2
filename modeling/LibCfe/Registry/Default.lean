import LibCfe.Registry.Concurrent

/-!
# The default format

`header_default` and `writer_default` are only written by `register`, when the new
type's version is greater than that of the default so far, and `unregister`
refuses the default. So the default is always the newest registered type.

`default_is_newest` says so of every state that any threads reach by any order of
their steps; calls made one after the other are the case of a single thread.
-/

namespace LibCfe

open Theory

variable {Tid T F : Type} [DecidableEq Tid] [DecidableEq T]

/-- `d` is in the list and newer than every other type in it. -/
def Newest {w : ℕ} (version : T → BitVec w) (s : Registry T) (d : T) : Prop :=
  d ∈ s.list ∧ ∀ t ∈ s.list, t ≠ d → (version t).toNat < (version d).toNat

/-- There is a default unless the list is empty, and it is the newest type. -/
structure DefaultInv {w : ℕ} (version : T → BitVec w) (s : Registry T) : Prop where
  empty_iff : s.dflt = none ↔ s.list = []
  newest : ∀ d, s.dflt = some d → Newest version s d

omit [DecidableEq T] in
theorem defaultInv_empty {w : ℕ} (version : T → BitVec w) : DefaultInv version Registry.empty :=
  ⟨⟨fun _ => rfl, fun _ => rfl⟩, fun d h => by cases h⟩

omit [DecidableEq T] in
/-- The counters do not matter for it. -/
theorem DefaultInv.congr {w : ℕ} {version : T → BitVec w} {s s' : Registry T} (h : DefaultInv version s)
    (hl : s'.list = s.list) (hd : s'.dflt = s.dflt) : DefaultInv version s' := by
  refine ⟨by rw [hl, hd]; exact h.empty_iff, ?_⟩
  intro d hd'
  unfold Newest
  rw [hl]
  exact h.newest d (hd ▸ hd')

/-- The new default is the new type if that is newer than the old default. If it is
not, its version is not the old default's either, for `register` looked it up. -/
theorem DefaultInv.register {w : ℕ} {version : T → BitVec w} {s s' : Registry T} {t : T}
    (h : DefaultInv version s) (hr : formatRegister version t s = .ok s') : DefaultInv version s' := by
  obtain ⟨hfree, hlist, -, hdflt⟩ := formatRegister_ok version hr
  constructor
  · rw [hlist]
    rcases hdflt with ⟨hnew, -⟩ | ⟨d, -, hkept, -⟩
    · simp [hnew]
    · simp [hkept]
  · intro d hd
    unfold Newest
    rw [hlist]
    rcases hdflt with ⟨hnew, hlt⟩ | ⟨d₀, hold, hkept, hnlt⟩
    · rw [hnew] at hd
      obtain rfl := Option.some.inj hd
      refine ⟨by simp, ?_⟩
      intro u hu hut
      have hu' : u ∈ s.list := by simpa [hut] using hu
      cases hd₀ : s.dflt with
      | none =>
        rw [h.empty_iff.mp hd₀] at hu'
        cases hu'
      | some d₀ =>
        have hlt₀ : (version d₀).toNat < (version t).toNat := hlt d₀ hd₀
        by_cases hud : u = d₀
        · rw [hud]
          exact hlt₀
        · exact lt_trans ((h.newest d₀ hd₀).2 u hu' hud) hlt₀
    · rw [hkept] at hd
      obtain rfl := Option.some.inj hd
      obtain ⟨hmem, hmax⟩ := h.newest d₀ hold
      refine ⟨List.mem_append_left _ hmem, ?_⟩
      intro u hu hud
      rcases List.mem_append.mp hu with hu | hu
      · exact hmax u hu hud
      · rw [List.mem_singleton] at hu
        subst hu
        have hle : ¬ (version d₀).toNat < (version u).toNat := hnlt
        have hne : (version d₀).toNat ≠ (version u).toNat := fun he => hfree d₀ hmem (BitVec.eq_of_toNat_eq he)
        omega

/-- `unregister` takes out another type than the default. -/
theorem DefaultInv.unregister {w : ℕ} {version : T → BitVec w} {s s' : Registry T} {t : T}
    (h : DefaultInv version s) (hr : formatUnregister t s = .ok s') : DefaultInv version s' := by
  obtain ⟨hne, -, rfl⟩ := formatUnregister_ok hr
  refine ⟨⟨?_, ?_⟩, ?_⟩
  · intro hd
    simp [h.empty_iff.mp hd]
  · intro hl
    cases hd : s.dflt with
    | none => rfl
    | some d =>
      have hmem : d ∈ s.list.erase t :=
        (List.mem_erase_of_ne (fun hdt => hne (by rw [hd, hdt]))).mpr (h.newest d hd).1
      simp only at hl
      rw [hl] at hmem
      cases hmem
  · intro d hd
    obtain ⟨hmem, hmax⟩ := h.newest d hd
    exact ⟨(List.mem_erase_of_ne (fun hdt => hne (by rw [← hdt]; exact hd))).mpr hmem,
      fun u hu hud => hmax u (List.mem_of_mem_erase hu) hud⟩

variable [Fintype Tid] {k : FormatKind} {f : T → k.Struct F}

/-- Every step of a format registry has one of the effects of its text. -/
theorem formatStep_effect {s s' : Shared Tid T} {a : Tid × RegAction T (BitVec 32)}
    (h : regStep (.format k) f s a = some s') : Effect (formatApi fun t => k.version (f t)) s s' := by
  have he : Effect (k.api f) s s' := by
    have he := regStep_effect h
    exact he
  rwa [k.api_eq] at he

omit [DecidableEq Tid] in
theorem DefaultInv.effect {s s' : Shared Tid T} (h : DefaultInv (fun t => k.version (f t)) s.registry)
    (he : Effect (formatApi fun t => k.version (f t)) s s') :
    DefaultInv (fun t => k.version (f t)) s'.registry := by
  cases he with
  | stay hr => rw [hr]; exact h
  | register t hr => exact h.register hr
  | unregister t hr => exact h.unregister hr
  | take q t _ hr => rw [hr]; exact h.congr rfl rfl
  | drop t hr => rw [hr]; exact h.congr rfl rfl

theorem DefaultInv.of_reachable {s : Shared Tid T}
    (h : (regSystem Tid (.format k) f).Reachable System.Free s) :
    DefaultInv (fun t => k.version (f t)) s.registry := by
  apply h.invariant (I := fun s => DefaultInv (fun t => k.version (f t)) s.registry)
  · exact defaultInv_empty _
  · intro t a u ih hst _
    exact ih.effect (formatStep_effect hst)

/-- The default is never taken away, and never replaced by an older type. -/
def DefaultGrows (k : FormatKind) (f : T → k.Struct F) (s s' : Shared Tid T) : Prop :=
  ∀ d, s.registry.dflt = some d →
    ∃ d', s'.registry.dflt = some d' ∧ (k.version (f d)).toNat ≤ (k.version (f d')).toNat

omit [DecidableEq Tid] in
theorem DefaultGrows.effect {s s' : Shared Tid T} (he : Effect (formatApi fun t => k.version (f t)) s s') :
    DefaultGrows k f s s' := by
  intro d hd
  cases he with
  | stay hr => exact ⟨d, by rw [hr]; exact hd, le_rfl⟩
  | register t hr =>
    obtain ⟨-, -, -, hdflt⟩ := formatRegister_ok _ hr
    rcases hdflt with ⟨hnew, hlt⟩ | ⟨d₀, hold, hkept, -⟩
    · exact ⟨t, hnew, le_of_lt (hlt d hd)⟩
    · rw [hold] at hd
      exact ⟨d₀, hkept, by rw [Option.some.inj hd]⟩
  | unregister t hr =>
    obtain ⟨-, -, hs'⟩ := formatUnregister_ok hr
    exact ⟨d, by rw [hs']; exact hd, le_rfl⟩
  | take q t _ hr => exact ⟨d, by rw [hr]; exact hd, le_rfl⟩
  | drop t hr => exact ⟨d, by rw [hr]; exact hd, le_rfl⟩

theorem DefaultGrows.of_runs {s s' : Shared Tid T} {as : List (Tid × RegAction T (BitVec 32))}
    (h : (regSystem Tid (.format k) f).Runs System.Free s as s') : DefaultGrows k f s s' := by
  apply h.relates (R := DefaultGrows k f)
  · intro s d hd
    exact ⟨d, hd, le_rfl⟩
  · intro s t u hst htu d hd
    obtain ⟨d', hd', hle⟩ := hst d hd
    obtain ⟨d'', hd'', hle'⟩ := htu d' hd'
    exact ⟨d'', hd'', hle.trans hle'⟩
  · intro t a u hst _
    exact DefaultGrows.effect (formatStep_effect hst)

omit [Fintype Tid] in
/-- What a call of `create` with the default version enters. -/
theorem enter_default {s u : Shared Tid T} {i : Tid}
    (h : regStep (.format k) f s (i, .enter (-1 : BitVec 32)) = some u) :
    (s.registry.dflt = none ∧ u = s ∧ (s.threads i).pc = .idle) ∨ ∃ d, s.registry.dflt = some d ∧
      (u.threads i).pc = .inCallback d ∧ (u.threads i).objects = (s.threads i).objects := by
  have hq : (Kind.api (.format k) f).lookup (-1 : BitVec 32) s.registry = s.registry.dflt := by
    show formatLookup (fun t => k.version (f t)) (-1) s.registry = s.registry.dflt
    exact if_pos rfl
  cases regStep_cases h with
  | enter q d _ hlookup => exact .inr ⟨d, hq.symm.trans hlookup, by simp [Shared.set], by simp [Shared.set]⟩
  | notEntered q hpc hlookup => exact .inl ⟨hq.symm.trans hlookup, rfl, hpc⟩

omit [Fintype Tid] in
/-- The object that a successful callback makes is of the type entered. -/
theorem callback_makes {s u : Shared Tid T} {i : Tid}
    (h : regStep (.format k) f s (i, .callback true) = some u) :
    ∃ d, (s.threads i).pc = .inCallback d ∧ (u.threads i).objects = d :: (s.threads i).objects := by
  have hmakes : Kind.makesObject (.format k) = true := by cases k <;> rfl
  cases regStep_cases h with
  | made d g _ hpc _ => exact ⟨d, hpc, by simp [Shared.set]⟩
  | called ok d g hno _ _ =>
    rw [hmakes] at hno
    cases hno

/-- **The default format is the newest registered one**, in the header registry and in
the file writer registry. In every state that any threads reach: there is no
default exactly when nothing is registered; the default is registered and its
version is strictly greater than that of every other registered type; a call of
`create` with the default version `-1` enters the callback of the newest
registered type, unless nothing is registered, and the object it makes is of that
type; and from then on the default's version never decreases and the registry is
never emptied. -/
theorem default_is_newest {s : Shared Tid T} (h : (regSystem Tid (.format k) f).Reachable System.Free s) :
    (s.registry.dflt = none ↔ s.registry.list = []) ∧
    (∀ d, s.registry.dflt = some d → Newest (fun t => k.version (f t)) s.registry d) ∧
    (∀ i u, regStep (.format k) f s (i, .enter (-1 : BitVec 32)) = some u →
      (s.registry.list = [] ∧ u = s) ∨
      ∃ d, Newest (fun t => k.version (f t)) s.registry d ∧ (u.threads i).pc = .inCallback d) ∧
    (∀ i u v, regStep (.format k) f s (i, .enter (-1 : BitVec 32)) = some u →
      regStep (.format k) f u (i, .callback true) = some v →
      ∃ d, Newest (fun t => k.version (f t)) s.registry d ∧
        (v.threads i).objects = d :: (s.threads i).objects) ∧
    (∀ as s', (regSystem Tid (.format k) f).Runs System.Free s as s' →
      DefaultGrows k f s s' ∧ (s.registry.list ≠ [] → s'.registry.list ≠ [])) := by
  have hinv := DefaultInv.of_reachable h
  refine ⟨hinv.empty_iff, hinv.newest, ?_, ?_, ?_⟩
  · intro i u hu
    rcases enter_default hu with ⟨hnone, rfl, -⟩ | ⟨d, hd, hpc, -⟩
    · exact .inl ⟨hinv.empty_iff.mp hnone, rfl⟩
    · exact .inr ⟨d, hinv.newest d hd, hpc⟩
  · intro i u v hu hv
    obtain ⟨d', hpc', hobj⟩ := callback_makes hv
    rcases enter_default hu with ⟨-, rfl, hidle⟩ | ⟨d, hd, hpc, hsame⟩
    · rw [hidle] at hpc'
      cases hpc'
    · rw [hpc] at hpc'
      obtain rfl := Pc.inCallback.inj hpc'
      exact ⟨d, hinv.newest d hd, by rw [hobj, hsame]⟩
  · intro as s' hr
    have hgrows := DefaultGrows.of_runs hr
    have hinv' := DefaultInv.of_reachable (h.runs hr)
    refine ⟨hgrows, ?_⟩
    intro hne hempty
    cases hd : s.registry.dflt with
    | none => exact hne (hinv.empty_iff.mp hd)
    | some d =>
      obtain ⟨d', hd', -⟩ := hgrows d hd
      rw [hinv'.empty_iff.mpr hempty] at hd'
      cases hd'

/-- Version `2` is registered after version `1`, and version `1` is then taken out. -/
theorem default_is_newest_two_headers :
    ∃ s : Shared Unit Bool, (regSystem Unit (.format .header) twoHeaders).Reachable System.Free s ∧
      s.registry.dflt = some true ∧ Newest (fun t => (twoHeaders t).version) s.registry true := by
  have h := System.reachable_of_exec (S := regSystem Unit (.format .header) twoHeaders) (C := System.Free)
    [((), .register false), ((), .register true), ((), .unregister false)] (by decide)
  exact ⟨_, h, by decide, (default_is_newest h).2.1 true (by decide)⟩

end LibCfe
