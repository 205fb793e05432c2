import LibCfe.Registry.Default

/-!
# Callbacks that are there to be called

A type is used by calling through its callback field, without a test for `NULL`.
`register` of a crypto registry refuses a type whose callback is `NULL`.
`cfe_header_register` and `cfe_filewriter_register` do not look at `alloc`, so what
they accept need not be callable: then `cfe_header_create` or
`cfe_filewriter_create` calls through `NULL`, also for the default version, when
that type is the newest.

`registered_callable` says exactly which runs are free of this: all runs of the
crypto registries, and of a format registry the runs in which `register` is not
handed a type without `alloc`, or only when its version is taken anyway.
-/

namespace LibCfe

open Theory

variable {Tid T F : Type} [DecidableEq Tid] [DecidableEq T]

/-- A type handed to `register` of a format registry has its callback, or its version
is that of a registered type. Nothing is asked of a type for a crypto registry. -/
def Kind.CallbackGiven : (k : Kind) → (T → k.Struct F) → T → Registry T → Prop
  | .crypto _, _, _, _ => True
  | .format k, f, t, s =>
      (k.callback (f t)).isSome = true ∨ (formatFind (fun t => k.version (f t)) s (k.version (f t))).isSome = true

/-- A step that hands only such a type to `register`. -/
def GivesCallback (k : Kind) (f : T → k.Struct F) (s : Shared Tid T) (a : Tid × RegAction T k.Query)
    (_ : Shared Tid T) : Prop :=
  ∀ t, a.2 = .register t → k.CallbackGiven f t s.registry

/-- Every call through a callback finds one: a thread that is about to make such a
call, and one that looks a type up, by its key or as the default, to make it. -/
def Callable (k : Kind) (f : T → k.Struct F) (s : Shared Tid T) : Prop :=
  (∀ i t, (s.threads i).pc = .inCallback t → (k.callback (f t)).isSome = true) ∧
  ∀ q t, (k.api f).lookup q s.registry = some t → (k.callback (f t)).isSome = true

/-- A step between two such states at which `register` refuses a type without its callback. -/
def StaysCallable (k : Kind) (f : T → k.Struct F) (s : Shared Tid T) (a : Tid × RegAction T k.Query)
    (s' : Shared Tid T) : Prop :=
  Callable k f s ∧ Callable k f s' ∧
  ∀ t, a.2 = .register t → k.callback (f t) = none → ∃ e, (k.api f).register t s.registry = .error e

/-- A crypto registry refuses a type without its callback. -/
theorem register_null {k : CryptoKind} {f : T → k.Struct F} {s : Registry T} {t : T}
    (h : k.callback (f t) = none) : (k.api f).register t s = .error EINVAL := by
  have hacc : (k.toClass f).accepts t = false := by
    cases ha : (k.toClass f).accepts t with
    | false => rfl
    | true =>
      have := k.callback_of_accepts f ha
      rw [h] at this
      cases this
  rw [k.api_eq]
  show cryptoRegister (k.toClass f) t s = .error EINVAL
  simp [cryptoRegister, hacc]

/-- A format registry refuses it only when its version is taken. -/
theorem formatRegister_error_iff {k : FormatKind} {f : T → k.Struct F} {s : Registry T} {t : T} :
    (∃ e, (k.api f).register t s = .error e) ↔
      (formatFind (fun t => k.version (f t)) s (k.version (f t))).isSome = true := by
  rw [k.api_eq]
  show (∃ e, formatRegister (fun t => k.version (f t)) t s = .error e) ↔ _
  unfold formatRegister
  cases formatFind (fun t => k.version (f t)) s (k.version (f t)) with
  | none => simp
  | some u => simp

/-- So the promise about the type is just what makes `register` refuse it without a callback. -/
theorem Kind.callbackGiven_iff {k : Kind} {f : T → k.Struct F} {s : Registry T} {t : T} :
    k.CallbackGiven f t s ↔ (k.callback (f t) = none → ∃ e, (k.api f).register t s = .error e) := by
  cases k with
  | crypto k => exact ⟨fun _ h => ⟨EINVAL, register_null h⟩, fun _ => trivial⟩
  | format k =>
    have herr : (∃ e, (Kind.api (.format k) f).register t s = .error e) ↔ _ := formatRegister_error_iff
    rw [herr]
    show (k.callback (f t)).isSome = true ∨ _ ↔ (k.callback (f t) = none → _)
    cases k.callback (f t) with
    | none => simp
    | some g => simp

/-- What a registry accepted has its callback. -/
theorem callback_of_register {k : Kind} {f : T → k.Struct F} {s s' : Registry T} {t : T}
    (h : (k.api f).register t s = .ok s') (hg : k.CallbackGiven f t s) : (k.callback (f t)).isSome = true := by
  cases hcb : k.callback (f t) with
  | some g => rfl
  | none =>
    obtain ⟨e, he⟩ := Kind.callbackGiven_iff.mp hg hcb
    rw [h] at he
    cases he

/-! ### The invariant -/

/-- Every registered type has its callback, and so has every type about to be called. -/
structure CallbackInv (k : Kind) (f : T → k.Struct F) (s : Shared Tid T) : Prop where
  good : k.Good s.registry
  listed : ∀ t ∈ s.registry.list, (k.callback (f t)).isSome = true
  called : ∀ i t, (s.threads i).pc = .inCallback t → (k.callback (f t)).isSome = true

omit [DecidableEq Tid] in
theorem CallbackInv.callable {k : Kind} {f : T → k.Struct F} {s : Shared Tid T} (h : CallbackInv k f s) :
    Callable k f s :=
  ⟨h.called, fun _ t hq => h.listed t ((k.lawful f).lookup_mem h.good hq)⟩

/-- A thread about to call a callback was so before, or it has just looked the type up. -/
theorem regStep_inCallback {k : Kind} {f : T → k.Struct F} {s s' : Shared Tid T}
    {a : Tid × RegAction T k.Query} (h : regStep k f s a = some s') {i : Tid} {t : T}
    (hpc : (s'.threads i).pc = .inCallback t) :
    (s.threads i).pc = .inCallback t ∨ ∃ q, (k.api f).lookup q s.registry = some t := by
  obtain ⟨j, a⟩ := a
  -- a step that leaves a thread in another place than before a callback
  have hset : ∀ {r : Registry T} {th : Thread T}, ((s.set j r th).threads i).pc = .inCallback t →
      (∀ u, th.pc = .inCallback u → (s.threads j).pc = .inCallback u ∨ ∃ q, (k.api f).lookup q s.registry = some u) →
      (s.threads i).pc = .inCallback t ∨ ∃ q, (k.api f).lookup q s.registry = some t := by
    intro r th hpc hth
    simp only [Shared.set] at hpc
    by_cases hij : i = j
    · subst hij
      rw [Function.update_self] at hpc
      exact hth t hpc
    · rw [Function.update_of_ne hij] at hpc
      exact .inl hpc
  cases regStep_cases h with
  | enter q u _ hq => exact hset hpc fun v hv => .inr ⟨q, by rw [hq, Pc.inCallback.inj hv]⟩
  | made u g _ _ _ => exact hset hpc fun v hv => by cases hv
  | called ok u g _ _ _ => exact hset hpc fun v hv => by cases hv
  | gaveUp u _ _ _ => exact hset hpc fun v hv => by cases hv
  | drop u _ => exact hset hpc fun v hv => by cases hv
  | ref q u _ _ _ => exact hset hpc fun v hv => .inl hv
  | put u _ _ => exact hset hpc fun v hv => .inl hv
  | destroy u _ _ _ => exact hset hpc fun v hv => by cases hv
  -- the threads stay where they are
  | _ => exact .inl hpc

/-- A registered type was so before, or the step is its registration. -/
theorem regStep_listed {k : Kind} {f : T → k.Struct F} {s s' : Shared Tid T} {a : Tid × RegAction T k.Query}
    (hgood : k.Good s.registry) (h : regStep k f s a = some s') {t : T} (ht : t ∈ s'.registry.list) :
    t ∈ s.registry.list ∨ a.2 = .register t ∧ (k.api f).register t s.registry = .ok s'.registry := by
  obtain ⟨i, a⟩ := a
  cases regStep_cases h with
  | register u _ =>
    rcases s.registry.after_cases ((k.api f).register u s.registry) with hok | hsame
    · obtain ⟨-, -, hlist, -⟩ := (k.lawful f).register_ok hgood hok
      rw [hlist] at ht
      rcases List.mem_append.mp ht with hold | hnew
      · exact .inl hold
      · obtain rfl := List.mem_singleton.mp hnew
        exact .inr ⟨rfl, hok⟩
    · exact .inl (hsame ▸ ht)
  | unregister u _ =>
    rcases s.registry.after_cases ((k.api f).unregister u s.registry) with hok | hsame
    · obtain ⟨-, -, hlist, -⟩ := (k.lawful f).unregister_ok hgood hok
      rw [hlist] at ht
      exact .inl (List.mem_of_mem_erase ht)
    · exact .inl (hsame ▸ ht)
  | _ => exact .inl ht

variable [Fintype Tid] {k : Kind} {f : T → k.Struct F}

/-- The default and the callbacks, kept by one step. -/
theorem CallbackInv.step {s s' : Shared Tid T} {a : Tid × RegAction T k.Query} (h : CallbackInv k f s)
    (hst : regStep k f s a = some s') (hg : GivesCallback k f s a s') : CallbackInv k f s' := by
  have hlisted : ∀ t ∈ s'.registry.list, (k.callback (f t)).isSome = true := by
    intro t ht
    rcases regStep_listed h.good hst ht with hold | ⟨ha, hok⟩
    · exact h.listed t hold
    · exact callback_of_register hok (hg t ha)
  refine ⟨(regStep_effect hst).good (k.lawful f) h.good, hlisted, ?_⟩
  intro i t hpc
  rcases regStep_inCallback hst hpc with hold | ⟨q, hq⟩
  · exact h.called i t hold
  · exact h.listed t ((k.lawful f).lookup_mem h.good hq)

theorem CallbackInv.of_runs {s : Shared Tid T} {as : List (Tid × RegAction T k.Query)}
    (h : (regSystem Tid k f).Runs (GivesCallback k f) (regSystem Tid k f).init as s) : CallbackInv k f s := by
  apply h.invariant
  · intro t a u ih hst hg
    exact ih.step hst hg
  · constructor
    · exact (k.lawful f).good_empty
    · intro t ht
      cases ht
    · intro i t hpc
      cases hpc

/-- **Which runs only call through callbacks that are there**, in any of the six
registries, for any threads in any order and types with or without callback. Of a
run whose every step hands `register` a type that has its callback, or in a format
registry one whose version is taken, every step leaves a state in which no thread
is about to call through `NULL` and no lookup, by key or as the default, gives a
type to do so with, and `register` refused the types without callback. A run with
a step that does otherwise is not free of this: `register` accepts the type. For
a crypto registry that is every run. -/
theorem registered_callable {as : List (Tid × RegAction T k.Query)} {s : Shared Tid T} :
    (regSystem Tid k f).Runs (GivesCallback k f) (regSystem Tid k f).init as s ↔
      (regSystem Tid k f).Runs (StaysCallable k f) (regSystem Tid k f).init as s := by
  constructor
  · intro h
    induction h with
    | refl => exact .refl
    | step hr hst hg ih =>
      have hinv := CallbackInv.of_runs hr
      exact .step ih hst ⟨hinv.callable, (hinv.step hst hg).callable,
        fun t ha => Kind.callbackGiven_iff.mp (hg t ha)⟩
  · intro h
    apply h.mono
    intro s a u hs t ha
    exact Kind.callbackGiven_iff.mpr (hs.2.2 t ha)

/-- The file writer that the tests register: version `1337`, and no `alloc`. -/
def testWriter (_ : Unit) : CfeFilewriterType Unit := ⟨1337, none⟩

/-- It is accepted, and then `cfe_filewriter_create` with the default version is
about to call through `NULL`. -/
theorem registered_not_callable :
    ¬ ∀ s : Shared Unit Unit, (regSystem Unit (.format .filewriter) testWriter).Reachable System.Free s →
      Callable (.format .filewriter) testWriter s := by
  intro h
  have hr := System.reachable_of_exec (S := regSystem Unit (.format .filewriter) testWriter) (C := System.Free)
    [((), .register ()), ((), .enter (-1 : BitVec 32))] (by decide)
  have hcall := (h _ hr).1 () () (by decide)
  cases hcall

end LibCfe
