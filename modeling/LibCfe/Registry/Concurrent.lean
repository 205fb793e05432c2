import LibCfe.Registry.Kinds
import LibCfe.Theory.Transition
import Mathlib.Algebra.BigOperators.Group.Finset.Basic
import Mathlib.Algebra.Order.BigOperators.Group.Finset
import Mathlib.Data.Fintype.Defs

/-!
# Threads that share a registry

Any number of threads register and unregister types, use them and drop them
again. A registry is guarded by a read-write lock, but the lock is not held while
a type's callback runs, nor for a decrement of a reference counter.

## The model

The steps are the pieces of the calls that other threads cannot get in between:
the write-locked sections of `register` and `unregister`; the read-locked lookup
with its increment, at the start of `cfe_cipher_alloc_ctx`,
`cfe_hash_alloc_ctx`, `cfe_pbkdf_derive`, `cfe_rand_get`, `cfe_header_create` and
`cfe_filewriter_create` (`enter`), or on its own in `cfe_cipher_ref` (`ref`); the
callback, which may succeed or fail; and each unlocked decrement. In a file
writer's registry the callback stands for all of `cfe_filewriter_create` after the
lookup: taking a reference to the cipher, and `alloc`. A thread is in the middle
of at most one call (`Pc`), and owns the references of the objects it made and of
its calls of `cfe_cipher_ref`.

A call through a `NULL` callback has no outcome, so a thread about to make one is
stuck. `cfe_filewriter_create` is about to make one only when it got its cipher.

## What is proved

* `regStep_cases` — what a step can have been.
* `regStep_effect` — all that a step can do to the registry and to the number of
  references outstanding.
* `registry_reference_safety` — while no counter reaches `2 ^ 31`, a registered
  type's counter is one more than the number of references to it, and only
  registered types are referenced.
-/

namespace LibCfe

open Theory

/-- Where a thread is in a call that uses a type. -/
inductive Pc (T : Type) where
  /-- Not in such a call. -/
  | idle
  /-- It has taken a reference and is about to call the type's callback. -/
  | inCallback (t : T)
  /-- It has a reference left to drop before it returns. -/
  | dropping (t : T)
  deriving DecidableEq

/-- A thread. -/
structure Thread (T : Type) where
  /-- Where it is. -/
  pc : Pc T := .idle
  /-- The types of the objects it made, whose references it has not dropped. -/
  objects : List T := []
  /-- The types it holds references to by `cfe_cipher_ref`. -/
  refs : List T := []

/-- A registry and the threads that use it. -/
structure Shared (Tid T : Type) where
  /-- The registry. -/
  registry : Registry T
  /-- The threads. -/
  threads : Tid → Thread T

/-- What a thread can do. -/
inductive RegAction (T Q : Type) where
  /-- `register`. -/
  | register (t : T)
  /-- `unregister`. -/
  | unregister (t : T)
  /-- The lookup and increment of a call that uses a type. -/
  | enter (q : Q)
  /-- The callback of that call, and whether it succeeds. -/
  | callback (ok : Bool)
  /-- The decrement at the end of a call. -/
  | drop
  /-- `cfe_cipher_ref`. -/
  | ref (q : Q)
  /-- `cfe_cipher_put`. -/
  | put (t : T)
  /-- A call that destroys an object, up to its decrement. -/
  | destroy (t : T)

variable {Tid T F : Type} [DecidableEq Tid] [DecidableEq T]

/-- The registry after a locked section that may fail. -/
def Registry.after (s : Registry T) : Except Errno (Registry T) → Registry T
  | .ok s' => s'
  | .error _ => s

/-- Thread `i` goes on as `th`, and the registry is `r`. -/
def Shared.set (s : Shared Tid T) (i : Tid) (r : Registry T) (th : Thread T) : Shared Tid T :=
  ⟨r, Function.update s.threads i th⟩

/-- One step, by thread `a.1`. -/
def regStep (k : Kind) (f : T → k.Struct F) (s : Shared Tid T) (a : Tid × RegAction T k.Query) :
    Option (Shared Tid T) :=
  let th := s.threads a.1
  match a.2 with
  | .register t =>
      if th.pc = .idle
      then some { s with registry := s.registry.after ((k.api f).register t s.registry) } else none
  | .unregister t =>
      if th.pc = .idle
      then some { s with registry := s.registry.after ((k.api f).unregister t s.registry) } else none
  | .enter q =>
      if th.pc = .idle then
        match (k.api f).lookup q s.registry with
        | some t => some (s.set a.1 (s.registry.inc t) { th with pc := .inCallback t })
        | none => some s
      else none
  | .callback ok =>
      match th.pc with
      | .inCallback t =>
          match k.callback (f t) with
          | some _ =>
              if ok && k.makesObject
              then some (s.set a.1 s.registry { th with pc := .idle, objects := t :: th.objects })
              else some (s.set a.1 s.registry { th with pc := .dropping t })
          | none =>
              -- `alloc` is not read when `cfe_cipher_ref` fails
              if !ok && k.refsCipher then some (s.set a.1 s.registry { th with pc := .dropping t }) else none
      | _ => none
  | .drop =>
      match th.pc with
      | .dropping t => some (s.set a.1 (s.registry.dec t) { th with pc := .idle })
      | _ => none
  | .ref q =>
      if th.pc = .idle ∧ k.hasRef then
        match (k.api f).lookup q s.registry with
        | some t => some (s.set a.1 (s.registry.inc t) { th with refs := t :: th.refs })
        | none => some s
      else none
  | .put t =>
      if th.pc = .idle ∧ t ∈ th.refs
      then some (s.set a.1 (s.registry.dec t) { th with refs := th.refs.erase t }) else none
  | .destroy t =>
      if th.pc = .idle ∧ k.destroysObject ∧ t ∈ th.objects
      then some (s.set a.1 s.registry { th with pc := .dropping t, objects := th.objects.erase t })
      else none

/-- An empty registry and threads that have done nothing yet. -/
def regSystem (Tid : Type) [DecidableEq Tid] (k : Kind) (f : T → k.Struct F) :
    System (Shared Tid T) (Tid × RegAction T k.Query) where
  init := ⟨Registry.empty, fun _ => {}⟩
  step := regStep k f

/-- What a step of thread `i` that did `a` can have been, and where it leads. -/
inductive RegStep (k : Kind) (f : T → k.Struct F) (s : Shared Tid T) (i : Tid) :
    RegAction T k.Query → Shared Tid T → Prop where
  /-- `register`, whether or not it succeeds. -/
  | register (t : T) (hpc : (s.threads i).pc = .idle) :
      RegStep k f s i (.register t) { s with registry := s.registry.after ((k.api f).register t s.registry) }
  /-- `unregister`, likewise. -/
  | unregister (t : T) (hpc : (s.threads i).pc = .idle) :
      RegStep k f s i (.unregister t) { s with registry := s.registry.after ((k.api f).unregister t s.registry) }
  /-- A type is looked up. -/
  | enter (q : k.Query) (t : T) (hpc : (s.threads i).pc = .idle) (hq : (k.api f).lookup q s.registry = some t) :
      RegStep k f s i (.enter q) (s.set i (s.registry.inc t) { s.threads i with pc := .inCallback t })
  /-- There is none. -/
  | notEntered (q : k.Query) (hpc : (s.threads i).pc = .idle) (hq : (k.api f).lookup q s.registry = none) :
      RegStep k f s i (.enter q) s
  /-- The callback made an object. -/
  | made (t : T) (g : F) (hmakes : k.makesObject = true) (hpc : (s.threads i).pc = .inCallback t)
      (hcb : k.callback (f t) = some g) :
      RegStep k f s i (.callback true)
        (s.set i s.registry { s.threads i with pc := .idle, objects := t :: (s.threads i).objects })
  /-- It made none. -/
  | called (ok : Bool) (t : T) (g : F) (hmakes : (ok && k.makesObject) = false) (hpc : (s.threads i).pc = .inCallback t)
      (hcb : k.callback (f t) = some g) :
      RegStep k f s i (.callback ok) (s.set i s.registry { s.threads i with pc := .dropping t })
  /-- There was no cipher to call it with. -/
  | gaveUp (t : T) (hrefs : k.refsCipher = true) (hpc : (s.threads i).pc = .inCallback t)
      (hcb : k.callback (f t) = none) :
      RegStep k f s i (.callback false) (s.set i s.registry { s.threads i with pc := .dropping t })
  /-- The last reference of a call is dropped. -/
  | drop (t : T) (hpc : (s.threads i).pc = .dropping t) :
      RegStep k f s i .drop (s.set i (s.registry.dec t) { s.threads i with pc := .idle })
  /-- A cipher is looked up. -/
  | ref (q : k.Query) (t : T) (href : k.hasRef = true) (hpc : (s.threads i).pc = .idle)
      (hq : (k.api f).lookup q s.registry = some t) :
      RegStep k f s i (.ref q) (s.set i (s.registry.inc t) { s.threads i with refs := t :: (s.threads i).refs })
  /-- There is none. -/
  | notRef (q : k.Query) (href : k.hasRef = true) (hpc : (s.threads i).pc = .idle)
      (hq : (k.api f).lookup q s.registry = none) :
      RegStep k f s i (.ref q) s
  /-- It is put back. -/
  | put (t : T) (hpc : (s.threads i).pc = .idle) (hmem : t ∈ (s.threads i).refs) :
      RegStep k f s i (.put t) (s.set i (s.registry.dec t) { s.threads i with refs := (s.threads i).refs.erase t })
  /-- An object is destroyed. -/
  | destroy (t : T) (hdestroys : k.destroysObject = true) (hpc : (s.threads i).pc = .idle)
      (hmem : t ∈ (s.threads i).objects) :
      RegStep k f s i (.destroy t)
        (s.set i s.registry { s.threads i with pc := .dropping t, objects := (s.threads i).objects.erase t })

/-- **Every step is one of these.** -/
theorem regStep_cases {k : Kind} {f : T → k.Struct F} {s s' : Shared Tid T} {i : Tid} {a : RegAction T k.Query}
    (h : regStep k f s (i, a) = some s') : RegStep k f s i a s' := by
  cases a with
  | register t =>
    simp only [regStep, Option.ite_none_right_eq_some, Option.some.injEq] at h
    obtain ⟨hpc, rfl⟩ := h
    exact .register t hpc
  | unregister t =>
    simp only [regStep, Option.ite_none_right_eq_some, Option.some.injEq] at h
    obtain ⟨hpc, rfl⟩ := h
    exact .unregister t hpc
  | enter q =>
    simp only [regStep, Option.ite_none_right_eq_some] at h
    obtain ⟨hpc, h⟩ := h
    split at h
    · next t hq =>
      obtain rfl := Option.some.inj h
      exact .enter q t hpc hq
    · next hq =>
      obtain rfl := Option.some.inj h
      exact .notEntered q hpc hq
  | callback ok =>
    simp only [regStep] at h
    split at h
    · next t hpc =>
      split at h
      · next g hcb =>
        split_ifs at h with hmade
        · obtain rfl := Option.some.inj h
          obtain ⟨rfl, hmakes⟩ := (Bool.and_eq_true _ _).mp hmade
          exact .made t g hmakes hpc hcb
        · obtain rfl := Option.some.inj h
          exact .called ok t g (Bool.eq_false_of_not_eq_true hmade) hpc hcb
      · next hcb =>
        simp only [Option.ite_none_right_eq_some, Bool.and_eq_true, Bool.not_eq_true', Option.some.injEq] at h
        obtain ⟨⟨rfl, hrefs⟩, rfl⟩ := h
        exact .gaveUp t hrefs hpc hcb
    · cases h
  | drop =>
    simp only [regStep] at h
    split at h
    · next t hpc =>
      obtain rfl := Option.some.inj h
      exact .drop t hpc
    · cases h
  | ref q =>
    simp only [regStep, Option.ite_none_right_eq_some] at h
    obtain ⟨⟨hpc, href⟩, h⟩ := h
    split at h
    · next t hq =>
      obtain rfl := Option.some.inj h
      exact .ref q t href hpc hq
    · next hq =>
      obtain rfl := Option.some.inj h
      exact .notRef q href hpc hq
  | put t =>
    simp only [regStep, Option.ite_none_right_eq_some, Option.some.injEq] at h
    obtain ⟨⟨hpc, hmem⟩, rfl⟩ := h
    exact .put t hpc hmem
  | destroy t =>
    simp only [regStep, Option.ite_none_right_eq_some, Option.some.injEq] at h
    obtain ⟨⟨hpc, hdestroys, hmem⟩, rfl⟩ := h
    exact .destroy t hdestroys hpc hmem

/-! ### References -/

/-- The references to `t` that a call in progress holds. -/
def Pc.holds : Pc T → T → ℕ
  | .idle, _ => 0
  | .inCallback u, t => if u = t then 1 else 0
  | .dropping u, t => if u = t then 1 else 0

/-- The references to `t` that a thread holds. -/
def Thread.holds (th : Thread T) (t : T) : ℕ := th.pc.holds t + th.objects.count t + th.refs.count t

variable [Fintype Tid]

/-- The references to `t` that were taken and not yet dropped. -/
def Shared.outstanding (s : Shared Tid T) (t : T) : ℕ := ∑ i, (s.threads i).holds t

/-- Only the references of the thread that moves change. -/
theorem outstanding_set (s : Shared Tid T) (i : Tid) (r : Registry T) (th : Thread T) (t : T) :
    (s.set i r th).outstanding t + (s.threads i).holds t = s.outstanding t + th.holds t := by
  unfold Shared.outstanding
  rw [← Finset.add_sum_erase _ _ (Finset.mem_univ i), ← Finset.add_sum_erase _ (fun j => (s.threads j).holds t)
    (Finset.mem_univ i)]
  have hrest : ∑ j ∈ Finset.univ.erase i, ((s.set i r th).threads j).holds t
      = ∑ j ∈ Finset.univ.erase i, (s.threads j).holds t := by
    apply Finset.sum_congr rfl
    intro j hj
    simp only [Shared.set, Function.update_of_ne (Finset.ne_of_mem_erase hj)]
  rw [hrest]
  simp only [Shared.set, Function.update_self]
  omega

omit [DecidableEq Tid] in
/-- A thread's own references are among those outstanding. -/
theorem holds_le_outstanding (s : Shared Tid T) (i : Tid) (t : T) :
    (s.threads i).holds t ≤ s.outstanding t :=
  Finset.single_le_sum (f := fun j => (s.threads j).holds t) (fun _ _ => Nat.zero_le _) (Finset.mem_univ i)

/-- All that a step can do to the registry and to the references outstanding. -/
inductive Effect {Q : Type} (api : Api T Q) (s s' : Shared Tid T) : Prop where
  /-- Neither changes. -/
  | stay (hr : s'.registry = s.registry) (ho : ∀ u, s'.outstanding u = s.outstanding u)
  /-- A type is registered. -/
  | register (t : T) (hr : api.register t s.registry = .ok s'.registry)
      (ho : ∀ u, s'.outstanding u = s.outstanding u)
  /-- A type is unregistered. -/
  | unregister (t : T) (hr : api.unregister t s.registry = .ok s'.registry)
      (ho : ∀ u, s'.outstanding u = s.outstanding u)
  /-- A reference is taken to a type that was looked up. -/
  | take (q : Q) (t : T) (hq : api.lookup q s.registry = some t) (hr : s'.registry = s.registry.inc t)
      (ho : ∀ u, s'.outstanding u = s.outstanding u + if t = u then 1 else 0)
  /-- A reference is dropped. -/
  | drop (t : T) (hr : s'.registry = s.registry.dec t)
      (ho : ∀ u, s'.outstanding u + (if t = u then 1 else 0) = s.outstanding u)

omit [DecidableEq T] in
/-- The registry after a locked section: unchanged when it failed. -/
theorem Registry.after_cases (s : Registry T) (r : Except Errno (Registry T)) :
    r = .ok (s.after r) ∨ s.after r = s := by
  cases r with
  | ok s' => exact .inl rfl
  | error e => exact .inr rfl

omit [Fintype Tid] in
theorem count_erase_add {l : List T} {t : T} (h : t ∈ l) (u : T) :
    (l.erase t).count u + (if t = u then 1 else 0) = l.count u := by
  have hpos : 0 < l.count t := List.count_pos_iff.mpr h
  rw [List.count_erase]
  by_cases htu : t = u
  · subst htu
    simp only [beq_self_eq_true, if_true]
    omega
  · have : (t == u) = false := by simpa using htu
    simp [this, htu]

/-- **Every step has one of these effects.** -/
theorem regStep_effect {k : Kind} {f : T → k.Struct F} {s s' : Shared Tid T}
    {a : Tid × RegAction T k.Query} (h : regStep k f s a = some s') : Effect (k.api f) s s' := by
  obtain ⟨i, a⟩ := a
  cases regStep_cases h with
  | register t _ =>
    rcases s.registry.after_cases ((k.api f).register t s.registry) with hok | hsame
    · exact .register t hok fun _ => rfl
    · exact .stay hsame fun _ => rfl
  | unregister t _ =>
    rcases s.registry.after_cases ((k.api f).unregister t s.registry) with hok | hsame
    · exact .unregister t hok fun _ => rfl
    · exact .stay hsame fun _ => rfl
  | enter q t hpc hq =>
    apply Effect.take q t hq rfl
    intro u
    have := outstanding_set s i (s.registry.inc t) { s.threads i with pc := .inCallback t } u
    simp only [Thread.holds, hpc, Pc.holds] at this ⊢
    omega
  | notEntered q _ _ => exact .stay rfl fun _ => rfl
  | made t g _ hpc _ =>
    -- the reference passes to the object
    refine .stay rfl ?_
    intro u
    have := outstanding_set s i s.registry { s.threads i with pc := .idle, objects := t :: (s.threads i).objects } u
    simp only [Thread.holds, hpc, Pc.holds, List.count_cons, beq_iff_eq] at this ⊢
    omega
  | called ok t g _ hpc _ | gaveUp t _ hpc _ =>
    -- or waits to be dropped
    refine .stay rfl ?_
    intro u
    have := outstanding_set s i s.registry { s.threads i with pc := .dropping t } u
    simp only [Thread.holds, hpc, Pc.holds] at this ⊢
    omega
  | drop t hpc =>
    apply Effect.drop t rfl
    intro u
    have := outstanding_set s i (s.registry.dec t) { s.threads i with pc := .idle } u
    simp only [Thread.holds, hpc, Pc.holds] at this ⊢
    omega
  | ref q t _ _ hq =>
    apply Effect.take q t hq rfl
    intro u
    have := outstanding_set s i (s.registry.inc t) { s.threads i with refs := t :: (s.threads i).refs } u
    simp only [Thread.holds, List.count_cons, beq_iff_eq] at this ⊢
    omega
  | notRef q _ _ _ => exact .stay rfl fun _ => rfl
  | put t _ hmem =>
    apply Effect.drop t rfl
    intro u
    have := outstanding_set s i (s.registry.dec t) { s.threads i with refs := (s.threads i).refs.erase t } u
    have hcount := count_erase_add hmem u
    simp only [Thread.holds] at this ⊢
    omega
  | destroy t _ hpc hmem =>
    refine .stay rfl ?_
    intro u
    have := outstanding_set s i s.registry
      { s.threads i with pc := .dropping t, objects := (s.threads i).objects.erase t } u
    have hcount := count_erase_add hmem u
    simp only [Thread.holds, hpc, Pc.holds] at this ⊢
    omega

omit [DecidableEq Tid] in
/-- What is known of the default survives every step. -/
theorem Effect.good {Q : Type} {api : Api T Q} {good : Registry T → Prop} (hl : api.Lawful good)
    {s s' : Shared Tid T} (he : Effect api s s') (h : good s.registry) : good s'.registry := by
  cases he with
  | stay hr => rw [hr]; exact h
  | register t hr => exact (hl.register_ok h hr).1
  | unregister t hr => exact (hl.unregister_ok h hr).1
  | take q t _ hr => exact hl.good_congr (by rw [hr]; rfl) (by rw [hr]; rfl) h
  | drop t hr => exact hl.good_congr (by rw [hr]; rfl) (by rw [hr]; rfl) h

/-! ### Reference safety -/

/-- Every counter stays in the range that `cfe_atomic_get` can return. -/
def InInt {A : Type} (_ : Shared Tid T) (_ : A) (s' : Shared Tid T) : Prop :=
  ∀ t, (s'.registry.refcnt t).val < 2 ^ 31

instance {A : Type} [Fintype T] (s : Shared Tid T) (a : A) (s' : Shared Tid T) : Decidable (InInt s a s') :=
  inferInstanceAs (Decidable (∀ t, (s'.registry.refcnt t).val < 2 ^ 31))

/-- What ties the counters to the list and to the references outstanding. -/
structure CounterInv (good : Registry T → Prop) (s : Shared Tid T) : Prop where
  good : good s.registry
  nodup : s.registry.list.Nodup
  listed : ∀ t ∈ s.registry.list, (s.registry.refcnt t).val = 1 + s.outstanding t
  unlisted : ∀ t ∉ s.registry.list, s.outstanding t = 0 ∧ (s.registry.refcnt t).val ≤ 1

/-- The same, with every counter in the range of `int`. -/
structure RefcntInv (good : Registry T → Prop) (s : Shared Tid T) : Prop where
  good : good s.registry
  nodup : s.registry.list.Nodup
  listed : ∀ t ∈ s.registry.list, (s.registry.refcnt t).val = 1 + s.outstanding t
  unlisted : ∀ t ∉ s.registry.list, s.outstanding t = 0 ∧ (s.registry.refcnt t).val ≤ 1
  range : ∀ t, (s.registry.refcnt t).val < 2 ^ 31

omit [DecidableEq Tid] in
/-- A type with a reference outstanding is registered. -/
theorem CounterInv.mem {good : Registry T → Prop} {s : Shared Tid T} (h : CounterInv good s) {t : T}
    (ht : 0 < s.outstanding t) : t ∈ s.registry.list := by
  by_contra hmem
  have := (h.unlisted t hmem).1
  omega

omit [DecidableEq Tid] in
/-- A counter that is `1` counts no reference. -/
theorem CounterInv.outstanding_eq_zero {good : Registry T → Prop} {s : Shared Tid T} (h : CounterInv good s)
    {t : T} (ht : (s.registry.refcnt t).val = 1) : s.outstanding t = 0 := by
  by_cases hmem : t ∈ s.registry.list
  · have := h.listed t hmem
    omega
  · exact (h.unlisted t hmem).1

omit [DecidableEq Tid] in
theorem counterInv_init {Q : Type} {api : Api T Q} {good : Registry T → Prop} (hl : api.Lawful good) :
    CounterInv good (⟨Registry.empty, fun _ => {}⟩ : Shared Tid T) := by
  constructor
  · exact hl.good_empty
  · exact List.nodup_nil
  · intro t ht
    cases ht
  · intro t _
    constructor
    · simp [Shared.outstanding, Thread.holds, Pc.holds]
    · simp [Registry.empty, CfeAtomic.val]

section

omit [DecidableEq Tid]

variable {Q : Type} {api : Api T Q} {good : Registry T → Prop} {s s' : Shared Tid T} {t : T}

theorem CounterInv.refcntInv (h : CounterInv good s) (hr : ∀ t, (s.registry.refcnt t).val < 2 ^ 31) :
    RefcntInv good s :=
  ⟨h.good, h.nodup, h.listed, h.unlisted, hr⟩

theorem RefcntInv.counterInv (h : RefcntInv good s) : CounterInv good s :=
  ⟨h.good, h.nodup, h.listed, h.unlisted⟩

/-- A type that `register` accepts was not registered, so nothing refers to it when `1` is
stored in its counter. -/
theorem CounterInv.register (hl : api.Lawful good) (h : CounterInv good s)
    (hr : api.register t s.registry = .ok s'.registry) (ho : ∀ u, s'.outstanding u = s.outstanding u) :
    CounterInv good s' := by
  obtain ⟨hg, hnew, hlist, hcnt⟩ := hl.register_ok h.good hr
  refine ⟨hg, ?_, ?_, ?_⟩
  · rw [hlist]
    apply List.nodup_append.mpr
    refine ⟨h.nodup, List.nodup_singleton t, ?_⟩
    intro a ha b hb hab
    obtain rfl := List.mem_singleton.mp hb
    exact hnew (hab ▸ ha)
  · intro u hu
    rw [ho, hcnt]
    by_cases hut : u = t
    · subst hut
      rw [Function.update_self, (h.unlisted u hnew).1]
      rfl
    · rw [Function.update_of_ne hut]
      rw [hlist] at hu
      exact h.listed u (by simpa [hut] using hu)
  · intro u hu
    rw [hlist] at hu
    have hut : u ≠ t := fun hut => hu (by simp [hut])
    rw [ho, hcnt, Function.update_of_ne hut]
    exact h.unlisted u fun hmem => hu (List.mem_append_left _ hmem)

/-- A type may be taken out when nothing refers to it. -/
theorem CounterInv.unregister (hl : api.Lawful good) (h : CounterInv good s) (ht : s.outstanding t = 0)
    (hr : api.unregister t s.registry = .ok s'.registry) (ho : ∀ u, s'.outstanding u = s.outstanding u) :
    CounterInv good s' := by
  obtain ⟨hg, -, hlist, hcnt⟩ := hl.unregister_ok h.good hr
  refine ⟨hg, by rw [hlist]; exact h.nodup.erase t, ?_, ?_⟩
  · intro u hu
    rw [ho, hcnt]
    rw [hlist] at hu
    exact h.listed u (List.mem_of_mem_erase hu)
  · intro u hu
    rw [ho, hcnt]
    by_cases hut : u = t
    · subst hut
      refine ⟨ht, ?_⟩
      by_cases hmem : u ∈ s.registry.list
      · have := h.listed u hmem
        omega
      · exact (h.unlisted u hmem).2
    · rw [hlist] at hu
      exact h.unlisted u fun hmem => hu ((List.mem_erase_of_ne hut).mpr hmem)

/-- A reference is counted when it is taken. -/
theorem CounterInv.take (hg : good s'.registry) (h : CounterInv good s) (hmem : t ∈ s.registry.list)
    (hlt : (s.registry.refcnt t).val < 2 ^ 63) (hr : s'.registry = s.registry.inc t)
    (ho : ∀ u, s'.outstanding u = s.outstanding u + if t = u then 1 else 0) : CounterInv good s' := by
  have hlist : s'.registry.list = s.registry.list := by rw [hr]; rfl
  refine ⟨hg, by rw [hlist]; exact h.nodup, ?_, ?_⟩
  · intro u hu
    rw [hlist] at hu
    rw [ho, hr]
    by_cases hut : t = u
    · subst hut
      rw [Registry.inc_refcnt_self, val_cfeAtomicInc hlt, h.listed t hu, if_pos rfl]
      omega
    · rw [Registry.inc_refcnt_of_ne _ (Ne.symm hut), if_neg hut]
      exact h.listed u hu
  · intro u hu
    rw [hlist] at hu
    have hut : t ≠ u := fun hut => hu (hut ▸ hmem)
    rw [ho, hr, Registry.inc_refcnt_of_ne _ hut.symm, if_neg hut]
    exact h.unlisted u hu

/-- And it is taken off the counter when it is dropped; the type is registered until then. -/
theorem CounterInv.drop (hg : good s'.registry) (h : CounterInv good s) (hr : s'.registry = s.registry.dec t)
    (ho : ∀ u, s'.outstanding u + (if t = u then 1 else 0) = s.outstanding u) : CounterInv good s' := by
  have hpos : 0 < s.outstanding t := by
    have hot := ho t
    rw [if_pos rfl] at hot
    omega
  have hmem := h.mem hpos
  have hlist : s'.registry.list = s.registry.list := by rw [hr]; rfl
  refine ⟨hg, by rw [hlist]; exact h.nodup, ?_, ?_⟩
  · intro u hu
    rw [hlist] at hu
    have hou := ho u
    rw [hr]
    by_cases hut : t = u
    · subst hut
      rw [if_pos rfl] at hou
      rw [Registry.dec_refcnt_self, val_cfeAtomicDec (by rw [h.listed t hu]; omega), h.listed t hu]
      omega
    · rw [if_neg hut] at hou
      rw [Registry.dec_refcnt_of_ne _ (Ne.symm hut), h.listed u hu, ← hou]
      rfl
  · intro u hu
    rw [hlist] at hu
    have hou := ho u
    have hut : t ≠ u := fun hut => hu (hut ▸ hmem)
    rw [if_neg hut] at hou
    rw [hr, Registry.dec_refcnt_of_ne _ hut.symm]
    have := h.unlisted u hu
    omega

/-- Every effect keeps the invariant, as long as no type is taken out while something
refers to it, and no counter leaves the range of `long`. -/
theorem CounterInv.effect (hl : api.Lawful good) (h : CounterInv good s) (he : Effect api s s')
    (hun : ∀ t ∈ s.registry.list, api.unregister t s.registry = .ok s'.registry → s.outstanding t = 0)
    (hlt : ∀ t ∈ s.registry.list, s.outstanding t < s'.outstanding t → (s.registry.refcnt t).val < 2 ^ 63) :
    CounterInv good s' := by
  have hg := he.good hl h.good
  cases he with
  | stay hr ho =>
    constructor
    · exact hg
    · rw [hr]
      exact h.nodup
    · intro t ht
      rw [hr] at ht ⊢
      rw [ho]
      exact h.listed t ht
    · intro t ht
      rw [hr] at ht ⊢
      rw [ho]
      exact h.unlisted t ht
  | register t hr ho => exact h.register hl hr ho
  | unregister t hr ho =>
    have hzero : s.outstanding t = 0 := by
      by_cases hmem : t ∈ s.registry.list
      · exact hun t hmem hr
      · exact (h.unlisted t hmem).1
    exact h.unregister hl hzero hr ho
  | take q t hq hr ho =>
    have hmem := hl.lookup_mem h.good hq
    apply h.take hg hmem _ hr ho
    apply hlt t hmem
    rw [ho, if_pos rfl]
    exact Nat.lt_succ_self _
  | drop t hr ho => exact h.drop hg hr ho

/-- In the range of `int`, `unregister` only takes out a type that nothing refers to. -/
theorem RefcntInv.effect (hl : api.Lawful good) (h : RefcntInv good s) (he : Effect api s s')
    (hr' : ∀ t, (s'.registry.refcnt t).val < 2 ^ 31) : RefcntInv good s' := by
  apply CounterInv.refcntInv _ hr'
  apply h.counterInv.effect hl he
  · intro t _ hr
    obtain ⟨-, hone, -⟩ := hl.unregister_ok h.good hr
    rw [cfeAtomicGet_eq_one_iff (h.range t)] at hone
    exact h.counterInv.outstanding_eq_zero hone
  · intro t _ _
    have hrange := h.range t
    omega

end

theorem RefcntInv.of_reachable {k : Kind} {f : T → k.Struct F} {s : Shared Tid T}
    (h : (regSystem Tid k f).Reachable InInt s) : RefcntInv k.Good s := by
  apply h.invariant
  · apply (counterInv_init (k.lawful f)).refcntInv
    intro t
    simp [Registry.empty, CfeAtomic.val]
  · intro t a u ih hst hr
    exact ih.effect (k.lawful f) (regStep_effect hst) hr

/-- **Reference safety.** In every state that any threads reach by any order of
their steps, in any of the six registries, while every counter stays below
`2 ^ 31`: the counter of a registered type is one more than the number of
references to it that were taken and not yet dropped; a type to which there is
such a reference, in a call in progress or by an object or directly, is
registered; a type that is not registered has none, and its counter is `0` or
`1`; and `unregister` of a type to which there is such a reference fails with
`EBUSY`. -/
theorem registry_reference_safety {k : Kind} {f : T → k.Struct F} {s : Shared Tid T}
    (h : (regSystem Tid k f).Reachable InInt s) :
    (∀ t ∈ s.registry.list, (s.registry.refcnt t).val = 1 + s.outstanding t) ∧
    (∀ i t, 0 < (s.threads i).holds t → t ∈ s.registry.list) ∧
    (∀ t ∉ s.registry.list, s.outstanding t = 0 ∧ (s.registry.refcnt t).val ≤ 1) ∧
    (∀ t, 0 < s.outstanding t → (k.api f).unregister t s.registry = .error EBUSY) := by
  have hinv := RefcntInv.of_reachable h
  refine ⟨hinv.listed, fun i t ht => hinv.counterInv.mem (lt_of_lt_of_le ht (holds_le_outstanding s i t)), hinv.unlisted,
    ?_⟩
  intro t ht
  have hval := hinv.listed t (hinv.counterInv.mem ht)
  have hbusy : cfeAtomicGet (s.registry.refcnt t) ≠ 1 := by
    rw [Ne, cfeAtomicGet_eq_one_iff (hinv.range t)]
    omega
  exact k.unregister_busy f hbusy

/-- Two header types, of versions `1` and `2`, with a callback each. -/
def twoHeaders : Bool → CfeHeaderType Unit
  | false => ⟨1, some ()⟩
  | true => ⟨2, some ()⟩

/-- Two threads make headers of the default version; one is still in `alloc` while
the other has closed its header up to the decrement. -/
theorem registry_reference_safety_two_threads :
    ∃ s : Shared Bool Bool, (regSystem Bool (.format .header) twoHeaders).Reachable InInt s ∧
      s.outstanding true = 2 ∧ (s.registry.refcnt true).val = 3 := by
  have h := System.reachable_of_exec (S := regSystem Bool (.format .header) twoHeaders) (C := InInt)
    [(false, .register false), (true, .register true), (false, .enter (-1 : BitVec 32)), (true, .enter (-1 : BitVec 32)),
      (false, .callback true), (false, .destroy true)] (by decide)
  refine ⟨_, h, by decide, ?_⟩
  rw [(registry_reference_safety h).1 true (by decide)]
  decide

end LibCfe
