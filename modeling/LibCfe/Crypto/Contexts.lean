import LibCfe.Registry.Owners
import Mathlib.Data.List.Perm.Basic

/-!
# Threads with contexts

The contexts of `src/crypto/hash.c` and of `src/crypto/cipher.c` come and go alike: a
type is looked up, and a reference to it taken, before its `alloc_ctx` is called; a context
is destroyed before the reference is dropped. In between the functions of the front end are
called on it. `Contexts` is what the two differ in, and `Contexts.system` is threads
that allocate, use and destroy contexts while types are registered and unregistered.

Each context belongs to one thread. `cfe_calloc` and `cfe_free` are not part of the model:
a context is there from the return of `alloc_ctx` on until it is destroyed.

## What is proved

* `Contexts.forall_ctxs` — what holds of a new context and is kept by each call on one holds of
  every context, in every state that threads reach.
* `Contexts.counted` — the counters of the types count the contexts and the calls in progress, and the
  type of a context is registered and cannot be unregistered.
-/

namespace LibCfe

open Theory

/-- The contexts of a registry, and the calls `A` on them. -/
structure Contexts (k : Kind) (T F S A : Type) where
  /-- The types. -/
  struct : T → k.Struct F
  /-- `cfe_…_alloc_ctx`, from its call of `alloc_ctx` on. -/
  alloc : T → Option S
  /-- `ctx->type`. -/
  type : S → T
  /-- A call of the front end. -/
  call : S → A → S
  type_alloc : ∀ {t s}, alloc t = some s → type s = t
  type_call : ∀ s a, type (call s a) = type s

variable {k : Kind} {T F S A : Type}

/-- Where a thread is in `cfe_…_alloc_ctx` or `cfe_…_destroy_ctx`. -/
inductive ContextPc (T : Type) where
  /-- In neither. -/
  | idle
  /-- Before the call of `alloc_ctx`. -/
  | alloc (t : T)
  /-- Before the decrement, without a context. -/
  | drop (t : T)

/-- A thread. -/
structure ContextThread (T S : Type) where
  /-- Where it is. -/
  pc : ContextPc T := .idle
  /-- Its contexts. -/
  ctxs : List S := []
  /-- The types it holds references to by `cfe_cipher_ref`. -/
  refs : List T := []

/-- Threads and what they share. -/
structure ContextProcess (Tid T S : Type) where
  /-- The registry. -/
  registry : Registry T
  /-- The threads. -/
  threads : Tid → ContextThread T S

/-- What a thread can do. -/
inductive ContextAction (T Q A : Type) where
  /-- `cfe_…_register`. -/
  | register (t : T)
  /-- `cfe_…_unregister`. -/
  | unregister (t : T)
  /-- The lookup and increment of `cfe_…_alloc_ctx`. -/
  | find (q : Q)
  /-- The call of `alloc_ctx`. -/
  | alloc
  /-- A call on its context number `n`. -/
  | call (n : ℕ) (a : A)
  /-- `cfe_…_destroy_ctx`, up to the decrement. -/
  | destroy (n : ℕ)
  /-- The decrement. -/
  | drop
  /-- `cfe_cipher_ref`. -/
  | ref (q : Q)
  /-- `cfe_cipher_put`. -/
  | put (t : T)

/-- The references that a thread holds. -/
def ContextThread.held (type : S → T) (th : ContextThread T S) : List T :=
  (match th.pc with
    | .idle => []
    | .alloc t => [t]
    | .drop t => [t]) ++ (th.ctxs.map type ++ th.refs)

namespace Contexts

variable [DecidableEq T] (C : Contexts k T F S A)

/-- One step of a thread: the registry and the thread after it. -/
def threadStep (r : Registry T) (th : ContextThread T S) (a : ContextAction T k.Query A) :
    Option (Registry T × ContextThread T S) :=
  match th.pc, a with
  | .idle, .register t => some (r.after ((k.api C.struct).register t r), th)
  | .idle, .unregister t => some (r.after ((k.api C.struct).unregister t r), th)
  | .idle, .find q =>
    match (k.api C.struct).lookup q r with
    | some t => some (r.inc t, { th with pc := .alloc t })
    | none => some (r, th)
  | .alloc t, .alloc =>
    match C.alloc t with
    | some s => some (r, { th with pc := .idle, ctxs := s :: th.ctxs })
    | none => some (r, { th with pc := .drop t })
  | .idle, .call n a => some (r, { th with ctxs := th.ctxs.modify n (C.call · a) })
  | .idle, .destroy n =>
    th.ctxs[n]?.map fun s => (r, { th with pc := .drop (C.type s), ctxs := th.ctxs.eraseIdx n })
  | .drop t, .drop => some (r.dec t, { th with pc := .idle })
  | .idle, .ref q =>
    if k.hasRef then
      match (k.api C.struct).lookup q r with
      | some t => some (r.inc t, { th with refs := t :: th.refs })
      | none => some (r, th)
    else none
  | .idle, .put t => if t ∈ th.refs then some (r.dec t, { th with refs := th.refs.erase t }) else none
  | _, _ => none

variable {Tid : Type} [DecidableEq Tid]

/-- One step, by thread `a.1`. -/
def step (s : ContextProcess Tid T S) (a : Tid × ContextAction T k.Query A) : Option (ContextProcess Tid T S) :=
  (C.threadStep s.registry (s.threads a.1) a.2).map fun (r, th) => ⟨r, Function.update s.threads a.1 th⟩

/-- Nothing is registered, and there are no contexts. -/
def system (Tid : Type) [DecidableEq Tid] : System (ContextProcess Tid T S) (Tid × ContextAction T k.Query A) where
  init := ⟨Registry.empty, fun _ => {}⟩
  step := C.step

/-! ### What a step does -/

/-- All that a step of a thread does. -/
structure Effect (r r' : Registry T) (th th' : ContextThread T S) : Prop where
  refs : RefChange (k.api C.struct) r r' (th.held C.type) (th'.held C.type)
  /-- Each context is an old one, a new one, or one after a call. -/
  ctxs : ∀ s ∈ th'.ctxs, s ∈ th.ctxs ∨ (∃ t, C.alloc t = some s) ∨ ∃ s₀ ∈ th.ctxs, ∃ a, s = C.call s₀ a

omit [DecidableEq T] in
theorem map_modify_of_eq {B : Type} {g : S → B} {f : S → S} (h : ∀ a, g (f a) = g a) (l : List S) (n : ℕ) :
    (l.modify n f).map g = l.map g := by
  apply List.ext_getElem?
  intro i
  rw [List.getElem?_map, List.getElem?_map, List.getElem?_modify]
  cases l[i]? with
  | none => rfl
  | some a => by_cases hi : n = i <;> simp [hi, h]

omit [DecidableEq T] in
theorem mem_modify {f : S → S} {l : List S} {n : ℕ} {s : S} (h : s ∈ l.modify n f) : s ∈ l ∨ ∃ s₀ ∈ l, s = f s₀ := by
  obtain ⟨i, hi⟩ := List.mem_iff_getElem?.mp h
  rw [List.getElem?_modify] at hi
  obtain ⟨b, hb, rfl⟩ := Option.map_eq_some_iff.mp hi
  have hmem := List.mem_of_getElem? hb
  split_ifs
  · exact .inr ⟨b, hmem, rfl⟩
  · exact .inl hmem

variable {C} {r r' : Registry T} {th th' : ContextThread T S}

/-- The contexts stay. -/
theorem Effect.of_refs (h : RefChange (k.api C.struct) r r' (th.held C.type) (th'.held C.type))
    (hctxs : th'.ctxs = th.ctxs) : Effect C r r' th th' := by
  refine ⟨h, ?_⟩
  intro s hs
  exact .inl (hctxs ▸ hs)

/-- A context is made. -/
theorem Effect.alloc {ctxs : List S} {refs : List T} {t : T} {s : S} (h : C.alloc t = some s) :
    Effect C r r ⟨.alloc t, ctxs, refs⟩ ⟨.idle, s :: ctxs, refs⟩ := by
  refine ⟨.keep rfl ?_, ?_⟩
  · simp only [ContextThread.held, List.map_cons, C.type_alloc h]
    exact .rfl
  · intro s' hs'
    rcases List.mem_cons.mp hs' with rfl | hold
    · exact .inr (.inl ⟨t, h⟩)
    · exact .inl hold

/-- A context is destroyed. -/
theorem Effect.destroy {ctxs : List S} {refs : List T} {n : ℕ} {s : S} (h : ctxs[n]? = some s) :
    Effect C r r ⟨.idle, ctxs, refs⟩ ⟨.drop (C.type s), ctxs.eraseIdx n, refs⟩ := by
  obtain ⟨hn, rfl⟩ := List.getElem?_eq_some_iff.mp h
  have hperm := List.getElem_cons_eraseIdx_perm hn
  refine ⟨.keep rfl ((hperm.map C.type).append_right refs), ?_⟩
  intro s hs
  exact .inl (List.mem_of_mem_eraseIdx hs)

/-- **Each step of a thread has such an effect.** -/
theorem threadStep_effect {a : ContextAction T k.Query A} (h : C.threadStep r th a = some (r', th')) :
    Effect C r r' th th' := by
  obtain ⟨pc, ctxs, refs⟩ := th
  cases pc with
  | idle =>
    cases a with
    | register t =>
      cases h
      exact .of_refs (.registerAfter t .rfl) rfl
    | unregister t =>
      cases h
      exact .of_refs (.unregisterAfter t .rfl) rfl
    | find q =>
      simp only [threadStep] at h
      split at h
      · next t hfind =>
        cases h
        exact .of_refs (.take q t hfind rfl .rfl) rfl
      · cases h
        exact .of_refs (.keep rfl .rfl) rfl
    | alloc => cases h
    | call n a =>
      cases h
      refine ⟨.keep rfl ?_, ?_⟩
      · simp only [ContextThread.held]
        rw [map_modify_of_eq fun s => C.type_call s a]
      · intro s hs
        rcases mem_modify hs with hold | ⟨s₀, hs₀, rfl⟩
        · exact .inl hold
        · exact .inr (.inr ⟨s₀, hs₀, a, rfl⟩)
    | destroy n =>
      obtain ⟨s, hs, heq⟩ := Option.map_eq_some_iff.mp h
      cases heq
      exact .destroy hs
    | drop => cases h
    | ref q =>
      simp only [threadStep, Option.ite_none_right_eq_some] at h
      obtain ⟨-, h⟩ := h
      split at h
      · next t hfind =>
        cases h
        exact .of_refs (.take q t hfind rfl List.perm_middle) rfl
      · cases h
        exact .of_refs (.keep rfl .rfl) rfl
    | put t =>
      simp only [threadStep, Option.ite_none_right_eq_some] at h
      obtain ⟨hmem, h⟩ := h
      cases h
      have hperm := ((List.perm_cons_erase hmem).append_left (ctxs.map C.type)).trans List.perm_middle
      exact .of_refs (.drop t rfl hperm) rfl
  | alloc t =>
    cases a with
    | alloc =>
      simp only [threadStep] at h
      split at h
      · next s hs =>
        cases h
        exact .alloc hs
      · cases h
        exact .of_refs (.keep rfl .rfl) rfl
    | _ => cases h
  | drop t =>
    cases a with
    | drop =>
      cases h
      exact .of_refs (.drop t rfl .rfl) rfl
    | _ => cases h

/-! ### Runs -/

/-- Every counter stays in the range that `cfe_atomic_get` can return. -/
def CountersInInt {α : Type} (_ : ContextProcess Tid T S) (_ : α) (s : ContextProcess Tid T S) : Prop :=
  ∀ t, (s.registry.refcnt t).val < 2 ^ 31

instance {α : Type} [Fintype T] (s : ContextProcess Tid T S) (a : α) (s' : ContextProcess Tid T S) :
    Decidable (CountersInInt s a s') :=
  inferInstanceAs (Decidable (∀ t, (s'.registry.refcnt t).val < 2 ^ 31))

variable {s : ContextProcess Tid T S}

/-- A step of the system. -/
theorem step_effect {s' : ContextProcess Tid T S} {i : Tid} {a : ContextAction T k.Query A}
    (h : C.step s (i, a) = some s') :
    ∃ th, s'.threads = Function.update s.threads i th ∧
      Effect C s.registry s'.registry (s.threads i) th := by
  obtain ⟨⟨r, th⟩, hstep, rfl⟩ := Option.map_eq_some_iff.mp h
  exact ⟨th, rfl, threadStep_effect hstep⟩

/-- **What each call keeps** holds of every context. -/
theorem forall_ctxs {P : S → Prop} (halloc : ∀ t s, C.alloc t = some s → P s) (hcall : ∀ s a, P s → P (C.call s a))
    {D : ContextProcess Tid T S → Tid × ContextAction T k.Query A → ContextProcess Tid T S → Prop}
    (h : (C.system Tid).Reachable D s) : ∀ i, ∀ c ∈ (s.threads i).ctxs, P c := by
  apply h.invariant (I := fun s => ∀ i, ∀ c ∈ (s.threads i).ctxs, P c)
  · intro i c hc
    cases hc
  · rintro s ⟨i, a⟩ s' ih hst -
    obtain ⟨th, hthreads, heffect⟩ := step_effect hst
    intro j c hc
    rw [hthreads] at hc
    by_cases hj : j = i
    · subst hj
      rw [Function.update_self] at hc
      rcases heffect.ctxs c hc with hold | ⟨t, ht⟩ | ⟨c₀, hc₀, a, rfl⟩
      · exact ih j c hold
      · exact halloc t c ht
      · exact hcall c₀ a (ih j c₀ hc₀)
    · rw [Function.update_of_ne hj] at hc
      exact ih j c hc

variable [Fintype Tid]

/-- **The counters of the types** count what refers to them. -/
theorem counted (h : (C.system Tid).Reachable CountersInInt s) :
    RefsCounted (k.api C.struct) s.registry fun i => (s.threads i).held C.type := by
  have hinv : RefcntInv k.Good (sharedRefs s.registry fun i => (s.threads i).held C.type) := by
    refine refcntInv_of_refChanges (fun s : ContextProcess Tid T S => s.registry)
      (fun s i => (s.threads i).held C.type) (k.lawful C.struct) rfl rfl ?_ (fun hC => hC) h
    rintro s ⟨i, a⟩ s' - hst
    obtain ⟨th, hthreads, heffect⟩ := step_effect hst
    refine ⟨i, th.held C.type, ?_, heffect.refs⟩
    rw [hthreads]
    exact funext fun j => Function.apply_update (fun _ => ContextThread.held C.type) s.threads i th j
  exact hinv.refsCounted

end Contexts

end LibCfe
