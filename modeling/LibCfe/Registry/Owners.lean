import LibCfe.Registry.Concurrent

/-!
# A registry within a larger system

The threads of `LibCfe.Registry.Concurrent` do nothing but use one registry. Those of
the library do more: a call of `cfe_create` holds references in three registries at
once. Here a system may have any states and steps; of each state only a registry and
the references that each thread holds in it are looked at. `RefChange` is what a step
of a thread may do to them.

## What is proved

* `RefChange.effect` — such a step has one of the effects of `regStep`.
* `refcntInv_of_refChanges` — a system whose steps are of this kind keeps every counter
  one more than the references held, while no counter reaches `2 ^ 31`.
* `RefcntInv.refsCounted` — what that says: the counters count the references, and a type
  that a thread holds a reference to is registered and cannot be unregistered.
-/

namespace LibCfe

open Theory

variable {Tid T Q : Type} [DecidableEq Tid] [DecidableEq T]

/-- A registry and the references each thread holds in it. -/
def sharedRefs (r : Registry T) (refs : Tid → List T) : Shared Tid T := ⟨r, fun i => { refs := refs i }⟩

/-- What a step of a thread does to a registry and to the references the thread holds. -/
inductive RefChange (api : Api T Q) (r r' : Registry T) (l l' : List T) : Prop where
  /-- Nothing. -/
  | keep (hr : r' = r) (hl : l'.Perm l)
  /-- It registers a type. -/
  | register (t : T) (hr : api.register t r = .ok r') (hl : l'.Perm l)
  /-- It unregisters a type. -/
  | unregister (t : T) (hr : api.unregister t r = .ok r') (hl : l'.Perm l)
  /-- It takes a reference to a type that it looks up. -/
  | take (q : Q) (t : T) (hq : api.lookup q r = some t) (hr : r' = r.inc t) (hl : l'.Perm (t :: l))
  /-- It drops a reference. -/
  | drop (t : T) (hr : r' = r.dec t) (hl : l.Perm (t :: l'))

section

variable {api : Api T Q} {r r' : Registry T} {l l' : List T}

/-- References that are held before and after do not matter. -/
theorem RefChange.append (h : RefChange api r r' l l') (m : List T) : RefChange api r r' (l ++ m) (l' ++ m) := by
  cases h with
  | keep hr hl => exact .keep hr (hl.append_right m)
  | register t hr hl => exact .register t hr (hl.append_right m)
  | unregister t hr hl => exact .unregister t hr (hl.append_right m)
  | take q t hq hr hl => exact .take q t hq hr (hl.append_right m)
  | drop t hr hl => exact .drop t hr (hl.append_right m)

/-- A locked section that may fail. -/
theorem RefChange.registerAfter (t : T) (hl : l'.Perm l) :
    RefChange api r (r.after (api.register t r)) l l' := by
  rcases r.after_cases (api.register t r) with hok | hsame
  · exact .register t hok hl
  · exact .keep hsame hl

theorem RefChange.unregisterAfter (t : T) (hl : l'.Perm l) :
    RefChange api r (r.after (api.unregister t r)) l l' := by
  rcases r.after_cases (api.unregister t r) with hok | hsame
  · exact .unregister t hok hl
  · exact .keep hsame hl

end

omit [DecidableEq Tid] in
theorem sharedRefs_holds (r : Registry T) (refs : Tid → List T) (i : Tid) (t : T) :
    ((sharedRefs r refs).threads i).holds t = (refs i).count t := by
  simp [sharedRefs, Thread.holds, Pc.holds]

omit [DecidableEq T] in
/-- Another list of references for one thread. -/
theorem sharedRefs_update (r r' : Registry T) (refs : Tid → List T) (i : Tid) (l : List T) :
    sharedRefs r' (Function.update refs i l) = (sharedRefs r refs).set i r' { refs := l } := by
  simp only [sharedRefs, Shared.set, Shared.mk.injEq, true_and]
  funext j
  by_cases hj : j = i
  · subst hj
    simp
  · simp [hj]

variable [Fintype Tid]

theorem outstanding_sharedRefs (r r' : Registry T) (refs : Tid → List T) (i : Tid) (l : List T) (t : T) :
    (sharedRefs r' (Function.update refs i l)).outstanding t + (refs i).count t =
      (sharedRefs r refs).outstanding t + l.count t := by
  have h := outstanding_set (sharedRefs r refs) i r' { refs := l } t
  rw [sharedRefs_holds] at h
  rw [sharedRefs_update r]
  simpa [Thread.holds, Pc.holds] using h

/-- **A step of a thread has one of the effects of `regStep`.** -/
theorem RefChange.effect {api : Api T Q} {r r' : Registry T} {refs : Tid → List T} {i : Tid} {l' : List T}
    (h : RefChange api r r' (refs i) l') :
    Effect api (sharedRefs r refs) (sharedRefs r' (Function.update refs i l')) := by
  have hset := fun u => outstanding_sharedRefs r r' refs i l' u
  have hkeep : l'.Perm (refs i) →
      ∀ u, (sharedRefs r' (Function.update refs i l')).outstanding u = (sharedRefs r refs).outstanding u := by
    intro hl u
    have hu := hset u
    rw [hl.count_eq] at hu
    omega
  cases h with
  | keep hr hl => exact .stay hr (hkeep hl)
  | register t hr hl => exact .register t hr (hkeep hl)
  | unregister t hr hl => exact .unregister t hr (hkeep hl)
  | take q t hq hr hl =>
    refine .take q t hq hr ?_
    intro u
    have hu := hset u
    rw [hl.count_eq, List.count_cons] at hu
    simp only [beq_iff_eq] at hu
    omega
  | drop t hr hl =>
    refine .drop t hr ?_
    intro u
    have hu := hset u
    rw [hl.count_eq, List.count_cons] at hu
    simp only [beq_iff_eq] at hu
    omega

/-! ### Systems -/

variable {σ α : Type} {S : System σ α} {C : σ → α → σ → Prop} {api : Api T Q} {good : Registry T → Prop}

/-- **Runs whose steps are such**, in the states that are reached. -/
theorem refcntInv_of_refChanges (reg : σ → Registry T) (refs : σ → Tid → List T) (hl : api.Lawful good)
    (hreg : reg S.init = Registry.empty) (hrefs : refs S.init = fun _ => [])
    (hstep : ∀ {s a s'}, S.Reachable C s → S.step s a = some s' →
      ∃ i l', refs s' = Function.update (refs s) i l' ∧ RefChange api (reg s) (reg s') (refs s i) l')
    (hrange : ∀ {s a s'}, C s a s' → ∀ t, ((reg s').refcnt t).val < 2 ^ 31) {s : σ} (h : S.Reachable C s) :
    RefcntInv good (sharedRefs (reg s) (refs s)) := by
  apply h.invariant_with (J := S.Reachable C) fun _ ht => ht
  · have hstart : sharedRefs (reg S.init) (refs S.init) = ⟨Registry.empty, fun _ => {}⟩ := by
      rw [hreg, hrefs]
      rfl
    rw [hstart]
    apply (counterInv_init hl).refcntInv
    intro t
    simp [Registry.empty, CfeAtomic.val]
  · intro t a u hreach ih hst hC
    obtain ⟨i, l', hupdate, hchange⟩ := hstep hreach hst
    have heffect := hchange.effect
    rw [← hupdate] at heffect
    exact ih.effect hl heffect (hrange hC)

/-- The counters of a registry count the references that the threads hold in it, and what
they refer to is registered and cannot be unregistered. -/
structure RefsCounted (api : Api T Q) (r : Registry T) (refs : Tid → List T) : Prop where
  nodup : r.list.Nodup
  counted : ∀ t ∈ r.list, (r.refcnt t).val = 1 + ∑ i, (refs i).count t
  registered : ∀ i, ∀ t ∈ refs i, t ∈ r.list ∧ api.unregister t r = .error EBUSY

omit [DecidableEq Tid] in
/-- What the invariant says of the references. -/
theorem RefcntInv.refsCounted {k : Kind} {F : Type} {f : T → k.Struct F} {r : Registry T} {refs : Tid → List T}
    (h : RefcntInv k.Good (sharedRefs r refs)) : RefsCounted (k.api f) r refs := by
  have hlisted : ∀ t ∈ r.list, (r.refcnt t).val = 1 + (sharedRefs r refs).outstanding t := h.listed
  refine ⟨h.nodup, ?_, ?_⟩
  · intro t ht
    rw [hlisted t ht]
    simp only [Shared.outstanding, sharedRefs_holds]
  · intro i t ht
    have hpos : 0 < (sharedRefs r refs).outstanding t := by
      apply lt_of_lt_of_le _ (holds_le_outstanding (sharedRefs r refs) i t)
      rw [sharedRefs_holds]
      exact List.count_pos_iff.mpr ht
    have hmem : t ∈ r.list := h.counterInv.mem hpos
    have hrange : (r.refcnt t).val < 2 ^ 31 := h.range t
    refine ⟨hmem, k.unregister_busy f ?_⟩
    rw [Ne, cfeAtomicGet_eq_one_iff hrange, hlisted t hmem]
    omega

end LibCfe
