import LibCfe.Registry.Sections
import LibCfe.Theory.Simulation

/-!
# Locked sections are atomic

The threads of `LibCfe.Registry.Sections`, which follow links and store to fields one at a time, do what
the threads of `LibCfe.Registry.Concurrent` do, to which a locked section is one step on
a list. That step is the one in which a section decides what it does: the increment of a lookup, the
store to the counter in `register`, the test of the counter in `unregister`. What a writer then
stores nobody sees before it unlocks, and readers leave the list as it is; so all that has been
said of those threads holds of these.

Names end inside their arrays. A name that runs on into a counter changes while a walk compares it.

## What is proved

* `memSystem_simulation` — the threads that share the nodes simulate those that share the list.
* `registry_sections_atomic` — in every state that threads reach, the nodes are the list of a state that the
  others reach, or will be when a writer has done the stores it has left; and each lookup
  has found what it would find in that list.
-/

namespace LibCfe

open Theory

variable {Tid T F : Type} [DecidableEq T]

/-! ### What a thread knows in a locked section -/

section

variable (k : Kind) (f : T → k.Struct F)

/-- What a walk finds, or the default. -/
def Finder.result (r : Registry T) (c : Finder T k.Query) : Option T :=
  match c.key k f r.refcnt with
  | some key => r.list.find? (k.isFound f r.refcnt key)
  | none => r.dflt

/-- The thread is not in another call, and may make this one. -/
def Finder.Ok (th : Thread T) : Finder T k.Query → Prop
  | .register type => th.pc = .idle ∧ k.accepts f type = true
  | .enter _ => th.pc = .idle
  | .ref _ => th.pc = .idle ∧ k.hasRef = true

/-- A walk has come so far: the nodes behind it are not what it looks for. -/
def Finder.Walked (r : Registry T) (pos : Option (Node T)) (c : Finder T k.Query) : Prop :=
  (c.key k f r.refcnt).isSome = true ∧ ∃ l₁ l₂, r.list = l₁ ++ l₂ ∧ pos = (l₂.map Node.of ++ [Node.head]).head? ∧
    ∀ u ∈ l₁, c.isFound k f r.refcnt u = false

/-- What a thread knows of the registry. -/
def SectionOk (r : Registry T) (th : Thread T) : Section T k.Query → Prop
  | .find c => c.Ok k f th
  | .walk c pos => c.Ok k f th ∧ c.Walked k f r pos
  | .found c type => c.Ok k f th ∧ type = c.result k f r
  | .test _ => th.pc = .idle
  | .store stores _ => stores.length ≤ 4
  | .unlock => True

end

variable {k : Kind} {f : T → k.Struct F}

section

variable {r r' : Registry T} {th : Thread T}

omit [DecidableEq T] in
/-- The key that is looked for does not depend on the counters, -/
theorem Finder.key_congr (hname : ∀ t, k.KeyEnds (f t)) (rc rc' : T → CfeAtomic) (c : Finder T k.Query) :
    c.key k f rc = c.key k f rc' := by
  cases c with
  | register t => exact congrArg some (Kind.keyOf_congr hname rc rc' t)
  | enter q => rfl
  | ref q => rfl

omit [DecidableEq T] in
/-- and nor does the comparison. -/
theorem Finder.isFound_congr (hname : ∀ t, k.KeyEnds (f t)) (rc rc' : T → CfeAtomic) (c : Finder T k.Query) :
    c.isFound k f rc = c.isFound k f rc' := by
  funext u
  simp only [Finder.isFound, Finder.key_congr hname rc rc', Kind.isFound_congr hname rc rc']

omit [DecidableEq T] in
/-- What a thread knows does not depend on the counters. -/
theorem SectionOk.congr (hname : ∀ t, k.KeyEnds (f t)) (hlist : r'.list = r.list) (hdflt : r'.dflt = r.dflt)
    {sec : Section T k.Query} (h : SectionOk k f r th sec) : SectionOk k f r' th sec := by
  cases sec with
  | walk c pos =>
    obtain ⟨hok, hkey, hwalked⟩ := h
    refine ⟨hok, ?_, ?_⟩
    · rw [Finder.key_congr hname r'.refcnt r.refcnt]
      exact hkey
    · rw [hlist, Finder.isFound_congr hname r'.refcnt r.refcnt]
      exact hwalked
  | found c type =>
    refine ⟨h.1, ?_⟩
    rw [h.2]
    simp only [Finder.result, hlist, hdflt, Finder.key_congr hname r'.refcnt r.refcnt,
      Kind.isFound_congr hname r'.refcnt r.refcnt]
  | find c => exact h
  | test t => exact h
  | store stores new => exact h
  | unlock => trivial

omit [DecidableEq T] in
/-- The comparison in the loop, when there is something to look for. -/
theorem Finder.result_of_key {c : Finder T k.Query} (hkey : (c.key k f r.refcnt).isSome = true) :
    c.result k f r = r.list.find? (c.isFound k f r.refcnt) := by
  obtain ⟨key, hkey⟩ := Option.isSome_iff_exists.mp hkey
  simp only [Finder.result, hkey]
  congr 1
  funext u
  simp only [Finder.isFound, hkey, Option.any_some]

end

/-! ### Lists that change -/

section

variable {links : Links (Node T)} {refcnt : T → CfeAtomic} {a : Registry T} {t : T}

/-- A type that is in no list is linked in. -/
theorem Represents.append (h : Represents ⟨links, refcnt⟩ a) (ht : t ∉ a.list) (v : CfeAtomic) (dflt : Option T) :
    ∃ links', listAddTail (.of t) .head links = some links' ∧
      Represents ⟨links', Function.update refcnt t v⟩ ⟨a.list ++ [t], dflt, Function.update a.refcnt t v⟩ := by
  have hnode : Node.of t ∉ Node.head :: a.list.map .of := by simpa using ht
  obtain ⟨links', hlinks, hring, hframe⟩ := listAddTail_ring h.ring h.head_nodup hnode
  refine ⟨links', hlinks, by simpa using hring, ?_, by rw [← h.refcnt], ?_⟩
  · refine List.nodup_append.mpr ⟨h.nodup, List.nodup_singleton t, ?_⟩
    intro x hx y hy hxy
    rw [List.mem_singleton] at hy
    exact ht (hy ▸ hxy ▸ hx)
  · -- what is linked to itself stays so
    intro u hu hone
    obtain ⟨hu', hut⟩ : u ∉ a.list ∧ u ≠ t := by simpa using hu
    simp only [Function.update_of_ne hut] at hone
    obtain ⟨hnext, hprev⟩ := hframe (.of u) (by simp [hu', hut])
    obtain ⟨hself, hself'⟩ := h.selfLinked u hu' hone
    exact ⟨hnext.trans hself, hprev.trans hself'⟩

/-- A type that nobody uses is taken out. -/
theorem Represents.erase (h : Represents ⟨links, refcnt⟩ a) (hone : cfeAtomicGet (a.refcnt t) = 1) :
    ∃ links', listDelInit (.of t) links = some links' ∧
      Represents ⟨links', refcnt⟩ { a with list := a.list.erase t } := by
  have hok : cryptoUnregister t a = .ok { a with list := a.list.erase t } := if_neg (not_not.mpr hone)
  obtain ⟨s', hs', hrep⟩ := ptrUnregister_ok h hok
  have hone' : ¬cfeAtomicGet (refcnt t) ≠ 1 := by
    have hrefcnt : refcnt = a.refcnt := h.refcnt
    rw [hrefcnt]
    exact not_not.mpr hone
  rw [ptrUnregister, if_neg hone'] at hs'
  cases hdel : listDelInit (Node.of t) links with
  | none =>
    rw [hdel] at hs'
    cases hs'
  | some links' =>
    rw [hdel] at hs'
    cases hs'
    exact ⟨links', rfl, hrep⟩

end

/-! ### The simulation -/

variable [DecidableEq Tid]

/-- Every counter stays in the range that `cfe_atomic_get` can return. -/
def MemInInt {Q A : Type} (_ : Memory Tid T Q) (_ : A) (s' : Memory Tid T Q) : Prop :=
  ∀ t, (s'.refcnt t).val < 2 ^ 31

instance {Q A : Type} [Fintype T] (s : Memory Tid T Q) (a : A) (s' : Memory Tid T Q) : Decidable (MemInInt s a s') :=
  inferInstanceAs (Decidable (∀ t, (s'.refcnt t).val < 2 ^ 31))

/-- A state of the threads that share the nodes, and the state of those that share the list in which each
locked section is one step: the one that decides what it does. While a thread has stores left, the list
is already what it will be. -/
structure MemMatches (k : Kind) (f : T → k.Struct F) (s : Memory Tid T k.Query) (t : Shared Tid T) : Prop where
  reachable : (regSystem Tid k f).Reachable InInt t
  threads : t.threads = s.threads
  agrees : RwLock.Agrees Section.Writes s.lock s.sections
  sections : ∀ i sec, s.sections i = some sec → SectionOk k f t.registry (t.threads i) sec
  /-- When nobody has stores left, the nodes are the list. -/
  settled : (∀ i l new, s.sections i ≠ some (.store l new)) →
    Represents ⟨s.links, s.refcnt⟩ t.registry ∧ s.dflt = t.registry.dflt
  /-- With the stores that are left, they will be. -/
  storing : ∀ i l new, s.sections i = some (.store l new) →
    (∃ links, runStores s.links l = some links ∧ Represents ⟨links, s.refcnt⟩ t.registry) ∧
      (new.elim s.dflt fun type => k.newDefault f type s.dflt) = t.registry.dflt

/-- A step is matched. -/
def MemMatched (k : Kind) (f : T → k.Struct F) (s' : Memory Tid T k.Query) (t : Shared Tid T) : Prop :=
  ∃ bs t', (regSystem Tid k f).Runs InInt t bs t' ∧ MemMatches k f s' t'

namespace MemMatches

variable {s s' : Memory Tid T k.Query} {t t' : Shared Tid T} {i : Tid} {sec : Section T k.Query}

/-- The list does not see it. -/
theorem stay (h : MemMatches k f s' t) : MemMatched k f s' t := ⟨[], t, .refl, h⟩

/-- The list takes one step too. -/
theorem one {a : Tid × RegAction T k.Query} (h : MemMatches k f s t) (hst : regStep k f t a = some t')
    (hint : InInt t a t') (hs' : (regSystem Tid k f).Reachable InInt t' → MemMatches k f s' t') : MemMatched k f s' t := by
  have hruns : (regSystem Tid k f).Runs InInt t [a] t' := .step .refl hst hint
  exact ⟨[a], t', hruns, hs' (h.reachable.runs hruns)⟩

omit [DecidableEq Tid] in
/-- In a locked section with no stores left, nobody has any. -/
theorem settled_of_section [DecidableEq Tid] (h : MemMatches k f s t) (hi : s.sections i = some sec)
    (hsec : ∀ l new, sec ≠ .store l new) : Represents ⟨s.links, s.refcnt⟩ t.registry ∧ s.dflt = t.registry.dflt := by
  refine h.settled fun j l new hj => ?_
  by_cases hij : i = j
  · subst hij
    rw [hi] at hj
    exact hsec l new (Option.some.inj hj)
  · have hnone := h.agrees.alone hj trivial hij
    rw [hi] at hnone
    cases hnone

/-- One thread enters, leaves or goes on, and the registry stays as it is. -/
theorem move (h : MemMatches k f s t) {lock : RwLock Tid} {sec' : Option (Section T k.Query)}
    (hsettled : Represents ⟨s.links, s.refcnt⟩ t.registry ∧ s.dflt = t.registry.dflt)
    (hagrees : RwLock.Agrees Section.Writes lock (Function.update s.sections i sec'))
    (hstore : ∀ l new, sec' ≠ some (.store l new))
    (hok : ∀ sec, sec' = some sec → SectionOk k f t.registry (t.threads i) sec) :
    MemMatches k f { s with lock, sections := Function.update s.sections i sec' } t := by
  refine ⟨h.reachable, h.threads, hagrees, ?_, fun _ => hsettled, ?_⟩
  · intro j sec₁ hsec
    by_cases hj : j = i
    · subst hj
      simp only [Function.update_self] at hsec
      exact hok sec₁ hsec
    · simp only [Function.update_of_ne hj] at hsec
      exact h.sections j sec₁ hsec
  · intro j l new hsec
    by_cases hj : j = i
    · subst hj
      simp only [Function.update_self] at hsec
      exact absurd hsec (hstore l new)
    · simp only [Function.update_of_ne hj] at hsec
      exact h.storing j l new hsec

/-- A thread goes on to where it knows what it has to know there. -/
theorem goto (h : MemMatches k f s t) (hi : s.sections i = some sec) (hsec : ∀ l new, sec ≠ .store l new)
    {sec' : Section T k.Query} (hsec' : ∀ l new, sec' ≠ .store l new) (hwrites : sec'.Writes → sec.Writes)
    (hok : SectionOk k f t.registry (t.threads i) sec') : MemMatches k f (s.goto i sec') t := by
  refine h.move (h.settled_of_section hi hsec) (h.agrees.goto hi fun hw => h.agrees.writer i sec hi (hwrites hw)) ?_ ?_
  · intro l new heq
    exact hsec' l new (Option.some.inj heq)
  · rintro sec₁ ⟨⟩
    exact hok

/-- Only counters change, and one thread. -/
theorem count (h : MemMatches k f s t) (hreach : (regSystem Tid k f).Reachable InInt t')
    (hname : ∀ u, k.KeyEnds (f u)) {refcnt : T → CfeAtomic} {threads : Tid → Thread T}
    {sections : Tid → Option (Section T k.Query)} (hlist : t'.registry.list = t.registry.list)
    (hdflt : t'.registry.dflt = t.registry.dflt) (hthreads : t'.threads = threads)
    (hothers : ∀ j, j ≠ i → threads j = t.threads j ∧ sections j = s.sections j)
    (hrep : ∀ links, Represents ⟨links, s.refcnt⟩ t.registry → Represents ⟨links, refcnt⟩ t'.registry)
    (hagrees : RwLock.Agrees Section.Writes s.lock sections)
    (hsec : ∀ sec, sections i = some sec → sec = .unlock) (hi : ∀ l new, s.sections i ≠ some (.store l new)) :
    MemMatches k f { s with refcnt, threads, sections } t' := by
  refine ⟨hreach, hthreads, hagrees, ?_, ?_, ?_⟩
  · intro j sec hj
    by_cases hji : j = i
    · subst hji
      rw [hsec sec hj]
      trivial
    · obtain ⟨hth, hsame⟩ := hothers j hji
      rw [hthreads, hth]
      exact (h.sections j sec (hsame ▸ hj)).congr hname hlist hdflt
  · intro hnot
    obtain ⟨hnodes, hd⟩ := h.settled fun j l new hj => by
      by_cases hji : j = i
      · subst hji
        exact hi l new hj
      · exact hnot j l new ((hothers j hji).2.trans hj)
    exact ⟨hrep _ hnodes, hd.trans hdflt.symm⟩
  · intro j l new hj
    have hji : j ≠ i := by
      rintro rfl
      cases hsec _ hj
    obtain ⟨⟨links, hlinks, hnodes⟩, hd⟩ := h.storing j l new ((hothers j hji).2 ▸ hj)
    exact ⟨⟨links, hlinks, hrep _ hnodes⟩, hd.trans hdflt.symm⟩

omit [DecidableEq Tid] in
/-- The counters are the same. -/
theorem refcnt [DecidableEq Tid] (h : MemMatches k f s t) : s.refcnt = t.registry.refcnt := by
  by_cases hstore : ∃ i l new, s.sections i = some (.store l new)
  · obtain ⟨i, l, new, hi⟩ := hstore
    obtain ⟨⟨links, -, hrep⟩, -⟩ := h.storing i l new hi
    exact hrep.refcnt
  · have hnot : ∀ i l new, s.sections i ≠ some (.store l new) := fun i l new hi => hstore ⟨i, l, new, hi⟩
    exact (h.settled hnot).1.refcnt

/-! ### One step for each place in a locked section -/

omit [DecidableEq T] in
/-- A walk, and what follows it, writes when what it is for does. -/
theorem finder_writes {Q : Type} (c : Finder T Q) (pos : Option (Node T)) (type : Option T) :
    ((Section.walk c pos).Writes ↔ (Section.find c).Writes) ∧ ((Section.found c type).Writes ↔ (Section.find c).Writes) := by
  cases c with
  | register type => exact ⟨.rfl, .rfl⟩
  | enter q => exact ⟨.rfl, .rfl⟩
  | ref q => exact ⟨.rfl, .rfl⟩

/-- A walk begins at the head, or the default is read. -/
theorem find_step {c : Finder T k.Query} (h : MemMatches k f s t) (hi : s.sections i = some (.find c))
    (hst : sectionStep k f s i (.find c) = some s') : MemMatched k f s' t := by
  have hok : c.Ok k f (t.threads i) := h.sections i _ hi
  obtain ⟨hnodes, hdflt⟩ := h.settled_of_section hi (by rintro l new ⟨⟩)
  simp only [sectionStep] at hst
  split at hst
  · next key hkey =>
    cases hst
    refine stay (h.goto hi (by rintro l new ⟨⟩) (by rintro l new ⟨⟩) (finder_writes c _ none).1.mp
      ⟨hok, ?_, [], t.registry.list, rfl, ?_, ?_⟩)
    · rw [← h.refcnt, hkey]
      rfl
    · obtain ⟨y, rest, hy⟩ := Links.exists_first Node.head (t.registry.list.map Node.of)
      rw [hnodes.ring.next_head hy, hy, List.head?_cons]
    · intro u hu
      cases hu
  · next hkey =>
    cases hst
    refine stay (h.goto hi (by rintro l new ⟨⟩) (by rintro l new ⟨⟩) (finder_writes c none _).2.mp ⟨hok, ?_⟩)
    rw [Finder.result, ← h.refcnt, hkey, hdflt]

/-- A walk goes on, or has found what it looks for, or is back at the head. It never comes to `NULL`. -/
theorem walk_step {c : Finder T k.Query} {pos : Option (Node T)} (h : MemMatches k f s t)
    (hi : s.sections i = some (.walk c pos)) (hst : sectionStep k f s i (.walk c pos) = some s') :
    MemMatched k f s' t := by
  obtain ⟨hok, hkey, l₁, l₂, hlist, hpos, hnot⟩ : c.Ok k f (t.threads i) ∧ c.Walked k f t.registry pos :=
    h.sections i _ hi
  obtain ⟨hnodes, -⟩ := h.settled_of_section hi (by rintro l new ⟨⟩)
  have hwalk : ∀ pos', (Section.walk c pos').Writes → (Section.walk c pos).Writes := fun pos' hw =>
    (finder_writes c pos none).1.mpr ((finder_writes c pos' none).1.mp hw)
  have hfoundWrites : ∀ type, (Section.found c type).Writes → (Section.walk c pos).Writes := fun type hw =>
    (finder_writes c pos none).1.mpr ((finder_writes c none type).2.mp hw)
  cases l₂ with
  | nil =>
    obtain rfl : pos = some .head := hpos
    cases hst
    refine stay (h.goto hi (by rintro l new ⟨⟩) (by rintro l new ⟨⟩) (hfoundWrites none) ⟨hok, ?_⟩)
    rw [Finder.result_of_key hkey, hlist, List.append_nil]
    exact (List.find?_eq_none.mpr fun u hu => by simp [hnot u hu]).symm
  | cons tmp l₂ =>
    obtain rfl : pos = some (.of tmp) := hpos
    have hnone : l₁.find? (c.isFound k f t.registry.refcnt) = none :=
      List.find?_eq_none.mpr fun u hu => by simp [hnot u hu]
    simp only [sectionStep, h.refcnt] at hst
    split_ifs at hst with hfound
    · cases hst
      refine stay (h.goto hi (by rintro l new ⟨⟩) (by rintro l new ⟨⟩) (hfoundWrites (some tmp)) ⟨hok, ?_⟩)
      rw [Finder.result_of_key hkey, hlist, List.find?_append, hnone, Option.none_or, List.find?_cons_of_pos hfound]
    · cases hst
      refine stay (h.goto hi (by rintro l new ⟨⟩) (by rintro l new ⟨⟩) (hwalk _)
        ⟨hok, hkey, l₁ ++ [tmp], l₂, by simp [hlist], ?_, ?_⟩)
      · have hring := hnodes.ring
        rw [hlist, List.map_append, List.map_cons] at hring
        exact hring.next_member
      · intro u hu
        rcases List.mem_append.mp hu with hu | hu
        · exact hnot u hu
        · rw [List.mem_singleton.mp hu]
          simpa using hfound

/-- A thread leaves. -/
theorem unlock_step (h : MemMatches k f s t) (hi : s.sections i = some .unlock)
    (hst : sectionStep k f s i .unlock = some s') : MemMatched k f s' t := by
  cases hst
  refine stay (h.move (h.settled_of_section hi (by rintro l new ⟨⟩)) (h.agrees.unlock hi) ?_ ?_)
  · rintro l new ⟨⟩
  · rintro sec ⟨⟩

/-- A reference is counted. -/
theorem take_step (hname : ∀ u, k.KeyEnds (f u)) {type : T} {a : RegAction T k.Query} {th : Thread T}
    (h : MemMatches k f s t) (hi : s.sections i = some sec) (hsec : ∀ l new, sec ≠ .store l new)
    (hmem : type ∈ t.registry.list) (hst : regStep k f t (i, a) = some (t.set i (t.registry.inc type) th))
    (hint : MemInInt s a (s.take i type th)) : MemMatched k f (s.take i type th) t := by
  have hrefcnt : (s.take i type th).refcnt = (t.registry.inc type).refcnt := by
    simp only [Memory.take, Registry.inc, h.refcnt]
  refine one h hst ?_ fun hreach => h.count (i := i) hreach hname rfl rfl ?_ ?_ ?_ ?_ ?_ ?_
  · intro u
    have hu := hint u
    rw [hrefcnt] at hu
    exact hu
  · rw [← h.threads]
    rfl
  · intro j hj
    simp [Memory.goto, hj, h.threads]
  · intro links hrep
    have hup := hrep.update hmem (cfeAtomicInc (t.registry.refcnt type))
    simp only [h.refcnt] at hup ⊢
    exact hup
  · exact h.agrees.goto hi fun hw => hw.elim
  · intro sec' hsec'
    simpa [Memory.goto] using hsec'.symm
  · intro l new hstore
    rw [hi] at hstore
    exact hsec l new (Option.some.inj hstore)

/-- A writer, who is alone, has decided what to do, and has the stores left. -/
theorem write (h : MemMatches k f s t) (hreach : (regSystem Tid k f).Reachable InInt t') (hi : s.sections i = some sec)
    (hw : sec.Writes) {links : Links (Node T)} {stores : List (Store (Node T))} {new : Option T} {refcnt : T → CfeAtomic}
    (hthreads : t'.threads = t.threads) (hlength : stores.length ≤ 4)
    (hrep : ∃ done, runStores links stores = some done ∧ Represents ⟨done, refcnt⟩ t'.registry)
    (hdflt : (new.elim s.dflt fun type => k.newDefault f type s.dflt) = t'.registry.dflt) :
    MemMatches k f { s.goto i (.store stores new) with links, refcnt } t' := by
  have hothers : ∀ j, j ≠ i → s.sections j = none := fun j hj => h.agrees.alone hi hw hj
  refine ⟨hreach, hthreads.trans h.threads, h.agrees.goto hi fun _ => h.agrees.writer i sec hi hw, ?_, ?_, ?_⟩
  · intro j sec' hj
    by_cases hji : j = i
    · subst hji
      simp only [Memory.goto, Function.update_self, Option.some.injEq] at hj
      rw [← hj]
      exact hlength
    · simp [Memory.goto, hji, hothers j hji] at hj
  · intro hnot
    exact absurd (Function.update_self i _ s.sections) (hnot i stores new)
  · intro j stores' new' hj
    by_cases hji : j = i
    · subst hji
      simp only [Memory.goto, Function.update_self, Option.some.injEq, Section.store.injEq] at hj
      rw [← hj.1, ← hj.2]
      exact ⟨hrep, hdflt⟩
    · simp [Memory.goto, hji, hothers j hji] at hj

/-- `register` decides to link its type in. -/
theorem register_step [Fintype Tid] {type : T} (h : MemMatches k f s t)
    (hi : s.sections i = some (.found (.register type) none))
    (hst : sectionStep k f s i (.found (.register type) none) = some s')
    (hint : ∀ u, (s'.refcnt u).val < 2 ^ 31) : MemMatched k f s' t := by
  obtain ⟨⟨hidle, haccepts⟩, hresult⟩ : (Finder.register type).Ok k f (t.threads i) ∧
      none = (Finder.register type).result k f t.registry := h.sections i _ hi
  obtain ⟨hnodes, hdflt⟩ := h.settled_of_section hi (by rintro l new ⟨⟩)
  have hfind : t.registry.list.find? (k.isFound f t.registry.refcnt (k.keyOf f t.registry.refcnt type)) = none :=
    hresult.symm
  have hapi : (k.api f).register type t.registry = .ok ⟨t.registry.list ++ [type],
      k.newDefault f type t.registry.dflt, Function.update t.registry.refcnt type (cfeAtomicSet 1)⟩ := by
    simp only [Kind.api_register, haccepts, hfind, Bool.not_true, Bool.false_eq_true, if_false]
  have hnew : type ∉ t.registry.list :=
    ((k.lawful f).register_ok (RefcntInv.of_reachable h.reachable).good hapi).2.1
  have hstep : regStep k f t (i, .register type) = some { t with registry := ⟨t.registry.list ++ [type],
      k.newDefault f type t.registry.dflt, Function.update t.registry.refcnt type (cfeAtomicSet 1)⟩ } := by
    simp only [regStep, hidle, if_true, hapi, Registry.after]
  cases hst
  refine one h hstep ?_ fun hreach => h.write hreach hi trivial rfl le_rfl ?_ ?_
  · intro u
    have hu := hint u
    simp only [h.refcnt] at hu
    exact hu
  · obtain ⟨links, hlinks, hrep⟩ := hnodes.append hnew (cfeAtomicSet 1) (k.newDefault f type t.registry.dflt)
    exact ⟨links, (runStores_listAddTail _ _ _).trans hlinks, hrep⟩
  · rw [hdflt]
    rfl

/-- `unregister` decides to take its type out, or not to. -/
theorem test_step [Fintype Tid] {type : T} (h : MemMatches k f s t) (hi : s.sections i = some (.test type))
    (hst : sectionStep k f s i (.test type) = some s') (hint : ∀ u, (s'.refcnt u).val < 2 ^ 31) :
    MemMatched k f s' t := by
  have hidle : (t.threads i).pc = .idle := h.sections i _ hi
  obtain ⟨hnodes, hdflt⟩ := h.settled_of_section hi (by rintro l new ⟨⟩)
  have hfails : MemMatched k f (s.goto i .unlock) t :=
    stay (h.goto hi (by rintro l new ⟨⟩) (by rintro l new ⟨⟩) (fun _ => trivial) trivial)
  simp only [sectionStep] at hst
  split_ifs at hst with hd hone
  · cases hst
    exact hfails
  · cases hst
    exact hfails
  · cases hst
    rw [not_not, h.refcnt] at hone
    rw [hdflt] at hd
    have hapi : (k.api f).unregister type t.registry =
        .ok { t.registry with list := t.registry.list.erase type } := by
      rw [Kind.api_unregister, if_neg hd, if_neg (not_not.mpr hone)]
    have hstep : regStep k f t (i, .unregister type) =
        some { t with registry := { t.registry with list := t.registry.list.erase type } } := by
      simp only [regStep, hidle, if_true, hapi, Registry.after]
    refine one h hstep ?_ fun hreach => h.write hreach hi trivial rfl le_rfl ?_ hdflt
    · intro u
      have hu := hint u
      simp only [Memory.goto, h.refcnt] at hu
      exact hu
    · obtain ⟨links, hlinks, hrep⟩ := hnodes.erase hone
      exact ⟨links, (runStores_listDelInit _ _).trans hlinks, hrep⟩

/-- A store is done. -/
theorem store_step {st : Store (Node T)} {stores : List (Store (Node T))} {new : Option T} (h : MemMatches k f s t)
    (hi : s.sections i = some (.store (st :: stores) new))
    (hst : sectionStep k f s i (.store (st :: stores) new) = some s') : MemMatched k f s' t := by
  obtain ⟨⟨done, hdone, hrep⟩, hdflt⟩ := h.storing i _ new hi
  obtain ⟨links, hlinks, rfl⟩ := Option.map_eq_some_iff.mp hst
  simp only [runStores, hlinks, Option.bind_eq_bind, Option.bind_some] at hdone
  have hlength : (st :: stores).length ≤ 4 := h.sections i _ hi
  exact stay (h.write h.reachable hi trivial rfl (Nat.le_of_succ_le hlength) ⟨done, hdone, hrep⟩ hdflt)

/-- All stores are done. -/
theorem stored_step {new : Option T} (h : MemMatches k f s t) (hi : s.sections i = some (.store [] new))
    (hst : sectionStep k f s i (.store [] new) = some s') : MemMatched k f s' t := by
  obtain ⟨⟨done, hdone, hrep⟩, hdflt⟩ := h.storing i _ new hi
  cases hdone
  have hothers : ∀ j, j ≠ i → s.sections j = none := fun j hj => h.agrees.alone hi trivial hj
  have hs' : s' = { s.goto i .unlock with dflt := t.registry.dflt } := by
    rw [← hdflt]
    cases new with
    | none =>
      cases hst
      rfl
    | some type =>
      cases hst
      rfl
  rw [hs']
  refine stay ⟨h.reachable, h.threads, h.agrees.goto hi fun hw => hw.elim, ?_, fun _ => ⟨hrep, rfl⟩, ?_⟩
  · intro j sec hj
    by_cases hji : j = i
    · subst hji
      simp only [Memory.goto, Function.update_self, Option.some.injEq] at hj
      rw [← hj]
      trivial
    · simp [Memory.goto, hji, hothers j hji] at hj
  · intro j stores new' hj
    by_cases hji : j = i
    · subst hji
      simp [Memory.goto] at hj
    · simp [Memory.goto, hji, hothers j hji] at hj

/-- A type has been found, or none. -/
theorem found_step [Fintype Tid] (hname : ∀ u, k.KeyEnds (f u)) {c : Finder T k.Query} {type : Option T}
    (h : MemMatches k f s t) (hi : s.sections i = some (.found c type))
    (hst : sectionStep k f s i (.found c type) = some s') (hint : ∀ u, (s'.refcnt u).val < 2 ^ 31) :
    MemMatched k f s' t := by
  have hleave : MemMatched k f (s.goto i .unlock) t :=
    stay (h.goto hi (by rintro l new ⟨⟩) (by rintro l new ⟨⟩) (fun hw => hw.elim) trivial)
  have hsec := h.sections i _ hi
  have hgood := (RefcntInv.of_reachable h.reachable).good
  cases c with
  | register type' =>
    cases type with
    | none => exact h.register_step hi hst hint
    | some found =>
      cases hst
      exact hleave
  | enter q =>
    cases type with
    | none =>
      cases hst
      exact hleave
    | some found =>
      obtain ⟨hidle, hresult⟩ : (Finder.enter q).Ok k f (t.threads i) ∧ some found = (Finder.enter q).result k f t.registry :=
        hsec
      have hlookup : (k.api f).lookup q t.registry = some found := (k.api_lookup f q t.registry).trans hresult.symm
      cases hst
      rw [← h.threads] at hint ⊢
      refine h.take_step (a := .enter q) hname hi (by rintro l new ⟨⟩) ((k.lawful f).lookup_mem hgood hlookup) ?_ hint
      simp only [regStep, show (t.threads i).pc = .idle from hidle, if_true, hlookup]
  | ref q =>
    cases type with
    | none =>
      cases hst
      exact hleave
    | some found =>
      obtain ⟨⟨hidle, href⟩, hresult⟩ : (Finder.ref q).Ok k f (t.threads i) ∧
          some found = (Finder.ref q).result k f t.registry := hsec
      have hlookup : (k.api f).lookup q t.registry = some found := (k.api_lookup f q t.registry).trans hresult.symm
      cases hst
      rw [← h.threads] at hint ⊢
      refine h.take_step (a := .ref q) hname hi (by rintro l new ⟨⟩) ((k.lawful f).lookup_mem hgood hlookup) ?_ hint
      simp only [regStep, hidle, href, and_self, if_true, hlookup]

/-- **Every step in a locked section** is matched. -/
theorem section_step [Fintype Tid] (hname : ∀ u, k.KeyEnds (f u)) (h : MemMatches k f s t)
    (hi : s.sections i = some sec) (hst : sectionStep k f s i sec = some s') (hint : ∀ u, (s'.refcnt u).val < 2 ^ 31) :
    MemMatched k f s' t := by
  cases sec with
  | find c => exact h.find_step hi hst
  | walk c pos => exact h.walk_step hi hst
  | found c type => exact h.found_step hname hi hst hint
  | test type => exact h.test_step hi hst hint
  | store stores new =>
    cases stores with
    | nil => exact h.stored_step hi hst
    | cons st stores => exact h.store_step hi hst
  | unlock => exact h.unlock_step hi hst

/-! ### Steps outside of the locked sections -/

/-- A thread takes the lock for writing, when nobody has it. -/
theorem wrlock_step (h : MemMatches k f s t) (hst : s.locked i sec (s.lock.wrlock i) = some s')
    (hsec : ∀ l new, sec ≠ .store l new) (hok : SectionOk k f t.registry (t.threads i) sec) : MemMatched k f s' t := by
  obtain ⟨lock, hlock, rfl⟩ := Option.map_eq_some_iff.mp hst
  obtain ⟨hnone, hagrees⟩ := h.agrees.wrlock hlock
  refine stay (h.move (h.settled fun j l new hj => ?_) hagrees ?_ ?_)
  · rw [hnone j] at hj
    cases hj
  · intro l new heq
    exact hsec l new (Option.some.inj heq)
  · rintro sec' ⟨⟩
    exact hok

/-- A thread takes the lock for reading, when nobody writes. -/
theorem rdlock_step (h : MemMatches k f s t) (hi : s.sections i = none)
    (hst : s.locked i sec (s.lock.rdlock i) = some s') (hreads : ¬sec.Writes)
    (hok : SectionOk k f t.registry (t.threads i) sec) : MemMatched k f s' t := by
  obtain ⟨lock, hlock, rfl⟩ := Option.map_eq_some_iff.mp hst
  refine stay (h.move (h.settled fun j l new hj => ?_) (h.agrees.rdlock hi hlock hreads) ?_ ?_)
  · rw [h.agrees.writer j _ hj trivial] at hlock
    cases hlock
  · intro l new heq
    exact hreads (Option.some.inj heq ▸ trivial)
  · rintro sec' ⟨⟩
    exact hok

/-- A thread that is in no locked section changes, and so may counters. -/
theorem outside_step (hname : ∀ u, k.KeyEnds (f u)) {a : RegAction T k.Query} {th : Thread T} {refcnt : T → CfeAtomic}
    (h : MemMatches k f s t) (hi : s.sections i = none)
    (hst : regStep k f t (i, a) = some (t.set i { t.registry with refcnt } th)) (hint : ∀ u, (refcnt u).val < 2 ^ 31)
    (hrep : ∀ links, Represents ⟨links, s.refcnt⟩ t.registry → Represents ⟨links, refcnt⟩ { t.registry with refcnt }) :
    MemMatched k f { s with refcnt, threads := Function.update s.threads i th } t := by
  refine one h hst hint fun hreach => h.count (i := i) hreach hname rfl rfl ?_ ?_ hrep h.agrees ?_ ?_
  · rw [← h.threads]
    rfl
  · intro j hj
    simp [hj, h.threads]
  · intro sec hsec
    rw [hi] at hsec
    cases hsec
  · intro l new hsec
    rw [hi] at hsec
    cases hsec

/-- A callback returns, or an object is taken apart: a thread changes, and nothing else. -/
theorem thread_step (hname : ∀ u, k.KeyEnds (f u)) {a : RegAction T k.Query} {th : Thread T} (h : MemMatches k f s t)
    (hi : s.sections i = none) (hst : regStep k f t (i, a) = some (t.set i t.registry th)) (hint : MemInInt s a s')
    (hs' : s' = { s with threads := Function.update s.threads i th }) : MemMatched k f s' t := by
  subst hs'
  refine h.outside_step (a := a) hname hi ?_ hint ?_
  · rw [h.refcnt]
    exact hst
  · intro links hrep
    rw [h.refcnt] at hrep ⊢
    exact hrep

/-- A reference is dropped, while the type is registered. -/
theorem drop_step [Fintype Tid] (hname : ∀ u, k.KeyEnds (f u)) {a : RegAction T k.Query} {th : Thread T} {type : T}
    (h : MemMatches k f s t) (hi : s.sections i = none) (hholds : 0 < (t.threads i).holds type)
    (hst : regStep k f t (i, a) = some (t.set i (t.registry.dec type) th)) (hint : MemInInt s a s')
    (hs' : s' = { s with refcnt := Function.update s.refcnt type (cfeAtomicDec (s.refcnt type)),
                         threads := Function.update s.threads i th }) : MemMatched k f s' t := by
  subst hs'
  have hmem : type ∈ t.registry.list := (registry_reference_safety h.reachable).2.1 i type hholds
  refine h.outside_step (a := a) hname hi ?_ hint ?_
  · rw [h.refcnt]
    exact hst
  · intro links hrep
    have hup := hrep.update hmem (cfeAtomicDec (t.registry.refcnt type))
    simp only [h.refcnt] at hup ⊢
    exact hup

/-- **Every step that needs no lock** is matched, and so is taking the lock. -/
theorem start_step [Fintype Tid] (hname : ∀ u, k.KeyEnds (f u)) (h : MemMatches k f s t) (hi : s.sections i = none)
    {a : RegAction T k.Query} (hst : memStep k f s (i, .start a) = some s') (hint : MemInInt s a s') :
    MemMatched k f s' t := by
  have hth : s.threads i = t.threads i := by rw [h.threads]
  cases a with
  | register type =>
    simp only [memStep, hi, Option.ite_none_right_eq_some, hth] at hst
    obtain ⟨hidle, hst⟩ := hst
    split_ifs at hst with haccepts
    · cases hst
      exact stay h
    · refine h.wrlock_step hst (by rintro l new ⟨⟩) ⟨hidle, by simpa using haccepts⟩
  | unregister type =>
    simp only [memStep, hi, Option.ite_none_right_eq_some, hth] at hst
    exact h.wrlock_step hst.2 (by rintro l new ⟨⟩) hst.1
  | enter q =>
    simp only [memStep, hi, Option.ite_none_right_eq_some, hth] at hst
    exact h.rdlock_step hi hst.2 id hst.1
  | ref q =>
    simp only [memStep, hi, Option.ite_none_right_eq_some, hth] at hst
    exact h.rdlock_step hi hst.2 id hst.1
  | callback ok =>
    simp only [memStep, hi] at hst
    obtain ⟨u, hu, rfl⟩ := Option.map_eq_some_iff.mp hst
    cases regStep_cases hu with
    | made type g hmakes hpc hcb =>
      simp only [hth] at hpc
      refine h.thread_step (a := .callback true) hname hi ?_ hint rfl
      simp only [regStep, hpc, hcb, hmakes, Bool.and_self, if_true, hth]
    | called ok type g hmakes hpc hcb =>
      simp only [hth] at hpc
      refine h.thread_step (a := .callback ok) hname hi ?_ hint rfl
      simp only [regStep, hpc, hcb, hmakes, Bool.false_eq_true, if_false, hth]
    | gaveUp type hrefs hpc hcb =>
      simp only [hth] at hpc
      refine h.thread_step (a := .callback false) hname hi ?_ hint rfl
      simp only [regStep, hpc, hcb, hrefs, Bool.not_false, Bool.and_self, if_true, hth]
  | drop =>
    simp only [memStep, hi] at hst
    obtain ⟨u, hu, rfl⟩ := Option.map_eq_some_iff.mp hst
    cases regStep_cases hu with
    | drop type hpc =>
      simp only [hth] at hpc
      have hholds : 0 < (t.threads i).holds type := by simp [Thread.holds, Pc.holds, hpc]
      refine h.drop_step (a := .drop) hname hi hholds ?_ hint rfl
      simp only [regStep, hpc, hth]
  | put type =>
    simp only [memStep, hi] at hst
    obtain ⟨u, hu, rfl⟩ := Option.map_eq_some_iff.mp hst
    cases regStep_cases hu with
    | put type hpc hmem =>
      simp only [hth] at hpc hmem
      have hholds : 0 < (t.threads i).holds type := by
        have hcount := List.count_pos_iff.mpr hmem
        simp only [Thread.holds]
        omega
      refine h.drop_step (a := .put type) hname hi hholds ?_ hint rfl
      simp only [regStep, hpc, hmem, and_self, if_true, hth]
  | destroy type =>
    simp only [memStep, hi] at hst
    obtain ⟨u, hu, rfl⟩ := Option.map_eq_some_iff.mp hst
    cases regStep_cases hu with
    | destroy type hdestroys hpc hmem =>
      simp only [hth] at hpc hmem
      refine h.thread_step (a := .destroy type) hname hi ?_ hint rfl
      simp only [regStep, hpc, hdestroys, hmem, and_self, if_true, hth]

end MemMatches

/-- **The threads that share the nodes simulate those that share the list.** -/
theorem memSystem_simulation [Fintype Tid] (hname : ∀ u, k.KeyEnds (f u)) :
    Simulation (memSystem Tid k f) MemInInt (regSystem Tid k f) InInt (MemMatches k f) where
  init := by
    refine ⟨⟨[], .refl⟩, rfl, .free, ?_, fun _ => ⟨represents_empty, rfl⟩, ?_⟩
    · intro i sec hsec
      cases hsec
    · intro i l new hsec
      cases hsec
  step := by
    rintro s ⟨i, a⟩ s' t h hst hint
    have hst : memStep k f s (i, a) = some s' := hst
    cases hi : s.sections i with
    | some sec =>
      cases a with
      | start a => simp [memStep, hi] at hst
      | next =>
        simp only [memStep, hi] at hst
        exact h.section_step hname hi hst hint
    | none =>
      cases a with
      | start a => exact h.start_step hname hi hst hint
      | next => simp [memStep, hi] at hst

/-- **Locked sections are atomic**, in any of the six registries. For every state that any threads reach, step
by step, while every counter stays below `2 ^ 31`, there is one that they reach with each locked section in
one step: the same counters, and each thread in the same place with the same references. When no thread has
stores left, the nodes form the ring of its list and the default is its default. A thread that has stores left
is alone with the lock, and after them the nodes form that ring. A thread that has found
a type has found the one that this list has under its key. -/
theorem registry_sections_atomic [Fintype Tid] (hname : ∀ u, k.KeyEnds (f u)) {s : Memory Tid T k.Query}
    (h : (memSystem Tid k f).Reachable MemInInt s) :
    ∃ t : Shared Tid T, (regSystem Tid k f).Reachable InInt t ∧ t.threads = s.threads ∧ t.registry.refcnt = s.refcnt ∧
      ((∀ i stores new, s.sections i ≠ some (.store stores new)) →
        s.links.Ring .head (t.registry.list.map .of) ∧ s.dflt = t.registry.dflt) ∧
      (∀ i stores new, s.sections i = some (.store stores new) → (∀ j, j ≠ i → s.sections j = none) ∧
        ∃ links, runStores s.links stores = some links ∧ links.Ring .head (t.registry.list.map .of)) ∧
      ∀ i c type, s.sections i = some (.found c type) → type = c.result k f t.registry := by
  obtain ⟨t, -, hmatch⟩ := (memSystem_simulation hname).reachable h
  refine ⟨t, hmatch.reachable, hmatch.threads, hmatch.refcnt.symm, ?_, ?_, ?_⟩
  · intro hnot
    obtain ⟨hnodes, hdflt⟩ := hmatch.settled hnot
    exact ⟨hnodes.ring, hdflt⟩
  · intro i stores new hi
    obtain ⟨⟨links, hlinks, hrep⟩, -⟩ := hmatch.storing i stores new hi
    exact ⟨fun j hj => hmatch.agrees.alone hi trivial hj, links, hlinks, hrep.ring⟩
  · intro i c type hi
    exact (hmatch.sections i _ hi).2

/-- One thread registers a header type. Then another looks it up by its version, and the first one looks up
the default at the same time. -/
def twoMemThreads : List (Bool × MemAction Bool (BitVec 32)) :=
  [(false, .start (.register true)), (false, .next), (false, .next), (false, .next), (false, .next), (false, .next),
    (false, .next), (false, .next), (false, .next), (false, .next), (true, .start (.enter (2 : BitVec 32))),
    (true, .next), (false, .start (.enter (-1 : BitVec 32))), (true, .next), (false, .next), (true, .next)]

/-- Both have found it, and one has counted its reference. -/
theorem registry_sections_atomic_two_threads :
    ∃ (s : Memory Bool Bool (BitVec 32)) (t : Shared Bool Bool),
      (memSystem Bool (.format .header) twoHeaders).Reachable MemInInt s ∧
      (regSystem Bool (.format .header) twoHeaders).Reachable InInt t ∧ t.threads = s.threads ∧
      (t.threads true).pc = .inCallback true ∧ s.links.Ring .head (t.registry.list.map .of) ∧
      some true = Finder.result (.format .header) twoHeaders t.registry (.enter (-1 : BitVec 32)) := by
  have h := System.reachable_of_exec (S := memSystem Bool (.format .header) twoHeaders) (C := MemInInt) twoMemThreads
    (by decide)
  have hname : ∀ u, Kind.KeyEnds (.format .header) (twoHeaders u) := fun _ => trivial
  obtain ⟨t, ht, hthreads, -, hsettled, -, hfound⟩ := registry_sections_atomic hname h
  refine ⟨_, t, h, ht, hthreads, ?_, (hsettled ?_).1, hfound false _ _ rfl⟩
  · rw [hthreads]
    rfl
  · rintro (_ | _) stores new ⟨⟩

end LibCfe
