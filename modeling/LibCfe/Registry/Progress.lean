import LibCfe.Registry.Atomicity

/-!
# Locked sections end

A thread that holds a lock keeps others waiting, so it must come to the `unlock`. A walk might not: it follows
links that other threads change, to a `NULL` pointer or round and round past the head. `StepsLeft` is
how many steps a thread has left in its section as the nodes are now.

## What is proved

* `sectionStep_left` — each step of the thread itself leaves fewer.
* `memStep_others` — a step of another thread leaves as many.
* `registry_sections_end` — in every state that threads reach, one in a locked section has a next
  step, and it unlocks within nine of its steps and one for each registered type, whatever
  others do in between.
-/

namespace LibCfe

open Theory

variable {Tid T F : Type} [DecidableEq T] {k : Kind} {f : T → k.Struct F}

/-- So many steps are left in a section, at most. -/
inductive StepsLeft {Q : Type} (links : Links (Node T)) : Section T Q → ℕ → Prop where
  /-- The walk over the whole list, and what comes after. -/
  | find (c : Finder T Q) (l : List T) (h : links.Ring .head (l.map .of)) : StepsLeft links (.find c) (l.length + 9)
  /-- The walk over these. -/
  | walk (c : Finder T Q) (l : List T) (h : links.Path (l.map .of ++ [.head])) :
      StepsLeft links (.walk c (l.map Node.of ++ [Node.head]).head?) (l.length + 8)
  /-- Four stores at most, the default, and to unlock. -/
  | found (c : Finder T Q) (type : Option T) : StepsLeft links (.found c type) 7
  | test (type : T) : StepsLeft links (.test type) 7
  | store (stores : List (Store (Node T))) (new : Option T) : StepsLeft links (.store stores new) (stores.length + 2)
  /-- To unlock. -/
  | unlock : StepsLeft links .unlock 1

variable [DecidableEq Tid] {s s' : Memory Tid T k.Query} {i j : Tid} {sec : Section T k.Query} {n : ℕ}

/-- It has left the section, or has fewer steps left there. -/
def Nearer (s' : Memory Tid T k.Query) (i : Tid) (n : ℕ) : Prop :=
  s'.sections i = none ∨ ∃ sec m, s'.sections i = some sec ∧ StepsLeft s'.links sec m ∧ m < n

omit [DecidableEq T] in
theorem Nearer.goto {m : ℕ} (h : StepsLeft s.links sec m) (hlt : m < n) : Nearer (s.goto i sec) i n :=
  .inr ⟨sec, m, by simp [Memory.goto], h, hlt⟩

/-- **A step of the thread itself** leaves fewer. -/
theorem sectionStep_left (h : StepsLeft s.links sec n) (hst : sectionStep k f s i sec = some s') : Nearer s' i n := by
  cases h with
  | find c l hring =>
    have hlast : StepsLeft s.links (.walk c (s.links.next .head)) (l.length + 8) := by
      obtain ⟨y, rest, hy⟩ := Links.exists_first Node.head (l.map Node.of)
      have hpath : s.links.Path ([] ++ [Node.head] ++ (l.map .of ++ [.head])) := hring
      rw [hring.next_head hy, ← List.head?_cons (a := y) (l := rest), ← hy]
      rw [hy, Links.path_append_iff, ← hy] at hpath
      exact .walk c l hpath.2.2
    simp only [sectionStep] at hst
    split at hst
    · cases hst
      exact .goto hlast (by omega)
    · cases hst
      exact .goto (.found c s.dflt) (by omega)
  | walk c l hpath =>
    cases l with
    | nil =>
      cases hst
      exact .goto (.found c none) (by simp)
    | cons x l =>
      have hst : sectionStep k f s i (.walk c (some (.of x))) = some s' := hst
      simp only [sectionStep] at hst
      split_ifs at hst with hfound
      · cases hst
        exact .goto (.found c (some x)) (by simp)
      · cases hst
        obtain ⟨y, rest, hy⟩ := Links.exists_first Node.head (l.map Node.of)
        have hpath' : s.links.Path (.of x :: (l.map Node.of ++ [.head])) := hpath
        rw [hy] at hpath'
        obtain ⟨hlinked, hrest⟩ := List.isChain_cons_cons.mp hpath'
        rw [hlinked.1, ← List.head?_cons (a := y) (l := rest), ← hy]
        rw [← hy] at hrest
        exact .goto (.walk c l hrest) (by simp)
  | found c type =>
    cases c with
    | register type' =>
      cases type with
      | none =>
        cases hst
        exact .inr ⟨_, 6, Function.update_self _ _ _, .store _ _, by omega⟩
      | some type =>
        cases hst
        exact .goto .unlock (by omega)
    | enter q =>
      cases type with
      | none =>
        cases hst
        exact .goto .unlock (by omega)
      | some type =>
        cases hst
        exact .inr ⟨_, 1, Function.update_self _ _ _, .unlock, by omega⟩
    | ref q =>
      cases type with
      | none =>
        cases hst
        exact .goto .unlock (by omega)
      | some type =>
        cases hst
        exact .inr ⟨_, 1, Function.update_self _ _ _, .unlock, by omega⟩
  | test type =>
    simp only [sectionStep] at hst
    split_ifs at hst
    · cases hst
      exact .goto .unlock (by omega)
    · cases hst
      exact .goto .unlock (by omega)
    · cases hst
      exact .inr ⟨_, 6, Function.update_self _ _ _, .store _ _, by omega⟩
  | store stores new =>
    cases stores with
    | nil =>
      cases new with
      | none =>
        cases hst
        exact .goto .unlock (by simp)
      | some type =>
        cases hst
        exact .inr ⟨_, 1, Function.update_self _ _ _, .unlock, by simp⟩
    | cons st stores =>
      obtain ⟨links, -, rfl⟩ := Option.map_eq_some_iff.mp hst
      exact .inr ⟨_, _, Function.update_self _ _ _, .store stores new, by simp⟩
  | unlock =>
    cases hst
    exact .inl (Function.update_self _ _ _)

/-- A step in a section moves no other thread, and only a store changes the links. -/
theorem sectionStep_others (hst : sectionStep k f s j sec = some s') (hij : i ≠ j) :
    s'.sections i = s.sections i ∧ (s'.links = s.links ∨ ∃ stores new, sec = .store stores new) := by
  cases sec with
  | find c =>
    simp only [sectionStep] at hst
    split at hst <;> cases hst <;> exact ⟨Function.update_of_ne hij _ _, .inl rfl⟩
  | walk c pos =>
    cases pos with
    | none => cases hst
    | some pos =>
      cases pos with
      | head =>
        cases hst
        exact ⟨Function.update_of_ne hij _ _, .inl rfl⟩
      | of tmp =>
        simp only [sectionStep] at hst
        split_ifs at hst <;> cases hst <;> exact ⟨Function.update_of_ne hij _ _, .inl rfl⟩
  | found c type =>
    cases c <;> cases type <;> cases hst <;> exact ⟨Function.update_of_ne hij _ _, .inl rfl⟩
  | test type =>
    simp only [sectionStep] at hst
    split_ifs at hst <;> cases hst <;> exact ⟨Function.update_of_ne hij _ _, .inl rfl⟩
  | store stores new =>
    refine ⟨?_, .inr ⟨stores, new, rfl⟩⟩
    cases stores with
    | nil => cases new <;> cases hst <;> exact Function.update_of_ne hij _ _
    | cons st stores =>
      obtain ⟨links, -, rfl⟩ := Option.map_eq_some_iff.mp hst
      exact Function.update_of_ne hij _ _
  | unlock =>
    cases hst
    exact ⟨Function.update_of_ne hij _ _, .inl rfl⟩

/-- A step that takes the lock, or needs none, moves no other thread and changes no link. -/
theorem start_others {a : RegAction T k.Query} (hj : s.sections j = none)
    (hst : memStep k f s (j, .start a) = some s') (hij : i ≠ j) :
    s'.sections i = s.sections i ∧ s'.links = s.links := by
  have hlocked : ∀ {sec lock}, s.locked j sec lock = some s' → s'.sections i = s.sections i ∧ s'.links = s.links := by
    intro sec lock h
    obtain ⟨lock, -, rfl⟩ := Option.map_eq_some_iff.mp h
    exact ⟨Function.update_of_ne hij _ _, rfl⟩
  cases a with
  | register type =>
    simp only [memStep, hj, Option.ite_none_right_eq_some] at hst
    obtain ⟨-, hst⟩ := hst
    split_ifs at hst
    · cases hst
      exact ⟨rfl, rfl⟩
    · exact hlocked hst
  | unregister type =>
    simp only [memStep, hj, Option.ite_none_right_eq_some] at hst
    exact hlocked hst.2
  | enter q =>
    simp only [memStep, hj, Option.ite_none_right_eq_some] at hst
    exact hlocked hst.2
  | ref q =>
    simp only [memStep, hj, Option.ite_none_right_eq_some] at hst
    exact hlocked hst.2
  | _ =>
    simp only [memStep, hj] at hst
    obtain ⟨u, -, rfl⟩ := Option.map_eq_some_iff.mp hst
    exact ⟨rfl, rfl⟩

/-- **A step of another thread** leaves a thread in its section where it is, and the links as
they are: only a writer changes them, who is alone. -/
theorem memStep_others {a : MemAction T k.Query} (hagrees : RwLock.Agrees Section.Writes s.lock s.sections)
    (hi : s.sections i = some sec) (hst : memStep k f s (j, a) = some s') (hij : i ≠ j) :
    s'.sections i = some sec ∧ s'.links = s.links := by
  rw [← hi]
  cases hj : s.sections j with
  | none =>
    cases a with
    | start a => exact start_others hj hst hij
    | next => simp [memStep, hj] at hst
  | some sec' =>
    cases a with
    | start a => simp [memStep, hj] at hst
    | next =>
      simp only [memStep, hj] at hst
      obtain ⟨hsec, hlinks | ⟨stores, new, rfl⟩⟩ := sectionStep_others hst hij
      · exact ⟨hsec, hlinks⟩
      · rw [hagrees.alone hj trivial hij] at hi
        cases hi

/-- In a run a thread has left its section at some time, or each of its steps has brought it nearer. -/
theorem section_run [Fintype Tid] (hname : ∀ u, k.KeyEnds (f u)) (h : (memSystem Tid k f).Reachable MemInInt s)
    (hi : s.sections i = some sec) (hleft : StepsLeft s.links sec n) {as : List (Tid × MemAction T k.Query)}
    (hruns : (memSystem Tid k f).Runs MemInInt s as s') :
    (∃ as₁ as₂ u, as = as₁ ++ as₂ ∧ (memSystem Tid k f).Runs MemInInt s as₁ u ∧ u.sections i = none) ∨
      ∃ sec' m, s'.sections i = some sec' ∧ StepsLeft s'.links sec' m ∧ m + as.countP (fun a => decide (a.1 = i)) ≤ n := by
  induction hruns with
  | refl => exact .inr ⟨sec, n, hi, hleft, by simp⟩
  | @step as t u a hruns hst hint ih =>
    obtain ⟨as₁, as₂, v, rfl, hv, hnone⟩ | ⟨sec', m, hsec, hm, hle⟩ := ih
    · exact .inl ⟨as₁, as₂ ++ [a], v, by simp, hv, hnone⟩
    · obtain ⟨j, a⟩ := a
      have hst' : memStep k f t (j, a) = some u := hst
      by_cases hij : i = j
      · subst hij
        cases a with
        | start a => simp [memStep, hsec] at hst'
        | next =>
          simp only [memStep, hsec] at hst'
          obtain hnone | ⟨sec'', m', hsec', hm', hlt⟩ := sectionStep_left hm hst'
          · exact .inl ⟨as ++ [(i, .next)], [], u, by simp, hruns.step hst hint, hnone⟩
          · refine .inr ⟨sec'', m', hsec', hm', ?_⟩
            simp only [List.countP_append, List.countP_singleton, decide_true, if_true]
            omega
      · obtain ⟨w, -, hmatch⟩ := (memSystem_simulation hname).reachable (h.runs hruns)
        obtain ⟨hsame, hlinks⟩ := memStep_others hmatch.agrees hsec hst' hij
        refine .inr ⟨sec', m, hsame, hlinks ▸ hm, ?_⟩
        simpa [Ne.symm hij] using hle

/-- In a state that threads reach, a thread has at most so many steps left. -/
theorem MemMatches.left {t : Shared Tid T} (h : MemMatches k f s t) (hi : s.sections i = some sec) :
    ∃ n, StepsLeft s.links sec n ∧ n ≤ t.registry.list.length + 9 := by
  cases sec with
  | find c => exact ⟨_, .find c _ (h.settled_of_section hi (by rintro l new ⟨⟩)).1.ring, le_rfl⟩
  | walk c pos =>
    obtain ⟨-, -, l₁, l₂, hlist, rfl, -⟩ : c.Ok k f (t.threads i) ∧ c.Walked k f t.registry pos := h.sections i _ hi
    have hring := (h.settled_of_section hi (by rintro l new ⟨⟩)).1.ring
    have hpath : s.links.Path (l₂.map .of ++ [.head]) := by
      rw [hlist] at hring
      have hall : s.links.Path ((.head :: l₁.map .of) ++ (l₂.map .of ++ [.head])) := by simpa [Links.Ring] using hring
      exact List.IsChain.right_of_append hall
    refine ⟨_, .walk c l₂ hpath, ?_⟩
    rw [hlist, List.length_append]
    omega
  | found c type => exact ⟨7, .found c type, by omega⟩
  | test type => exact ⟨7, .test type, by omega⟩
  | store stores new =>
    have hlength : stores.length ≤ 4 := h.sections i _ hi
    exact ⟨_, .store stores new, by omega⟩
  | unlock => exact ⟨1, .unlock, by omega⟩

/-- A thread in a section has a next step. -/
theorem MemMatches.sectionStep_isSome {t : Shared Tid T} (h : MemMatches k f s t) (hi : s.sections i = some sec) :
    (sectionStep k f s i sec).isSome = true := by
  cases sec with
  | find c =>
    simp only [sectionStep]
    split <;> rfl
  | walk c pos =>
    -- the walk is at a node that is left, or at the head
    obtain ⟨-, -, l₁, l₂, -, rfl, -⟩ : c.Ok k f (t.threads i) ∧ c.Walked k f t.registry pos := h.sections i _ hi
    cases l₂ with
    | nil => rfl
    | cons u l₂ =>
      show (sectionStep k f s i (.walk c (some (.of u)))).isSome = true
      simp only [sectionStep]
      split_ifs <;> rfl
  | found c type => cases c <;> cases type <;> rfl
  | test type =>
    simp only [sectionStep]
    split_ifs <;> rfl
  | store stores new =>
    cases stores with
    | nil => cases new <;> rfl
    | cons st stores =>
      obtain ⟨⟨links, hlinks, -⟩, -⟩ := h.storing i _ new hi
      obtain ⟨m, hm, -⟩ := Option.bind_eq_some_iff.mp hlinks
      simp only [sectionStep, hm, Option.map_some, Option.isSome_some]
  | unlock => rfl

/-- The types that are registered: the nodes are a ring of them, as soon as the stores that are left are done. -/
structure Memory.Linked {Q : Type} (s : Memory Tid T Q) (l : List T) : Prop where
  nodup : l.Nodup
  settled : (∀ i stores new, s.sections i ≠ some (.store stores new)) → s.links.Ring .head (l.map .of)
  storing : ∀ i stores new, s.sections i = some (.store stores new) →
    ∃ links, runStores s.links stores = some links ∧ links.Ring .head (l.map .of)

/-- They are those of the list that the nodes stand for. -/
theorem MemMatches.linked {t : Shared Tid T} (h : MemMatches k f s t) : s.Linked t.registry.list := by
  refine ⟨?_, fun hnot => (h.settled hnot).1.ring, ?_⟩
  · by_cases hstore : ∃ i l new, s.sections i = some (.store l new)
    · obtain ⟨i, l, new, hi⟩ := hstore
      obtain ⟨⟨links, -, hrep⟩, -⟩ := h.storing i l new hi
      exact hrep.nodup
    · have hnot : ∀ i l new, s.sections i ≠ some (.store l new) := fun i l new hi => hstore ⟨i, l, new, hi⟩
      exact (h.settled hnot).1.nodup
  · intro i stores new hi
    obtain ⟨⟨links, hlinks, hrep⟩, -⟩ := h.storing i stores new hi
    exact ⟨links, hlinks, hrep.ring⟩

/-- **Locked sections end.** In every state that any threads reach, a thread in a locked section of any of the six
registries has a next step: it never follows a `NULL` pointer. In every run from there in which it takes
as many steps as there are types in the list and nine more, it has unlocked at some time. The list is that of
the nodes, or the one that an edit under way is about to leave. -/
theorem registry_sections_end [Fintype Tid] (hname : ∀ u, k.KeyEnds (f u))
    (h : (memSystem Tid k f).Reachable MemInInt s) (hi : s.sections i = some sec) :
    (memStep k f s (i, .next)).isSome = true ∧
    ∃ l : List T, s.Linked l ∧
      ∀ as s', (memSystem Tid k f).Runs MemInInt s as s' → l.length + 9 ≤ as.countP (fun a => decide (a.1 = i)) →
        ∃ as₁ as₂ u, as = as₁ ++ as₂ ∧ (memSystem Tid k f).Runs MemInInt s as₁ u ∧ u.sections i = none := by
  obtain ⟨t, -, hmatch⟩ := (memSystem_simulation hname).reachable h
  constructor
  · simp only [memStep, hi]
    exact hmatch.sectionStep_isSome hi
  · obtain ⟨n, hleft, hbound⟩ := hmatch.left hi
    refine ⟨t.registry.list, hmatch.linked, ?_⟩
    intro as s' hruns hcount
    obtain hgone | ⟨sec', m, -, hm, hle⟩ := section_run hname h hi hleft hruns
    · exact hgone
    · have hpos : 0 < m := by cases hm <;> omega
      omega

/-- A header type is half linked in. -/
theorem registry_sections_end_half_linked :
    ∃ s : Memory Bool Bool (BitVec 32), (memSystem Bool (.format .header) twoHeaders).Reachable MemInInt s ∧
      s.links.next .head = some .head ∧ s.links.prev .head = some (.of true) ∧
      (memStep (.format .header) twoHeaders s (false, .next)).isSome = true := by
  have h := System.reachable_of_exec (S := memSystem Bool (.format .header) twoHeaders) (C := MemInInt)
    (twoMemThreads.take 5) (by decide)
  have hname : ∀ u, Kind.KeyEnds (.format .header) (twoHeaders u) := fun _ => trivial
  exact ⟨_, h, by decide, by decide, (registry_sections_end (i := false) hname h rfl).1⟩

end LibCfe
