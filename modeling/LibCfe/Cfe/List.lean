import LibCfe.Theory.Ring

/-!
# The linked lists of `include/cfe/list.h`

The functions of `list.h` that the registries use, at the level of the `next` and
`prev` fields of the `struct list_head`s, which are the nodes. A field may be
`NULL`; a function that would follow a `NULL` pointer has no result. A walk over
a list gets a bound on the number of nodes it visits and has no result either
when it is not done by then.

Each function has one lemma that says what it does to a ring: appending at the
tail, deleting a member, deleting a node that is linked to itself, and walking
from the head. The two that change a list are also a sequence of stores each, for those
who look at a list while another thread changes it.
-/

namespace LibCfe

open Theory

variable {ν : Type*} [DecidableEq ν]

/-- The store `x->next = y`. -/
def setNext (x : ν) (y : Option ν) (m : Links ν) : Links ν := { m with next := Function.update m.next x y }

/-- The store `x->prev = y`. -/
def setPrev (x : ν) (y : Option ν) (m : Links ν) : Links ν := { m with prev := Function.update m.prev x y }

/-- `INIT_LIST_HEAD`. -/
def initListHead (list : ν) (m : Links ν) : Links ν :=
  setPrev list (some list) (setNext list (some list) m)

/-- `__list_add`. -/
def listAddInternal (new : ν) (prev next : Option ν) (m : Links ν) : Option (Links ν) := do
  let next' ← next
  let m := setPrev next' (some new) m
  let m := setNext new next m
  let m := setPrev new prev m
  let prev' ← prev
  return setNext prev' (some new) m

/-- `list_add_tail`. -/
def listAddTail (new head : ν) (m : Links ν) : Option (Links ν) :=
  listAddInternal new (m.prev head) (some head) m

/-- `__list_del`. -/
def listDelInternal (prev next : Option ν) (m : Links ν) : Option (Links ν) := do
  let next' ← next
  let m := setPrev next' prev m
  let prev' ← prev
  return setNext prev' next m

/-- `list_del_init`. -/
def listDelInit (entry : ν) (m : Links ν) : Option (Links ν) := do
  let m ← listDelInternal (m.prev entry) (m.next entry) m
  return initListHead entry m

/-- `list_for_each` with a body that returns `pos` when it is what it looks for:
the loop from `pos` on, visiting at most so many nodes. Coming back to `head` the
loop ends and `NULL` is returned. -/
def listForEach (head : ν) (m : Links ν) (found : ν → Bool) : ℕ → Option ν → Option (Option ν)
  | 0, _ => none
  | _ + 1, none => none
  | n + 1, some pos =>
      if pos = head then some none
      else if found pos then some (some pos)
      else listForEach head m found n (m.next pos)

/-- A node linked to itself, as `LIST_HEAD_INIT` and `list_del_init` leave it. -/
def SelfLinked (m : Links ν) (x : ν) : Prop := m.next x = some x ∧ m.prev x = some x

/-! ### What they do to a ring -/

/-- `list_add_tail` of a node that is in no list appends it. -/
theorem listAddTail_ring {m : Links ν} {head new : ν} {l : List ν} (hr : m.Ring head l)
    (hnd : (head :: l).Nodup) (hnew : new ∉ head :: l) :
    ∃ m', listAddTail new head m = some m' ∧ m'.Ring head (l ++ [new]) ∧
      ∀ y ∉ head :: (l ++ [new]), m'.next y = m.next y ∧ m'.prev y = m.prev y := by
  obtain ⟨init, x, hx⟩ := Links.exists_last head l
  have hprev := hr.prev_head hx
  have hxmem : x ∈ head :: l := by rw [hx]; simp
  have hxnew : x ≠ new := fun h => hnew (h ▸ hxmem)
  have hhnew : head ≠ new := fun h => hnew (h ▸ List.mem_cons_self)
  have hm : listAddTail new head m = some (setNext x (some new)
      (setPrev new (some x) (setNext new (some head) (setPrev head (some new) m)))) := by
    simp [listAddTail, listAddInternal, hprev]
  refine ⟨_, hm, hr.insertLast hnd hnew hx ?_ ?_ ?_ ?_ ?_ ?_, ?_⟩
  · simp [setNext]
  · simp [setNext, setPrev]
  · simp [setNext, setPrev, hxnew.symm]
  · simp [setNext, setPrev, hhnew]
  · intro y hy hy'
    simp [setNext, setPrev, hy, hy']
  · intro y hy hy'
    simp [setNext, setPrev, hy, hy']
  · intro y hy
    have hyx : y ≠ x := by
      rintro rfl
      rcases List.mem_cons.mp hxmem with h | h
      · exact hy (h ▸ List.mem_cons_self)
      · exact hy (List.mem_cons_of_mem _ (List.mem_append_left _ h))
    have hynew : y ≠ new := fun h => hy (by simp [h])
    have hyhead : y ≠ head := fun h => hy (by simp [h])
    simp [setNext, setPrev, hyx, hynew, hyhead]

/-- `list_del_init` of a member takes it out and links it to itself. -/
theorem listDelInit_ring {m : Links ν} {head entry : ν} {l : List ν} (hr : m.Ring head l)
    (hnd : (head :: l).Nodup) (he : entry ∈ l) :
    ∃ m', listDelInit entry m = some m' ∧ m'.Ring head (l.erase entry) ∧ SelfLinked m' entry ∧
      ∀ y ∉ head :: l, m'.next y = m.next y ∧ m'.prev y = m.prev y := by
  obtain ⟨l₁, l₂, rfl⟩ := List.append_of_mem he
  obtain ⟨init, x, hx⟩ := Links.exists_last head l₁
  obtain ⟨z, rest, hz⟩ : ∃ z rest, l₂ ++ [head] = z :: rest := by
    cases l₂ with
    | nil => exact ⟨head, [], rfl⟩
    | cons z l₂ => exact ⟨z, l₂ ++ [head], rfl⟩
  obtain ⟨hp, hn⟩ := hr.neighbours hx hz
  have hnd' : ((head :: l₁) ++ entry :: l₂).Nodup := by simpa using hnd
  have hl₁ : entry ∉ l₁ := fun h =>
    (List.nodup_append.mp hnd').2.2 entry (List.mem_cons_of_mem _ h) entry (by simp) rfl
  have herase : (l₁ ++ entry :: l₂).erase entry = l₁ ++ l₂ := by
    rw [List.erase_append_right _ hl₁, List.erase_cons_head]
  -- the neighbours are the head or members, and neither is `entry`
  have hxmem : x ∈ head :: l₁ := by rw [hx]; simp
  have hzmem : z ∈ l₂ ++ [head] := by rw [hz]; exact List.mem_cons_self
  have hxe : x ≠ entry := fun h => (List.nodup_append.mp hnd').2.2 x hxmem entry (by simp) h
  have hze : z ≠ entry := by
    rcases List.mem_append.mp hzmem with h | h
    · exact fun hze => (List.nodup_cons.mp (List.nodup_append.mp hnd').2.1).1 (hze ▸ h)
    · rw [List.mem_singleton] at h
      exact fun hze => (List.nodup_append.mp hnd').2.2 head (by simp) entry (by simp) (h ▸ hze)
  have hm : listDelInit entry m =
      some (initListHead entry (setNext x (some z) (setPrev z (some x) m))) := by
    simp [listDelInit, listDelInternal, hp, hn]
  rw [herase]
  refine ⟨_, hm, hr.remove hnd hx hz ?_ ?_ ?_ ?_, ?_, ?_⟩
  · simp [initListHead, setNext, setPrev, hxe]
  · simp [initListHead, setNext, setPrev, hze]
  · intro y hy hy'
    simp [initListHead, setNext, setPrev, hy, hy']
  · intro y hy hy'
    simp [initListHead, setNext, setPrev, hy, hy']
  · simp [SelfLinked, initListHead, setNext, setPrev]
  · intro y hy
    have hyx : y ≠ x := by
      rintro rfl
      rcases List.mem_cons.mp hxmem with h | h
      · exact hy (h ▸ List.mem_cons_self)
      · exact hy (List.mem_cons_of_mem _ (List.mem_append_left _ h))
    have hyz : y ≠ z := by
      rintro rfl
      rcases List.mem_append.mp hzmem with h | h
      · exact hy (List.mem_cons_of_mem _ (List.mem_append_right _ (List.mem_cons_of_mem _ h)))
      · exact hy (by simp_all)
    have hye : y ≠ entry := fun h => hy (by simp [h])
    simp [initListHead, setNext, setPrev, hyx, hyz, hye]

/-- `list_del_init` of a node linked to itself changes nothing. -/
theorem listDelInit_selfLinked {m : Links ν} {entry : ν} (h : SelfLinked m entry) :
    listDelInit entry m = some m := by
  obtain ⟨hn, hp⟩ := h
  simp only [listDelInit, listDelInternal, hn, hp, Option.bind_eq_bind, Option.bind_some, Option.pure_def,
    Option.some.injEq, initListHead, setNext, setPrev]
  ext1
  · simp [← hn]
  · simp [← hp]

/-- The loop from a member on searches the rest of the list. -/
theorem listForEach_path {m : Links ν} {head : ν} {found : ν → Bool} :
    ∀ {l : List ν} {pos : ν} {n : ℕ}, m.Path (pos :: l ++ [head]) → head ∉ pos :: l → l.length + 1 < n →
      listForEach head m found n (some pos) = some ((pos :: l).find? found)
  | l, pos, 0, _, _, hn => absurd hn (by omega)
  | l, pos, n + 1, h, hh, hn => by
    have hpos : pos ≠ head := fun h => hh (h ▸ List.mem_cons_self)
    simp only [listForEach, hpos, if_false, List.find?_cons]
    cases hf : found pos with
    | true => simp
    | false =>
      cases l with
      | nil =>
        have hnext : m.next pos = some head := (List.isChain_cons_cons.mp h).1.1
        obtain ⟨n, rfl⟩ : ∃ k, n = k + 1 := ⟨n - 1, by simp at hn; omega⟩
        simp [hnext, listForEach]
      | cons y l =>
        obtain ⟨⟨hnext, -⟩, hrest⟩ := List.isChain_cons_cons.mp h
        rw [hnext]
        simpa using listForEach_path hrest (fun h => hh (List.mem_cons_of_mem _ h)) (by simp at hn ⊢; omega)

/-- **The walk over a ring terminates** and finds the first member it looks for. -/
theorem listForEach_ring {m : Links ν} {head : ν} {l : List ν} {found : ν → Bool} {n : ℕ}
    (hr : m.Ring head l) (hh : head ∉ l) (hn : l.length < n) :
    listForEach head m found n (m.next head) = some (l.find? found) := by
  cases l with
  | nil =>
    obtain ⟨n, rfl⟩ : ∃ k, n = k + 1 := ⟨n - 1, by simp at hn; omega⟩
    simp [(Links.ring_nil_iff.mp hr).1, listForEach]
  | cons x l =>
    obtain ⟨⟨hnext, -⟩, hrest⟩ := List.isChain_cons_cons.mp (show m.Path (head :: x :: (l ++ [head])) from hr)
    rw [hnext]
    exact listForEach_path hrest hh (by simpa using hn)

/-! ### Store by store -/

/-- A store to a field of a node, through a pointer that may be `NULL`. -/
inductive Store (ν : Type*) where
  /-- `x->next = y`. -/
  | next (x y : Option ν)
  /-- `x->prev = y`. -/
  | prev (x y : Option ν)

/-- What it does. -/
def Store.run (m : Links ν) : Store ν → Option (Links ν)
  | .next x y => x.map fun x => setNext x y m
  | .prev x y => x.map fun x => setPrev x y m

/-- One store after the other. -/
def runStores (m : Links ν) : List (Store ν) → Option (Links ν)
  | [] => some m
  | st :: stores => do
    let m ← st.run m
    runStores m stores

/-- The stores of `list_add_tail`. -/
def listAddTailStores (new head : ν) (m : Links ν) : List (Store ν) :=
  let prev := m.prev head
  [.prev (some head) (some new), .next (some new) (some head), .prev (some new) prev, .next prev (some new)]

/-- The stores of `list_del_init`. -/
def listDelInitStores (entry : ν) (m : Links ν) : List (Store ν) :=
  let prev := m.prev entry
  let next := m.next entry
  [.prev next prev, .next prev next, .next (some entry) (some entry), .prev (some entry) (some entry)]

/-- `list_add_tail` is its stores. -/
theorem runStores_listAddTail (new head : ν) (m : Links ν) :
    runStores m (listAddTailStores new head m) = listAddTail new head m := by
  cases hprev : m.prev head with
  | none => simp [listAddTailStores, runStores, Store.run, listAddTail, listAddInternal, hprev]
  | some prev => simp [listAddTailStores, runStores, Store.run, listAddTail, listAddInternal, hprev]

/-- `list_del_init` is its stores. -/
theorem runStores_listDelInit (entry : ν) (m : Links ν) :
    runStores m (listDelInitStores entry m) = listDelInit entry m := by
  cases hnext : m.next entry with
  | none => simp [listDelInitStores, runStores, Store.run, listDelInit, listDelInternal, hnext]
  | some next =>
    cases hprev : m.prev entry with
    | none => simp [listDelInitStores, runStores, Store.run, listDelInit, listDelInternal, hnext, hprev]
    | some prev =>
      simp [listDelInitStores, runStores, Store.run, listDelInit, listDelInternal, initListHead, hnext, hprev]

end LibCfe
