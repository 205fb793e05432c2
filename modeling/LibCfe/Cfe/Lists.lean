import LibCfe.Cfe.List
import Mathlib.Data.Fintype.Basic

/-!
# All lists of `include/cfe/list.h`

`LibCfe.Cfe.List` has the functions that the registries use, on one list. Here are all
functions on circular lists, and any number of lists that share one memory.

What a caller thinks of is `Lists`: which nodes are heads of lists, and the members of each.
`ListOp.Allows` is what a caller has to see to: a node that is added is in no list, one
that is deleted is in one or is linked to itself, and a list is joined to another one. After
`list_del` the node is in no list and its fields are `NULL`; after `list_splice` the emptied
head is in no list, and still points to where its members were.

## What is proved

* `list_ops_refine` — in memory with any contents, every sequence of calls that a caller may
  make has a result and leaves just the lists that he thinks of, each a ring apart from the others.
* `listForEachSafe_moves` — a `list_for_each_safe` that moves some of the entries to another
  list ends, visits each entry of the list once, and moves just those.
* `listForEachDo_listDel` — a plain `list_for_each` that deletes an entry follows a `NULL` pointer.
-/

namespace LibCfe

open Theory

variable {ν : Type*} [DecidableEq ν]

/-! ### The functions -/

/-- `list_add`. -/
def listAdd (new head : ν) (m : Links ν) : Option (Links ν) := listAddInternal new (some head) (m.next head) m

/-- `list_del`; `none` is `NULL`. -/
def listDel (entry : Option ν) (m : Links ν) : Option (Links ν) :=
  match entry with
  | none => some m
  | some entry => do
    let m ← listDelInternal (m.prev entry) (m.next entry) m
    return setPrev entry none (setNext entry none m)

/-- `list_move`. -/
def listMove (list head : ν) (m : Links ν) : Option (Links ν) := do
  let m ← listDelInternal (m.prev list) (m.next list) m
  listAdd list head m

/-- `list_move_tail`. -/
def listMoveTail (list head : ν) (m : Links ν) : Option (Links ν) := do
  let m ← listDelInternal (m.prev list) (m.next list) m
  listAddTail list head m

/-- `list_empty`. -/
def listEmpty (head : ν) (m : Links ν) : Bool := decide (m.next head = some head)

/-- `__list_splice`. -/
def listSpliceInternal (list head : ν) (m : Links ν) : Option (Links ν) := do
  let first := m.next list
  let last := m.prev list
  let at' := m.next head
  let first' ← first
  let m := setPrev first' (some head) m
  let m := setNext head first m
  let last' ← last
  let m := setNext last' at' m
  let at'' ← at'
  return setPrev at'' last m

/-- `list_splice`. -/
def listSplice (list head : ν) (m : Links ν) : Option (Links ν) :=
  if !listEmpty list m then listSpliceInternal list head m else some m

/-- `list_splice_init`. -/
def listSpliceInit (list head : ν) (m : Links ν) : Option (Links ν) :=
  if !listEmpty list m then do
    let m ← listSpliceInternal list head m
    return initListHead list m
  else some m

/-- `list_for_each_prev` with a body that returns `pos` when it is what it looks for, as
`listForEach` with the two fields exchanged. -/
def listForEachPrev (head : ν) (m : Links ν) (found : ν → Bool) (n : ℕ) : Option (Option ν) :=
  listForEach head ⟨m.prev, m.next⟩ found n (m.prev head)

/-- `list_for_each_safe` from `pos` on; `n` is `pos->next`. It visits at most so many nodes. -/
def listForEachSafe (head : ν) (body : ν → Links ν → Option (Links ν)) : ℕ → Option ν → Links ν → Option (Links ν)
  | 0, _, _ => none
  | fuel + 1, pos, m => do
    let pos ← pos
    let n := m.next pos
    if pos = head then return m
    let m ← body pos m
    listForEachSafe head body fuel n m

/-- `list_for_each` from `pos` on, with a body that changes the list. -/
def listForEachDo (head : ν) (body : ν → Links ν → Option (Links ν)) : ℕ → Option ν → Links ν → Option (Links ν)
  | 0, _, _ => none
  | fuel + 1, pos, m => do
    if pos = some head then return m
    let pos ← pos
    let m ← body pos m
    listForEachDo head body fuel (m.next pos) m

/-! ### Calls -/

/-- A call. -/
inductive ListOp (ν : Type*) where
  /-- `INIT_LIST_HEAD`. -/
  | init (list : ν)
  /-- `list_add`. -/
  | add (new head : ν)
  /-- `list_add_tail`. -/
  | addTail (new head : ν)
  /-- `list_del`. -/
  | del (entry : Option ν)
  /-- `list_del_init`. -/
  | delInit (entry : ν)
  /-- `list_move`. -/
  | move (list head : ν)
  /-- `list_move_tail`. -/
  | moveTail (list head : ν)
  /-- `list_splice`. -/
  | splice (list head : ν)
  /-- `list_splice_init`. -/
  | spliceInit (list head : ν)

/-- What a call does to the fields. -/
def ListOp.call (m : Links ν) : ListOp ν → Option (Links ν)
  | .init list => some (initListHead list m)
  | .add new head => listAdd new head m
  | .addTail new head => listAddTail new head m
  | .del entry => listDel entry m
  | .delInit entry => listDelInit entry m
  | .move list head => listMove list head m
  | .moveTail list head => listMoveTail list head m
  | .splice list head => listSplice list head m
  | .spliceInit list head => listSpliceInit list head m

/-- One call after the other. -/
def listRun (m : Links ν) : List (ListOp ν) → Option (Links ν)
  | [] => some m
  | op :: ops => do listRun (← op.call m) ops

/-! ### What a caller thinks of -/

/-- The members of the list of each head; a node with none is no head. -/
abbrev Lists (ν : Type*) := ν → Option (List ν)

namespace Lists

variable (L : Lists ν)

/-- A node is in no list, but for its own when that is empty. -/
def Loose (x : ν) : Prop := ∀ h l, L h = some l → x ∈ h :: l → h = x ∧ l = []

/-- A node that can be deleted: a member, or the head of an empty list. -/
def Entry (x : ν) : Prop := L x = some [] ∨ ∃ h l, L h = some l ∧ x ∈ l

/-- A node is taken out. -/
def without (x : ν) : Lists ν := Function.update (fun h => (L h).map (·.erase x)) x none

/-- A list gets other members, and a node is then no head, unless it is that of the list. -/
def set (x head : ν) (l : Option (List ν)) : Lists ν := Function.update (Function.update L x none) head l

/-- All members of a list are put in front of another one. -/
def join (list head : ν) : Lists ν := L.set list head (do return (← L list) ++ (← L head))

end Lists

namespace ListOp

/-- What a caller has to see to. -/
def Allows (L : Lists ν) : ListOp ν → Prop
  | .init list => ∀ h l, L h = some l → list ∉ l
  | .add new head | .addTail new head => L.Loose new ∧ new ≠ head ∧ (L head).isSome
  | .del entry => ∀ e, entry = some e → L.Entry e
  | .delInit entry => L.Entry entry
  | .move list head | .moveTail list head => L.Entry list ∧ list ≠ head ∧ (L head).isSome
  | .splice list head | .spliceInit list head => list ≠ head ∧ (L list).isSome ∧ (L head).isSome

/-- What the lists are after a call. -/
def after (L : Lists ν) : ListOp ν → Lists ν
  | .init list => Function.update L list (some [])
  | .add new head => L.set new head ((L head).map (new :: ·))
  | .addTail new head => L.set new head ((L head).map (· ++ [new]))
  | .del none => L
  | .del (some e) => L.without e
  | .delInit e => Function.update (L.without e) e (some [])
  | .move e head => (L.without e).set e head ((L.without e head).map (e :: ·))
  | .moveTail e head => (L.without e).set e head ((L.without e head).map (· ++ [e]))
  | .splice list head => if L list = some [] then L else L.join list head
  | .spliceInit list head => if L list = some [] then L else Function.update (L.join list head) list (some [])

/-- A sequence of calls that a caller may make, and the lists after it. -/
inductive Run : Lists ν → List (ListOp ν) → Lists ν → Prop where
  | nil {L : Lists ν} : Run L [] L
  | cons {L L' : Lists ν} {op : ListOp ν} {ops : List (ListOp ν)} (h : op.Allows L) (hs : Run (op.after L) ops L') :
    Run L (op :: ops) L'

end ListOp

/-- The fields hold these lists: each is a ring, and they are apart. -/
structure Lists.Represents (m : Links ν) (L : Lists ν) : Prop where
  ring : ∀ h l, L h = some l → m.Ring h l
  nodup : ∀ h l, L h = some l → (h :: l).Nodup
  disjoint : ∀ h l h' l', L h = some l → L h' = some l' → h ≠ h' → ∀ x ∈ h :: l, x ∉ h' :: l'

/-! ### Calls on one list -/

section

variable {m : Links ν} {head new entry : ν} {l : List ν}

/-- Off some nodes nothing was written. -/
def SameOff (S : List ν) (m m' : Links ν) : Prop := ∀ y ∉ S, m'.next y = m.next y ∧ m'.prev y = m.prev y

/-- `list_add` of a node that is in no list. -/
theorem listAdd_ring (hr : m.Ring head l) (hnd : (head :: l).Nodup) (hnew : new ∉ head :: l) :
    ∃ m', listAdd new head m = some m' ∧ m'.Ring head (new :: l) ∧ SameOff (new :: head :: l) m m' := by
  obtain ⟨y, rest, hy⟩ := Links.exists_first head l
  have hnext := hr.next_head hy
  have hymem : y ∈ l ++ [head] := by rw [hy]; exact List.mem_cons_self
  have hyhead : y ∈ head :: l := by simpa [or_comm] using hymem
  have hhnew : head ≠ new := fun h => hnew (h ▸ List.mem_cons_self)
  have hynew : y ≠ new := fun h => hnew (h ▸ hyhead)
  have hm : listAdd new head m = some (setNext head (some new)
      (setPrev new (some head) (setNext new (some y) (setPrev y (some new) m)))) := by
    simp [listAdd, listAddInternal, hnext]
  refine ⟨_, hm, hr.insertFirst hnd hnew hy ?_ ?_ ?_ ?_ ?_ ?_, ?_⟩
  · simp [setNext]
  · simp [setNext, setPrev]
  · simp [setNext, setPrev, hhnew.symm]
  · simp [setNext, setPrev, hynew]
  · intro x hx hx'
    simp [setNext, setPrev, hx, hx']
  · intro x hx hx'
    simp [setNext, setPrev, hx, hx']
  · intro x hx
    have hxhead : x ∉ head :: l := fun h => hx (List.mem_cons_of_mem _ h)
    have hxnew : x ≠ new := fun h => hx (h ▸ List.mem_cons_self)
    have hxy : x ≠ y := fun h => hxhead (h ▸ hyhead)
    have hxh : x ≠ head := fun h => hxhead (h ▸ List.mem_cons_self)
    simp [setNext, setPrev, hxy, hxnew, hxh]

/-- `__list_del` of the neighbours of a member. -/
theorem listDelInternal_ring (hr : m.Ring head l) (hnd : (head :: l).Nodup) (he : entry ∈ l) :
    ∃ m', listDelInternal (m.prev entry) (m.next entry) m = some m' ∧ m'.Ring head (l.erase entry) ∧
      SameOff (head :: l) m m' := by
  obtain ⟨l₁, l₂, rfl⟩ := List.append_of_mem he
  obtain ⟨init, x, hx⟩ := Links.exists_last head l₁
  obtain ⟨z, rest, hz⟩ := Links.exists_first head l₂
  obtain ⟨hp, hn⟩ := hr.neighbours hx hz
  have hnd' : ((head :: l₁) ++ entry :: l₂).Nodup := hnd
  have hl₁ : entry ∉ l₁ := fun h =>
    (List.nodup_append.mp hnd').2.2 entry (List.mem_cons_of_mem _ h) entry (by simp) rfl
  have hxmem : x ∈ head :: l₁ := by rw [hx]; simp
  have hzmem : z ∈ l₂ ++ [head] := by rw [hz]; exact List.mem_cons_self
  have hm : listDelInternal (m.prev entry) (m.next entry) m = some (setNext x (some z) (setPrev z (some x) m)) := by
    simp [listDelInternal, hp, hn]
  rw [List.erase_append_right _ hl₁, List.erase_cons_head]
  refine ⟨_, hm, hr.remove hnd hx hz ?_ ?_ ?_ ?_, ?_⟩
  · simp [setNext]
  · simp [setNext, setPrev]
  · intro y hy _
    simp [setNext, setPrev, hy]
  · intro y hy _
    simp [setNext, setPrev, hy]
  · intro y hy
    have hyx : y ≠ x := by
      rintro rfl
      rcases List.mem_cons.mp hxmem with h | h
      · exact hy (h ▸ List.mem_cons_self)
      · exact hy (List.mem_cons_of_mem _ (List.mem_append_left _ h))
    have hyz : y ≠ z := by
      rintro rfl
      rcases List.mem_append.mp hzmem with h | h
      · exact hy (List.mem_cons_of_mem _ (List.mem_append_right _ (List.mem_cons_of_mem _ h)))
      · exact hy (by simp_all)
    simp [setNext, setPrev, hyx, hyz]

/-- `__list_del` of the neighbours of a node linked to itself changes nothing. -/
theorem listDelInternal_selfLinked (hr : m.Ring entry []) :
    listDelInternal (m.prev entry) (m.next entry) m = some m := by
  obtain ⟨hn, hp⟩ := Links.ring_nil_iff.mp hr
  simp only [listDelInternal, hn, hp, Option.bind_eq_bind, Option.bind_some, Option.pure_def, Option.some.injEq,
    setNext, setPrev]
  ext1
  · simp [← hn]
  · simp [← hp]

/-- `__list_splice` of a list that is not empty. -/
theorem listSpliceInternal_ring {list : ν} {la : List ν} (ha : m.Ring list la) (hr : m.Ring head l)
    (hnd : (la ++ head :: l).Nodup) (hla : la ≠ []) :
    ∃ m', listSpliceInternal list head m = some m' ∧ m'.Ring head (la ++ l) ∧ SameOff (la ++ head :: l) m m' := by
  obtain ⟨f, first, hf⟩ := List.exists_cons_of_ne_nil hla
  obtain ⟨last, z, hz⟩ : ∃ last z, la = last ++ [z] := ⟨_, _, (List.dropLast_append_getLast hla).symm⟩
  obtain ⟨y, rest, hy⟩ := Links.exists_first head l
  have hnext : m.next list = some f := ha.next_head (show la ++ [list] = f :: (first ++ [list]) by rw [hf]; rfl)
  have hprev : m.prev list = some z := ha.prev_head (show list :: la = (list :: last) ++ [z] by rw [hz]; rfl)
  have hat := hr.next_head hy
  have hfla : f ∈ la := by rw [hf]; exact List.mem_cons_self
  have hzla : z ∈ la := by rw [hz]; simp
  have hyhl : y ∈ head :: l := by
    have hymem : y ∈ l ++ [head] := by rw [hy]; exact List.mem_cons_self
    simpa [or_comm] using hymem
  have hdisj := (List.nodup_append.mp hnd).2.2
  have hzh : z ≠ head := fun h => hdisj z hzla head (by simp) h
  have hfy : f ≠ y := fun h => hdisj f hfla y hyhl h
  have hm : listSpliceInternal list head m = some (setPrev y (some z)
      (setNext z (some y) (setNext head (some f) (setPrev f (some head) m)))) := by
    simp [listSpliceInternal, hnext, hprev, hat]
  refine ⟨_, hm, ha.splice hr hnd hf hz hy ?_ ?_ ?_ ?_ ?_ ?_, ?_⟩
  · simp [setNext, setPrev, hzh.symm]
  · simp [setNext, setPrev, hfy]
  · simp [setNext, setPrev]
  · simp [setPrev]
  · intro x hx hx'
    simp [setNext, setPrev, hx, hx']
  · intro x hx hx'
    simp [setNext, setPrev, hx, hx']
  · intro x hx
    have hxne : ∀ w ∈ la ++ head :: l, x ≠ w := fun w hw h => hx (h ▸ hw)
    have hxf := hxne f (List.mem_append_left _ hfla)
    have hxz := hxne z (List.mem_append_left _ hzla)
    have hxy := hxne y (List.mem_append_right _ hyhl)
    have hxh := hxne head (by simp)
    simp [setNext, setPrev, hxf, hxz, hxy, hxh]

end

/-! ### Calls on many lists -/

namespace Lists.Represents

variable {m m' : Links ν} {L L' : Lists ν} {h x : ν} {l : List ν}

omit [DecidableEq ν] in
/-- A member is no head. -/
theorem not_head (hL : Represents m L) (hl : L h = some l) (hx : x ∈ l) : L x = none := by
  cases hLx : L x with
  | none => rfl
  | some lx =>
    have hne : h ≠ x := by
      rintro rfl
      exact (List.nodup_cons.mp (hL.nodup h l hl)).1 hx
    exact absurd List.mem_cons_self (hL.disjoint h l x lx hl hLx hne x (List.mem_cons_of_mem _ hx))

/-- A node is in one list. -/
theorem head_unique (hL : Represents m L) {h' : ν} {l' : List ν} (hl : L h = some l) (hl' : L h' = some l')
    (hx : x ∈ h :: l) (hx' : x ∈ h' :: l') : h = h' := by
  by_contra hne
  exact hL.disjoint h l h' l' hl hl' hne x hx hx'

/-- **A local change.** The nodes `S` are those of some lists and nodes that are in none;
nothing was written off `S`, and of the nodes in `S` only `head` is a head now. -/
theorem update (hL : Represents m L) (S : List ν) (head : ν)
    (hregion : ∀ k l, L k = some l → k ∉ S → ∀ x ∈ l, x ∉ S)
    (hsame : ∀ k ∉ S, L' k = L k) (hoff : SameOff S m m')
    (hin : ∀ k ∈ S, ∀ l, L' k = some l → k = head ∧ m'.Ring k l ∧ (k :: l).Nodup ∧ ∀ x ∈ l, x ∈ S) :
    Represents m' L' := by
  -- the nodes of a list are all in `S` or none is
  have hinside : ∀ k l, L' k = some l → k ∈ S → ∀ x ∈ k :: l, x ∈ S := by
    intro k l hl hk x hx
    rcases List.mem_cons.mp hx with rfl | hx
    · exact hk
    · exact (hin k hk l hl).2.2.2 x hx
  have houtside : ∀ k l, L' k = some l → k ∉ S → L k = some l ∧ ∀ x ∈ k :: l, x ∉ S := by
    intro k l hl hk
    have hl' : L k = some l := (hsame k hk).symm.trans hl
    refine ⟨hl', ?_⟩
    intro x hx
    rcases List.mem_cons.mp hx with rfl | hx
    · exact hk
    · exact hregion k l hl' hk x hx
  refine ⟨?_, ?_, ?_⟩
  · intro k l hl
    by_cases hk : k ∈ S
    · exact (hin k hk l hl).2.1
    · obtain ⟨hl', hnot⟩ := houtside k l hl hk
      exact (hL.ring k l hl').frame (fun x hx => (hoff x (hnot x hx)).1) fun x hx => (hoff x (hnot x hx)).2
  · intro k l hl
    by_cases hk : k ∈ S
    · exact (hin k hk l hl).2.2.1
    · exact hL.nodup k l (houtside k l hl hk).1
  · intro k l k' l' hl hl' hne x hx hx'
    by_cases hk : k ∈ S
    · by_cases hk' : k' ∈ S
      · exact hne ((hin k hk l hl).1.trans (hin k' hk' l' hl').1.symm)
      · exact (houtside k' l' hl' hk').2 x hx' (hinside k l hl hk x hx)
    · by_cases hk' : k' ∈ S
      · exact (houtside k l hl hk).2 x hx (hinside k' l' hl' hk' x hx')
      · exact hL.disjoint k l k' l' (houtside k l hl hk).1 (houtside k' l' hl' hk').1 hne x hx hx'

omit [DecidableEq ν] in
/-- Writes to nodes that are in no list. -/
theorem frame (hL : Represents m L) {S : List ν} (hS : ∀ h l, L h = some l → ∀ x ∈ h :: l, x ∉ S)
    (hoff : SameOff S m m') : Represents m' L := by
  refine ⟨?_, hL.nodup, hL.disjoint⟩
  intro h l hl
  exact (hL.ring h l hl).frame (fun x hx => (hoff x (hS h l hl x hx)).1) fun x hx => (hoff x (hS h l hl x hx)).2

/-- `INIT_LIST_HEAD` of a node that is no member; the members of its list, if it had one, are in none then. -/
theorem init (hL : Represents m L) (hx : ∀ h l, L h = some l → x ∉ l) :
    Represents (initListHead x m) (Function.update L x (some [])) := by
  have hself : (initListHead x m).Ring x [] :=
    Links.ring_nil_iff.mpr ⟨by simp [initListHead, setNext, setPrev], by simp [initListHead, setNext, setPrev]⟩
  -- the members of the list that `x` has before
  have hmembers : ∀ y ∈ (L x).getD [], ∃ l, L x = some l ∧ y ∈ l := by
    intro y hy
    cases hLx : L x with
    | none =>
      rw [hLx] at hy
      cases hy
    | some l =>
      rw [hLx] at hy
      exact ⟨l, rfl, hy⟩
  refine hL.update (x :: (L x).getD []) x ?_ ?_ ?_ ?_
  · intro k l hl hk y hy hmem
    rcases List.mem_cons.mp hmem with rfl | hmem
    · exact hx k l hl hy
    · obtain ⟨lx, hLx, hylx⟩ := hmembers y hmem
      have hkx := hL.head_unique hl hLx (List.mem_cons_of_mem _ hy) (List.mem_cons_of_mem _ hylx)
      exact hk (by simp [hkx])
  · intro k hk
    exact Function.update_of_ne (fun hkx => hk (by simp [hkx])) _ _
  · intro y hy
    have hne : y ≠ x := fun hyx => hy (by simp [hyx])
    simp [initListHead, setNext, setPrev, hne]
  · intro k hk l hl
    by_cases hkx : k = x
    · subst hkx
      rw [Function.update_self] at hl
      obtain rfl := Option.some.inj hl
      exact ⟨rfl, hself, List.nodup_singleton k, fun y hy => by cases hy⟩
    · rw [Function.update_of_ne hkx] at hl
      obtain ⟨lx, hLx, hklx⟩ := hmembers k ((List.mem_cons.mp hk).resolve_left hkx)
      rw [hL.not_head hLx hklx] at hl
      cases hl

/-- A list gets a node that is in none. -/
theorem insert (hL : Represents m L) {head new : ν} {l l' : List ν} (hloose : L.Loose new) (hne : new ≠ head)
    (hl : L head = some l) (hring : m'.Ring head l') (hnd : (head :: l').Nodup) (hmem : ∀ x ∈ l', x ∈ new :: l)
    (hoff : SameOff (new :: head :: l) m m') : Represents m' (L.set new head (some l')) := by
  refine hL.update (new :: head :: l) head ?_ ?_ hoff ?_
  · intro k lk hlk hk y hy hyS
    rcases List.mem_cons.mp hyS with rfl | hyS
    · have hempty := (hloose k lk hlk (List.mem_cons_of_mem _ hy)).2
      rw [hempty] at hy
      cases hy
    · exact hk (by simp [hL.head_unique hlk hl (List.mem_cons_of_mem _ hy) hyS])
  · intro k hk
    have hkhead : k ≠ head := fun h => hk (by simp [h])
    have hknew : k ≠ new := fun h => hk (by simp [h])
    rw [Lists.set, Function.update_of_ne hkhead, Function.update_of_ne hknew]
  · intro k hk lk hlk
    by_cases hkhead : k = head
    · subst hkhead
      rw [Lists.set, Function.update_self] at hlk
      obtain rfl := Option.some.inj hlk
      refine ⟨rfl, hring, hnd, ?_⟩
      intro x hx
      rcases List.mem_cons.mp (hmem x hx) with rfl | hx
      · exact List.mem_cons_self
      · exact List.mem_cons_of_mem _ (List.mem_cons_of_mem _ hx)
    · rw [Lists.set, Function.update_of_ne hkhead] at hlk
      by_cases hknew : k = new
      · rw [hknew, Function.update_self] at hlk
        cases hlk
      · rw [Function.update_of_ne hknew] at hlk
        have hkl : k ∈ l := by
          rcases List.mem_cons.mp hk with h | hk
          · exact absurd h hknew
          · exact (List.mem_cons.mp hk).resolve_left hkhead
        rw [hL.not_head hl hkl] at hlk
        cases hlk

omit [DecidableEq ν] in
/-- A loose node is not in a list with another head. -/
theorem loose_notMem {head new : ν} (hloose : L.Loose new) (hne : new ≠ head) (hl : L head = some l) :
    new ∉ head :: l := by
  intro hmem
  exact hne (hloose head l hl hmem).1.symm

/-- `list_add`. -/
theorem add (hL : Represents m L) {head new : ν} (hloose : L.Loose new) (hne : new ≠ head) (hl : L head = some l) :
    ∃ m', listAdd new head m = some m' ∧ Represents m' (L.set new head (some (new :: l))) := by
  have hnd := hL.nodup head l hl
  have hnew := loose_notMem hloose hne hl
  obtain ⟨m', hm', hring, hoff⟩ := listAdd_ring (hL.ring head l hl) hnd hnew
  refine ⟨m', hm', hL.insert hloose hne hl hring ?_ (fun x hx => hx) hoff⟩
  have hhead := (List.nodup_cons.mp hnd).1
  have hl' := (List.nodup_cons.mp hnd).2
  simp only [List.mem_cons, not_or] at hnew
  simp only [List.nodup_cons, List.mem_cons, not_or]
  exact ⟨⟨hne.symm, hhead⟩, hnew.2, hl'⟩

/-- `list_add_tail`. -/
theorem addTail (hL : Represents m L) {head new : ν} (hloose : L.Loose new) (hne : new ≠ head) (hl : L head = some l) :
    ∃ m', listAddTail new head m = some m' ∧ Represents m' (L.set new head (some (l ++ [new]))) := by
  have hnd := hL.nodup head l hl
  have hnew := loose_notMem hloose hne hl
  obtain ⟨m', hm', hring, hoff⟩ := listAddTail_ring (hL.ring head l hl) hnd hnew
  refine ⟨m', hm', hL.insert hloose hne hl hring ?_ ?_ ?_⟩
  · rw [← List.cons_append, List.nodup_append]
    exact ⟨hnd, List.nodup_singleton new, fun x hx y hy hxy => hnew (by simpa [List.mem_singleton.mp hy ▸ hxy] using hx)⟩
  · intro x hx
    simpa [or_comm] using hx
  · intro y hy
    exact hoff y (fun hmem => hy (by simpa [or_comm, or_left_comm] using hmem))

/-- Lists that erase a node that they do not have. -/
theorem erase_eq (hL : Represents m L) (hl : L h = some l) (hx : x ∈ h :: l) {k : ν} (hk : k ≠ h) :
    (L k).map (·.erase x) = L k := by
  cases hLk : L k with
  | none => rfl
  | some lk =>
    rw [Option.map_some, List.erase_of_not_mem]
    intro hmem
    exact hk (hL.head_unique hLk hl (List.mem_cons_of_mem _ hmem) hx)

/-- `__list_del` of the neighbours of a node that can be deleted: it is in no list then. -/
theorem delInternal (hL : Represents m L) (hx : L.Entry x) :
    ∃ m', listDelInternal (m.prev x) (m.next x) m = some m' ∧ Represents m' (L.without x) ∧
      ∀ h l, L.without x h = some l → x ∉ h :: l := by
  rcases hx with hself | ⟨h, l, hl, hx⟩
  · -- linked to itself
    have hnot : ∀ k lk, L k = some lk → k ≠ x → x ∉ k :: lk := by
      intro k lk hlk hne hmem
      exact hne (hL.head_unique hlk hself hmem List.mem_cons_self)
    have hsame : ∀ k, k ≠ x → (L k).map (·.erase x) = L k := fun k hk => hL.erase_eq hself List.mem_cons_self hk
    refine ⟨m, listDelInternal_selfLinked (hL.ring x [] hself), ?_, ?_⟩
    · refine hL.update [x] x ?_ ?_ (fun _ _ => ⟨rfl, rfl⟩) ?_
      · intro k lk hlk hk y hy hyx
        rw [List.mem_singleton.mp hyx] at hy
        exact hnot k lk hlk (fun hkx => hk (by simp [hkx])) (List.mem_cons_of_mem _ hy)
      · intro k hk
        have hkx : k ≠ x := fun hkx => hk (by simp [hkx])
        rw [Lists.without, Function.update_of_ne hkx, hsame k hkx]
      · intro k hk lk hlk
        rw [List.mem_singleton.mp hk, Lists.without, Function.update_self] at hlk
        cases hlk
    · intro k lk hlk
      by_cases hkx : k = x
      · rw [hkx, Lists.without, Function.update_self] at hlk
        cases hlk
      · rw [Lists.without, Function.update_of_ne hkx, hsame k hkx] at hlk
        exact hnot k lk hlk hkx
  · -- a member
    obtain ⟨m', hm', hring, hoff⟩ := listDelInternal_ring (hL.ring h l hl) (hL.nodup h l hl) hx
    have hnd := hL.nodup h l hl
    have hhx : h ≠ x := by
      rintro rfl
      exact (List.nodup_cons.mp hnd).1 hx
    have hLx := hL.not_head hl hx
    have hsub : ∀ y, y ∈ l.erase x → y ∈ l := fun y hy => List.mem_of_mem_erase hy
    refine ⟨m', hm', ?_, ?_⟩
    · refine hL.update (h :: l) h ?_ ?_ hoff ?_
      · intro k lk hlk hk y hy hyS
        exact hk (by simp [hL.head_unique hlk hl (List.mem_cons_of_mem _ hy) hyS])
      · intro k hk
        have hkx : k ≠ x := fun hkx => hk (by simp [hkx, hx])
        have hkh : k ≠ h := fun hkh => hk (by simp [hkh])
        rw [Lists.without, Function.update_of_ne hkx, hL.erase_eq hl (List.mem_cons_of_mem _ hx) hkh]
      · intro k hk lk hlk
        by_cases hkx : k = x
        · rw [hkx, Lists.without, Function.update_self] at hlk
          cases hlk
        · rw [Lists.without, Function.update_of_ne hkx] at hlk
          rcases List.mem_cons.mp hk with rfl | hk
          · rw [hl, Option.map_some] at hlk
            obtain rfl := Option.some.inj hlk
            refine ⟨rfl, hring, ?_, fun y hy => List.mem_cons_of_mem _ (hsub y hy)⟩
            exact List.nodup_cons.mpr ⟨fun hmem => (List.nodup_cons.mp hnd).1 (hsub k hmem),
              (List.nodup_cons.mp hnd).2.erase x⟩
          · rw [hL.not_head hl hk] at hlk
            cases hlk
    · intro k lk hlk hmem
      by_cases hkx : k = x
      · rw [hkx, Lists.without, Function.update_self] at hlk
        cases hlk
      · rw [Lists.without, Function.update_of_ne hkx] at hlk
        obtain ⟨lk', hlk', rfl⟩ := Option.map_eq_some_iff.mp hlk
        have hmem' := (List.mem_cons.mp hmem).resolve_left (Ne.symm hkx)
        exact (List.nodup_cons.mp (hL.nodup k lk' hlk')).2.not_mem_erase hmem'

/-- `__list_splice`. -/
theorem spliceInternal (hL : Represents m L) {list head : ν} {la : List ν} (hne : list ≠ head) (ha : L list = some la)
    (hl : L head = some l) (hla : la ≠ []) :
    ∃ m', listSpliceInternal list head m = some m' ∧ Represents m' (L.join list head) ∧
      ∀ k lk, L.join list head k = some lk → list ∉ lk := by
  have hdisj := hL.disjoint list la head l ha hl hne
  have hnda := List.nodup_cons.mp (hL.nodup list la ha)
  have hndh := hL.nodup head l hl
  have hnd : (la ++ head :: l).Nodup := by
    rw [List.nodup_append]
    exact ⟨hnda.2, hndh, fun x hx y hy hxy => hdisj x (List.mem_cons_of_mem _ hx) (hxy ▸ hy)⟩
  obtain ⟨m', hm', hring, hoff⟩ := listSpliceInternal_ring (hL.ring list la ha) (hL.ring head l hl) hnd hla
  have hjoin : L.join list head = L.set list head (some (la ++ l)) := by
    rw [Lists.join, ha, hl]
    rfl
  have hfree : ∀ k lk, L.set list head (some (la ++ l)) k = some lk → list ∉ lk := by
    intro k lk hlk hmem
    by_cases hkhead : k = head
    · rw [hkhead, Lists.set, Function.update_self] at hlk
      obtain rfl := Option.some.inj hlk
      rcases List.mem_append.mp hmem with hmem | hmem
      · exact hnda.1 hmem
      · exact hdisj list List.mem_cons_self (List.mem_cons_of_mem _ hmem)
    · rw [Lists.set, Function.update_of_ne hkhead] at hlk
      by_cases hklist : k = list
      · rw [hklist, Function.update_self] at hlk
        cases hlk
      · rw [Function.update_of_ne hklist] at hlk
        exact hklist (hL.head_unique hlk ha (List.mem_cons_of_mem _ hmem) List.mem_cons_self)
  rw [hjoin]
  refine ⟨m', hm', ?_, hfree⟩
  refine hL.update (list :: la ++ head :: l) head ?_ ?_ ?_ ?_
  · intro k lk hlk hk y hy hyS
    rcases List.mem_append.mp hyS with hyS | hyS
    · exact hk (by simp [hL.head_unique hlk ha (List.mem_cons_of_mem _ hy) hyS])
    · exact hk (by simp [hL.head_unique hlk hl (List.mem_cons_of_mem _ hy) hyS])
  · intro k hk
    have hkhead : k ≠ head := fun h => hk (by simp [h])
    have hklist : k ≠ list := fun h => hk (by simp [h])
    rw [Lists.set, Function.update_of_ne hkhead, Function.update_of_ne hklist]
  · intro y hy
    exact hoff y (fun hmem => hy (List.mem_cons_of_mem _ hmem))
  · intro k hk lk hlk
    by_cases hkhead : k = head
    · subst hkhead
      rw [Lists.set, Function.update_self] at hlk
      obtain rfl := Option.some.inj hlk
      refine ⟨rfl, hring, ?_, ?_⟩
      · exact (List.perm_middle.nodup_iff).mp hnd
      · intro x hx
        rcases List.mem_append.mp hx with hx | hx
        · exact List.mem_append_left _ (List.mem_cons_of_mem _ hx)
        · exact List.mem_append_right _ (List.mem_cons_of_mem _ hx)
    · rw [Lists.set, Function.update_of_ne hkhead] at hlk
      by_cases hklist : k = list
      · rw [hklist, Function.update_self] at hlk
        cases hlk
      · rw [Function.update_of_ne hklist] at hlk
        rcases List.mem_append.mp hk with hk | hk
        · rw [hL.not_head ha ((List.mem_cons.mp hk).resolve_left hklist)] at hlk
          cases hlk
        · rw [hL.not_head hl ((List.mem_cons.mp hk).resolve_left hkhead)] at hlk
          cases hlk

/-- `list_empty` of a head. -/
theorem empty_iff (hL : Represents m L) (hl : L h = some l) : listEmpty h m = true ↔ l = [] := by
  obtain ⟨y, rest, hy⟩ := Links.exists_first h l
  rw [listEmpty, (hL.ring h l hl).next_head hy, decide_eq_true_iff, Option.some.injEq]
  cases l with
  | nil =>
    obtain ⟨rfl, -⟩ := List.cons.inj hy
    simp
  | cons x l =>
    obtain ⟨rfl, -⟩ := List.cons.inj hy
    have hnd := (List.nodup_cons.mp (hL.nodup h _ hl)).1
    simp only [reduceCtorEq, iff_false]
    rintro rfl
    exact hnd List.mem_cons_self

end Lists.Represents

/-! ### Any calls -/

/-- A head still is one after another node is taken out. -/
theorem Lists.without_head {L : Lists ν} {x head : ν} (hne : x ≠ head) (h : (L head).isSome) :
    ∃ l, L.without x head = some l := by
  obtain ⟨l, hl⟩ := Option.isSome_iff_exists.mp h
  exact ⟨l.erase x, by rw [Lists.without, Function.update_of_ne hne.symm, hl, Option.map_some]⟩

/-- **A call that a caller may make** has a result, and leaves the lists that he thinks of. -/
theorem ListOp.call_represents {m : Links ν} {L : Lists ν} (hL : L.Represents m) {op : ListOp ν} (h : op.Allows L) :
    ∃ m', op.call m = some m' ∧ (op.after L).Represents m' := by
  cases op with
  | init list => exact ⟨_, rfl, hL.init h⟩
  | add new head =>
    obtain ⟨hloose, hne, hhead⟩ := h
    obtain ⟨l, hl⟩ := Option.isSome_iff_exists.mp hhead
    obtain ⟨m', hm', hL'⟩ := hL.add hloose hne hl
    exact ⟨m', hm', by simpa only [ListOp.after, hl, Option.map_some] using hL'⟩
  | addTail new head =>
    obtain ⟨hloose, hne, hhead⟩ := h
    obtain ⟨l, hl⟩ := Option.isSome_iff_exists.mp hhead
    obtain ⟨m', hm', hL'⟩ := hL.addTail hloose hne hl
    exact ⟨m', hm', by simpa only [ListOp.after, hl, Option.map_some] using hL'⟩
  | del entry =>
    cases entry with
    | none => exact ⟨m, rfl, hL⟩
    | some e =>
      obtain ⟨m', hm', hL', hfree⟩ := hL.delInternal (h e rfl)
      refine ⟨setPrev e none (setNext e none m'), by simp [ListOp.call, listDel, hm'], ?_⟩
      refine hL'.frame (S := [e]) ?_ ?_
      · intro k l hl x hx hxe
        rw [List.mem_singleton.mp hxe] at hx
        exact hfree k l hl hx
      · intro y hy
        have hne : y ≠ e := fun hye => hy (by simp [hye])
        simp [setPrev, setNext, hne]
  | delInit e =>
    obtain ⟨m', hm', hL', hfree⟩ := hL.delInternal h
    refine ⟨initListHead e m', by simp [ListOp.call, listDelInit, hm'], hL'.init ?_⟩
    intro k l hl hmem
    exact hfree k l hl (List.mem_cons_of_mem _ hmem)
  | move e head =>
    obtain ⟨hentry, hne, hhead⟩ := h
    obtain ⟨m', hm', hL', hfree⟩ := hL.delInternal hentry
    obtain ⟨l, hl⟩ := Lists.without_head hne hhead
    obtain ⟨m'', hm'', hL''⟩ := hL'.add (fun k l hl hmem => absurd hmem (hfree k l hl)) hne hl
    exact ⟨m'', by simp [ListOp.call, listMove, hm', hm''], by simpa only [ListOp.after, hl, Option.map_some] using hL''⟩
  | moveTail e head =>
    obtain ⟨hentry, hne, hhead⟩ := h
    obtain ⟨m', hm', hL', hfree⟩ := hL.delInternal hentry
    obtain ⟨l, hl⟩ := Lists.without_head hne hhead
    obtain ⟨m'', hm'', hL''⟩ := hL'.addTail (fun k l hl hmem => absurd hmem (hfree k l hl)) hne hl
    exact ⟨m'', by simp [ListOp.call, listMoveTail, hm', hm''],
      by simpa only [ListOp.after, hl, Option.map_some] using hL''⟩
  | splice list head =>
    obtain ⟨hne, hlist, hhead⟩ := h
    obtain ⟨la, ha⟩ := Option.isSome_iff_exists.mp hlist
    obtain ⟨l, hl⟩ := Option.isSome_iff_exists.mp hhead
    have hempty := hL.empty_iff ha
    by_cases hla : la = []
    · exact ⟨m, by simp [ListOp.call, listSplice, hempty.mpr hla], by simpa [ListOp.after, ha, hla] using hL⟩
    · obtain ⟨m', hm', hL', -⟩ := hL.spliceInternal hne ha hl hla
      exact ⟨m', by simp [ListOp.call, listSplice, mt hempty.mp hla, hm'], by simpa [ListOp.after, ha, hla] using hL'⟩
  | spliceInit list head =>
    obtain ⟨hne, hlist, hhead⟩ := h
    obtain ⟨la, ha⟩ := Option.isSome_iff_exists.mp hlist
    obtain ⟨l, hl⟩ := Option.isSome_iff_exists.mp hhead
    have hempty := hL.empty_iff ha
    by_cases hla : la = []
    · exact ⟨m, by simp [ListOp.call, listSpliceInit, hempty.mpr hla], by simpa [ListOp.after, ha, hla] using hL⟩
    · obtain ⟨m', hm', hL', hfree⟩ := hL.spliceInternal hne ha hl hla
      exact ⟨initListHead list m', by simp [ListOp.call, listSpliceInit, mt hempty.mp hla, hm'],
        by simpa [ListOp.after, ha, hla] using hL'.init hfree⟩

omit [DecidableEq ν] in
/-- Memory without lists. -/
theorem Lists.represents_none {m : Links ν} : Lists.Represents m fun _ => none := by
  refine ⟨?_, ?_, ?_⟩
  · intro h l hl
    cases hl
  · intro h l hl
    cases hl
  · intro h l h' l' hl
    cases hl

/-- **Any sequence of calls.** -/
theorem listRun_represents {m : Links ν} {L L' : Lists ν} {ops : List (ListOp ν)} (hrun : ListOp.Run L ops L')
    (hL : L.Represents m) : ∃ m', listRun m ops = some m' ∧ L'.Represents m' := by
  induction hrun generalizing m with
  | nil => exact ⟨m, rfl, hL⟩
  | cons h _ ih =>
    obtain ⟨m₁, hm₁, hL₁⟩ := ListOp.call_represents hL h
    obtain ⟨m', hm', hL'⟩ := ih hL₁
    exact ⟨m', by simp [listRun, hm₁, hm'], hL'⟩

/-- **The functions of `list.h` keep lists.** Memory may hold anything at first, and there are no
lists. After any sequence of calls that a caller may make, none of which follows a `NULL`
pointer: each list that he thinks of is a ring, no two share a node, a walk forward from the head finds
the first member that it looks for and a walk back the last, and `list_empty` tells whether there
is a member. -/
theorem list_ops_refine {m : Links ν} {L : Lists ν} {ops : List (ListOp ν)} (hrun : ListOp.Run (fun _ => none) ops L) :
    ∃ m', listRun m ops = some m' ∧ L.Represents m' ∧
      ∀ head l, L head = some l →
        (listEmpty head m' = true ↔ l = []) ∧
        ∀ found n, l.length < n →
          listForEach head m' found n (m'.next head) = some (l.find? found) ∧
          listForEachPrev head m' found n = some (l.reverse.find? found) := by
  obtain ⟨m', hm', hL⟩ := listRun_represents hrun Lists.represents_none
  refine ⟨m', hm', hL, ?_⟩
  intro head l hl
  have hhead := (List.nodup_cons.mp (hL.nodup head l hl)).1
  refine ⟨hL.empty_iff hl, ?_⟩
  intro found n hn
  have hring := hL.ring head l hl
  refine ⟨listForEach_ring hring hhead hn, ?_⟩
  exact listForEach_ring hring.reverse (by simpa using hhead) (by simpa using hn)

instance [Fintype ν] (L : Lists ν) (x : ν) : Decidable (L.Loose x) :=
  inferInstanceAs (Decidable (∀ h, ∀ l ∈ L h, x ∈ h :: l → h = x ∧ l = []))

instance [Fintype ν] (L : Lists ν) (x : ν) : Decidable (L.Entry x) :=
  inferInstanceAs (Decidable (L x = some [] ∨ ∃ h, ∃ l ∈ L h, x ∈ l))

instance [Fintype ν] (L : Lists ν) (op : ListOp ν) : Decidable (op.Allows L) :=
  match op with
  | .init list => inferInstanceAs (Decidable (∀ h, ∀ l ∈ L h, list ∉ l))
  | .add new head | .addTail new head => inferInstanceAs (Decidable (L.Loose new ∧ new ≠ head ∧ (L head).isSome))
  | .del entry => inferInstanceAs (Decidable (∀ e ∈ entry, L.Entry e))
  | .delInit entry => inferInstanceAs (Decidable (L.Entry entry))
  | .move list head | .moveTail list head =>
    inferInstanceAs (Decidable (L.Entry list ∧ list ≠ head ∧ (L head).isSome))
  | .splice list head | .spliceInit list head =>
    inferInstanceAs (Decidable (list ≠ head ∧ (L list).isSome ∧ (L head).isSome))

/-- Two lists, of which one is emptied into the other. -/
theorem list_ops_refine_two_lists :
    ∃ m', listRun ⟨fun _ => none, fun _ => none⟩ [.init 0, .init 1, .addTail 2 0, .add (3 : Fin 5) 0, .addTail 4 1, .move 2 1,
        .del (some 4), .spliceInit 1 0] = some m' ∧ m'.Ring 0 [2, 3] ∧ listEmpty 1 m' = true := by
  have hrun : ListOp.Run (fun _ => none) [.init 0, .init 1, .addTail 2 0, .add (3 : Fin 5) 0, .addTail 4 1, .move 2 1,
      .del (some 4), .spliceInit 1 0] _ :=
    .cons (by decide) (.cons (by decide) (.cons (by decide) (.cons (by decide) (.cons (by decide) (.cons (by decide)
      (.cons (by decide) (.cons (by decide) .nil)))))))
  obtain ⟨m', hm', hL, hlists⟩ := list_ops_refine (m := ⟨fun _ => none, fun _ => none⟩) hrun
  exact ⟨m', hm', hL.ring 0 [2, 3] (by decide), ((hlists 1 [] (by decide)).1).mpr rfl⟩

/-! ### Walks that change the list -/

/-- **A safe walk**, by what holds when the entries `rest` are still to come: what comes next is
known before the body runs. -/
theorem listForEachSafe_rule {head : ν} {body : ν → Links ν → Option (Links ν)} {P : List ν → Links ν → Prop}
    (hbody : ∀ pos rest m, P (pos :: rest) m →
      pos ≠ head ∧ m.next pos = (rest ++ [head]).head? ∧ ∃ m', body pos m = some m' ∧ P rest m') :
    ∀ (rest : List ν) (fuel : ℕ) (m : Links ν), P rest m → rest.length < fuel →
      ∃ m', listForEachSafe head body fuel (rest ++ [head]).head? m = some m' ∧ P [] m'
  | _, 0, _, _, hfuel => absurd hfuel (Nat.not_lt_zero _)
  | [], fuel + 1, m, hP, _ => ⟨m, by simp [listForEachSafe], hP⟩
  | pos :: rest, fuel + 1, m, hP, hfuel => by
    obtain ⟨hne, hnext, m₁, hm₁, hP₁⟩ := hbody pos rest m hP
    obtain ⟨m', hm', hP'⟩ := listForEachSafe_rule hbody rest fuel m₁ hP₁ (by simpa using hfuel)
    refine ⟨m', ?_, hP'⟩
    simp only [listForEachSafe, List.cons_append, List.head?_cons, Option.bind_eq_bind, Option.bind_some, hne, if_false,
      hm₁, hnext, hm']

/-- The lists of `head` and `other` when the entries `done` of `head` were visited and `rest` is still to come. -/
def Lists.moving (L : Lists ν) (head other : ν) (lo : List ν) (found : ν → Bool) (done rest : List ν) : Lists ν :=
  Function.update (Function.update L head (some (done.filter (!found ·) ++ rest))) other (some (lo ++ done.filter found))

section

variable {m : Links ν} {L : Lists ν} {head other : ν} {lo : List ν} {found : ν → Bool}

theorem Lists.moving_head (hne : head ≠ other) (done rest : List ν) :
    L.moving head other lo found done rest head = some (done.filter (!found ·) ++ rest) := by
  rw [Lists.moving, Function.update_of_ne hne, Function.update_self]

theorem Lists.moving_other (done rest : List ν) :
    L.moving head other lo found done rest other = some (lo ++ done.filter found) := by
  rw [Lists.moving, Function.update_self]

theorem Lists.moving_of_ne {k : ν} (hhead : k ≠ head) (hother : k ≠ other) (done rest : List ν) :
    L.moving head other lo found done rest k = L k := by
  rw [Lists.moving, Function.update_of_ne hother, Function.update_of_ne hhead]

/-- One entry is moved. -/
theorem Lists.Represents.moving_moveTail {pos : ν} {done rest : List ν} (hne : head ≠ other)
    (hL : (L.moving head other lo found done (pos :: rest)).Represents m) (hpos : found pos = true) :
    (ListOp.moveTail pos other).Allows (L.moving head other lo found done (pos :: rest)) ∧
      (ListOp.moveTail pos other).after (L.moving head other lo found done (pos :: rest)) =
        L.moving head other lo found (done ++ [pos]) rest := by
  have hhead : L.moving head other lo found done (pos :: rest) head = _ := Lists.moving_head hne done (pos :: rest)
  have hother : L.moving head other lo found done (pos :: rest) other = _ := Lists.moving_other done (pos :: rest)
  have hmem : pos ∈ done.filter (!found ·) ++ pos :: rest := by simp
  have hnone := hL.not_head hhead hmem
  have hposother : pos ≠ other := by
    rintro rfl
    rw [hother] at hnone
    cases hnone
  have hnodup := List.nodup_cons.mp (hL.nodup head _ hhead)
  have hposhead : pos ≠ head := by
    rintro rfl
    exact hnodup.1 hmem
  -- the other list does not have the entry
  have hwithout : (L.moving head other lo found done (pos :: rest)).without pos other = some (lo ++ done.filter found) := by
    rw [Lists.without, Function.update_of_ne hposother.symm, hL.erase_eq hhead (List.mem_cons_of_mem _ hmem) hne.symm,
      hother]
  refine ⟨⟨.inr ⟨head, _, hhead, hmem⟩, hposother, by rw [hother]; rfl⟩, ?_⟩
  funext k
  simp only [ListOp.after, hwithout, Option.map_some, Lists.set]
  by_cases hkother : k = other
  · rw [hkother, Function.update_self, Lists.moving_other]
    simp [hpos]
  rw [Function.update_of_ne hkother]
  by_cases hkpos : k = pos
  · rw [hkpos, Function.update_self, Lists.moving_of_ne hposhead hposother]
    rw [Lists.moving_of_ne hposhead hposother] at hnone
    exact hnone.symm
  rw [Function.update_of_ne hkpos, Lists.without, Function.update_of_ne hkpos]
  by_cases hkhead : k = head
  · have hnot : pos ∉ done.filter (!found ·) := by
      intro hin
      exact (List.nodup_append.mp hnodup.2).2.2 pos hin pos List.mem_cons_self rfl
    rw [hkhead, hhead, Lists.moving_head hne, Option.map_some, List.erase_append_right _ hnot, List.erase_cons_head]
    simp [hpos]
  · rw [hL.erase_eq hhead (List.mem_cons_of_mem _ hmem) hkhead, Lists.moving_of_ne hkhead hkother,
      Lists.moving_of_ne hkhead hkother]

end

/-- **A safe walk that moves entries.** In memory that holds any lists, a `list_for_each_safe`
over one of them whose body moves some of the entries to the tail of another ends after as many
visits as there are entries. Those entries are then behind the members of the other list, in the
order in which they were, the rest is where it was, and all other lists are as before. -/
theorem listForEachSafe_moves {m : Links ν} {L : Lists ν} (hL : L.Represents m) {head other : ν} {l lo : List ν}
    (hne : head ≠ other) (hl : L head = some l) (hlo : L other = some lo) (found : ν → Bool) {fuel : ℕ}
    (hfuel : l.length < fuel) :
    ∃ m', listForEachSafe head (fun pos m => if found pos then listMoveTail pos other m else some m) fuel (m.next head) m =
        some m' ∧
      Lists.Represents m' (Function.update (Function.update L head (some (l.filter (!found ·)))) other
        (some (lo ++ l.filter found))) := by
  -- the entries visited and those to come are the members
  let P : List ν → Links ν → Prop := fun rest m =>
    ∃ done, done ++ rest = l ∧ (L.moving head other lo found done rest).Represents m
  have hstart : P l m := by
    refine ⟨[], rfl, ?_⟩
    have hsame : L.moving head other lo found [] l = L := by
      funext k
      by_cases hkother : k = other
      · rw [hkother, Lists.moving_other, hlo]
        simp
      by_cases hkhead : k = head
      · rw [hkhead, Lists.moving_head hne, hl]
        simp
      · exact Lists.moving_of_ne hkhead hkother [] l
    rw [hsame]
    exact hL
  have hbody : ∀ pos rest m, P (pos :: rest) m → pos ≠ head ∧ m.next pos = (rest ++ [head]).head? ∧
      ∃ m', (if found pos then listMoveTail pos other m else some m) = some m' ∧ P rest m' := by
    rintro pos rest m ⟨done, hdone, hrep⟩
    have hhead : L.moving head other lo found done (pos :: rest) head = _ := Lists.moving_head hne done (pos :: rest)
    refine ⟨?_, (hrep.ring head _ hhead).next_member, ?_⟩
    · rintro rfl
      exact (List.nodup_cons.mp (hrep.nodup pos _ hhead)).1 (by simp)
    · have hdone' : (done ++ [pos]) ++ rest = l := by rw [← hdone]; simp
      cases hpos : found pos with
      | false =>
        have hsame : L.moving head other lo found (done ++ [pos]) rest = L.moving head other lo found done (pos :: rest) := by
          simp [Lists.moving, hpos]
        exact ⟨m, rfl, done ++ [pos], hdone', by rw [hsame]; exact hrep⟩
      | true =>
        obtain ⟨hallows, hafter⟩ := hrep.moving_moveTail hne hpos
        obtain ⟨m', hm', hrep'⟩ := ListOp.call_represents hrep hallows
        rw [hafter] at hrep'
        exact ⟨m', hm', done ++ [pos], hdone', hrep'⟩
  have hnext : m.next head = (l ++ [head]).head? := by
    obtain ⟨y, rest, hy⟩ := Links.exists_first head l
    rw [(hL.ring head l hl).next_head hy, hy, List.head?_cons]
  obtain ⟨m', hm', done, hdone, hrep⟩ := listForEachSafe_rule hbody l fuel m hstart hfuel
  rw [List.append_nil] at hdone
  subst hdone
  refine ⟨m', by rw [hnext]; exact hm', ?_⟩
  simpa [Lists.moving] using hrep

/-- One of two members is moved to another list. -/
theorem listForEachSafe_moves_one :
    ∃ m m' : Links (Fin 4), listForEachSafe 0 (fun pos m => if pos = 3 then listMoveTail pos 1 m else some m) 3 (m.next 0) m =
      some m' ∧ m'.Ring 0 [2] ∧ m'.Ring 1 [3] := by
  have hrun : ListOp.Run (fun _ => none) [.init 0, .init 1, .addTail (2 : Fin 4) 0, .addTail 3 0] _ :=
    .cons (by decide) (.cons (by decide) (.cons (by decide) (.cons (by decide) .nil)))
  obtain ⟨m, -, hL⟩ := listRun_represents (m := ⟨fun _ => none, fun _ => none⟩) hrun Lists.represents_none
  obtain ⟨m', hm', hL'⟩ := listForEachSafe_moves hL (show (0 : Fin 4) ≠ 1 by decide) (show _ = some [2, 3] by decide)
    (show _ = some [] by decide) (fun pos => decide (pos = 3)) (show _ < 3 by decide)
  refine ⟨m, m', ?_, hL'.ring 0 [2] (by decide), hL'.ring 1 [3] (by decide)⟩
  simpa only [decide_eq_true_eq] using hm'

/-- The rest of a plain walk. -/
theorem listForEachDo_listDel_path {m : Links ν} {head : ν} (found : ν → Bool) {l₂ : List ν} :
    ∀ (l₁ : List ν) {fuel : ℕ}, m.Ring head (l₁ ++ l₂) → head ∉ l₂ → l₂.length < fuel →
      listForEachDo head (fun pos m => if found pos then listDel (some pos) m else some m) fuel (l₂ ++ [head]).head? m =
        if l₂.any found then none else some m := by
  induction l₂ with
  | nil =>
    intro l₁ fuel _ _ hfuel
    obtain ⟨fuel, rfl⟩ : ∃ k, fuel = k + 1 := ⟨fuel - 1, by simp at hfuel; omega⟩
    simp [listForEachDo]
  | cons pos l₂ ih =>
    intro l₁ fuel hr hhead hfuel
    obtain ⟨fuel, rfl⟩ : ∃ k, fuel = k + 1 := ⟨fuel - 1, by simp at hfuel; omega⟩
    have hne : pos ≠ head := fun h => hhead (h ▸ List.mem_cons_self)
    have hsplit : m.Ring head ((l₁ ++ [pos]) ++ l₂) := by simpa using hr
    have hrest := ih (l₁ ++ [pos]) hsplit (fun h => hhead (List.mem_cons_of_mem _ h)) (by simpa using hfuel)
    cases hpos : found pos with
    | false => simpa [listForEachDo, hne, hpos, hr.next_member] using hrest
    | true =>
      -- `pos->next` is `NULL` then
      cases hm : listDelInternal (m.prev pos) (m.next pos) m with
      | none => simp [listForEachDo, hne, hpos, listDel, hm]
      | some m' =>
        cases fuel with
        | zero => simp [listForEachDo, hne, hpos, listDel]
        | succ fuel => simp [listForEachDo, hne, hpos, listDel, hm, setPrev, setNext]

/-- **A plain walk is not safe.** A `list_for_each` whose body deletes entries with `list_del`
follows a `NULL` pointer as soon as it deletes one. -/
theorem listForEachDo_listDel {m : Links ν} {head : ν} {l : List ν} (hr : m.Ring head l) (hhead : head ∉ l)
    (found : ν → Bool) {fuel : ℕ} (hfuel : l.length < fuel) :
    listForEachDo head (fun pos m => if found pos then listDel (some pos) m else some m) fuel (m.next head) m =
      if l.any found then none else some m := by
  obtain ⟨y, rest, hy⟩ := Links.exists_first head l
  have hwalk := listForEachDo_listDel_path found [] hr hhead hfuel
  rwa [hy, List.head?_cons, ← hr.next_head hy] at hwalk

end LibCfe
