import LibCfe.Theory.Chain

/-!
# The hash lists of `include/cfe/list.h`

A `struct hlist_head` points to its first node only, and each node knows the address of the
field that points to it. That address is a `Slot`, so `*(n->pprev)` is a store to one.

What a caller thinks of is `HLists`: the members of each list and, of the other nodes, what can
be relied on. After `INIT_HLIST_NODE` and `hlist_del_init` a node is unhashed, after
`hlist_add_fake` it looks as if it was in a list, and after `hlist_del` nothing is known of it.

## What is proved

* `hlist_ops_refine` — in memory with any contents, every sequence of calls that a caller may
  make has a result and leaves just the lists that he thinks of.
* `hlistForEachSafe_deletes` — an `hlist_for_each_safe` that deletes some of the nodes ends, visits each
  node of the list once, and deletes just those.
-/

namespace LibCfe

open Theory

variable {η ν : Type*} [DecidableEq η] [DecidableEq ν]

/-! ### The functions -/

/-- The store `*slot = n`. -/
def storeSlot (slot : Slot η ν) (n : Option ν) (m : Slots η ν) : Slots η ν :=
  { m with load := Function.update m.load slot n }

/-- The store `n->pprev = slot`. -/
def setPprev (n : ν) (slot : Option (Slot η ν)) (m : Slots η ν) : Slots η ν :=
  { m with back := Function.update m.back n slot }

/-- `INIT_HLIST_HEAD`. -/
def initHlistHead (ptr : η) (m : Slots η ν) : Slots η ν := storeSlot (.first ptr) none m

/-- `INIT_HLIST_NODE`. -/
def initHlistNode (h : ν) (m : Slots η ν) : Slots η ν := setPprev h none (storeSlot (.next h) none m)

/-- `hlist_unhashed`. -/
def hlistUnhashed (h : ν) (m : Slots η ν) : Bool := (m.back h).isNone

/-- `hlist_empty`. -/
def hlistEmpty (h : η) (m : Slots η ν) : Bool := (m.load (.first h)).isNone

/-- `if (next) next->pprev = pprev`. -/
def setPprevOf (next : Option ν) (slot : Option (Slot η ν)) (m : Slots η ν) : Slots η ν :=
  match next with
  | none => m
  | some next => setPprev next slot m

/-- `__hlist_del`. -/
def hlistDelInternal (n : ν) (m : Slots η ν) : Option (Slots η ν) := do
  let next := m.load (.next n)
  let pprev ← m.back n
  let m := storeSlot pprev next m
  return setPprevOf next (some pprev) m

/-- `hlist_del`. -/
def hlistDel (n : ν) (m : Slots η ν) : Option (Slots η ν) := hlistDelInternal n m

/-- `hlist_del_init`. -/
def hlistDelInit (n : ν) (m : Slots η ν) : Option (Slots η ν) :=
  if !hlistUnhashed n m then do
    let m ← hlistDelInternal n m
    return initHlistNode n m
  else some m

/-- `hlist_add_head`. -/
def hlistAddHead (n : ν) (h : η) (m : Slots η ν) : Slots η ν :=
  let first := m.load (.first h)
  let m := storeSlot (.next n) first m
  let m := setPprevOf first (some (.next n)) m
  let m := storeSlot (.first h) (some n) m
  setPprev n (some (.first h)) m

/-- `hlist_add_before`. -/
def hlistAddBefore (n next : ν) (m : Slots η ν) : Option (Slots η ν) := do
  let m := setPprev n (m.back next) m
  let m := storeSlot (.next n) (some next) m
  let m := setPprev next (some (.next n)) m
  let pprev ← m.back n
  return storeSlot pprev (some n) m

/-- `hlist_add_after`, which adds `next` behind `n`. -/
def hlistAddAfter (n next : ν) (m : Slots η ν) : Slots η ν :=
  let m := storeSlot (.next next) (m.load (.next n)) m
  let m := storeSlot (.next n) (some next) m
  let m := setPprev next (some (.next n)) m
  setPprevOf (m.load (.next next)) (some (.next next)) m

/-- `hlist_add_fake`. -/
def hlistAddFake (n : ν) (m : Slots η ν) : Slots η ν := setPprev n (some (.next n)) m

/-- `hlist_move_list`. -/
def hlistMoveList (old new : η) (m : Slots η ν) : Slots η ν :=
  let m := storeSlot (.first new) (m.load (.first old)) m
  let m := setPprevOf (m.load (.first new)) (some (.first new)) m
  storeSlot (.first old) none m

/-- `hlist_for_each` from `pos` on, with a body that returns `pos` when it is what it looks for,
visiting at most so many nodes. -/
def hlistForEach (m : Slots η ν) (found : ν → Bool) : ℕ → Option ν → Option (Option ν)
  | 0, _ => none
  | _ + 1, none => some none
  | fuel + 1, some pos => if found pos then some (some pos) else hlistForEach m found fuel (m.load (.next pos))

/-- `hlist_for_each_safe` from `pos` on. -/
def hlistForEachSafe (body : ν → Slots η ν → Option (Slots η ν)) : ℕ → Option ν → Slots η ν → Option (Slots η ν)
  | 0, _, _ => none
  | _ + 1, none, m => some m
  | fuel + 1, some pos, m => do
    let n := m.load (.next pos)
    let m ← body pos m
    hlistForEachSafe body fuel n m

/-! ### Calls -/

/-- A call. -/
inductive HlistOp (η ν : Type*) where
  /-- `INIT_HLIST_HEAD`. -/
  | initHead (ptr : η)
  /-- `INIT_HLIST_NODE`. -/
  | initNode (h : ν)
  /-- `hlist_add_head`. -/
  | addHead (n : ν) (h : η)
  /-- `hlist_add_before`. -/
  | addBefore (n next : ν)
  /-- `hlist_add_after`. -/
  | addAfter (n next : ν)
  /-- `hlist_add_fake`. -/
  | addFake (n : ν)
  /-- `hlist_del`. -/
  | del (n : ν)
  /-- `hlist_del_init`. -/
  | delInit (n : ν)
  /-- `hlist_move_list`. -/
  | moveList (old new : η)

/-- What a call does to the fields. -/
def HlistOp.call (m : Slots η ν) : HlistOp η ν → Option (Slots η ν)
  | .initHead ptr => some (initHlistHead ptr m)
  | .initNode h => some (initHlistNode h m)
  | .addHead n h => some (hlistAddHead n h m)
  | .addBefore n next => hlistAddBefore n next m
  | .addAfter n next => some (hlistAddAfter n next m)
  | .addFake n => some (hlistAddFake n m)
  | .del n => hlistDel n m
  | .delInit n => hlistDelInit n m
  | .moveList old new => some (hlistMoveList old new m)

/-- One call after the other. -/
def hlistRun (m : Slots η ν) : List (HlistOp η ν) → Option (Slots η ν)
  | [] => some m
  | op :: ops => do hlistRun (← op.call m) ops

/-! ### What a caller thinks of -/

/-- What is known of a node. -/
inductive HnodeState where
  /-- It is in a list. -/
  | listed
  /-- Its fields are `NULL`. -/
  | unhashed
  /-- It points back to its own field. -/
  | fake
  /-- Nothing. -/
  | stale
  deriving DecidableEq

/-- The members of the list of each head, and what is known of each node. -/
structure HLists (η ν : Type*) where
  /-- The members; a head that was not initialised has no list. -/
  lists : η → Option (List ν)
  /-- What is known of a node. -/
  state : ν → HnodeState

/-- Nothing was initialised. -/
def HLists.start : HLists η ν := ⟨fun _ => none, fun _ => .stale⟩

/-- A list and a node after a call. -/
def HLists.set (H : HLists η ν) (h : η) (l : List ν) (n : ν) (state : HnodeState) : HLists η ν :=
  ⟨Function.update H.lists h (some l), Function.update H.state n state⟩

/-- A node after a call. -/
def HLists.setState (H : HLists η ν) (n : ν) (state : HnodeState) : HLists η ν :=
  { H with state := Function.update H.state n state }

/-- What a call does when a caller may make it. -/
inductive HlistOp.Step (H : HLists η ν) : HlistOp η ν → HLists η ν → Prop where
  | initHead {h : η} (hempty : ∀ l, H.lists h = some l → l = []) :
    Step H (.initHead h) { H with lists := Function.update H.lists h (some []) }
  | initNode {n : ν} (hn : H.state n ≠ .listed) :
    Step H (.initNode n) (H.setState n .unhashed)
  | addHead {n : ν} {h : η} {l : List ν} (hn : H.state n ≠ .listed) (hl : H.lists h = some l) :
    Step H (.addHead n h) (H.set h (n :: l) n .listed)
  | addBefore {n next : ν} {h : η} {l₁ l₂ : List ν} (hn : H.state n ≠ .listed) (hl : H.lists h = some (l₁ ++ next :: l₂)) :
    Step H (.addBefore n next) (H.set h (l₁ ++ n :: next :: l₂) n .listed)
  | addAfter {n next : ν} {h : η} {l₁ l₂ : List ν} (hn : H.state next ≠ .listed) (hl : H.lists h = some (l₁ ++ n :: l₂)) :
    Step H (.addAfter n next) (H.set h (l₁ ++ n :: next :: l₂) next .listed)
  | addFake {n : ν} (hn : H.state n = .unhashed) :
    Step H (.addFake n) (H.setState n .fake)
  | del {n : ν} {h : η} {l₁ l₂ : List ν} (hl : H.lists h = some (l₁ ++ n :: l₂)) :
    Step H (.del n) (H.set h (l₁ ++ l₂) n .stale)
  | delFake {n : ν} (hn : H.state n = .fake) : Step H (.del n) H
  | delInit {n : ν} {h : η} {l₁ l₂ : List ν} (hl : H.lists h = some (l₁ ++ n :: l₂)) :
    Step H (.delInit n) (H.set h (l₁ ++ l₂) n .unhashed)
  | delInitFake {n : ν} (hn : H.state n = .fake) :
    Step H (.delInit n) (H.setState n .unhashed)
  | delInitUnhashed {n : ν} (hn : H.state n = .unhashed) : Step H (.delInit n) H
  | moveList {old new : η} {l : List ν} (hne : old ≠ new) (hl : H.lists old = some l)
      (hempty : ∀ l', H.lists new = some l' → l' = []) :
    Step H (.moveList old new)
      { H with lists := Function.update (Function.update H.lists old (some [])) new (some l) }

/-- A sequence of calls that a caller may make. -/
inductive HlistOp.Run : HLists η ν → List (HlistOp η ν) → HLists η ν → Prop where
  | nil {H : HLists η ν} : Run H [] H
  | cons {H H' H'' : HLists η ν} {op : HlistOp η ν} {ops : List (HlistOp η ν)} (h : op.Step H H') (hs : Run H' ops H'') :
    Run H (op :: ops) H''

/-- The fields hold these lists, and what is known of the nodes is so. -/
structure HLists.Represents (m : Slots η ν) (H : HLists η ν) : Prop where
  chain : ∀ h l, H.lists h = some l → m.Chain (.first h) l
  nodup : ∀ h l, H.lists h = some l → l.Nodup
  disjoint : ∀ h l h' l', H.lists h = some l → H.lists h' = some l' → h ≠ h' → ∀ x ∈ l, x ∉ l'
  listed : ∀ x, H.state x = .listed ↔ ∃ h l, H.lists h = some l ∧ x ∈ l
  unhashed : ∀ x, H.state x = .unhashed → m.load (.next x) = none ∧ m.back x = none
  fake : ∀ x, H.state x = .fake → m.load (.next x) = none ∧ m.back x = some (.next x)

/-! ### Stores -/

section

variable (m : Slots η ν) (slot t : Slot η ν) (n y : ν) (next : Option ν) (back : Option (Slot η ν))

@[simp] theorem storeSlot_load : (storeSlot slot next m).load t = if t = slot then next else m.load t :=
  Function.update_apply ..

@[simp] theorem storeSlot_back : (storeSlot slot next m).back y = m.back y := rfl

omit [DecidableEq η] in
@[simp] theorem setPprev_load : (setPprev n back m).load t = m.load t := rfl

omit [DecidableEq η] in
@[simp] theorem setPprev_back : (setPprev n back m).back y = if y = n then back else m.back y :=
  Function.update_apply ..

omit [DecidableEq η] in
@[simp] theorem setPprevOf_load : (setPprevOf next back m).load t = m.load t := by
  cases next with
  | none => rfl
  | some next => rfl

omit [DecidableEq η] in
@[simp] theorem setPprevOf_back : (setPprevOf next back m).back y = if next = some y then back else m.back y := by
  cases next with
  | none => simp [setPprevOf]
  | some next => simp [setPprevOf, eq_comm]

end

/-! ### Lists and nodes -/

namespace HLists.Represents

variable {m m' : Slots η ν} {H : HLists η ν} {h : η} {l l' l₁ l₂ : List ν} {n : ν}

omit [DecidableEq η] [DecidableEq ν] in
/-- A node in no list is not `listed`. -/
theorem notMem (hH : H.Represents m) (hn : H.state n ≠ .listed) {k : η} {lk : List ν} (hlk : H.lists k = some lk) :
    n ∉ lk := fun hmem => hn ((hH.listed n).mpr ⟨k, lk, hlk, hmem⟩)

omit [DecidableEq η] [DecidableEq ν] in
/-- A member of one list is not in another. -/
theorem notMem_other (hH : H.Represents m) (hl : H.lists h = some l) (hn : n ∈ l) {k : η} {lk : List ν}
    (hlk : H.lists k = some lk) (hne : k ≠ h) : n ∉ lk := hH.disjoint h l k lk hl hlk hne.symm n hn

/-- **A local change.** One list and one node are different: the members of the list before and after
differ in that node, and nothing was written to the fields of other nodes and heads. -/
theorem edit (hH : H.Represents m) (hl : H.lists h = some l) {state : HnodeState} (hchain : m'.Chain (.first h) l')
    (hnd : l'.Nodup) (hmem : ∀ y, y ≠ n → (y ∈ l' ↔ y ∈ l)) (hn : n ∈ l' ↔ state = .listed)
    (hother : ∀ k lk, H.lists k = some lk → k ≠ h → n ∉ lk) (hstate : state = .listed ∨ state = .stale)
    (hload : ∀ t, t ∉ Slots.fields (.first h) l → t ≠ .next n → m'.load t = m.load t)
    (hback : ∀ y, y ∉ l → y ≠ n → m'.back y = m.back y) : (H.set h l' n state).Represents m' := by
  -- the list of `h`, and the others
  have hself : (H.set h l' n state).lists h = some l' := Function.update_self ..
  have hlists : ∀ k, k ≠ h → (H.set h l' n state).lists k = H.lists k := fun k hk => Function.update_of_ne hk ..
  have hstates : ∀ x, x ≠ n → (H.set h l' n state).state x = H.state x := fun x hx => Function.update_of_ne hx ..
  have hstaten : (H.set h l' n state).state n = state := Function.update_self ..
  have hdisj : ∀ k lk, H.lists k = some lk → k ≠ h → ∀ x ∈ lk, x ∉ l' := by
    intro k lk hlk hne x hx hx'
    have hxn : x ≠ n := fun hxn => hother k lk hlk hne (hxn ▸ hx)
    exact hH.disjoint k lk h l hlk hl hne x hx ((hmem x hxn).mp hx')
  -- fields of nodes that are in no list
  have hfree : ∀ x, x ≠ n → x ∉ l → m'.load (.next x) = m.load (.next x) ∧ m'.back x = m.back x := by
    intro x hxn hxl
    refine ⟨hload _ ?_ (fun heq => hxn (Slot.next.inj heq)), hback x hxl hxn⟩
    simpa [Slots.fields] using hxl
  refine ⟨?_, ?_, ?_, ?_, ?_, ?_⟩
  · intro k lk hlk
    by_cases hk : k = h
    · subst hk
      rw [hself] at hlk
      obtain rfl := Option.some.inj hlk
      exact hchain
    · rw [hlists k hk] at hlk
      have hnodes : ∀ x ∈ lk, x ≠ n ∧ x ∉ l := fun x hx =>
        ⟨fun hxn => hother k lk hlk hk (hxn ▸ hx), hH.disjoint k lk h l hlk hl hk x hx⟩
      refine (hH.chain k lk hlk).frame (Slots.fields_nodup k (hH.nodup k lk hlk)) ?_ ?_
      · intro t ht
        rcases List.mem_cons.mp ht with rfl | ht
        · exact hload _ (by simpa [Slots.fields] using hk) (by simp)
        · obtain ⟨x, hx, rfl⟩ := List.mem_map.mp ht
          exact (hfree x (hnodes x hx).1 (hnodes x hx).2).1
      · intro x hx
        exact (hfree x (hnodes x hx).1 (hnodes x hx).2).2
  · intro k lk hlk
    by_cases hk : k = h
    · rw [hk, hself] at hlk
      obtain rfl := Option.some.inj hlk
      exact hnd
    · rw [hlists k hk] at hlk
      exact hH.nodup k lk hlk
  · intro k lk k' lk' hlk hlk' hne x hx
    by_cases hk : k = h
    · subst hk
      rw [hself] at hlk
      obtain rfl := Option.some.inj hlk
      rw [hlists k' hne.symm] at hlk'
      exact fun hx' => hdisj k' lk' hlk' hne.symm x hx' hx
    · rw [hlists k hk] at hlk
      by_cases hk' : k' = h
      · rw [hk', hself] at hlk'
        obtain rfl := Option.some.inj hlk'
        exact hdisj k lk hlk hk x hx
      · rw [hlists k' hk'] at hlk'
        exact hH.disjoint k lk k' lk' hlk hlk' hne x hx
  · intro x
    by_cases hxn : x = n
    · subst hxn
      rw [hstaten, ← hn]
      constructor
      · exact fun hx => ⟨h, l', hself, hx⟩
      · rintro ⟨k, lk, hlk, hx⟩
        by_cases hk : k = h
        · rw [hk, hself] at hlk
          obtain rfl := Option.some.inj hlk
          exact hx
        · rw [hlists k hk] at hlk
          exact absurd hx (hother k lk hlk hk)
    · rw [hstates x hxn, hH.listed x]
      constructor
      · rintro ⟨k, lk, hlk, hx⟩
        by_cases hk : k = h
        · rw [hk, hl] at hlk
          obtain rfl := Option.some.inj hlk
          exact ⟨h, l', hself, (hmem x hxn).mpr hx⟩
        · exact ⟨k, lk, (hlists k hk).trans hlk, hx⟩
      · rintro ⟨k, lk, hlk, hx⟩
        by_cases hk : k = h
        · rw [hk, hself] at hlk
          obtain rfl := Option.some.inj hlk
          exact ⟨h, l, hl, (hmem x hxn).mp hx⟩
        · exact ⟨k, lk, (hlists k hk).symm.trans hlk, hx⟩
  · intro x hx
    have hxn : x ≠ n := by
      rintro rfl
      rw [hstaten] at hx
      rcases hstate with rfl | rfl <;> cases hx
    rw [hstates x hxn] at hx
    obtain ⟨hnext, hpprev⟩ := hfree x hxn (hH.notMem (by rw [hx]; decide) hl)
    rw [hnext, hpprev]
    exact hH.unhashed x hx
  · intro x hx
    have hxn : x ≠ n := by
      rintro rfl
      rw [hstaten] at hx
      rcases hstate with rfl | rfl <;> cases hx
    rw [hstates x hxn] at hx
    obtain ⟨hnext, hpprev⟩ := hfree x hxn (hH.notMem (by rw [hx]; decide) hl)
    rw [hnext, hpprev]
    exact hH.fake x hx

omit [DecidableEq η] [DecidableEq ν] in
/-- The last field up to some members is one of the fields of the list. -/
theorem endSlot_mem_fields (s : Slot η ν) (l₁ l₂ : List ν) : Slots.endSlot s l₁ ∈ Slots.fields s (l₁ ++ l₂) := by
  have hmem : Slots.endSlot s l₁ ∈ Slots.fields s l₁ := Slots.endSlot_mem
  rcases List.mem_cons.mp hmem with h | h
  · rw [h]
    exact List.mem_cons_self
  · exact List.mem_cons_of_mem _ (by rw [List.map_append]; exact List.mem_append_left _ h)

/-- A node that was in no list is linked in. -/
theorem insert (hH : H.Represents m) (hl : H.lists h = some (l₁ ++ l₂)) (hn : H.state n ≠ .listed)
    (h1 : m'.load (Slots.endSlot (.first h) l₁) = some n) (h2 : m'.back n = some (Slots.endSlot (.first h) l₁))
    (h3 : m'.load (.next n) = m.load (Slots.endSlot (.first h) l₁)) (h4 : ∀ y ∈ l₂.head?, m'.back y = some (.next n))
    (hload : ∀ t, t ≠ Slots.endSlot (.first h) l₁ → t ≠ .next n → m'.load t = m.load t)
    (hback : ∀ y, y ≠ n → y ∉ l₂.head? → m'.back y = m.back y) : (H.set h (l₁ ++ n :: l₂) n .listed).Represents m' := by
  have hnd : (l₁ ++ n :: l₂).Nodup :=
    (List.perm_middle.nodup_iff).mpr (List.nodup_cons.mpr ⟨hH.notMem hn hl, hH.nodup h _ hl⟩)
  have hchain := (hH.chain h _ hl).insert (Slots.fields_nodup h hnd) h1 h2 h3 h4 hload hback
  refine hH.edit hl hchain hnd ?_ (by simp) (fun k lk hlk _ => hH.notMem hn hlk) (.inl rfl) ?_ ?_
  · intro y hy
    simp [hy]
  · intro t ht
    exact hload t (fun heq => ht (heq ▸ endSlot_mem_fields _ l₁ l₂))
  · intro y hy hyn
    refine hback y hyn ?_
    intro hhead
    exact hy (List.mem_append_right _ (List.mem_of_mem_head? hhead))

/-- A node is taken out. -/
theorem remove (hH : H.Represents m) (hl : H.lists h = some (l₁ ++ n :: l₂))
    (h1 : m'.load (Slots.endSlot (.first h) l₁) = m.load (.next n))
    (h2 : ∀ y ∈ l₂.head?, m'.back y = some (Slots.endSlot (.first h) l₁))
    (hload : ∀ t, t ≠ Slots.endSlot (.first h) l₁ → t ≠ .next n → m'.load t = m.load t)
    (hback : ∀ y, y ≠ n → y ∉ l₂.head? → m'.back y = m.back y) : (H.set h (l₁ ++ l₂) n .stale).Represents m' := by
  have hnd := hH.nodup h _ hl
  obtain ⟨hnot, hnd'⟩ := List.nodup_cons.mp ((List.perm_middle.nodup_iff).mp hnd)
  have hchain := (hH.chain h _ hl).remove (Slots.fields_nodup h hnd) h1 h2 hload hback
  refine hH.edit hl hchain hnd' ?_ (by simpa using hnot) (fun k lk => hH.notMem_other hl (by simp)) (.inr rfl) ?_ ?_
  · intro y hy
    simp [hy]
  · intro t ht
    exact hload t (fun heq => ht (heq ▸ endSlot_mem_fields _ l₁ _))
  · intro y hy hyn
    refine hback y hyn ?_
    intro hhead
    exact hy (List.mem_append_right _ (List.mem_cons_of_mem _ (List.mem_of_mem_head? hhead)))

omit [DecidableEq η] in
/-- A node in no list gets other fields. -/
theorem setLoose (hH : H.Represents m) (hn : H.state n ≠ .listed) {state : HnodeState} (hstate : state ≠ .listed)
    (hunhashed : state = .unhashed → m'.load (.next n) = none ∧ m'.back n = none)
    (hfake : state = .fake → m'.load (.next n) = none ∧ m'.back n = some (.next n))
    (hload : ∀ t, t ≠ .next n → m'.load t = m.load t) (hback : ∀ y, y ≠ n → m'.back y = m.back y) :
    (H.setState n state).Represents m' := by
  have hself : (H.setState n state).state n = state := Function.update_self ..
  have hstates : ∀ x, x ≠ n → (H.setState n state).state x = H.state x := fun x hx => Function.update_of_ne hx ..
  have hnode : ∀ x, x ≠ n → m'.load (.next x) = m.load (.next x) ∧ m'.back x = m.back x := fun x hx =>
    ⟨hload _ (fun heq => hx (Slot.next.inj heq)), hback x hx⟩
  refine ⟨?_, hH.nodup, hH.disjoint, ?_, ?_, ?_⟩
  · intro k lk hlk
    have hnot : n ∉ lk := hH.notMem hn hlk
    refine (hH.chain k lk hlk).frame (Slots.fields_nodup k (hH.nodup k lk hlk)) ?_ ?_
    · intro t ht
      refine hload t ?_
      rintro rfl
      exact hnot (by simpa [Slots.fields] using ht)
    · intro x hx
      exact hback x (fun hxn => hnot (hxn ▸ hx))
  · intro x
    by_cases hxn : x = n
    · rw [hxn, hself]
      refine ⟨fun hx => absurd hx hstate, ?_⟩
      rintro ⟨k, lk, hlk, hx⟩
      exact absurd hx (hH.notMem hn hlk)
    · rw [hstates x hxn]
      exact hH.listed x
  · intro x hx
    by_cases hxn : x = n
    · subst hxn
      exact hunhashed (hself.symm.trans hx)
    · rw [hstates x hxn] at hx
      rw [(hnode x hxn).1, (hnode x hxn).2]
      exact hH.unhashed x hx
  · intro x hx
    by_cases hxn : x = n
    · subst hxn
      exact hfake (hself.symm.trans hx)
    · rw [hstates x hxn] at hx
      rw [(hnode x hxn).1, (hnode x hxn).2]
      exact hH.fake x hx

end HLists.Represents

/-! ### Each call -/

namespace HLists.Represents

variable {m : Slots η ν} {H : HLists η ν} {h : η} {l l₁ l₂ : List ν} {n : ν}

theorem initNode (hH : H.Represents m) (hn : H.state n ≠ .listed) :
    (H.setState n .unhashed).Represents (initHlistNode n m) := by
  refine hH.setLoose hn (by decide) (fun _ => ⟨?_, ?_⟩) (fun heq => by cases heq) ?_ ?_
  · simp [initHlistNode]
  · simp [initHlistNode]
  · intro t ht
    simp [initHlistNode, ht]
  · intro y hy
    simp [initHlistNode, hy]

omit [DecidableEq η] in
theorem addFake (hH : H.Represents m) (hn : H.state n = .unhashed) :
    (H.setState n .fake).Represents (hlistAddFake n m) := by
  refine hH.setLoose (by rw [hn]; decide) (by decide) (fun heq => by cases heq) (fun _ => ⟨?_, ?_⟩) ?_ ?_
  · simpa [hlistAddFake] using (hH.unhashed n hn).1
  · simp [hlistAddFake]
  · intro t _
    simp [hlistAddFake]
  · intro y hy
    simp [hlistAddFake, hy]

omit [DecidableEq η] [DecidableEq ν] in
/-- The fields of a list do not belong to a node that is in none. -/
theorem endSlot_ne (hH : H.Represents m) (hl : H.lists h = some (l₁ ++ l₂)) (hn : H.state n ≠ .listed) :
    Slots.endSlot (.first h) l₁ ≠ .next n := by
  intro heq
  have hmem : Slot.next n ∈ Slots.fields (.first h) (l₁ ++ l₂) := heq ▸ endSlot_mem_fields _ l₁ l₂
  exact hH.notMem hn hl (by simpa [Slots.fields] using hmem)

theorem addHead (hH : H.Represents m) (hn : H.state n ≠ .listed) (hl : H.lists h = some l) :
    (H.set h (n :: l) n .listed).Represents (hlistAddHead n h m) := by
  have hfirst := (hH.chain h l hl).load_eq
  have hl' : H.lists h = some ([] ++ l) := hl
  refine hH.insert hl' hn ?_ ?_ ?_ ?_ ?_ ?_
  · simp [hlistAddHead, Slots.endSlot]
  · simp [hlistAddHead, Slots.endSlot]
  · simp [hlistAddHead, Slots.endSlot]
  · intro y hy
    have hyn : y ≠ n := by
      rintro rfl
      exact hH.notMem hn hl (List.mem_of_mem_head? hy)
    rw [Option.mem_def] at hy
    simp [hlistAddHead, hyn, hfirst, hy]
  · intro t ht ht'
    simp only [Slots.endSlot] at ht
    simp [hlistAddHead, ht, ht']
  · intro y hy hy'
    rw [Option.mem_def] at hy'
    simp [hlistAddHead, hy, hfirst, hy']

theorem addBefore (hH : H.Represents m) (hn : H.state n ≠ .listed) {next : ν} (hl : H.lists h = some (l₁ ++ next :: l₂)) :
    ∃ m', hlistAddBefore n next m = some m' ∧ (H.set h (l₁ ++ n :: next :: l₂) n .listed).Represents m' := by
  have hchain := hH.chain h _ hl
  have hpprev := hchain.back_eq
  have hload : m.load (Slots.endSlot (.first h) l₁) = some next := hchain.rest.load_eq
  have hne : n ≠ next := by
    rintro rfl
    exact hH.notMem hn hl (by simp)
  have hend := hH.endSlot_ne hl hn
  have hm : hlistAddBefore n next m = some (storeSlot (Slots.endSlot (.first h) l₁) (some n)
      (setPprev next (some (.next n)) (storeSlot (.next n) (some next) (setPprev n (m.back next) m)))) := by
    simp [hlistAddBefore, hne, hpprev]
  refine ⟨_, hm, hH.insert hl hn ?_ ?_ ?_ ?_ ?_ ?_⟩
  · simp
  · simp [hne, hpprev]
  · simp [hend.symm, hload]
  · intro y hy
    obtain rfl := Option.some.inj hy
    simp
  · intro t ht ht'
    simp [ht, ht']
  · intro y hy hy'
    have hyn : y ≠ next := fun heq => hy' (by simp [heq])
    simp [hy, hyn]

theorem addAfter (hH : H.Represents m) {next : ν} (hn : H.state next ≠ .listed) (hl : H.lists h = some (l₁ ++ n :: l₂)) :
    (H.set h (l₁ ++ n :: next :: l₂) next .listed).Represents (hlistAddAfter n next m) := by
  have hload := (hH.chain h _ hl).load_next
  have hne : next ≠ n := by
    rintro rfl
    exact hH.notMem hn hl (by simp)
  have hslots : (Slot.next next : Slot η ν) ≠ .next n := fun heq => hne (Slot.next.inj heq)
  have hsplit : H.lists h = some ((l₁ ++ [n]) ++ l₂) := by rw [hl, List.append_cons]
  have hend : Slots.endSlot (.first h : Slot η ν) (l₁ ++ [n]) = .next n := Slots.endSlot_append
  have hinsert : (H.set h ((l₁ ++ [n]) ++ next :: l₂) next .listed).Represents (hlistAddAfter n next m) := by
    refine hH.insert hsplit hn ?_ ?_ ?_ ?_ ?_ ?_
    · simp [hend, hlistAddAfter]
    · have hnot : l₂.head? ≠ some next := by
        intro hhead
        exact hH.notMem hn hl (List.mem_append_right _ (List.mem_cons_of_mem _ (List.mem_of_mem_head? hhead)))
      simp [hend, hlistAddAfter, hslots, hload, hnot]
    · simp [hend, hlistAddAfter, hslots]
    · intro y hy
      rw [Option.mem_def] at hy
      simp [hlistAddAfter, hslots, hload, hy]
    · intro t ht ht'
      rw [hend] at ht
      simp [hlistAddAfter, ht, ht']
    · intro y hy hy'
      rw [Option.mem_def] at hy'
      simp [hlistAddAfter, hslots, hload, hy, hy']
  rwa [List.append_assoc] at hinsert

/-- `__hlist_del` of a member. -/
theorem delInternal (hH : H.Represents m) (hl : H.lists h = some (l₁ ++ n :: l₂)) :
    ∃ m', hlistDelInternal n m = some m' ∧ (H.set h (l₁ ++ l₂) n .stale).Represents m' := by
  have hchain := hH.chain h _ hl
  have hload := hchain.load_next
  have hm : hlistDelInternal n m = some (setPprevOf (m.load (.next n)) (some (Slots.endSlot (.first h) l₁))
      (storeSlot (Slots.endSlot (.first h) l₁) (m.load (.next n)) m)) := by
    simp [hlistDelInternal, hchain.back_eq]
  refine ⟨_, hm, hH.remove hl ?_ ?_ ?_ ?_⟩
  · simp
  · intro y hy
    rw [Option.mem_def] at hy
    simp [hload, hy]
  · intro t ht _
    simp [ht]
  · intro y _ hy
    rw [Option.mem_def] at hy
    simp [hload, hy]

/-- `__hlist_del` of a node that looks as if it was in a list changes nothing. -/
theorem delInternal_fake (hH : H.Represents m) (hn : H.state n = .fake) : hlistDelInternal n m = some m := by
  obtain ⟨hnext, hpprev⟩ := hH.fake n hn
  have hm : hlistDelInternal n m = some (storeSlot (.next n) none m) := by
    simp [hlistDelInternal, hpprev, hnext, setPprevOf]
  rw [hm, storeSlot, ← hnext, Function.update_eq_self]

/-- `INIT_HLIST_HEAD` of a head that has no members. -/
theorem initHead (hH : H.Represents m) (hempty : ∀ l, H.lists h = some l → l = []) :
    Represents (initHlistHead h m) { H with lists := Function.update H.lists h (some []) } := by
  -- the lists are those from before, and an empty one
  have hlists : ∀ k lk, Function.update H.lists h (some []) k = some lk → k = h ∧ lk = [] ∨ k ≠ h ∧ H.lists k = some lk := by
    intro k lk hlk
    by_cases hk : k = h
    · rw [hk, Function.update_self] at hlk
      exact .inl ⟨hk, (Option.some.inj hlk).symm⟩
    · rw [Function.update_of_ne hk] at hlk
      exact .inr ⟨hk, hlk⟩
  refine ⟨?_, ?_, ?_, ?_, ?_, ?_⟩
  · intro k lk hlk
    rcases hlists k lk hlk with ⟨rfl, rfl⟩ | ⟨hk, hlk⟩
    · exact ⟨trivial, by simp [initHlistHead, Slots.endSlot]⟩
    · refine (hH.chain k lk hlk).frame (Slots.fields_nodup k (hH.nodup k lk hlk)) ?_ (fun _ _ => rfl)
      intro t ht
      have hth : t ≠ .first h := by
        rintro rfl
        simp [Slots.fields, Ne.symm hk] at ht
      simp [initHlistHead, hth]
  · intro k lk hlk
    rcases hlists k lk hlk with ⟨rfl, rfl⟩ | ⟨-, hlk⟩
    · exact List.nodup_nil
    · exact hH.nodup k lk hlk
  · intro k lk k' lk' hlk hlk' hne x hx hx'
    rcases hlists k lk hlk with ⟨rfl, rfl⟩ | ⟨-, hlk⟩
    · cases hx
    · rcases hlists k' lk' hlk' with ⟨rfl, rfl⟩ | ⟨-, hlk'⟩
      · cases hx'
      · exact hH.disjoint k lk k' lk' hlk hlk' hne x hx hx'
  · intro x
    refine (hH.listed x).trans ⟨?_, ?_⟩
    · rintro ⟨k, lk, hlk, hx⟩
      have hk : k ≠ h := by
        rintro rfl
        rw [hempty lk hlk] at hx
        cases hx
      exact ⟨k, lk, (Function.update_of_ne hk ..).trans hlk, hx⟩
    · rintro ⟨k, lk, hlk, hx⟩
      rcases hlists k lk hlk with ⟨rfl, rfl⟩ | ⟨-, hlk⟩
      · cases hx
      · exact ⟨k, lk, hlk, hx⟩
  · intro x hx
    simpa [initHlistHead] using hH.unhashed x hx
  · intro x hx
    simpa [initHlistHead] using hH.fake x hx

/-- `hlist_move_list`. -/
theorem moveList (hH : H.Represents m) {old new : η} (hne : old ≠ new) (hl : H.lists old = some l)
    (hempty : ∀ l', H.lists new = some l' → l' = []) :
    Represents (hlistMoveList old new m)
      { H with lists := Function.update (Function.update H.lists old (some [])) new (some l) } := by
  have hfirst := (hH.chain old l hl).load_eq
  -- the lists are the one moved, an empty one, and those of other heads
  have hlists : ∀ k lk, Function.update (Function.update H.lists old (some [])) new (some l) k = some lk →
      k = new ∧ lk = l ∨ k = old ∧ lk = [] ∨ k ≠ old ∧ k ≠ new ∧ H.lists k = some lk := by
    intro k lk hlk
    by_cases hknew : k = new
    · rw [hknew, Function.update_self] at hlk
      exact .inl ⟨hknew, (Option.some.inj hlk).symm⟩
    · rw [Function.update_of_ne hknew] at hlk
      by_cases hkold : k = old
      · rw [hkold, Function.update_self] at hlk
        exact .inr (.inl ⟨hkold, (Option.some.inj hlk).symm⟩)
      · rw [Function.update_of_ne hkold] at hlk
        exact .inr (.inr ⟨hkold, hknew, hlk⟩)
  have hload : ∀ x, (hlistMoveList old new m).load (.next x) = m.load (.next x) := by
    intro x
    simp [hlistMoveList]
  have hback : ∀ y, y ∉ l.head? → (hlistMoveList old new m).back y = m.back y := by
    intro y hy
    rw [Option.mem_def] at hy
    simp [hlistMoveList, hfirst, hy]
  have hloose : ∀ x, H.state x ≠ .listed → (hlistMoveList old new m).back x = m.back x := by
    intro x hx
    exact hback x (fun hhead => hH.notMem hx hl (List.mem_of_mem_head? hhead))
  refine ⟨?_, ?_, ?_, ?_, ?_, ?_⟩
  · intro k lk hlk
    rcases hlists k lk hlk with ⟨rfl, rfl⟩ | ⟨rfl, rfl⟩ | ⟨hkold, hknew, hlk⟩
    · refine (hH.chain old lk hl).rebase (Slots.fields_nodup old (hH.nodup old lk hl)) ?_ ?_ (fun x _ => hload x)
        (fun y _ hy => hback y hy)
      · simp [hlistMoveList, hne.symm]
      · intro y hy
        rw [Option.mem_def] at hy
        simp [hlistMoveList, hfirst, hy]
    · exact ⟨trivial, by simp [hlistMoveList, Slots.endSlot]⟩
    · refine (hH.chain k lk hlk).frame (Slots.fields_nodup k (hH.nodup k lk hlk)) ?_ ?_
      · intro t ht
        rcases List.mem_cons.mp ht with rfl | ht
        · simp [hlistMoveList, hkold, hknew]
        · obtain ⟨x, -, rfl⟩ := List.mem_map.mp ht
          exact hload x
      · intro x hx
        exact hback x (fun hhead => hH.disjoint k lk old l hlk hl hkold x hx (List.mem_of_mem_head? hhead))
  · intro k lk hlk
    rcases hlists k lk hlk with ⟨rfl, rfl⟩ | ⟨rfl, rfl⟩ | ⟨-, -, hlk⟩
    · exact hH.nodup old lk hl
    · exact List.nodup_nil
    · exact hH.nodup k lk hlk
  · intro k lk k' lk' hlk hlk' hne' x hx hx'
    rcases hlists k lk hlk with ⟨rfl, rfl⟩ | ⟨rfl, rfl⟩ | ⟨hkold, -, hk⟩
    · rcases hlists k' lk' hlk' with ⟨rfl, rfl⟩ | ⟨rfl, rfl⟩ | ⟨hkold', -, hk'⟩
      · exact hne' rfl
      · cases hx'
      · exact hH.disjoint old lk k' lk' hl hk' hkold'.symm x hx hx'
    · cases hx
    · rcases hlists k' lk' hlk' with ⟨rfl, rfl⟩ | ⟨rfl, rfl⟩ | ⟨-, -, hk'⟩
      · exact hH.disjoint k lk old lk' hk hl hkold x hx hx'
      · cases hx'
      · exact hH.disjoint k lk k' lk' hk hk' hne' x hx hx'
  · intro x
    refine (hH.listed x).trans ⟨?_, ?_⟩
    · rintro ⟨k, lk, hlk, hx⟩
      by_cases hkold : k = old
      · rw [hkold, hl] at hlk
        obtain rfl := Option.some.inj hlk
        exact ⟨new, l, Function.update_self .., hx⟩
      · have hknew : k ≠ new := by
          rintro rfl
          rw [hempty lk hlk] at hx
          cases hx
        exact ⟨k, lk, by simp [hknew, hkold, hlk], hx⟩
    · rintro ⟨k, lk, hlk, hx⟩
      rcases hlists k lk hlk with ⟨rfl, rfl⟩ | ⟨rfl, rfl⟩ | ⟨-, -, hlk⟩
      · exact ⟨old, lk, hl, hx⟩
      · cases hx
      · exact ⟨k, lk, hlk, hx⟩
  · intro x hx
    have hx' : H.state x = .unhashed := hx
    rw [hload x, hloose x (by rw [hx']; decide)]
    exact hH.unhashed x hx
  · intro x hx
    have hx' : H.state x = .fake := hx
    rw [hload x, hloose x (by rw [hx']; decide)]
    exact hH.fake x hx

/-- `hlist_del_init` of a member. -/
theorem delInit (hH : H.Represents m) (hl : H.lists h = some (l₁ ++ n :: l₂)) :
    ∃ m', hlistDelInit n m = some m' ∧ (H.set h (l₁ ++ l₂) n .unhashed).Represents m' := by
  obtain ⟨m', hm', hH'⟩ := hH.delInternal hl
  have hhashed : hlistUnhashed n m = false := by
    rw [hlistUnhashed, (hH.chain h _ hl).back_eq]
    rfl
  have hstale : (H.set h (l₁ ++ l₂) n .stale).state n = .stale := Function.update_self ..
  have hset : (H.set h (l₁ ++ l₂) n .stale).setState n .unhashed = H.set h (l₁ ++ l₂) n .unhashed := by
    rw [HLists.setState, HLists.set, HLists.set, Function.update_idem]
  refine ⟨initHlistNode n m', by simp [hlistDelInit, hhashed, hm'], ?_⟩
  rw [← hset]
  exact hH'.initNode (by rw [hstale]; decide)

end HLists.Represents

/-! ### Any calls -/

/-- **A call that a caller may make** has a result, and leaves the lists that he thinks of. -/
theorem HlistOp.call_represents {m : Slots η ν} {H H' : HLists η ν} {op : HlistOp η ν} (hH : H.Represents m)
    (h : op.Step H H') : ∃ m', op.call m = some m' ∧ H'.Represents m' := by
  cases h with
  | initHead hempty => exact ⟨_, rfl, hH.initHead hempty⟩
  | initNode hn => exact ⟨_, rfl, hH.initNode hn⟩
  | addHead hn hl => exact ⟨_, rfl, hH.addHead hn hl⟩
  | addBefore hn hl => exact hH.addBefore hn hl
  | addAfter hn hl => exact ⟨_, rfl, hH.addAfter hn hl⟩
  | addFake hn => exact ⟨_, rfl, hH.addFake hn⟩
  | del hl => exact hH.delInternal hl
  | delFake hn => exact ⟨m, hH.delInternal_fake hn, hH⟩
  | delInit hl => exact hH.delInit hl
  | @delInitFake n hn =>
    have hhashed : hlistUnhashed n m = false := by
      rw [hlistUnhashed, (hH.fake n hn).2]
      rfl
    exact ⟨initHlistNode n m, by simp [HlistOp.call, hlistDelInit, hhashed, hH.delInternal_fake hn],
      hH.initNode (by rw [hn]; decide)⟩
  | @delInitUnhashed n hn =>
    have hunhashed : hlistUnhashed n m = true := by
      rw [hlistUnhashed, (hH.unhashed n hn).2]
      rfl
    exact ⟨m, by simp [HlistOp.call, hlistDelInit, hunhashed], hH⟩
  | moveList hne hl hempty => exact ⟨_, rfl, hH.moveList hne hl hempty⟩

omit [DecidableEq η] [DecidableEq ν] in
/-- Memory without lists. -/
theorem HLists.represents_start {m : Slots η ν} : HLists.start.Represents m := by
  refine ⟨?_, ?_, ?_, ?_, ?_, ?_⟩
  · intro h l hl
    cases hl
  · intro h l hl
    cases hl
  · intro h l h' l' hl
    cases hl
  · intro x
    constructor
    · intro hx
      cases hx
    · rintro ⟨h, l, hl, -⟩
      cases hl
  · intro x hx
    cases hx
  · intro x hx
    cases hx

/-- **Any sequence of calls.** -/
theorem hlistRun_represents {m : Slots η ν} {H H' : HLists η ν} {ops : List (HlistOp η ν)} (hrun : HlistOp.Run H ops H')
    (hH : H.Represents m) : ∃ m', hlistRun m ops = some m' ∧ H'.Represents m' := by
  induction hrun generalizing m with
  | nil => exact ⟨m, rfl, hH⟩
  | cons h _ ih =>
    obtain ⟨m₁, hm₁, hH₁⟩ := HlistOp.call_represents hH h
    obtain ⟨m', hm', hH'⟩ := ih hH₁
    exact ⟨m', by simp [hlistRun, hm₁, hm'], hH'⟩

omit [DecidableEq η] [DecidableEq ν] in
/-- The walk from a field on searches the rest of the chain. -/
theorem hlistForEach_chain {m : Slots η ν} {found : ν → Bool} {s : Slot η ν} {l : List ν} {fuel : ℕ} (h : m.Chain s l)
    (hfuel : l.length < fuel) : hlistForEach m found fuel (m.load s) = some (l.find? found) := by
  induction l generalizing s fuel with
  | nil =>
    obtain ⟨fuel, rfl⟩ : ∃ k, fuel = k + 1 := ⟨fuel - 1, by simp at hfuel; omega⟩
    rw [h.load_eq]
    rfl
  | cons x l ih =>
    obtain ⟨fuel, rfl⟩ : ∃ k, fuel = k + 1 := ⟨fuel - 1, by simp at hfuel; omega⟩
    have hchain : m.Chain s ([x] ++ l) := h
    have hrest := ih hchain.rest (by simpa using hfuel)
    rw [h.load_eq, List.head?_cons, hlistForEach, List.find?_cons]
    cases hx : found x with
    | true => rfl
    | false => exact hrest

/-- **The hash lists of `list.h` keep lists.** Memory may hold anything at first, and there are
no lists. After any sequence of calls that a caller may make, none of which follows a `NULL`
pointer: each list that he thinks of is a chain of its members, no two share a node, `hlist_empty` tells
whether there is a member, a walk finds the first member that it looks for, and `hlist_unhashed`
is true of the nodes that are unhashed and of no member. -/
theorem hlist_ops_refine {m : Slots η ν} {H : HLists η ν} {ops : List (HlistOp η ν)} (hrun : HlistOp.Run .start ops H) :
    ∃ m', hlistRun m ops = some m' ∧ H.Represents m' ∧
      (∀ h l, H.lists h = some l → (hlistEmpty h m' = true ↔ l = []) ∧
        ∀ found fuel, l.length < fuel → hlistForEach m' found fuel (m'.load (.first h)) = some (l.find? found)) ∧
      (∀ n, H.state n = .unhashed → hlistUnhashed n m' = true) ∧
      (∀ n, H.state n = .listed → hlistUnhashed n m' = false) := by
  obtain ⟨m', hm', hH⟩ := hlistRun_represents hrun HLists.represents_start
  refine ⟨m', hm', hH, ?_, ?_, ?_⟩
  · intro h l hl
    refine ⟨?_, fun found fuel hfuel => hlistForEach_chain (hH.chain h l hl) hfuel⟩
    rw [hlistEmpty, (hH.chain h l hl).load_eq, Option.isNone_iff_eq_none, List.head?_eq_none_iff]
  · intro n hn
    rw [hlistUnhashed, (hH.unhashed n hn).2]
    rfl
  · intro n hn
    obtain ⟨h, l, hl, hmem⟩ := (hH.listed n).mp hn
    obtain ⟨l₁, l₂, rfl⟩ := List.append_of_mem hmem
    rw [hlistUnhashed, (hH.chain h _ hl).back_eq]
    rfl

/-- A hash table with two heads. -/
def twoHeads : List (HlistOp Bool (Fin 4)) :=
  [.initHead false, .initNode 3, .addHead 0 false, .addBefore 1 0, .addAfter 0 2, .moveList false true, .del 1, .delInit 3]

/-- The list was moved to the other head and lost a node. -/
theorem hlist_ops_refine_two_heads :
    ∃ m', hlistRun ⟨fun _ => none, fun _ => none⟩ twoHeads = some m' ∧ m'.Chain (.first true) [0, 2] ∧
      hlistUnhashed 3 m' = true := by
  have hrun : HlistOp.Run .start twoHeads _ :=
    .cons (.initHead (fun l hl => by cases hl)) <| .cons (.initNode (by decide)) <|
      .cons (.addHead (by decide) (show _ = some [] by decide)) <|
      .cons (.addBefore (by decide) (show HLists.lists _ false = some ([] ++ 0 :: []) by decide)) <|
      .cons (.addAfter (by decide) (show HLists.lists _ false = some ([1] ++ 0 :: []) by decide)) <|
      .cons (.moveList (by decide) (show _ = some [1, 0, 2] by decide) (fun l hl => by cases hl)) <|
      .cons (.del (show HLists.lists _ true = some ([] ++ 1 :: [0, 2]) by decide)) <|
      .cons (.delInitUnhashed (by decide)) .nil
  obtain ⟨m', hm', hH, -, hunhashed, -⟩ := hlist_ops_refine (m := ⟨fun _ => none, fun _ => none⟩) hrun
  exact ⟨m', hm', hH.chain true [0, 2] (by decide), hunhashed 3 (by decide)⟩

/-! ### Walks that change the list -/

omit [DecidableEq η] [DecidableEq ν] in
/-- **A safe walk**, by what holds when the nodes `rest` are still to come. -/
theorem hlistForEachSafe_rule {body : ν → Slots η ν → Option (Slots η ν)} {P : List ν → Slots η ν → Prop}
    (hbody : ∀ pos rest m, P (pos :: rest) m →
      m.load (.next pos) = rest.head? ∧ ∃ m', body pos m = some m' ∧ P rest m') {rest : List ν} {fuel : ℕ}
    {m : Slots η ν} (hP : P rest m) (hfuel : rest.length < fuel) :
    ∃ m', hlistForEachSafe body fuel rest.head? m = some m' ∧ P [] m' := by
  induction rest generalizing fuel m with
  | nil =>
    obtain ⟨fuel, rfl⟩ : ∃ k, fuel = k + 1 := ⟨fuel - 1, by simp at hfuel; omega⟩
    exact ⟨m, rfl, hP⟩
  | cons pos rest ih =>
    obtain ⟨fuel, rfl⟩ : ∃ k, fuel = k + 1 := ⟨fuel - 1, by simp at hfuel; omega⟩
    obtain ⟨hnext, m₁, hm₁, hP₁⟩ := hbody pos rest m hP
    obtain ⟨m', hm', hP'⟩ := ih hP₁ (by simpa using hfuel)
    refine ⟨m', ?_, hP'⟩
    simp only [List.head?_cons, hlistForEachSafe, hnext, hm₁, Option.bind_eq_bind, Option.bind_some, hm']

/-- The lists when the nodes `done` of one of them were visited and `rest` is still to come. -/
def HLists.deleting (H : HLists η ν) (h : η) (found : ν → Bool) (done rest : List ν) : HLists η ν :=
  ⟨Function.update H.lists h (some (done.filter (!found ·) ++ rest)),
    fun x => if x ∈ done ∧ found x = true then .unhashed else H.state x⟩

/-- One more node was visited. -/
theorem HLists.deleting_visited (H : HLists η ν) (h : η) (found : ν → Bool) (done : List ν) (pos : ν) (rest : List ν) :
    H.deleting h found (done ++ [pos]) rest =
      if found pos then (H.deleting h found done (pos :: rest)).set h (done.filter (!found ·) ++ rest) pos .unhashed
      else H.deleting h found done (pos :: rest) := by
  cases hpos : found pos with
  | false =>
    have hstate : ∀ x, (x ∈ done ++ [pos] ∧ found x = true ↔ x ∈ done ∧ found x = true) := by
      intro x
      by_cases hx : x = pos
      · simp [hx, hpos]
      · simp [hx]
    simp only [HLists.deleting, hstate, Bool.false_eq_true, if_false]
    congr 1
    simp [hpos]
  | true =>
    have hstate : ∀ x, x ≠ pos → (x ∈ done ++ [pos] ∧ found x = true ↔ x ∈ done ∧ found x = true) := by
      intro x hx
      simp [hx]
    simp only [HLists.deleting, HLists.set, if_true, Function.update_idem]
    congr 1
    · simp [hpos]
    · funext x
      by_cases hx : x = pos
      · simp [hx, hpos]
      · rw [Function.update_of_ne hx]
        simp only [hstate x hx]

/-- **A safe walk that deletes nodes.** In memory that holds any hash lists, an `hlist_for_each_safe`
over one of them whose body deletes some of the nodes with `hlist_del_init` ends after as many visits
as there are nodes. The list then has the other nodes, in the order in which they were, those
deleted are unhashed, and all other lists and nodes are as before. -/
theorem hlistForEachSafe_deletes {m : Slots η ν} {H : HLists η ν} (hH : H.Represents m) {h : η} {l : List ν}
    (hl : H.lists h = some l) (found : ν → Bool) {fuel : ℕ} (hfuel : l.length < fuel) :
    ∃ m', hlistForEachSafe (fun pos m => if found pos then hlistDelInit pos m else some m) fuel (m.load (.first h)) m =
        some m' ∧
      HLists.Represents m' ⟨Function.update H.lists h (some (l.filter (!found ·))),
        fun x => if x ∈ l ∧ found x = true then .unhashed else H.state x⟩ := by
  -- the nodes visited and those to come are the members
  let P : List ν → Slots η ν → Prop := fun rest m => ∃ done, done ++ rest = l ∧ (H.deleting h found done rest).Represents m
  have hstart : P l m := by
    have hsame : H.deleting h found [] l = H := by
      simp [HLists.deleting, ← hl]
    exact ⟨[], rfl, by rw [hsame]; exact hH⟩
  have hbody : ∀ pos rest m, P (pos :: rest) m → m.load (.next pos) = rest.head? ∧
      ∃ m', (if found pos then hlistDelInit pos m else some m) = some m' ∧ P rest m' := by
    rintro pos rest m ⟨done, hdone, hrep⟩
    have hlist : (H.deleting h found done (pos :: rest)).lists h = some (done.filter (!found ·) ++ pos :: rest) :=
      Function.update_self ..
    refine ⟨(hrep.chain h _ hlist).load_next, ?_⟩
    have hdone' : (done ++ [pos]) ++ rest = l := by rw [← hdone]; simp
    have hvisited := H.deleting_visited h found done pos rest
    cases hpos : found pos with
    | false =>
      rw [hpos] at hvisited
      exact ⟨m, rfl, done ++ [pos], hdone', by rw [hvisited]; exact hrep⟩
    | true =>
      rw [hpos] at hvisited
      obtain ⟨m', hm', hrep'⟩ := hrep.delInit hlist
      exact ⟨m', hm', done ++ [pos], hdone', by rw [hvisited]; exact hrep'⟩
  obtain ⟨m', hm', done, hdone, hrep⟩ := hlistForEachSafe_rule hbody hstart hfuel
  rw [List.append_nil] at hdone
  subst hdone
  refine ⟨m', by rw [(hH.chain h done hl).load_eq]; exact hm', ?_⟩
  simpa [HLists.deleting] using hrep

/-- Two of three nodes are deleted. -/
theorem hlistForEachSafe_deletes_two :
    ∃ m m' : Slots Unit (Fin 3), hlistForEachSafe (fun pos m => if pos ≠ 1 then hlistDelInit pos m else some m) 4
        (m.load (.first ())) m = some m' ∧ m'.Chain (.first ()) [1] := by
  have hrun : HlistOp.Run .start [.initHead (), .addHead (2 : Fin 3) (), .addHead 1 (), .addHead 0 ()] _ :=
    .cons (.initHead (fun l hl => by cases hl)) <| .cons (.addHead (by decide) (show _ = some [] by decide)) <|
      .cons (.addHead (by decide) (show _ = some [2] by decide)) <|
      .cons (.addHead (by decide) (show _ = some [1, 2] by decide)) .nil
  obtain ⟨m, -, hH⟩ := hlistRun_represents (m := ⟨fun _ => none, fun _ => none⟩) hrun HLists.represents_start
  obtain ⟨m', hm', hH'⟩ := hlistForEachSafe_deletes hH (show HLists.lists _ () = some [0, 1, 2] by decide)
    (fun pos => decide (pos ≠ 1)) (show _ < 4 by decide)
  refine ⟨m, m', ?_, hH'.chain () [1] (by decide)⟩
  simpa only [decide_eq_true_eq] using hm'

end LibCfe
