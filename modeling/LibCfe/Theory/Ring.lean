import Mathlib.Data.List.Chain
import Mathlib.Data.List.Nodup
import Mathlib.Logic.Function.Basic
import Mathlib.Tactic.TypeStar

/-!
# Circular doubly linked lists

The two link fields of a set of nodes are two maps from a node to the node they
point to, or to nothing. A node `h` with the members `l` forms a ring when each
node of `h; l; h` points forward to the next and is pointed back to by it.

The edits of a ring are local: `Ring.insertLast` and `Ring.insertFirst` link a new node in
just before `h` or behind it, `Ring.remove` takes a member out, and `Ring.splice` links all
members of another ring in behind `h`. Each is stated by what the new
link fields hold at the few nodes it touches and that they agree with the old
ones elsewhere, so that any sequence of writes with that effect will do.
-/

namespace LibCfe.Theory

/-- The link fields of a set of nodes. -/
@[ext]
structure Links (ν : Type*) where
  /-- Where a node points forward to. -/
  next : ν → Option ν
  /-- Where a node points back to. -/
  prev : ν → Option ν

namespace Links

variable {ν : Type*}

/-- `x` and `y` are linked both ways. -/
def Linked (m : Links ν) (x y : ν) : Prop := m.next x = some y ∧ m.prev y = some x

/-- The nodes `l` follow one another. -/
def Path (m : Links ν) (l : List ν) : Prop := List.IsChain m.Linked l

/-- `h` is the head of a ring with the members `l`. -/
def Ring (m : Links ν) (h : ν) (l : List ν) : Prop := m.Path (h :: l ++ [h])

/-- A path is unchanged when the links between its nodes are. -/
theorem Path.frame {m m' : Links ν} : ∀ {l : List ν}, m.Path l →
    (∀ x ∈ l.dropLast, m'.next x = m.next x) → (∀ y ∈ l.tail, m'.prev y = m.prev y) → m'.Path l
  | [], _, _, _ => List.isChain_nil
  | [x], _, _, _ => List.isChain_singleton x
  | x :: y :: l, h, hn, hp => by
    obtain ⟨⟨h1, h2⟩, h3⟩ := List.isChain_cons_cons.mp h
    refine List.isChain_cons_cons.mpr ⟨⟨?_, ?_⟩, Path.frame h3 ?_ ?_⟩
    · rw [hn x (by simp), h1]
    · rw [hp y (by simp), h2]
    · intro z hz
      exact hn z (by rw [List.dropLast_cons_of_ne_nil (List.cons_ne_nil _ _)]; exact List.mem_cons_of_mem _ hz)
    · intro z hz
      exact hp z (List.mem_cons_of_mem _ hz)

/-- Two paths and a link between them make one path. -/
theorem path_append_iff {m : Links ν} {l l' : List ν} {x y : ν} :
    m.Path ((l ++ [x]) ++ (y :: l')) ↔ m.Path (l ++ [x]) ∧ m.Linked x y ∧ m.Path (y :: l') := by
  unfold Path
  rw [List.isChain_append]
  simp [and_comm]

/-- The empty ring: the head points at itself both ways. -/
theorem ring_nil_iff {m : Links ν} {h : ν} : m.Ring h [] ↔ m.next h = some h ∧ m.prev h = some h := by
  simp [Ring, Path, Linked]

/-- The nodes of a nonempty list, the last one apart. -/
theorem exists_last (h : ν) (l : List ν) : ∃ init x, h :: l = init ++ [x] :=
  ⟨_, _, (List.dropLast_append_getLast (List.cons_ne_nil h l)).symm⟩

/-- What follows the head in a ring, which is the head when it has no members. -/
theorem exists_first (h : ν) (l : List ν) : ∃ y rest, l ++ [h] = y :: rest := by
  cases l with
  | nil => exact ⟨h, [], rfl⟩
  | cons y l => exact ⟨y, l ++ [h], rfl⟩

theorem Ring.next_head {m : Links ν} {h y : ν} {l rest : List ν} (hr : m.Ring h l) (hy : l ++ [h] = y :: rest) :
    m.next h = some y := by
  have hpath : m.Path (h :: (l ++ [h])) := hr
  rw [hy] at hpath
  exact (List.isChain_cons_cons.mp hpath).1.1

theorem Ring.prev_head {m : Links ν} {h x : ν} {l init : List ν} (hr : m.Ring h l)
    (hx : h :: l = init ++ [x]) : m.prev h = some x := by
  unfold Ring at hr
  rw [hx, path_append_iff] at hr
  exact hr.2.1.2

/-- The neighbours of a member. -/
theorem Ring.neighbours {m : Links ν} {h e x z : ν} {l₁ l₂ init rest : List ν}
    (hr : m.Ring h (l₁ ++ e :: l₂)) (hx : h :: l₁ = init ++ [x]) (hz : l₂ ++ [h] = z :: rest) :
    m.prev e = some x ∧ m.next e = some z := by
  have hl : h :: (l₁ ++ e :: l₂) ++ [h] = (init ++ [x]) ++ (e :: z :: rest) := by
    rw [← hx, ← hz]; simp
  unfold Ring at hr
  rw [hl, path_append_iff] at hr
  obtain ⟨-, ⟨-, hp⟩, hrest⟩ := hr
  exact ⟨hp, (List.isChain_cons_cons.mp hrest).1.1⟩

/-- What follows a member. -/
theorem Ring.next_member {m : Links ν} {h x : ν} {l₁ l₂ : List ν} (hr : m.Ring h (l₁ ++ x :: l₂)) :
    m.next x = (l₂ ++ [h]).head? := by
  obtain ⟨init, w, hw⟩ := exists_last h l₁
  obtain ⟨z, rest, hz⟩ := exists_first h l₂
  rw [(hr.neighbours hw hz).2, hz, List.head?_cons]

/-- **Linking a node in** between the last node `x` and the head. -/
theorem Ring.insertLast {m m' : Links ν} {h new x : ν} {l init : List ν} (hr : m.Ring h l)
    (hnd : (h :: l).Nodup) (hnew : new ∉ h :: l) (hx : h :: l = init ++ [x])
    (h1 : m'.next x = some new) (h2 : m'.prev new = some x) (h3 : m'.next new = some h)
    (h4 : m'.prev h = some new)
    (hn : ∀ y, y ≠ x → y ≠ new → m'.next y = m.next y)
    (hp : ∀ y, y ≠ h → y ≠ new → m'.prev y = m.prev y) : m'.Ring h (l ++ [new]) := by
  have hl : h :: (l ++ [new]) ++ [h] = (init ++ [x]) ++ [new, h] := by
    rw [← hx]; simp
  unfold Ring at hr ⊢
  rw [hx, path_append_iff] at hr
  rw [hl, path_append_iff]
  refine ⟨hr.1.frame ?_ ?_, ⟨h1, h2⟩, ?_⟩
  · intro y hy
    -- every node but `x` keeps where it points forward to
    rw [List.dropLast_concat] at hy
    rw [hx] at hnd hnew
    exact hn y (by rintro rfl; exact (List.nodup_append.mp hnd).2.2 _ hy _ (by simp) rfl)
      (by rintro rfl; exact hnew (List.mem_append_left _ hy))
  · intro y hy
    -- every node but `h` keeps where it points back to
    rw [← hx, List.tail_cons] at hy
    exact hp y (by rintro rfl; exact (List.nodup_cons.mp hnd).1 hy)
      (by rintro rfl; exact hnew (List.mem_cons_of_mem _ hy))
  · exact List.isChain_cons_cons.mpr ⟨⟨h3, h4⟩, List.isChain_singleton h⟩

/-- **Taking a member out**: its neighbours `x` and `z` are linked to each other. -/
theorem Ring.remove {m m' : Links ν} {h e x z : ν} {l₁ l₂ init rest : List ν}
    (hr : m.Ring h (l₁ ++ e :: l₂)) (hnd : (h :: (l₁ ++ e :: l₂)).Nodup)
    (hx : h :: l₁ = init ++ [x]) (hz : l₂ ++ [h] = z :: rest)
    (h1 : m'.next x = some z) (h2 : m'.prev z = some x)
    (hn : ∀ y, y ≠ x → y ≠ e → m'.next y = m.next y)
    (hp : ∀ y, y ≠ z → y ≠ e → m'.prev y = m.prev y) : m'.Ring h (l₁ ++ l₂) := by
  have hl : h :: (l₁ ++ e :: l₂) ++ [h] = (init ++ [x]) ++ (e :: z :: rest) := by
    rw [← hx, ← hz]; simp
  have hl' : h :: (l₁ ++ l₂) ++ [h] = (init ++ [x]) ++ (z :: rest) := by
    rw [← hx, ← hz]; simp
  -- the nodes are pairwise different: `h; l₁` on one side of `e`, `l₂` on the other
  have hsplit : ((h :: l₁) ++ e :: l₂).Nodup := by simpa using hnd
  obtain ⟨hleft, hright, hdisj⟩ := List.nodup_append.mp hsplit
  obtain ⟨he, -⟩ := List.nodup_cons.mp hright
  have hzmem : z ∈ l₂ ++ [h] := by rw [hz]; exact List.mem_cons_self
  have hxmem : x ∈ h :: l₁ := by rw [hx]; simp
  unfold Ring at hr ⊢
  rw [hl, path_append_iff] at hr
  rw [hl', path_append_iff]
  obtain ⟨hpre, -, hpost⟩ := hr
  refine ⟨hpre.frame ?_ ?_, ⟨h1, h2⟩,
    Path.frame (List.isChain_cons_cons.mp hpost).2 ?_ ?_⟩
  · intro y hy
    rw [List.dropLast_concat] at hy
    have hy' : y ∈ h :: l₁ := by rw [hx]; exact List.mem_append_left _ hy
    refine hn y ?_ (hdisj y hy' e (by simp))
    rintro rfl
    rw [hx] at hleft
    exact (List.nodup_append.mp hleft).2.2 _ hy _ (by simp) rfl
  · intro y hy
    rw [← hx, List.tail_cons] at hy
    have hy' : y ∈ h :: l₁ := List.mem_cons_of_mem _ hy
    refine hp y ?_ (hdisj y hy' e (by simp))
    rintro rfl
    rcases List.mem_append.mp hzmem with hmem | hmem
    · exact hdisj _ hy' _ (List.mem_cons_of_mem _ hmem) rfl
    · rw [List.mem_singleton] at hmem
      exact (List.nodup_cons.mp hleft).1 (hmem ▸ hy)
  · intro y hy
    rw [← hz, List.dropLast_concat] at hy
    exact hn y (fun hyx => hdisj x hxmem y (List.mem_cons_of_mem _ hy) hyx.symm)
      (by rintro rfl; exact he hy)
  · intro y hy
    -- `rest` is what follows `z`: members of `l₂` other than `z`, or the head
    rw [List.tail_cons] at hy
    have hnd' : (z :: rest).Nodup := by
      rw [← hz, List.nodup_append]
      refine ⟨(List.nodup_cons.mp hright).2, List.nodup_singleton h, ?_⟩
      intro a ha b hb
      rw [List.mem_singleton] at hb
      rw [hb]
      exact fun hah => hdisj h (by simp) a (List.mem_cons_of_mem _ ha) hah.symm
    have hymem : y ∈ l₂ ++ [h] := by rw [hz]; exact List.mem_cons_of_mem _ hy
    apply hp y (by rintro rfl; exact (List.nodup_cons.mp hnd').1 hy)
    rintro rfl
    rcases List.mem_append.mp hymem with hmem | hmem
    · exact he hmem
    · rw [List.mem_singleton] at hmem
      exact hdisj h (by simp) y (by simp) hmem.symm

/-- **Linking a node in** between the head and the node `y` behind it. -/
theorem Ring.insertFirst {m m' : Links ν} {h new y : ν} {l rest : List ν} (hr : m.Ring h l)
    (hnd : (h :: l).Nodup) (hnew : new ∉ h :: l) (hy : l ++ [h] = y :: rest)
    (h1 : m'.next h = some new) (h2 : m'.prev new = some h) (h3 : m'.next new = some y)
    (h4 : m'.prev y = some new)
    (hn : ∀ x, x ≠ h → x ≠ new → m'.next x = m.next x)
    (hp : ∀ x, x ≠ y → x ≠ new → m'.prev x = m.prev x) : m'.Ring h (new :: l) := by
  have hback : (y :: rest).Nodup := by
    have hnd' : ([h] ++ l).Nodup := hnd
    rw [← hy]
    exact List.nodup_append_comm.mp hnd'
  have hmem : ∀ x, x ∈ y :: rest → x ≠ new := by
    rintro x hx rfl
    rw [← hy] at hx
    exact hnew (by simpa [or_comm] using hx)
  have hpath : m.Path (y :: rest) := by
    have hr' : m.Path ([] ++ [h] ++ (l ++ [h])) := hr
    rw [hy, path_append_iff] at hr'
    exact hr'.2.2
  have hl : h :: (new :: l) ++ [h] = h :: new :: (y :: rest) := by rw [← hy]; rfl
  unfold Ring Path
  rw [hl]
  refine List.isChain_cons_cons.mpr ⟨⟨h1, h2⟩, List.isChain_cons_cons.mpr ⟨⟨h3, h4⟩, hpath.frame ?_ ?_⟩⟩
  · intro x hx
    refine hn x ?_ (hmem x (List.dropLast_subset _ hx))
    rw [← hy, List.dropLast_concat] at hx
    rintro rfl
    exact (List.nodup_cons.mp hnd).1 hx
  · intro x hx
    rw [List.tail_cons] at hx
    refine hp x ?_ (hmem x (List.mem_cons_of_mem _ hx))
    rintro rfl
    exact (List.nodup_cons.mp hback).1 hx

/-- **Joining two rings**: the members of the ring of `a`, from `f` to `z`, are linked in between
`h` and the node `y` behind it. -/
theorem Ring.splice {m m' : Links ν} {a h f z y : ν} {la l first last rest : List ν} (ha : m.Ring a la)
    (hr : m.Ring h l) (hnd : (la ++ h :: l).Nodup) (hf : la = f :: first) (hz : la = last ++ [z])
    (hy : l ++ [h] = y :: rest) (h1 : m'.next h = some f) (h2 : m'.prev f = some h)
    (h3 : m'.next z = some y) (h4 : m'.prev y = some z)
    (hn : ∀ x, x ≠ h → x ≠ z → m'.next x = m.next x)
    (hp : ∀ x, x ≠ f → x ≠ y → m'.prev x = m.prev x) : m'.Ring h (la ++ l) := by
  obtain ⟨hla, hhl, hdisj⟩ := List.nodup_append.mp hnd
  have hback : (y :: rest).Nodup := by
    have hhl' : ([h] ++ l).Nodup := hhl
    rw [← hy]
    exact List.nodup_append_comm.mp hhl'
  -- a node behind `h`, or `h` itself, is not among the members of the other ring
  have hsep : ∀ x ∈ la, x ∉ y :: rest := by
    intro x hx hmem
    rw [← hy] at hmem
    exact hdisj x hx x (by simpa [or_comm] using hmem) rfl
  have hhy : h ∈ y :: rest := by rw [← hy]; simp
  have hpatha : m.Path (last ++ [z]) := by
    have ha' : m.Path ([] ++ [a] ++ (f :: first ++ [a])) := by rw [← hf]; exact ha
    have htail : m.Path (f :: first ++ [a]) := (path_append_iff.mp ha').2.2
    rw [← hf, hz] at htail
    exact (path_append_iff.mp htail).1
  have hpathh : m.Path (y :: rest) := by
    have hr' : m.Path ([] ++ [h] ++ (l ++ [h])) := hr
    rw [hy, path_append_iff] at hr'
    exact hr'.2.2
  have hnew : m'.Path (last ++ [z]) := by
    refine hpatha.frame ?_ ?_
    · intro x hx
      rw [List.dropLast_concat] at hx
      have hxla : x ∈ la := by rw [hz]; exact List.mem_append_left _ hx
      refine hn x (fun hxh => hsep x hxla (hxh ▸ hhy)) ?_
      rintro rfl
      rw [hz] at hla
      exact (List.nodup_append.mp hla).2.2 x hx x (by simp) rfl
    · intro x hx
      rw [← hz, hf, List.tail_cons] at hx
      have hxla : x ∈ la := by rw [hf]; exact List.mem_cons_of_mem _ hx
      refine hp x ?_ (fun hxy => hsep x hxla (hxy ▸ List.mem_cons_self))
      rintro rfl
      rw [hf] at hla
      exact (List.nodup_cons.mp hla).1 hx
  have hrest : m'.Path (y :: rest) := by
    have hzla : z ∈ la := by rw [hz]; simp
    have hfla : f ∈ la := by rw [hf]; exact List.mem_cons_self
    refine hpathh.frame ?_ ?_
    · intro x hx
      refine hn x ?_ (fun hxz => hsep z hzla (hxz ▸ List.dropLast_subset _ hx))
      rw [← hy, List.dropLast_concat] at hx
      rintro rfl
      exact (List.nodup_cons.mp hhl).1 hx
    · intro x hx
      rw [List.tail_cons] at hx
      refine hp x (fun hxf => hsep f hfla (hxf ▸ List.mem_cons_of_mem _ hx)) ?_
      rintro rfl
      exact (List.nodup_cons.mp hback).1 hx
  have hl : h :: (la ++ l) ++ [h] = [] ++ [h] ++ (f :: (first ++ (y :: rest))) := by
    rw [← hy, hf]
    simp
  unfold Ring
  rw [hl, path_append_iff]
  refine ⟨List.isChain_singleton h, ⟨h1, h2⟩, ?_⟩
  rw [← List.cons_append, ← hf, hz, path_append_iff]
  exact ⟨hnew, ⟨h3, h4⟩, hrest⟩

/-- With the two fields exchanged a ring runs the other way. -/
theorem Ring.reverse {m : Links ν} {h : ν} {l : List ν} (hr : m.Ring h l) : Ring ⟨m.prev, m.next⟩ h l.reverse := by
  have hback : List.IsChain (fun x y => Linked ⟨m.prev, m.next⟩ y x) (h :: l ++ [h]) :=
    List.IsChain.imp (fun _ _ hl => ⟨hl.2, hl.1⟩) hr
  have hrev := List.isChain_reverse.mpr hback
  unfold Ring Path
  simpa using hrev

/-- Following `next` from `h` visits exactly `l`, in this order, and comes back to `h`. -/
def Visits (next : ν → Option ν) (h : ν) (l : List ν) : Prop :=
  List.IsChain (fun x y => next x = some y) (h :: l ++ [h])

theorem Ring.visits_next {m : Links ν} {h : ν} {l : List ν} (hr : m.Ring h l) : Visits m.next h l :=
  List.IsChain.imp (fun _ _ hl => hl.1) hr

/-- Going back visits the members in reverse. -/
theorem Ring.visits_prev {m : Links ν} {h : ν} {l : List ν} (hr : m.Ring h l) : Visits m.prev h l.reverse := by
  have hback : List.IsChain (fun x y => m.prev y = some x) (h :: l ++ [h]) :=
    List.IsChain.imp (fun _ _ hl => hl.2) hr
  have hrev := List.isChain_reverse.mpr hback
  unfold Visits
  simpa using hrev

/-- A ring is untouched by writes to nodes that are not in it. -/
theorem Ring.frame {m m' : Links ν} {h : ν} {l : List ν} (hr : m.Ring h l)
    (hn : ∀ x ∈ h :: l, m'.next x = m.next x) (hp : ∀ x ∈ h :: l, m'.prev x = m.prev x) :
    m'.Ring h l := by
  refine Path.frame hr (fun x hx => hn x ?_) fun x hx => hp x ?_
  · rwa [List.dropLast_concat] at hx
  · simpa [or_comm] using hx

end Links

end LibCfe.Theory
