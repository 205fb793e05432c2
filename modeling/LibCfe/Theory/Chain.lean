import Mathlib.Data.List.Nodup
import Mathlib.Logic.Function.Basic

/-!
# Chains with links back to a field

A singly linked chain that starts in a field of a head and goes on from node to node.
Each node also knows the field that points to it, a `Slot`: that of the head or of the node
before it. So a node is linked in at a field, or taken out of it, in the same way wherever it is.

`Chain.insert` and `Chain.remove` are stated as the edits of a ring are in
`LibCfe.Theory.Ring`, by what the fields hold afterwards.
-/

namespace LibCfe.Theory

/-- The address of a field that points to a node, of heads `η` and nodes `ν`. -/
inductive Slot (η ν : Type*) where
  /-- The field of a head. -/
  | first (h : η)
  /-- The field of a node that points forward. -/
  | next (n : ν)
  deriving DecidableEq

/-- The fields of a set of heads and nodes. -/
@[ext]
structure Slots (η ν : Type*) where
  /-- What a field points to. -/
  load : Slot η ν → Option ν
  /-- The field that a node takes to point to it. -/
  back : ν → Option (Slot η ν)

namespace Slots

variable {η ν : Type*} {m m' : Slots η ν} {s : Slot η ν} {l l₁ l₂ : List ν} {x new : ν}

/-- The last field of a chain. -/
def endSlot (s : Slot η ν) : List ν → Slot η ν
  | [] => s
  | x :: l => endSlot (.next x) l

/-- From the field `s` on come the nodes `l`. -/
def Segment (m : Slots η ν) : Slot η ν → List ν → Prop
  | _, [] => True
  | s, x :: l => m.load s = some x ∧ m.back x = some s ∧ m.Segment (.next x) l

/-- And then no more. -/
def Chain (m : Slots η ν) (s : Slot η ν) (l : List ν) : Prop := m.Segment s l ∧ m.load (endSlot s l) = none

/-- The fields of a chain. -/
def fields (s : Slot η ν) (l : List ν) : List (Slot η ν) := s :: l.map .next

theorem endSlot_mem : endSlot s l ∈ fields s l := by
  induction l generalizing s with
  | nil => exact List.mem_singleton.mpr rfl
  | cons x l ih => exact List.mem_cons_of_mem _ ih

theorem endSlot_append : endSlot s (l₁ ++ l₂) = endSlot (endSlot s l₁) l₂ := by
  induction l₁ generalizing s with
  | nil => rfl
  | cons x l₁ ih => exact ih

theorem segment_append_iff : m.Segment s (l₁ ++ l₂) ↔ m.Segment s l₁ ∧ m.Segment (endSlot s l₁) l₂ := by
  induction l₁ generalizing s with
  | nil => simp [Segment, endSlot]
  | cons x l₁ ih => simp [Segment, endSlot, ih, and_assoc]

/-- The fields of a chain from the field of a head are different ones. -/
theorem fields_nodup (h : η) (hl : l.Nodup) : (fields (.first h : Slot η ν) l).Nodup := by
  refine List.nodup_cons.mpr ⟨?_, hl.map (fun a b hab => Slot.next.inj hab)⟩
  simp

/-- A segment does not look at its last field. -/
theorem Segment.frame (h : m.Segment s l) (hnd : (fields s l).Nodup)
    (hload : ∀ t ∈ fields s l, t ≠ endSlot s l → m'.load t = m.load t) (hback : ∀ x ∈ l, m'.back x = m.back x) :
    m'.Segment s l := by
  induction l generalizing s with
  | nil => trivial
  | cons x l ih =>
    obtain ⟨h1, h2, h3⟩ := h
    obtain ⟨hs, hnd'⟩ := List.nodup_cons.mp hnd
    refine ⟨?_, ?_, ih h3 hnd' ?_ ?_⟩
    · rw [hload s List.mem_cons_self (fun heq => hs (heq ▸ endSlot_mem)), h1]
    · rw [hback x List.mem_cons_self, h2]
    · intro t ht hne
      exact hload t (List.mem_cons_of_mem _ ht) hne
    · intro y hy
      exact hback y (List.mem_cons_of_mem _ hy)

/-- A chain is unchanged when its fields and its nodes are. -/
theorem Chain.frame (h : m.Chain s l) (hnd : (fields s l).Nodup) (hload : ∀ t ∈ fields s l, m'.load t = m.load t)
    (hback : ∀ x ∈ l, m'.back x = m.back x) : m'.Chain s l :=
  ⟨h.1.frame hnd (fun t ht _ => hload t ht) hback, (hload _ endSlot_mem).trans h.2⟩

/-- The field that points to a node of a chain is the one that the node knows. -/
theorem Chain.back_eq (h : m.Chain s (l₁ ++ x :: l₂)) : m.back x = some (endSlot s l₁) :=
  (segment_append_iff.mp h.1).2.2.1

/-- The fields up to a node and those behind it are different ones. -/
theorem fields_append (s : Slot η ν) (l₁ : List ν) (x : ν) (l₂ : List ν) :
    fields s (l₁ ++ x :: l₂) = fields s l₁ ++ fields (.next x) l₂ := by
  simp [fields]

/-- What a field points to is the first of the nodes that come from it. -/
theorem Chain.load_eq (h : m.Chain s l) : m.load s = l.head? := by
  cases l with
  | nil => exact h.2
  | cons x l => exact h.1.1

/-- The rest of a chain. -/
theorem Chain.rest (h : m.Chain s (l₁ ++ l₂)) : m.Chain (endSlot s l₁) l₂ := by
  refine ⟨(segment_append_iff.mp h.1).2, ?_⟩
  rw [← endSlot_append]
  exact h.2

/-- What follows a node of a chain. -/
theorem Chain.load_next (h : m.Chain s (l₁ ++ x :: l₂)) : m.load (.next x) = l₂.head? := by
  rw [List.append_cons] at h
  have hrest := h.rest.load_eq
  rwa [endSlot_append] at hrest

/-- **Linking a node in** at the field behind the nodes `l₁`. -/
theorem Chain.insert (h : m.Chain s (l₁ ++ l₂)) (hnd : (fields s (l₁ ++ new :: l₂)).Nodup)
    (h1 : m'.load (endSlot s l₁) = some new) (h2 : m'.back new = some (endSlot s l₁))
    (h3 : m'.load (.next new) = m.load (endSlot s l₁)) (h4 : ∀ y ∈ l₂.head?, m'.back y = some (.next new))
    (hload : ∀ t, t ≠ endSlot s l₁ → t ≠ .next new → m'.load t = m.load t)
    (hback : ∀ y, y ≠ new → y ∉ l₂.head? → m'.back y = m.back y) : m'.Chain s (l₁ ++ new :: l₂) := by
  obtain ⟨hseg, hrest⟩ := segment_append_iff.mp h.1
  have hend := h.2
  rw [endSlot_append] at hend
  rw [fields_append] at hnd
  obtain ⟨hnd₁, hnd₂, hdisj⟩ := List.nodup_append.mp hnd
  have hnodes : ∀ y ∈ l₁, y ≠ new ∧ y ∉ l₂.head? := by
    intro y hy
    have hy₁ : Slot.next y ∈ fields s l₁ := List.mem_cons_of_mem _ (List.mem_map_of_mem hy)
    refine ⟨?_, ?_⟩
    · rintro rfl
      exact hdisj _ hy₁ _ List.mem_cons_self rfl
    · intro hmem
      exact hdisj _ hy₁ (.next y) (List.mem_cons_of_mem _ (List.mem_map_of_mem (List.mem_of_mem_head? hmem))) rfl
  have hfirst : m'.Segment s l₁ := by
    refine hseg.frame hnd₁ ?_ ?_
    · intro t ht hne
      exact hload t hne (fun heq => hdisj t ht _ List.mem_cons_self heq)
    · intro y hy
      exact hback y (hnodes y hy).1 (hnodes y hy).2
  have hfields : ∀ t ∈ fields (.next new) l₂, t ≠ endSlot s l₁ := by
    rintro t ht rfl
    exact hdisj _ endSlot_mem _ ht rfl
  have hlast : m'.Chain (.next new) l₂ := by
    cases l₂ with
    | nil => exact ⟨trivial, h3.trans hend⟩
    | cons y l₂ =>
      obtain ⟨hnew, hnd₃⟩ := List.nodup_cons.mp hnd₂
      have hcopy : ∀ t ∈ fields (.next y) l₂, m'.load t = m.load t := by
        intro t ht
        refine hload t (hfields t (List.mem_cons_of_mem _ ht)) ?_
        rintro rfl
        exact hnew ht
      refine ⟨⟨h3.trans hrest.1, h4 y rfl, hrest.2.2.frame hnd₃ (fun t ht _ => hcopy t ht) ?_⟩, ?_⟩
      · intro z hz
        refine hback z ?_ ?_
        · rintro rfl
          exact hnew (List.mem_cons_of_mem _ (List.mem_map_of_mem hz))
        · intro hzy
          obtain rfl := Option.some.inj hzy
          exact (List.nodup_cons.mp hnd₃).1 (List.mem_map_of_mem hz)
      · exact (hcopy _ endSlot_mem).trans hend
  refine ⟨segment_append_iff.mpr ⟨hfirst, h1, h2, hlast.1⟩, ?_⟩
  rw [endSlot_append]
  exact hlast.2

/-- **Taking a node out** of the field that points to it. -/
theorem Chain.remove (h : m.Chain s (l₁ ++ x :: l₂)) (hnd : (fields s (l₁ ++ x :: l₂)).Nodup)
    (h1 : m'.load (endSlot s l₁) = m.load (.next x)) (h2 : ∀ y ∈ l₂.head?, m'.back y = some (endSlot s l₁))
    (hload : ∀ t, t ≠ endSlot s l₁ → t ≠ .next x → m'.load t = m.load t)
    (hback : ∀ y, y ≠ x → y ∉ l₂.head? → m'.back y = m.back y) : m'.Chain s (l₁ ++ l₂) := by
  obtain ⟨hseg, -, -, hrest⟩ := segment_append_iff.mp h.1
  have hend := h.2
  rw [endSlot_append] at hend
  rw [fields_append] at hnd
  obtain ⟨hnd₁, hnd₂, hdisj⟩ := List.nodup_append.mp hnd
  have hfirst : m'.Segment s l₁ := by
    refine hseg.frame hnd₁ ?_ ?_
    · intro t ht hne
      exact hload t hne (fun heq => hdisj t ht _ List.mem_cons_self heq)
    · intro y hy
      have hy₁ : Slot.next y ∈ fields s l₁ := List.mem_cons_of_mem _ (List.mem_map_of_mem hy)
      refine hback y ?_ ?_
      · rintro rfl
        exact hdisj _ hy₁ _ List.mem_cons_self rfl
      · intro hmem
        exact hdisj _ hy₁ (.next y) (List.mem_cons_of_mem _ (List.mem_map_of_mem (List.mem_of_mem_head? hmem))) rfl
  have hlast : m'.Chain (endSlot s l₁) l₂ := by
    cases l₂ with
    | nil => exact ⟨trivial, h1.trans hend⟩
    | cons y l₂ =>
      obtain ⟨hx, hnd₃⟩ := List.nodup_cons.mp hnd₂
      have hcopy : ∀ t ∈ fields (.next y) l₂, m'.load t = m.load t := by
        intro t ht
        refine hload t ?_ ?_
        · rintro rfl
          exact hdisj _ endSlot_mem _ (List.mem_cons_of_mem _ ht) rfl
        · rintro rfl
          exact hx ht
      refine ⟨⟨h1.trans hrest.1, h2 y rfl, hrest.2.2.frame hnd₃ (fun t ht _ => hcopy t ht) ?_⟩, ?_⟩
      · intro z hz
        refine hback z ?_ ?_
        · rintro rfl
          exact hx (List.mem_cons_of_mem _ (List.mem_map_of_mem hz))
        · intro hzy
          obtain rfl := Option.some.inj hzy
          exact (List.nodup_cons.mp hnd₃).1 (List.mem_map_of_mem hz)
      · exact (hcopy _ endSlot_mem).trans hend
  refine ⟨segment_append_iff.mpr ⟨hfirst, hlast.1⟩, ?_⟩
  rw [endSlot_append]
  exact hlast.2

/-- **Another field to start from**: the first node of a chain is linked to it. -/
theorem Chain.rebase {s' : Slot η ν} (h : m.Chain s l) (hnd : (fields s l).Nodup) (h1 : m'.load s' = m.load s)
    (h2 : ∀ y ∈ l.head?, m'.back y = some s') (hload : ∀ x ∈ l, m'.load (.next x) = m.load (.next x))
    (hback : ∀ y ∈ l, y ∉ l.head? → m'.back y = m.back y) : m'.Chain s' l := by
  cases l with
  | nil => exact ⟨trivial, h1.trans h.2⟩
  | cons x l =>
    have hchain : m.Chain s ([x] ++ l) := h
    have hrest : m.Chain (.next x) l := hchain.rest
    have hnd' := (List.nodup_cons.mp hnd).2
    have hcopy : m'.Chain (.next x) l := by
      refine hrest.frame hnd' ?_ ?_
      · intro t ht
        rw [fields, ← List.map_cons] at ht
        obtain ⟨y, hy, rfl⟩ := List.mem_map.mp ht
        exact hload y hy
      · intro y hy
        refine hback y (List.mem_cons_of_mem _ hy) ?_
        intro hyx
        obtain rfl := Option.some.inj hyx
        exact (List.nodup_cons.mp hnd').1 (List.mem_map_of_mem hy)
    exact ⟨⟨h1.trans h.1.1, h2 x rfl, hcopy.1⟩, hcopy.2⟩

end Slots

end LibCfe.Theory
