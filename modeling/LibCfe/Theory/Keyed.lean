import Mathlib.Data.List.Nodup
import Mathlib.Tactic.TypeStar

/-!
# Lists searched by a key

A list whose members have different keys is a finite map, and a linear search for a key
finds the member that has it, wherever that is. So the order does not matter.
-/

namespace LibCfe.Theory

variable {α κ : Type*} {key : α → κ}

/-- The keys differ. -/
def Keyed (key : α → κ) (l : List α) : Prop := l.Pairwise fun a b => key a ≠ key b

namespace Keyed

variable {l l' : List α}

/-- Members with one key are the same. -/
theorem inj (h : Keyed key l) {a b : α} (ha : a ∈ l) (hb : b ∈ l) (hab : key a = key b) : a = b :=
  List.inj_on_of_nodup_map (List.pairwise_map.mpr h) ha hb hab

theorem perm (h : Keyed key l) (hp : l.Perm l') : Keyed key l' :=
  hp.pairwise h fun hab => hab.symm

/-- A search for a key finds the member that has it. -/
theorem find?_eq_some_iff (h : Keyed key l) {p : α → Bool} {k : κ} (hp : ∀ a ∈ l, p a = true ↔ key a = k) {a : α} :
    l.find? p = some a ↔ a ∈ l ∧ key a = k := by
  constructor
  · intro hfind
    have hmem := List.mem_of_find?_eq_some hfind
    exact ⟨hmem, (hp a hmem).mp (List.find?_some hfind)⟩
  · rintro ⟨hmem, hkey⟩
    have hsome : (l.find? p).isSome = true := List.find?_isSome.mpr ⟨a, hmem, (hp a hmem).mpr hkey⟩
    obtain ⟨b, hb⟩ := Option.isSome_iff_exists.mp hsome
    have hbmem := List.mem_of_find?_eq_some hb
    have hbkey := (hp b hbmem).mp (List.find?_some hb)
    rw [hb, h.inj hbmem hmem (hbkey.trans hkey.symm)]

/-- In another order it finds the same. -/
theorem find?_perm (h : Keyed key l) (hperm : l.Perm l') {p : α → Bool} {k : κ}
    (hp : ∀ a ∈ l, p a = true ↔ key a = k) : l.find? p = l'.find? p := by
  have hp' : ∀ a ∈ l', p a = true ↔ key a = k := fun a ha => hp a (hperm.mem_iff.mpr ha)
  apply Option.ext
  intro a
  rw [h.find?_eq_some_iff hp, (h.perm hperm).find?_eq_some_iff hp', hperm.mem_iff]

end Keyed

end LibCfe.Theory
