import LibCfe.Keystore.Basic
import Mathlib.Algebra.Group.Nat.Defs

/-!
# The keys of Linux, as the key store uses them

`libkeyutils` is not part of the library. `Keyutils σ` is what `src/keystore-linux.c`
calls of it, for keys of the type `"user"` in the keyring of the user; `σ` is the keyring,
and a key is known by its serial number.

`Keyutils.Documented` is what the manual pages say of finding and reading a key, and
`keyring` is a list of keys in which a key is known by its place.
-/

namespace LibCfe

/-- The functions of `libkeyutils`. A failure is `-1`. -/
structure Keyutils (σ : Type) where
  /-- `request_key`: the serial number. -/
  requestKey : σ → Option CString → ℤ × σ
  /-- `keyctl_invalidate`. -/
  invalidate : σ → ℤ → ℤ × σ
  /-- `add_key`: the serial number. -/
  addKey : σ → Option CString → Option Bytes → BitVec 64 → ℤ × σ
  /-- `keyctl_read`: the return value, a `long`, and the memory at the buffer. -/
  read : σ → ℤ → Option Bytes → BitVec 64 → ℤ × Option Bytes × σ

namespace Keyutils

variable {σ : Type}

/-- What is documented of finding and reading keys. -/
structure Documented (K : Keyutils σ) where
  /-- The keys. -/
  keys : σ → KeyMap
  /-- The payload of the key with a serial number. -/
  payload : σ → ℤ → Option (List UInt8)
  /-- `request_key` finds the keys there are, -/
  request_fails : ∀ s d, (K.requestKey s (some d)).1 = -1 ↔ keys s d = none
  request_finds : ∀ s d, (K.requestKey s (some d)).1 ≠ -1 →
    payload (K.requestKey s (some d)).2 (K.requestKey s (some d)).1 = keys s d
  request_keys : ∀ s d, keys (K.requestKey s (some d)).2 = keys s
  /-- `keyctl_read` returns the length of the payload, also when the buffer is shorter, -/
  read_length : ∀ s k b n p, payload s k = some p → (K.read s k b n).1 = p.length ∧ p.length < 2 ^ 63
  /-- and copies it when it is not. -/
  read_copies : ∀ s k b (n : BitVec 64) p, payload s k = some p → p.length ≤ n.toNat →
    (K.read s k b n).2.1 = b.map (·.write p)
  /-- Then no more is copied than there is room for, and not the whole payload. -/
  read_short : ∀ s k b (n : BitVec 64) p, payload s k = some p → n.toNat < p.length →
    ∃ q, q.length ≤ n.toNat ∧ (K.read s k b n).2.1 = b.map (·.write q)
  read_keys : ∀ s k b n, keys (K.read s k b n).2.2 = keys s

end Keyutils

/-! ### A list of keys -/

/-- A key: its description and its payload. -/
abbrev UserKey := CString × { l : List UInt8 // l.length < 2 ^ 63 }

/-- The key with a serial number. -/
def keyAt (s : List UserKey) (k : ℤ) : Option UserKey := if k < 0 then none else s[k.toNat]?

/-- A keyring that copies nothing when there is no room for all of it. -/
def keyring : Keyutils (List UserKey) where
  requestKey s d :=
    let i := s.findIdx (fun key => some key.1 = d)
    (if i < s.length then i else -1, s)
  invalidate s k := if 0 ≤ k ∧ k < s.length then (0, s.eraseIdx k.toNat) else (-1, s)
  addKey s d p n :=
    match d, p with
    | some d, some p =>
      if h : n ≠ 0 ∧ n.toNat < 2 ^ 63 then
        (0, (d, ⟨p.read n.toNat, by rw [p.read_length]; exact h.2⟩) :: s.filter fun key => key.1 ≠ d)
      else (-1, s)
    | _, _ => (-1, s)
  read s k b n :=
    match keyAt s k with
    | none => (-1, b, s)
    | some key => (key.2.1.length, if key.2.1.length ≤ n.toNat then b.map (·.write key.2.1) else b, s)

/-- Writing nothing. -/
theorem Bytes.write_nil (p : Bytes) : p.write [] = p := rfl

/-- It meets what is documented. -/
def keyring_documented : keyring.Documented where
  keys s d := (s.find? (fun key => some key.1 = some d)).map (·.2.1)
  payload s k := (keyAt s k).map (·.2.1)
  request_fails s d := by
    rw [List.find?_eq_getElem?_findIdx, Option.map_eq_none_iff, List.getElem?_eq_none_iff]
    simp only [keyring]
    split_ifs with hlt
    · exact iff_of_false id (Nat.not_le.mpr hlt)
    · exact iff_of_true rfl (Nat.not_lt.mp hlt)
  request_finds s d h := by
    simp only [keyring] at h ⊢
    split_ifs at h ⊢ with hlt
    · rw [List.find?_eq_getElem?_findIdx, keyAt, if_neg (by omega), Int.toNat_natCast]
    · exact absurd rfl h
  request_keys _ _ := rfl
  read_length s k b n p h := by
    obtain ⟨key, hkey, rfl⟩ := Option.map_eq_some_iff.mp h
    simp only [keyring, hkey]
    exact ⟨trivial, key.2.2⟩
  read_copies s k b n p h hle := by
    obtain ⟨key, hkey, rfl⟩ := Option.map_eq_some_iff.mp h
    simp only [keyring, hkey, if_pos hle]
  read_short s k b n p h hlt := by
    obtain ⟨key, hkey, rfl⟩ := Option.map_eq_some_iff.mp h
    refine ⟨[], Nat.zero_le _, ?_⟩
    simp only [keyring, hkey, if_neg (Nat.not_le.mpr hlt)]
    cases b with
    | none => rfl
    | some b => rw [Option.map_some, Bytes.write_nil]
  read_keys s k b n := by
    simp only [keyring]
    cases keyAt s k <;> rfl

end LibCfe
