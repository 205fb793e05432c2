import LibCfe.Keystore.Basic
import Mathlib.Algebra.Group.Nat.Defs

/-!
# Core Foundation, as the key store uses it

Core Foundation is not part of the library. `CoreFoundation σ Obj` is what
`src/keystore-darwin.c` calls of it: `Obj` are the objects ever made, strings and data,
which do not change, and `σ` holds the dictionary `store`. A function that makes an
object returns `NULL` when it cannot.

`CoreFoundation.Documented` is what Apple says of these functions, and `cfAscii` is a
Core Foundation that makes strings of ASCII characters only.
-/

namespace LibCfe

/-- The functions of Core Foundation. None of them may be given `NULL`. -/
structure CoreFoundation (σ Obj : Type) where
  /-- `CFStringCreateWithCString`, with `kCFStringEncodingUTF8`. -/
  stringCreate : σ → CString → Option Obj × σ
  /-- `CFDataCreate`; the length is signed. -/
  dataCreate : σ → Bytes → ℤ → Option Obj × σ
  /-- `CFDictionaryRemoveValue` from `store`. -/
  dictRemoveValue : σ → Obj → σ
  /-- `CFDictionaryAddValue` to `store`. -/
  dictAddValue : σ → Obj → Obj → σ
  /-- `CFDictionaryGetValue` from `store`. -/
  dictGetValue : σ → Obj → Option Obj
  /-- `CFDataGetLength`. -/
  dataGetLength : Obj → ℤ
  /-- `CFDataGetBytes` of a range, given by its start and length. -/
  dataGetBytes : Obj → ℤ → ℤ → List UInt8
  /-- `CFRetain`. -/
  retain : σ → Obj → σ
  /-- `CFRelease`. -/
  release : σ → Obj → σ

namespace CoreFoundation

variable {σ Obj : Type}

/-- What Core Foundation documents. -/
structure Documented (C : CoreFoundation σ Obj) where
  /-- What a string was made from. -/
  text : Obj → Option CString
  /-- The bytes of data. -/
  bytes : Obj → Option (List UInt8)
  /-- The entries of `store`. -/
  dict : σ → KeyMap
  string_text : ∀ s d o, (C.stringCreate s d).1 = some o → text o = some d
  string_dict : ∀ s d, dict (C.stringCreate s d).2 = dict s
  data_bytes : ∀ s p n o, (C.dataCreate s p n).1 = some o → 0 ≤ n ∧ bytes o = some (p.read n.toNat)
  data_dict : ∀ s p n, dict (C.dataCreate s p n).2 = dict s
  remove_dict : ∀ s k d, text k = some d → dict (C.dictRemoveValue s k) = Function.update (dict s) d none
  /-- An entry is added when there is none for the key. -/
  add_dict : ∀ s k v d data, text k = some d → bytes v = some data → dict s d = none →
    dict (C.dictAddValue s k v) = Function.update (dict s) d (some data)
  get_some : ∀ s k d v, text k = some d → C.dictGetValue s k = some v → ∃ data, bytes v = some data ∧ dict s d = some data
  get_none : ∀ s k d, text k = some d → C.dictGetValue s k = none → dict s d = none
  /-- A length is a `CFIndex`. -/
  length : ∀ o data, bytes o = some data → C.dataGetLength o = data.length ∧ data.length < 2 ^ 63
  getBytes : ∀ o data, bytes o = some data → C.dataGetBytes o 0 data.length = data
  retain_dict : ∀ s o, dict (C.retain s o) = dict s
  release_dict : ∀ s o, dict (C.release s o) = dict s

end CoreFoundation

/-! ### Core Foundation for ASCII -/

/-- An object. -/
inductive CfObject where
  /-- A string. -/
  | string (d : CString)
  /-- Data. -/
  | data (bytes : { l : List UInt8 // l.length < 2 ^ 63 })
  deriving DecidableEq

namespace CfObject

/-- The characters of a string. -/
def text : CfObject → Option CString
  | string d => some d
  | data _ => none

/-- The bytes of data. -/
def bytes : CfObject → Option (List UInt8)
  | string _ => none
  | data bytes => some bytes

end CfObject

/-- Core Foundation where a string can only have ASCII characters. -/
def cfAscii : CoreFoundation (CString → Option { l : List UInt8 // l.length < 2 ^ 63 }) CfObject where
  stringCreate s d := (if d.chars.all (· < 0x80) then some (.string d) else none, s)
  dataCreate s p n :=
    (if h : 0 ≤ n ∧ n.toNat < 2 ^ 63 then some (.data ⟨p.read n.toNat, by rw [p.read_length]; exact h.2⟩) else none, s)
  dictRemoveValue s k :=
    match k with
    | .string d => Function.update s d none
    | .data _ => s
  dictAddValue s k v :=
    match k, v with
    | .string d, .data bytes => if s d = none then Function.update s d (some bytes) else s
    | _, _ => s
  dictGetValue s k :=
    match k with
    | .string d => (s d).map .data
    | .data _ => none
  dataGetLength o := ((o.bytes.map List.length).getD 0 : ℕ)
  dataGetBytes o start n := (((o.bytes.getD []).drop start.toNat).take n.toNat)
  retain s _ := s
  release s _ := s

/-- It meets what is documented. -/
def cfAscii_documented : cfAscii.Documented where
  text := CfObject.text
  bytes := CfObject.bytes
  dict s d := (s d).map (·.1)
  string_text s d o h := by
    simp only [cfAscii, Option.ite_none_right_eq_some, Option.some.injEq] at h
    rw [← h.2]
    rfl
  string_dict _ _ := rfl
  data_bytes s p n o h := by
    simp only [cfAscii, Option.dite_none_right_eq_some, Option.some.injEq] at h
    obtain ⟨hn, rfl⟩ := h
    exact ⟨hn.1, rfl⟩
  data_dict _ _ _ := rfl
  remove_dict s k d h := by
    cases k with
    | string d' =>
      obtain rfl := Option.some.inj h
      funext e
      by_cases he : e = d' <;> simp [cfAscii, he]
    | data _ => cases h
  add_dict s k v d data hk hv hd := by
    cases k with
    | data _ => cases hk
    | string d' =>
      cases v with
      | string _ => cases hv
      | data bytes =>
        obtain rfl := Option.some.inj hk
        obtain rfl := Option.some.inj hv
        have hnone : s d' = none := Option.map_eq_none_iff.mp hd
        funext e
        by_cases he : e = d' <;> simp [cfAscii, hnone, he]
  get_some s k d v hk hv := by
    cases k with
    | data _ => cases hk
    | string d' =>
      obtain rfl := Option.some.inj hk
      obtain ⟨bytes, hbytes, rfl⟩ := Option.map_eq_some_iff.mp hv
      exact ⟨bytes.1, rfl, by simp [hbytes]⟩
  get_none s k d hk hv := by
    cases k with
    | data _ => cases hk
    | string d' =>
      obtain rfl := Option.some.inj hk
      have hnone : s d' = none := Option.map_eq_none_iff.mp hv
      simp [hnone]
  length o data h := by
    cases o with
    | string _ => cases h
    | data bytes =>
      obtain rfl := Option.some.inj h
      exact ⟨rfl, bytes.2⟩
  getBytes o data h := by
    cases o with
    | string _ => cases h
    | data bytes =>
      obtain rfl := Option.some.inj h
      simp [cfAscii, CfObject.bytes]
  retain_dict _ _ := rfl
  release_dict _ _ := rfl

end LibCfe
