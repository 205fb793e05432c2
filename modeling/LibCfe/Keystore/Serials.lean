import LibCfe.Keystore.Keyutils

/-!
# The serial numbers of keys

Between two calls of `libkeyutils` a thread holds nothing but a serial number, and the key
may be changed or invalidated by others. `Keyutils.Serials` is what the manual pages say
of that: a key keeps its number while it is updated, an invalidated key is there no more
for those who hold its number, and a number is not used for another key.

`numbered` is a keyring of that kind, in which the number of a key is its place in the
list of all keys that were ever made.
-/

namespace LibCfe

/-- What a serial number stands for. -/
inductive KeySerial where
  /-- It was not given out. -/
  | unused
  /-- The key with a description. -/
  | key (desc : CString)
  /-- A key that was invalidated. -/
  | gone
deriving DecidableEq

namespace Keyutils

variable {σ : Type}

/-- What is documented of serial numbers. -/
structure Serials (K : Keyutils σ) extends K.Documented where
  /-- What each number stands for. -/
  serial : σ → ℤ → KeySerial
  /-- The number of a key is enough to read it, -/
  serial_payload : ∀ s k d, serial s k = .key d → payload s k = keys s d ∧ keys s d ≠ none
  /-- and that of an invalidated one is not. -/
  gone_fails : ∀ s k b n, serial s k = .gone → (K.read s k b n).1 = -1 ∧ (K.read s k b n).2.1 = b
  read_serial : ∀ s k b n, serial (K.read s k b n).2.2 = serial s
  /-- `request_key` gives the number of the key, -/
  request_serial : ∀ s d, (K.requestKey s (some d)).1 ≠ -1 → serial s (K.requestKey s (some d)).1 = .key d
  request_same : ∀ s d, serial (K.requestKey s d).2 = serial s
  /-- and fails without a description. -/
  request_null : ∀ s, (K.requestKey s none).1 = -1 ∧ keys (K.requestKey s none).2 = keys s
  /-- `keyctl_invalidate` takes a key away, if it is there. -/
  invalidate_key : ∀ s k d, serial s k = .key d →
    keys (K.invalidate s k).2 = Function.update (keys s) d none ∧
      serial (K.invalidate s k).2 = Function.update (serial s) k .gone
  invalidate_gone : ∀ s k, serial s k = .gone →
    keys (K.invalidate s k).2 = keys s ∧ serial (K.invalidate s k).2 = serial s
  /-- `add_key` fails without a description or a payload, and then changes nothing; -/
  add_null : ∀ s d p n, d = none ∨ p = none ∨ n = 0 → (K.addKey s d p n).1 = -1
  add_fails : ∀ s d p n, (K.addKey s d p n).1 = -1 →
    keys (K.addKey s d p n).2 = keys s ∧ serial (K.addKey s d p n).2 = serial s
  /-- else it updates the key or makes one with a new number. -/
  add_key : ∀ s d p n, (K.addKey s (some d) (some p) n).1 ≠ -1 →
    keys (K.addKey s (some d) (some p) n).2 = Function.update (keys s) d (some (p.read n.toNat)) ∧
      serial (K.addKey s (some d) (some p) n).2 =
        Function.update (serial s) (K.addKey s (some d) (some p) n).1 (.key d) ∧
      (serial s (K.addKey s (some d) (some p) n).1 = .key d ∨ serial s (K.addKey s (some d) (some p) n).1 = .unused)

end Keyutils

/-! ### A keyring whose numbers are not used again -/

/-- The description of the key at a place. -/
def cellDesc (cells : List (Option UserKey)) (i : ℕ) : Option CString := cells[i]?.join.map (·.1)

/-- All keys ever made; an invalidated one has left its place empty. -/
structure NumberedKeys where
  /-- The keys. -/
  cells : List (Option UserKey)
  /-- No two have a description in common. -/
  distinct : ∀ i j d, cellDesc cells i = some d → cellDesc cells j = some d → i = j

namespace NumberedKeys

/-- The number of the key with a description. -/
def find (s : NumberedKeys) (d : CString) : Option ℕ := s.cells.findIdx? fun cell => decide (cell.map (·.1) = some d)

/-- The key with a number. -/
def keyAt (s : NumberedKeys) (k : ℤ) : Option UserKey := if k < 0 then none else s.cells[k.toNat]?.join

/-- What a place stands for. -/
def cellSerial : Option (Option UserKey) → KeySerial
  | none => .unused
  | some none => .gone
  | some (some key) => .key key.1

/-- What a number stands for. -/
def serial (s : NumberedKeys) (k : ℤ) : KeySerial := if k < 0 then .unused else cellSerial s.cells[k.toNat]?

/-- The payloads. -/
def keys (s : NumberedKeys) : KeyMap := fun d => ((s.find d).bind fun i => s.cells[i]?.join).map (·.2.1)

theorem lt_of_cellDesc {cells : List (Option UserKey)} {i : ℕ} {d : CString} (h : cellDesc cells i = some d) :
    i < cells.length := by
  by_contra hlen
  rw [cellDesc, List.getElem?_eq_none (not_lt.mp hlen)] at h
  cases h

theorem find_eq_some_iff {s : NumberedKeys} {d : CString} {i : ℕ} : s.find d = some i ↔ cellDesc s.cells i = some d := by
  rw [find, List.findIdx?_eq_some_iff_getElem]
  constructor
  · rintro ⟨hi, hdesc, -⟩
    rw [cellDesc, List.getElem?_eq_getElem hi]
    exact of_decide_eq_true hdesc
  · intro hdesc
    have hi := lt_of_cellDesc hdesc
    refine ⟨hi, ?_, ?_⟩
    · rw [cellDesc, List.getElem?_eq_getElem hi] at hdesc
      exact decide_eq_true hdesc
    · -- an earlier one would be the same
      intro j hj hj'
      have hdesc' : cellDesc s.cells j = some d := by
        rw [cellDesc, List.getElem?_eq_getElem (hj.trans hi)]
        exact of_decide_eq_true hj'
      exact absurd (s.distinct j i d hdesc' hdesc) hj.ne

theorem find_eq_none_iff {s : NumberedKeys} {d : CString} : s.find d = none ↔ ∀ i, cellDesc s.cells i ≠ some d := by
  simp only [Option.eq_none_iff_forall_ne_some, ne_eq, find_eq_some_iff]

/-- The places, with another key or none at one of them or behind them. -/
def putCell (cells : List (Option UserKey)) (i : ℕ) (x : Option UserKey) : List (Option UserKey) :=
  if i < cells.length then cells.set i x else cells ++ [x]

theorem getElem?_putCell {cells : List (Option UserKey)} {i : ℕ} (hi : i ≤ cells.length) (x : Option UserKey) (j : ℕ) :
    (putCell cells i x)[j]? = if j = i then some x else cells[j]? := by
  rw [putCell]
  split_ifs with hlt heq heq
  · rw [heq, List.getElem?_set_self hlt]
  · rw [List.getElem?_set_ne (Ne.symm heq)]
  · obtain rfl : i = cells.length := le_antisymm hi (not_lt.mp hlt)
    rw [heq, List.getElem?_concat_length]
  · obtain rfl : i = cells.length := le_antisymm hi (not_lt.mp hlt)
    rcases Nat.lt_or_gt_of_ne heq with hj | hj
    · rw [List.getElem?_append_left hj]
    · rw [List.getElem?_eq_none (by simpa [Nat.succ_le_iff] using hj), List.getElem?_eq_none hj.le]

theorem cellDesc_putCell {cells : List (Option UserKey)} {i : ℕ} (hi : i ≤ cells.length) (x : Option UserKey) (j : ℕ) :
    cellDesc (putCell cells i x) j = if j = i then x.map (·.1) else cellDesc cells j := by
  rw [cellDesc, getElem?_putCell hi]
  split_ifs with heq
  · rfl
  · rfl

/-- The same of a keyring. -/
def put (s : NumberedKeys) (i : ℕ) (x : Option UserKey) (hi : i ≤ s.cells.length)
    (h : ∀ d j, x.map (·.1) = some d → cellDesc s.cells j = some d → j = i) : NumberedKeys where
  cells := putCell s.cells i x
  distinct := by
    intro j k d hj hk
    rw [cellDesc_putCell hi] at hj hk
    split_ifs at hj hk with hji hki hki
    · rw [hji, hki]
    · rw [hji, h d k hj hk]
    · rw [hki, h d j hk hj]
    · exact s.distinct j k d hj hk

section

variable {s s' : NumberedKeys} {i : ℕ} {x : Option UserKey} (hi : i ≤ s.cells.length)

include hi

end

end NumberedKeys

open NumberedKeys

/-- `add_key` puts the key at its place, or behind all others. -/
def NumberedKeys.add (s : NumberedKeys) (d : CString) (q : { l : List UInt8 // l.length < 2 ^ 63 }) : ℤ × NumberedKeys :=
  match h : s.find d with
  | some i =>
    (i, s.put i (some (d, q)) (lt_of_cellDesc (find_eq_some_iff.mp h)).le (by
      rintro d' j ⟨⟩ hj
      exact s.distinct j i d hj (find_eq_some_iff.mp h)))
  | none =>
    (s.cells.length, s.put s.cells.length (some (d, q)) le_rfl (by
      rintro d' j ⟨⟩ hj
      exact absurd hj (find_eq_none_iff.mp h j)))

end LibCfe
