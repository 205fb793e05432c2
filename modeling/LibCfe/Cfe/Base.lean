import Mathlib.Data.List.TakeWhile
import Mathlib.Data.Nat.Notation

/-!
# Error numbers, memory and C strings

What every part of the library uses of its environment: the `errno` values its
failure exits store, the memory behind a pointer, and NUL-terminated strings with the
comparisons of `<string.h>`.

A string is the list of its characters before the terminating NUL, so that the
pointer arithmetic `s + n` inside a string is `drop n`. `CString.ofMem` is the
string C reads from memory that starts with given bytes: it runs to the first
zero byte, whether or not that byte still belongs to the array the string was
meant to fit in.
-/

namespace LibCfe

/-- A value of `errno`, or a return value that is stored there. -/
abbrev Errno := ℤ

/-- No such file or directory; here, no such key. -/
def ENOENT : Errno := 2

/-- Cannot allocate memory. -/
def ENOMEM : Errno := 12

/-- Device or resource busy. -/
def EBUSY : Errno := 16

/-- Invalid argument. -/
def EINVAL : Errno := 22

/-- No space left; here, in a buffer. -/
def ENOSPC : Errno := 28

/-- Function not implemented. -/
def ENOSYS : Errno := 38

/-- What a pointer points to: the byte there and those behind it. -/
abbrev Bytes := ℕ → UInt8

/-- The first `n` of them. -/
def Bytes.read (p : Bytes) (n : ℕ) : List UInt8 := (List.range n).map p

theorem Bytes.read_length (p : Bytes) (n : ℕ) : (p.read n).length = n := by simp [read]

/-- The same is read just when the same is there. -/
theorem Bytes.read_eq_iff {p p' : Bytes} {n : ℕ} : p.read n = p'.read n ↔ ∀ i < n, p i = p' i := by simp [read]

/-- The same memory after bytes were written there. -/
def Bytes.write (p : Bytes) (data : List UInt8) : Bytes := fun i => data.getD i (p i)

/-- What was written is read. -/
theorem Bytes.read_write (p : Bytes) (data : List UInt8) : (p.write data).read data.length = data := by
  apply List.ext_getElem
  · simp [read]
  · intro i hi hi'
    simp [read, write, hi']

/-- A string: its characters, none of which is the terminating NUL. -/
@[ext]
structure CString where
  /-- The characters before the NUL. -/
  chars : List UInt8
  /-- The NUL comes after them. -/
  noNul : 0 ∉ chars
  deriving DecidableEq

namespace CString

/-- The string C reads from memory holding `mem`. -/
def ofMem (mem : List UInt8) : CString where
  chars := mem.takeWhile (· != 0)
  noNul h := by simpa using List.mem_takeWhile_imp h

/-- `s + n`, for `n` at most the length. -/
def drop (s : CString) (n : ℕ) : CString := ⟨s.chars.drop n, fun h => s.noNul (List.mem_of_mem_drop h)⟩

/-- A NUL inside an array ends the string there, whatever follows the array. -/
theorem ofMem_append {mem : List UInt8} (h : 0 ∈ mem) (rest : List UInt8) : ofMem (mem ++ rest) = ofMem mem := by
  ext1
  simp only [ofMem]
  induction mem with
  | nil => simp at h
  | cons b mem ih =>
    by_cases hb : b = 0
    · simp [hb]
    · have h' : 0 ∈ mem := by
        rcases List.mem_cons.mp h with h | h
        · exact absurd h.symm hb
        · exact h
      simp [hb, ih h']

end CString

/-- `strcmp` on the characters of two strings: the difference at the first place
where they differ, the NUL counting as `0`. -/
def strcmpChars : List UInt8 → List UInt8 → ℤ
  | [], [] => 0
  | [], b :: _ => -b.toNat
  | a :: _, [] => a.toNat
  | a :: as, b :: bs => if a = b then strcmpChars as bs else (a.toNat : ℤ) - b.toNat

/-- `strcmp`. -/
def strcmp (s t : CString) : ℤ := strcmpChars s.chars t.chars

/-- `strncmp`: only the first `n` characters count. -/
def strncmp (s t : CString) (n : ℕ) : ℤ := strcmpChars (s.chars.take n) (t.chars.take n)

theorem strcmpChars_eq_zero_iff : ∀ {as bs : List UInt8}, 0 ∉ as → 0 ∉ bs →
    (strcmpChars as bs = 0 ↔ as = bs)
  | [], [], _, _ => by simp [strcmpChars]
  | [], b :: bs, _, hb => by
    have : b ≠ 0 := fun h => hb (h ▸ List.mem_cons_self)
    have : b.toNat ≠ 0 := fun h => this (UInt8.toNat_inj.mp h)
    simp [strcmpChars, this]
  | a :: as, [], ha, _ => by
    have : a ≠ 0 := fun h => ha (h ▸ List.mem_cons_self)
    have : a.toNat ≠ 0 := fun h => this (UInt8.toNat_inj.mp h)
    simp [strcmpChars, this]
  | a :: as, b :: bs, ha, hb => by
    have ih := strcmpChars_eq_zero_iff (fun h => ha (List.mem_cons_of_mem _ h))
      (fun h => hb (List.mem_cons_of_mem _ h))
    by_cases hab : a = b
    · simp [strcmpChars, hab, ih]
    · have : (a.toNat : ℤ) - b.toNat ≠ 0 := fun h => hab (UInt8.toNat_inj.mp (by omega))
      simp [strcmpChars, hab, this]

@[simp] theorem strcmp_eq_zero_iff {s t : CString} : strcmp s t = 0 ↔ s = t := by
  unfold strcmp
  rw [strcmpChars_eq_zero_iff s.noNul t.noNul, CString.ext_iff]

@[simp] theorem strncmp_eq_zero_iff {s t : CString} {n : ℕ} :
    strncmp s t n = 0 ↔ s.chars.take n = t.chars.take n :=
  strcmpChars_eq_zero_iff (fun h => s.noNul (List.mem_of_mem_take h)) fun h => t.noNul (List.mem_of_mem_take h)

end LibCfe
