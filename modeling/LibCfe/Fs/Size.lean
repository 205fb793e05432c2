import LibCfe.Fs.Header
import LibCfe.Theory.Round

/-!
# The size of a header

`cfe_header_create` rounds the size asked for up to whole pages and passes it on to
the `alloc` of the type. The size is a `size_t`, but `normalize_headersize` takes and
returns an `uint32_t`: what does not fit in 32 bits is lost on the way in, and on
the way out when the last page below `2 ^ 32` is rounded up.
-/

namespace LibCfe

open Theory

variable {H W C : Type}

/-- The size that `cfe_header_create` passes to `alloc`. -/
def headerSize (pagesize size : BitVec 64) : BitVec 64 :=
  (normalizeHeadersize pagesize (size.setWidth 32)).setWidth 64

/-- `normalize_headersize` rounds up, in 32 bits. -/
theorem normalizeHeadersize_toNat {k : ℕ} (hk : k ≤ 31) (x : BitVec 32) :
    (normalizeHeadersize (BitVec.ofNat 64 (2 ^ k)) x).toNat = roundUp (2 ^ k) (max x.toNat 1) % 2 ^ 32 := by
  have hpow : 2 ^ k ≤ 2 ^ 31 := Nat.pow_le_pow_right (by omega) hk
  have hpos : 0 < 2 ^ k := Nat.two_pow_pos k
  unfold normalizeHeadersize
  by_cases hx : x = 0
  · subst hx
    have hone : roundUp (2 ^ k) (max (0 : BitVec 32).toNat 1) = 2 ^ k := by
      show (1 + (2 ^ k - 1)) / 2 ^ k * 2 ^ k = 2 ^ k
      rw [Nat.add_sub_cancel' hpos, Nat.div_self hpos, Nat.one_mul]
    rw [if_neg (by simp), hone, BitVec.toNat_setWidth, BitVec.toNat_ofNat]
    omega
  · have hlt := x.isLt
    have hx1 : x.toNat ≠ 0 := fun h => hx (BitVec.eq_of_toNat_eq h)
    have hwide : (x.setWidth 64).toNat = x.toNat := by
      rw [BitVec.toNat_setWidth]
      exact Nat.mod_eq_of_lt (by omega)
    rw [if_pos hx, BitVec.toNat_setWidth, toNat_add_and_not_mask (by omega) (by omega), hwide,
      max_eq_left (by omega)]

/-- The size passed on is right just when a whole number of pages below `2 ^ 32` is enough. -/
theorem headerSize_isLeast_iff {k : ℕ} (hk : k ≤ 31) (size : BitVec 64) :
    IsLeast {m | 0 < m ∧ 2 ^ k ∣ m ∧ size.toNat ≤ m} (headerSize (BitVec.ofNat 64 (2 ^ k)) size).toNat ↔
      size.toNat + 2 ^ k ≤ 2 ^ 32 := by
  have hpow : 2 ^ k ∣ 2 ^ 32 := Nat.pow_dvd_pow 2 (by omega)
  have hpos : 0 < 2 ^ k := Nat.two_pow_pos k
  have hval : (headerSize (BitVec.ofNat 64 (2 ^ k)) size).toNat =
      roundUp (2 ^ k) (max (size.toNat % 2 ^ 32) 1) % 2 ^ 32 := by
    rw [headerSize, BitVec.toNat_setWidth, normalizeHeadersize_toNat hk, BitVec.toNat_setWidth]
    omega
  have hleast := roundUp_max_isLeast hpos size.toNat
  constructor
  · intro h
    have heq := h.unique hleast
    -- a multiple below `2 ^ 32` is at least one page below it
    have hlt : roundUp (2 ^ k) (max size.toNat 1) < 2 ^ 32 := by
      rw [← heq, hval]
      exact Nat.mod_lt _ (by omega)
    obtain ⟨c, hc⟩ := dvd_roundUp (2 ^ k) (max size.toNat 1)
    obtain ⟨d, hd⟩ := hpow
    have hcd : c < d := by
      rw [hc, hd] at hlt
      exact Nat.lt_of_mul_lt_mul_left hlt
    have hle : 2 ^ k * (c + 1) ≤ 2 ^ k * d := Nat.mul_le_mul_left _ hcd
    have hsize := le_roundUp hpos (max size.toNat 1)
    rw [Nat.mul_add, Nat.mul_one, ← hc, ← hd] at hle
    omega
  · intro h
    have hle : 2 ^ k ≤ 2 ^ 31 := Nat.pow_le_pow_right (by omega) hk
    have hup : roundUp (2 ^ k) (max size.toNat 1) ≤ 2 ^ 32 - 2 ^ k :=
      roundUp_le hpos (Nat.dvd_sub hpow (Nat.dvd_refl (2 ^ k))) (by omega)
    have hmod : size.toNat % 2 ^ 32 = size.toNat := Nat.mod_eq_of_lt (by omega)
    rw [hval, hmod, Nat.mod_eq_of_lt (by omega)]
    exact hleast

variable [DecidableEq H]

/-- The end of `cfe_header_create`, given what `alloc` has left. -/
def afterAlloc (type : H) (r : Option (NewHeader H W C) × World H W C) : Option (CfeHeader H W C) × World H W C :=
  match r with
  | (none, s) => (none, { s with headers := s.headers.dec type })
  | (some header, s) => (some { header with type }, s)

/-- What `cfe_header_create` does once it has found a type that has its `alloc`. -/
theorem cfeHeaderCreate_eq {types : H → CfeHeaderType (HeaderAlloc H W C)} {env : Env} {version : BitVec 32}
    {s : World H W C} {type : H} {alloc : HeaderAlloc H W C}
    (hlookup : formatLookup (fun t => (types t).version) version s.headers = some type)
    (halloc : (types type).alloc = some alloc) (fd : ℤ) (size : BitVec 64) :
    cfeHeaderCreate types env version fd size s = some (afterAlloc type
      (alloc.alloc env fd (headerSize env.pagesize size) { s with headers := s.headers.inc type })) := by
  simp only [cfeHeaderCreate, hlookup, halloc]
  change _ = some (afterAlloc type (alloc.alloc env fd
    ((normalizeHeadersize env.pagesize (size.setWidth 32)).setWidth 64) { s with headers := s.headers.inc type }))
  generalize alloc.alloc env fd ((normalizeHeadersize env.pagesize (size.setWidth 32)).setWidth 64)
    { s with headers := s.headers.inc type } = r
  obtain ⟨header, s'⟩ := r
  cases header with
  | none => rfl
  | some header => rfl

/-- **The size of a header is rounded up to pages** exactly when a whole number of pages
below `2 ^ 32` is enough: then `cfe_header_create` passes the least positive multiple
of the page size that is at least the size asked for. -/
theorem cfeHeaderCreate_size {k : ℕ} (hk : k ≤ 31) (size : BitVec 64) :
    (IsLeast {m | 0 < m ∧ 2 ^ k ∣ m ∧ size.toNat ≤ m} (headerSize (BitVec.ofNat 64 (2 ^ k)) size).toNat ↔
      size.toNat + 2 ^ k ≤ 2 ^ 32) ∧
    ∀ (types : H → CfeHeaderType (HeaderAlloc H W C)) (env : Env) (version : BitVec 32) (fd : ℤ)
      (s : World H W C) (type : H) (alloc : HeaderAlloc H W C), env.pageshift = k →
      formatLookup (fun t => (types t).version) version s.headers = some type → (types type).alloc = some alloc →
      cfeHeaderCreate types env version fd size s = some (afterAlloc type
        (alloc.alloc env fd (headerSize (BitVec.ofNat 64 (2 ^ k)) size) { s with headers := s.headers.inc type })) := by
  constructor
  · exact headerSize_isLeast_iff hk size
  · rintro types env version fd s type alloc rfl hlookup halloc
    exact cfeHeaderCreate_eq hlookup halloc fd size

/-- Pages of 4096 bytes: 5000 bytes need two of them. -/
theorem cfeHeaderCreate_size_two_pages :
    IsLeast {m | 0 < m ∧ 2 ^ 12 ∣ m ∧ (5000 : BitVec 64).toNat ≤ m} (headerSize (BitVec.ofNat 64 (2 ^ 12)) 5000).toNat :=
  (cfeHeaderCreate_size (H := Unit) (W := Unit) (C := Unit) (k := 12) (by decide) 5000).1.mpr (by decide)

/-- Of four gigabytes asked for, one page is left. -/
theorem headerSize_lost : (headerSize (BitVec.ofNat 64 (2 ^ 12)) 0x100000000).toNat = 4096 ∧
    ¬IsLeast {m | 0 < m ∧ 2 ^ 12 ∣ m ∧ (0x100000000 : BitVec 64).toNat ≤ m}
      (headerSize (BitVec.ofNat 64 (2 ^ 12)) 0x100000000).toNat := by
  have hval : (headerSize (BitVec.ofNat 64 (2 ^ 12)) 0x100000000).toNat = 4096 := by decide
  refine ⟨hval, ?_⟩
  intro h
  have hle := h.1.2.2
  rw [hval] at hle
  exact absurd hle (by decide)

end LibCfe
