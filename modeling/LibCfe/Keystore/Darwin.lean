import LibCfe.Keystore.CoreFoundation
import Mathlib.Algebra.Group.Pi.Basic
import Mathlib.Tactic.Abel

/-!
# The key store of Darwin

`src/keystore-darwin.c` keeps the keys in a dictionary of Core Foundation. A call makes
a string of the description, and `add_key` makes data of the payload; it gives back all
that it made, and `read_key` also what it has retained.

`ks_darwin_remove_key` logs that a string could not be made, as that of a description
that is not UTF-8, but then goes on with `NULL`.

## What is proved

`darwin_keystore_map` — in every state, a call returns, does what it should to the map of
keys and gives back every object, exactly when it is not a `remove_key` of a description
that cannot be made a string; and a sequence of calls returns exactly when none of them
is such a call, and has then done to the map what its return values say.
-/

namespace LibCfe

variable {σ Obj : Type} [DecidableEq Obj]

/-- Core Foundation, and the references to its objects that the library has made or taken
and not given back. -/
structure CfState (σ Obj : Type) where
  /-- Core Foundation. -/
  cf : σ
  /-- The references to each object. -/
  refs : Obj → ℤ

namespace CfState

variable (C : CoreFoundation σ Obj)

/-- One reference more to an object that was made. -/
def take (o : Option Obj) (cf : σ) (s : CfState σ Obj) : CfState σ Obj :=
  match o with
  | none => { s with cf }
  | some o => { cf, refs := s.refs + Pi.single o 1 }

/-- `CFStringCreateWithCString`. -/
def stringCreate (desc : CString) (s : CfState σ Obj) : Option Obj × CfState σ Obj :=
  let r := C.stringCreate s.cf desc
  (r.1, s.take r.1 r.2)

/-- `CFDataCreate`. -/
def dataCreate (payload : Bytes) (len : ℤ) (s : CfState σ Obj) : Option Obj × CfState σ Obj :=
  let r := C.dataCreate s.cf payload len
  (r.1, s.take r.1 r.2)

/-- `CFRetain`; it does not return when it is given `NULL`. -/
def retain (o : Option Obj) (s : CfState σ Obj) : Option (CfState σ Obj) :=
  o.map fun o => ⟨C.retain s.cf o, s.refs + Pi.single o 1⟩

/-- `CFRelease`, likewise. -/
def release (o : Option Obj) (s : CfState σ Obj) : Option (CfState σ Obj) :=
  o.map fun o => ⟨C.release s.cf o, s.refs - Pi.single o 1⟩

/-- `CFDictionaryRemoveValue`, likewise. -/
def dictRemoveValue (key : Option Obj) (s : CfState σ Obj) : Option (CfState σ Obj) :=
  key.map fun key => { s with cf := C.dictRemoveValue s.cf key }

/-- `CFDictionaryAddValue`, likewise. -/
def dictAddValue (key value : Option Obj) (s : CfState σ Obj) : Option (CfState σ Obj) :=
  match key, value with
  | some key, some value => some { s with cf := C.dictAddValue s.cf key value }
  | _, _ => none

/-- `CFDictionaryGetValue`, likewise. -/
def dictGetValue (key : Option Obj) (s : CfState σ Obj) : Option (Option Obj) :=
  key.map fun key => C.dictGetValue s.cf key

end CfState

/-! ### keystore-darwin.c -/

variable (C : CoreFoundation σ Obj)

/-- `ks_darwin_remove_key`. -/
def ksDarwinRemoveKey (desc : Option CString) (s : CfState σ Obj) : Option (CfState σ Obj) :=
  match desc with
  | none => some s
  | some desc => do
    -- that there is no string is only logged
    let (string, s) := s.stringCreate C desc
    let s ← s.dictRemoveValue C string
    s.release C string

/-- `ks_darwin_add_key`. -/
def ksDarwinAddKey (desc : Option CString) (payload : Option Bytes) (len : BitVec 64) (s : CfState σ Obj) :
    Option (KsAdd (CfState σ Obj)) :=
  match desc, payload with
  | some desc, some payload =>
    if len = 0 then some ⟨1, some EINVAL, s⟩
    else
      match s.stringCreate C desc with
      | (none, s) => some ⟨1, some ENOMEM, s⟩
      | (some string, s) =>
        match s.dataCreate C payload len.toInt with
        | (none, s) => do
          let s ← s.release C (some string)
          return ⟨1, some ENOMEM, s⟩
        | (some data, s) => do
          let s ← s.dictRemoveValue C (some string)
          let s ← s.dictAddValue C (some string) (some data)
          let s ← s.release C (some string)
          let s ← s.release C (some data)
          return ⟨0, none, s⟩
  | _, _ => some ⟨1, some EINVAL, s⟩

/-- `ks_darwin_read_key`. -/
def ksDarwinReadKey (desc : Option CString) (buffer : Option Bytes) (len : Option (BitVec 64)) (s : CfState σ Obj) :
    Option (KsRead (CfState σ Obj)) :=
  match desc, len with
  | some desc, some n =>
    match s.stringCreate C desc with
    | (none, s) => some { ret := 1, errno := some ENOMEM, store := s, len, buffer }
    | (some string, s) => do
      let data ← s.dictGetValue C (some string)
      let s ← if data.isSome then s.retain C data else some s
      let s ← s.release C (some string)
      match data with
      | none => return { ret := 1, errno := some ENOENT, store := s, len, buffer }
      | some data =>
        let _len := BitVec.ofInt 64 (C.dataGetLength data)
        if n < _len then do
          let s ← s.release C (some data)
          return { ret := 1, errno := some ENOSPC, store := s, len, buffer }
        else do
          let buffer := buffer.map (·.write (C.dataGetBytes data 0 _len.toInt))
          let s ← s.release C (some data)
          return { ret := 0, errno := none, store := s, len := some _len, buffer }
  | _, _ => some { ret := 1, errno := some EINVAL, store := s, len, buffer }

/-- `ks_darwin_ops`. -/
def ksDarwinOps : CfeKeystoreOps (CfState σ Obj) where
  removeKey := ksDarwinRemoveKey C
  addKey := ksDarwinAddKey C
  readKey := ksDarwinReadKey C

/-- `ks_darwin`. -/
def ksDarwin : CfeKeystoreType (CfState σ Obj) where
  ksOps := ksDarwinOps C

/-! ### What the calls do -/

/-- A length that is not negative as a `CFIndex` is that length. -/
theorem toInt_toNat {len : BitVec 64} (h : 0 ≤ len.toInt) : len.toInt.toNat = len.toNat := by
  have hlt := len.isLt
  rw [BitVec.toInt_eq_toNat_cond] at h ⊢
  split_ifs at h ⊢ <;> omega

/-- The length of data as a `size_t`. -/
theorem toNat_ofInt_length {n : ℕ} (h : n < 2 ^ 63) : (BitVec.ofInt 64 n).toNat = n := by
  rw [BitVec.toNat_ofInt]
  omega

/-- And back. -/
theorem toInt_ofInt_length {n : ℕ} (h : n < 2 ^ 63) : (BitVec.ofInt 64 n).toInt = n := by
  rw [BitVec.toInt_eq_toNat_cond, toNat_ofInt_length h]
  split_ifs <;> omega

/-- A `remove_key` whose description cannot be made a string. -/
def KsCall.Unbuildable (s : CfState σ Obj) : KsCall → Prop
  | remove (some desc) => (C.stringCreate s.cf desc).1 = none
  | _ => False

variable {C} (L : C.Documented)

/-- A call does what it should to the map of keys, and leaves the library with the
references that it had. -/
structure DarwinMeets (s : CfState σ Obj) (c : KsCall) (r : KsRead (CfState σ Obj)) : Prop where
  meets : c.Meets (fun d => (C.stringCreate s.cf d).1.isSome = true) (L.dict s.cf) (L.dict r.store.cf) r
  refs : r.store.refs = s.refs

/-- A description that can be made a string is removed. -/
theorem ksDarwinRemoveKey_returns {s : CfState σ Obj} {desc : CString} {string : Obj}
    (h : (C.stringCreate s.cf desc).1 = some string) :
    ∃ s', ksDarwinRemoveKey C (some desc) s = some s' ∧
      L.dict s'.cf = Function.update (L.dict s.cf) desc none ∧ s'.refs = s.refs := by
  simp only [ksDarwinRemoveKey, CfState.stringCreate, h, CfState.take, CfState.dictRemoveValue, CfState.release]
  refine ⟨_, rfl, ?_, ?_⟩
  · rw [L.release_dict, L.remove_dict _ _ desc (L.string_text _ _ _ h), L.string_dict]
  · simp

/-- Otherwise `NULL` is handed on. -/
theorem ksDarwinRemoveKey_stuck {s : CfState σ Obj} {desc : CString} (h : (C.stringCreate s.cf desc).1 = none) :
    ksDarwinRemoveKey C (some desc) s = none := by
  simp only [ksDarwinRemoveKey, CfState.stringCreate, h, CfState.take, CfState.dictRemoveValue]
  rfl

section

variable {s s' : CfState σ Obj} {e : Errno}

omit [DecidableEq Obj] in
/-- An `add_key` that fails has to leave the map and the references. -/
theorem DarwinMeets.add_failed {desc : Option CString} {payload : Option Bytes} {len : BitVec 64}
    (hdict : L.dict s'.cf = L.dict s.cf) (hrefs : s'.refs = s.refs) :
    DarwinMeets L s (.add desc payload len)
      { ret := 1, errno := some e, store := s', len := none, buffer := none } := by
  refine ⟨⟨?_, fun _ => hdict⟩, hrefs⟩
  intro h
  cases h

omit [DecidableEq Obj] in
/-- So has a `read_key`, and it has to fail for a reason: there is no key to be found, or
no room for it. -/
theorem DarwinMeets.read_failed {desc : Option CString} {buffer : Option Bytes} {len : Option (BitVec 64)}
    (hdict : L.dict s'.cf = L.dict s.cf) (hrefs : s'.refs = s.refs)
    (hreason : ∀ d n data, desc = some d → (C.stringCreate s.cf d).1.isSome = true → len = some n →
      L.dict s.cf d = some data → n.toNat < data.length) :
    DarwinMeets L s (.read desc buffer len) { ret := 1, errno := some e, store := s', len, buffer } := by
  refine ⟨⟨hdict, ⟨?_, ?_⟩, ?_, fun _ => ⟨rfl, rfl⟩⟩, hrefs⟩
  · intro h
    cases h
  · rintro ⟨d, n, data, hd, hable, hn, hdata, hle⟩
    exact absurd hle (not_le.mpr (hreason d n data hd hable hn hdata))
  · intro h
    cases h

end

/-- `add_key` replaces the key, and gives back the string and the data. -/
theorem ksDarwinAddKey_returns (desc : Option CString) (payload : Option Bytes) (len : BitVec 64) (s : CfState σ Obj) :
    ∃ r, ksDarwinAddKey C desc payload len s = some r ∧
      DarwinMeets L s (.add desc payload len) { r with len := none, buffer := none } := by
  cases desc with
  | none => exact ⟨_, rfl, .add_failed L rfl rfl⟩
  | some desc =>
    cases payload with
    | none => exact ⟨_, rfl, .add_failed L rfl rfl⟩
    | some payload =>
      by_cases hlen : len = 0
      · rw [hlen]
        exact ⟨_, rfl, .add_failed L rfl rfl⟩
      · simp only [ksDarwinAddKey, hlen, if_false, CfState.stringCreate]
        cases hstring : (C.stringCreate s.cf desc).1 with
        | none => exact ⟨_, rfl, .add_failed L (L.string_dict _ _) rfl⟩
        | some string =>
          simp only [CfState.take, CfState.dataCreate]
          cases hdata : (C.dataCreate (C.stringCreate s.cf desc).2 payload len.toInt).1 with
          | none =>
            refine ⟨_, rfl, .add_failed L ?_ ?_⟩
            · rw [L.release_dict, L.data_dict, L.string_dict]
            · simp
          | some data =>
            refine ⟨_, rfl, ⟨⟨?_, ?_⟩, ?_⟩⟩
            · intro _
              have htext := L.string_text _ _ _ hstring
              obtain ⟨hnonneg, hbytes⟩ := L.data_bytes _ _ _ _ hdata
              rw [toInt_toNat hnonneg] at hbytes
              refine ⟨desc, payload, rfl, rfl, hlen, ?_⟩
              have hremove :=
                L.remove_dict (C.dataCreate (C.stringCreate s.cf desc).2 payload len.toInt).2 string desc htext
              rw [L.release_dict, L.release_dict, L.add_dict _ _ _ desc _ htext hbytes, hremove, L.data_dict,
                L.string_dict, Function.update_idem]
              rw [hremove, Function.update_self]
            · intro h
              exact absurd rfl h
            · show s.refs + _ + _ - _ - _ = s.refs
              abel

/-- `read_key` of a description that cannot be made a string. -/
theorem ksDarwinReadKey_noString {s : CfState σ Obj} {desc : CString} (hstring : (C.stringCreate s.cf desc).1 = none)
    (buffer : Option Bytes) (n : BitVec 64) :
    ∃ r, ksDarwinReadKey C (some desc) buffer (some n) s = some r ∧
      DarwinMeets L s (.read (some desc) buffer (some n)) r := by
  simp only [ksDarwinReadKey, CfState.stringCreate, hstring, CfState.take]
  refine ⟨_, rfl, .read_failed L (L.string_dict _ _) rfl ?_⟩
  rintro d n' data ⟨⟩ hable
  rw [hstring] at hable
  cases hable

/-- Of one that is not bound. -/
theorem ksDarwinReadKey_notFound {s : CfState σ Obj} {desc : CString} {string : Obj}
    (hstring : (C.stringCreate s.cf desc).1 = some string)
    (hget : C.dictGetValue (C.stringCreate s.cf desc).2 string = none) (buffer : Option Bytes) (n : BitVec 64) :
    ∃ r, ksDarwinReadKey C (some desc) buffer (some n) s = some r ∧
      DarwinMeets L s (.read (some desc) buffer (some n)) r := by
  have hnone := L.get_none _ _ _ (L.string_text _ _ _ hstring) hget
  rw [L.string_dict] at hnone
  simp only [ksDarwinReadKey, CfState.stringCreate, hstring, CfState.take, CfState.dictGetValue, Option.map_some, hget]
  refine ⟨_, rfl, .read_failed L ?_ ?_ ?_⟩
  · rw [L.release_dict, L.string_dict]
  · simp
  · rintro d n' data ⟨⟩ _ _ hdata
    rw [hnone] at hdata
    cases hdata

/-- Of one that is: the data is retained while it is copied. -/
theorem ksDarwinReadKey_found {s : CfState σ Obj} {desc : CString} {string data : Obj}
    (hstring : (C.stringCreate s.cf desc).1 = some string)
    (hget : C.dictGetValue (C.stringCreate s.cf desc).2 string = some data) (buffer : Option Bytes) (n : BitVec 64) :
    ∃ r, ksDarwinReadKey C (some desc) buffer (some n) s = some r ∧
      DarwinMeets L s (.read (some desc) buffer (some n)) r := by
  obtain ⟨bytes, hbytes, hbound⟩ := L.get_some _ _ _ _ (L.string_text _ _ _ hstring) hget
  rw [L.string_dict] at hbound
  obtain ⟨hlength, hlt⟩ := L.length _ _ hbytes
  have hsize := toNat_ofInt_length hlt
  simp only [ksDarwinReadKey, CfState.stringCreate, hstring, CfState.take, CfState.dictGetValue, hget,
    Option.isSome_some, if_true, CfState.retain, CfState.release, Option.map_some, Option.bind_eq_bind,
    Option.bind_some, Option.pure_def, hlength]
  by_cases hshort : n < BitVec.ofInt 64 bytes.length
  · simp only [hshort, if_true]
    refine ⟨_, rfl, .read_failed L ?_ ?_ ?_⟩
    · rw [L.release_dict, L.release_dict, L.retain_dict, L.string_dict]
    · show s.refs + _ + _ - _ - _ = s.refs
      abel
    · rintro d n' data' ⟨⟩ _ ⟨⟩ hdata
      rw [hbound] at hdata
      obtain rfl := Option.some.inj hdata
      rw [← hsize]
      exact hshort
  · have hfits : bytes.length ≤ n.toNat := by
      rw [← hsize]
      exact not_lt.mp hshort
    have hcopied : C.dataGetBytes data 0 (BitVec.ofInt 64 bytes.length).toInt = bytes := by
      rw [toInt_ofInt_length hlt]
      exact L.getBytes _ _ hbytes
    simp only [hshort, if_false, hcopied]
    refine ⟨_, rfl, ⟨⟨?_, ⟨fun _ => ⟨desc, n, bytes, rfl, ?_, rfl, hbound, hfits⟩, fun _ => rfl⟩, ?_, ?_⟩, ?_⟩⟩
    · rw [L.release_dict, L.release_dict, L.retain_dict, L.string_dict]
    · simp only [hstring, Option.isSome_some]
    · rintro _ d data' ⟨⟩ hdata
      rw [hbound] at hdata
      obtain rfl := Option.some.inj hdata
      exact ⟨rfl, rfl⟩
    · intro h
      exact absurd rfl h
    · show s.refs + _ + _ - _ - _ = s.refs
      abel

/-- `read_key` leaves the map as it is, and gives back the string and the data. -/
theorem ksDarwinReadKey_returns (desc : Option CString) (buffer : Option Bytes) (len : Option (BitVec 64))
    (s : CfState σ Obj) :
    ∃ r, ksDarwinReadKey C desc buffer len s = some r ∧ DarwinMeets L s (.read desc buffer len) r := by
  cases desc with
  | none => exact ⟨_, rfl, .read_failed L rfl rfl (by simp)⟩
  | some desc =>
    cases len with
    | none => exact ⟨_, rfl, .read_failed L rfl rfl (by simp)⟩
    | some n =>
      cases hstring : (C.stringCreate s.cf desc).1 with
      | none => exact ksDarwinReadKey_noString L hstring buffer n
      | some string =>
        cases hget : C.dictGetValue (C.stringCreate s.cf desc).2 string with
        | none => exact ksDarwinReadKey_notFound L hstring hget buffer n
        | some data => exact ksDarwinReadKey_found L hstring hget buffer n

omit [DecidableEq Obj] in
/-- Which calls those are. -/
theorem KsCall.unbuildable_iff {s : CfState σ Obj} {c : KsCall} :
    c.Unbuildable C s ↔ ∃ desc, c = remove (some desc) ∧ (C.stringCreate s.cf desc).1 = none := by
  constructor
  · intro h
    match c, h with
    | remove (some desc), h => exact ⟨desc, rfl, h⟩
  · rintro ⟨desc, rfl, h⟩
    exact h

/-- They do not return. -/
theorem KsCall.Unbuildable.call_eq_none {s : CfState σ Obj} {c : KsCall} (h : c.Unbuildable C s) :
    c.call (ksDarwinOps C) s = none := by
  obtain ⟨desc, rfl, hstring⟩ := KsCall.unbuildable_iff.mp h
  simp only [KsCall.call, ksDarwinOps, ksDarwinRemoveKey_stuck hstring, Option.map_none]

/-- Every other call returns and does what it should. -/
theorem ksDarwin_call_meets (s : CfState σ Obj) (c : KsCall) (h : ¬c.Unbuildable C s) :
    ∃ r, c.call (ksDarwinOps C) s = some r ∧ DarwinMeets L s c r := by
  cases c with
  | add desc payload len =>
    obtain ⟨r, hr, hmeets⟩ := ksDarwinAddKey_returns L desc payload len s
    refine ⟨_, ?_, hmeets⟩
    simp only [KsCall.call, ksDarwinOps, hr, Option.map_some]
  | read desc buffer len => exact ksDarwinReadKey_returns L desc buffer len s
  | remove desc =>
    cases desc with
    | none => exact ⟨_, rfl, rfl, rfl⟩
    | some desc =>
      obtain ⟨string, hstring⟩ := Option.ne_none_iff_exists'.mp h
      obtain ⟨s', hs', hdict, hrefs⟩ := ksDarwinRemoveKey_returns L hstring
      refine ⟨{ ret := 0, errno := none, store := s', len := none, buffer := none }, ?_, ⟨?_, ?_⟩, hrefs⟩
      · simp only [KsCall.call, ksDarwinOps, hs', Option.map_some]
      · intro _
        exact hdict
      · intro hunable
        simp [hstring] at hunable

omit [DecidableEq Obj] in
/-- What such a call did to the map, as its return value tells. -/
theorem DarwinMeets.effect {s : CfState σ Obj} {c : KsCall} {r : KsRead (CfState σ Obj)} (h : DarwinMeets L s c r)
    (hc : ¬c.Unbuildable C s) : L.dict r.store.cf = c.effect (L.dict s.cf) r.ret := by
  have hmeets := h.meets
  cases c with
  | remove desc =>
    cases desc with
    | none => exact hmeets
    | some desc => exact hmeets.1 (Option.isSome_iff_ne_none.mpr hc)
  | add desc payload len =>
    by_cases hret : r.ret = 0
    · obtain ⟨d, p, rfl, rfl, -, hdict⟩ := hmeets.1 hret
      rw [hdict, KsCall.effect, if_pos hret]
    · rw [hmeets.2 hret]
      cases desc with
      | none => rfl
      | some desc =>
        cases payload with
        | none => rfl
        | some payload => exact (if_neg hret).symm
  | read desc buffer len => exact hmeets.1

/-! ### Sequences of calls -/

/-- No call in a sequence is a `remove_key` of a description that cannot be made a string
when it is called. -/
def AllBuildable (C : CoreFoundation σ Obj) (s : CfState σ Obj) : List KsCall → Prop
  | [] => True
  | c :: calls => ¬c.Unbuildable C s ∧ ∀ r, c.call (ksDarwinOps C) s = some r → AllBuildable C r.store calls

/-- Every call in a sequence returns and does what it should. -/
def RunMeets {C : CoreFoundation σ Obj} (L : C.Documented) (s : CfState σ Obj) : List KsCall → Prop
  | [] => True
  | c :: calls => ∃ r, c.call (ksDarwinOps C) s = some r ∧ DarwinMeets L s c r ∧ RunMeets L r.store calls

/-- The calls of a sequence do what they should as long as none hands on `NULL`. -/
theorem runMeets_iff (s : CfState σ Obj) (calls : List KsCall) : RunMeets L s calls ↔ AllBuildable C s calls := by
  induction calls generalizing s with
  | nil => exact iff_of_true trivial trivial
  | cons c calls ih =>
    by_cases hbad : c.Unbuildable C s
    · apply iff_of_false
      · rintro ⟨r, hr, -⟩
        rw [hbad.call_eq_none] at hr
        cases hr
      · exact fun h => h.1 hbad
    · obtain ⟨r, hr, hmeets⟩ := ksDarwin_call_meets L s c hbad
      simp only [RunMeets, AllBuildable, hr, Option.some.injEq, exists_eq_left', forall_eq', hbad, not_false_eq_true,
        hmeets, true_and]
      exact ih r.store

/-- What a sequence that returned did to the map, and that it gave back all it took. -/
theorem ksRun_effect {s s' : CfState σ Obj} {calls : List KsCall} {rets : List ℤ}
    (h : ksRun (ksDarwinOps C) s calls = some (rets, s')) :
    L.dict s'.cf = mapRun (L.dict s.cf) calls rets ∧ s'.refs = s.refs := by
  induction calls generalizing s rets with
  | nil =>
    cases h
    exact ⟨rfl, rfl⟩
  | cons c calls ih =>
    have hgood : ¬c.Unbuildable C s := by
      intro hbad
      simp only [ksRun, hbad.call_eq_none] at h
      cases h
    obtain ⟨r, hr, hmeets⟩ := ksDarwin_call_meets L s c hgood
    simp only [ksRun, hr, Option.map_eq_some_iff] at h
    obtain ⟨⟨rets', s''⟩, hrun, heq⟩ := h
    cases heq
    obtain ⟨hdict, hrefs⟩ := ih hrun
    rw [hmeets.effect L hgood] at hdict
    exact ⟨hdict, hrefs.trans hmeets.refs⟩

/-- **The key store of Darwin is a map**, whose calls give back every object they made or
retained, in every sequence of calls in which no `remove_key` is given a description that
cannot be made a string, and in no other. -/
theorem darwin_keystore_map {C : CoreFoundation σ Obj} (L : C.Documented) (s : CfState σ Obj) (calls : List KsCall) :
    (RunMeets L s calls ↔ AllBuildable C s calls) ∧
      ∀ rets s', ksRun (ksDarwinOps C) s calls = some (rets, s') →
        L.dict s'.cf = mapRun (L.dict s.cf) calls rets ∧ s'.refs = s.refs :=
  ⟨runMeets_iff L s calls, fun _ _ h => ksRun_effect L h⟩

/-- `"test1"`. -/
def test1 : CString := CString.ofMem [0x74, 0x65, 0x73, 0x74, 0x31]

/-- The test of `check_keystore.c`: a key is added, read, removed and read again. -/
theorem darwin_keystore_map_test :
    let s : CfState _ _ := ⟨fun _ => none, 0⟩
    let password : Bytes := fun i => if i < 4 then 0x41 else 0
    let calls := [.add (some test1) (some password) 5, .read (some test1) (some fun _ => 0) (some 10),
      .remove (some test1), .read (some test1) (some fun _ => 0) (some 10)]
    RunMeets cfAscii_documented s calls ∧
      ∃ s', ksRun (ksDarwinOps cfAscii) s calls = some ([0, 0, 0, 1], s') ∧
        cfAscii_documented.dict s'.cf = mapRun (cfAscii_documented.dict s.cf) calls [0, 0, 0, 1] ∧ s'.refs = 0 := by
  intro s password calls
  have hmap := darwin_keystore_map cfAscii_documented s calls
  have hremove : ∀ s', ¬(KsCall.remove (some test1)).Unbuildable cfAscii s' := by
    rintro s' ⟨⟩
  have hbuildable : AllBuildable cfAscii s calls :=
    ⟨id, fun _ _ => ⟨id, fun _ _ => ⟨hremove _, fun _ _ => ⟨id, fun _ _ => trivial⟩⟩⟩⟩
  refine ⟨hmap.1.mpr hbuildable, _, rfl, hmap.2 _ _ rfl⟩

/-- A description that is no string of Core Foundation is handed on as `NULL`. -/
theorem ksDarwinRemoveKey_null :
    ¬RunMeets cfAscii_documented ⟨fun _ => none, 0⟩ [.remove (some (CString.ofMem [0xff]))] := by
  rintro ⟨r, hr, -⟩
  cases hr

end LibCfe
