import LibCfe.Keystore.Darwin
import LibCfe.Theory.Ownership
import LibCfe.Theory.Pieces
import Mathlib.Algebra.BigOperators.Pi
import Mathlib.Algebra.Order.BigOperators.Group.Finset
import Mathlib.Algebra.Order.Ring.Int

/-!
# Threads that share the key store of Darwin

The back end takes its lock only around what it does to the dictionary: strings and data
are made before, and given back after, while other threads work on the dictionary.
`KsPc` is where a call is, with its local variables, and `ksNext` its next piece: each
call of Core Foundation outside of the lock, and each locked section.

A `remove_key` whose string could not be made hands on `NULL`, and there is no next piece.

## What is proved

* `darwin_keystore_linearizable` — every history of calls and returns is one of an atomic
  map, whose calls, in the order in which they are served, come to the map of keys.
* `darwin_keystore_references` — in every state the references that the library has taken
  and not given back are those of the calls in progress, and each object that a call is
  about to use is among them; when there is no call in progress there are none.
* `ksPieces_returns` — every call returns, unless it hands on `NULL`.
* `ksDarwin_uninterrupted` — a call that no other thread interrupts is the one of
  `LibCfe.Keystore.Darwin`.
-/

namespace LibCfe

open Theory

variable {Tid σ Obj : Type}

/-! ### The atomic map -/

/-- What a call returns that stores `errno`. -/
def ksFailed (e : Errno) (len : Option (BitVec 64)) (buffer : Option Bytes) : KsRead Unit :=
  { ret := 1, errno := some e, store := (), len, buffer }

/-- What a call returns that succeeds. -/
def ksOk (len : Option (BitVec 64)) (buffer : Option Bytes) : KsRead Unit :=
  { ret := 0, errno := none, store := (), len, buffer }

/-- What a call may do to the map of keys at one instant. A string or data can always
turn out to be impossible to make. -/
inductive KsAtomic (m : KeyMap) : KsCall → KeyMap → KsRead Unit → Prop where
  /-- There is no description. -/
  | removeNull : KsAtomic m (.remove none) m (ksOk none none)
  /-- A key is removed, if there is one. -/
  | remove (desc : CString) : KsAtomic m (.remove (some desc)) (Function.update m desc none) (ksOk none none)
  /-- An argument is missing. -/
  | addInvalid (desc : Option CString) (payload : Option Bytes) (len : BitVec 64)
      (h : desc = none ∨ payload = none ∨ len = 0) : KsAtomic m (.add desc payload len) m (ksFailed EINVAL none none)
  /-- There is no memory. -/
  | addNoMemory (desc : CString) (payload : Bytes) (len : BitVec 64) (hlen : len ≠ 0) :
      KsAtomic m (.add (some desc) (some payload) len) m (ksFailed ENOMEM none none)
  /-- A key is added or replaced. -/
  | added (desc : CString) (payload : Bytes) (len : BitVec 64) (hlen : len ≠ 0) :
      KsAtomic m (.add (some desc) (some payload) len) (Function.update m desc (some (payload.read len.toNat)))
        (ksOk none none)
  /-- An argument is missing. -/
  | readInvalid (desc : Option CString) (buffer : Option Bytes) (len : Option (BitVec 64))
      (h : desc = none ∨ len = none) : KsAtomic m (.read desc buffer len) m (ksFailed EINVAL len buffer)
  /-- There is no memory. -/
  | readNoMemory (desc : CString) (buffer : Option Bytes) (n : BitVec 64) :
      KsAtomic m (.read (some desc) buffer (some n)) m (ksFailed ENOMEM (some n) buffer)
  /-- There is no such key. -/
  | readNone (desc : CString) (buffer : Option Bytes) (n : BitVec 64) (h : m desc = none) :
      KsAtomic m (.read (some desc) buffer (some n)) m (ksFailed ENOENT (some n) buffer)
  /-- There is no room for it. -/
  | readShort (desc : CString) (buffer : Option Bytes) (n : BitVec 64) (data : List UInt8) (h : m desc = some data)
      (hshort : n.toNat < data.length) :
      KsAtomic m (.read (some desc) buffer (some n)) m (ksFailed ENOSPC (some n) buffer)
  /-- It is read. -/
  | read (desc : CString) (buffer : Option Bytes) (n : BitVec 64) (data : List UInt8) (h : m desc = some data)
      (hfits : data.length ≤ n.toNat) :
      KsAtomic m (.read (some desc) buffer (some n)) m
        (ksOk (some (BitVec.ofNat 64 data.length)) (buffer.map (·.write data)))

/-- The map after an atomic call is what its return value tells. -/
theorem KsAtomic.effect {m m' : KeyMap} {c : KsCall} {r : KsRead Unit} (h : KsAtomic m c m' r) :
    m' = c.effect m r.ret := by
  cases h with
  | removeNull => rfl
  | remove desc => rfl
  | addInvalid desc payload len h =>
    cases desc with
    | none => rfl
    | some desc =>
      cases payload with
      | none => rfl
      | some payload => rfl
  | addNoMemory desc payload len hlen => rfl
  | added desc payload len hlen => rfl
  | readInvalid desc buffer len h => rfl
  | readNoMemory desc buffer n => rfl
  | readNone desc buffer n h => rfl
  | readShort desc buffer n data h hshort => rfl
  | read desc buffer n data h hfits => rfl

/-- One more call. -/
theorem mapRun_snoc (log : List (KsCall × KsRead Unit)) (m : KeyMap) (c : KsCall) (r : KsRead Unit) :
    mapRun m ((log ++ [(c, r)]).map (·.1)) ((log ++ [(c, r)]).map (·.2.ret)) =
      c.effect (mapRun m (log.map (·.1)) (log.map (·.2.ret))) r.ret := by
  induction log generalizing m with
  | nil => rfl
  | cons x log ih => exact ih _

/-- Calls that were served one after the other have done to the map what their return
values tell, when each of them has. -/
theorem Theory.Serial.mapRun_of_effect {spec : KeyMap → KsCall → KeyMap → KsRead Unit → Prop}
    (hspec : ∀ {m c m' r}, spec m c m' r → m' = c.effect m r.ret) {m m' : KeyMap}
    {log : List (KsCall × KsRead Unit)} (h : Serial spec m log m') :
    m' = LibCfe.mapRun m (log.map (·.1)) (log.map (·.2.ret)) := by
  induction h with
  | nil => rfl
  | snoc _ hserved ih =>
    rw [mapRun_snoc, ← ih]
    exact hspec hserved

/-- So it is for the atomic map. -/
theorem Theory.Serial.mapRun {m m' : KeyMap} {log : List (KsCall × KsRead Unit)} (h : Serial KsAtomic m log m') :
    m' = LibCfe.mapRun m (log.map (·.1)) (log.map (·.2.ret)) :=
  h.mapRun_of_effect KsAtomic.effect

/-! ### keystore-darwin.c, in pieces -/

/-- Where a call is. -/
inductive KsPc (Obj : Type) where
  /-- At its start. -/
  | start (c : KsCall)
  /-- `remove_key`, before its locked section. -/
  | removeLocked (desc : CString) (string : Option Obj)
  /-- Before it gives back the string. -/
  | removeRelease (string : Option Obj)
  /-- `add_key`, before it makes the data. -/
  | addData (desc : CString) (payload : Bytes) (len : BitVec 64) (string : Obj)
  /-- There is none; before it gives back the string. -/
  | addNoData (string : Obj)
  /-- Before its locked section. -/
  | addLocked (desc : CString) (payload : Bytes) (len : BitVec 64) (string data : Obj)
  /-- Before it gives back the string. -/
  | addRelease (string data : Obj)
  /-- Before it gives back the data. -/
  | addReleaseData (data : Obj)
  /-- `read_key`, before its locked section. -/
  | readLocked (desc : CString) (buffer : Option Bytes) (n : BitVec 64) (string : Obj)
  /-- Before it gives back the string. -/
  | readRelease (buffer : Option Bytes) (n : BitVec 64) (string : Obj) (data : Option Obj)
  /-- Before it copies the data and gives it back. -/
  | readCopy (buffer : Option Bytes) (n : BitVec 64) (data : Obj)
  /-- Before it returns this. -/
  | done (r : KsRead Unit)

variable (C : CoreFoundation σ Obj)

/-- What `read_key` returns for the data it has found. -/
def ksReadResult (buffer : Option Bytes) (n : BitVec 64) : Option Obj → KsRead Unit
  | none => ksFailed ENOENT (some n) buffer
  | some data =>
    let _len := BitVec.ofInt 64 (C.dataGetLength data)
    if n < _len then ksFailed ENOSPC (some n) buffer
    else ksOk (some _len) (buffer.map (·.write (C.dataGetBytes data 0 _len.toInt)))

variable [DecidableEq Obj]

/-- The next piece of a call. There is none when it hands on `NULL`. -/
def ksNext : KsPc Obj → CfState σ Obj → Option (KsPc Obj × CfState σ Obj)
  | .start (.remove none), s => some (.done (ksOk none none), s)
  | .start (.remove (some desc)), s =>
    let (string, s) := s.stringCreate C desc
    some (.removeLocked desc string, s)
  | .removeLocked _ string, s => (s.dictRemoveValue C string).map fun s => (.removeRelease string, s)
  | .removeRelease string, s => (s.release C string).map fun s => (.done (ksOk none none), s)
  | .start (.add desc payload len), s =>
    match desc, payload with
    | some desc, some payload =>
      if len = 0 then some (.done (ksFailed EINVAL none none), s)
      else
        match s.stringCreate C desc with
        | (none, s) => some (.done (ksFailed ENOMEM none none), s)
        | (some string, s) => some (.addData desc payload len string, s)
    | _, _ => some (.done (ksFailed EINVAL none none), s)
  | .addData desc payload len string, s =>
    match s.dataCreate C payload len.toInt with
    | (none, s) => some (.addNoData string, s)
    | (some data, s) => some (.addLocked desc payload len string data, s)
  | .addNoData string, s => (s.release C (some string)).map fun s => (.done (ksFailed ENOMEM none none), s)
  | .addLocked _ _ _ string data, s => do
    let s ← s.dictRemoveValue C (some string)
    let s ← s.dictAddValue C (some string) (some data)
    return (.addRelease string data, s)
  | .addRelease string data, s => (s.release C (some string)).map fun s => (.addReleaseData data, s)
  | .addReleaseData data, s => (s.release C (some data)).map fun s => (.done (ksOk none none), s)
  | .start (.read desc buffer len), s =>
    match desc, len with
    | some desc, some n =>
      match s.stringCreate C desc with
      | (none, s) => some (.done (ksFailed ENOMEM (some n) buffer), s)
      | (some string, s) => some (.readLocked desc buffer n string, s)
    | _, _ => some (.done (ksFailed EINVAL len buffer), s)
  | .readLocked _ buffer n string, s => do
    let data ← s.dictGetValue C (some string)
    let s ← if data.isSome then s.retain C data else some s
    return (.readRelease buffer n string data, s)
  | .readRelease buffer n string none, s =>
    (s.release C (some string)).map fun s => (.done (ksReadResult C buffer n none), s)
  | .readRelease buffer n string (some data), s =>
    (s.release C (some string)).map fun s => (.readCopy buffer n data, s)
  | .readCopy buffer n data, s =>
    (s.release C (some data)).map fun s => (.done (ksReadResult C buffer n (some data)), s)
  | .done _, _ => none

/-- What a call returns that is at its end. -/
def KsPc.ret : KsPc Obj → Option (KsRead Unit)
  | .done r => some r
  | _ => none

/-- The pieces of the calls. -/
def ksPieces : Pieces (CfState σ Obj) (KsPc Obj) KsCall (KsRead Unit) where
  start := .start
  next := ksNext C
  ret := KsPc.ret
  next_ret {pc _ _} h := by
    cases pc with
    | done r => rfl
    | _ => cases h

/-- Threads and the key store they share: Core Foundation, and the references to its objects. -/
abbrev KsProcess (Tid σ Obj : Type) := Pieces.State Tid (CfState σ Obj) (KsPc Obj) KsCall (KsRead Unit)

variable [DecidableEq Tid]

/-- A dictionary, and no calls. -/
def ksSystem (Tid : Type) [DecidableEq Tid] (cf : σ) : System (KsProcess Tid σ Obj) (Tid × Turn KsCall) :=
  (ksPieces C).system Tid ⟨cf, 0⟩

/-! ### Each call is served at one of its pieces -/

/-- How far a call has come: `add_key` and `remove_key` are served in their locked sections
and `read_key` in its own, unless they fail before. -/
def KsPc.status : KsPc Obj → Status KsCall (KsRead Unit)
  | .start c => .called c
  | .removeLocked desc _ => .called (.remove (some desc))
  | .removeRelease _ => .served (ksOk none none)
  | .addData desc payload len _ | .addLocked desc payload len _ _ => .called (.add (some desc) (some payload) len)
  | .addNoData _ => .served (ksFailed ENOMEM none none)
  | .addRelease _ _ | .addReleaseData _ => .served (ksOk none none)
  | .readLocked desc buffer n _ => .called (.read (some desc) buffer (some n))
  | .readRelease buffer n _ data => .served (ksReadResult C buffer n data)
  | .readCopy buffer n data => .served (ksReadResult C buffer n (some data))
  | .done r => .served r

variable {C} (L : C.Documented)

/-- The objects of a call were made from its arguments. -/
def KsPc.Valid : KsPc Obj → Prop
  | .removeLocked desc string => ∀ o, string = some o → L.text o = some desc
  | .addData desc _ len string => len ≠ 0 ∧ L.text string = some desc
  | .addLocked desc payload len string data =>
    len ≠ 0 ∧ L.text string = some desc ∧ L.bytes data = some (payload.read len.toNat)
  | .readLocked desc _ _ string => L.text string = some desc
  | _ => True

/-- All that a piece of a call does to the map of keys: nothing that can be seen, or the call
is served. -/
structure KsServes (pc pc' : KsPc Obj) (s s' : CfState σ Obj) : Prop where
  valid : pc'.Valid L
  serves : (pc.status C).Serves KsAtomic (L.dict s.cf) (L.dict s'.cf) (pc'.status C)

section

variable {s s' : CfState σ Obj} {o : Option Obj}

/-- `CFStringCreateWithCString`. -/
theorem CfState.stringCreate_spec {desc : CString} (h : s.stringCreate C desc = (o, s')) :
    (∀ x, o = some x → L.text x = some desc) ∧ L.dict s'.cf = L.dict s.cf := by
  obtain ⟨rfl, rfl⟩ := Prod.mk.inj h
  refine ⟨fun x hx => L.string_text _ _ _ hx, ?_⟩
  cases ho : (C.stringCreate s.cf desc).1 with
  | none => exact L.string_dict _ _
  | some x => exact L.string_dict _ _

/-- `CFDataCreate`. -/
theorem CfState.dataCreate_spec {payload : Bytes} {len : BitVec 64} (h : s.dataCreate C payload len.toInt = (o, s')) :
    (∀ x, o = some x → L.bytes x = some (payload.read len.toNat)) ∧ L.dict s'.cf = L.dict s.cf := by
  obtain ⟨rfl, rfl⟩ := Prod.mk.inj h
  constructor
  · intro x hx
    obtain ⟨hnonneg, hbytes⟩ := L.data_bytes _ _ _ _ hx
    rw [toInt_toNat hnonneg] at hbytes
    exact hbytes
  · cases ho : (C.dataCreate s.cf payload len.toInt).1 with
    | none => exact L.data_dict _ _ _
    | some x => exact L.data_dict _ _ _

/-- `CFRelease`, in a piece that does nothing else. -/
theorem CfState.release_spec {pc pc' : KsPc Obj} (h : (s.release C o).map (fun s => (pc, s)) = some (pc', s')) :
    pc' = pc ∧ L.dict s'.cf = L.dict s.cf := by
  obtain ⟨t, ht, heq⟩ := Option.map_eq_some_iff.mp h
  obtain ⟨x, rfl, rfl⟩ := Option.map_eq_some_iff.mp ht
  cases heq
  exact ⟨rfl, L.release_dict _ _⟩

end

section

variable {L} {pc pc' : KsPc Obj} {s s' : CfState σ Obj}

omit [DecidableEq Obj] in
/-- Giving something back cannot be seen. -/
theorem KsServes.unseen (hvalid : pc'.Valid L) (hstatus : pc'.status C = pc.status C)
    (hdict : L.dict s'.cf = L.dict s.cf) : KsServes L pc pc' s s' :=
  ⟨hvalid, .inl ⟨hstatus, hdict⟩⟩

omit [DecidableEq Obj] in
/-- The call is served. -/
theorem KsServes.served {c : KsCall} {r : KsRead Unit} {m : KeyMap} (hvalid : pc'.Valid L)
    (hcalled : pc.status C = .called c) (hserved : pc'.status C = .served r) (hdict : L.dict s'.cf = m)
    (hatomic : KsAtomic (L.dict s.cf) c m r) : KsServes L pc pc' s s' :=
  ⟨hvalid, .inr ⟨c, r, hcalled, hserved, hdict ▸ hatomic⟩⟩

omit [DecidableEq Obj] in
/-- What `read_key` returns is what an atomic read of the dictionary returns. -/
theorem ksReadResult_atomic (cf : σ) {desc : CString} {string : Obj} (htext : L.text string = some desc)
    (buffer : Option Bytes) (n : BitVec 64) :
    KsAtomic (L.dict cf) (.read (some desc) buffer (some n)) (L.dict cf)
      (ksReadResult C buffer n (C.dictGetValue cf string)) := by
  cases hget : C.dictGetValue cf string with
  | none => exact .readNone desc buffer n (L.get_none _ _ _ htext hget)
  | some data =>
    obtain ⟨bytes, hbytes, hbound⟩ := L.get_some _ _ _ _ htext hget
    obtain ⟨hlength, hlt⟩ := L.length _ _ hbytes
    have hsize := toNat_ofInt_length hlt
    simp only [ksReadResult, hlength]
    split_ifs with hshort
    · refine .readShort desc buffer n bytes hbound ?_
      rw [← hsize]
      exact hshort
    · rw [toInt_ofInt_length hlt, L.getBytes _ _ hbytes, BitVec.ofInt_natCast]
      refine .read desc buffer n bytes hbound ?_
      rw [← hsize]
      exact not_lt.mp hshort

/-- **What each piece of a call does to the map.** -/
theorem ksNext_serves (h : ksNext C pc s = some (pc', s')) (hv : pc.Valid L) : KsServes L pc pc' s s' := by
  cases pc with
  | done r => cases h
  | start c =>
    cases c with
    | remove desc =>
      cases desc with
      | none =>
        cases h
        exact .served trivial rfl rfl rfl .removeNull
      | some desc =>
        cases h
        obtain ⟨htext, hdict⟩ := CfState.stringCreate_spec L (s := s) (C := C) rfl
        exact .unseen htext rfl hdict
    | add desc payload len =>
      simp only [ksNext] at h
      split at h
      · next desc payload =>
        split_ifs at h with hlen
        · cases h
          exact .served trivial rfl rfl rfl (.addInvalid _ _ _ (.inr (.inr hlen)))
        · split at h
          · next t hstring =>
            cases h
            exact .served trivial rfl rfl (CfState.stringCreate_spec L hstring).2 (.addNoMemory desc payload len hlen)
          · next string t hstring =>
            cases h
            obtain ⟨htext, hdict⟩ := CfState.stringCreate_spec L hstring
            exact .unseen ⟨hlen, htext _ rfl⟩ rfl hdict
      · next hnot =>
        cases h
        refine .served trivial rfl rfl rfl (.addInvalid _ _ _ ?_)
        cases desc with
        | none => exact .inl rfl
        | some desc =>
          cases payload with
          | none => exact .inr (.inl rfl)
          | some payload => exact absurd rfl (hnot desc payload rfl)
    | read desc buffer len =>
      simp only [ksNext] at h
      split at h
      · next desc n =>
        split at h
        · next t hstring =>
          cases h
          exact .served trivial rfl rfl (CfState.stringCreate_spec L hstring).2 (.readNoMemory desc buffer n)
        · next string t hstring =>
          cases h
          obtain ⟨htext, hdict⟩ := CfState.stringCreate_spec L hstring
          exact .unseen (htext _ rfl) rfl hdict
      · next hnot =>
        cases h
        refine .served trivial rfl rfl rfl (.readInvalid _ _ _ ?_)
        cases desc with
        | none => exact .inl rfl
        | some desc =>
          cases len with
          | none => exact .inr rfl
          | some n => exact absurd rfl (hnot desc n rfl)
  | removeLocked desc string =>
    obtain ⟨t, ht, heq⟩ := Option.map_eq_some_iff.mp h
    cases heq
    obtain ⟨key, rfl, rfl⟩ := Option.map_eq_some_iff.mp ht
    exact .served trivial rfl rfl (L.remove_dict _ _ _ (hv key rfl)) (.remove desc)
  | removeRelease string =>
    simp only [ksNext] at h
    obtain ⟨rfl, hdict⟩ := CfState.release_spec L h
    exact .unseen trivial rfl hdict
  | addData desc payload len string =>
    simp only [ksNext] at h
    split at h
    · next t hdata =>
      cases h
      exact .served trivial rfl rfl (CfState.dataCreate_spec L hdata).2 (.addNoMemory desc payload len hv.1)
    · next data t hdata =>
      cases h
      obtain ⟨hbytes, hdict⟩ := CfState.dataCreate_spec L hdata
      exact .unseen ⟨hv.1, hv.2, hbytes _ rfl⟩ rfl hdict
  | addNoData string =>
    simp only [ksNext] at h
    obtain ⟨rfl, hdict⟩ := CfState.release_spec L h
    exact .unseen trivial rfl hdict
  | addLocked desc payload len string data =>
    cases h
    obtain ⟨hlen, htext, hbytes⟩ := hv
    -- the key is absent once it was removed, so the new entry is added
    have hremove := L.remove_dict s.cf string desc htext
    have hdict : L.dict (C.dictAddValue (C.dictRemoveValue s.cf string) string data) =
        Function.update (L.dict s.cf) desc (some (payload.read len.toNat)) := by
      rw [L.add_dict _ _ _ desc _ htext hbytes, hremove, Function.update_idem]
      rw [hremove, Function.update_self]
    exact .served trivial rfl rfl hdict (.added desc payload len hlen)
  | addRelease string data =>
    simp only [ksNext] at h
    obtain ⟨rfl, hdict⟩ := CfState.release_spec L h
    exact .unseen trivial rfl hdict
  | addReleaseData data =>
    simp only [ksNext] at h
    obtain ⟨rfl, hdict⟩ := CfState.release_spec L h
    exact .unseen trivial rfl hdict
  | readLocked desc buffer n string =>
    have hatomic := ksReadResult_atomic s.cf hv buffer n
    simp only [ksNext, CfState.dictGetValue, Option.map_some, Option.bind_eq_bind, Option.bind_some] at h
    cases hget : C.dictGetValue s.cf string with
    | none =>
      rw [hget] at h hatomic
      cases h
      exact .served trivial rfl rfl rfl hatomic
    | some data =>
      rw [hget] at h hatomic
      cases h
      exact .served trivial rfl rfl (L.retain_dict _ _) hatomic
  | readRelease buffer n string data =>
    cases data with
    | none =>
      simp only [ksNext] at h
      obtain ⟨rfl, hdict⟩ := CfState.release_spec L h
      exact .unseen trivial rfl hdict
    | some data =>
      simp only [ksNext] at h
      obtain ⟨rfl, hdict⟩ := CfState.release_spec L h
      exact .unseen trivial rfl hdict
  | readCopy buffer n data =>
    simp only [ksNext] at h
    obtain ⟨rfl, hdict⟩ := CfState.release_spec L h
    exact .unseen trivial rfl hdict

end

/-! ### The map -/

/-- **The pieces serve the calls of an atomic map.** -/
theorem ksPieces_serves :
    (ksPieces C).Serves KsAtomic (fun s => L.dict s.cf) (fun _ pc => pc.status C) (fun _ pc => pc.Valid L) where
  start _ _ := ⟨trivial, rfl⟩
  ret s pc r h := by
    cases pc with
    | done r' =>
      cases h
      rfl
    | _ => cases h
  own hv h := by
    obtain ⟨hvalid, hserves⟩ := ksNext_serves h hv
    exact ⟨hvalid, hserves⟩
  others _ _ hother := ⟨hother, .same _ _⟩

/-- **The key store is linearizable.** Whatever the threads do, in any order of the pieces of
their calls, the calls and returns so far are a history of an atomic map of keys, in which each
call is served at one instant between its call and its return; and the dictionary is what the
calls served, one after the other, make of the one at the start. -/
theorem darwin_keystore_linearizable {C : CoreFoundation σ Obj} (L : C.Documented) {cf : σ}
    {s : KsProcess Tid σ Obj} (h : (ksSystem C Tid cf).Reachable System.Free s) :
    ∃ t : AtomicState Tid KeyMap KsCall (KsRead Unit),
      (atomicSystem KsAtomic (L.dict cf)).Reachable System.Free t ∧ t.events = s.events ∧
      Serial KsAtomic (L.dict cf) t.log (L.dict s.store.cf) ∧
      L.dict s.store.cf = mapRun (L.dict cf) (t.log.map (·.1)) (t.log.map (·.2.ret)) := by
  obtain ⟨t, ht, hevents, hserial⟩ := (ksPieces_serves L).linearizable h
  exact ⟨t, ht, hevents, hserial, hserial.mapRun⟩

/-- A key store for ASCII with no keys. -/
def asciiSystem : System (KsProcess Bool (CString → Option { l : List UInt8 // l.length < 2 ^ 63 }) CfObject)
    (Bool × Turn KsCall) :=
  ksSystem cfAscii Bool fun _ => none

/-- Two threads work on one key: one has replaced it, and has not returned, while the other
has found it and has not copied it. -/
def twoKsCalls : List (Bool × Turn KsCall) :=
  [(false, .call (.add (some test1) (some fun _ => 0x41) 5)), (true, .call (.read (some test1) none (some 10))),
    (true, .next), (false, .next), (false, .next), (false, .next), (true, .next)]

/-- Both calls were served. -/
theorem darwin_keystore_linearizable_two_calls :
    ∃ s t, asciiSystem.Reachable System.Free s ∧
      (atomicSystem KsAtomic fun _ => none).Reachable System.Free t ∧ t.events = s.events ∧ s.events.length = 2 := by
  have h := System.reachable_of_exec (S := asciiSystem) (C := System.Free) twoKsCalls (by decide)
  obtain ⟨t, ht, hevents, -⟩ := darwin_keystore_linearizable cfAscii_documented h
  exact ⟨_, t, h, ht, hevents, rfl⟩

/-! ### The references -/

/-- The objects that a call in progress holds, among them those that its next piece uses. -/
def KsPc.objects : KsPc Obj → List Obj
  | .removeLocked _ string | .removeRelease string => string.toList
  | .addData _ _ _ string | .addNoData string | .readLocked _ _ _ string => [string]
  | .addLocked _ _ _ string data | .addRelease string data => [string, data]
  | .addReleaseData data | .readCopy _ _ data => [data]
  | .readRelease _ _ string data => string :: data.toList
  | .start _ | .done _ => []

/-- Those that a thread holds. -/
def ksObjects (pc : Option (KsPc Obj)) : List Obj := (pc.map KsPc.objects).getD []

/-- So many references to each object. -/
def countRefs (l : List Obj) : Obj → ℤ := fun o => l.count o

@[simp] theorem countRefs_nil : countRefs ([] : List Obj) = 0 := by
  funext o
  simp [countRefs]

@[simp] theorem countRefs_cons (x : Obj) (l : List Obj) : countRefs (x :: l) = Pi.single x 1 + countRefs l := by
  funext o
  by_cases h : o = x
  · subst h
    simp [countRefs, add_comm]
  · simp [countRefs, Ne.symm h, h]

section

variable {s s' : CfState σ Obj} {o : Option Obj}

/-- One that is made. -/
theorem CfState.stringCreate_refs {desc : CString} (h : s.stringCreate C desc = (o, s')) :
    s'.refs = s.refs + countRefs o.toList := by
  obtain ⟨rfl, rfl⟩ := Prod.mk.inj h
  cases ho : (C.stringCreate s.cf desc).1 with
  | none => simp [CfState.take]
  | some x => simp [CfState.take]

theorem CfState.dataCreate_refs {payload : Bytes} {len : ℤ} (h : s.dataCreate C payload len = (o, s')) :
    s'.refs = s.refs + countRefs o.toList := by
  obtain ⟨rfl, rfl⟩ := Prod.mk.inj h
  cases ho : (C.dataCreate s.cf payload len).1 with
  | none => simp [CfState.take]
  | some x => simp [CfState.take]

/-- One that is given back. -/
theorem CfState.release_refs {pc pc' : KsPc Obj} (h : (s.release C o).map (fun s => (pc, s)) = some (pc', s')) :
    pc' = pc ∧ s'.refs + countRefs o.toList = s.refs := by
  obtain ⟨t, ht, heq⟩ := Option.map_eq_some_iff.mp h
  obtain ⟨x, rfl, rfl⟩ := Option.map_eq_some_iff.mp ht
  cases heq
  exact ⟨rfl, by simp⟩

end

/-- **What a piece of a call takes it holds then**, and what it gives back it held. -/
theorem ksNext_refs {pc pc' : KsPc Obj} {s s' : CfState σ Obj} (h : ksNext C pc s = some (pc', s')) :
    s'.refs + countRefs pc.objects = s.refs + countRefs pc'.objects := by
  cases pc with
  | done r => cases h
  | start c =>
    cases c with
    | remove desc =>
      cases desc with
      | none =>
        cases h
        rfl
      | some desc =>
        cases h
        have hrefs := CfState.stringCreate_refs (show s.stringCreate C desc = (_, _) from rfl)
        simpa [KsPc.objects] using hrefs
    | add desc payload len =>
      simp only [ksNext] at h
      split at h
      · split_ifs at h
        · cases h
          rfl
        · split at h
          · next t hstring =>
            cases h
            simpa [KsPc.objects] using CfState.stringCreate_refs hstring
          · next string t hstring =>
            cases h
            simpa [KsPc.objects] using CfState.stringCreate_refs hstring
      · cases h
        rfl
    | read desc buffer len =>
      simp only [ksNext] at h
      split at h
      · split at h
        · next t hstring =>
          cases h
          simpa [KsPc.objects] using CfState.stringCreate_refs hstring
        · next string t hstring =>
          cases h
          simpa [KsPc.objects] using CfState.stringCreate_refs hstring
      · cases h
        rfl
  | removeLocked desc string =>
    obtain ⟨t, ht, heq⟩ := Option.map_eq_some_iff.mp h
    cases heq
    obtain ⟨key, rfl, rfl⟩ := Option.map_eq_some_iff.mp ht
    rfl
  | removeRelease string =>
    simp only [ksNext] at h
    obtain ⟨rfl, hrefs⟩ := CfState.release_refs h
    simpa [KsPc.objects] using hrefs
  | addData desc payload len string =>
    simp only [ksNext] at h
    split at h
    · next t hdata =>
      cases h
      simpa [KsPc.objects] using CfState.dataCreate_refs hdata
    · next data t hdata =>
      cases h
      have hrefs := CfState.dataCreate_refs hdata
      simp only [Option.toList_some, countRefs_cons, countRefs_nil, add_zero] at hrefs
      simp only [KsPc.objects, countRefs_cons, countRefs_nil, add_zero, hrefs]
      abel
  | addNoData string =>
    simp only [ksNext] at h
    obtain ⟨rfl, hrefs⟩ := CfState.release_refs h
    simpa [KsPc.objects] using hrefs
  | addLocked desc payload len string data =>
    cases h
    rfl
  | addRelease string data =>
    simp only [ksNext] at h
    obtain ⟨rfl, hrefs⟩ := CfState.release_refs h
    rw [← hrefs]
    simp [KsPc.objects, add_assoc]
  | addReleaseData data =>
    simp only [ksNext] at h
    obtain ⟨rfl, hrefs⟩ := CfState.release_refs h
    simpa [KsPc.objects] using hrefs
  | readLocked desc buffer n string =>
    simp only [ksNext, CfState.dictGetValue, Option.map_some, Option.bind_eq_bind, Option.bind_some] at h
    cases hget : C.dictGetValue s.cf string with
    | none =>
      rw [hget] at h
      cases h
      rfl
    | some data =>
      rw [hget] at h
      cases h
      simp only [KsPc.objects, Option.toList_some, countRefs_cons, countRefs_nil, add_zero]
      abel
  | readRelease buffer n string data =>
    cases data with
    | none =>
      simp only [ksNext] at h
      obtain ⟨rfl, hrefs⟩ := CfState.release_refs h
      simpa [KsPc.objects] using hrefs
    | some data =>
      simp only [ksNext] at h
      obtain ⟨rfl, hrefs⟩ := CfState.release_refs h
      rw [← hrefs]
      simp [KsPc.objects, add_assoc]
  | readCopy buffer n data =>
    simp only [ksNext] at h
    obtain ⟨rfl, hrefs⟩ := CfState.release_refs h
    simpa [KsPc.objects] using hrefs

/-- **The references are those of the calls in progress**, in every state that any threads
reach: each object that a call is about to use is held, and when no call holds an object, the
library has given back all that it took. -/
theorem darwin_keystore_references [Fintype Tid] (C : CoreFoundation σ Obj) {cf : σ} {s : KsProcess Tid σ Obj}
    (h : (ksSystem C Tid cf).Reachable System.Free s) :
    (∀ o, s.store.refs o = ∑ i, ((ksObjects (s.threads i)).count o : ℤ)) ∧
    (∀ i, ∀ o ∈ ksObjects (s.threads i), 0 < s.store.refs o) ∧
    ((∀ i, ksObjects (s.threads i) = []) → s.store.refs = 0) := by
  have howned : SumOwned (fun pc m => m = countRefs (ksObjects pc)) s.threads s.store.refs := by
    apply h.invariant (I := fun s => SumOwned (fun pc m => m = countRefs (ksObjects pc)) s.threads s.store.refs)
    · exact .zero fun _ => countRefs_nil.symm
    · rintro s ⟨i, a⟩ s' ih hst -
      cases Pieces.step_cases hst with
      | call c hpc =>
        refine ih.step fun m rest hm htotal => ⟨m, ?_, htotal⟩
        rw [hm, hpc]
        rfl
      | ret pc r hpc hret =>
        refine ih.step fun m rest hm htotal => ⟨m, ?_, htotal⟩
        rw [hm, hpc]
        cases pc with
        | done r => rfl
        | _ => cases hret
      | piece pc pc' store hpc _ hnext =>
        refine ih.step fun m rest hm htotal => ⟨_, rfl, ?_⟩
        have hrefs := ksNext_refs hnext
        rw [htotal, hm, hpc] at hrefs
        rw [eq_sub_of_add_eq hrefs]
        simp only [ksObjects, Option.map_some, Option.getD_some]
        abel
  obtain ⟨own, hown, hsum⟩ := howned
  have hcount : ∀ o, s.store.refs o = ∑ i, ((ksObjects (s.threads i)).count o : ℤ) := by
    intro o
    rw [hsum, Finset.sum_apply]
    exact Finset.sum_congr rfl fun i _ => by rw [hown i]; rfl
  refine ⟨hcount, ?_, ?_⟩
  · intro i o ho
    rw [hcount]
    apply Finset.sum_pos' (fun j _ => Int.natCast_nonneg _)
    exact ⟨i, Finset.mem_univ i, Int.natCast_pos.mpr (List.count_pos_iff.mpr ho)⟩
  · intro hnone
    funext o
    rw [hcount]
    simp [hnone]

/-- Each of the two calls holds its string. -/
theorem darwin_keystore_references_two_calls :
    ∃ s, asciiSystem.Reachable System.Free s ∧ s.store.refs (.string test1) = 2 := by
  have h := System.reachable_of_exec (S := asciiSystem) (C := System.Free) twoKsCalls (by decide)
  refine ⟨_, h, ?_⟩
  rw [(darwin_keystore_references cfAscii h).1]
  decide

/-! ### Calls come to an end -/

/-- The call hands on `NULL`, since its string could not be made. -/
def KsPc.Null : KsPc Obj → Prop
  | .removeLocked _ none | .removeRelease none => True
  | _ => False

/-- So many pieces are left, at most. -/
def KsPc.rank : KsPc Obj → ℕ
  | .start _ => 5
  | .addData _ _ _ _ => 4
  | .addLocked _ _ _ _ _ | .readLocked _ _ _ _ => 3
  | .removeLocked _ _ | .addRelease _ _ | .readRelease _ _ _ _ => 2
  | .removeRelease _ | .addNoData _ | .addReleaseData _ | .readCopy _ _ _ => 1
  | .done _ => 0

/-- Every piece leaves fewer. -/
theorem ksNext_rank (C : CoreFoundation σ Obj) (pc : KsPc Obj) (s : CfState σ Obj) :
    ∀ x ∈ ksNext C pc s, x.1.rank < pc.rank := by
  fun_cases ksNext C pc s
  case case12 =>
    -- the two calls of `add_key`'s locked section
    simp [KsPc.rank, CfState.dictRemoveValue, CfState.dictAddValue]
  case case18 buffer n string =>
    -- `read_key` may find nothing
    cases hget : C.dictGetValue s.cf string with
    | none => simp [KsPc.rank, CfState.dictGetValue, hget]
    | some data => simp [KsPc.rank, CfState.dictGetValue, CfState.retain, hget]
  all_goals simp +contextual [KsPc.rank]

/-- A call that is not at its end goes on, unless it hands on `NULL`. -/
theorem ksNext_isSome (C : CoreFoundation σ Obj) {pc : KsPc Obj} (s : CfState σ Obj) (hnull : ¬pc.Null)
    (hret : pc.ret = none) : (ksNext C pc s).isSome = true := by
  revert hnull hret
  fun_cases ksNext C pc s
  case case3 desc string =>
    cases string with
    | none => simp [KsPc.Null]
    | some key => simp [CfState.dictRemoveValue]
  case case4 string =>
    cases string with
    | none => simp [KsPc.Null]
    | some key => simp [CfState.release]
  case case18 buffer n string =>
    cases hget : C.dictGetValue s.cf string with
    | none => simp [CfState.dictGetValue, hget]
    | some data => simp [CfState.dictGetValue, CfState.retain, hget]
  all_goals simp [KsPc.ret, CfState.release, CfState.dictRemoveValue, CfState.dictAddValue]

/-- **Every call returns** by its sixth turn, whatever other threads do between its pieces, unless it hands
on `NULL`. A thread that waits for the lock has not had its turn. -/
theorem ksPieces_returns (C : CoreFoundation σ Obj) : (ksPieces C).Returns KsPc.Null 5 Tid := by
  apply Pieces.returns KsPc.rank
  · intro pc
    cases pc <;> simp [KsPc.rank]
  · intro pc s pc' s' h
    exact ksNext_rank C pc s _ h
  · intro pc s hnull hret
    exact ksNext_isSome C s hnull hret

/-! ### Calls that nothing interrupts -/

/-- What a call returned, without the back end. -/
def KsRead.result {τ : Type} (r : KsRead τ) : KsRead Unit := { r with store := () }

section

variable {s : CfState σ Obj} {r : KsRead (CfState σ Obj)}

omit [DecidableEq Tid] in
/-- `ks_darwin_remove_key`. -/
theorem ksDarwinRemoveKey_pieces {desc : Option CString} {s' : CfState σ Obj} (h : ksDarwinRemoveKey C desc s = some s') :
    (ksPieces C).Whole (.start (.remove desc), s) (.done (ksOk none none), s') := by
  cases desc with
  | none =>
    cases h
    exact .single rfl
  | some desc =>
    simp only [ksDarwinRemoveKey, Option.bind_eq_bind, Option.bind_eq_some_iff] at h
    obtain ⟨s₁, hremove, hrelease⟩ := h
    refine .head (b := (.removeLocked desc (s.stringCreate C desc).1, (s.stringCreate C desc).2)) rfl ?_
    refine .head (b := (.removeRelease (s.stringCreate C desc).1, s₁)) ?_ (.single ?_)
    · simp only [ksPieces, ksNext, hremove, Option.map_some]
    · simp only [ksPieces, ksNext, hrelease, Option.map_some]

omit [DecidableEq Tid] in
/-- `ks_darwin_add_key`. -/
theorem ksDarwinAddKey_pieces {desc : Option CString} {payload : Option Bytes} {len : BitVec 64}
    {a : KsAdd (CfState σ Obj)} (h : ksDarwinAddKey C desc payload len s = some a) :
    (ksPieces C).Whole (.start (.add desc payload len), s)
      (.done { a with store := (), len := none, buffer := none }, a.store) := by
  simp only [ksDarwinAddKey] at h
  split at h
  · next desc payload =>
    split_ifs at h with hlen
    · cases h
      exact .single (by simp only [ksPieces, ksNext, hlen, if_true]; rfl)
    · split at h
      · next t hstring =>
        cases h
        exact .single (by simp only [ksPieces, ksNext, hlen, if_false, hstring]; rfl)
      · next string s₁ hstring =>
        refine .head (b := (.addData desc payload len string, s₁)) (by simp only [ksPieces, ksNext, hlen, if_false, hstring]) ?_
        split at h
        · next s₂ hdata =>
          cases h
          exact .head (b := (.addNoData string, s₂)) (by simp only [ksPieces, ksNext, hdata]) (.single rfl)
        · next data s₂ hdata =>
          cases h
          exact .head (b := (.addLocked desc payload len string data, s₂)) (by simp only [ksPieces, ksNext, hdata])
            (.head rfl (.head rfl (.single rfl)))
  · next hnot =>
    cases h
    refine .single ?_
    cases desc with
    | none => rfl
    | some desc =>
      cases payload with
      | none => rfl
      | some payload => exact absurd rfl (hnot desc payload rfl)

omit [DecidableEq Tid] in
/-- `ks_darwin_read_key`. -/
theorem ksDarwinReadKey_pieces {desc : Option CString} {buffer : Option Bytes} {len : Option (BitVec 64)}
    (h : ksDarwinReadKey C desc buffer len s = some r) :
    (ksPieces C).Whole (.start (.read desc buffer len), s) (.done r.result, r.store) := by
  simp only [ksDarwinReadKey] at h
  split at h
  · next desc n =>
    split at h
    · next t hstring =>
      cases h
      exact .single (by simp only [ksPieces, ksNext, hstring]; rfl)
    · next string s₁ hstring =>
      refine .head (b := (.readLocked desc buffer n string, s₁)) (by simp only [ksPieces, ksNext, hstring]) ?_
      simp only [CfState.dictGetValue, Option.map_some, Option.bind_eq_bind, Option.bind_some] at h
      cases hget : C.dictGetValue s₁.cf string with
      | none =>
        rw [hget] at h
        cases h
        refine .head (b := (.readRelease buffer n string none, s₁)) ?_ (.single rfl)
        simp only [ksPieces, ksNext, CfState.dictGetValue, Option.map_some, Option.bind_eq_bind, Option.bind_some, hget]
        rfl
      | some data =>
        rw [hget] at h
        refine .head (b := (.readRelease buffer n string (some data),
          ⟨C.retain s₁.cf data, s₁.refs + Pi.single data 1⟩)) ?_ (.head rfl (.single ?_))
        · simp only [ksPieces, ksNext, CfState.dictGetValue, Option.map_some, Option.bind_eq_bind, Option.bind_some, hget]
          rfl
        · simp only [ksPieces, ksNext, ksReadResult]
          simp only [Option.isSome_some, if_true, CfState.retain, CfState.release, Option.map_some, Option.bind_some,
            Option.pure_def] at h ⊢
          split_ifs at h ⊢
          · cases h
            rfl
          · cases h
            rfl
  · next hnot =>
    cases h
    refine .single ?_
    cases desc with
    | none => rfl
    | some desc =>
      cases len with
      | none => rfl
      | some n => exact absurd rfl (hnot desc n rfl)

omit [DecidableEq Tid] in
/-- **The pieces of a call are the call.** -/
theorem ksDarwin_pieces {c : KsCall} (h : c.call (ksDarwinOps C) s = some r) :
    (ksPieces C).Whole (.start c, s) (.done r.result, r.store) := by
  cases c with
  | remove desc =>
    obtain ⟨s', hs', rfl⟩ := Option.map_eq_some_iff.mp h
    exact ksDarwinRemoveKey_pieces hs'
  | add desc payload len =>
    obtain ⟨a, ha, rfl⟩ := Option.map_eq_some_iff.mp h
    exact ksDarwinAddKey_pieces ha
  | read desc buffer len => exact ksDarwinReadKey_pieces h

end

/-- **A call that no other thread interrupts is the call of `LibCfe.Keystore.Darwin`.** In every
state, a thread with no call in progress can make any call that returns, taking its pieces one
after the other; it then returns what the call returns when it is executed at once, and leaves
the same key store and the same references. -/
theorem ksDarwin_uninterrupted (C : CoreFoundation σ Obj) (cf : σ) (s : KsProcess Tid σ Obj) {i : Tid}
    (hidle : s.threads i = none) {c : KsCall} {r : KsRead (CfState σ Obj)}
    (h : c.call (ksDarwinOps C) s.store = some r) :
    ∃ n, (ksSystem C Tid cf).Runs System.Free s ((i, .call c) :: List.replicate n (i, .next))
      { s with store := r.store, events := s.events ++ [.call i c, .ret i r.result] } := by
  have hwhole := ksDarwin_pieces h
  exact Pieces.runs_of_whole (⟨cf, 0⟩ : CfState σ Obj) s hidle hwhole rfl

/-- A key is added. -/
theorem ksDarwin_uninterrupted_add :
    ∃ n s, asciiSystem.Runs System.Free ⟨⟨fun _ => none, 0⟩, fun _ => none, []⟩
      ((false, .call (.add (some test1) (some fun _ => 0x41) 5)) :: List.replicate n (false, .next)) s ∧
      s.events.length = 2 := by
  obtain ⟨n, hruns⟩ := ksDarwin_uninterrupted cfAscii (fun _ => none)
    (⟨⟨fun _ => none, 0⟩, fun _ => none, []⟩ : KsProcess Bool _ _) (i := false) rfl
    (c := .add (some test1) (some fun _ => 0x41) 5) rfl
  exact ⟨n, _, hruns, rfl⟩

end LibCfe
