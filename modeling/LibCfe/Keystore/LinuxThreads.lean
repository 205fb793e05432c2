import LibCfe.Keystore.Linux
import LibCfe.Keystore.Serials
import LibCfe.Keystore.Threads
import LibCfe.Theory.Pieces

/-!
# Threads that share the key store of Linux

The back end has no lock. `ks_linux_remove_key` and `ks_linux_read_key` ask for the number
of the key first, and between that and what they do with it the key may be updated,
invalidated, or invalidated and made again under another number. Each system call
is a piece here, and `KsLinuxPc` is what a thread knows between two of them.

A call that holds the number of a key that is gone will fail. It is served at the instant at
which the key was invalidated, right after the call of the other thread that did it: then
there was no key of that description, and it does not matter that there may be one now.

## What is proved

* `linux_keystore_linearizable` — every history of calls and returns is one of an atomic
  map, whose calls, in the order in which they are served, come to the map of keys.
* `keystores_return` — every call of this key store and of the one of Darwin returns,
  whatever other threads do between its pieces, unless it needs what is `NULL`.
* `ksLinux_uninterrupted` — a call that no other thread interrupts is the one of
  `LibCfe.Keystore.Linux`.
-/

namespace LibCfe

open Theory

variable {Tid σ : Type}

/-! ### The atomic map -/

/-- What a call returns that fails; it stores no `errno` of its own. -/
def ksLinuxFailed (len : Option (BitVec 64)) (buffer : Option Bytes) : KsRead Unit :=
  { ret := 1, errno := none, store := (), len, buffer }

/-- What a call may do to the map of keys at one instant. The kernel can always refuse to add a key. -/
inductive KsLinuxAtomic (m : KeyMap) : KsCall → KeyMap → KsRead Unit → Prop where
  /-- There is no description. -/
  | removeNull : KsLinuxAtomic m (.remove none) m (ksOk none none)
  /-- A key is removed, if there is one. -/
  | remove (desc : CString) : KsLinuxAtomic m (.remove (some desc)) (Function.update m desc none) (ksOk none none)
  /-- A key is not added. -/
  | addFails (desc : Option CString) (payload : Option Bytes) (len : BitVec 64) :
      KsLinuxAtomic m (.add desc payload len) m (ksLinuxFailed none none)
  /-- A key is added or replaced. -/
  | added (desc : CString) (payload : Bytes) (len : BitVec 64) (hlen : len ≠ 0) :
      KsLinuxAtomic m (.add (some desc) (some payload) len) (Function.update m desc (some (payload.read len.toNat)))
        (ksOk none none)
  /-- There is no description. -/
  | readNull (buffer : Option Bytes) (len : Option (BitVec 64)) :
      KsLinuxAtomic m (.read none buffer len) m (ksLinuxFailed len buffer)
  /-- There is no such key. -/
  | readNone (desc : CString) (buffer : Option Bytes) (len : Option (BitVec 64)) (h : m desc = none) :
      KsLinuxAtomic m (.read (some desc) buffer len) m (ksLinuxFailed len buffer)
  /-- It is read, all of it when there is room, and its length is returned in any case. -/
  | read (desc : CString) (buffer : Option Bytes) (n : BitVec 64) (data copied : List UInt8) (h : m desc = some data)
      (hfits : data.length ≤ n.toNat → copied = data) (hroom : copied.length ≤ n.toNat) :
      KsLinuxAtomic m (.read (some desc) buffer (some n)) m
        (ksOk (some (BitVec.ofNat 64 data.length)) (buffer.map (·.write copied)))

/-- The map after an atomic call is what its return value tells. -/
theorem KsLinuxAtomic.effect {m m' : KeyMap} {c : KsCall} {r : KsRead Unit} (h : KsLinuxAtomic m c m' r) :
    m' = c.effect m r.ret := by
  cases h with
  | removeNull => rfl
  | remove desc => rfl
  | addFails desc payload len =>
    cases desc with
    | none => rfl
    | some desc =>
      cases payload with
      | none => rfl
      | some payload => rfl
  | added desc payload len hlen => rfl
  | readNull buffer len => rfl
  | readNone desc buffer len h => rfl
  | read desc buffer n data copied h hfits hroom => rfl

/-! ### keystore-linux.c, in pieces -/

/-- Where a call is. -/
inductive KsLinuxPc where
  /-- At its start. -/
  | start (c : KsCall)
  /-- `remove_key`, before `keyctl_invalidate`. -/
  | invalidate (desc : Option CString) (key : ℤ)
  /-- `read_key`, before `keyctl_read`. -/
  | keyctlRead (desc : Option CString) (buffer : Option Bytes) (len : Option (BitVec 64)) (key : ℤ)
  /-- Before it returns this. -/
  | done (r : KsRead Unit)

/-- The next piece of a call. There is none when it reads `*len` and `len` is `NULL`. -/
def ksLinuxNext (K : Keyutils σ) : KsLinuxPc → σ → Option (KsLinuxPc × σ)
  | .start (.remove desc), s =>
    let (key, s) := ksLinuxFindKey K desc s
    if key = -1 then some (.done (ksOk none none), s) else some (.invalidate desc key, s)
  | .invalidate _ key, s => some (.done (ksOk none none), (K.invalidate s key).2)
  | .start (.add desc payload len), s =>
    (ksLinuxAddKey K desc payload len s).map fun r =>
      (.done { ret := r.ret, errno := r.errno, store := (), len := none, buffer := none }, r.store)
  | .start (.read desc buffer len), s =>
    let (key, s) := ksLinuxFindKey K desc s
    if key = -1 then some (.done (ksLinuxFailed len buffer), s) else some (.keyctlRead desc buffer len key, s)
  | .keyctlRead _ _ none _, _ => none
  | .keyctlRead _ buffer (some n) key, s =>
    let (ret, buffer, s) := K.read s key buffer n
    if ret = -1 then some (.done (ksLinuxFailed (some n) buffer), s)
    else some (.done (ksOk (some (BitVec.ofInt 64 ret)) buffer), s)
  | .done _, _ => none

section

variable {K : Keyutils σ} {s : σ}

theorem ksLinuxNext_remove {desc : Option CString} : ksLinuxNext K (.start (.remove desc)) s =
    if (K.requestKey s desc).1 = -1 then some (.done (ksOk none none), (K.requestKey s desc).2)
    else some (.invalidate desc (K.requestKey s desc).1, (K.requestKey s desc).2) := rfl

theorem ksLinuxNext_read {desc : Option CString} {buffer : Option Bytes} {len : Option (BitVec 64)} :
    ksLinuxNext K (.start (.read desc buffer len)) s =
      if (K.requestKey s desc).1 = -1 then some (.done (ksLinuxFailed len buffer), (K.requestKey s desc).2)
      else some (.keyctlRead desc buffer len (K.requestKey s desc).1, (K.requestKey s desc).2) := rfl

theorem ksLinuxNext_keyctlRead {desc : Option CString} {buffer : Option Bytes} {n : BitVec 64} {key : ℤ} :
    ksLinuxNext K (.keyctlRead desc buffer (some n) key) s =
      if (K.read s key buffer n).1 = -1
      then some (.done (ksLinuxFailed (some n) (K.read s key buffer n).2.1), (K.read s key buffer n).2.2)
      else some (.done (ksOk (some (BitVec.ofInt 64 (K.read s key buffer n).1)) (K.read s key buffer n).2.1),
        (K.read s key buffer n).2.2) := rfl

end

/-- What a call returns that is at its end. -/
def KsLinuxPc.ret : KsLinuxPc → Option (KsRead Unit)
  | .done r => some r
  | _ => none

/-- The pieces of the calls. -/
def ksLinuxPieces (K : Keyutils σ) : Pieces σ KsLinuxPc KsCall (KsRead Unit) where
  start := .start
  next := ksLinuxNext K
  ret := KsLinuxPc.ret
  next_ret {pc _ _} h := by
    cases pc with
    | done r => rfl
    | _ => cases h

/-! ### When each call is served -/

variable {K : Keyutils σ} (L : K.Serials)

/-- The number was that of the key, and the key may have been invalidated. -/
def KsLinuxPc.Valid (s : σ) : KsLinuxPc → Prop
  | .invalidate desc key | .keyctlRead desc _ _ key =>
    ∃ d, desc = some d ∧ (L.serial s key = .key d ∨ L.serial s key = .gone)
  | _ => True

/-- How far a call has come. One whose key is gone has been served. -/
def KsLinuxPc.status (s : σ) : KsLinuxPc → Status KsCall (KsRead Unit)
  | .start c => .called c
  | .invalidate desc key => if L.serial s key = .gone then .served (ksOk none none) else .called (.remove desc)
  | .keyctlRead desc buffer len key =>
    if L.serial s key = .gone then .served (ksLinuxFailed len buffer) else .called (.read desc buffer len)
  | .done r => .served r

/-- What others can rely on: a number stays that of its key, unless that was taken away just now. -/
def KsLinuxKeeps (s s' : σ) : Prop :=
  ∀ k, L.serial s k ≠ .unused →
    L.serial s' k = L.serial s k ∨ ∃ d, L.serial s k = .key d ∧ L.serial s' k = .gone ∧ L.keys s' d = none

variable {L} {s s' : σ}

/-- A piece that does nothing to numbers. -/
theorem KsLinuxKeeps.same (h : L.serial s' = L.serial s) : KsLinuxKeeps L s s' := fun k _ => .inl (congrFun h k)

/-- `keyctl_invalidate`. -/
theorem KsLinuxKeeps.invalidate {d : CString} {key : ℤ} (h : L.serial s key = .key d ∨ L.serial s key = .gone) :
    KsLinuxKeeps L s (K.invalidate s key).2 := by
  obtain h | h := h
  · obtain ⟨hkeys, hserial⟩ := L.invalidate_key s key d h
    intro k _
    by_cases hk : k = key
    · subst hk
      refine .inr ⟨d, h, ?_, ?_⟩
      · rw [hserial, Function.update_self]
      · rw [hkeys, Function.update_self]
    · exact .inl (by rw [hserial, Function.update_of_ne hk])
  · exact .same (L.invalidate_gone s key h).2

/-- `add_key`. -/
theorem KsLinuxKeeps.add (desc : Option CString) (payload : Option Bytes) (len : BitVec 64) :
    KsLinuxKeeps L s (K.addKey s desc payload len).2 := by
  by_cases hfails : (K.addKey s desc payload len).1 = -1
  · exact .same (L.add_fails s desc payload len hfails).2
  · cases desc with
    | none => exact absurd (L.add_null s none payload len (.inl rfl)) hfails
    | some d =>
      cases payload with
      | none => exact absurd (L.add_null s _ none len (.inr (.inl rfl))) hfails
      | some p =>
        obtain ⟨-, hserial, hnumber⟩ := L.add_key s d p len hfails
        intro k hused
        refine .inl ?_
        rw [hserial]
        by_cases hk : k = (K.addKey s (some d) (some p) len).1
        · rw [← hk] at hnumber ⊢
          rw [Function.update_self, hnumber.resolve_right hused]
        · rw [Function.update_of_ne hk]

/-- A number that a thread holds. -/
theorem KsLinuxKeeps.held (h : KsLinuxKeeps L s s') {d : CString} {key : ℤ}
    (hkey : L.serial s key = .key d ∨ L.serial s key = .gone) :
    L.serial s' key = L.serial s key ∨ L.serial s key = .key d ∧ L.serial s' key = .gone ∧ L.keys s' d = none := by
  have hused : L.serial s key ≠ .unused := by
    obtain hkey | hkey := hkey <;> simp [hkey]
  obtain hsame | ⟨d', hd', hgone, hkeys⟩ := h key hused
  · exact .inl hsame
  · rw [hd'] at hkey
    obtain rfl : d' = d := by simpa using hkey
    exact .inr ⟨hd', hgone, hkeys⟩

/-- **Those who hold the number of a key that is taken away are served.** -/
theorem KsLinuxPc.Valid.others {pc : KsLinuxPc} (hv : pc.Valid L s) (h : KsLinuxKeeps L s s') :
    pc.Valid L s' ∧ (pc.status L s).Serves KsLinuxAtomic (L.keys s') (L.keys s') (pc.status L s') := by
  cases pc with
  | start c => exact ⟨trivial, .same _ _⟩
  | done r => exact ⟨trivial, .same _ _⟩
  | invalidate desc key =>
    obtain ⟨d, rfl, hkey⟩ := hv
    obtain hsame | ⟨hd, hgone, hkeys⟩ := h.held hkey
    · simp only [Valid, status, hsame]
      exact ⟨⟨d, rfl, hkey⟩, .same _ _⟩
    · refine ⟨⟨d, rfl, .inr hgone⟩, .inr ⟨.remove (some d), ksOk none none, ?_, ?_, ?_⟩⟩
      · simp [status, hd]
      · simp [status, hgone]
      · -- there was no key then
        have hremove := KsLinuxAtomic.remove (m := L.keys s') d
        rw [← hkeys, Function.update_eq_self] at hremove
        exact hremove
  | keyctlRead desc buffer len key =>
    obtain ⟨d, rfl, hkey⟩ := hv
    obtain hsame | ⟨hd, hgone, hkeys⟩ := h.held hkey
    · simp only [Valid, status, hsame]
      exact ⟨⟨d, rfl, hkey⟩, .same _ _⟩
    · refine ⟨⟨d, rfl, .inr hgone⟩, .inr ⟨.read (some d) buffer len, ksLinuxFailed len buffer, ?_, ?_, ?_⟩⟩
      · simp [status, hd]
      · simp [status, hgone]
      · exact .readNone d buffer len hkeys

/-! ### What a piece does for its own call -/

/-- What is to be shown. -/
def KsLinuxServes (L : K.Serials) (pc pc' : KsLinuxPc) (s s' : σ) : Prop :=
  pc'.Valid L s' ∧ (pc.status L s).Serves KsLinuxAtomic (L.keys s) (L.keys s') (pc'.status L s')

/-- A call that returns is served. -/
theorem KsLinuxServes.done {pc : KsLinuxPc} {c : KsCall} {r : KsRead Unit} {m : KeyMap} (hcalled : pc.status L s = .called c)
    (hkeys : L.keys s' = m) (hatomic : KsLinuxAtomic (L.keys s) c m r) : KsLinuxServes L pc (.done r) s s' :=
  ⟨trivial, .inr ⟨c, r, hcalled, rfl, hkeys ▸ hatomic⟩⟩

variable [DecidableEq Tid]

/-- The call reads `*len`, and `len` is `NULL`. -/
def KsLinuxPc.Null : KsLinuxPc → Prop
  | .keyctlRead _ _ none _ => True
  | _ => False

/-- So many pieces are left, at most. -/
def KsLinuxPc.rank : KsLinuxPc → ℕ
  | .start _ => 2
  | .invalidate _ _ | .keyctlRead _ _ _ _ => 1
  | .done _ => 0

/-- Every piece leaves fewer. -/
theorem ksLinuxNext_rank (K : Keyutils σ) (pc : KsLinuxPc) (s : σ) :
    ∀ x ∈ ksLinuxNext K pc s, x.1.rank < pc.rank := by
  fun_cases ksLinuxNext K pc s <;> simp +contextual [KsLinuxPc.rank]

/-- A call that is not at its end goes on, unless it reads `NULL`. -/
theorem ksLinuxNext_isSome (K : Keyutils σ) {pc : KsLinuxPc} (s : σ) (hnull : ¬pc.Null) (hret : pc.ret = none) :
    (ksLinuxNext K pc s).isSome = true := by
  revert hnull hret
  fun_cases ksLinuxNext K pc s <;> simp [KsLinuxPc.Null, KsLinuxPc.ret, ksLinuxAddKey]

/-- **Every call of either key store returns**, whatever other threads do between its pieces: by its third turn
where keys are in a keyring, and by its sixth where they are in a dictionary. The one exception is a call that
needs what is `NULL`: the length that a caller did not pass, or the string that could not be made. -/
theorem keystores_return {τ Obj : Type} [DecidableEq Obj] (K : Keyutils σ) (C : CoreFoundation τ Obj) :
    (ksLinuxPieces K).Returns KsLinuxPc.Null 2 Tid ∧ (ksPieces C).Returns KsPc.Null 5 Tid := by
  refine ⟨Pieces.returns KsLinuxPc.rank ?_ ?_ ?_, ksPieces_returns C⟩
  · intro pc
    cases pc <;> simp [KsLinuxPc.rank]
  · intro pc s pc' s' h
    exact ksLinuxNext_rank K pc s _ h
  · intro pc s hnull hret
    exact ksLinuxNext_isSome K s hnull hret

/-! ### Calls that nothing interrupts -/

section

variable {K : Keyutils σ} {s : σ} {r : KsRead σ}

/-- `ks_linux_remove_key`. -/
theorem ksLinuxRemoveKey_whole {desc : Option CString} {s' : σ} (h : ksLinuxRemoveKey K desc s = some s') :
    (ksLinuxPieces K).Whole (.start (.remove desc), s) (.done (ksOk none none), s') := by
  have hcall : ksLinuxRemoveKey K desc s = if (K.requestKey s desc).1 = -1 then some (K.requestKey s desc).2
      else some (K.invalidate (K.requestKey s desc).2 (K.requestKey s desc).1).2 := rfl
  rw [hcall] at h
  split_ifs at h with hfails
  · cases h
    exact .single ((ksLinuxNext_remove (K := K)).trans (if_pos hfails))
  · cases h
    exact .head (b := (.invalidate desc (K.requestKey s desc).1, (K.requestKey s desc).2))
      ((ksLinuxNext_remove (K := K)).trans (if_neg hfails)) (.single rfl)

/-- `ks_linux_read_key`. -/
theorem ksLinuxReadKey_whole {desc : Option CString} {buffer : Option Bytes} {len : Option (BitVec 64)}
    (h : ksLinuxReadKey K desc buffer len s = some r) :
    (ksLinuxPieces K).Whole (.start (.read desc buffer len), s) (.done r.result, r.store) := by
  by_cases hfails : (K.requestKey s desc).1 = -1
  · have hcall : ksLinuxReadKey K desc buffer len s =
        some { ret := 1, errno := none, store := (K.requestKey s desc).2, len, buffer } := if_pos hfails
    rw [hcall] at h
    cases h
    exact .single ((ksLinuxNext_read (K := K)).trans (if_pos hfails))
  · refine .head (b := (.keyctlRead desc buffer len (K.requestKey s desc).1, (K.requestKey s desc).2))
      ((ksLinuxNext_read (K := K)).trans (if_neg hfails)) ?_
    rw [ksLinuxReadKey] at h
    have h := (if_neg hfails).symm.trans h
    cases len with
    | none => cases h
    | some n =>
      by_cases hret : (K.read (K.requestKey s desc).2 (K.requestKey s desc).1 buffer n).1 = -1
      · cases (if_pos hret).symm.trans h
        exact .single ((@ksLinuxNext_keyctlRead _ K _ desc _ _ _).trans (if_pos hret))
      · cases (if_neg hret).symm.trans h
        exact .single ((@ksLinuxNext_keyctlRead _ K _ desc _ _ _).trans (if_neg hret))

/-- **The pieces of a call are the call.** -/
theorem ksLinux_whole {c : KsCall} (h : c.call (ksLinuxOps K) s = some r) :
    (ksLinuxPieces K).Whole (.start c, s) (.done r.result, r.store) := by
  cases c with
  | remove desc =>
    obtain ⟨s', hs', rfl⟩ := Option.map_eq_some_iff.mp h
    exact ksLinuxRemoveKey_whole hs'
  | add desc payload len =>
    cases h
    exact .single rfl
  | read desc buffer len => exact ksLinuxReadKey_whole h

end

/-- **A call that no other thread interrupts is the call of `LibCfe.Keystore.Linux`**, whatever the
keyring. -/
theorem ksLinux_uninterrupted (K : Keyutils σ) (store : σ) (s : Pieces.State Tid σ KsLinuxPc KsCall (KsRead Unit))
    {i : Tid} (hidle : s.threads i = none) {c : KsCall} {r : KsRead σ} (h : c.call (ksLinuxOps K) s.store = some r) :
    ∃ n, ((ksLinuxPieces K).system Tid store).Runs System.Free s ((i, .call c) :: List.replicate n (i, .next))
      { s with store := r.store, events := s.events ++ [.call i c, .ret i r.result] } :=
  Pieces.runs_of_whole store s hidle (ksLinux_whole h) rfl

end LibCfe
