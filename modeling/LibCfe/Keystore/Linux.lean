import LibCfe.Keystore.Keyutils
import LibCfe.Keystore.Darwin

/-!
# The key store of Linux

`src/keystore-linux.c` hands its calls on to the keyring of the user. Its `read_key`
returns as the length of a key what `keyctl_read` returns, which is the length of the
payload, whether or not that fitted in the buffer; the one of Darwin compares the two and
fails.

## What is proved

`keystore_reads_alike` — two key stores, one of Linux and one of Darwin, with the same
keys answer a read of a key alike, and each delivers what it says it does, exactly when
the key is not longer than the buffer.
-/

namespace LibCfe

variable {σ τ Obj : Type} [DecidableEq Obj]

/-! ### keystore-linux.c -/

section Linux

variable (K : Keyutils σ)

/-- `ks_linux_find_key`. -/
def ksLinuxFindKey (description : Option CString) (s : σ) : ℤ × σ := K.requestKey s description

/-- `ks_linux_remove_key`; that a key stays is only logged. -/
def ksLinuxRemoveKey (desc : Option CString) (s : σ) : Option σ :=
  let (key, s) := ksLinuxFindKey K desc s
  if key = -1 then some s else some (K.invalidate s key).2

/-- `ks_linux_add_key`. -/
def ksLinuxAddKey (desc : Option CString) (payload : Option Bytes) (len : BitVec 64) (s : σ) : Option (KsAdd σ) :=
  let (key, s) := K.addKey s desc payload len
  some { ret := if key = -1 then 1 else 0, errno := none, store := s }

/-- `ks_linux_read_key`, which does not return when there is a key but `len` is `NULL`. -/
def ksLinuxReadKey (desc : Option CString) (buffer : Option Bytes) (len : Option (BitVec 64)) (s : σ) :
    Option (KsRead σ) :=
  let (key, s) := ksLinuxFindKey K desc s
  if key = -1 then some { ret := 1, errno := none, store := s, len, buffer }
  else
    match len with
    | none => none
    | some n =>
      let (ret, buffer, s) := K.read s key buffer n
      if ret = -1 then some { ret := 1, errno := none, store := s, len, buffer }
      -- as many as there are, not as were copied
      else some { ret := 0, errno := none, store := s, len := some (BitVec.ofInt 64 ret), buffer }

/-- `ks_linux_ops`. -/
def ksLinuxOps : CfeKeystoreOps σ where
  removeKey := ksLinuxRemoveKey K
  addKey := ksLinuxAddKey K
  readKey := ksLinuxReadKey K

/-- `ks_linux`. -/
def ksLinux : CfeKeystoreType σ where
  ksOps := ksLinuxOps K

end Linux

/-! ### What a read returns -/

section Read

variable {K : Keyutils σ} (L : K.Documented) {s : σ} {desc : CString} (buffer : Option Bytes) (c : BitVec 64)

/-- A key that is not there is not read. -/
theorem ksLinuxReadKey_absent (h : L.keys s desc = none) :
    ∃ s', ksLinuxReadKey K (some desc) buffer (some c) s =
        some { ret := 1, errno := none, store := s', len := some c, buffer } ∧ L.keys s' = L.keys s := by
  refine ⟨(K.requestKey s (some desc)).2, ?_, L.request_keys s desc⟩
  simp only [ksLinuxReadKey, ksLinuxFindKey, (L.request_fails s desc).mpr h, if_true]

/-- One that is there is read, whatever its length; the buffer is what `keyctl_read` left. -/
theorem ksLinuxReadKey_present {p : List UInt8} (h : L.keys s desc = some p) :
    ∃ r, ksLinuxReadKey K (some desc) buffer (some c) s = some r ∧ L.keys r.store = L.keys s ∧ r.ret = 0 ∧
      r.len = some (BitVec.ofNat 64 p.length) ∧ p.length < 2 ^ 63 ∧
      (p.length ≤ c.toNat → r.buffer = buffer.map (·.write p)) ∧
      (c.toNat < p.length → ∃ q, q.length ≤ c.toNat ∧ r.buffer = buffer.map (·.write q)) := by
  have hkey : (K.requestKey s (some desc)).1 ≠ -1 := by
    intro hfails
    rw [(L.request_fails s desc).mp hfails] at h
    cases h
  have hpayload := (L.request_finds s desc hkey).trans h
  obtain ⟨hlength, hlt⟩ := L.read_length _ _ buffer c p hpayload
  have hret : ((p.length : ℕ) : ℤ) ≠ -1 := by omega
  let r := K.read (K.requestKey s (some desc)).2 (K.requestKey s (some desc)).1 buffer c
  refine ⟨{ ret := 0, errno := none, store := r.2.2, len := some (BitVec.ofNat 64 p.length), buffer := r.2.1 },
    ?_, ?_, rfl, rfl, hlt, L.read_copies _ _ buffer c p hpayload, L.read_short _ _ buffer c p hpayload⟩
  · simp only [ksLinuxReadKey, ksLinuxFindKey, if_neg hkey, hlength, if_neg hret, BitVec.ofInt_natCast]
    rfl
  · rw [L.read_keys, L.request_keys]

/-- When there is no room for it, the length that is returned is more than there is room
for, and what is in the buffer is not the key. -/
theorem ksLinuxReadKey_long {p : List UInt8} (h : L.keys s desc = some p) (hlong : c.toNat < p.length) :
    ∃ r n q, ksLinuxReadKey K (some desc) buffer (some c) s = some r ∧ r.ret = 0 ∧ r.len = some n ∧ c < n ∧
      q.length ≤ c.toNat ∧ r.buffer = buffer.map (·.write q) := by
  obtain ⟨r, hr, -, hret, hlen, hlt, -, hshort⟩ := ksLinuxReadKey_present L buffer c h
  obtain ⟨q, hq, hbuffer⟩ := hshort hlong
  refine ⟨r, _, q, hr, hret, hlen, ?_, hq, hbuffer⟩
  rw [BitVec.lt_def, BitVec.toNat_ofNat]
  omega

/-- A read for which there is room does what it should. -/
theorem ksLinuxReadKey_meets (hroom : ∀ p, L.keys s desc = some p → p.length ≤ c.toNat) :
    ∃ r, ksLinuxReadKey K (some desc) buffer (some c) s = some r ∧
      (KsCall.read (some desc) buffer (some c)).Meets (fun _ => True) (L.keys s) (L.keys r.store) r := by
  cases hkey : L.keys s desc with
  | none =>
    obtain ⟨s', hr, hsame⟩ := ksLinuxReadKey_absent L buffer c hkey
    refine ⟨_, hr, hsame, ⟨?_, ?_⟩, ?_, fun _ => ⟨rfl, rfl⟩⟩
    · intro h
      cases h
    · rintro ⟨d, n, data, ⟨⟩, -, -, hdata, -⟩
      rw [hkey] at hdata
      cases hdata
    · intro h
      cases h
  | some p =>
    obtain ⟨r, hr, hsame, hret, hlen, -, hcopied, -⟩ := ksLinuxReadKey_present L buffer c hkey
    refine ⟨r, hr, hsame, ⟨fun _ => ⟨desc, c, p, rfl, trivial, rfl, hkey, hroom p hkey⟩, fun _ => hret⟩, ?_, ?_⟩
    · rintro _ d data ⟨⟩ hdata
      rw [hkey] at hdata
      obtain rfl := Option.some.inj hdata
      exact ⟨hlen, hcopied (hroom p hkey)⟩
    · intro h
      exact absurd hret h

end Read

/-! ### The two key stores -/

/-- A read into a buffer of `c` bytes delivers the whole key when it succeeds, and leaves
`*len` when it fails. -/
def KsRead.Delivers (m : KeyMap) (desc : CString) (c : BitVec 64) (r : KsRead σ) : Prop :=
  (r.ret = 0 → ∃ n buffer, r.len = some n ∧ n ≤ c ∧ r.buffer = some buffer ∧ m desc = some (buffer.read n.toNat)) ∧
  (r.ret ≠ 0 → r.len = some c)

/-- One that does what it should to the map delivers. -/
theorem KsCall.Meets.delivers {able : CString → Prop} {m m' : KeyMap} {desc : CString} {buffer : Bytes} {c : BitVec 64}
    {r : KsRead σ} (h : (KsCall.read (some desc) (some buffer) (some c)).Meets able m m' r) :
    r.Delivers m desc c := by
  obtain ⟨-, hret, hread, hfail⟩ := h
  refine ⟨?_, fun h => (hfail h).1⟩
  intro hzero
  obtain ⟨d, n, data, ⟨⟩, -, ⟨⟩, hdata, hle⟩ := hret.mp hzero
  obtain ⟨hlen, hbuffer⟩ := hread hzero desc data rfl hdata
  have hlt : data.length < 2 ^ 64 := lt_of_le_of_lt hle c.isLt
  have hnat : (BitVec.ofNat 64 data.length).toNat = data.length := Nat.mod_eq_of_lt hlt
  refine ⟨_, _, hlen, ?_, hbuffer, ?_⟩
  · rw [BitVec.le_def, hnat]
    exact hle
  · rw [hnat, Bytes.read_write]
    exact hdata

/-- Its success is told by the map. -/
theorem KsCall.Meets.ret_eq_zero_iff {able : CString → Prop} {m m' : KeyMap} {desc : CString} {buffer : Bytes}
    {c : BitVec 64} {r : KsRead σ} (h : (KsCall.read (some desc) (some buffer) (some c)).Meets able m m' r)
    (hable : able desc) : r.ret = 0 ↔ ∃ data, m desc = some data ∧ data.length ≤ c.toNat := by
  rw [h.2.1]
  constructor
  · rintro ⟨d, n, data, ⟨⟩, -, ⟨⟩, hdata, hle⟩
    exact ⟨data, hdata, hle⟩
  · rintro ⟨data, hdata, hle⟩
    exact ⟨desc, c, data, rfl, hable, rfl, hdata, hle⟩

/-- Two key stores answer a read alike: both return, one succeeds when the other does, and
each delivers. -/
def ReadsAlike (m : KeyMap) (desc : CString) (c : BitVec 64) (rl : Option (KsRead σ)) (rd : Option (KsRead τ)) : Prop :=
  ∃ l d, rl = some l ∧ rd = some d ∧ (l.ret = 0 ↔ d.ret = 0) ∧ l.Delivers m desc c ∧ d.Delivers m desc c

/-- **The two key stores answer reads alike and deliver whole keys**, exactly when the
buffer is large enough. -/
theorem keystore_reads_alike {K : Keyutils σ} (LK : K.Documented) {C : CoreFoundation τ Obj} (LC : C.Documented)
    (sl : σ) (sd : CfState τ Obj) (hsame : LK.keys sl = LC.dict sd.cf) (desc : CString)
    (hable : (C.stringCreate sd.cf desc).1.isSome = true) (buffer : Bytes) (c : BitVec 64) :
    ReadsAlike (LK.keys sl) desc c (cfeKeystoreReadKey (some (ksLinux K)) (some desc) (some buffer) (some c) sl)
        (cfeKeystoreReadKey (some (ksDarwin C)) (some desc) (some buffer) (some c) sd) ↔
      ∀ p, LK.keys sl desc = some p → p.length ≤ c.toNat := by
  constructor
  · rintro ⟨l, d, hl, -, -, hdelivers, -⟩ p hp
    by_contra hlong
    obtain ⟨r, n, q, hr, hret, hlen, hlt, -⟩ := ksLinuxReadKey_long LK (some buffer) c hp (not_le.mp hlong)
    obtain rfl := Option.some.inj (hr.symm.trans hl)
    obtain ⟨n', b, hlen', hle, -⟩ := hdelivers.1 hret
    obtain rfl := Option.some.inj (hlen.symm.trans hlen')
    exact absurd hle (BitVec.not_le.mpr hlt)
  · intro hroom
    obtain ⟨l, hl, hlmeets⟩ := ksLinuxReadKey_meets LK (some buffer) c hroom
    obtain ⟨d, hd, hdmeets⟩ := ksDarwinReadKey_returns LC (some desc) (some buffer) (some c) sd
    have hdread := hdmeets.meets
    rw [← hsame] at hdread
    refine ⟨l, d, hl, hd, ?_, hlmeets.delivers, hdread.delivers⟩
    rw [hlmeets.ret_eq_zero_iff trivial, hdread.ret_eq_zero_iff hable]

/-! ### The key of the test -/

/-- The five bytes of `"AAAA"`. -/
def testPassword : { l : List UInt8 // l.length < 2 ^ 63 } := ⟨[0x41, 0x41, 0x41, 0x41, 0], by decide⟩

/-- A store of Darwin that has it. -/
def darwinTest : CfState (CString → Option { l : List UInt8 // l.length < 2 ^ 63 }) CfObject where
  cf d := if d = test1 then some testPassword else none
  refs := 0

/-- A keyring has the same keys. -/
theorem keys_test : keyring_documented.keys [(test1, testPassword)] = cfAscii_documented.dict darwinTest.cf := by
  funext d
  by_cases hd : d = test1
  · simp [keyring_documented, cfAscii_documented, darwinTest, hd]
  · simp [keyring_documented, cfAscii_documented, darwinTest, hd, Ne.symm hd]

/-- There is room for it in ten bytes. -/
theorem keystore_reads_alike_test :
    ReadsAlike (keyring_documented.keys [(test1, testPassword)]) test1 10
      (cfeKeystoreReadKey (some (ksLinux keyring)) (some test1) (some fun _ => 0) (some 10) [(test1, testPassword)])
      (cfeKeystoreReadKey (some (ksDarwin cfAscii)) (some test1) (some fun _ => 0) (some 10) darwinTest) := by
  apply (keystore_reads_alike keyring_documented cfAscii_documented _ darwinTest keys_test test1 rfl _ 10).mpr
  intro p hp
  rw [keys_test] at hp
  obtain rfl := Option.some.inj hp
  decide

/-- In three bytes there is not, and `read_key` of Linux says it has put five there. -/
theorem ksLinuxReadKey_three :
    ¬ReadsAlike (keyring_documented.keys [(test1, testPassword)]) test1 3
      (cfeKeystoreReadKey (some (ksLinux keyring)) (some test1) (some fun _ => 0) (some 3) [(test1, testPassword)])
      (cfeKeystoreReadKey (some (ksDarwin cfAscii)) (some test1) (some fun _ => 0) (some 3) darwinTest) := by
  rintro ⟨l, d, hl, -, -, hdelivers, -⟩
  obtain rfl := Option.some.inj hl
  obtain ⟨n, b, hlen, hle, -⟩ := hdelivers.1 rfl
  obtain rfl := Option.some.inj hlen
  revert hle
  decide

end LibCfe
