import LibCfe.Cfe.Base
import Mathlib.Logic.Function.Basic

/-!
# Key stores

`src/keystore.c`: a process has one key store, the first back end that registered
itself, and the functions of the library call through it. There are two back ends, each
on its own system; `LibCfe.Keystore.Darwin` and `LibCfe.Keystore.Linux` have them.

What a key store is for is a map from descriptions to payloads, `KeyMap`, and
`KsCall.Meets` says what each call does to it and reports of it.

A description is a string, valid UTF-8 or not, and a `NULL` pointer is `none`. A call
without a result does not return.
-/

namespace LibCfe

variable {σ : Type}

/-! ### keystore.c -/

/-- What a call that adds a key leaves, over the states `σ` of a back end. -/
structure KsAdd (σ : Type) where
  /-- The return value. -/
  ret : ℤ
  /-- What the library stored in `errno`. -/
  errno : Option Errno
  /-- The back end. -/
  store : σ

/-- What a call that reads a key leaves. -/
structure KsRead (σ : Type) extends KsAdd σ where
  /-- `*len`, when `len` is not `NULL`. -/
  len : Option (BitVec 64)
  /-- The memory at `buffer`, when that is not `NULL`. -/
  buffer : Option Bytes

/-- `struct cfe_keystore_ops`. -/
structure CfeKeystoreOps (σ : Type) where
  /-- `remove_key`. -/
  removeKey : Option CString → σ → Option σ
  /-- `add_key`. -/
  addKey : Option CString → Option Bytes → BitVec 64 → σ → Option (KsAdd σ)
  /-- `read_key`. -/
  readKey : Option CString → Option Bytes → Option (BitVec 64) → σ → Option (KsRead σ)

/-- `struct cfe_keystore_type`. -/
structure CfeKeystoreType (σ : Type) where
  /-- `ks_ops`. -/
  ksOps : CfeKeystoreOps σ

/-- `cfe_keystore_set_default`: the return value, `errno` and `keystore`. -/
def cfeKeystoreSetDefault (type keystore : Option (CfeKeystoreType σ)) :
    ℤ × Option Errno × Option (CfeKeystoreType σ) :=
  match type with
  | none => (1, some EINVAL, keystore)
  | some type =>
    match keystore with
    | some keystore => (1, some EBUSY, some keystore)
    | none => (0, none, some type)

/-- `cfe_keystore_add_key`. -/
def cfeKeystoreAddKey (keystore : Option (CfeKeystoreType σ)) (description : Option CString) (payload : Option Bytes)
    (len : BitVec 64) (s : σ) : Option (KsAdd σ) :=
  match keystore with
  | none => none
  | some keystore => keystore.ksOps.addKey description payload len s

/-- `cfe_keystore_remove_key`. -/
def cfeKeystoreRemoveKey (keystore : Option (CfeKeystoreType σ)) (description : Option CString) (s : σ) : Option σ :=
  match keystore with
  | none => none
  | some keystore => keystore.ksOps.removeKey description s

/-- `cfe_keystore_read_key`. -/
def cfeKeystoreReadKey (keystore : Option (CfeKeystoreType σ)) (description : Option CString) (buffer : Option Bytes)
    (len : Option (BitVec 64)) (s : σ) : Option (KsRead σ) :=
  match keystore with
  | none => none
  | some keystore => keystore.ksOps.readKey description buffer len s

/-- The first back end stays. -/
theorem cfeKeystoreSetDefault_keeps (type : Option (CfeKeystoreType σ)) (keystore : CfeKeystoreType σ) :
    (cfeKeystoreSetDefault type (some keystore)).1 = 1 ∧
      (cfeKeystoreSetDefault type (some keystore)).2.2 = some keystore := by
  cases type with
  | none => exact ⟨rfl, rfl⟩
  | some type => exact ⟨rfl, rfl⟩

/-! ### A map from descriptions to payloads -/

/-- The payload of each description that has one. -/
abbrev KeyMap := CString → Option (List UInt8)

/-- A call of a key store. -/
inductive KsCall where
  /-- `remove_key`. -/
  | remove (desc : Option CString)
  /-- `add_key`. -/
  | add (desc : Option CString) (payload : Option Bytes) (len : BitVec 64)
  /-- `read_key`. -/
  | read (desc : Option CString) (buffer : Option Bytes) (len : Option (BitVec 64))

namespace KsCall

/-- The call. One that has no return value leaves `0`. -/
def call (ops : CfeKeystoreOps σ) (s : σ) : KsCall → Option (KsRead σ)
  | remove desc => (ops.removeKey desc s).map fun store => { ret := 0, errno := none, store, len := none, buffer := none }
  | add desc payload len => (ops.addKey desc payload len s).map fun r => { r with len := none, buffer := none }
  | read desc buffer len => ops.readKey desc buffer len s

/-- What a call should do, when the map was `m` before and is `m'` after it, and `able` are
the descriptions that the back end can express just now. -/
def Meets (able : CString → Prop) (m m' : KeyMap) (r : KsRead σ) : KsCall → Prop
  | remove none => m' = m
  | remove (some desc) => (able desc → m' = Function.update m desc none) ∧ (¬able desc → m' = m)
  | add desc payload len =>
    (r.ret = 0 → ∃ d p, desc = some d ∧ payload = some p ∧ len ≠ 0 ∧ m' = Function.update m d (some (p.read len.toNat))) ∧
    (r.ret ≠ 0 → m' = m)
  | read desc buffer len =>
    m' = m ∧
    (r.ret = 0 ↔ ∃ d n data, desc = some d ∧ able d ∧ len = some n ∧ m d = some data ∧ data.length ≤ n.toNat) ∧
    (r.ret = 0 → ∀ d data, desc = some d → m d = some data →
      r.len = some (BitVec.ofNat 64 data.length) ∧ r.buffer = buffer.map (·.write data)) ∧
    (r.ret ≠ 0 → r.len = len ∧ r.buffer = buffer)

/-- The map after a call that returned `ret`. -/
def effect (m : KeyMap) (ret : ℤ) : KsCall → KeyMap
  | remove (some desc) => Function.update m desc none
  | add (some desc) (some payload) len =>
    if ret = 0 then Function.update m desc (some (payload.read len.toNat)) else m
  | _ => m

end KsCall

/-- A sequence of calls: their return values and the back end, when all of them return. -/
def ksRun (ops : CfeKeystoreOps σ) (s : σ) : List KsCall → Option (List ℤ × σ)
  | [] => some ([], s)
  | c :: calls =>
    match c.call ops s with
    | none => none
    | some r => (ksRun ops r.store calls).map fun (rets, s') => (r.ret :: rets, s')

/-- The map after calls that returned these values. -/
def mapRun (m : KeyMap) : List KsCall → List ℤ → KeyMap
  | c :: calls, ret :: rets => mapRun (c.effect m ret) calls rets
  | _, _ => m

end LibCfe
