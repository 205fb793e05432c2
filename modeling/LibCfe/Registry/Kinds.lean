import LibCfe.Registry.Basic
import Mathlib.Data.Vector.Basic

/-!
# The six registries

The `struct`s that are registered (`include/crypto/*.h`, `include/fs/*.h`) and the
functions of each registry under its own name, as instances of the two texts of
`LibCfe.Registry.Basic`. A registry is over the addresses of its types, and `f`
gives the `struct` at an address: its fixed fields, since the counter and the list
node belong to the registry. `F` is the type of the functions that a callback
field can point to; a `NULL` field is `none`.

`cfe_cipher_type` and `cfe_pbkdf_type` hold their name in an array of 16 bytes. The
name of a hash or random number generator is a pointer, which may be `NULL`.

`Kind` collects the six, so that a statement about every registry is one statement.
-/

namespace LibCfe

/-- The first `n` bytes of a number, least significant first. -/
def leBytes (n : ℕ) (v : ℕ) : List UInt8 := (List.range n).map fun i => UInt8.ofNat (v / 256 ^ i)

/-- `struct cfe_cipher_type`. -/
structure CfeCipherType (F : Type) where
  /-- `name`, all of the array. -/
  name : List.Vector UInt8 16
  /-- `flags`. -/
  flags : BitVec 32
  /-- `ivsize`. -/
  ivsize : BitVec 64
  /-- `keysize`. -/
  keysize : BitVec 64
  /-- `blocksize`. -/
  blocksize : BitVec 32
  /-- `alloc_ctx`. -/
  allocCtx : Option F

/-- `struct cfe_hash_type`. -/
structure CfeHashType (F : Type) where
  /-- `name`. -/
  name : Option CString
  /-- `digestsize`. -/
  digestsize : BitVec 32
  /-- `alloc_ctx`. -/
  allocCtx : Option F

/-- `struct cfe_pbkdf_type`. -/
structure CfePbkdfType (F : Type) where
  /-- `name`, all of the array. -/
  name : List.Vector UInt8 16
  /-- `derive`. -/
  derive : Option F

/-- `struct cfe_rand_type`. -/
structure CfeRandType (F : Type) where
  /-- `name`. -/
  name : Option CString
  /-- `get`. -/
  get : Option F

/-- `struct cfe_header_type`. -/
structure CfeHeaderType (F : Type) where
  /-- `version`, an `uint16_t`. -/
  version : BitVec 16
  /-- `alloc`. -/
  alloc : Option F

/-- `struct cfe_filewriter_type`. -/
structure CfeFilewriterType (F : Type) where
  /-- `version`, an `unsigned`. -/
  version : BitVec 32
  /-- `alloc`. -/
  alloc : Option F

variable {T F : Type} [DecidableEq T]

/-! ### Ciphers -/

/-- The cipher registry. The address of an array is never `NULL`, so `!type->name`
rejects nothing. A name that fills its array runs on into `flags` and the four
bytes of padding behind it, which are zero. -/
def cipherClass (f : T → CfeCipherType F) : CryptoClass T where
  accepts t := (f t).blocksize != 0 && (f t).allocCtx.isSome
  name _ t := CString.ofMem ((f t).name.toList ++ (leBytes 4 (f t).flags.toNat ++ leBytes 4 0))

/-- `cfe_cipher_register`. -/
def cfeCipherRegister (f : T → CfeCipherType F) (type : T) (s : Registry T) : Except Errno (Registry T) :=
  cryptoRegister (cipherClass f) type s

/-- `cfe_cipher_unregister`. -/
def cfeCipherUnregister (type : T) (s : Registry T) : Except Errno (Registry T) :=
  cryptoUnregister type s

/-- `cfe_cipher_ref`: the type, and the registry with its reference counted. -/
def cfeCipherRef (f : T → CfeCipherType F) (algname : CString) (s : Registry T) : Option T × Registry T :=
  match findAlg (cipherClass f) s algname with
  | some type => (some type, s.inc type)
  | none => (none, s)

/-- `cfe_cipher_put`. -/
def cfeCipherPut (type : Option T) (s : Registry T) : Registry T :=
  match type with
  | some type => s.dec type
  | none => s

/-! ### Hashes -/

/-- The hash registry. `find_alg` only compares names that `register` has found not
to be `NULL`, so what stands for the characters behind `NULL` is never looked at. -/
def hashClass (f : T → CfeHashType F) : CryptoClass T where
  accepts t := (f t).name.isSome && (f t).digestsize != 0 && (f t).allocCtx.isSome
  name _ t := (f t).name.getD (CString.ofMem [])

/-- `cfe_hash_register`. -/
def cfeHashRegister (f : T → CfeHashType F) (type : T) (s : Registry T) : Except Errno (Registry T) :=
  cryptoRegister (hashClass f) type s

/-- `cfe_hash_unregister`. -/
def cfeHashUnregister (type : T) (s : Registry T) : Except Errno (Registry T) :=
  cryptoUnregister type s

/-! ### Key derivations -/

/-- The registry of key derivations. A name that fills its array runs on into the
counter. A counter below `2 ^ 56` has a zero byte, so the string ends there. -/
def pbkdfClass (f : T → CfePbkdfType F) : CryptoClass T where
  accepts t := (f t).derive.isSome
  name refcnt t := CString.ofMem ((f t).name.toList ++ leBytes 8 (refcnt t).counter.toNat)

/-- `cfe_pbkdf_register`. -/
def cfePbkdfRegister (f : T → CfePbkdfType F) (type : T) (s : Registry T) : Except Errno (Registry T) :=
  cryptoRegister (pbkdfClass f) type s

/-- `cfe_pbkdf_unregister`. -/
def cfePbkdfUnregister (type : T) (s : Registry T) : Except Errno (Registry T) :=
  cryptoUnregister type s

/-! ### Random number generators -/

/-- The registry of random number generators; see `hashClass` for `NULL` names. -/
def randClass (f : T → CfeRandType F) : CryptoClass T where
  accepts t := (f t).name.isSome && (f t).get.isSome
  name _ t := (f t).name.getD (CString.ofMem [])

/-- The string `"rand"`, the only name `cfe_rand_get` looks up. -/
def randName : CString := ⟨[0x72, 0x61, 0x6e, 0x64], by decide⟩

/-- `cfe_rand_register`. -/
def cfeRandRegister (f : T → CfeRandType F) (type : T) (s : Registry T) : Except Errno (Registry T) :=
  cryptoRegister (randClass f) type s

/-- `cfe_rand_unregister`. -/
def cfeRandUnregister (type : T) (s : Registry T) : Except Errno (Registry T) :=
  cryptoUnregister type s

/-! ### Headers and file writers -/

/-- `cfe_header_register`. -/
def cfeHeaderRegister (f : T → CfeHeaderType F) (type : T) (s : Registry T) : Except Errno (Registry T) :=
  formatRegister (fun t => (f t).version) type s

/-- `cfe_header_unregister`. -/
def cfeHeaderUnregister (type : T) (s : Registry T) : Except Errno (Registry T) :=
  formatUnregister type s

/-- `cfe_filewriter_register`. -/
def cfeFilewriterRegister (f : T → CfeFilewriterType F) (type : T) (s : Registry T) :
    Except Errno (Registry T) :=
  formatRegister (fun t => (f t).version) type s

/-- `cfe_filewriter_unregister`. -/
def cfeFilewriterUnregister (type : T) (s : Registry T) : Except Errno (Registry T) :=
  formatUnregister type s

/-! ### All of them -/

/-- The registries of named algorithms. -/
inductive CryptoKind where
  | cipher | hash | pbkdf | rand
  deriving DecidableEq

/-- The registries of versioned formats. -/
inductive FormatKind where
  | header | filewriter
  deriving DecidableEq

/-- The six registries. -/
inductive Kind where
  /-- One of the crypto registries. -/
  | crypto (k : CryptoKind)
  /-- One of the format registries. -/
  | format (k : FormatKind)
  deriving DecidableEq

namespace CryptoKind

/-- What is registered. -/
def Struct (F : Type) : CryptoKind → Type
  | cipher => CfeCipherType F
  | hash => CfeHashType F
  | pbkdf => CfePbkdfType F
  | rand => CfeRandType F

/-- What a lookup names: `cfe_rand_get` always asks for the same name. -/
def Query : CryptoKind → Type
  | rand => Unit
  | _ => CString

/-- The name that a lookup asks for. -/
def asked : (k : CryptoKind) → k.Query → CString
  | cipher, name => name
  | hash, name => name
  | pbkdf, name => name
  | rand, () => randName

/-- How the registry checks and names a type. -/
def toClass : (k : CryptoKind) → (T → k.Struct F) → CryptoClass T
  | cipher, f => cipherClass f
  | hash, f => hashClass f
  | pbkdf, f => pbkdfClass f
  | rand, f => randClass f

/-- `cfe_…_register` of each registry. -/
def register : (k : CryptoKind) → (T → k.Struct F) → T → Registry T → Except Errno (Registry T)
  | cipher, f => cfeCipherRegister f
  | hash, f => cfeHashRegister f
  | pbkdf, f => cfePbkdfRegister f
  | rand, f => cfeRandRegister f

/-- `cfe_…_unregister` of each registry. -/
def unregister : CryptoKind → T → Registry T → Except Errno (Registry T)
  | cipher => cfeCipherUnregister
  | hash => cfeHashUnregister
  | pbkdf => cfePbkdfUnregister
  | rand => cfeRandUnregister

/-- The locked sections of each registry. -/
def api (k : CryptoKind) (f : T → k.Struct F) : Api T k.Query where
  register := k.register f
  unregister := k.unregister
  lookup q s := findAlg (k.toClass f) s (k.asked q)

/-- The four registries are copies of one text. -/
theorem api_eq (k : CryptoKind) (f : T → k.Struct F) : k.api f = cryptoApi (k.toClass f) k.asked := by
  cases k <;> rfl

/-- So all four are lawful. -/
theorem lawful (k : CryptoKind) (f : T → k.Struct F) : (k.api f).Lawful NoDefault := by
  rw [api_eq]
  exact cryptoApi_lawful _ _

/-- The callback field: `alloc_ctx`, `derive` or `get`. -/
def callback : (k : CryptoKind) → k.Struct F → Option F
  | cipher, t => t.allocCtx
  | hash, t => t.allocCtx
  | pbkdf, t => t.derive
  | rand, t => t.get

/-- The name ends inside its array. A name behind a pointer is a string anyway. -/
def Terminated : (k : CryptoKind) → k.Struct F → Prop
  | cipher, t => 0 ∈ t.name.toList
  | hash, _ => True
  | pbkdf, t => 0 ∈ t.name.toList
  | rand, _ => True

/-- The name of a type whose name ends inside its array. -/
def nameOf : (k : CryptoKind) → k.Struct F → CString
  | cipher, t => CString.ofMem t.name.toList
  | hash, t => t.name.getD (CString.ofMem [])
  | pbkdf, t => CString.ofMem t.name.toList
  | rand, t => t.name.getD (CString.ofMem [])

omit [DecidableEq T] in
/-- A name that ends inside its array does not depend on what follows it. -/
theorem name_of_terminated (k : CryptoKind) (f : T → k.Struct F) {t : T} (h : k.Terminated (f t))
    (refcnt : T → CfeAtomic) : (k.toClass f).name refcnt t = k.nameOf (f t) := by
  cases k with
  | cipher => exact CString.ofMem_append h _
  | hash => rfl
  | pbkdf => exact CString.ofMem_append h _
  | rand => rfl

omit [DecidableEq T] in
/-- Each of them refuses a type without its callback. -/
theorem callback_of_accepts (k : CryptoKind) (f : T → k.Struct F) {t : T}
    (h : (k.toClass f).accepts t = true) : (k.callback (f t)).isSome := by
  cases k with
  | cipher => exact (Bool.and_eq_true_iff.mp h).2
  | hash => exact (Bool.and_eq_true_iff.mp h).2
  | pbkdf => exact h
  | rand => exact (Bool.and_eq_true_iff.mp h).2

end CryptoKind

namespace FormatKind

/-- What is registered. -/
def Struct (F : Type) : FormatKind → Type
  | header => CfeHeaderType F
  | filewriter => CfeFilewriterType F

/-- The width of a version: `uint16_t` or `unsigned`. -/
def width : FormatKind → ℕ
  | header => 16
  | filewriter => 32

/-- `version`. -/
def version : (k : FormatKind) → k.Struct F → BitVec k.width
  | header, t => t.version
  | filewriter, t => t.version

/-- `cfe_…_register` of each registry. -/
def register : (k : FormatKind) → (T → k.Struct F) → T → Registry T → Except Errno (Registry T)
  | header, f => cfeHeaderRegister f
  | filewriter, f => cfeFilewriterRegister f

/-- `cfe_…_unregister` of each registry. -/
def unregister : FormatKind → T → Registry T → Except Errno (Registry T)
  | header => cfeHeaderUnregister
  | filewriter => cfeFilewriterUnregister

/-- The locked sections of each registry. -/
def api (k : FormatKind) (f : T → k.Struct F) : Api T (BitVec 32) where
  register := k.register f
  unregister := k.unregister
  lookup := formatLookup fun t => k.version (f t)

/-- The two registries are copies of one text. -/
theorem api_eq (k : FormatKind) (f : T → k.Struct F) : k.api f = formatApi fun t => k.version (f t) := by
  cases k <;> rfl

/-- So both are lawful. -/
theorem lawful (k : FormatKind) (f : T → k.Struct F) : (k.api f).Lawful DefaultListed := by
  rw [api_eq]
  exact formatApi_lawful _

/-- The callback field `alloc`. -/
def callback : (k : FormatKind) → k.Struct F → Option F
  | header, t => t.alloc
  | filewriter, t => t.alloc

end FormatKind

namespace Kind

/-- What is registered. -/
def Struct (F : Type) : Kind → Type
  | crypto k => k.Struct F
  | format k => k.Struct F

/-- What a lookup asks for: a name, or a version. -/
def Query : Kind → Type
  | crypto k => k.Query
  | format _ => BitVec 32

/-- The locked sections. -/
def api : (k : Kind) → (T → k.Struct F) → Api T k.Query
  | crypto k, f => k.api f
  | format k, f => k.api f

/-- The callback of a type. -/
def callback : (k : Kind) → k.Struct F → Option F
  | crypto k, t => k.callback t
  | format k, t => k.callback t

/-- A call that succeeds leaves an object that keeps the reference: a context, a
header or a writer. Key derivations and random numbers only use the type. -/
def makesObject : Kind → Bool
  | crypto .pbkdf => false
  | crypto .rand => false
  | _ => true

/-- There is a function that destroys an object and drops its reference:
`cfe_cipher_destroy_ctx`, `cfe_hash_destroy_ctx`, `cfe_header_close`. -/
def destroysObject : Kind → Bool
  | crypto .cipher => true
  | crypto .hash => true
  | format .header => true
  | _ => false

/-- References can be taken and dropped directly: `cfe_cipher_ref`, `cfe_cipher_put`. -/
def hasRef : Kind → Bool
  | crypto .cipher => true
  | _ => false

/-- A call may give up before it reads the callback: `cfe_filewriter_create` first takes a
reference to the cipher. -/
def refsCipher : Kind → Bool
  | format .filewriter => true
  | _ => false

/-- What is known of the default: a crypto registry has none, that of a format registry
is registered. -/
def Good : Kind → Registry T → Prop
  | crypto _ => NoDefault
  | format _ => DefaultListed

/-- All six registries are lawful. -/
theorem lawful (k : Kind) (f : T → k.Struct F) : (k.api f).Lawful k.Good := by
  cases k with
  | crypto k => exact k.lawful f
  | format k => exact k.lawful f

/-- `unregister` fails with `EBUSY` when the counter is not read as `1`. -/
theorem unregister_busy (k : Kind) (f : T → k.Struct F) {s : Registry T} {t : T}
    (h : cfeAtomicGet (s.refcnt t) ≠ 1) : (k.api f).unregister t s = .error EBUSY := by
  have hcrypto : cryptoUnregister t s = .error EBUSY := if_pos h
  have hformat : formatUnregister t s = .error EBUSY := by
    unfold formatUnregister
    rw [if_pos h, ite_self]
  cases k with
  | crypto k => cases k <;> exact hcrypto
  | format k => cases k <;> exact hformat

end Kind

end LibCfe
