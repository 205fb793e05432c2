import LibCfe.Registry.Kinds
import Mathlib.Data.Multiset.AddSub

/-!
# What the file functions work on

Creating a file goes through three registries and a few calls of the C library and
the operating system. `World` is what these calls change: the registries, `errno`,
the files behind the descriptors, and the log of the calls that take or give back
something. `Env` is what one call of `cfe_create` meets: which build this is, and
how each of the calls it makes ends. Each such call is made at most once, so `Env`
has one outcome for each.

`live` adds the log up to what is held, so that nothing is leaked exactly when
`live` is what it was.
-/

namespace LibCfe

/-- The number of an error; it is not `0`. -/
abbrev ErrorCode := { e : Errno // 0 < e }

/-- An address. -/
abbrev Addr := BitVec 64

/-- What is held of the C library and the operating system. -/
inductive Resource where
  /-- A block of the heap. -/
  | block (addr : Addr)
  /-- A mapping of so many bytes. -/
  | mapping (addr : Addr) (len : BitVec 64)
  /-- The lock that was initialised in a block. -/
  | lock (addr : Addr)
  deriving DecidableEq

/-- The calls that take something or give it back. -/
inductive SysCall where
  /-- `calloc` returned this block. -/
  | calloc (addr : Addr)
  /-- `free`. -/
  | free (addr : Addr)
  /-- `mmap` returned this address. -/
  | mmap (addr : Addr) (len : BitVec 64)
  /-- `munmap`, and whether it succeeded. -/
  | munmap (addr : Addr) (len : BitVec 64) (ok : Bool)
  /-- `pthread_rwlock_init` of the lock in a block. -/
  | rwlockInit (addr : Addr)
  /-- `pthread_rwlock_destroy` of the lock in a block. -/
  | rwlockDestroy (addr : Addr)
  deriving DecidableEq

/-- What is held after a call, given what was held before. -/
def SysCall.effect (m : Multiset Resource) : SysCall → Multiset Resource
  | calloc addr => .block addr ::ₘ m
  | free addr => m.erase (.block addr)
  | mmap addr len => .mapping addr len ::ₘ m
  | munmap addr len true => m.erase (.mapping addr len)
  | munmap _ _ false => m
  | rwlockInit addr => .lock addr ::ₘ m
  | rwlockDestroy addr => m.erase (.lock addr)

/-- What `fstat` tells of a file. -/
structure FileStat where
  /-- `st_mode`. -/
  mode : BitVec 32
  /-- `st_size`. -/
  size : ℤ
  deriving DecidableEq

/-- `S_ISREG`. -/
def sIsreg (mode : BitVec 32) : Bool := mode &&& 0o170000 == 0o100000

/-- The state that the file functions work on. -/
structure World (H W C : Type) where
  /-- The registry of `header.c`. -/
  headers : Registry H
  /-- The registry of `filewriter.c`. -/
  writers : Registry W
  /-- The registry of `cipher.c`. -/
  ciphers : Registry C
  /-- `errno`, when it has been set in the call looked at. -/
  errno : Option Errno
  /-- The file behind each descriptor. -/
  files : ℤ → FileStat
  /-- The calls made. -/
  log : List SysCall

/-- How the library was built: with `HAVE_POSIX_FALLOCATE`, or without it. -/
inductive Build where
  | posixFallocate | preallocate
  deriving DecidableEq

/-- `MAP_FAILED`. -/
def MAP_FAILED : Addr := -1

/-- What one call of `cfe_create` meets. -/
structure Env where
  /-- The build. -/
  build : Build
  /-- The page size is this power of two. -/
  pageshift : ℕ
  pageshift_le : pageshift ≤ 31
  /-- Whether `fstat` fails. -/
  fstat : Option ErrorCode
  /-- The allocation of the file. -/
  fileBlock : Except ErrorCode Addr
  /-- The allocation of the header. -/
  headerBlock : Except ErrorCode Addr
  /-- Whether `posix_fallocate` or `F_PREALLOCATE` fails. -/
  fallocate : Option ErrorCode
  /-- `mmap`. -/
  mmap : Except ErrorCode Addr
  /-- It returns the address of a page. -/
  mmap_page : ∀ addr, mmap = .ok addr → addr ≠ 0 ∧ addr ≠ MAP_FAILED ∧ addr.toNat % 2 ^ pageshift = 0
  /-- The allocation of the file writer. -/
  writerBlock : Except ErrorCode Addr

/-- `sysconf(_SC_PAGESIZE)`. -/
def Env.pagesize (env : Env) : BitVec 64 := BitVec.ofNat 64 (2 ^ env.pageshift)

namespace World

variable {H W C : Type}

/-- `errno = e`. -/
def setErrno (s : World H W C) (e : Errno) : World H W C := { s with errno := some e }

/-- One more call. -/
def emit (s : World H W C) (c : SysCall) : World H W C := { s with log := s.log ++ [c] }

/-- What is held: all that was taken and not given back. -/
def live (s : World H W C) : Multiset Resource := s.log.foldl SysCall.effect 0

/-- Nothing happened to the registries. -/
def SameRegistries (s s' : World H W C) : Prop :=
  s'.headers = s.headers ∧ s'.writers = s.writers ∧ s'.ciphers = s.ciphers

@[simp] theorem live_setErrno (s : World H W C) (e : Errno) : (s.setErrno e).live = s.live := rfl

@[simp] theorem live_emit (s : World H W C) (c : SysCall) : (s.emit c).live = c.effect s.live := by
  simp [live, emit, List.foldl_append]

@[simp] theorem errno_emit (s : World H W C) (c : SysCall) : (s.emit c).errno = s.errno := rfl
@[simp] theorem files_emit (s : World H W C) (c : SysCall) : (s.emit c).files = s.files := rfl

@[refl] theorem SameRegistries.refl (s : World H W C) : SameRegistries s s := ⟨rfl, rfl, rfl⟩

end World

variable {H W C : Type}

/-! ### Calls of the C library -/

/-- `calloc`, ending like this. -/
def calloc (r : Except ErrorCode Addr) (s : World H W C) : Option Addr × World H W C :=
  match r with
  | .ok addr => (some addr, s.emit (.calloc addr))
  | .error e => (none, s.setErrno e)

/-- `free`. -/
def free (addr : Addr) (s : World H W C) : World H W C := s.emit (.free addr)

/-- `fstat`: what it tells when it succeeds. -/
def fstat (env : Env) (fd : ℤ) (s : World H W C) : Option FileStat × World H W C :=
  match env.fstat with
  | none => (some (s.files fd), s)
  | some e => (none, s.setErrno e)

/-- `mmap` of the first `len` bytes of a file. It refuses a length of `0`. -/
def mmap (env : Env) (len : BitVec 64) (s : World H W C) : Addr × World H W C :=
  if len = 0 then (MAP_FAILED, s.setErrno EINVAL)
  else match env.mmap with
    | .ok addr => (addr, s.emit (.mmap addr len))
    | .error e => (MAP_FAILED, s.setErrno e)

/-- `munmap`. It refuses `MAP_FAILED`, where nothing can be mapped, an address that is not that
of a page, and a length of `0`. -/
def munmap (env : Env) (addr : Addr) (len : BitVec 64) (s : World H W C) : World H W C :=
  if addr = MAP_FAILED ∨ addr.toNat % 2 ^ env.pageshift ≠ 0 ∨ len = 0
  then (s.emit (.munmap addr len false)).setErrno EINVAL
  else s.emit (.munmap addr len true)

/-- The file behind `fd` is at least `size` bytes long. -/
def World.grow (s : World H W C) (fd : ℤ) (size : ℤ) : World H W C :=
  { s with files := Function.update s.files fd { s.files fd with size := max (s.files fd).size size } }

/-- `posix_fallocate`: `0`, the file then reaching to `offset + len`, or the number of the
error. -/
def posixFallocate (env : Env) (fd offset len : ℤ) (s : World H W C) : ℤ × World H W C :=
  if offset < 0 ∨ len ≤ 0 then (EINVAL, s)
  else match env.fallocate with
    | none => (0, s.grow fd (offset + len))
    | some e => (e, s)

/-- `fcntl(fd, F_PREALLOCATE, &fst)`: it reserves blocks for the file, whose size stays. -/
def fcntlPreallocate (env : Env) (s : World H W C) : ℤ × World H W C :=
  match env.fallocate with
  | none => (0, s)
  | some e => (-1, s.setErrno e)

/-- `cfe_fallocate`. -/
def cfeFallocate (env : Env) (fd offset len : ℤ) (s : World H W C) : ℤ × World H W C :=
  match env.build with
  | .posixFallocate => posixFallocate env fd offset len s
  | .preallocate => fcntlPreallocate env s

/-- Unmapping `MAP_FAILED` fails, and says so in `errno`. -/
theorem munmap_map_failed (env : Env) (len : BitVec 64) (s : World H W C) :
    munmap env MAP_FAILED len s = (s.emit (.munmap MAP_FAILED len false)).setErrno EINVAL :=
  if_pos (.inl rfl)

/-- What `mmap` returned can be unmapped. -/
theorem munmap_mapped {env : Env} {addr : Addr} (h : env.mmap = .ok addr) {len : BitVec 64} (hlen : len ≠ 0)
    (s : World H W C) : munmap env addr len s = s.emit (.munmap addr len true) := by
  obtain ⟨-, hmapped, hpage⟩ := env.mmap_page addr h
  apply if_neg
  rintro (hfailed | hnot | hzero)
  · exact hmapped hfailed
  · exact hnot hpage
  · exact hlen hzero

/-- The number of the error with which the call in `cfe_fallocate` ends. -/
def Env.spaceErrno (env : Env) (offset len : ℤ) : Option Errno :=
  match env.build with
  | .posixFallocate => if offset < 0 ∨ len ≤ 0 then some EINVAL else env.fallocate.map (·.1)
  | .preallocate => env.fallocate.map (·.1)

theorem Env.spaceErrno_pos {env : Env} {offset len : ℤ} {e : Errno} (h : env.spaceErrno offset len = some e) : 0 < e := by
  have hmap : ∀ {o : Option ErrorCode}, o.map (·.1) = some e → 0 < e := by
    intro o ho
    obtain ⟨c, -, rfl⟩ := Option.map_eq_some_iff.mp ho
    exact c.2
  unfold spaceErrno at h
  split at h
  · split_ifs at h
    · obtain rfl := Option.some.inj h
      decide
    · exact hmap h
  · exact hmap h

section

variable {env : Env} {fd offset len : ℤ} {s : World H W C}

/-- `cfe_fallocate` with `posix_fallocate`. -/
theorem cfeFallocate_posix (hb : env.build = .posixFallocate) :
    cfeFallocate env fd offset len s = match env.spaceErrno offset len with
      | some e => (e, s)
      | none => (0, s.grow fd (offset + len)) := by
  simp only [cfeFallocate, Env.spaceErrno, hb, posixFallocate]
  split_ifs
  · rfl
  · cases env.fallocate with
    | none => rfl
    | some e => rfl

/-- `cfe_fallocate` with `F_PREALLOCATE`. -/
theorem cfeFallocate_preallocate (hb : env.build = .preallocate) :
    cfeFallocate env fd offset len s = match env.spaceErrno offset len with
      | some e => (-1, s.setErrno e)
      | none => (0, s) := by
  simp only [cfeFallocate, Env.spaceErrno, hb, fcntlPreallocate]
  cases env.fallocate with
  | none => rfl
  | some e => rfl

end

/-- Either build reserves the space just when the call in it succeeds. -/
theorem cfeFallocate_eq_zero_iff (env : Env) (fd offset len : ℤ) (s : World H W C) :
    (cfeFallocate env fd offset len s).1 = 0 ↔ env.spaceErrno offset len = none := by
  have hne : ∀ {e : Errno}, env.spaceErrno offset len = some e → (e : ℤ) ≠ 0 := fun h => (Env.spaceErrno_pos h).ne'
  cases hb : env.build with
  | posixFallocate =>
    rw [cfeFallocate_posix hb]
    cases he : env.spaceErrno offset len with
    | none => simp
    | some e => simp [hne he]
  | preallocate =>
    rw [cfeFallocate_preallocate hb]
    cases env.spaceErrno offset len with
    | none => simp
    | some e => simp

/-- Reserving space for a file makes none of the calls in the log, and leaves the registries
alone. -/
theorem cfeFallocate_same (env : Env) (fd offset len : ℤ) (s : World H W C) :
    World.SameRegistries s (cfeFallocate env fd offset len s).2 ∧
      (cfeFallocate env fd offset len s).2.log = s.log := by
  cases hb : env.build with
  | posixFallocate =>
    rw [cfeFallocate_posix hb]
    cases env.spaceErrno offset len with
    | none => exact ⟨⟨rfl, rfl, rfl⟩, rfl⟩
    | some e => exact ⟨.refl s, rfl⟩
  | preallocate =>
    rw [cfeFallocate_preallocate hb]
    cases env.spaceErrno offset len with
    | none => exact ⟨.refl s, rfl⟩
    | some e => exact ⟨⟨rfl, rfl, rfl⟩, rfl⟩

end LibCfe
