import LibCfe.Fs.Filewriter
import LibCfe.Fs.Header

/-!
# Creating a file

`src/open.c`. `cfe_create` checks its arguments, strips the prefix of the key
identifier, looks at the file and calls `do_create`, which makes a header of the
default type and then a file writer of the default type.

The caller's `struct cfe_open_params` is memory that `cfe_create` writes to, so it
is returned as it is left. A call that follows a `NULL` pointer has no result.
-/

namespace LibCfe

open World

variable {H W C F : Type}

/-- The types that are registered. -/
structure Types (H W C F : Type) where
  /-- Header types. -/
  header : H → CfeHeaderType (HeaderAlloc H W C)
  /-- File writer types. -/
  writer : W → CfeFilewriterType (FilewriterAlloc H W C)
  /-- Cipher types. -/
  cipher : C → CfeCipherType F

/-- `struct cfe_file`, and the block it is in. -/
structure CfeFile (H W C : Type) where
  /-- The block. -/
  block : Addr
  /-- `header`. -/
  header : Option (CfeHeader H W C) := none
  /-- `writer`. -/
  writer : Option (CfeFilewriter H W C) := none
  /-- `refcnt`. -/
  refcnt : CfeAtomic := ⟨0⟩

/-- `struct cfe_open_params`. -/
structure CfeOpenParams where
  /-- `header_size`. -/
  headerSize : BitVec 32
  /-- `key_ident`. -/
  keyIdent : Option CString
  /-- `cipher`. -/
  cipher : Option CString
  /-- `blocksize`. -/
  blocksize : BitVec 32
  deriving DecidableEq

/-- `"cfe:"`. -/
def cfePrefix : CString := ⟨[0x63, 0x66, 0x65, 0x3a], by decide⟩

variable [DecidableEq H]

/-- `cfe_file_destroy`. -/
def cfeFileDestroy (env : Env) (file : CfeFile H W C) (s : World H W C) : World H W C :=
  match file.header with
  | some header => cfeHeaderClose env header s
  | none => s

/-- `cfe_file_free`. -/
def cfeFileFree (env : Env) (file : CfeFile H W C) (s : World H W C) : World H W C :=
  free file.block (cfeFileDestroy env file s)

/-- `cfe_file_init`. -/
def cfeFileInit (file : CfeFile H W C) : ℤ × CfeFile H W C := (0, { file with refcnt := cfeAtomicSet 1 })

/-- `cfe_file_new`. -/
def cfeFileNew (env : Env) (s : World H W C) : Option (CfeFile H W C) × World H W C :=
  match calloc env.fileBlock s with
  | (none, s) => (none, s)
  | (some block, s) =>
    let (ret, file) := cfeFileInit { block }
    if ret ≠ 0 then (none, cfeFileFree env file s)
    else (some file, s)

variable [DecidableEq W] [DecidableEq C]

/-- `do_create`. It does nothing with the flags and the mode. -/
def doCreate (types : Types H W C F) (env : Env) (fd : ℤ) (_ _ : BitVec 32) (params : CfeOpenParams)
    (s : World H W C) : Option (Option (CfeFile H W C) × World H W C) :=
  match cfeFileNew env s with
  | (none, s) => some (none, s)
  | (some file, s) =>
    match cfeHeaderCreate types.header env CFE_HEADER_VERSION_DEFAULT fd (params.headerSize.setWidth 64) s with
    | none => none
    | some (none, s) => some (none, cfeFileFree env file s)
    | some (some header, s) =>
      let file := { file with header := some header }
      match cfeFilewriterCreate types.writer types.cipher env CFE_FILEWRITER_VERSION_DEFAULT params.cipher
          params.blocksize s with
      | none => none
      | some (none, s) => some (none, cfeFileFree env file s)
      | some (some writer, s) => some (some { file with writer := some writer }, s)

/-- `cfe_create`: the file or `NULL`, and the parameters as they are left. -/
def cfeCreate (types : Types H W C F) (env : Env) (fd : ℤ) (flags mode : BitVec 32)
    (params : Option CfeOpenParams) (s : World H W C) :
    Option (Option (CfeFile H W C) × Option CfeOpenParams × World H W C) :=
  if fd < 0 then some (none, params, s.setErrno EINVAL)
  else match params with
    | none => some (none, none, s.setErrno EINVAL)
    | some params =>
      match params.keyIdent with
      | none => some (none, some params, s.setErrno EINVAL)
      | some keyIdent =>
        if strncmp keyIdent cfePrefix 4 ≠ 0 then some (none, some params, s.setErrno EINVAL)
        else
          let params := { params with keyIdent := some (keyIdent.drop 4) }
          match fstat env fd s with
          | (none, s) => some (none, some params, s)
          | (some st, s) =>
            if !sIsreg st.mode || st.size != 0 then some (none, some params, s.setErrno EINVAL)
            else (doCreate types env fd flags mode params s).map fun (file, s) => (file, some params, s)

/-! ### How a call ends -/

/-- The arguments are those of a file to create: these parameters, with this identifier. -/
structure ValidArgs (fd : ℤ) (params : Option CfeOpenParams) (p : CfeOpenParams) (id : CString) : Prop where
  fd_nonneg : 0 ≤ fd
  params_eq : params = some p
  keyIdent_eq : p.keyIdent = some id
  prefixed : strncmp id cfePrefix 4 = 0

/-- A regular file with nothing in it. -/
def EmptyRegular (st : FileStat) : Prop := sIsreg st.mode = true ∧ st.size = 0

/-- The parameters once the prefix was stripped. -/
def CfeOpenParams.strip (p : CfeOpenParams) (id : CString) : CfeOpenParams :=
  { p with keyIdent := some (id.drop 4) }

/-- How a call of `cfe_create` ends. -/
inductive CreateResult (types : Types H W C F) (env : Env) (fd : ℤ) (flags mode : BitVec 32)
    (params : Option CfeOpenParams) (s : World H W C) :
    Option (Option (CfeFile H W C) × Option CfeOpenParams × World H W C) → Prop where
  /-- The arguments are rejected. -/
  | rejected (hargs : ∀ p id, ¬ ValidArgs fd params p id) :
      CreateResult types env fd flags mode params s (some (none, params, s.setErrno EINVAL))
  /-- `fstat` fails. -/
  | noStat (p : CfeOpenParams) (id : CString) (hargs : ValidArgs fd params p id) (e : ErrorCode)
      (hstat : env.fstat = some e) :
      CreateResult types env fd flags mode params s (some (none, some (p.strip id), s.setErrno e))
  /-- The file is not a regular one, or not empty. -/
  | notEmpty (p : CfeOpenParams) (id : CString) (hargs : ValidArgs fd params p id) (hstat : env.fstat = none)
      (hfile : ¬ EmptyRegular (s.files fd)) :
      CreateResult types env fd flags mode params s (some (none, some (p.strip id), s.setErrno EINVAL))
  /-- It is left to `do_create`. -/
  | created (p : CfeOpenParams) (id : CString) (hargs : ValidArgs fd params p id) (hstat : env.fstat = none)
      (hfile : EmptyRegular (s.files fd)) :
      CreateResult types env fd flags mode params s
        ((doCreate types env fd flags mode (p.strip id) s).map fun r => (r.1, some (p.strip id), r.2))

/-- **A call of `cfe_create` ends in one of these ways.** -/
theorem cfeCreate_result (types : Types H W C F) (env : Env) (fd : ℤ) (flags mode : BitVec 32)
    (params : Option CfeOpenParams) (s : World H W C) :
    CreateResult types env fd flags mode params s (cfeCreate types env fd flags mode params s) := by
  unfold cfeCreate
  by_cases hfd : fd < 0
  · rw [if_pos hfd]
    exact .rejected fun p id h => absurd h.fd_nonneg (not_le.mpr hfd)
  rw [if_neg hfd]
  cases params with
  | none => exact .rejected fun p id h => by cases h.params_eq
  | some p =>
    simp only
    cases hid : p.keyIdent with
    | none =>
      apply CreateResult.rejected
      intro q id h
      obtain rfl := Option.some.inj h.params_eq
      rw [h.keyIdent_eq] at hid
      cases hid
    | some id =>
      simp only
      by_cases hstart : strncmp id cfePrefix 4 = 0
      · have hargs : ValidArgs fd (some p) p id := ⟨not_lt.mp hfd, rfl, hid, hstart⟩
        rw [if_neg (not_not.mpr hstart)]
        unfold fstat
        cases hstat : env.fstat with
        | some e => exact .noStat p id hargs e hstat
        | none =>
          simp only
          split
          · next hbad =>
            apply CreateResult.notEmpty p id hargs hstat
            intro h
            simp [h.1, h.2] at hbad
          · next hgood =>
            exact .created p id hargs hstat (by simpa [EmptyRegular] using hgood)
      · rw [if_pos hstart]
        refine .rejected fun q id' h => hstart ?_
        obtain rfl := Option.some.inj h.params_eq
        have hid' := h.keyIdent_eq
        rw [hid] at hid'
        obtain rfl := Option.some.inj hid'
        exact h.prefixed

/-! ### Making a file -/


omit [DecidableEq W] [DecidableEq C] in
/-- `cfe_file_init` cannot fail. -/
theorem cfeFileNew_eq (env : Env) (s : World H W C) :
    cfeFileNew env s = match env.fileBlock with
      | .error e => (none, s.setErrno e)
      | .ok block => (some { block, refcnt := cfeAtomicSet 1 }, s.emit (.calloc block)) := by
  unfold cfeFileNew calloc
  cases env.fileBlock with
  | error e => rfl
  | ok block => rfl

/-! ### The call of `tests/check_create.c` -/

/-- `"cfe:nonexisting"`. -/
def nonexisting : CString :=
  ⟨[0x63, 0x66, 0x65, 0x3a, 0x6e, 0x6f, 0x6e, 0x65, 0x78, 0x69, 0x73, 0x74, 0x69, 0x6e, 0x67], by decide⟩

/-- `"aes-cbc-256"`. -/
def aesCbc256Name : CString := ⟨[0x61, 0x65, 0x73, 0x2d, 0x63, 0x62, 0x63, 0x2d, 0x32, 0x35, 0x36], by decide⟩

/-- What the test passes. -/
def checkCreateParams : CfeOpenParams where
  headerSize := 0
  keyIdent := some nonexisting
  cipher := some aesCbc256Name
  blocksize := 512

/-- The one cipher it needs. -/
def aesCbc256 : CfeCipherType Unit where
  name := ⟨aesCbc256Name.chars ++ [0, 0, 0, 0, 0], by decide⟩
  flags := 0
  ivsize := 16
  keysize := 32
  blocksize := 16
  allocCtx := some ()

/-- Version 1 of both formats, and that cipher. -/
def checkCreateTypes : Types Unit Unit Unit Unit where
  header _ := ⟨1, some headerV1⟩
  writer _ := ⟨1, some filewriterV1⟩
  cipher _ := aesCbc256

/-- Their writers can be freed. -/
theorem checkCreateTypes_frees (t : Unit) (alloc : FilewriterAlloc Unit Unit Unit)
    (h : (checkCreateTypes.writer t).alloc = some alloc) : alloc.Makes NewFilewriter.Frees := by
  obtain rfl := Option.some.inj h
  exact filewriterV1_frees

/-- The three types are registered, and every file is empty. -/
def checkCreateWorld : World Unit Unit Unit where
  headers := ⟨[()], some (), fun _ => ⟨1⟩⟩
  writers := ⟨[()], some (), fun _ => ⟨1⟩⟩
  ciphers := ⟨[()], none, fun _ => ⟨1⟩⟩
  errno := none
  files _ := ⟨0o100600, 0⟩
  log := []

/-- All that the test calls succeeds. -/
def checkCreateEnv : Env where
  build := .posixFallocate
  pageshift := 12
  pageshift_le := by decide
  fstat := none
  fileBlock := .ok 0x1000
  headerBlock := .ok 0x2000
  fallocate := none
  mmap := .ok 0x3000
  mmap_page addr h := by
    obtain rfl := Except.ok.inj h
    decide
  writerBlock := .ok 0x4000

end LibCfe
