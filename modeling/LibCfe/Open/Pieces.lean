import LibCfe.Open.References
import LibCfe.Registry.Owners

/-!
# The pieces of a call of `cfe_create`

A call takes the locks of three registries one after the other and holds none of them
in between, so the calls of other threads fall between its pieces. `CreatePc` is where
a call of `do_create` is, with its local variables, and `createNext` its next piece:
each lookup with its increment under a lock; each `alloc` of a type, which works on
memory and a file that are its own; and each decrement, none of which is made under a
lock.

## What is proved

* `doCreate_pieces` — the pieces of a call, one after the other, are `do_create`.
* `cfeCreate_checks` — what comes before them in `cfe_create`.
* `createNext_effect` — each piece takes or drops at most one reference in one
  registry, and turns what the call owns into what it owns afterwards, whatever else is
  held.
-/

namespace LibCfe

open World Theory

variable {H W C F : Type} [DecidableEq H] [DecidableEq W] [DecidableEq C]

/-! ### open.c, in pieces -/

/-- `cfe_create` up to its call of `do_create`: the parameters of that call, when it comes
to it, and the caller's as they are left. -/
def cfeCreateChecks (env : Env) (fd : ℤ) (params : Option CfeOpenParams) (s : World H W C) :
    Option CfeOpenParams × Option CfeOpenParams × World H W C :=
  if fd < 0 then (none, params, s.setErrno EINVAL)
  else match params with
    | none => (none, none, s.setErrno EINVAL)
    | some params =>
      match params.keyIdent with
      | none => (none, some params, s.setErrno EINVAL)
      | some keyIdent =>
        if strncmp keyIdent cfePrefix 4 ≠ 0 then (none, some params, s.setErrno EINVAL)
        else
          let params := { params with keyIdent := some (keyIdent.drop 4) }
          match fstat env fd s with
          | (none, s) => (none, some params, s)
          | (some st, s) =>
            if !sIsreg st.mode || st.size != 0 then (none, some params, s.setErrno EINVAL)
            else (some params, some params, s)

/-- The arguments of `do_create`, and what the call meets. -/
structure CreateCall where
  /-- What it meets. -/
  env : Env
  /-- `fd`. -/
  fd : ℤ
  /-- `params`. -/
  params : CfeOpenParams

/-- A file that was created. -/
structure OpenFile (H W C : Type) extends CfeFile H W C where
  /-- The cipher type that the call took a reference to for its writer. -/
  cipher : C

/-- Where a call of `do_create` is. -/
inductive CreatePc (H W C : Type) where
  /-- There is no call. -/
  | idle
  /-- Before `cfe_file_new`. -/
  | newFile (c : CreateCall)
  /-- Before the lookup of `cfe_header_create`. -/
  | findHeader (c : CreateCall) (file : CfeFile H W C)
  /-- Before the `alloc` of the header type found. -/
  | allocHeader (c : CreateCall) (file : CfeFile H W C) (type : H)
  /-- It failed; before the decrement. -/
  | unrefHeader (c : CreateCall) (file : CfeFile H W C) (type : H)
  /-- There is a header. Before the lookup of `cfe_filewriter_create`. -/
  | findWriter (c : CreateCall) (file : CfeFile H W C) (header : CfeHeader H W C)
  /-- Before `cfe_cipher_ref`. -/
  | refCipher (c : CreateCall) (file : CfeFile H W C) (header : CfeHeader H W C) (type : W)
  /-- Before the `alloc` of the writer type found. -/
  | allocWriter (c : CreateCall) (file : CfeFile H W C) (header : CfeHeader H W C) (type : W) (ctype : C)
  /-- There is no cipher, or `alloc` failed; before the decrement. -/
  | unrefWriter (c : CreateCall) (file : CfeFile H W C) (header : CfeHeader H W C) (type : W) (ctype : Option C)
  /-- After it, before `cfe_cipher_put`. -/
  | putCipher (c : CreateCall) (file : CfeFile H W C) (header : CfeHeader H W C) (ctype : C)
  /-- There is no writer. Before the header's `free` in `cfe_header_close`. -/
  | freeHeader (c : CreateCall) (file : CfeFile H W C) (header : CfeHeader H W C)
  /-- Before the decrement there. -/
  | closeHeader (c : CreateCall) (file : CfeFile H W C) (type : H)
  /-- Before the `free` in `cfe_file_free`. -/
  | freeFile (c : CreateCall) (file : CfeFile H W C)
  /-- Before the call returns this. -/
  | done (file : Option (OpenFile H W C))

/-- The next piece of a call. There is none when it calls `strcmp` with `NULL`, or through a
`NULL` `alloc`. -/
def createNext (types : Types H W C F) : CreatePc H W C → World H W C → Option (CreatePc H W C × World H W C)
  | .newFile c, s =>
    match cfeFileNew c.env s with
    | (none, s) => some (.done none, s)
    | (some file, s) => some (.findHeader c file, s)
  | .findHeader c file, s =>
    match formatLookup (fun t => (types.header t).version) CFE_HEADER_VERSION_DEFAULT s.headers with
    | none => some (.freeFile c file, s.setErrno ENOSYS)
    | some type => some (.allocHeader c file type, { s with headers := s.headers.inc type })
  | .allocHeader c file type, s =>
    let size : BitVec 64 := c.params.headerSize.setWidth 64
    let size := (normalizeHeadersize c.env.pagesize (size.setWidth 32)).setWidth 64
    match (types.header type).alloc with
    | none => none
    | some alloc =>
      match alloc.alloc c.env c.fd size s with
      | (none, s) => some (.unrefHeader c file type, s)
      | (some header, s) => some (.findWriter c file { header with type }, s)
  | .unrefHeader c file type, s => some (.freeFile c file, { s with headers := s.headers.dec type })
  | .findWriter c file header, s =>
    match formatLookup (fun t => (types.writer t).version) CFE_FILEWRITER_VERSION_DEFAULT s.writers with
    | none => some (.freeHeader c file header, s.setErrno ENOSYS)
    | some type => some (.refCipher c file header type, { s with writers := s.writers.inc type })
  | .refCipher c file header type, s =>
    match cfeCipherRefPtr types.cipher c.params.cipher s.ciphers with
    | none => none
    | some (none, _) => some (.unrefWriter c file header type none, s)
    | some (some ctype, ciphers) => some (.allocWriter c file header type ctype, { s with ciphers })
  | .allocWriter c file header type ctype, s =>
    match (types.writer type).alloc with
    | none => none
    | some alloc =>
      match alloc.alloc c.env ctype c.params.blocksize s with
      | (none, s) => some (.unrefWriter c file header type (some ctype), s)
      | (some writer, s) =>
        some (.done (some { file with header := some header, writer := some { writer with type }, cipher := ctype }), s)
  | .unrefWriter c file header type none, s =>
    some (.freeHeader c file header, { s with writers := s.writers.dec type })
  | .unrefWriter c file header type (some ctype), s =>
    some (.putCipher c file header ctype, { s with writers := s.writers.dec type })
  | .putCipher c file header ctype, s =>
    some (.freeHeader c file header, { s with ciphers := cfeCipherPut (some ctype) s.ciphers })
  | .freeHeader c file header, s => some (.closeHeader c file header.type, header.free c.env s)
  | .closeHeader c file type, s => some (.freeFile c file, { s with headers := s.headers.dec type })
  | .freeFile _ file, s => some (.done none, free file.block s)
  | .idle, _ => none
  | .done _, _ => none

/-- So many pieces, or as many as there are up to the end of the call. -/
def createPieces (types : Types H W C F) : ℕ → CreatePc H W C → World H W C → Option (CreatePc H W C × World H W C)
  | _, .done file, s => some (.done file, s)
  | 0, pc, s => some (pc, s)
  | n + 1, pc, s =>
    match createNext types pc s with
    | none => none
    | some (pc, s) => createPieces types n pc s

/-! ### The pieces make up the call -/

/-- What comes before `do_create` in `cfe_create`. -/
theorem cfeCreate_checks (types : Types H W C F) (env : Env) (fd : ℤ) (flags mode : BitVec 32)
    (params : Option CfeOpenParams) (s : World H W C) :
    cfeCreate types env fd flags mode params s = match cfeCreateChecks env fd params s with
      | (none, params, s) => some (none, params, s)
      | (some p, params, s) => (doCreate types env fd flags mode p s).map fun (file, s) => (file, params, s) := by
  unfold cfeCreate cfeCreateChecks
  split_ifs with hfd
  · rfl
  cases params with
  | none => rfl
  | some p =>
    simp only
    cases p.keyIdent with
    | none => rfl
    | some id =>
      simp only
      split_ifs with hstart
      · rfl
      · simp only [fstat]
        cases env.fstat with
        | some e => rfl
        | none =>
          simp only
          split_ifs <;> rfl

/-- The call returns what the pieces come to. -/
def CreatePc.returns (r : Option (CreatePc H W C × World H W C)) : Option (Option (CfeFile H W C) × World H W C) :=
  match r with
  | some (.done file, s) => some (file.map (·.toCfeFile), s)
  | _ => none

section

variable {types : Types H W C F} {n : ℕ} {c : CreateCall} {file : CfeFile H W C} {s : World H W C}

/-- One piece, and the rest. -/
theorem createPieces_succ {pc pc' : CreatePc H W C} {s' : World H W C} (h : createNext types pc s = some (pc', s')) :
    createPieces types (n + 1) pc s = createPieces types n pc' s' := by
  cases pc with
  | done r => cases h
  | _ => simp only [createPieces, h]

/-- A piece that is not possible. -/
theorem createPieces_stuck {pc : CreatePc H W C} (hpc : ∀ r, pc ≠ .done r) (h : createNext types pc s = none) :
    createPieces types (n + 1) pc s = none := by
  cases pc with
  | done r => exact absurd rfl (hpc r)
  | _ => simp only [createPieces, h]

/-- Failing without a header. -/
theorem createPieces_freeFile (hfile : file.header = none) :
    CreatePc.returns (createPieces types (n + 1) (.freeFile c file) s) = some (none, cfeFileFree c.env file s) := by
  simp only [createPieces, createNext, CreatePc.returns, cfeFileFree, cfeFileDestroy, hfile, Option.map_none]

/-- Failing with one. -/
theorem createPieces_freeHeader (header : CfeHeader H W C) :
    CreatePc.returns (createPieces types (n + 3) (.freeHeader c file header) s) =
      some (none, cfeFileFree c.env { file with header := some header } s) := by
  simp only [createPieces, createNext, CreatePc.returns, cfeFileFree, cfeFileDestroy, cfeHeaderClose, Option.map_none]

/-- From the lookup of the file writer on. -/
theorem createPieces_findWriter (header : CfeHeader H W C) :
    CreatePc.returns (createPieces types (n + 8) (.findWriter c file header) s) =
      match cfeFilewriterCreate types.writer types.cipher c.env CFE_FILEWRITER_VERSION_DEFAULT c.params.cipher
          c.params.blocksize s with
      | none => none
      | some (none, s) => some (none, cfeFileFree c.env { file with header := some header } s)
      | some (some writer, s) => some (some { file with header := some header, writer := some writer }, s) := by
  unfold cfeFilewriterCreate
  cases hfind : formatLookup (fun t => (types.writer t).version) CFE_FILEWRITER_VERSION_DEFAULT s.writers with
  | none =>
    rw [createPieces_succ (by simp only [createNext, hfind]; rfl)]
    exact createPieces_freeHeader header
  | some type =>
    simp only
    rw [createPieces_succ (by simp only [createNext, hfind]; rfl)]
    cases href : cfeCipherRefPtr types.cipher c.params.cipher s.ciphers with
    | none =>
      rw [createPieces_stuck (by intro r hr; cases hr) (by simp only [createNext, href])]
      rfl
    | some r =>
      obtain ⟨ctype, ciphers⟩ := r
      cases ctype with
      | none =>
        rw [createPieces_succ (by simp only [createNext, href]; rfl),
          createPieces_succ (by simp only [createNext]; rfl)]
        exact createPieces_freeHeader header
      | some ctype =>
        simp only
        rw [createPieces_succ (by simp only [createNext, href]; rfl)]
        cases halloc : (types.writer type).alloc with
        | none =>
          rw [createPieces_stuck (by intro r hr; cases hr) (by simp only [createNext, halloc])]
          rfl
        | some alloc =>
          simp only
          rcases hmade : alloc.alloc c.env ctype c.params.blocksize
            { s with writers := s.writers.inc type, ciphers := ciphers } with ⟨_ | writer, s'⟩
          · rw [createPieces_succ (by simp only [createNext, halloc, hmade]; rfl),
              createPieces_succ (by simp only [createNext]; rfl),
              createPieces_succ (by simp only [createNext]; rfl)]
            exact createPieces_freeHeader header
          · rw [createPieces_succ (by simp only [createNext, halloc, hmade]; rfl)]
            rfl

/-- **The pieces of a call, one after the other, are `do_create`.** -/
theorem doCreate_pieces (types : Types H W C F) (c : CreateCall) (flags mode : BitVec 32) (s : World H W C) :
    CreatePc.returns (createPieces types 11 (.newFile c) s) = doCreate types c.env c.fd flags mode c.params s := by
  unfold doCreate
  rw [cfeFileNew_eq]
  cases hblock : c.env.fileBlock with
  | error e =>
    rw [createPieces_succ (by simp only [createNext, cfeFileNew_eq, hblock]; rfl)]
    rfl
  | ok block =>
    simp only [cfeHeaderCreate]
    rw [createPieces_succ (by simp only [createNext, cfeFileNew_eq, hblock]; rfl)]
    cases hfind : formatLookup (fun t => (types.header t).version) CFE_HEADER_VERSION_DEFAULT
      (s.emit (.calloc block)).headers with
    | none =>
      rw [createPieces_succ (by simp only [createNext, hfind]; rfl)]
      exact createPieces_freeFile rfl
    | some type =>
      simp only
      rw [createPieces_succ (by simp only [createNext, hfind]; rfl)]
      cases halloc : (types.header type).alloc with
      | none =>
        rw [createPieces_stuck (by intro r hr; cases hr) (by simp only [createNext, halloc])]
        rfl
      | some alloc =>
        simp only
        rcases hmade : alloc.alloc c.env c.fd
          ((normalizeHeadersize c.env.pagesize ((c.params.headerSize.setWidth 64).setWidth 32)).setWidth 64)
          { s.emit (.calloc block) with headers := (s.emit (.calloc block)).headers.inc type } with ⟨_ | header, s'⟩
        · rw [createPieces_succ (by simp only [createNext, halloc, hmade]; rfl),
            createPieces_succ (by simp only [createNext]; rfl)]
          exact createPieces_freeFile rfl
        · rw [createPieces_succ (by simp only [createNext, halloc, hmade]; rfl)]
          exact createPieces_findWriter { header with type }

end

/-! ### What a call holds -/

/-- The references of a file: to the types of its header and writer, and to the cipher type
of the writer. -/
def OpenFile.headerRefs (file : OpenFile H W C) : List H := (file.header.map (·.type)).toList

/-- To the type of its writer. -/
def OpenFile.writerRefs (file : OpenFile H W C) : List W := (file.writer.map (·.type)).toList

namespace CreatePc

/-- The references to header types that a call in progress holds. -/
def headerRefs : CreatePc H W C → List H
  | .allocHeader _ _ type | .unrefHeader _ _ type | .closeHeader _ _ type => [type]
  | .findWriter _ _ header | .refCipher _ _ header _ | .allocWriter _ _ header _ _ | .unrefWriter _ _ header _ _
  | .putCipher _ _ header _ | .freeHeader _ _ header => [header.type]
  | .done (some file) => file.headerRefs
  | .idle | .newFile _ | .findHeader _ _ | .freeFile _ _ | .done none => []

/-- To file writer types. -/
def writerRefs : CreatePc H W C → List W
  | .refCipher _ _ _ type | .allocWriter _ _ _ type _ | .unrefWriter _ _ _ type _ => [type]
  | .done (some file) => file.writerRefs
  | _ => []

/-- To cipher types. -/
def cipherRefs : CreatePc H W C → List C
  | .allocWriter _ _ _ _ ctype | .unrefWriter _ _ _ _ (some ctype) | .putCipher _ _ _ ctype => [ctype]
  | .done (some file) => [file.cipher]
  | _ => []

end CreatePc

/-- The header's `free` gives back so much. -/
def CfeHeader.Frees (env : Env) (header : CfeHeader H W C) (m : Multiset Resource) : Prop :=
  ∀ (s : World H W C) (rest : Multiset Resource), s.live = m + rest →
    (header.free env s).live = rest ∧ SameRegistries s (header.free env s)

/-- `P` is true of the writers of every type and what they took. -/
def Types.WritersMake (types : Types H W C F) (P : NewFilewriter H W C → Multiset Resource → Prop) : Prop :=
  ∀ t alloc, (types.writer t).alloc = some alloc → alloc.Makes P

omit [DecidableEq H] [DecidableEq W] [DecidableEq C] in
theorem Types.writersMake_true (types : Types H W C F) : types.WritersMake fun _ _ => True :=
  fun _ alloc _ => alloc.makes_true

/-- What a file is made of: its block, what its header would give back, and what its writer
took, of which `P` is true. -/
def OpenFile.Owns (P : NewFilewriter H W C → Multiset Resource → Prop) (file : OpenFile H W C)
    (m : Multiset Resource) : Prop :=
  ∃ env header writer mh mw, file.header = some header ∧ file.writer = some writer ∧
    CfeHeader.Frees env header mh ∧ P writer.toNewFilewriter mw ∧ m = mw + (mh + {.block file.block})

/-- What a call in progress owns. -/
def CreatePc.Owns (P : NewFilewriter H W C → Multiset Resource → Prop) : CreatePc H W C → Multiset Resource → Prop
  | .idle, m | .newFile _, m | .done none, m => m = 0
  | .findHeader _ file, m | .allocHeader _ file _, m | .unrefHeader _ file _, m | .closeHeader _ file _, m
  | .freeFile _ file, m => m = {.block file.block}
  | .findWriter c file header, m | .refCipher c file header _, m | .allocWriter c file header _ _, m
  | .unrefWriter c file header _ _, m | .putCipher c file header _, m | .freeHeader c file header, m =>
    ∃ mh, CfeHeader.Frees c.env header mh ∧ m = mh + {.block file.block}
  | .done (some file), m => file.Owns P m

/-- All that a piece of a call does, where `rest` is held besides what the call owns. -/
structure CreateEffect (P : NewFilewriter H W C → Multiset Resource → Prop) (types : Types H W C F)
    (pc pc' : CreatePc H W C) (s s' : World H W C) (rest : Multiset Resource) : Prop where
  headers : RefChange ((Kind.format .header).api types.header) s.headers s'.headers pc.headerRefs pc'.headerRefs
  writers : RefChange ((Kind.format .filewriter).api types.writer) s.writers s'.writers pc.writerRefs pc'.writerRefs
  ciphers : RefChange ((Kind.crypto .cipher).api types.cipher) s.ciphers s'.ciphers pc.cipherRefs pc'.cipherRefs
  /-- The rest is left alone. -/
  owns : ∃ m', pc'.Owns P m' ∧ s'.live = m' + rest

variable {P : NewFilewriter H W C → Multiset Resource → Prop}

theorem CreateEffect.same {types : Types H W C F} {pc pc' : CreatePc H W C} {s s' : World H W C}
    {rest : Multiset Resource} (hsame : SameRegistries s s') (hh : pc'.headerRefs = pc.headerRefs)
    (hw : pc'.writerRefs = pc.writerRefs) (hc : pc'.cipherRefs = pc.cipherRefs)
    (howns : ∃ m', pc'.Owns P m' ∧ s'.live = m' + rest) : CreateEffect P types pc pc' s s' rest :=
  ⟨.keep hsame.1 (.of_eq hh), .keep hsame.2.1 (.of_eq hw), .keep hsame.2.2 (.of_eq hc), howns⟩

/-- **Each piece of a call has such an effect**, whatever else is held. -/
theorem createNext_effect {types : Types H W C F} {pc pc' : CreatePc H W C} {s s' : World H W C}
    (hmake : types.WritersMake P) (h : createNext types pc s = some (pc', s')) {m rest : Multiset Resource}
    (hm : pc.Owns P m) (hlive : s.live = m + rest) : CreateEffect P types pc pc' s s' rest := by
  cases pc with
  | idle => cases h
  | done r => cases h
  | newFile c =>
    simp only [createNext, cfeFileNew_eq] at h
    cases hblock : c.env.fileBlock with
    | error e =>
      rw [hblock] at h
      cases h
      exact .same ⟨rfl, rfl, rfl⟩ rfl rfl rfl ⟨m, hm, hlive⟩
    | ok block =>
      rw [hblock] at h
      cases h
      refine .same ⟨rfl, rfl, rfl⟩ rfl rfl rfl ?_
      obtain rfl : m = _ := hm
      refine ⟨_, rfl, ?_⟩
      rw [live_emit, hlive]
      simp [SysCall.effect]
  | findHeader c file =>
    simp only [createNext] at h
    split at h
    · cases h
      exact .same ⟨rfl, rfl, rfl⟩ rfl rfl rfl ⟨m, hm, hlive⟩
    · next type hfind =>
      cases h
      exact ⟨.take CFE_HEADER_VERSION_DEFAULT type hfind rfl .rfl, .keep rfl .rfl, .keep rfl .rfl, ⟨m, hm, hlive⟩⟩
  | allocHeader c file type =>
    simp only [createNext] at h
    split at h
    · cases h
    · next alloc halloc =>
      generalize hsize : ((normalizeHeadersize c.env.pagesize
        ((c.params.headerSize.setWidth 64).setWidth 32)).setWidth 64 : BitVec 64) = size at h
      have hsame := alloc.same c.env c.fd size s
      cases hmade : alloc.alloc c.env c.fd size s with
      | mk header t =>
        rw [hmade] at h hsame
        cases header with
        | none =>
          cases h
          refine .same hsame rfl rfl rfl ?_
          refine ⟨m, hm, ?_⟩
          have hfailed := alloc.failed c.env c.fd size s (by rw [hmade])
          rw [hmade] at hfailed
          rw [← hlive]
          exact hfailed
        | some header =>
          cases h
          refine .same hsame rfl rfl rfl ?_
          obtain rfl : m = _ := hm
          obtain ⟨mh, hheld, hfree⟩ := alloc.made c.env c.fd size s header (by rw [hmade])
          rw [hmade] at hheld
          refine ⟨mh + {.block file.block}, ⟨mh, hfree, rfl⟩, ?_⟩
          rw [add_assoc, ← hlive]
          exact hheld
  | unrefHeader c file type =>
    cases h
    exact ⟨.drop type rfl .rfl, .keep rfl .rfl, .keep rfl .rfl, ⟨m, hm, hlive⟩⟩
  | findWriter c file header =>
    simp only [createNext] at h
    split at h
    · cases h
      exact .same ⟨rfl, rfl, rfl⟩ rfl rfl rfl ⟨m, hm, hlive⟩
    · next type hfind =>
      cases h
      exact ⟨.keep rfl .rfl, .take CFE_FILEWRITER_VERSION_DEFAULT type hfind rfl .rfl, .keep rfl .rfl, ⟨m, hm, hlive⟩⟩
  | refCipher c file header type =>
    simp only [createNext] at h
    split at h
    · cases h
    · cases h
      exact .same (.refl s) rfl rfl rfl ⟨m, hm, hlive⟩
    · next ctype ciphers href =>
      cases h
      obtain ⟨⟨name, -, hlookup⟩, rfl⟩ := cfeCipherRefPtr_some href
      exact ⟨.keep rfl .rfl, .keep rfl .rfl, .take name ctype hlookup rfl .rfl, ⟨m, hm, hlive⟩⟩
  | allocWriter c file header type ctype =>
    simp only [createNext] at h
    split at h
    · cases h
    · next alloc halloc =>
      have hsame := alloc.same c.env ctype c.params.blocksize s
      cases hmade : alloc.alloc c.env ctype c.params.blocksize s with
      | mk writer t =>
        rw [hmade] at h hsame
        cases writer with
        | none =>
          cases h
          refine .same hsame rfl rfl rfl ?_
          refine ⟨m, hm, ?_⟩
          have hfailed := alloc.failed c.env ctype c.params.blocksize s (by rw [hmade])
          rw [hmade] at hfailed
          rw [← hlive]
          exact hfailed
        | some writer =>
          cases h
          refine .same hsame rfl rfl rfl ?_
          obtain ⟨mh, hfreeh, rfl⟩ := hm
          obtain ⟨mw, hheld, hfreew⟩ := hmake type alloc halloc c.env ctype c.params.blocksize s writer (by rw [hmade])
          rw [hmade] at hheld
          refine ⟨mw + (mh + {.block file.block}), ⟨c.env, header, _, mh, mw, rfl, rfl, hfreeh, hfreew, rfl⟩, ?_⟩
          rw [add_assoc, ← hlive]
          exact hheld
  | unrefWriter c file header type ctype =>
    cases ctype with
    | none =>
      cases h
      exact ⟨.keep rfl .rfl, .drop type rfl .rfl, .keep rfl .rfl, ⟨m, hm, hlive⟩⟩
    | some ctype =>
      cases h
      exact ⟨.keep rfl .rfl, .drop type rfl .rfl, .keep rfl .rfl, ⟨m, hm, hlive⟩⟩
  | putCipher c file header ctype =>
    cases h
    exact ⟨.keep rfl .rfl, .keep rfl .rfl, .drop ctype rfl .rfl, ⟨m, hm, hlive⟩⟩
  | freeHeader c file header =>
    cases h
    obtain ⟨mh, hfree, rfl⟩ := hm
    rw [add_assoc] at hlive
    obtain ⟨hrest, hsame⟩ := hfree s _ hlive
    exact .same hsame rfl rfl rfl ⟨_, rfl, hrest⟩
  | closeHeader c file type =>
    cases h
    exact ⟨.drop type rfl .rfl, .keep rfl .rfl, .keep rfl .rfl, ⟨m, hm, hlive⟩⟩
  | freeFile c file =>
    cases h
    refine .same ⟨rfl, rfl, rfl⟩ rfl rfl rfl ?_
    obtain rfl : m = _ := hm
    refine ⟨0, rfl, ?_⟩
    simp only [free, live_emit, hlive, SysCall.effect, Multiset.singleton_add, Multiset.erase_cons_head, zero_add]

end LibCfe
