import LibCfe.Open.Create

/-!
# The references a file holds

`cfe_create` takes a reference in each of three registries, and allocates and maps
on the way; every exit has its own unwinding. `cfe_create_all_or_nothing` says that
they are all right: a call that returns `NULL` leaves the registries and all that
is held as they were, and one that returns a file has taken one reference to each
of three types.

The lemmas go through the functions from the inside out. Each says what a call that
fails leaves, and what one that succeeds has taken, together with what gives it
back.
-/

namespace LibCfe

open World

variable {H W C F : Type} [DecidableEq H]

/-- Nothing was taken and nothing given back. -/
def Balanced (s s' : World H W C) : Prop := SameRegistries s s' ∧ s'.live = s.live

omit [DecidableEq H] in
theorem Balanced.of_eq {s s' : World H W C} (hh : s'.headers = s.headers) (hw : s'.writers = s.writers)
    (hc : s'.ciphers = s.ciphers) (hl : s'.live = s.live) : Balanced s s' := ⟨⟨hh, hw, hc⟩, hl⟩

/-! ### Headers -/

section

variable {types : H → CfeHeaderType (HeaderAlloc H W C)} {env : Env} {fd : ℤ} {size : BitVec 64}
  {s s' : World H W C}

omit [DecidableEq H] in
/-- The default version means the default type. -/
theorem formatLookup_default {T : Type} {w : ℕ} (version : T → BitVec w) (s : Registry T) :
    formatLookup version (-1) s = s.dflt := if_pos rfl

/-- A header that is not made leaves everything as it was. -/
theorem cfeHeaderCreate_none {version : BitVec 32}
    (h : cfeHeaderCreate types env version fd size s = some (none, s')) : Balanced s s' := by
  unfold cfeHeaderCreate at h
  split at h
  · obtain ⟨-, rfl⟩ := Prod.mk.inj (Option.some.inj h)
    exact .of_eq rfl rfl rfl rfl
  · next type _ =>
    split at h
    · cases h
    · next alloc _ =>
      simp only at h
      split at h
      · next s₁ halloc =>
        obtain ⟨-, rfl⟩ := Prod.mk.inj (Option.some.inj h)
        have hsame := alloc.same env fd ((normalizeHeadersize env.pagesize (size.setWidth 32)).setWidth 64)
          { s with headers := s.headers.inc type }
        have hlive := alloc.failed env fd ((normalizeHeadersize env.pagesize (size.setWidth 32)).setWidth 64)
          { s with headers := s.headers.inc type }
        rw [halloc] at hsame hlive
        obtain ⟨hh, hw, hc⟩ := hsame
        refine .of_eq ?_ hw hc (hlive rfl)
        show s₁.headers.dec type = s.headers
        rw [hh, Registry.dec_inc]
      · cases h

/-- A header that is made has a reference to its type, and closing it gives back the
reference and what `alloc` took. -/
theorem cfeHeaderCreate_some {header : CfeHeader H W C}
    (h : cfeHeaderCreate types env CFE_HEADER_VERSION_DEFAULT fd size s = some (some header, s')) :
    s.headers.dflt = some header.type ∧ s'.headers = s.headers.inc header.type ∧ s'.writers = s.writers ∧
      s'.ciphers = s.ciphers ∧ ∃ held : Multiset Resource, s'.live = held + s.live ∧
      ∀ (t : World H W C) (rest : Multiset Resource), t.live = held + rest →
        (cfeHeaderClose env header t).live = rest ∧
        (cfeHeaderClose env header t).headers = t.headers.dec header.type ∧
        (cfeHeaderClose env header t).writers = t.writers ∧ (cfeHeaderClose env header t).ciphers = t.ciphers := by
  unfold cfeHeaderCreate at h
  rw [CFE_HEADER_VERSION_DEFAULT, formatLookup_default] at h
  split at h
  · cases h
  · next type hd =>
    split at h
    · cases h
    · next alloc _ =>
      simp only at h
      split at h
      · cases h
      · next new s₁ halloc =>
        obtain ⟨hheader, rfl⟩ := Prod.mk.inj (Option.some.inj h)
        obtain rfl := Option.some.inj hheader
        have hsame := alloc.same env fd ((normalizeHeadersize env.pagesize (size.setWidth 32)).setWidth 64)
          { s with headers := s.headers.inc type }
        have hmade := alloc.made env fd ((normalizeHeadersize env.pagesize (size.setWidth 32)).setWidth 64)
          { s with headers := s.headers.inc type } new
        rw [halloc] at hsame hmade
        obtain ⟨hh, hw, hc⟩ := hsame
        obtain ⟨held, hlive, hfree⟩ := hmade rfl
        refine ⟨hd, hh, hw, hc, held, hlive, ?_⟩
        intro t rest ht
        obtain ⟨hrest, hth, htw, htc⟩ := hfree t rest ht
        refine ⟨hrest, ?_, htw, htc⟩
        show (new.free env t).headers.dec type = t.headers.dec type
        rw [hth]

/-- Making a header of the default type comes to an end when that type has its `alloc`. -/
theorem cfeHeaderCreate_returns (halloc : ∀ t, s.headers.dflt = some t → (types t).alloc.isSome = true) :
    ∃ header s', cfeHeaderCreate types env CFE_HEADER_VERSION_DEFAULT fd size s = some (header, s') := by
  unfold cfeHeaderCreate
  rw [CFE_HEADER_VERSION_DEFAULT, formatLookup_default]
  cases hd : s.headers.dflt with
  | none => exact ⟨none, _, rfl⟩
  | some type =>
    obtain ⟨alloc, ha⟩ := Option.isSome_iff_exists.mp (halloc type hd)
    simp only [ha]
    split
    · exact ⟨none, _, rfl⟩
    · exact ⟨_, _, rfl⟩

end

/-! ### File writers -/

section

omit [DecidableEq H]

variable [DecidableEq W] [DecidableEq C] {types : W → CfeFilewriterType (FilewriterAlloc H W C)}
  {ciphers : C → CfeCipherType F} {env : Env} {cipher : Option CString} {blocksize : BitVec 32}
  {s s' : World H W C}

omit [DecidableEq W] in
theorem cfeCipherRefPtr_some {r r' : Registry C} {c : C}
    (h : cfeCipherRefPtr ciphers cipher r = some (some c, r')) :
    (∃ name, cipher = some name ∧ findAlg (cipherClass ciphers) r name = some c) ∧ r' = r.inc c := by
  unfold cfeCipherRefPtr at h
  split at h
  · next name =>
    unfold cfeCipherRef at h
    split at h
    · next type hfind =>
      cases h
      exact ⟨⟨name, rfl, hfind⟩, rfl⟩
    · cases h
  · split_ifs at h
    cases h

/-- A file writer that is not made leaves everything as it was. -/
theorem cfeFilewriterCreate_none {version : BitVec 32}
    (h : cfeFilewriterCreate types ciphers env version cipher blocksize s = some (none, s')) : Balanced s s' := by
  unfold cfeFilewriterCreate at h
  split at h
  · obtain ⟨-, rfl⟩ := Prod.mk.inj (Option.some.inj h)
    exact .of_eq rfl rfl rfl rfl
  · next type _ =>
    simp only at h
    split at h
    · cases h
    · next r hcipher =>
      obtain ⟨-, rfl⟩ := Prod.mk.inj (Option.some.inj h)
      refine .of_eq rfl ?_ rfl rfl
      exact Registry.dec_inc _ _
    · next c r hcipher =>
      obtain ⟨-, rfl⟩ := cfeCipherRefPtr_some hcipher
      split at h
      · cases h
      · next alloc _ =>
        split at h
        · next s₁ halloc =>
          obtain ⟨-, rfl⟩ := Prod.mk.inj (Option.some.inj h)
          have hsame := alloc.same env c blocksize
            { s with writers := s.writers.inc type, ciphers := s.ciphers.inc c }
          have hlive := alloc.failed env c blocksize
            { s with writers := s.writers.inc type, ciphers := s.ciphers.inc c }
          rw [halloc] at hsame hlive
          obtain ⟨hh, hw, hc⟩ := hsame
          refine .of_eq hh ?_ ?_ (hlive rfl)
          · show s₁.writers.dec type = s.writers
            rw [hw, Registry.dec_inc]
          · show s₁.ciphers.dec c = s.ciphers
            rw [hc, Registry.dec_inc]
        · cases h

/-- The calls that a file writer comes from. -/
theorem cfeFilewriterCreate_parts {version : BitVec 32} {writer : CfeFilewriter H W C}
    (h : cfeFilewriterCreate types ciphers env version cipher blocksize s = some (some writer, s')) :
    ∃ type name c alloc new, formatLookup (fun t => (types t).version) version s.writers = some type ∧
      cipher = some name ∧ findAlg (cipherClass ciphers) s.ciphers name = some c ∧ (types type).alloc = some alloc ∧
      alloc.alloc env c blocksize { s with writers := s.writers.inc type, ciphers := s.ciphers.inc c } = (some new, s') ∧
      writer = { new with type } := by
  unfold cfeFilewriterCreate at h
  split at h
  · cases h
  · next type htype =>
    simp only at h
    split at h
    · cases h
    · cases h
    · next c r hcipher =>
      obtain ⟨⟨name, hname, hfind⟩, rfl⟩ := cfeCipherRefPtr_some hcipher
      split at h
      · cases h
      · next alloc halloc =>
        split at h
        · cases h
        · next new s₁ hnew =>
          obtain ⟨hwriter, rfl⟩ := Prod.mk.inj (Option.some.inj h)
          exact ⟨type, name, c, alloc, new, htype, hname, hfind, halloc, hnew, (Option.some.inj hwriter).symm⟩

/-- A file writer that is made has a reference to its type and one to the cipher. -/
theorem cfeFilewriterCreate_some {writer : CfeFilewriter H W C}
    (h : cfeFilewriterCreate types ciphers env CFE_FILEWRITER_VERSION_DEFAULT cipher blocksize s =
      some (some writer, s')) :
    s.writers.dflt = some writer.type ∧ ∃ name c, cipher = some name ∧
      findAlg (cipherClass ciphers) s.ciphers name = some c ∧ s'.headers = s.headers ∧
      s'.writers = s.writers.inc writer.type ∧ s'.ciphers = s.ciphers.inc c := by
  obtain ⟨type, name, c, alloc, new, htype, hname, hfind, -, hnew, rfl⟩ := cfeFilewriterCreate_parts h
  rw [CFE_FILEWRITER_VERSION_DEFAULT, formatLookup_default] at htype
  have hsame := alloc.same env c blocksize { s with writers := s.writers.inc type, ciphers := s.ciphers.inc c }
  rw [hnew] at hsame
  obtain ⟨hh, hw, hc⟩ := hsame
  exact ⟨htype, name, c, hname, hfind, hh, hw, hc⟩

/-- It holds what its `alloc` took, which its `free` would give back if that is what the
`free` of its type does. -/
theorem cfeFilewriterCreate_held {version : BitVec 32} {writer : CfeFilewriter H W C}
    (h : cfeFilewriterCreate types ciphers env version cipher blocksize s = some (some writer, s')) :
    ∃ held : Multiset Resource, s'.live = held + s.live ∧
      ((∀ alloc, (types writer.type).alloc = some alloc → alloc.Makes NewFilewriter.Frees) → writer.Frees held) := by
  obtain ⟨type, name, c, alloc, new, -, -, -, halloc, hnew, rfl⟩ := cfeFilewriterCreate_parts h
  have hsome : (alloc.alloc env c blocksize { s with writers := s.writers.inc type, ciphers := s.ciphers.inc c }).1 =
      some new := by rw [hnew]
  obtain ⟨held, hlive⟩ := alloc.taken _ _ _ _ _ hsome
  rw [hnew] at hlive
  refine ⟨held, hlive, fun hfrees => ?_⟩
  obtain ⟨held', hlive', hfree⟩ := hfrees alloc halloc _ _ _ _ _ hsome
  rw [hnew] at hlive'
  obtain rfl : held = held' := Multiset.add_left_inj.mp (hlive.symm.trans hlive')
  exact hfree

theorem cfeFilewriterCreate_returns {name : CString}
    (halloc : ∀ t, s.writers.dflt = some t → (types t).alloc.isSome = true) :
    ∃ writer s', cfeFilewriterCreate types ciphers env CFE_FILEWRITER_VERSION_DEFAULT (some name) blocksize s =
      some (writer, s') := by
  unfold cfeFilewriterCreate
  rw [CFE_FILEWRITER_VERSION_DEFAULT, formatLookup_default]
  cases hd : s.writers.dflt with
  | none => exact ⟨none, _, rfl⟩
  | some type =>
    obtain ⟨alloc, ha⟩ := Option.isSome_iff_exists.mp (halloc type hd)
    simp only [ha, cfeCipherRefPtr]
    cases hc : cfeCipherRef ciphers name s.ciphers with
    | mk c r =>
      cases c with
      | none => exact ⟨none, _, rfl⟩
      | some c =>
        simp only
        split
        · exact ⟨none, _, rfl⟩
        · exact ⟨_, _, rfl⟩

end

/-! ### Files -/

section

variable [DecidableEq W] [DecidableEq C] {types : Types H W C F} {env : Env} {fd : ℤ} {flags mode : BitVec 32}
  {params : CfeOpenParams} {s s' : World H W C}

omit [DecidableEq H] [DecidableEq W] [DecidableEq C] in
/-- Freeing what `calloc` returned leaves what there was. -/
theorem live_free {block : Addr} {rest : Multiset Resource} {t : World H W C}
    (h : t.live = .block block ::ₘ rest) : (free block t).live = rest := by
  rw [free, live_emit, h]
  exact Multiset.erase_cons_head _ _

/-- A file that is not made leaves everything as it was. -/
theorem doCreate_none (h : doCreate types env fd flags mode params s = some (none, s')) : Balanced s s' := by
  unfold doCreate at h
  rw [cfeFileNew_eq] at h
  cases hblock : env.fileBlock with
  | error e =>
    simp only [hblock] at h
    obtain ⟨-, rfl⟩ := Prod.mk.inj (Option.some.inj h)
    exact .of_eq rfl rfl rfl rfl
  | ok block =>
    simp only [hblock] at h
    have hlive : (s.emit (.calloc block)).live = .block block ::ₘ s.live := live_emit _ _
    split at h
    · cases h
    · -- no header: the file has only its block
      next s₁ hheader =>
      obtain ⟨-, rfl⟩ := Prod.mk.inj (Option.some.inj h)
      obtain ⟨⟨hh, hw, hc⟩, hlive₁⟩ := cfeHeaderCreate_none hheader
      exact .of_eq hh hw hc (live_free (hlive₁.trans hlive))
    · next header s₁ hheader =>
      obtain ⟨-, hh, hw, hc, held, hlive₁, hclose⟩ := cfeHeaderCreate_some hheader
      split at h
      · cases h
      · -- no writer: the header is closed, and what it held goes first
        next s₂ hwriter =>
        obtain ⟨-, rfl⟩ := Prod.mk.inj (Option.some.inj h)
        obtain ⟨⟨hh₂, hw₂, hc₂⟩, hlive₂⟩ := cfeFilewriterCreate_none hwriter
        obtain ⟨hrest, hch, hcw, hcc⟩ := hclose s₂ _ (hlive₂.trans hlive₁)
        refine .of_eq ?_ ?_ ?_ (live_free (hrest.trans hlive))
        · show (cfeHeaderClose env header s₂).headers = s.headers
          rw [hch, hh₂, hh]
          exact Registry.dec_inc _ _
        · exact hcw.trans (hw₂.trans hw)
        · exact hcc.trans (hc₂.trans hc)
      · cases h

/-- A file comes from an allocation, a header and a file writer. -/
theorem doCreate_parts {file : CfeFile H W C}
    (h : doCreate types env fd flags mode params s = some (some file, s')) :
    ∃ header writer s₁,
      cfeHeaderCreate types.header env CFE_HEADER_VERSION_DEFAULT fd (params.headerSize.setWidth 64)
        (s.emit (.calloc file.block)) = some (some header, s₁) ∧
      cfeFilewriterCreate types.writer types.cipher env CFE_FILEWRITER_VERSION_DEFAULT params.cipher params.blocksize s₁ =
        some (some writer, s') ∧
      file.header = some header ∧ file.writer = some writer := by
  unfold doCreate at h
  rw [cfeFileNew_eq] at h
  cases hblock : env.fileBlock with
  | error e =>
    simp only [hblock] at h
    cases h
  | ok block =>
    simp only [hblock] at h
    split at h
    · cases h
    · cases h
    · next header s₁ hheader =>
      split at h
      · cases h
      · cases h
      · next writer s₂ hwriter =>
        obtain ⟨hfile, rfl⟩ := Prod.mk.inj (Option.some.inj h)
        obtain rfl := Option.some.inj hfile
        exact ⟨header, writer, s₁, hheader, hwriter, rfl, rfl⟩

/-- A file that is made has one reference to each of three types. -/
theorem doCreate_some {file : CfeFile H W C}
    (h : doCreate types env fd flags mode params s = some (some file, s')) :
    ∃ th tw name tc, s.headers.dflt = some th ∧ s.writers.dflt = some tw ∧ params.cipher = some name ∧
      findAlg (cipherClass types.cipher) s.ciphers name = some tc ∧
      s'.headers = s.headers.inc th ∧ s'.writers = s.writers.inc tw ∧ s'.ciphers = s.ciphers.inc tc := by
  obtain ⟨header, writer, s₁, hheader, hwriter, -, -⟩ := doCreate_parts h
  obtain ⟨hd, hh, hw, hc, -⟩ := cfeHeaderCreate_some hheader
  obtain ⟨hdw, name, tc, hname, hfind, hh₂, hw₂, hc₂⟩ := cfeFilewriterCreate_some hwriter
  rw [hw] at hdw hw₂
  rw [hc] at hfind hc₂
  exact ⟨header.type, writer.type, name, tc, hd, hdw, hname, hfind, hh₂.trans hh, hw₂, hc₂⟩

theorem doCreate_returns (types : Types H W C F) (env : Env) (fd : ℤ) (flags mode : BitVec 32)
    (params : CfeOpenParams) (s : World H W C)
    (hheader : ∀ t, s.headers.dflt = some t → (types.header t).alloc.isSome = true)
    (hwriter : ∀ t, s.writers.dflt = some t → (types.writer t).alloc.isSome = true)
    (hcipher : params.cipher.isSome = true) :
    ∃ file s', doCreate types env fd flags mode params s = some (file, s') := by
  obtain ⟨name, hname⟩ := Option.isSome_iff_exists.mp hcipher
  unfold doCreate
  rw [cfeFileNew_eq]
  cases env.fileBlock with
  | error e => exact ⟨none, _, rfl⟩
  | ok block =>
    simp only
    have hheader' : ∃ header s₁, cfeHeaderCreate types.header env CFE_HEADER_VERSION_DEFAULT fd
        (params.headerSize.setWidth 64) (s.emit (.calloc block)) = some (header, s₁) :=
      cfeHeaderCreate_returns hheader
    obtain ⟨header, s₁, hcreate⟩ := hheader'
    cases header with
    | none => exact ⟨none, _, by rw [hcreate]⟩
    | some header =>
      obtain ⟨-, -, hw, -⟩ := cfeHeaderCreate_some hcreate
      have hwriter' : ∃ writer s₂, cfeFilewriterCreate types.writer types.cipher env
          CFE_FILEWRITER_VERSION_DEFAULT (some name) params.blocksize s₁ = some (writer, s₂) :=
        cfeFilewriterCreate_returns fun t ht => hwriter t (by rw [← ht, hw]; rfl)
      obtain ⟨writer, s₂, hcreate₂⟩ := hwriter'
      simp only [hcreate, hname, hcreate₂]
      cases writer with
      | none => exact ⟨none, _, rfl⟩
      | some writer => exact ⟨_, _, rfl⟩

/-- **`cfe_create` is all or nothing in the references it holds.** Whatever is registered,
as long as the default types have their `alloc`, and whatever becomes of each call it
makes: it returns; if it returns `NULL`, the registries, with every counter, are what
they were, and nothing more is held than before, no block, no mapping and no lock; and
if it returns a file, there is one more reference to the default header type, to the
default file writer type and to the cipher named in the parameters, and every other
counter is what it was. -/
theorem cfe_create_all_or_nothing (types : Types H W C F) (env : Env) (fd : ℤ) (flags mode : BitVec 32)
    (params : Option CfeOpenParams) (s : World H W C)
    (hheader : ∀ t, s.headers.dflt = some t → (types.header t).alloc.isSome = true)
    (hwriter : ∀ t, s.writers.dflt = some t → (types.writer t).alloc.isSome = true)
    (hcipher : ∀ p, params = some p → p.cipher.isSome = true) :
    ∃ file params' s', cfeCreate types env fd flags mode params s = some (file, params', s') ∧
      (file = none → s'.headers = s.headers ∧ s'.writers = s.writers ∧ s'.ciphers = s.ciphers ∧
        s'.live = s.live) ∧
      (file.isSome = true → ∃ p th tw name tc, params = some p ∧ p.cipher = some name ∧
        s.headers.dflt = some th ∧ s.writers.dflt = some tw ∧
        findAlg (cipherClass types.cipher) s.ciphers name = some tc ∧
        s'.headers = s.headers.inc th ∧ s'.writers = s.writers.inc tw ∧ s'.ciphers = s.ciphers.inc tc) := by
  have hres := cfeCreate_result types env fd flags mode params s
  generalize cfeCreate types env fd flags mode params s = r at hres ⊢
  cases hres with
  | rejected hargs => exact ⟨none, _, _, rfl, fun _ => ⟨rfl, rfl, rfl, rfl⟩, fun h => by cases h⟩
  | noStat p id hargs e hstat => exact ⟨none, _, _, rfl, fun _ => ⟨rfl, rfl, rfl, rfl⟩, fun h => by cases h⟩
  | notEmpty p id hargs hstat hfile => exact ⟨none, _, _, rfl, fun _ => ⟨rfl, rfl, rfl, rfl⟩, fun h => by cases h⟩
  | created p id hargs hstat hfile =>
    obtain ⟨file, s', hdo⟩ := doCreate_returns types env fd flags mode (p.strip id) s hheader hwriter
      (hcipher p hargs.params_eq)
    rw [hdo]
    refine ⟨file, _, s', rfl, ?_, ?_⟩
    · intro hnone
      rw [hnone] at hdo
      obtain ⟨⟨hh, hw, hc⟩, hl⟩ := doCreate_none hdo
      exact ⟨hh, hw, hc, hl⟩
    · intro hsome
      obtain ⟨f, rfl⟩ := Option.isSome_iff_exists.mp hsome
      obtain ⟨th, tw, name, tc, hth, htw, hname, hfind, hs'⟩ := doCreate_some hdo
      exact ⟨p, th, tw, name, tc, hargs.params_eq, hname, hth, htw, hfind, hs'⟩

end

/-- The file of the test has one reference to each type. When its writer cannot be allocated,
its header is closed again. -/
theorem cfe_create_all_or_nothing_check_create :
    (∃ file params' s', cfeCreate checkCreateTypes checkCreateEnv 3 0 0 (some checkCreateParams) checkCreateWorld =
      some (some file, params', s') ∧ (s'.headers.refcnt ()).val = 2 ∧ (s'.writers.refcnt ()).val = 2 ∧
      (s'.ciphers.refcnt ()).val = 2) ∧
    ∃ params' s', cfeCreate checkCreateTypes { checkCreateEnv with writerBlock := .error ⟨ENOMEM, by decide⟩ } 3 0 0
      (some checkCreateParams) checkCreateWorld = some (none, params', s') ∧ s'.live = 0 := by
  have hcall := fun env => cfe_create_all_or_nothing checkCreateTypes env 3 0 0 (some checkCreateParams)
    checkCreateWorld (fun _ _ => rfl) (fun _ _ => rfl) (fun p hp => by obtain rfl := Option.some.inj hp; rfl)
  constructor
  · obtain ⟨file, params', s', h, -, hsome⟩ := hcall checkCreateEnv
    have hfile : (cfeCreate checkCreateTypes checkCreateEnv 3 0 0 (some checkCreateParams) checkCreateWorld).map
        (fun r => r.1.isSome) = some true := by decide
    rw [h] at hfile
    cases file with
    | none => cases hfile
    | some file =>
      obtain ⟨-, ⟨⟩, ⟨⟩, -, ⟨⟩, -, -, -, -, -, hh, hw, hc⟩ := hsome rfl
      exact ⟨file, params', s', h, by rw [hh]; decide, by rw [hw]; decide, by rw [hc]; decide⟩
  · obtain ⟨file, params', s', h, hnone, -⟩ := hcall { checkCreateEnv with writerBlock := .error ⟨ENOMEM, by decide⟩ }
    have hfile : (cfeCreate checkCreateTypes { checkCreateEnv with writerBlock := .error ⟨ENOMEM, by decide⟩ } 3 0 0
        (some checkCreateParams) checkCreateWorld).map (fun r => r.1.isNone) = some true := by decide
    rw [h] at hfile
    cases file with
    | none => exact ⟨params', s', h, (hnone rfl).2.2.2⟩
    | some file => cases hfile

end LibCfe
