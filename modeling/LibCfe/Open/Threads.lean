import LibCfe.Open.Pieces
import LibCfe.Theory.Ownership

/-!
# Threads that create files

Any number of threads create files, register and unregister types of all three kinds,
and take and drop references to ciphers, while other processes change the files. A step
is one piece of a call (`LibCfe.Open.Pieces`), so the calls of different threads
interleave in every way that the locks allow.

The library has no function that closes a file: a file that was created is kept.

## What is proved

* `create_threads_accounted` — in every state, while no counter reaches `2 ^ 31`: each
  counter is one more than the references held by files, calls in progress and direct
  users; whatever is referenced is registered; and all memory, mappings and locks held are
  those of files and of calls in progress, so that calls that fail leave nothing behind.
* `created_file_pins_types` — the types of a file stay registered in every state after, under
  the same bound.
* `cfeCreate_uninterrupted` — a call that no other thread interrupts is `cfe_create` of
  `LibCfe.Open.Create`.
-/

namespace LibCfe

open World Theory

variable {Tid H W C F : Type} [DecidableEq Tid] [DecidableEq H] [DecidableEq W] [DecidableEq C]

/-- A thread. -/
structure CreateThread (H W C : Type) where
  /-- Where it is in a call of `cfe_create`. -/
  pc : CreatePc H W C := .idle
  /-- The files it created. -/
  files : List (OpenFile H W C) := []
  /-- The cipher types it holds references to by `cfe_cipher_ref`. -/
  refs : List C := []
  /-- Its `errno`. -/
  errno : Option Errno := none

/-- Threads and what they share. -/
structure Process (Tid H W C : Type) where
  /-- What they share; `errno` is each thread's own. -/
  world : World H W C
  /-- The threads. -/
  threads : Tid → CreateThread H W C

/-- What a thread can do. -/
inductive CreateAction (H W C : Type) where
  /-- `cfe_header_register`. -/
  | registerHeader (t : H)
  /-- `cfe_header_unregister`. -/
  | unregisterHeader (t : H)
  /-- `cfe_filewriter_register`. -/
  | registerWriter (t : W)
  /-- `cfe_filewriter_unregister`. -/
  | unregisterWriter (t : W)
  /-- `cfe_cipher_register`. -/
  | registerCipher (t : C)
  /-- `cfe_cipher_unregister`. -/
  | unregisterCipher (t : C)
  /-- `cfe_cipher_ref`. -/
  | refCipher (algname : CString)
  /-- `cfe_cipher_put`. -/
  | putCipher (t : C)
  /-- `cfe_create`, up to its call of `do_create`. -/
  | create (env : Env) (fd : ℤ) (params : Option CfeOpenParams)
  /-- The next piece of the call in progress. -/
  | next
  /-- Other processes change the files. -/
  | files (files : ℤ → FileStat)

/-- There is no call in progress. -/
def CreatePc.isIdle : CreatePc H W C → Bool
  | .idle => true
  | _ => false

/-- A locked section: the registry it leaves, or the error it stores in `errno`. -/
def World.locked {T : Type} (s : World H W C) (put : Registry T → World H W C) (r : Except Errno (Registry T)) :
    World H W C :=
  match r with
  | .ok r => put r
  | .error e => s.setErrno e

namespace Process

/-- What a thread sees. -/
def worldOf (p : Process Tid H W C) (i : Tid) : World H W C := { p.world with errno := (p.threads i).errno }

/-- Thread `i` goes on as `th`, and leaves `s`. -/
def set (p : Process Tid H W C) (i : Tid) (s : World H W C) (th : CreateThread H W C) : Process Tid H W C :=
  ⟨s, Function.update p.threads i { th with errno := s.errno }⟩

end Process

/-- What a thread with no call in progress can do at once. -/
def idleStep (types : Types H W C F) (s : World H W C) (th : CreateThread H W C) :
    CreateAction H W C → Option (World H W C × CreateThread H W C)
  | .registerHeader t => some (s.locked (fun r => { s with headers := r }) (cfeHeaderRegister types.header t s.headers), th)
  | .unregisterHeader t => some (s.locked (fun r => { s with headers := r }) (cfeHeaderUnregister t s.headers), th)
  | .registerWriter t =>
    some (s.locked (fun r => { s with writers := r }) (cfeFilewriterRegister types.writer t s.writers), th)
  | .unregisterWriter t => some (s.locked (fun r => { s with writers := r }) (cfeFilewriterUnregister t s.writers), th)
  | .registerCipher t => some (s.locked (fun r => { s with ciphers := r }) (cfeCipherRegister types.cipher t s.ciphers), th)
  | .unregisterCipher t => some (s.locked (fun r => { s with ciphers := r }) (cfeCipherUnregister t s.ciphers), th)
  | .refCipher algname =>
    match cfeCipherRef types.cipher algname s.ciphers with
    | (some t, ciphers) => some ({ s with ciphers }, { th with refs := t :: th.refs })
    | (none, ciphers) => some ({ s with ciphers }, th)
  | .putCipher t =>
    if t ∈ th.refs then some ({ s with ciphers := cfeCipherPut (some t) s.ciphers }, { th with refs := th.refs.erase t })
    else none
  | .create env fd params =>
    match cfeCreateChecks env fd params s with
    | (none, _, s) => some (s, th)
    | (some params, _, s) => some (s, { th with pc := .newFile ⟨env, fd, params⟩ })
  | .next => none
  | .files files => some ({ s with files }, th)

/-- What a thread in a call of `cfe_create` can do. -/
def busyStep (types : Types H W C F) (s : World H W C) (th : CreateThread H W C) :
    CreateAction H W C → Option (World H W C × CreateThread H W C)
  | .next =>
    match th.pc with
    | .done file => some (s, { th with pc := .idle, files := file.toList ++ th.files })
    | pc => (createNext types pc s).map fun (pc, s) => (s, { th with pc })
  | .files files => some ({ s with files }, th)
  | _ => none

/-- One step, by thread `a.1`. -/
def processStep (types : Types H W C F) (p : Process Tid H W C) (a : Tid × CreateAction H W C) :
    Option (Process Tid H W C) :=
  let th := p.threads a.1
  let s := p.worldOf a.1
  let r := if th.pc.isIdle then idleStep types s th a.2 else busyStep types s th a.2
  r.map fun (s, th) => p.set a.1 s th

/-- Nothing is registered, nothing is held, and no thread has done anything. -/
def processSystem (Tid : Type) [DecidableEq Tid] (types : Types H W C F) (files : ℤ → FileStat) :
    System (Process Tid H W C) (Tid × CreateAction H W C) where
  init := ⟨⟨Registry.empty, Registry.empty, Registry.empty, none, files, []⟩, fun _ => {}⟩
  step := processStep types

/-! ### What threads hold -/

namespace CreateThread

/-- The references to header types that a thread holds. -/
def headerRefs (th : CreateThread H W C) : List H := th.pc.headerRefs ++ th.files.flatMap OpenFile.headerRefs

/-- To file writer types. -/
def writerRefs (th : CreateThread H W C) : List W := th.pc.writerRefs ++ th.files.flatMap OpenFile.writerRefs

/-- To cipher types. -/
def cipherRefs (th : CreateThread H W C) : List C := th.pc.cipherRefs ++ (th.files.map (·.cipher) ++ th.refs)

end CreateThread

/-- What files are made of. -/
def FilesOwn (P : NewFilewriter H W C → Multiset Resource → Prop) : List (OpenFile H W C) → Multiset Resource → Prop
  | [], m => m = 0
  | file :: files, m => ∃ mf ms, file.Owns P mf ∧ FilesOwn P files ms ∧ m = mf + ms

/-- What a thread owns: what its call owns, and its files. -/
def CreateThread.Owns (P : NewFilewriter H W C → Multiset Resource → Prop) (th : CreateThread H W C)
    (m : Multiset Resource) : Prop :=
  ∃ mc mf, th.pc.Owns P mc ∧ FilesOwn P th.files mf ∧ m = mc + mf

/-- All that a step of a thread does, where `rest` is held besides what the thread owns. -/
structure ThreadEffect (P : NewFilewriter H W C → Multiset Resource → Prop) (types : Types H W C F)
    (th th' : CreateThread H W C) (s s' : World H W C) (rest : Multiset Resource) : Prop where
  headers : RefChange ((Kind.format .header).api types.header) s.headers s'.headers th.headerRefs th'.headerRefs
  writers : RefChange ((Kind.format .filewriter).api types.writer) s.writers s'.writers th.writerRefs th'.writerRefs
  ciphers : RefChange ((Kind.crypto .cipher).api types.cipher) s.ciphers s'.ciphers th.cipherRefs th'.cipherRefs
  /-- The rest is left alone. -/
  owns : ∃ m', th'.Owns P m' ∧ s'.live = m' + rest
  /-- Files are kept. -/
  files : th.files <:+ th'.files

section

variable {P : NewFilewriter H W C → Multiset Resource → Prop} {types : Types H W C F} {s s' : World H W C}
  {th th' : CreateThread H W C} {m rest : Multiset Resource}

/-- A thread that stays as it is. -/
theorem ThreadEffect.stays (hm : th.Owns P m) (hlive : s'.live = m + rest)
    (hh : RefChange ((Kind.format .header).api types.header) s.headers s'.headers th.headerRefs th.headerRefs)
    (hw : RefChange ((Kind.format .filewriter).api types.writer) s.writers s'.writers th.writerRefs th.writerRefs)
    (hc : RefChange ((Kind.crypto .cipher).api types.cipher) s.ciphers s'.ciphers th.cipherRefs th.cipherRefs) :
    ThreadEffect P types th th s s' rest :=
  ⟨hh, hw, hc, ⟨m, hm, hlive⟩, List.suffix_refl _⟩

/-- A locked section of the registry of headers. -/
theorem ThreadEffect.lockedHeader (hm : th.Owns P m) (hlive : s.live = m + rest) {r : Except Errno (Registry H)}
    (hr : ∀ r', r = .ok r' →
      RefChange ((Kind.format .header).api types.header) s.headers r' th.headerRefs th.headerRefs) :
    ThreadEffect P types th th s (s.locked (fun r => { s with headers := r }) r) rest := by
  cases r with
  | ok r' => exact .stays hm hlive (hr r' rfl) (.keep rfl .rfl) (.keep rfl .rfl)
  | error e => exact .stays hm hlive (.keep rfl .rfl) (.keep rfl .rfl) (.keep rfl .rfl)

/-- Of file writers. -/
theorem ThreadEffect.lockedWriter (hm : th.Owns P m) (hlive : s.live = m + rest) {r : Except Errno (Registry W)}
    (hr : ∀ r', r = .ok r' →
      RefChange ((Kind.format .filewriter).api types.writer) s.writers r' th.writerRefs th.writerRefs) :
    ThreadEffect P types th th s (s.locked (fun r => { s with writers := r }) r) rest := by
  cases r with
  | ok r' => exact .stays hm hlive (.keep rfl .rfl) (hr r' rfl) (.keep rfl .rfl)
  | error e => exact .stays hm hlive (.keep rfl .rfl) (.keep rfl .rfl) (.keep rfl .rfl)

/-- Of ciphers. -/
theorem ThreadEffect.lockedCipher (hm : th.Owns P m) (hlive : s.live = m + rest) {r : Except Errno (Registry C)}
    (hr : ∀ r', r = .ok r' →
      RefChange ((Kind.crypto .cipher).api types.cipher) s.ciphers r' th.cipherRefs th.cipherRefs) :
    ThreadEffect P types th th s (s.locked (fun r => { s with ciphers := r }) r) rest := by
  cases r with
  | ok r' => exact .stays hm hlive (.keep rfl .rfl) (.keep rfl .rfl) (hr r' rfl)
  | error e => exact .stays hm hlive (.keep rfl .rfl) (.keep rfl .rfl) (.keep rfl .rfl)

/-- Another place in the call, of which the same is held. -/
theorem ThreadEffect.ofPc {pc : CreatePc H W C} (hm : th.Owns P m) (hlive : s.live = m + rest)
    (h : ∀ mc rest, th.pc.Owns P mc → s.live = mc + rest → CreateEffect P types th.pc pc s s' rest) :
    ThreadEffect P types th { th with pc } s s' rest := by
  obtain ⟨mc, mf, hmc, hmf, rfl⟩ := hm
  rw [add_assoc] at hlive
  obtain ⟨hh, hw, hc, m', hm', hlive'⟩ := h mc (mf + rest) hmc hlive
  refine ⟨hh.append _, hw.append _, hc.append _, ⟨m' + mf, ⟨m', mf, hm', hmf, rfl⟩, ?_⟩, List.suffix_refl _⟩
  rw [add_assoc]
  exact hlive'

omit [DecidableEq H] [DecidableEq W] [DecidableEq C] in
/-- The checks of `cfe_create` change nothing but `errno`. -/
theorem cfeCreateChecks_same (env : Env) (fd : ℤ) (params : Option CfeOpenParams) (s : World H W C) :
    SameRegistries s (cfeCreateChecks env fd params s).2.2 ∧ (cfeCreateChecks env fd params s).2.2.live = s.live := by
  have herrno : ∀ e, SameRegistries s (s.setErrno e) ∧ (s.setErrno e).live = s.live := fun e => ⟨⟨rfl, rfl, rfl⟩, rfl⟩
  unfold cfeCreateChecks
  split_ifs
  · exact herrno _
  cases params with
  | none => exact herrno _
  | some p =>
    simp only
    cases p.keyIdent with
    | none => exact herrno _
    | some id =>
      simp only
      split_ifs
      · exact herrno _
      · simp only [fstat]
        cases env.fstat with
        | some e => exact herrno _
        | none =>
          simp only
          split_ifs
          · exact herrno _
          · exact ⟨.refl s, rfl⟩

/-- What a thread with no call in progress does. -/
theorem idleStep_effect {a : CreateAction H W C} (h : idleStep types s th a = some (s', th')) (hpc : th.pc = .idle)
    (hm : th.Owns P m) (hlive : s.live = m + rest) : ThreadEffect P types th th' s s' rest := by
  cases a with
  | registerHeader t =>
    cases h
    exact .lockedHeader hm hlive fun r hr => .register t hr .rfl
  | unregisterHeader t =>
    cases h
    exact .lockedHeader hm hlive fun r hr => .unregister t hr .rfl
  | registerWriter t =>
    cases h
    exact .lockedWriter hm hlive fun r hr => .register t hr .rfl
  | unregisterWriter t =>
    cases h
    exact .lockedWriter hm hlive fun r hr => .unregister t hr .rfl
  | registerCipher t =>
    cases h
    exact .lockedCipher hm hlive fun r hr => .register t hr .rfl
  | unregisterCipher t =>
    cases h
    exact .lockedCipher hm hlive fun r hr => .unregister t hr .rfl
  | refCipher algname =>
    simp only [idleStep, cfeCipherRef] at h
    cases hfind : findAlg (cipherClass types.cipher) s.ciphers algname with
    | none =>
      rw [hfind] at h
      cases h
      exact .stays hm hlive (.keep rfl .rfl) (.keep rfl .rfl) (.keep rfl .rfl)
    | some t =>
      rw [hfind] at h
      cases h
      refine ⟨.keep rfl .rfl, .keep rfl .rfl, .take algname t hfind rfl ?_, ⟨m, hm, hlive⟩, List.suffix_refl _⟩
      simp only [CreateThread.cipherRefs, ← List.append_assoc]
      exact List.perm_middle
  | putCipher t =>
    simp only [idleStep, Option.ite_none_right_eq_some, Option.some.injEq, Prod.mk.injEq] at h
    obtain ⟨hmem, rfl, rfl⟩ := h
    refine ⟨.keep rfl .rfl, .keep rfl .rfl, .drop t rfl ?_, ⟨m, hm, hlive⟩, List.suffix_refl _⟩
    simp only [CreateThread.cipherRefs, ← List.append_assoc]
    exact ((List.perm_cons_erase hmem).append_left _).trans List.perm_middle
  | create env fd params =>
    have hsame := cfeCreateChecks_same env fd params s
    simp only [idleStep] at h
    split at h
    · next s'' hchecks =>
      cases h
      rw [hchecks] at hsame
      obtain ⟨⟨hh, hw, hc⟩, hl⟩ := hsame
      exact .stays hm (hl.trans hlive) (.keep hh .rfl) (.keep hw .rfl) (.keep hc .rfl)
    · next q r s'' hchecks =>
      cases h
      rw [hchecks] at hsame
      refine .ofPc hm hlive ?_
      intro mc rest' hmc hlive'
      rw [hpc] at hmc ⊢
      exact .same hsame.1 rfl rfl rfl ⟨mc, hmc, hsame.2.trans hlive'⟩
  | next => cases h
  | files files =>
    cases h
    exact .stays hm hlive (.keep rfl .rfl) (.keep rfl .rfl) (.keep rfl .rfl)

/-- What a thread in a call of `cfe_create` does. -/
theorem busyStep_effect (hmake : types.WritersMake P) {a : CreateAction H W C}
    (h : busyStep types s th a = some (s', th')) (hm : th.Owns P m) (hlive : s.live = m + rest) :
    ThreadEffect P types th th' s s' rest := by
  cases a with
  | next =>
    simp only [busyStep] at h
    split at h
    · next file hpc =>
      -- the file passes from the call to the thread
      cases h
      obtain ⟨mc, mf, hmc, hmf, rfl⟩ := hm
      rw [hpc] at hmc
      cases file with
      | none =>
        have hthread : CreateThread.Owns P { th with pc := .idle } (mc + mf) := ⟨mc, mf, hmc, hmf, rfl⟩
        refine ⟨.keep rfl ?_, .keep rfl ?_, .keep rfl ?_, ⟨_, hthread, hlive⟩, List.suffix_refl _⟩
        · rw [CreateThread.headerRefs, CreateThread.headerRefs, hpc]
          exact .rfl
        · rw [CreateThread.writerRefs, CreateThread.writerRefs, hpc]
          exact .rfl
        · rw [CreateThread.cipherRefs, CreateThread.cipherRefs, hpc]
          exact .rfl
      | some file =>
        have hthread : CreateThread.Owns P { th with pc := .idle, files := file :: th.files } (0 + (mc + mf)) :=
          ⟨0, mc + mf, rfl, ⟨mc, mf, hmc, hmf, rfl⟩, rfl⟩
        refine ⟨.keep rfl ?_, .keep rfl ?_, .keep rfl ?_, ⟨_, hthread, by rw [zero_add]; exact hlive⟩,
          List.suffix_cons _ _⟩
        · rw [CreateThread.headerRefs, CreateThread.headerRefs, hpc]
          exact .rfl
        · rw [CreateThread.writerRefs, CreateThread.writerRefs, hpc]
          exact .rfl
        · rw [CreateThread.cipherRefs, CreateThread.cipherRefs, hpc]
          exact .rfl
    · obtain ⟨⟨pc, t⟩, hnext, heq⟩ := Option.map_eq_some_iff.mp h
      cases heq
      exact .ofPc hm hlive fun mc rest' hmc hlive' => createNext_effect hmake hnext hmc hlive'
  | files files =>
    cases h
    exact .stays hm hlive (.keep rfl .rfl) (.keep rfl .rfl) (.keep rfl .rfl)
  | _ => cases h

end

/-! ### Runs -/

omit [DecidableEq Tid] [DecidableEq H] [DecidableEq W] [DecidableEq C] in
theorem CreatePc.isIdle_eq {pc : CreatePc H W C} (h : pc.isIdle = true) : pc = .idle := by
  cases pc with
  | idle => rfl
  | _ => cases h

/-- **A step of a thread.** -/
theorem processStep_effect {P : NewFilewriter H W C → Multiset Resource → Prop} {types : Types H W C F}
    (hmake : types.WritersMake P) {p p' : Process Tid H W C} {i : Tid} {a : CreateAction H W C}
    (h : processStep types p (i, a) = some p') {m rest : Multiset Resource} (hm : (p.threads i).Owns P m)
    (hlive : p.world.live = m + rest) :
    ∃ th', p'.threads = Function.update p.threads i th' ∧
      ThreadEffect P types (p.threads i) th' p.world p'.world rest := by
  obtain ⟨⟨s, th⟩, hstep, rfl⟩ := Option.map_eq_some_iff.mp h
  refine ⟨{ th with errno := s.errno }, rfl, ?_⟩
  have heffect : ThreadEffect P types (p.threads i) th (p.worldOf i) s rest := by
    split_ifs at hstep with hidle
    · exact idleStep_effect hstep (CreatePc.isIdle_eq hidle) hm hlive
    · exact busyStep_effect hmake hstep hm hlive
  -- `errno` does not matter for any of it
  exact ⟨heffect.headers, heffect.writers, heffect.ciphers, heffect.owns, heffect.files⟩

/-- Every counter stays in the range that `cfe_atomic_get` can return. -/
def CountersInInt {A : Type} (_ : Process Tid H W C) (_ : A) (p : Process Tid H W C) : Prop :=
  (∀ t, (p.world.headers.refcnt t).val < 2 ^ 31) ∧ (∀ t, (p.world.writers.refcnt t).val < 2 ^ 31) ∧
    ∀ t, (p.world.ciphers.refcnt t).val < 2 ^ 31

instance {A : Type} [Fintype H] [Fintype W] [Fintype C] (p : Process Tid H W C) (a : A) (p' : Process Tid H W C) :
    Decidable (CountersInInt p a p') :=
  inferInstanceAs (Decidable (_ ∧ _ ∧ _))

variable [Fintype Tid] {types : Types H W C F} {files : ℤ → FileStat} {p p' : Process Tid H W C}

/-- All that is held is owned by threads. -/
theorem sumOwned_of_reachable {P : NewFilewriter H W C → Multiset Resource → Prop} (hmake : types.WritersMake P)
    (h : (processSystem Tid types files).Reachable CountersInInt p) :
    SumOwned (CreateThread.Owns P) p.threads p.world.live := by
  apply h.invariant (I := fun p => SumOwned (CreateThread.Owns P) p.threads p.world.live)
  · exact .zero fun i => ⟨0, 0, rfl, rfl, (zero_add 0).symm⟩
  · rintro t ⟨i, a⟩ u ih hst _
    obtain ⟨m, rest, hm, hlive, hset⟩ := ih.split i
    obtain ⟨th', hthreads, heffect⟩ := processStep_effect hmake hst hm hlive
    obtain ⟨m', hm', hlive'⟩ := heffect.owns
    rw [hthreads, hlive']
    exact hset th' m' hm'

/-- What a step does, in a state that is reached. -/
theorem processStep_reachable {q : Process Tid H W C} {a : Tid × CreateAction H W C}
    (h : (processSystem Tid types files).Reachable CountersInInt p) (hst : processStep types p a = some q) :
    ∃ rest th', q.threads = Function.update p.threads a.1 th' ∧
      ThreadEffect (fun _ _ => True) types (p.threads a.1) th' p.world q.world rest := by
  obtain ⟨m, rest, hm, hlive, -⟩ := (sumOwned_of_reachable types.writersMake_true h).split a.1
  obtain ⟨th', hthreads, heffect⟩ := processStep_effect types.writersMake_true hst hm hlive
  exact ⟨rest, th', hthreads, heffect⟩

omit [DecidableEq H] [DecidableEq W] [DecidableEq C] [Fintype Tid] in
/-- What is read off the threads changes for one of them. -/
theorem comp_update_threads {X : Type} (threads : Tid → CreateThread H W C) (i : Tid) (th : CreateThread H W C)
    (g : CreateThread H W C → X) :
    (fun j => g (Function.update threads i th j)) = Function.update (fun j => g (threads j)) i (g th) :=
  funext fun j => Function.apply_update (fun _ => g) threads i th j

/-- The registry of headers. -/
theorem headerInv_of_reachable (h : (processSystem Tid types files).Reachable CountersInInt p) :
    RefcntInv (Kind.format .header).Good (sharedRefs p.world.headers fun i => (p.threads i).headerRefs) := by
  refine refcntInv_of_refChanges (fun p : Process Tid H W C => p.world.headers) (fun p i => (p.threads i).headerRefs)
    ((Kind.format .header).lawful types.header) rfl rfl ?_ (fun hC => hC.1) h
  intro p a p' hreach hst
  obtain ⟨rest, th', hthreads, heffect⟩ := processStep_reachable hreach hst
  exact ⟨a.1, _, by rw [hthreads, comp_update_threads], heffect.headers⟩

/-- Of file writers. -/
theorem writerInv_of_reachable (h : (processSystem Tid types files).Reachable CountersInInt p) :
    RefcntInv (Kind.format .filewriter).Good (sharedRefs p.world.writers fun i => (p.threads i).writerRefs) := by
  refine refcntInv_of_refChanges (fun p : Process Tid H W C => p.world.writers) (fun p i => (p.threads i).writerRefs)
    ((Kind.format .filewriter).lawful types.writer) rfl rfl ?_ (fun hC => hC.2.1) h
  intro p a p' hreach hst
  obtain ⟨rest, th', hthreads, heffect⟩ := processStep_reachable hreach hst
  exact ⟨a.1, _, by rw [hthreads, comp_update_threads], heffect.writers⟩

/-- Of ciphers. -/
theorem cipherInv_of_reachable (h : (processSystem Tid types files).Reachable CountersInInt p) :
    RefcntInv (Kind.crypto .cipher).Good (sharedRefs p.world.ciphers fun i => (p.threads i).cipherRefs) := by
  refine refcntInv_of_refChanges (fun p : Process Tid H W C => p.world.ciphers) (fun p i => (p.threads i).cipherRefs)
    ((Kind.crypto .cipher).lawful types.cipher) rfl rfl ?_ (fun hC => hC.2.2) h
  intro p a p' hreach hst
  obtain ⟨rest, th', hthreads, heffect⟩ := processStep_reachable hreach hst
  exact ⟨a.1, _, by rw [hthreads, comp_update_threads], heffect.ciphers⟩

/-- **Files created by threads, accounted for.** In every state that any threads reach by
any order of the pieces of their calls, while every counter stays below `2 ^ 31`: in each of
the three registries the counter of a registered type is one more than the references to it
of files, of calls in progress and of direct users, and what any of these refers to is
registered and cannot be unregistered; all that is held of the C library and the operating
system is owned by files and calls in progress, where the `free` of each writer gives back what
its `alloc` took; and when there are neither files nor calls, nothing is held. -/
theorem create_threads_accounted (h : (processSystem Tid types files).Reachable CountersInInt p) :
    RefsCounted ((Kind.format .header).api types.header) p.world.headers (fun i => (p.threads i).headerRefs) ∧
    RefsCounted ((Kind.format .filewriter).api types.writer) p.world.writers (fun i => (p.threads i).writerRefs) ∧
    RefsCounted ((Kind.crypto .cipher).api types.cipher) p.world.ciphers (fun i => (p.threads i).cipherRefs) ∧
    (types.WritersMake NewFilewriter.Frees → SumOwned (CreateThread.Owns NewFilewriter.Frees) p.threads p.world.live) ∧
    ((∀ i, (p.threads i).pc = .idle ∧ (p.threads i).files = []) → p.world.live = 0) := by
  refine ⟨(headerInv_of_reachable h).refsCounted, (writerInv_of_reachable h).refsCounted,
    (cipherInv_of_reachable h).refsCounted, fun hfrees => sumOwned_of_reachable hfrees h, ?_⟩
  intro hquiet
  refine (sumOwned_of_reachable types.writersMake_true h).eq_zero ?_
  rintro i m ⟨mc, mf, hmc, hmf, rfl⟩
  rw [(hquiet i).1] at hmc
  rw [(hquiet i).2] at hmf
  obtain rfl : mc = 0 := hmc
  obtain rfl : mf = 0 := hmf
  rfl

/-- The library with version 1 of both formats and one cipher, and every file empty. -/
def checkCreateSystem : System (Process Bool Unit Unit Unit) (Bool × CreateAction Unit Unit Unit) :=
  processSystem Bool checkCreateTypes checkCreateWorld.files

/-- Two threads create a file each: one has its header, the other has not. -/
def twoCalls : List (Bool × CreateAction Unit Unit Unit) :=
  [(false, .registerHeader ()), (true, .registerWriter ()), (true, .registerCipher ()),
    (false, .create checkCreateEnv 3 (some checkCreateParams)), (true, .create checkCreateEnv 4 (some checkCreateParams)),
    (false, .next), (true, .next), (false, .next), (false, .next), (true, .next)]

/-- Both hold a reference to the header type, and what is held is theirs. -/
theorem create_threads_accounted_two_calls :
    ∃ p, checkCreateSystem.Reachable CountersInInt p ∧ (p.world.headers.refcnt ()).val = 3 ∧
      SumOwned (CreateThread.Owns NewFilewriter.Frees) p.threads p.world.live := by
  have h := System.reachable_of_exec (S := checkCreateSystem) (C := CountersInInt) twoCalls (by decide)
  obtain ⟨hheaders, -, -, howned, -⟩ := create_threads_accounted h
  refine ⟨_, h, ?_, howned checkCreateTypes_frees⟩
  rw [hheaders.counted () (by decide)]
  decide

/-! ### Files stay -/

omit [DecidableEq H] [DecidableEq W] [DecidableEq C] [Fintype Tid] in
/-- A file of a thread has a header and a writer. -/
theorem FilesOwn.parts {P : NewFilewriter H W C → Multiset Resource → Prop} {fs : List (OpenFile H W C)}
    {m : Multiset Resource} (h : FilesOwn P fs m) {file : OpenFile H W C} (hfile : file ∈ fs) :
    ∃ header writer, file.header = some header ∧ file.writer = some writer := by
  induction fs generalizing m with
  | nil => cases hfile
  | cons f fs ih =>
    obtain ⟨mf, ms, hmf, hms, -⟩ := h
    rcases List.mem_cons.mp hfile with rfl | hfile
    · obtain ⟨env, header, writer, mh, mw, hheader, hwriter, -⟩ := hmf
      exact ⟨header, writer, hheader, hwriter⟩
    · exact ih hms hfile

/-- A step keeps the files of every thread. -/
theorem files_kept {as : List (Tid × CreateAction H W C)}
    (h : (processSystem Tid types files).Reachable CountersInInt p)
    (hr : (processSystem Tid types files).Runs CountersInInt p as p') (i : Tid) :
    (p.threads i).files <:+ (p'.threads i).files := by
  induction hr with
  | refl => exact List.suffix_refl _
  | @step as t u a hr hst hC ih =>
    obtain ⟨rest, th', hthreads, heffect⟩ := processStep_reachable (h.runs hr) hst
    rw [hthreads]
    by_cases hi : i = a.1
    · subst hi
      rw [Function.update_self]
      exact ih.trans heffect.files
    · rw [Function.update_of_ne hi]
      exact ih

/-- **A file pins its types.** From when a file was created on, whatever any threads do while
every counter stays below `2 ^ 31`, its header type, its file writer type and its cipher type
are registered, and none of them can be unregistered. -/
theorem created_file_pins_types {as : List (Tid × CreateAction H W C)}
    (h : (processSystem Tid types files).Reachable CountersInInt p)
    (hr : (processSystem Tid types files).Runs CountersInInt p as p') {i : Tid} {file : OpenFile H W C}
    (hfile : file ∈ (p.threads i).files) :
    ∃ header writer, file.header = some header ∧ file.writer = some writer ∧
      (header.type ∈ p'.world.headers.list ∧ cfeHeaderUnregister header.type p'.world.headers = .error EBUSY) ∧
      (writer.type ∈ p'.world.writers.list ∧ cfeFilewriterUnregister writer.type p'.world.writers = .error EBUSY) ∧
      (file.cipher ∈ p'.world.ciphers.list ∧ cfeCipherUnregister file.cipher p'.world.ciphers = .error EBUSY) := by
  have hreach := h.runs hr
  have hfile' : file ∈ (p'.threads i).files := (files_kept h hr i).subset hfile
  obtain ⟨m, rest, ⟨mc, mf, -, hmf, -⟩, -⟩ := (sumOwned_of_reachable types.writersMake_true hreach).split i
  obtain ⟨header, writer, hheader, hwriter⟩ := hmf.parts hfile'
  refine ⟨header, writer, hheader, hwriter, ?_, ?_, ?_⟩
  · refine ((headerInv_of_reachable hreach).refsCounted (f := types.header)).registered i header.type ?_
    apply List.mem_append_right
    exact List.mem_flatMap.mpr ⟨file, hfile', by simp [OpenFile.headerRefs, hheader]⟩
  · refine ((writerInv_of_reachable hreach).refsCounted (f := types.writer)).registered i writer.type ?_
    apply List.mem_append_right
    exact List.mem_flatMap.mpr ⟨file, hfile', by simp [OpenFile.writerRefs, hwriter]⟩
  · refine ((cipherInv_of_reachable hreach).refsCounted (f := types.cipher)).registered i file.cipher ?_
    apply List.mem_append_right
    apply List.mem_append_left
    exact List.mem_map_of_mem hfile'

/-- One of the two calls has returned. -/
def oneCallDone : Process Bool Unit Unit Unit :=
  (checkCreateSystem.exec CountersInInt checkCreateSystem.init (twoCalls ++ List.replicate 4 (false, .next))).get
    (by decide)

/-- Its cipher cannot be taken out any more. -/
theorem created_file_pins_types_two_calls :
    ∃ p, checkCreateSystem.Runs CountersInInt oneCallDone [(false, .unregisterCipher ()), (true, .next)] p ∧
      cfeCipherUnregister () p.world.ciphers = .error EBUSY := by
  have h : checkCreateSystem.Reachable CountersInInt oneCallDone := System.reachable_of_exec _ (by decide)
  have hr : checkCreateSystem.Runs CountersInInt oneCallDone [(false, .unregisterCipher ()), (true, .next)] _ :=
    System.runs_of_exec (Option.some_get (by decide)).symm
  obtain ⟨-, -, -, -, -, -, -, hcipher⟩ := created_file_pins_types h hr (i := false) (List.mem_cons_self ..)
  exact ⟨_, hr, hcipher⟩

/-! ### Calls that nothing interrupts -/

section

omit [Fintype Tid]

section

omit [DecidableEq H] [DecidableEq W] [DecidableEq C]

@[simp] theorem Process.worldOf_set (p : Process Tid H W C) (i : Tid) (s : World H W C) (th : CreateThread H W C) :
    (p.set i s th).worldOf i = s := by
  simp [Process.set, Process.worldOf]

@[simp] theorem Process.threads_set (p : Process Tid H W C) (i : Tid) (s : World H W C) (th : CreateThread H W C) :
    (p.set i s th).threads i = { th with errno := s.errno } := by
  simp [Process.set]

@[simp] theorem Process.set_set (p : Process Tid H W C) (i : Tid) (s s' : World H W C) (th th' : CreateThread H W C) :
    (p.set i s th).set i s' th' = p.set i s' th' := by
  simp [Process.set]

end

omit [DecidableEq Tid] in
/-- A call that has a piece left is in progress, and has not come to its end. -/
theorem busyStep_next {pc pc' : CreatePc H W C} {s s' : World H W C} (h : createNext types pc s = some (pc', s'))
    (th : CreateThread H W C) :
    pc.isIdle = false ∧ busyStep types s { th with pc } .next = some (s', { th with pc := pc' }) := by
  cases pc with
  | idle => cases h
  | done file => cases h
  | _ => exact ⟨rfl, by simp only [busyStep, h, Option.map_some]⟩

/-- A thread takes a piece of its call. -/
theorem processStep_next {pc pc' : CreatePc H W C} {s s' : World H W C} {th : CreateThread H W C}
    (h : createNext types pc s = some (pc', s')) (p : Process Tid H W C) (i : Tid) :
    processStep types (p.set i s { th with pc }) (i, .next) = some (p.set i s' { th with pc := pc' }) := by
  obtain ⟨hidle, hnext⟩ := busyStep_next h { th with errno := s.errno }
  simp only [processStep, Process.worldOf_set, Process.threads_set, hidle, Bool.false_eq_true, if_false, hnext,
    Option.map_some, Process.set_set]
  rfl

/-- One thread takes all the pieces of its call. -/
theorem runs_of_createPieces {n : ℕ} {s s' : World H W C} {pc : CreatePc H W C} {file : Option (OpenFile H W C)}
    (h : createPieces types n pc s = some (.done file, s')) (p : Process Tid H W C) (i : Tid) (th : CreateThread H W C) :
    ∃ m, (processSystem Tid types files).Runs System.Free (p.set i s { th with pc }) (List.replicate m (i, .next))
      (p.set i s' { th with pc := .done file }) := by
  induction n generalizing pc s with
  | zero =>
    have hdone : pc = .done file ∧ s = s' := by
      cases pc with
      | done f => simpa [createPieces] using h
      | _ => cases h
    obtain ⟨rfl, rfl⟩ := hdone
    exact ⟨0, .refl⟩
  | succ n ih =>
    cases hnext : createNext types pc s with
    | none =>
      have hdone : pc = .done file ∧ s = s' := by
        cases pc with
        | done f => simpa [createPieces] using h
        | _ => simp only [createPieces, hnext, reduceCtorEq] at h
      obtain ⟨rfl, rfl⟩ := hdone
      exact ⟨0, .refl⟩
    | some r =>
      obtain ⟨pc', s''⟩ := r
      rw [createPieces_succ hnext] at h
      obtain ⟨m, hruns⟩ := ih h
      exact ⟨m + 1, .cons (processStep_next hnext p i) trivial hruns⟩

/-- The call returns. -/
theorem processStep_done (types : Types H W C F) (p : Process Tid H W C) (i : Tid) (s : World H W C)
    (th : CreateThread H W C) (file : Option (OpenFile H W C)) :
    processStep types (p.set i s { th with pc := .done file }) (i, .next) =
      some (p.set i s { th with pc := .idle, files := file.toList ++ th.files }) := by
  simp only [processStep, Process.worldOf_set, Process.threads_set, CreatePc.isIdle, Bool.false_eq_true, if_false,
    busyStep, Option.map_some, Process.set_set]
  rfl

/-- The call is made. -/
theorem processStep_create (types : Types H W C F) (p : Process Tid H W C) {i : Tid}
    (hidle : (p.threads i).pc = .idle) (env : Env) (fd : ℤ) (params : Option CfeOpenParams) :
    processStep types p (i, .create env fd params) = match cfeCreateChecks env fd params (p.worldOf i) with
      | (none, _, s) => some (p.set i s (p.threads i))
      | (some q, _, s) => some (p.set i s { p.threads i with pc := .newFile ⟨env, fd, q⟩ }) := by
  simp only [processStep, hidle, CreatePc.isIdle, if_true, idleStep]
  rcases cfeCreateChecks env fd params (p.worldOf i) with ⟨_ | q, params', s⟩ <;> rfl

/-- **A call that no other thread interrupts is `cfe_create`.** In every state, a thread with
no call in progress can make any call of `cfe_create` that returns, taking its pieces one
after the other and doing nothing else, and it then has the file, the `errno`, the registries,
the files and the log that `cfe_create` leaves when it is executed at once. -/
theorem cfeCreate_uninterrupted (types : Types H W C F) (files : ℤ → FileStat) (p : Process Tid H W C) {i : Tid}
    (hidle : (p.threads i).pc = .idle) (env : Env) (fd : ℤ) (flags mode : BitVec 32) (params : Option CfeOpenParams)
    {r : Option (CfeFile H W C)} {params' : Option CfeOpenParams} {s' : World H W C}
    (h : cfeCreate types env fd flags mode params (p.worldOf i) = some (r, params', s')) :
    ∃ (n : ℕ) (file : Option (OpenFile H W C)), file.map OpenFile.toCfeFile = r ∧
      (processSystem Tid types files).Runs System.Free p ((i, .create env fd params) :: List.replicate n (i, .next))
        (p.set i s' { p.threads i with files := file.toList ++ (p.threads i).files }) := by
  rw [cfeCreate_checks] at h
  have hcreate := processStep_create types p hidle env fd params
  rcases hchecks : cfeCreateChecks env fd params (p.worldOf i) with ⟨_ | q, params'', s⟩
  · rw [hchecks] at h hcreate
    cases h
    exact ⟨0, none, rfl, .cons hcreate trivial .refl⟩
  · rw [hchecks] at h hcreate
    obtain ⟨⟨r', s''⟩, hdo, heq⟩ := Option.map_eq_some_iff.mp h
    cases heq
    rw [← doCreate_pieces types ⟨env, fd, q⟩ flags mode s] at hdo
    rcases hpieces : createPieces types 11 (.newFile ⟨env, fd, q⟩) s with _ | ⟨pc, t⟩
    · rw [hpieces] at hdo
      cases hdo
    · rw [hpieces] at hdo
      cases pc with
      | done file =>
        cases hdo
        obtain ⟨m, hruns⟩ := runs_of_createPieces hpieces p i (p.threads i)
        have hdone := processStep_done types p i s' (p.threads i) file
        have hth : ({ p.threads i with files := file.toList ++ (p.threads i).files } : CreateThread H W C) =
            { p.threads i with pc := .idle, files := file.toList ++ (p.threads i).files } := by rw [← hidle]
        refine ⟨m + 1, file, rfl, .cons hcreate trivial ?_⟩
        rw [hth, List.replicate_succ']
        exact hruns.step hdone trivial
      | _ => cases hdo

end

/-- The call of `tests/check_create.c`. -/
theorem cfeCreate_uninterrupted_check_create :
    ∃ n p, (processSystem Bool checkCreateTypes checkCreateWorld.files).Runs System.Free ⟨checkCreateWorld, fun _ => {}⟩
        ((false, .create checkCreateEnv 3 (some checkCreateParams)) :: List.replicate n (false, .next)) p ∧
      (p.threads false).files.length = 1 := by
  obtain ⟨n, file, hfile, hruns⟩ := cfeCreate_uninterrupted checkCreateTypes checkCreateWorld.files
    ⟨checkCreateWorld, fun _ => {}⟩ (i := false) rfl checkCreateEnv 3 0 0 (some checkCreateParams) rfl
  refine ⟨n, _, hruns, ?_⟩
  obtain ⟨f, rfl, -⟩ := Option.map_eq_some_iff.mp hfile
  rfl

end LibCfe
