import LibCfe.Open.References

/-!
# Tearing a file down

`cfe_file_free` is what `do_create` itself uses to undo what it has done so far. Of a
whole file it undoes only the header: `cfe_file_destroy` closes that, and does nothing
with the file writer, so its type and its cipher stay referenced, and its block and lock
stay held.

## What is proved

`file_free_leaves` — what tearing a file down leaves, which is never what there was before.
-/

namespace LibCfe

open World

variable {H W C F : Type} [DecidableEq H] [DecidableEq W] [DecidableEq C]

/-- Nothing is left of a file that was made in `s` and torn down in `t`: every counter is
what it was, what was taken from the C library and the operating system was given back,
and every block was freed as often as it was allocated. -/
structure Undone (s t : World H W C) : Prop where
  headers : t.headers.refcnt = s.headers.refcnt
  writers : t.writers.refcnt = s.writers.refcnt
  ciphers : t.ciphers.refcnt = s.ciphers.refcnt
  live : t.live = s.live
  freed : ∀ addr, t.log.count (.free addr) + s.log.count (.calloc addr) =
    s.log.count (.free addr) + t.log.count (.calloc addr)

section

variable {types : Types H W C F} {env : Env} {fd : ℤ} {flags mode : BitVec 32} {params : CfeOpenParams}
  {s s' : World H W C} {file : CfeFile H W C}

/-- The one counter that a reference is counted in differs. -/
theorem inc_refcnt_ne {T : Type} [DecidableEq T] (r : Registry T) (t : T) : (r.inc t).refcnt ≠ r.refcnt := by
  intro h
  have hself := congrFun h t
  rw [Registry.inc_refcnt_self] at hself
  have hcounter : (r.refcnt t).counter + (1 : BitVec 32).signExtend 64 = (r.refcnt t).counter :=
    congrArg CfeAtomic.counter hself
  rw [signExtend_one] at hcounter
  bv_omega

/-- `unregister` of a type with a reference more than its own fails. -/
theorem cryptoUnregister_inc {T : Type} [DecidableEq T] {r : Registry T} {t : T} (h : cfeAtomicGet (r.refcnt t) = 1) :
    cryptoUnregister t (r.inc t) = .error EBUSY := by
  apply if_pos
  rw [Registry.inc_refcnt_self]
  have hlow : (r.refcnt t).counter.setWidth 32 = 1 := h
  have hnext : cfeAtomicGet (cfeAtomicInc (r.refcnt t)) = 2 := by
    show ((r.refcnt t).counter + (1 : BitVec 32).signExtend 64).setWidth 32 = 2
    rw [signExtend_one, BitVec.setWidth_add _ _ (by omega), hlow]
    rfl
  rw [hnext]
  decide

/-- **What tearing a file down leaves.** Whatever is registered and whatever becomes of the
calls that `do_create` makes: its header is gone without a trace, and so is its block; the
type of its file writer and the cipher have one reference more than before `do_create`, and
what the `alloc` of the writer took is still held. So it is never undone, and a cipher that
could be unregistered before cannot be any more. A call of the writer's `free` would be
enough to have nothing held, where that gives back what its `alloc` takes. -/
theorem file_free_leaves (h : doCreate types env fd flags mode params s = some (some file, s')) :
    ¬Undone s (cfeFileFree env file s') ∧
      ∃ tw name tc writer held, s.writers.dflt = some tw ∧ params.cipher = some name ∧
        findAlg (cipherClass types.cipher) s.ciphers name = some tc ∧
        (cfeFileFree env file s').headers = s.headers ∧
        (cfeFileFree env file s').writers = s.writers.inc tw ∧
        (cfeFileFree env file s').ciphers = s.ciphers.inc tc ∧
        (cfeAtomicGet (s.ciphers.refcnt tc) = 1 →
          cfeCipherUnregister tc (cfeFileFree env file s').ciphers = .error EBUSY) ∧
        file.writer = some writer ∧ (cfeFileFree env file s').live = held + s.live ∧
        ((∀ alloc, (types.writer tw).alloc = some alloc → alloc.Makes NewFilewriter.Frees) →
          (writer.free (cfeFileFree env file s')).live = s.live) := by
  obtain ⟨header, writer, s₁, hheader, hwriter, hfh, hfw⟩ := doCreate_parts h
  obtain ⟨-, hh, hw, hc, held, hlive₁, hclose⟩ := cfeHeaderCreate_some hheader
  obtain ⟨hdw, name, tc, hname, hfind, hh₂, hw₂, hc₂⟩ := cfeFilewriterCreate_some hwriter
  obtain ⟨heldw, hlive₂, hfree⟩ := cfeFilewriterCreate_held hwriter
  rw [hw] at hdw hw₂
  rw [hc] at hfind hc₂
  -- the header goes first, and then the block of the file
  have hlive : s'.live = held + (.block file.block ::ₘ (heldw + s.live)) := by
    rw [hlive₂, hlive₁, live_emit, SysCall.effect, ← Multiset.add_assoc, Multiset.add_comm heldw, Multiset.add_assoc,
      Multiset.add_cons]
  obtain ⟨hrest, hch, hcw, hcc⟩ := hclose s' _ hlive
  have hdown : cfeFileFree env file s' = free file.block (cfeHeaderClose env header s') := by
    simp only [cfeFileFree, cfeFileDestroy, hfh]
  have hheaders : (cfeFileFree env file s').headers = s.headers := by
    rw [hdown]
    show (cfeHeaderClose env header s').headers = s.headers
    rw [hch, hh₂, hh]
    exact Registry.dec_inc _ _
  have hwriters : (cfeFileFree env file s').writers = s.writers.inc writer.type := by
    rw [hdown]
    exact hcw.trans hw₂
  have hciphers : (cfeFileFree env file s').ciphers = s.ciphers.inc tc := by
    rw [hdown]
    exact hcc.trans hc₂
  have hheld : (cfeFileFree env file s').live = heldw + s.live := by
    rw [hdown]
    exact live_free hrest
  constructor
  · intro hundone
    have hcount := hundone.writers
    rw [hwriters] at hcount
    exact inc_refcnt_ne _ _ hcount
  · refine ⟨writer.type, name, tc, writer, heldw, hdw, hname, hfind, hheaders, hwriters, hciphers, ?_, hfw, hheld,
      fun hfrees => (hfree hfrees _ _ hheld).1⟩
    intro hone
    rw [hciphers]
    exact cryptoUnregister_inc hone

end

/-- The file of the test of `cfe_create`, torn down, is an instance: the `free` of its writer
would leave nothing held. -/
theorem file_free_leaves_test : ∃ file s',
    doCreate checkCreateTypes checkCreateEnv 3 0 0 checkCreateParams checkCreateWorld = some (some file, s') ∧
      ¬Undone checkCreateWorld (cfeFileFree checkCreateEnv file s') ∧
      ∃ writer, file.writer = some writer ∧ (writer.free (cfeFileFree checkCreateEnv file s')).live = 0 := by
  have hdo : ∃ r : CfeFile Unit Unit Unit × World Unit Unit Unit,
      doCreate checkCreateTypes checkCreateEnv 3 0 0 checkCreateParams checkCreateWorld = some (some r.1, r.2) :=
    ⟨(_, _), rfl⟩
  obtain ⟨⟨file, s'⟩, h⟩ := hdo
  obtain ⟨hnot, tw, -, -, writer, -, -, -, -, -, -, -, -, hwriter, -, hfree⟩ := file_free_leaves h
  exact ⟨file, s', h, hnot, writer, hwriter, hfree (checkCreateTypes_frees tw)⟩

/-- Its writer and its cipher stay referenced, and the block of the writer is never freed. -/
theorem file_free_not_undone : ∃ file s',
    doCreate checkCreateTypes checkCreateEnv 3 0 0 checkCreateParams checkCreateWorld = some (some file, s') ∧
      ((cfeFileFree checkCreateEnv file s').headers.refcnt ()).val = 1 ∧
      ((cfeFileFree checkCreateEnv file s').writers.refcnt ()).val = 2 ∧
      ((cfeFileFree checkCreateEnv file s').ciphers.refcnt ()).val = 2 ∧
      SysCall.calloc 0x4000 ∈ (cfeFileFree checkCreateEnv file s').log ∧
      SysCall.free 0x4000 ∉ (cfeFileFree checkCreateEnv file s').log ∧
      ¬Undone checkCreateWorld (cfeFileFree checkCreateEnv file s') := by
  refine ⟨_, _, rfl, by decide, by decide, by decide, by decide, by decide, ?_⟩
  intro h
  have hcount := congrArg CfeAtomic.val (congrFun h.writers ())
  revert hcount
  decide

end LibCfe
