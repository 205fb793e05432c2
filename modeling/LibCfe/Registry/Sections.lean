import LibCfe.Registry.Order
import LibCfe.Registry.Pointer
import LibCfe.Theory.RwLock

/-!
# The locked sections, step by step

In `LibCfe.Registry.Concurrent` a locked section is one step on a list of types. Here it
is what a thread executes: it locks `alg_lock`, `header_lock` or `writer_lock`, follows one link
after the other, stores to one field after the other, and unlocks. Between any two of these other
threads take their steps: readers walk over the same list, and counters go up and down
without the lock.

## The model

`Section` is where a thread is between lock and unlock, and `sectionStep` its next step there. A thread that
has no lock takes the steps of `regStep`. The two texts of the source, the one of the crypto
registries and the one of the format registries, differ in how the key of a type is
compared and in the default, and `Kind` has both.

A thread that would follow a `NULL` pointer has no next step.
-/

namespace LibCfe

open Theory

variable {T F : Type} [DecidableEq T]

/-! ### What the six registries differ in -/

namespace Kind

/-- The key of a type, as `register` reads it. -/
def keyOf : (k : Kind) → (T → k.Struct F) → (T → CfeAtomic) → T → k.Key
  | crypto k, f, refcnt, type => (k.toClass f).name refcnt type
  | format k, f, _, type => k.version (f type)

/-- The key that a lookup asks for; the default version asks for none. -/
def askedKey : (k : Kind) → k.Query → Option k.Key
  | crypto k, q => some (k.asked q)
  | format k, (v : BitVec 32) => if v = -1 then none else some (v.setWidth k.width)

/-- Whether this is the type that `find_alg`, `cfe_header_find` or `cfe_filewriter_find` returns. -/
def isFound : (k : Kind) → (T → k.Struct F) → (T → CfeAtomic) → k.Key → T → Bool
  | crypto k, f, refcnt, name, tmp => strcmp name ((k.toClass f).name refcnt tmp) == 0
  | format k, f, _, version, tmp => k.version (f tmp) == version

/-- What `register` checks before it takes the lock: nothing in a format registry. -/
def accepts : (k : Kind) → (T → k.Struct F) → T → Bool
  | crypto k, f, type => (k.toClass f).accepts type
  | format _, _, _ => true

/-- The default after a type is registered; a crypto registry has none. -/
def newDefault : (k : Kind) → (T → k.Struct F) → T → Option T → Option T
  | crypto _, _, _, dflt => dflt
  | format _, _, type, none => some type
  | format k, f, type, some d => if k.version (f d) < k.version (f type) then some type else some d

/-- `header_default == type`, `writer_default == type`. -/
def isDefault : Kind → T → Option T → Bool
  | crypto _, _, _ => false
  | format _, type, dflt => dflt = some type

/-- `register` in these terms. -/
theorem api_register (k : Kind) (f : T → k.Struct F) (t : T) (s : Registry T) :
    (k.api f).register t s =
      if !k.accepts f t then .error EINVAL
      else match s.list.find? (k.isFound f s.refcnt (k.keyOf f s.refcnt t)) with
        | some _ => .error EBUSY
        | none => .ok { list := s.list ++ [t], dflt := k.newDefault f t s.dflt,
                        refcnt := Function.update s.refcnt t (cfeAtomicSet 1) } := by
  cases k with
  | crypto k => exact register_crypto k f t s
  | format k =>
    refine (register_format k f t s).trans ?_
    simp only [formatRegister, accepts, Bool.not_true, Bool.false_eq_true, if_false]
    cases hfind : formatFind (fun t => k.version (f t)) s (k.version (f t)) with
    | some u => simp only [show s.list.find? (isFound (.format k) f s.refcnt (k.version (f t))) = some u from hfind, keyOf]
    | none =>
      simp only [show s.list.find? (isFound (.format k) f s.refcnt (k.version (f t))) = none from hfind, keyOf]
      cases s.dflt <;> rfl

/-- `unregister`. -/
theorem api_unregister (k : Kind) (f : T → k.Struct F) (t : T) (s : Registry T) :
    (k.api f).unregister t s =
      if k.isDefault t s.dflt then .error EBUSY
      else if cfeAtomicGet (s.refcnt t) ≠ 1 then .error EBUSY
      else .ok { s with list := s.list.erase t } := by
  cases k with
  | crypto k =>
    have hapi : Kind.api (.crypto k) f = cryptoApi (k.toClass f) k.asked := k.api_eq f
    rw [hapi]
    rfl
  | format k =>
    have hapi : Kind.api (.format k) f = formatApi fun t => k.version (f t) := k.api_eq f
    rw [hapi]
    simp only [formatApi, formatUnregister, isDefault, decide_eq_true_eq]

/-- The lookup. -/
theorem api_lookup (k : Kind) (f : T → k.Struct F) (q : k.Query) (s : Registry T) :
    (k.api f).lookup q s =
      match k.askedKey q with
      | some key => s.list.find? (k.isFound f s.refcnt key)
      | none => s.dflt := by
  cases k with
  | crypto k => rfl
  | format k =>
    have hapi : Kind.api (.format k) f = formatApi fun t => k.version (f t) := k.api_eq f
    rw [hapi]
    simp only [formatApi, formatLookup, askedKey]
    split_ifs <;> rfl

omit [DecidableEq T] in
/-- The key of a type does not depend on the counters, -/
theorem keyOf_congr {k : Kind} {f : T → k.Struct F} (hname : ∀ t, k.KeyEnds (f t)) (r r' : T → CfeAtomic) (t : T) :
    k.keyOf f r t = k.keyOf f r' t := by
  cases k with
  | crypto k => exact (k.name_of_terminated f (hname t) r).trans (k.name_of_terminated f (hname t) r').symm
  | format k => rfl

omit [DecidableEq T] in
/-- and nor does what a walk finds. -/
theorem isFound_congr {k : Kind} {f : T → k.Struct F} (hname : ∀ t, k.KeyEnds (f t)) (r r' : T → CfeAtomic)
    (key : k.Key) : k.isFound f r key = k.isFound f r' key := by
  funext t
  cases k with
  | crypto k =>
    simp only [isFound, k.name_of_terminated f (hname t)]
  | format k => rfl

end Kind

/-! ### Threads in a locked section -/

/-- What a walk over the list is for. -/
inductive Finder (T Q : Type) where
  /-- `register`. -/
  | register (type : T)
  /-- The start of a call that uses a type. -/
  | enter (q : Q)
  /-- `cfe_cipher_ref`. -/
  | ref (q : Q)

/-- Where a thread is between lock and unlock. -/
inductive Section (T Q : Type) where
  /-- It has just taken the lock to find a type. -/
  | find (c : Finder T Q)
  /-- In `list_for_each`, at this node. -/
  | walk (c : Finder T Q) (pos : Option (Node T))
  /-- The walk is over, and this was found. -/
  | found (c : Finder T Q) (type : Option T)
  /-- `unregister` has just taken the lock. -/
  | test (type : T)
  /-- These stores are left, and then, if it is a type, to see whether it is the new default. -/
  | store (stores : List (Store (Node T))) (new : Option T)
  /-- All that is left is to unlock. -/
  | unlock

/-- It needs the lock for writing. -/
def Section.Writes {Q : Type} : Section T Q → Prop
  | .find (.register _) | .walk (.register _) _ | .found (.register _) _ => True
  | .test _ | .store _ _ => True
  | _ => False

/-- The memory of a registry, its lock, and the threads that use it. -/
structure Memory (Tid T Q : Type) where
  /-- `alg_lock`, `header_lock` or `writer_lock`. -/
  lock : RwLock Tid
  /-- The links between the nodes. -/
  links : Links (Node T)
  /-- `header_default` or `writer_default`. -/
  dflt : Option T
  /-- The counter of each type. -/
  refcnt : T → CfeAtomic
  /-- The threads. -/
  threads : Tid → Thread T
  /-- Where each is in a locked section. -/
  sections : Tid → Option (Section T Q)

/-- What a thread can do. -/
inductive MemAction (T Q : Type) where
  /-- Take the lock for one of the calls that need it, or take a step that needs no lock. -/
  | start (a : RegAction T Q)
  /-- The next step in its locked section. -/
  | next

variable {Tid : Type} [DecidableEq Tid] (k : Kind) (f : T → k.Struct F)

/-- The key that is looked for. -/
def Finder.key (refcnt : T → CfeAtomic) : Finder T k.Query → Option k.Key
  | .register type => some (k.keyOf f refcnt type)
  | .enter q => k.askedKey q
  | .ref q => k.askedKey q

/-- The comparison in the body of the loop. -/
def Finder.isFound (refcnt : T → CfeAtomic) (c : Finder T k.Query) (tmp : T) : Bool :=
  (c.key k f refcnt).any fun key => k.isFound f refcnt key tmp

/-- Thread `i` goes on. -/
def Memory.goto {Q : Type} (s : Memory Tid T Q) (i : Tid) (sec : Section T Q) : Memory Tid T Q :=
  { s with sections := Function.update s.sections i (some sec) }

/-- Thread `i` goes on with a reference to a type more, as `th`. -/
def Memory.take {Q : Type} (s : Memory Tid T Q) (i : Tid) (type : T) (th : Thread T) : Memory Tid T Q :=
  { s.goto i .unlock with
    refcnt := Function.update s.refcnt type (cfeAtomicInc (s.refcnt type)),
    threads := Function.update s.threads i th }

/-- The next step of a thread in a locked section. -/
def sectionStep (s : Memory Tid T k.Query) (i : Tid) : Section T k.Query → Option (Memory Tid T k.Query)
  | .find c =>
    match c.key k f s.refcnt with
    | some _ => some (s.goto i (.walk c (s.links.next .head)))
    | none => some (s.goto i (.found c s.dflt))
  | .walk _ none => none
  | .walk c (some .head) => some (s.goto i (.found c none))
  | .walk c (some (.of tmp)) =>
    if c.isFound k f s.refcnt tmp then some (s.goto i (.found c (some tmp)))
    else some (s.goto i (.walk c (s.links.next (.of tmp))))
  | .found (.register _) (some _) => some (s.goto i .unlock)
  | .found (.register type) none =>
    some { s.goto i (.store (listAddTailStores (.of type) .head s.links) (some type)) with
           refcnt := Function.update s.refcnt type (cfeAtomicSet 1) }
  | .found (.enter _) (some type) => some (s.take i type { s.threads i with pc := .inCallback type })
  | .found (.ref _) (some type) => some (s.take i type { s.threads i with refs := type :: (s.threads i).refs })
  | .found (.enter _) none | .found (.ref _) none => some (s.goto i .unlock)
  | .test type =>
    if k.isDefault type s.dflt then some (s.goto i .unlock)
    else if cfeAtomicGet (s.refcnt type) ≠ 1 then some (s.goto i .unlock)
    else some (s.goto i (.store (listDelInitStores (.of type) s.links) none))
  | .store (st :: stores) new => (st.run s.links).map fun links => { s.goto i (.store stores new) with links }
  | .store [] none => some (s.goto i .unlock)
  | .store [] (some type) => some { s.goto i .unlock with dflt := k.newDefault f type s.dflt }
  | .unlock => some { s with lock := s.lock.unlock i, sections := Function.update s.sections i none }

/-- Thread `i` takes the lock, or has to wait. -/
def Memory.locked {Q : Type} (s : Memory Tid T Q) (i : Tid) (sec : Section T Q) (lock : Option (RwLock Tid)) :
    Option (Memory Tid T Q) :=
  lock.map fun lock => { s.goto i sec with lock }

/-- One step, by thread `a.1`. -/
def memStep (s : Memory Tid T k.Query) (a : Tid × MemAction T k.Query) : Option (Memory Tid T k.Query) :=
  match s.sections a.1, a.2 with
  | some sec, .next => sectionStep k f s a.1 sec
  | none, .start (.register t) =>
    if (s.threads a.1).pc = .idle then
      if !k.accepts f t then some s else s.locked a.1 (.find (.register t)) (s.lock.wrlock a.1)
    else none
  | none, .start (.unregister t) =>
    if (s.threads a.1).pc = .idle then s.locked a.1 (.test t) (s.lock.wrlock a.1) else none
  | none, .start (.enter q) =>
    if (s.threads a.1).pc = .idle then s.locked a.1 (.find (.enter q)) (s.lock.rdlock a.1) else none
  | none, .start (.ref q) =>
    if (s.threads a.1).pc = .idle ∧ k.hasRef then s.locked a.1 (.find (.ref q)) (s.lock.rdlock a.1) else none
  | none, .start a' =>
    -- a callback or a decrement, on the counters alone
    (regStep k f ⟨⟨[], none, s.refcnt⟩, s.threads⟩ (a.1, a')).map fun u =>
      { s with refcnt := u.registry.refcnt, threads := u.threads }
  | _, _ => none

/-- An empty registry, and threads that have done nothing yet. -/
def memSystem (Tid : Type) [DecidableEq Tid] (k : Kind) (f : T → k.Struct F) :
    System (Memory Tid T k.Query) (Tid × MemAction T k.Query) where
  init := ⟨.free, PtrRegistry.empty.links, none, fun _ => ⟨0⟩, fun _ => {}, fun _ => none⟩
  step := memStep k f

end LibCfe
