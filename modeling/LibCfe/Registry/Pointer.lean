import LibCfe.Cfe.List
import LibCfe.Registry.Concurrent

/-!
# A crypto registry as linked nodes

`LibCfe.Registry.Basic` has `alg_list` as a list of types. Here it is what the source
has: the static head and the node in each type, linked by `next` and `prev`. The
walk in `find_alg` follows the links, so it might not end, and the edits follow
links that might be `NULL`; either way the call has no result. `fuel` bounds the
number of nodes that a walk visits.

## The model

`ptrCall` and `regCall` are the calls of a crypto registry on nodes and on a list.
A client makes calls one after the other, of either; what it knows is the
`History`: the references it took and did not drop, and which types it removed. It
only drops references that it took.

## What is proved

`ptrCall_refines` is the step: on nodes that represent a list, a call returns, and
it returns what the call on the list returns. `pointer_registry_refines` is the
result about every sequence of calls.
-/

namespace LibCfe

open Theory

/-- The nodes of `alg_list`. -/
inductive Node (T : Type) where
  /-- The static head. -/
  | head
  /-- `&type->next`. -/
  | of (type : T)
  deriving DecidableEq

/-- `list_entry`. -/
def Node.type? {T : Type} : Node T → Option T
  | head => none
  | of type => some type

/-- The memory of a crypto registry. -/
structure PtrRegistry (T : Type) where
  /-- The links between the nodes. -/
  links : Links (Node T)
  /-- The counter of each type. -/
  refcnt : T → CfeAtomic

variable {T F : Type} [DecidableEq T]

/-- `LIST_HEAD(alg_list)`, and types that are zero-initialised. -/
def PtrRegistry.empty : PtrRegistry T :=
  ⟨initListHead .head ⟨fun _ => none, fun _ => none⟩, fun _ => ⟨0⟩⟩

section

variable (c : CryptoClass T) (fuel : ℕ)

/-- `find_alg`: the type found or `NULL`, when the walk ends. -/
def ptrFindAlg (s : PtrRegistry T) (name : CString) : Option (Option T) :=
  (listForEach .head s.links
    (fun pos => pos.type?.any fun tmp => strcmp name (c.name s.refcnt tmp) == 0)
    fuel (s.links.next .head)).map fun pos => pos.bind Node.type?

/-- `cfe_…_register`. -/
def ptrRegister (type : T) (s : PtrRegistry T) : Option (Except Errno (PtrRegistry T)) :=
  if !c.accepts type then some (.error EINVAL)
  else do
    match ← ptrFindAlg c fuel s (c.name s.refcnt type) with
    | some _ => return .error EBUSY
    | none =>
      let refcnt := Function.update s.refcnt type (cfeAtomicSet 1)
      let links ← listAddTail (.of type) .head s.links
      return .ok ⟨links, refcnt⟩

/-- `cfe_…_unregister`. -/
def ptrUnregister (type : T) (s : PtrRegistry T) : Option (Except Errno (PtrRegistry T)) :=
  if cfeAtomicGet (s.refcnt type) ≠ 1 then some (.error EBUSY)
  else do
    let links ← listDelInit (.of type) s.links
    return .ok { s with links }

end

/-! ### Calls -/

/-- The calls of a crypto registry. -/
inductive RegCall (T Q : Type) where
  /-- `register`. -/
  | register (t : T)
  /-- `unregister`. -/
  | unregister (t : T)
  /-- The lookup and increment of a call that uses a type. -/
  | ref (q : Q)
  /-- The decrement that drops a reference. -/
  | drop (t : T)

/-- What a call returns. -/
inductive Ret (T : Type) where
  /-- `0`, or nothing. -/
  | done
  /-- `1`, with this `errno`. -/
  | failed (e : Errno)
  /-- A type or `NULL`. -/
  | type (t : Option T)
  deriving DecidableEq

/-- A call of a crypto registry on nodes, when it returns. -/
def ptrCall (k : CryptoKind) (f : T → k.Struct F) (fuel : ℕ) (s : PtrRegistry T) :
    RegCall T k.Query → Option (Ret T × PtrRegistry T)
  | .register t => (ptrRegister (k.toClass f) fuel t s).map fun
      | .ok s' => (.done, s')
      | .error e => (.failed e, s)
  | .unregister t => (ptrUnregister t s).map fun
      | .ok s' => (.done, s')
      | .error e => (.failed e, s)
  | .ref q => (ptrFindAlg (k.toClass f) fuel s (k.asked q)).map fun
      | some t => (.type (some t), { s with refcnt := Function.update s.refcnt t (cfeAtomicInc (s.refcnt t)) })
      | none => (.type none, s)
  | .drop t => some (.done, { s with refcnt := Function.update s.refcnt t (cfeAtomicDec (s.refcnt t)) })

/-- The same call on a list. -/
def regCall (k : CryptoKind) (f : T → k.Struct F) (s : Registry T) : RegCall T k.Query → Ret T × Registry T
  | .register t =>
      match (k.api f).register t s with
      | .ok s' => (.done, s')
      | .error e => (.failed e, s)
  | .unregister t =>
      match (k.api f).unregister t s with
      | .ok s' => (.done, s')
      | .error e => (.failed e, s)
  | .ref q =>
      match (k.api f).lookup q s with
      | some t => (.type (some t), s.inc t)
      | none => (.type none, s)
  | .drop t => (.done, s.dec t)

/-- What a client knows from the calls it made and what they returned. -/
structure History (T : Type) where
  /-- The references to each type that it took and did not drop. -/
  taken : T → ℕ := fun _ => 0
  /-- It removed the type and did not register it again. -/
  removed : T → Bool := fun _ => false

variable {Q : Type}

/-- Only references taken before are dropped. -/
def History.Allows (h : History T) : RegCall T Q → Prop
  | .drop t => 0 < h.taken t
  | _ => True

instance (h : History T) : (a : RegCall T Q) → Decidable (h.Allows a)
  | .drop t => inferInstanceAs (Decidable (0 < h.taken t))
  | .register _ => inferInstanceAs (Decidable True)
  | .unregister _ => inferInstanceAs (Decidable True)
  | .ref _ => inferInstanceAs (Decidable True)

/-- What it knows after one more call. -/
def History.after (h : History T) : RegCall T Q → Ret T → History T
  | .register t, .done => { h with removed := Function.update h.removed t false }
  | .unregister t, .done => { h with removed := Function.update h.removed t true }
  | .ref _, .type (some t) => { h with taken := Function.update h.taken t (h.taken t + 1) }
  | .drop t, _ => { h with taken := Function.update h.taken t (h.taken t - 1) }
  | _, _ => h

/-- The same call on what it stands for: the registered types, with no counters. The
references and removals are those the client knows of. -/
def mapCall (k : CryptoKind) (f : T → k.Struct F) (l : List T) (h : History T) :
    RegCall T k.Query → Ret T × List T
  | .register t =>
      if (k.toClass f).accepts t = false then (.failed EINVAL, l)
      else if ∃ u ∈ l, k.nameOf (f t) = k.nameOf (f u) then (.failed EBUSY, l)
      else (.done, l ++ [t])
  | .unregister t =>
      if h.taken t = 0 ∧ (t ∈ l ∨ h.removed t = true) then (.done, l.erase t) else (.failed EBUSY, l)
  | .ref q => (.type (l.find? fun u => k.asked q = k.nameOf (f u)), l)
  | .drop _ => (.done, l)

/-- A client of a registry whose memory is `R`. An action is a call and what it returned. -/
def clientSystem {R : Type} (call : R → History T → RegCall T Q → Option (Ret T × R)) (start : R) :
    System (R × History T) (RegCall T Q × Ret T) where
  init := (start, {})
  step s a :=
    if s.2.Allows a.1 then
      match call s.1 s.2 a.1 with
      | some (r, s') => if r = a.2 then some (s', s.2.after a.1 r) else none
      | none => none
    else none

/-- A client of a crypto registry on nodes. -/
def ptrSystem (k : CryptoKind) (f : T → k.Struct F) (fuel : ℕ) :
    System (PtrRegistry T × History T) (RegCall T k.Query × Ret T) :=
  clientSystem (fun s _ a => ptrCall k f fuel s a) PtrRegistry.empty

/-- A client of the registered types. -/
def mapSystem (k : CryptoKind) (f : T → k.Struct F) :
    System (List T × History T) (RegCall T k.Query × Ret T) :=
  clientSystem (fun l h a => some (mapCall k f l h a)) []

theorem clientSystem_step {R : Type} {call : R → History T → RegCall T Q → Option (Ret T × R)} {start : R}
    {s s' : R × History T} {a : RegCall T Q × Ret T} :
    (clientSystem call start).step s a = some s' ↔
      s.2.Allows a.1 ∧ call s.1 s.2 a.1 = some (a.2, s'.1) ∧ s'.2 = s.2.after a.1 a.2 := by
  obtain ⟨a, r⟩ := a
  obtain ⟨m', h'⟩ := s'
  simp only [clientSystem, Option.ite_none_right_eq_some]
  cases call s.1 s.2 a with
  | none => simp
  | some p =>
    obtain ⟨r', m⟩ := p
    simp only [Option.ite_none_right_eq_some, Option.some.injEq, Prod.mk.injEq]
    constructor
    · rintro ⟨ha, rfl, rfl, rfl⟩
      exact ⟨ha, ⟨rfl, rfl⟩, rfl⟩
    · rintro ⟨ha, ⟨rfl, rfl⟩, rfl⟩
      exact ⟨ha, rfl, rfl, rfl⟩

/-! ### Nodes and lists -/

/-- The nodes form the ring of the list; a type that is in no list but might be taken
out once more is linked to itself. -/
structure Represents (s : PtrRegistry T) (a : Registry T) : Prop where
  ring : s.links.Ring .head (a.list.map .of)
  nodup : a.list.Nodup
  refcnt : s.refcnt = a.refcnt
  selfLinked : ∀ t ∉ a.list, cfeAtomicGet (a.refcnt t) = 1 → SelfLinked s.links (.of t)

section

variable {c : CryptoClass T} {fuel : ℕ} {s : PtrRegistry T} {a a' : Registry T} {t : T}

omit [DecidableEq T] in
theorem Represents.head_nodup (h : Represents s a) : (Node.head :: a.list.map .of).Nodup := by
  refine List.nodup_cons.mpr ⟨by simp, h.nodup.map ?_⟩
  intro t u htu
  exact Node.of.inj htu

theorem represents_empty : Represents (PtrRegistry.empty : PtrRegistry T) Registry.empty := by
  refine ⟨Links.ring_nil_iff.mpr ⟨?_, ?_⟩, List.nodup_nil, rfl, ?_⟩
  · simp [PtrRegistry.empty, initListHead, setNext, setPrev]
  · simp [PtrRegistry.empty, initListHead, setNext, setPrev]
  · intro t _ h
    have hne : cfeAtomicGet ⟨0⟩ ≠ 1 := by decide
    exact absurd h hne

/-- The walk finds what is in the list. -/
theorem ptrFindAlg_eq (h : Represents s a) (hf : a.list.length < fuel) (name : CString) :
    ptrFindAlg c fuel s name = some (findAlg c a name) := by
  have hhead : Node.head ∉ a.list.map (Node.of (T := T)) := by simp
  rw [ptrFindAlg, listForEach_ring h.ring hhead (by simpa using hf), Option.map_some, List.find?_map, h.refcnt]
  simp only [Option.bind_map, findAlg, Function.comp_def, Node.type?, Option.any_some, Option.bind_fun_some]

theorem ptrRegister_error {e : Errno} (h : Represents s a) (hf : a.list.length < fuel)
    (hr : cryptoRegister c t a = .error e) : ptrRegister c fuel t s = some (.error e) := by
  unfold cryptoRegister at hr
  unfold ptrRegister
  split at hr
  · next hacc =>
    rw [if_pos hacc, Except.error.inj hr]
  · next hacc =>
    rw [if_neg hacc, ptrFindAlg_eq h hf, h.refcnt]
    split at hr
    · next u hu =>
      simp [hu, Except.error.inj hr]
    · cases hr

/-- `register` links in a node that is in no list. -/
theorem ptrRegister_ok (h : Represents s a) (hf : a.list.length < fuel)
    (hr : cryptoRegister c t a = .ok a') : ∃ s', ptrRegister c fuel t s = some (.ok s') ∧ Represents s' a' := by
  have hnew := cryptoRegister_new c hr
  obtain ⟨hacc, hfind, rfl⟩ := cryptoRegister_ok c hr
  have hnode : Node.of t ∉ Node.head :: a.list.map .of := by simpa using hnew
  obtain ⟨links, hlinks, hring, hframe⟩ := listAddTail_ring h.ring h.head_nodup hnode
  refine ⟨⟨links, Function.update s.refcnt t (cfeAtomicSet 1)⟩, ?_, ?_, ?_, ?_, ?_⟩
  · simp [ptrRegister, hacc, ptrFindAlg_eq h hf, h.refcnt, hfind, hlinks]
  · simpa using hring
  · exact List.nodup_append.mpr ⟨h.nodup, List.nodup_singleton t,
      fun x hx y hy hxy => hnew (by rw [List.mem_singleton] at hy; rw [← hy, ← hxy]; exact hx)⟩
  · rw [h.refcnt]
  · intro u hu hone
    have hut : u ≠ t := fun hut => hu (by simp [hut])
    have hu' : u ∉ a.list := fun hmem => hu (List.mem_append_left _ hmem)
    simp only [Function.update_of_ne hut] at hone
    obtain ⟨hn, hp⟩ := hframe (.of u) (by simpa [hut] using hu')
    obtain ⟨hn', hp'⟩ := h.selfLinked u hu' hone
    exact ⟨hn.trans hn', hp.trans hp'⟩

theorem ptrUnregister_error {e : Errno} (h : Represents s a) (hr : cryptoUnregister t a = .error e) :
    ptrUnregister t s = some (.error e) := by
  unfold cryptoUnregister at hr
  unfold ptrUnregister
  rw [h.refcnt]
  split at hr
  · next hne =>
    rw [if_pos hne, Except.error.inj hr]
  · cases hr

/-- `unregister` takes out a member, or unlinks once more what is linked to itself. -/
theorem ptrUnregister_ok (h : Represents s a) (hr : cryptoUnregister t a = .ok a') :
    ∃ s', ptrUnregister t s = some (.ok s') ∧ Represents s' a' := by
  obtain ⟨hone, rfl⟩ := cryptoUnregister_ok hr
  by_cases ht : t ∈ a.list
  · have hinj : Function.Injective (Node.of (T := T)) := fun x y hxy => Node.of.inj hxy
    obtain ⟨links, hlinks, hring, hself, hframe⟩ :=
      listDelInit_ring h.ring h.head_nodup (List.mem_map_of_mem (f := Node.of) ht)
    rw [← List.map_erase hinj] at hring
    refine ⟨{ s with links }, ?_, hring, h.nodup.erase t, h.refcnt, ?_⟩
    · simp [ptrUnregister, h.refcnt, hone, hlinks]
    · intro u hu hu1
      by_cases hut : u = t
      · rw [hut]
        exact hself
      · have hu' : u ∉ a.list := fun hmem => hu ((List.mem_erase_of_ne hut).mpr hmem)
        obtain ⟨hn, hp⟩ := hframe (.of u) (by simpa using hu')
        obtain ⟨hn', hp'⟩ := h.selfLinked u hu' hu1
        exact ⟨hn.trans hn', hp.trans hp'⟩
  · refine ⟨s, ?_, ?_⟩
    · have hone' : cfeAtomicGet (s.refcnt t) = 1 := by rw [h.refcnt]; exact hone
      simp [ptrUnregister, hone', listDelInit_selfLinked (h.selfLinked t ht hone)]
    · have hl : a.list.erase t = a.list := List.erase_of_not_mem ht
      exact ⟨by rw [hl]; exact h.ring, by rw [hl]; exact h.nodup, h.refcnt, by rw [hl]; exact h.selfLinked⟩

/-- The counter of a member does not matter to the links. -/
theorem Represents.update (h : Represents s a) (ht : t ∈ a.list) (v : CfeAtomic) :
    Represents { s with refcnt := Function.update s.refcnt t v }
      { a with refcnt := Function.update a.refcnt t v } := by
  refine ⟨h.ring, h.nodup, by rw [h.refcnt], ?_⟩
  intro u hu hone
  have hut : u ≠ t := fun hut => hu (hut ▸ ht)
  simp only [Function.update_of_ne hut] at hone
  exact h.selfLinked u hu hone

end

variable {k : CryptoKind} {f : T → k.Struct F} {fuel : ℕ}

/-- **One call**: on nodes that represent a list it returns, and it does what it does on
the list. -/
theorem ptrCall_refines {s : PtrRegistry T} {a : Registry T} (h : Represents s a) (hf : a.list.length < fuel)
    (call : RegCall T k.Query) (hdrop : ∀ t, call = .drop t → t ∈ a.list) :
    ∃ s', ptrCall k f fuel s call = some ((regCall k f a call).1, s') ∧
      Represents s' (regCall k f a call).2 := by
  have hapi : k.api f = cryptoApi (k.toClass f) k.asked := k.api_eq f
  cases call with
  | register t =>
    simp only [ptrCall, regCall, hapi, cryptoApi]
    cases hr : cryptoRegister (k.toClass f) t a with
    | error e => exact ⟨s, by simp [ptrRegister_error h hf hr], h⟩
    | ok a' =>
      obtain ⟨s', hs', hrep⟩ := ptrRegister_ok h hf hr
      exact ⟨s', by simp [hs'], hrep⟩
  | unregister t =>
    simp only [ptrCall, regCall, hapi, cryptoApi]
    cases hr : cryptoUnregister t a with
    | error e => exact ⟨s, by simp [ptrUnregister_error h hr], h⟩
    | ok a' =>
      obtain ⟨s', hs', hrep⟩ := ptrUnregister_ok h hr
      exact ⟨s', by simp [hs'], hrep⟩
  | ref q =>
    simp only [ptrCall, regCall, hapi, cryptoApi, ptrFindAlg_eq h hf, Option.map_some]
    cases hq : findAlg (k.toClass f) a (k.asked q) with
    | none => exact ⟨s, rfl, h⟩
    | some t =>
      have hup := h.update (mem_of_findAlg _ hq) (cfeAtomicInc (a.refcnt t))
      refine ⟨_, rfl, ?_⟩
      rw [h.refcnt] at hup ⊢
      exact hup
  | drop t =>
    have hup := h.update (hdrop t rfl) (cfeAtomicDec (a.refcnt t))
    refine ⟨_, rfl, ?_⟩
    rw [h.refcnt] at hup ⊢
    exact hup

/-! ### Lists and what they stand for -/

/-- The counter of a type counts the references taken to it, and one more while it is in
the list or after it was taken out. -/
structure Counted (k : CryptoKind) (f : T → k.Struct F) (a : Registry T) (h : History T) : Prop where
  names : a.list.Pairwise fun t u => k.nameOf (f t) ≠ k.nameOf (f u)
  listed : ∀ t ∈ a.list, (a.refcnt t).val = 1 + h.taken t ∧ h.removed t = false
  unlisted : ∀ t ∉ a.list, (a.refcnt t).val = (if h.removed t then 1 else 0) ∧ h.taken t = 0
  range : ∀ t, (a.refcnt t).val < 2 ^ 31

omit [DecidableEq T] in
theorem counted_empty : Counted k f Registry.empty {} := by
  refine ⟨List.Pairwise.nil, ?_, ?_, ?_⟩
  · intro t ht
    cases ht
  · intro t _
    simp [Registry.empty, CfeAtomic.val]
  · intro t
    simp [Registry.empty, CfeAtomic.val]

section

variable {a a' : Registry T} {h : History T} {t : T}

omit [DecidableEq T] in
/-- A reference that is still held is to a member. -/
theorem Counted.mem_of_taken (hc : Counted k f a h) (ht : 0 < h.taken t) : t ∈ a.list := by
  by_contra hmem
  have := (hc.unlisted t hmem).2
  omega

omit [DecidableEq T] in
/-- The counter is read as one when nothing refers to the type and it can be taken out. -/
theorem Counted.get_eq_one_iff (hc : Counted k f a h) :
    cfeAtomicGet (a.refcnt t) = 1 ↔ h.taken t = 0 ∧ (t ∈ a.list ∨ h.removed t = true) := by
  rw [cfeAtomicGet_eq_one_iff (hc.range t)]
  by_cases ht : t ∈ a.list
  · rw [(hc.listed t ht).1]
    simp [ht]
  · rw [(hc.unlisted t ht).1, (hc.unlisted t ht).2]
    simp [ht]

omit [DecidableEq T] in
/-- What `find_alg` finds, when the names end inside their arrays. -/
theorem findAlg_eq (hname : ∀ t, k.Terminated (f t)) (a : Registry T) (name : CString) :
    findAlg (k.toClass f) a name = a.list.find? fun u => name = k.nameOf (f u) := by
  unfold findAlg
  congr 1
  funext u
  rw [k.name_of_terminated f (hname u), Bool.eq_iff_iff]
  simp

/-- `register` takes in a type whose name is free. -/
theorem cryptoRegister_eq (hname : ∀ t, k.Terminated (f t)) (a : Registry T) (t : T) :
    cryptoRegister (k.toClass f) t a =
      if (k.toClass f).accepts t = false then .error EINVAL
      else if ∃ u ∈ a.list, k.nameOf (f t) = k.nameOf (f u) then .error EBUSY
      else .ok { a with refcnt := Function.update a.refcnt t (cfeAtomicSet 1), list := a.list ++ [t] } := by
  unfold cryptoRegister
  rw [findAlg_eq hname, k.name_of_terminated f (hname t)]
  cases hacc : (k.toClass f).accepts t with
  | false => rfl
  | true =>
    cases hfind : a.list.find? fun u => k.nameOf (f t) = k.nameOf (f u) with
    | some u =>
      have hex : ∃ u ∈ a.list, k.nameOf (f t) = k.nameOf (f u) :=
        ⟨u, List.mem_of_find?_eq_some hfind, by simpa using List.find?_some hfind⟩
      simp [hex]
    | none =>
      have hno : ¬ ∃ u ∈ a.list, k.nameOf (f t) = k.nameOf (f u) := by
        rintro ⟨u, hu, hun⟩
        have := List.find?_eq_none.mp hfind u hu
        simp [hun] at this
      simp [hno]

omit [DecidableEq T] in
theorem Counted.nodup (hc : Counted k f a h) : a.list.Nodup :=
  hc.names.imp fun hne htu => hne (by rw [htu])

omit [DecidableEq T] in
/-- Two members with one name are one type. -/
theorem Counted.name_inj (hc : Counted k f a h) {u : T} (ht : t ∈ a.list) (hu : u ∈ a.list)
    (hn : k.nameOf (f t) = k.nameOf (f u)) : t = u :=
  List.inj_on_of_nodup_map (List.pairwise_map.mpr hc.names) ht hu hn

theorem Counted.register (hc : Counted k f a h) (hfree : ∀ u ∈ a.list, k.nameOf (f t) ≠ k.nameOf (f u)) :
    Counted k f { a with refcnt := Function.update a.refcnt t (cfeAtomicSet 1), list := a.list ++ [t] }
      { h with removed := Function.update h.removed t false } := by
  have hnew : t ∉ a.list := fun hmem => hfree t hmem rfl
  constructor
  · refine List.pairwise_append.mpr ⟨hc.names, List.pairwise_singleton _ _, fun u hu v hv huv => hfree u hu ?_⟩
    rw [List.mem_singleton] at hv
    rw [← hv, huv]
  · intro u hu
    by_cases hut : u = t
    · -- the type just registered: a counter of one, and no reference to it
      rw [hut, (hc.unlisted t hnew).2]
      simp
    · simpa [hut] using hc.listed u (by simpa [hut] using hu)
  · intro u hu
    have hut : u ≠ t := fun hut => hu (by simp [hut])
    simpa [hut] using hc.unlisted u fun hmem => hu (List.mem_append_left _ hmem)
  · intro u
    by_cases hut : u = t
    · simp [hut]
    · simpa [hut] using hc.range u

theorem Counted.unregister (hc : Counted k f a h) (hone : h.taken t = 0 ∧ (t ∈ a.list ∨ h.removed t = true)) :
    Counted k f { a with list := a.list.erase t } { h with removed := Function.update h.removed t true } := by
  refine ⟨hc.names.sublist List.erase_sublist, ?_, ?_, hc.range⟩
  · intro u hu
    obtain ⟨hut, hu⟩ := hc.nodup.mem_erase_iff.mp hu
    simpa [hut] using hc.listed u hu
  · intro u hu
    by_cases hut : u = t
    · have hval := (cfeAtomicGet_eq_one_iff (hc.range t)).mp (hc.get_eq_one_iff.mpr hone)
      rw [hut]
      simp [hval, hone.1]
    · have hu' : u ∉ a.list := fun hmem => hu ((List.mem_erase_of_ne hut).mpr hmem)
      simpa [hut] using hc.unlisted u hu'

theorem Counted.take (hc : Counted k f a h) (ht : t ∈ a.list) (hrange : ∀ u, ((a.inc t).refcnt u).val < 2 ^ 31) :
    Counted k f (a.inc t) { h with taken := Function.update h.taken t (h.taken t + 1) } := by
  refine ⟨hc.names, ?_, ?_, hrange⟩
  · intro u hu
    by_cases hut : u = t
    · subst hut
      rw [Registry.inc_refcnt_self, val_cfeAtomicInc (by have := hc.range u; omega), (hc.listed u hu).1]
      simp [(hc.listed u hu).2, Nat.add_assoc]
    · rw [Registry.inc_refcnt_of_ne _ hut]
      simpa [hut] using hc.listed u hu
  · intro u hu
    have hut : u ≠ t := fun hut => hu (hut ▸ ht)
    rw [Registry.inc_refcnt_of_ne _ hut]
    simpa [hut] using hc.unlisted u hu

theorem Counted.drop (hc : Counted k f a h) (ht : 0 < h.taken t) (hrange : ∀ u, ((a.dec t).refcnt u).val < 2 ^ 31) :
    Counted k f (a.dec t) { h with taken := Function.update h.taken t (h.taken t - 1) } := by
  have hmem := hc.mem_of_taken ht
  refine ⟨hc.names, ?_, ?_, hrange⟩
  · intro u hu
    by_cases hut : u = t
    · subst hut
      have hval := (hc.listed u hu).1
      rw [Registry.dec_refcnt_self, val_cfeAtomicDec (by omega), hval]
      simp only [Function.update_self]
      exact ⟨by omega, (hc.listed u hu).2⟩
    · rw [Registry.dec_refcnt_of_ne _ hut]
      simpa [hut] using hc.listed u hu
  · intro u hu
    have hut : u ≠ t := fun hut => hu (hut ▸ hmem)
    rw [Registry.dec_refcnt_of_ne _ hut]
    simpa [hut] using hc.unlisted u hu

/-- **One call on the list** returns what it returns on the registered types, and the
counters go on counting. -/
theorem regCall_refines (hname : ∀ t, k.Terminated (f t)) (hc : Counted k f a h)
    {call : RegCall T k.Query} (hallow : h.Allows call)
    (hrange : ∀ t, ((regCall k f a call).2.refcnt t).val < 2 ^ 31) :
    (regCall k f a call).1 = (mapCall k f a.list h call).1 ∧
    (regCall k f a call).2.list = (mapCall k f a.list h call).2 ∧
    Counted k f (regCall k f a call).2 (h.after call (regCall k f a call).1) := by
  have hapi : k.api f = cryptoApi (k.toClass f) k.asked := k.api_eq f
  cases call with
  | register t =>
    by_cases hacc : (k.toClass f).accepts t = false
    · have hr : regCall k f a (.register t) = (.failed EINVAL, a) := by
        simp [regCall, hapi, cryptoApi, cryptoRegister_eq hname, hacc]
      rw [hr]
      exact ⟨by simp [mapCall, hacc], by simp [mapCall, hacc], hc⟩
    by_cases hex : ∃ u ∈ a.list, k.nameOf (f t) = k.nameOf (f u)
    · have hr : regCall k f a (.register t) = (.failed EBUSY, a) := by
        simp only [regCall, hapi, cryptoApi, cryptoRegister_eq hname, if_neg hacc, if_pos hex]
      have hm : mapCall k f a.list h (.register t) = (.failed EBUSY, a.list) := by
        simp only [mapCall, if_neg hacc, if_pos hex]
      rw [hr, hm]
      exact ⟨rfl, rfl, hc⟩
    · have hr : regCall k f a (.register t) = (.done,
          { a with refcnt := Function.update a.refcnt t (cfeAtomicSet 1), list := a.list ++ [t] }) := by
        simp only [regCall, hapi, cryptoApi, cryptoRegister_eq hname, if_neg hacc, if_neg hex]
      have hm : mapCall k f a.list h (.register t) = (.done, a.list ++ [t]) := by
        simp only [mapCall, if_neg hacc, if_neg hex]
      rw [hr, hm]
      exact ⟨rfl, rfl, hc.register fun u hu hut => hex ⟨u, hu, hut⟩⟩
  | unregister t =>
    by_cases hone : h.taken t = 0 ∧ (t ∈ a.list ∨ h.removed t = true)
    · have hr : regCall k f a (.unregister t) = (.done, { a with list := a.list.erase t }) := by
        simp only [regCall, hapi, cryptoApi, cryptoUnregister, if_neg (not_not.mpr (hc.get_eq_one_iff.mpr hone))]
      have hm : mapCall k f a.list h (.unregister t) = (.done, a.list.erase t) := by
        simp only [mapCall, if_pos hone]
      rw [hr, hm]
      exact ⟨rfl, rfl, hc.unregister hone⟩
    · have hr : regCall k f a (.unregister t) = (.failed EBUSY, a) := by
        simp only [regCall, hapi, cryptoApi, cryptoUnregister, if_pos (fun h1 => hone (hc.get_eq_one_iff.mp h1))]
      have hm : mapCall k f a.list h (.unregister t) = (.failed EBUSY, a.list) := by
        simp only [mapCall, if_neg hone]
      rw [hr, hm]
      exact ⟨rfl, rfl, hc⟩
  | ref q =>
    have hlook : (k.api f).lookup q a = a.list.find? fun u => k.asked q = k.nameOf (f u) := by
      rw [hapi]
      exact findAlg_eq hname a (k.asked q)
    cases hfind : a.list.find? fun u => k.asked q = k.nameOf (f u) with
    | none =>
      have hr : regCall k f a (.ref q) = (.type none, a) := by
        simp only [regCall, hlook, hfind]
      rw [hr]
      exact ⟨by simp only [mapCall, hfind], rfl, hc⟩
    | some t =>
      have hr : regCall k f a (.ref q) = (.type (some t), a.inc t) := by
        simp only [regCall, hlook, hfind]
      rw [hr] at hrange ⊢
      exact ⟨by simp only [mapCall, hfind], rfl, hc.take (List.mem_of_find?_eq_some hfind) hrange⟩
  | drop t => exact ⟨rfl, rfl, hc.drop hallow hrange⟩

end

/-! ### Every sequence of calls -/

/-- No call takes a counter out of the range that `cfe_atomic_get` can return. -/
def PtrInInt {A : Type} (_ : PtrRegistry T × History T) (_ : A) (s' : PtrRegistry T × History T) : Prop :=
  ∀ t, (s'.1.refcnt t).val < 2 ^ 31

instance {A : Type} [Fintype T] (s : PtrRegistry T × History T) (a : A) (s' : PtrRegistry T × History T) :
    Decidable (PtrInInt s a s') :=
  inferInstanceAs (Decidable (∀ t, (s'.1.refcnt t).val < 2 ^ 31))

theorem mapCall_length_le (l : List T) (h : History T) (call : RegCall T k.Query) :
    (mapCall k f l h call).2.length ≤ l.length + 1 := by
  cases call with
  | register t =>
    simp only [mapCall]
    split_ifs <;> simp
  | unregister t =>
    have := List.length_erase_le (a := t) (l := l)
    simp only [mapCall]
    split_ifs
    · exact this.trans (Nat.le_succ _)
    · simp
  | ref q => simp [mapCall]
  | drop t => simp [mapCall]

/-- A run on nodes, seen on a list and on the registered types. -/
theorem ptrSystem_run (hname : ∀ t, k.Terminated (f t)) {as : List (RegCall T k.Query × Ret T)}
    {s : PtrRegistry T × History T}
    (hr : (ptrSystem k f fuel).Runs PtrInInt (ptrSystem k f fuel).init as s) (hfuel : as.length < fuel) :
    ∃ a : Registry T, (mapSystem k f).Runs System.Free (mapSystem k f).init as (a.list, s.2) ∧
      Represents s.1 a ∧ Counted k f a s.2 ∧ a.list.length ≤ as.length := by
  induction hr with
  | refl => exact ⟨Registry.empty, .refl, represents_empty, counted_empty, le_rfl⟩
  | @step as s s' call hrun hst hC ih =>
    rw [List.length_append, List.length_singleton] at hfuel
    obtain ⟨a, hmap, hrep, hc, hlen⟩ := ih (by omega)
    obtain ⟨hallow, hcall, hafter⟩ := clientSystem_step.mp hst
    have hdrop : ∀ t, call.1 = .drop t → t ∈ a.list := by
      intro t ht
      rw [ht] at hallow
      exact hc.mem_of_taken hallow
    have hlt : a.list.length < fuel := by omega
    obtain ⟨s₁, hs₁, hrep'⟩ := ptrCall_refines (k := k) (f := f) hrep hlt call.1 hdrop
    rw [hs₁, Option.some.injEq, Prod.mk.injEq] at hcall
    obtain ⟨hret, rfl⟩ := hcall
    have hrange : ∀ t, ((regCall k f a call.1).2.refcnt t).val < 2 ^ 31 := by
      intro t
      rw [← hrep'.refcnt]
      exact hC t
    obtain ⟨hret', hlist, hc'⟩ := regCall_refines hname hc hallow hrange
    refine ⟨(regCall k f a call.1).2, .step hmap (clientSystem_step.mpr ⟨hallow, ?_, hafter⟩) trivial, hrep', ?_, ?_⟩
    · rw [hlist, ← hret, hret']
    · rw [hafter, ← hret]
      exact hc'
    · rw [hlist, List.length_append, List.length_singleton]
      exact (mapCall_length_le _ _ _).trans (Nat.succ_le_succ hlen)

/-- **A crypto registry on nodes is a map from names to types.** After every sequence of
calls, with any types and any repetitions, there is a list `l` of types that the same
calls, returning the same, lead to when made on the registered types alone, each new
one put last. Following `next` from the head visits exactly `l` and comes back to the
head, and following `prev` visits its reverse; no type occurs in `l` twice and no two
have the same name; a type that was removed and not registered again is linked to
itself; `find_alg` ends and returns the type of that name or `NULL`; and whatever is
called next returns. -/
theorem pointer_registry_refines (hname : ∀ t, k.Terminated (f t)) {as : List (RegCall T k.Query × Ret T)}
    {s : PtrRegistry T} {h : History T}
    (hr : (ptrSystem k f fuel).Runs PtrInInt (ptrSystem k f fuel).init as (s, h)) (hfuel : as.length < fuel) :
    ∃ l : List T, (mapSystem k f).Runs System.Free (mapSystem k f).init as (l, h) ∧
      Links.Visits s.links.next .head (l.map .of) ∧ Links.Visits s.links.prev .head (l.map .of).reverse ∧
      l.Nodup ∧ l.Pairwise (fun t u => k.nameOf (f t) ≠ k.nameOf (f u)) ∧
      (∀ t, h.removed t = true → SelfLinked s.links (.of t)) ∧
      (∀ n bound, l.length < bound → ∃ r, ptrFindAlg (k.toClass f) bound s n = some r ∧
        ∀ t, r = some t ↔ t ∈ l ∧ k.nameOf (f t) = n) ∧
      ∀ call, h.Allows call → ∃ r s', ptrCall k f fuel s call = some (r, s') := by
  obtain ⟨a, hmap, hrep, hc, hlen⟩ := ptrSystem_run hname hr hfuel
  refine ⟨a.list, hmap, hrep.ring.visits_next, hrep.ring.visits_prev, hc.nodup, hc.names, ?_,
    ?_, ?_⟩
  · intro t ht
    have hmem : t ∉ a.list := fun hmem => by
      rw [(hc.listed t hmem).2] at ht
      cases ht
    refine hrep.selfLinked t hmem (hc.get_eq_one_iff.mpr ⟨(hc.unlisted t hmem).2, .inr ht⟩)
  · intro n bound hbound
    refine ⟨_, ptrFindAlg_eq hrep hbound n, fun t => ?_⟩
    rw [findAlg_eq hname]
    constructor
    · intro ht
      have := List.find?_some ht
      exact ⟨List.mem_of_find?_eq_some ht, by simpa [eq_comm] using this⟩
    · rintro ⟨ht, rfl⟩
      -- some type of that name is found, and there is no other
      have hsome : (a.list.find? fun u => k.nameOf (f t) = k.nameOf (f u)).isSome = true :=
        List.find?_isSome.mpr ⟨t, ht, by simp⟩
      obtain ⟨u, hu⟩ := Option.isSome_iff_exists.mp hsome
      rw [hu, hc.name_inj ht (List.mem_of_find?_eq_some hu) (by simpa using List.find?_some hu)]
  · intro call hallow
    obtain ⟨s', hs', -⟩ := ptrCall_refines (k := k) (f := f) hrep (lt_of_le_of_lt hlen hfuel) call fun t ht => by
      rw [ht] at hallow
      exact hc.mem_of_taken hallow
    exact ⟨_, s', hs'⟩

/-- Two random number generators, one of them with the name that is looked up. -/
def twoRands : Bool → CfeRandType Unit
  | false => ⟨some randName, some ()⟩
  | true => ⟨some (randName.drop 1), some ()⟩

/-- A type is registered twice, removed twice and registered again behind another one. -/
theorem pointer_registry_refines_two_rands :
    ∃ (s : PtrRegistry Bool) (h : History Bool) (l : List Bool),
      (ptrSystem .rand twoRands 10).Runs PtrInInt (ptrSystem .rand twoRands 10).init
        [(.register false, .done), (.register false, .failed EBUSY), (.register true, .done),
          (.ref (), .type (some false)), (.unregister false, .failed EBUSY), (.drop false, .done),
          (.unregister false, .done), (.unregister false, .done), (.register false, .done)] (s, h) ∧
      l.Nodup ∧ Links.Visits s.links.next .head (l.map .of) := by
  have hex : ((ptrSystem .rand twoRands 10).exec PtrInInt (ptrSystem .rand twoRands 10).init
        [(.register false, .done), (.register false, .failed EBUSY), (.register true, .done),
          (.ref (), .type (some false)), (.unregister false, .failed EBUSY), (.drop false, .done),
          (.unregister false, .done), (.unregister false, .done), (.register false, .done)]).isSome := by decide
  have hrun := System.runs_of_exec (Option.some_get hex).symm
  obtain ⟨l, -, hnext, -, hnd, -⟩ := pointer_registry_refines (k := .rand) (f := twoRands) (fun _ => trivial) hrun (by decide)
  exact ⟨_, _, l, hrun, hnd, hnext⟩

end LibCfe
