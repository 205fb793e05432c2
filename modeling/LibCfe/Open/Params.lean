import LibCfe.Open.Create

/-!
# The parameters after a call

`cfe_create` strips the prefix `"cfe:"` from the key identifier by moving
`params->key_ident` forward, in the caller's own structure. The moved pointer is
used by nothing that follows, and it is not moved back, whatever becomes of the
call.

So a caller that uses one structure for several calls names another key with each,
or none: `cfeCreates_params` says when it does not.
-/

namespace LibCfe

variable {H W C F : Type} [DecidableEq H] [DecidableEq W] [DecidableEq C]

/-- The key that the parameters designate, when their identifier is accepted. -/
def CfeOpenParams.designated (p : CfeOpenParams) : Option CString :=
  match p.keyIdent with
  | some id => if strncmp id cfePrefix 4 = 0 then some (id.drop 4) else none
  | none => none

/-- The length of the identifier. -/
def CfeOpenParams.keyLength (p : CfeOpenParams) : ℕ :=
  match p.keyIdent with
  | some id => id.chars.length
  | none => 0

/-- A call of `cfe_create` with the same parameters as others. -/
structure Call where
  /-- What it meets. -/
  env : Env
  /-- `fd`. -/
  fd : ℤ
  /-- `flags`. -/
  flags : BitVec 32
  /-- `mode`. -/
  mode : BitVec 32

/-- Calls one after the other: the key that the parameters designate at each, the
parameters after all, and the state. -/
def cfeCreates (types : Types H W C F) :
    List Call → CfeOpenParams → World H W C → Option (List (Option CString) × CfeOpenParams × World H W C)
  | [], p, s => some ([], p, s)
  | c :: calls, p, s =>
    match cfeCreate types c.env c.fd c.flags c.mode (some p) s with
    | some (_, some p', s') => (cfeCreates types calls p' s').map fun r => (p.designated :: r.1, r.2)
    | _ => none

omit [DecidableEq H] [DecidableEq W] [DecidableEq C] in
/-- An identifier that is accepted is longer than the key it designates. -/
theorem keyLength_of_designated {p : CfeOpenParams} {id : CString} (h : p.designated = some id) :
    id.chars.length + 4 = p.keyLength := by
  unfold CfeOpenParams.designated at h
  unfold CfeOpenParams.keyLength
  cases hid : p.keyIdent with
  | none =>
    rw [hid] at h
    cases h
  | some ident =>
    simp only [hid, Option.ite_none_right_eq_some] at h
    obtain ⟨hstart, h⟩ := h
    obtain rfl := Option.some.inj h
    rw [strncmp_eq_zero_iff] at hstart
    have hlen := congrArg List.length hstart
    have h4 : (cfePrefix.chars.take 4).length = 4 := by decide
    rw [h4, List.length_take] at hlen
    simp only [CString.drop, List.length_drop]
    omega

/-- The parameters as an accepted call leaves them. -/
def CfeOpenParams.consumed (p : CfeOpenParams) : CfeOpenParams :=
  match p.designated with
  | some id => { p with keyIdent := some id }
  | none => p

omit [DecidableEq H] [DecidableEq W] [DecidableEq C] in
theorem designated_of_validArgs {fd : ℤ} {p q : CfeOpenParams} {id : CString}
    (h : ValidArgs fd (some p) q id) : q = p ∧ p.designated = some (id.drop 4) := by
  obtain rfl := Option.some.inj h.params_eq
  refine ⟨rfl, ?_⟩
  rw [CfeOpenParams.designated, h.keyIdent_eq]
  exact if_pos h.prefixed

/-- **One call**: unless the descriptor is negative, an identifier with the prefix is
moved past it, and nothing else of the parameters changes. -/
theorem cfeCreate_consumes {types : Types H W C F} {env : Env} {fd : ℤ} {flags mode : BitVec 32}
    {p : CfeOpenParams} {s s' : World H W C} {file : Option (CfeFile H W C)} {params' : Option CfeOpenParams}
    (h : cfeCreate types env fd flags mode (some p) s = some (file, params', s')) :
    params' = some (if fd < 0 then p else p.consumed) := by
  have hvalid : ∀ {q : CfeOpenParams} {id : CString}, ValidArgs fd (some p) q id →
      some (q.strip id) = some (if fd < 0 then p else p.consumed) := by
    intro q id hargs
    obtain ⟨rfl, hd⟩ := designated_of_validArgs hargs
    rw [if_neg (not_lt.mpr hargs.fd_nonneg), CfeOpenParams.consumed, hd]
    rfl
  have hres := cfeCreate_result types env fd flags mode (some p) s
  rw [h] at hres
  generalize hr : some (file, params', s') = r at hres
  cases hres with
  | rejected hargs =>
    cases hr
    by_cases hfd : fd < 0
    · rw [if_pos hfd]
    · have hd : p.designated = none := by
        unfold CfeOpenParams.designated
        cases hid : p.keyIdent with
        | none => rfl
        | some id =>
          simp only [ite_eq_right_iff, reduceCtorEq, imp_false]
          exact fun hstart => hargs p id ⟨not_lt.mp hfd, rfl, hid, hstart⟩
      rw [if_neg hfd, CfeOpenParams.consumed, hd]
  | noStat q id hargs e hstat =>
    cases hr
    exact hvalid hargs
  | notEmpty q id hargs hstat hfile =>
    cases hr
    exact hvalid hargs
  | created q id hargs hstat hfile =>
    obtain ⟨r', -, hr'⟩ := Option.map_eq_some_iff.mp hr.symm
    cases hr'
    exact hvalid hargs

omit [DecidableEq H] [DecidableEq W] [DecidableEq C] in
theorem keyLength_consumed_le (p : CfeOpenParams) : p.consumed.keyLength ≤ p.keyLength := by
  unfold CfeOpenParams.consumed
  cases hd : p.designated with
  | none => exact le_rfl
  | some id =>
    have := keyLength_of_designated hd
    show id.chars.length ≤ p.keyLength
    omega

/-- The calls that are left. -/
theorem cfeCreates_cons {types : Types H W C F} {c : Call} {calls : List Call} {p p' : CfeOpenParams}
    {s s' : World H W C} {ds : List (Option CString)}
    (h : cfeCreates types (c :: calls) p s = some (ds, p', s')) :
    ∃ ds' s₁, ds = p.designated :: ds' ∧
      cfeCreates types calls (if c.fd < 0 then p else p.consumed) s₁ = some (ds', p', s') := by
  simp only [cfeCreates] at h
  split at h
  · next file p₁ s₁ hcreate =>
    have hp₁ := cfeCreate_consumes hcreate
    obtain ⟨⟨ds', p₂, s₂⟩, hrest, heq⟩ := Option.map_eq_some_iff.mp h
    cases heq
    rw [Option.some.inj hp₁] at hrest
    exact ⟨ds', s₁, rfl, hrest⟩
  · cases h

/-- The identifier only gets shorter, and so do the keys it designates. -/
theorem cfeCreates_length {types : Types H W C F} : ∀ {calls : List Call} {p p' : CfeOpenParams}
    {s s' : World H W C} {ds : List (Option CString)}, cfeCreates types calls p s = some (ds, p', s') →
    p'.keyLength ≤ p.keyLength ∧ ∀ id, some id ∈ ds → id.chars.length + 4 ≤ p.keyLength
  | [], p, p', s, s', ds, h => by
    cases h
    exact ⟨le_rfl, fun id hid => by cases hid⟩
  | c :: calls, p, p', s, s', ds, h => by
    obtain ⟨ds', s₁, rfl, hrest⟩ := cfeCreates_cons h
    obtain ⟨hlen, hds⟩ := cfeCreates_length hrest
    have hle : (if c.fd < 0 then p else p.consumed).keyLength ≤ p.keyLength := by
      split
      · exact le_rfl
      · exact keyLength_consumed_le p
    refine ⟨hlen.trans hle, ?_⟩
    intro id hid
    rcases List.mem_cons.mp hid with hid | hid
    · exact (keyLength_of_designated hid.symm).le
    · exact (hds id hid).trans hle

/-- **When the parameters survive.** For parameters whose identifier has the prefix, and
any calls of `cfe_create` with them that return, whatever they return: after all the
calls the parameters are what they were exactly when every call was given a negative
descriptor; and the parameters designate the same key at every call exactly when
every call but the last was. -/
theorem cfeCreates_params {types : Types H W C F} {calls : List Call} {p p' : CfeOpenParams}
    {s s' : World H W C} {ds : List (Option CString)} (hp : p.designated.isSome = true)
    (h : cfeCreates types calls p s = some (ds, p', s')) :
    (p' = p ↔ ∀ c ∈ calls, c.fd < 0) ∧
    ((∀ d ∈ ds, d = p.designated) ↔ ∀ c ∈ calls.dropLast, c.fd < 0) := by
  induction calls generalizing s ds with
  | nil =>
    cases h
    simp
  | cons c calls ih =>
    obtain ⟨ds', s₁, rfl, hrest⟩ := cfeCreates_cons h
    by_cases hfd : c.fd < 0
    · rw [if_pos hfd] at hrest
      obtain ⟨hsame, hkeys⟩ := ih hrest
      constructor
      · rw [hsame, List.forall_mem_cons]
        exact ⟨fun h => ⟨hfd, h⟩, fun h => h.2⟩
      · rw [List.forall_mem_cons]
        cases calls with
        | nil =>
          cases hrest
          simp
        | cons c₂ calls =>
          rw [List.dropLast_cons_of_ne_nil (List.cons_ne_nil _ _), List.forall_mem_cons, hkeys]
          exact ⟨fun h => ⟨hfd, h.2⟩, fun h => ⟨rfl, h.2⟩⟩
    · -- the identifier is shorter from now on
      rw [if_neg hfd] at hrest
      obtain ⟨id, hid⟩ := Option.isSome_iff_exists.mp hp
      have hlen := keyLength_of_designated hid
      have hconsumed : p.consumed.keyLength = id.chars.length := by
        rw [CfeOpenParams.consumed, hid]
        rfl
      obtain ⟨hle, hds⟩ := cfeCreates_length hrest
      refine ⟨iff_of_false ?_ fun h => hfd (h c List.mem_cons_self), ?_⟩
      · rintro rfl
        omega
      · cases calls with
        | nil =>
          cases hrest
          simp
        | cons c₂ calls =>
          rw [List.dropLast_cons_of_ne_nil (List.cons_ne_nil _ _)]
          refine iff_of_false ?_ fun h => hfd (h c List.mem_cons_self)
          intro h
          -- the next call designates a shorter key, or none
          obtain ⟨ds'', s₂, rfl, -⟩ := cfeCreates_cons hrest
          have hnext : p.consumed.designated = p.designated :=
            h _ (List.mem_cons_of_mem _ List.mem_cons_self)
          rw [hid] at hnext
          have := hds id (by rw [← hnext]; exact List.mem_cons_self)
          omega

/-- Two files with the parameters of the test: they do not designate one key. -/
theorem cfeCreates_params_two_files :
    ∃ ds p' s', cfeCreates checkCreateTypes [⟨checkCreateEnv, 3, 0, 0⟩, ⟨checkCreateEnv, 4, 0, 0⟩] checkCreateParams
      checkCreateWorld = some (ds, p', s') ∧ p' ≠ checkCreateParams ∧
      ¬ ∀ d ∈ ds, d = checkCreateParams.designated := by
  have hret : ∃ ds p' s', cfeCreates checkCreateTypes [⟨checkCreateEnv, 3, 0, 0⟩, ⟨checkCreateEnv, 4, 0, 0⟩]
      checkCreateParams checkCreateWorld = some (ds, p', s') := ⟨_, _, _, rfl⟩
  obtain ⟨ds, p', s', h⟩ := hret
  obtain ⟨hsame, hkeys⟩ := cfeCreates_params (by decide) h
  refine ⟨ds, p', s', h, ?_, ?_⟩
  · rw [ne_eq, hsame]
    exact fun hall => absurd (hall _ List.mem_cons_self) (by decide)
  · rw [hkeys]
    exact fun hall => absurd (hall _ List.mem_cons_self) (by decide)

/-- The test's own call: the identifier it passes comes back without its prefix. -/
theorem cfeCreate_moves_key_ident :
    (∃ file s', cfeCreate checkCreateTypes checkCreateEnv 3 0 0 (some checkCreateParams) checkCreateWorld =
      some (file, some { checkCreateParams with keyIdent := some (nonexisting.drop 4) }, s')) ∧
    { checkCreateParams with keyIdent := some (nonexisting.drop 4) } ≠ checkCreateParams :=
  ⟨⟨_, _, rfl⟩, by decide⟩

end LibCfe
