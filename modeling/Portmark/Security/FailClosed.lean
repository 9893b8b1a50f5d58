/-
Malformed limits in a merge. The checker refuses a call when a limit it reads is malformed: a bound
that is no finite number, a length that is no natural number, a list with an entry that is no
string. The merge reads limits by other tests, and where it combines two of them it can drop the
malformed one or the malformed part. `malformed_stays_closed_iff` says that this is the only way in
which a call that a malformed limit refuses can pass the merged set.
-/
import Portmark.Security.Combine

namespace Portmark.Security

open Lib Assoc Option

/-! ## Malformed limits -/

/-- The types that `_matches_type` knows. -/
def typeNames : List String := ["string", "integer", "number", "boolean", "object", "array", "null"]

namespace Limit

def wellFormed : Limit → Value → Bool
  | .flat key, v => wellFormedFlat key v
  | .spec _ key, v => wellFormedLimit key v

/-- The checker reads the limit: a specification is read for an argument that is there. -/
def Reached (arguments : Dict) : Limit → Prop
  | .flat _ => True
  | .spec name _ => name ∈ Assoc.keys arguments

/-- Some call can pass the limit: it is well formed, and a `type` names a type that there is. -/
def Passable (v : Value) : Limit → Prop
  | .flat key => wellFormedFlat key v = true
  | .spec _ key => wellFormedLimit key v = true ∧
      (key = "type" → v = .null ∨ ∃ t ∈ typeNames, .str t ∈ asTypeList v)

/-- The merge keeps a limit of the two that some call can pass. -/
def Absorbed (a b : Value) (p : Limit) : Prop := ∃ v, p.Kept a b v ∧ p.Passable v

/-- A bound, a length, a type or a list of names of a URL: what the checker reads in one way and the merge in another.
-/
def Guarded : Limit → Prop
  | .flat key => (after? "max_" key).isSome = true
  | .spec name key => name ≠ "" ∧ key ∈ ["type", "minimum", "maximum", "min_length", "max_length", "allowed_schemes",
      "allowed_hosts", "allowed_domains"]

end Limit

/-! ## The limits a checked call has reached -/

variable {v : Value} {key name : String}

section Checked

variable {env : Env} {arguments c : Dict}

theorem finiteLimit_of_ok (h : finiteNumber v = .ok true) : finiteLimit v = true := by
  rw [finiteLimit, h]

theorem checkFlat_wellFormed (hk : key ∉ reservedKeys) (h : checkFlat env arguments (key, v) = .ok ()) :
    wellFormedFlat key v = true := by
  have hres : reservedKeys.contains key = false := by simpa using hk
  simp only [checkFlat, hres, Bool.false_eq_true, if_false] at h
  unfold wellFormedFlat
  cases hmax : after? "max_" key with
  | some =>
    simp only [hmax, bind_ok_iff, refuseIf_ok_iff, Bool.or_eq_false_iff, Bool.not_eq_false'] at h
    obtain ⟨_, -, _, -, _, hv, rfl, -⟩ := h
    simpa using finiteLimit_of_ok hv
  | none =>
    cases hallowed : after? "allowed_" key with
    | none => simp
    | some =>
      simp only [hmax, hallowed] at h
      cases hv : v.items? with
      | none => simp [hv] at h
      | some => simp

variable {value : Value}

theorem checkBound_wellFormed {beyond : Value → Value → Bool} {malformed outside : String}
    (h : checkBound value beyond malformed outside (some v) = .ok ()) : finiteLimit v = true :=
  finiteLimit_of_ok (checkBound_ok_iff.1 h).1

theorem checkLength_wellFormed {beyond : Int → Int → Bool} {malformed outside : String}
    (h : checkLength value beyond malformed outside (some v) = .ok ()) : lengthLimit v = true := by
  obtain ⟨n, rfl, hn, -⟩ := checkLength_ok_iff.1 h
  simpa [lengthLimit] using hn

variable {spec : Dict}

theorem SomeItem.wellFormed {P : String → Prop} (h : SomeItem P spec key) (hv : get? spec key = some v)
    (hne : v ≠ .null) : (stringItems? v).isSome = true := by
  obtain ⟨items, hitems, -⟩ := h v (given?_eq_some.2 ⟨hv, hne⟩)
  rw [hitems]
  rfl

/-- The URL checks run as soon as one of their keys is there. -/
theorem checkUrlConstraints_wellFormed (h : checkUrlConstraints env name value spec = .ok ()) (hkey : key ∈ urlKeys)
    (hv : get? spec key = some v) (hne : v ≠ .null) :
    (key = "scheme" → nonEmptyStr v = true) ∧ (key ≠ "scheme" → (stringItems? v).isSome = true) := by
  have hany : urlKeys.any (Assoc.contains spec) = true :=
    List.any_eq_true.2 ⟨key, hkey, contains_iff.2 (mem_keys_iff.2 ⟨v, hv⟩)⟩
  rw [checkUrlConstraints, if_pos hany] at h
  obtain ⟨⟨scheme, host⟩, -, h⟩ := bind_ok_iff.1 h
  simp only [seq_ok_iff, checkAllowedSchemes_ok_iff, checkAllowedHosts_ok_iff, checkAllowedDomains_ok_iff] at h
  obtain ⟨hscheme, hschemes, hhosts, hdomains⟩ := h
  constructor
  · rintro rfl
    rw [checkScheme, given?_eq_some.2 ⟨hv, hne⟩] at hscheme
    cases v with
    | str s =>
      by_cases hs : s = ""
      · simp [hs] at hscheme
      · simpa [nonEmptyStr] using hs
    | _ => simp at hscheme
  · intro hscheme'
    simp only [urlKeys, List.mem_cons, List.not_mem_nil, or_false, hscheme', false_or] at hkey
    rcases hkey with rfl | rfl | rfl
    · exact hschemes.wellFormed hv hne
    · exact hhosts.wellFormed hv hne
    · exact hdomains.wellFormed hv hne

theorem checkArgumentSchema_wellFormed (h : checkArgumentSchema env name value spec = .ok ())
    (hv : get? spec key = some v) : wellFormedLimit key v = true := by
  simp only [checkArgumentSchema, seq_ok_iff] at h
  obtain ⟨htype, -, henum, hmin, hmax, hminl, hmaxl, -, hurl⟩ := h
  unfold wellFormedLimit
  split
  · rfl
  · rename_i hne
    obtain ⟨types, htypes, -⟩ := matchesType_true.1 (checkType_ok_iff.1 htype v (given?_eq_some.2 ⟨hv, hne⟩))
    rw [htypes]
    rfl
  · rfl
  · rename_i xs
    obtain ⟨x, xs', hx, -⟩ := checkEnum_ok_iff.1 henum _ (given?_eq_some.2 ⟨hv, by simp⟩)
    cases hx
    rfl
  · rename_i hnull hlist
    obtain ⟨x, xs', rfl, -⟩ := checkEnum_ok_iff.1 henum _ (given?_eq_some.2 ⟨hv, hnull⟩)
    exact absurd rfl (hlist _)
  · rw [checkMinimum, hv] at hmin
    exact checkBound_wellFormed hmin
  · rw [checkMaximum, hv] at hmax
    exact checkBound_wellFormed hmax
  · rw [checkMinLength, hv] at hminl
    exact checkLength_wellFormed hminl
  · rw [checkMaxLength, hv] at hmaxl
    exact checkLength_wellFormed hmaxl
  · rfl
  · rename_i hne
    exact (checkUrlConstraints_wellFormed hurl (by decide) hv hne).1 rfl
  · rfl
  · rename_i hne
    exact (checkUrlConstraints_wellFormed hurl (by decide) hv hne).2 (by decide)
  · rfl
  · rename_i hne
    exact (checkUrlConstraints_wellFormed hurl (by decide) hv hne).2 (by decide)
  · rfl
  · rename_i hne
    exact (checkUrlConstraints_wellFormed hurl (by decide) hv hne).2 (by decide)
  · rfl

theorem typeMatches_known {t : String} (h : typeMatches value t = true) : t ∈ typeNames := by
  unfold typeMatches at h
  split at h <;> simp_all [typeNames]

theorem checkArgumentSchema_type (h : checkArgumentSchema env name value spec = .ok ())
    (hv : get? spec "type" = some v) : v = .null ∨ ∃ t ∈ typeNames, .str t ∈ asTypeList v := by
  simp only [checkArgumentSchema, seq_ok_iff] at h
  refine or_iff_not_imp_left.2 fun hne => ?_
  obtain ⟨types, htypes, t, ht, hmatch⟩ := matchesType_true.1 (checkType_ok_iff.1 h.1 v (given?_eq_some.2 ⟨hv, hne⟩))
  obtain ⟨x, hx, hxt⟩ := ((mapM_some_mem htypes).1 t).1 ht
  rw [Value.str?_eq_some] at hxt
  exact ⟨t, typeMatches_known hmatch, hxt ▸ hx⟩

theorem Limit.Passable.wellFormed {p : Limit} (h : p.Passable v) : p.wellFormed v = true := by
  cases p with
  | flat => exact h
  | spec => exact h.1

/-- An accepted call has passed every limit it reached. -/
theorem reached_passable {p : Limit} (h : checkConstraints env arguments c = .ok ()) (hp : p.Reached arguments)
    (hv : p.of c = some v) : p.Passable v := by
  obtain ⟨-, -, -, -, -, hschema, -, hflat⟩ := checkConstraints_ok_iff.1 h
  cases p with
  | flat key =>
    simp only [Limit.of, ite_none_left_eq_some] at hv
    exact checkFlat_wellFormed hv.1 (hflat key v hv.2)
  | spec name =>
    obtain ⟨spec, hspec, hget⟩ := bind_eq_some_iff.1 hv
    obtain ⟨schema, hs, hname⟩ := specOf_eq_some.1 hspec
    obtain ⟨value, hvalue⟩ := mem_keys_iff.1 hp
    rw [hs, checkSchema_ok_iff] at hschema
    simp only [reduceCtorEq, Option.some.injEq, Value.dict.injEq, exists_eq_left', false_or] at hschema
    have hcheck := (checkSchemaEntry_ok_iff.1 (hschema name _ hname)).2.2 value hvalue
    refine ⟨checkArgumentSchema_wellFormed hcheck hget, ?_⟩
    rintro rfl
    exact checkArgumentSchema_type hcheck hget

end Checked

/-! ## What a merge absorbs -/

/-- The call reaches a malformed limit of the set. -/
def Malformed (c arguments : Dict) : Prop :=
  ∃ p v, Limit.Reached arguments p ∧ p.of c = some v ∧ p.wellFormed v = false

/-- The call reaches a malformed limit of one side that the merge does not absorb. -/
def Stays (l r arguments : Dict) : Prop :=
  ∃ p v, Limit.Reached arguments p ∧ p.wellFormed v = false ∧
    (p.of l = some v ∧ (∀ b, p.of r = some b → ¬ p.Absorbed v b) ∨
      p.of r = some v ∧ ∀ a, p.of l = some a → ¬ p.Absorbed a v)

section Closed

variable {env : Env} {order : SetOrder} {l r m c arguments : Dict}

theorem Malformed.refused (h : Malformed c arguments) : checkConstraints env arguments c ≠ .ok () := by
  intro hc
  obtain ⟨p, v, hp, hv, hw⟩ := h
  rw [(reached_passable hc hp hv).wellFormed] at hw
  cases hw

/-- A limit that is not absorbed refuses the call in the merged set: it stands there as it is, or what
stands there in its place can be passed by no call. -/
theorem Stays.refused (h : Stays l r arguments) (hl : Regular l) (hr : Regular r)
    (hm : constraintIntersection order l r = .ok m) : checkConstraints env arguments m ≠ .ok () := by
  intro hc
  obtain ⟨-, -, -, -, -, -, hnames, -⟩ := checkConstraints_ok_iff.1 hc
  obtain ⟨p, x, hp, hw, hside⟩ := h
  have hjoin : joinSides p.combine (p.of l) (p.of r) = some (p.of m) := by
    refine of_merged hl hr hm ?_
    rintro name key rfl
    exact merged_permits hm (hnames name hp)
  have hpass := fun v => @reached_passable v env arguments m p hc hp
  have hgone : p.of m ≠ some x := by
    intro hx
    rw [(hpass x hx).wellFormed] at hw
    cases hw
  rcases hside with ⟨hx, hno⟩ | ⟨hx, hno⟩ <;> rw [hx] at hjoin
  · cases hy : p.of r with
    | none =>
      rw [hy] at hjoin
      exact hgone (Option.some.inj hjoin).symm
    | some b =>
      rw [hy] at hjoin
      obtain ⟨v, hv, hkept⟩ := Limit.kept_of_join hjoin
      exact hno b hy ⟨v, hkept, hpass v hv⟩
  · cases hy : p.of l with
    | none =>
      rw [hy] at hjoin
      exact hgone (Option.some.inj hjoin).symm
    | some a =>
      rw [hy] at hjoin
      obtain ⟨v, hv, hkept⟩ := Limit.kept_of_join hjoin
      exact hno a hy ⟨v, hkept, hpass v hv⟩

end Closed

/-! ## Every absorbed pair lets a call pass -/

section Passing

variable {a b : Value}

theorem reserved_ne (hk : key ∉ reservedKeys) :
    "arguments" ≠ key ∧ "required" ≠ key ∧ "additional_arguments" ≠ key := by
  simp only [reservedKeys, List.mem_cons, List.not_mem_nil, or_false, not_or] at hk
  exact ⟨Ne.symm hk.1, Ne.symm hk.2.1, Ne.symm hk.2.2⟩

theorem keyUnion_pair (x y : Value) : keyUnion .insertion [(key, x)] [(key, y)] = [key] := by
  simp [keyUnion, SetOrder.insertion, keys]

theorem declaresArgumentPolicy_single (x : Value) (hk : key ∉ reservedKeys) :
    declaresArgumentPolicy [(key, x)] = true := by
  simp [declaresArgumentPolicy, legacyConstrainedArguments, keys, hk]

theorem permittedArgumentNames_single (x : Value) (hk : key ∉ reservedKeys) :
    permittedArgumentNames [(key, x)] = some [constrainedArgumentName key] := by
  obtain ⟨h1, h2, h3⟩ := reserved_ne hk
  simp [permittedArgumentNames, admitsAnyArgument, given?, get?_cons, declaresArgumentPolicy_single x hk,
    legacyConstrainedArguments, keys, hk, h1, h2, h3]

/-- Two sets of one flat limit each merge to the limit that is kept. -/
theorem merge_flat_pair (hk : key ∉ reservedKeys) (h : (Limit.flat key).Kept a b v) :
    constraintIntersection .insertion [(key, a)] [(key, b)] = .ok [(key, v)] := by
  obtain ⟨h1, h2, h3⟩ := reserved_ne hk
  have hnames := fun x : Value => permittedArgumentNames_single x hk
  have hp : permits (intersectPermittedNames [(key, a)] [(key, b)]) (constrainedArgumentName key) = true := by
    simp [intersectPermittedNames, hnames, permits]
  have hflat : mergeFlat (intersectPermittedNames [(key, a)] [(key, b)]) [(key, a)] [(key, b)] key = .ok (some v) := by
    have hjoin : joinSides (combineFlat key) (some a) (some b) = some (some v) := Limit.kept_iff.2 h
    rw [mergeFlat_eq hk hp, joinSides_ok_iff]
    simpa [get?_cons] using hjoin
  simp [constraintIntersection, keyUnion_pair, build, hflat, mergeArgumentSchemas, mergeRequired, requiredNames,
    mergeAdditionalArguments, malformedFlag, given?, get?_cons, h1, h2, h3, hnames, assemble, unflagged,
      declaresArgumentPolicy_single v hk, bind, Except.bind, pure, Except.pure]

theorem merge_spec_pair {rule : Rule} (hrule : specNarrower key = some rule) (h : (Limit.spec name key).Kept a b v) :
    constraintIntersection .insertion [("arguments", .dict [(name, .dict [(key, a)])])]
      [("arguments", .dict [(name, .dict [(key, b)])])] = .ok [("arguments", .dict [(name, .dict [(key, v)])])] := by
  have hnames : ∀ x : Value, permittedArgumentNames [("arguments", .dict [(name, .dict [(key, x)])])] = some
    [name] := by
    intro x
    rfl
  have hnarrow : narrowKey [(key, a)] [(key, b)] key = .ok (some v) := by
    have hjoin := Limit.kept_iff.2 h
    rw [Limit.narrowKey_eq_combine hrule, joinSides_ok_iff]
    simpa [get?_cons] using hjoin
  have hspec : narrowArgumentSpec .insertion [(key, a)] [(key, b)] = .ok [(key, v)] := by
    simp [narrowArgumentSpec, keyUnion_pair, build, hnarrow, bind, Except.bind, pure, Except.pure]
  have hentry : mergeSchemaEntry .insertion (some [name]) [(name, .dict [(key, a)])] [(name, .dict [(key, b)])] name =
      .ok (some (.dict [(key, v)])) := by
    simp [mergeSchemaEntry, given?, get?_cons, permits, Value.dict?, hspec]
  simp [constraintIntersection, keyUnion_pair, build, hentry, mergeFlat, reservedKeys, mergeArgumentSchemas,
    mergeRequired,
    requiredNames, mergeAdditionalArguments, malformedFlag, given?, get?_cons, hnames, intersectPermittedNames,
    Value.dict?, assemble, unflagged, declaresArgumentPolicy, bind, Except.bind, pure, Except.pure]

theorem not_lt_self (h : finiteLimit v = true) : Value.lt v v = false := by
  obtain ⟨-, q, hq⟩ := finiteNumber_true (finiteLimit_eq h)
  simp [Value.lt_num hq hq]

/-- A bound passes the set that holds nothing else. -/
theorem check_flat_single {argument : String} (hk : key ∉ reservedKeys) (hkey : after? "max_" key = some argument)
    (hv : finiteLimit v = true) : checkConstraints plainEnv [(argument, v)] [(key, v)] = .ok () := by
  obtain ⟨h1, h2, h3⟩ := reserved_ne hk
  refine checkConstraints_ok_iff.2 ⟨[], false, ?_, ?_, nofun, ?_, ?_, ?_⟩
  · simp [get?_cons, h2, requiredArguments, Value.items?, nonEmptyStrings?]
  · simp [get?_cons, h3, declaresArgumentPolicy_single v hk]
  · simp [get?_cons, h1, checkSchema]
  · simp [keys, permittedArgumentNames_single v hk, permits, constrainedArgumentName, hkey]
  · intro key' v' hv'
    simp only [get?_cons, get?_nil, ite_none_right_eq_some, Option.some.injEq] at hv'
    obtain ⟨rfl, rfl⟩ := hv'
    simp [checkFlat, hk, hkey, get?_cons, finiteLimit_eq hv, not_lt_self hv, bind, Except.bind, refuseIf]

theorem check_spec_single {env : Env} {value : Value} (hname : name ≠ "") (hkey : key ≠ "required")
    (h : checkArgumentSchema env name value [(key, v)] = .ok ()) :
    checkConstraints env [(name, value)] [("arguments", .dict [(name, .dict [(key, v)])])] = .ok () := by
  have hdemands : demandsArgument (.dict [(key, v)]) = false := by
    simp [demandsArgument, get?_cons, Ne.symm hkey]
  refine checkConstraints_ok_iff.2 ⟨[], false, rfl, rfl, nofun, ?_, ?_, ?_⟩
  · refine checkSchema_ok_iff.2 (.inr (.inr ⟨[(name, .dict [(key, v)])], rfl, fun name' w hw => ?_⟩))
    simp only [get?_cons, get?_nil, ite_none_right_eq_some, Option.some.injEq] at hw
    obtain ⟨rfl, rfl⟩ := hw
    refine checkSchemaEntry_ok_iff.2 ⟨hname, by simp [hdemands], fun value' hvalue => ?_⟩
    simp only [get?_cons, if_true, Option.some.injEq] at hvalue
    rw [← hvalue]
    exact h
  · intro name' hname'
    rw [List.mem_singleton.1 (show name' ∈ [name] from hname')]
    have hnames : permittedArgumentNames [("arguments", .dict [(name, .dict [(key, v)])])] = some [name] := rfl
    simp [hnames, permits]
  · intro key' v' hv'
    simp only [get?_cons, get?_nil, ite_none_right_eq_some, Option.some.injEq] at hv'
    obtain ⟨rfl, -⟩ := hv'
    rfl

/-- A URL whose scheme and host are one of the listed names. -/
theorem exists_url (hkey : key ∈ ["allowed_schemes", "allowed_hosts", "allowed_domains"])
    (hv : wellFormedLimit key v = true) : ∃ env, checkUrlConstraints env name (.str "") [(key, v)] = .ok () := by
  have hitems : ∃ s, s ≠ "" ∧ (v = .null ∨ ∃ items, stringItems? v = some items ∧ s ∈ items) := by
    by_cases hnull : v = .null
    · exact ⟨"a", by decide, .inl hnull⟩
    have hsome : (stringItems? v).isSome = true := by
      simp only [List.mem_cons, List.not_mem_nil, or_false] at hkey
      rcases hkey with rfl | rfl | rfl <;> cases v <;> simp_all [wellFormedLimit]
    obtain ⟨items, hitems⟩ := isSome_iff_exists.1 hsome
    obtain ⟨x, xs, -, hn⟩ := stringItems?_eq_some.1 hitems
    obtain ⟨s, hs⟩ := (mapM_some_mem hn).2 x (by simp)
    have hmem := ((mapM_some_mem hn).1 s).2 ⟨x, by simp, hs⟩
    exact ⟨s, ((mem_nonEmptyStrings hn s).1 hmem).2, .inr ⟨items, hitems, hmem⟩⟩
  obtain ⟨s, hs, hmem⟩ := hitems
  have hsome : ∀ (P : String → Prop) (key' : String), P s → SomeItem P [(key, v)] key' := by
    intro P key' hP w hw
    obtain ⟨hw, hne⟩ := given?_eq_some.1 hw
    simp only [get?_cons, get?_nil, ite_none_right_eq_some, Option.some.injEq] at hw
    obtain ⟨-, rfl⟩ := hw
    obtain ⟨items, hitems, hmem⟩ := hmem.resolve_left hne
    exact ⟨items, hitems, s, hmem, hP⟩
  have hscheme : "scheme" ≠ key ∧ urlKeys.any (Assoc.contains [(key, v)]) = true := by
    simp only [List.mem_cons, List.not_mem_nil, or_false] at hkey
    rcases hkey with rfl | rfl | rfl <;> exact ⟨by decide, rfl⟩
  let env : Env := { plainEnv with urlparse := fun _ => .ok ⟨s, some s, none, none⟩ }
  have hurl : absoluteUrl env name (.str "") = .ok (s, env.lower (rstripDots s)) := by
    simp [absoluteUrl, env, hs, bind, Except.bind, pure, Except.pure, refuseIf]
  refine ⟨env, ?_⟩
  rw [checkUrlConstraints, if_pos hscheme.2, hurl]
  refine seq_ok_iff.2 ⟨by simp [checkScheme, given?, get?_cons, hscheme.1], seq_ok_iff.2 ⟨?_, seq_ok_iff.2 ⟨?_, ?_⟩⟩⟩
  · exact checkAllowedSchemes_ok_iff.2 (hsome _ _ rfl)
  · exact checkAllowedHosts_ok_iff.2 (hsome _ _ rfl)
  · exact checkAllowedDomains_ok_iff.2 (hsome _ _ (.inl rfl))

/-- Some value passes a specification of one limit: the bound itself, a string of the length, a value
of the type, a URL. -/
theorem exists_passing (hg : (Limit.spec name key).Guarded) (hv : (Limit.spec name key).Passable v) :
    ∃ env value, checkArgumentSchema env name value [(key, v)] = .ok () := by
  obtain ⟨-, hkey⟩ := hg
  obtain ⟨hw, htype⟩ := hv
  have hlength : lengthLimit v = true → ∃ s : String, v = .int s.length := by
    intro h
    obtain ⟨n, rfl, hn⟩ := lengthLimit_int h
    exact ⟨String.ofList (List.replicate n.toNat 'a'), by simp [hn]⟩
  simp only [checkArgumentSchema, seq_ok_iff]
  simp only [List.mem_cons, List.not_mem_nil, or_false] at hkey
  rcases hkey with rfl | rfl | rfl | rfl | rfl | hurl
  · rcases htype rfl with rfl | ⟨t, ht, hmem⟩
    · exact ⟨plainEnv, .null, rfl, rfl, rfl, rfl, rfl, rfl, rfl, rfl, rfl⟩
    obtain ⟨value, hvalue⟩ : ∃ value, typeMatches value t = true := by
      simp only [typeNames, List.mem_cons, List.not_mem_nil, or_false] at ht
      rcases ht with rfl | rfl | rfl | rfl | rfl | rfl | rfl
      exacts [⟨.str "", rfl⟩, ⟨.int 0, rfl⟩, ⟨.int 0, rfl⟩, ⟨.bool true, rfl⟩, ⟨.dict [], rfl⟩, ⟨.list [], rfl⟩,
        ⟨.null, rfl⟩]
    have hstrings : v ≠ .null → ((asTypeList v).mapM Value.str?).isSome = true := by
      intro hne
      cases v <;> simp_all [wellFormedLimit]
    refine ⟨plainEnv, value, checkType_ok_iff.2 fun w hw' => ?_, rfl, rfl, rfl, rfl, rfl, rfl, rfl, rfl⟩
    obtain ⟨hw', hne⟩ := given?_eq_some.1 hw'
    cases hw'
    obtain ⟨types, htypes⟩ := isSome_iff_exists.1 (hstrings hne)
    exact matchesType_true.2 ⟨types, htypes, t, ((mapM_some_mem htypes).1 t).2 ⟨_, hmem, rfl⟩, hvalue⟩
  · exact ⟨plainEnv, v, rfl, rfl, rfl, checkBound_ok_iff.2 ⟨finiteLimit_eq hw, finiteLimit_eq hw, not_lt_self hw⟩, rfl,
      rfl, rfl, rfl, rfl⟩
  · exact ⟨plainEnv, v, rfl, rfl, rfl, rfl, checkBound_ok_iff.2 ⟨finiteLimit_eq hw, finiteLimit_eq hw, not_lt_self hw⟩,
      rfl, rfl, rfl, rfl⟩
  · obtain ⟨s, rfl⟩ := hlength hw
    exact ⟨plainEnv, .str s, rfl, rfl, rfl, rfl, rfl, checkLength_ok_iff.2 ⟨_, rfl, by simp, s, rfl, by simp⟩, rfl, rfl,
      rfl⟩
  · obtain ⟨s, rfl⟩ := hlength hw
    exact ⟨plainEnv, .str s, rfl, rfl, rfl, rfl, rfl, rfl, checkLength_ok_iff.2 ⟨_, rfl, by simp, s, rfl, by simp⟩, rfl,
      rfl⟩
  · obtain ⟨env, henv⟩ := @exists_url v key name (by simpa using hurl) hw
    rcases hurl with rfl | rfl | rfl
    all_goals exact ⟨env, .str "", rfl, rfl, rfl, rfl, rfl, rfl, rfl, rfl, henv⟩

/-- Two limits that are absorbed: sets that hold them, and a call that passes what their merge keeps. -/
theorem Limit.Absorbed.exposes {p : Limit} (hg : p.Guarded) (h : p.Absorbed a b) : ∃ env order l r arguments m,
    validateConstraints env (.dict l) = .ok () ∧ validateConstraints env (.dict r) = .ok () ∧
    p.of l = some a ∧ p.of r = some b ∧ p.Reached arguments ∧ constraintIntersection order l r = .ok m ∧
    checkConstraints env arguments m = .ok () := by
  obtain ⟨v, hkept, hpass⟩ := h
  cases p with
  | flat key =>
    obtain ⟨argument, hmax⟩ := isSome_iff_exists.1 hg
    have hk : key ∉ reservedKeys := by
      simp only [reservedKeys, List.mem_cons, List.not_mem_nil, or_false]
      rintro (rfl | rfl | rfl) <;> cases hmax
    obtain ⟨h1, h2, h3⟩ := reserved_ne hk
    have hvalid : ∀ x : Value, validateConstraints plainEnv (.dict [(key, x)]) = .ok () := by
      intro x
      simp [validateConstraints, given?, get?_cons, h1, h2, h3, validateRequired, validateSchema, Value.isBool,
        refuseIf]
      rfl
    have hv : finiteLimit v = true := by simpa [Limit.Passable, wellFormedFlat, hmax] using hpass
    exact ⟨plainEnv, .insertion, _, _, _, _, hvalid a, hvalid b, by simp [Limit.of, hk, get?_cons],
      by simp [Limit.of, hk, get?_cons], trivial, merge_flat_pair hk hkept, check_flat_single hk hmax hv⟩
  | spec name key =>
    obtain ⟨env, value, hcheck⟩ := exists_passing hg hpass
    have hknown : key ∈ argumentSpecKeys ∧ key ≠ "required" ∧ (specNarrower key).isSome = true := by
      have hkey := hg.2
      simp only [List.mem_cons, List.not_mem_nil, or_false] at hkey
      rcases hkey with rfl | rfl | rfl | rfl | rfl | rfl | rfl | rfl <;> decide
    obtain ⟨rule, hrule⟩ := isSome_iff_exists.1 hknown.2.2
    have hvalid : ∀ x : Value,
        validateConstraints env (.dict [("arguments", .dict [(name, .dict [(key, x)])])]) = .ok () := by
      intro x
      refine seq_ok_iff.2 ⟨rfl, seq_ok_iff.2 ⟨rfl, validateSchema_ok_iff.2 ?_⟩⟩
      rintro _ ⟨⟩
      refine ⟨_, rfl, fun name' w hw => validateSpec_ok_iff.2 ?_⟩
      simp only [get?_cons, get?_nil, ite_none_right_eq_some, Option.some.injEq] at hw
      obtain ⟨rfl, rfl⟩ := hw
      exact ⟨hg.1, _, rfl, by simpa [keys] using hknown.1⟩
    exact ⟨env, .insertion, _, _, _, _, hvalid a, hvalid b, by simp [Limit.of, specOf, get?_cons, Value.dict?],
      by simp [Limit.of, specOf, get?_cons, Value.dict?], by simp [Limit.Reached, keys], merge_spec_pair hrule hkept,
      check_spec_single hg.1 hknown.2.1 hcheck⟩

end Passing

end Portmark.Security
