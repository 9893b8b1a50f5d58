/-
The constraint merge narrows: an argument object that passes a merged constraint set passes both
of its inputs. The subtle part is the argument names. A set's whitelist is derived from its own
keys, three times: by the planner (`permittedArgumentNames`), by the checker (`knownArguments`)
and, for the merged set, from the keys the merge put there. `checkConstraints_ok_iff` says that
the checker admits what the planner permits, and `merged_permits` that the merged set permits
no name that an input does not.
-/
import Portmark.Security.Limits

namespace Portmark.Security

open Lib List Assoc

/-! ## The checker in the planner's terms -/

variable {v : Value}

section Checker

variable {env : Env} {arguments c : Dict}

theorem requiredArguments_ok_iff {names : List String} : requiredArguments v = .ok names ↔
    v = .null ∧ names = [] ∨ ∃ xs, v.items? = some xs ∧ nonEmptyStrings? xs = some names := by
  cases v with
  | null => simp [requiredArguments, Value.items?, eq_comm]
  | list xs | tuple xs => cases h : nonEmptyStrings? xs <;> simp [requiredArguments, Value.items?, h]
  | _ => simp [requiredArguments, Value.items?]

/-- The strings of `required`, as the planner reads them. -/
def plannedRequired (c : Dict) : List String :=
  match (Assoc.get? c "required").bind Value.items? with
  | some items => items.filterMap Value.str?
  | none => []

/-- The names of the `arguments` schema, as planner and checker read them. -/
def schemaNames (c : Dict) : List String :=
  match Assoc.get? c "arguments" with
  | some (.dict schema) => Assoc.keys schema
  | _ => []

theorem permittedArgumentNames_eq (c : Dict) : permittedArgumentNames c =
    if admitsAnyArgument c then none else some (legacyConstrainedArguments c ++ schemaNames c ++ plannedRequired c) :=
  rfl

theorem knownArguments_eq (c : Dict) (required : List String) :
    knownArguments c required = required ++ legacyConstrainedArguments c ++ schemaNames c :=
  rfl

theorem plannedRequired_eq {names : List String}
    (h : requiredArguments ((get? c "required").getD (.tuple [])) = .ok names) (s : String) :
    s ∈ plannedRequired c ↔ s ∈ names := by
  unfold plannedRequired
  rcases hr : get? c "required" with _ | _
  · simp_all [requiredArguments, Value.items?, nonEmptyStrings?]
  rw [hr, Option.getD_some, requiredArguments_ok_iff] at h
  rcases h with ⟨rfl, rfl⟩ | ⟨xs, hxs, hn⟩
  · simp [Value.items?]
  simp only [Option.bind_some, hxs, mem_filterMap, Value.str?_eq_some]
  rw [mem_nonEmptyStrings hn]
  constructor
  · rintro ⟨_, hx, rfl⟩
    obtain ⟨t, ht⟩ := (mapM_some_mem hn).2 _ hx
    refine ⟨hx, ?_⟩
    rintro rfl
    simp [Value.str?] at ht
  · rintro ⟨hx, -⟩; exact ⟨_, hx, rfl⟩

/-- The effective flag of the checker is the planner's. -/
theorem additional_eq {b : Bool}
    (h : (get? c "additional_arguments").getD (.bool (!declaresArgumentPolicy c)) = .bool b) :
    admitsAnyArgument c = b := by
  unfold admitsAnyArgument given?
  cases hf : get? c "additional_arguments" with
  | none => simpa [hf] using h
  | some =>
    rw [hf, Option.getD_some] at h; subst h
    cases b <;> rfl

/-- What `check_constraints` demands, the whitelist in the planner's terms. -/
theorem checkConstraints_ok_iff : checkConstraints env arguments c = .ok () ↔
    ∃ required additional,
      requiredArguments ((get? c "required").getD (.tuple [])) = .ok required ∧
      (get? c "additional_arguments").getD (.bool (!declaresArgumentPolicy c)) = .bool additional ∧
      (∀ name ∈ required, name ∈ keys arguments) ∧
      checkSchema env arguments (get? c "arguments") = .ok () ∧
      (∀ name ∈ keys arguments, permits (permittedArgumentNames c) name = true) ∧
      ∀ key v, get? c key = some v → checkFlat env arguments (key, v) = .ok () := by
  unfold checkConstraints
  simp only [bind_ok_iff]
  refine exists_congr fun required => ?_
  cases hf : (get? c "additional_arguments").getD (.bool (!declaresArgumentPolicy c)) with
  | bool additional =>
    simp only [seq_ok_iff, forM_ok_iff, Prod.forall, mem_items_iff, Value.bool.injEq,
      exists_and_left, exists_eq_left', checkPresent, refuseIf_ok_iff, Bool.not_eq_false', Assoc.contains_iff]
    refine and_congr_right fun hr => and_congr_right fun _ => and_congr_right fun _ => and_congr_left fun _ => ?_
    rw [permittedArgumentNames_eq, additional_eq hf]
    cases additional with
    | true => simp [permits]
    | false =>
      simp only [Bool.not_false, Bool.true_and, any_eq_false, Bool.not_eq_true', Bool.not_eq_false,
        contains_iff_mem, knownArguments_eq, Bool.false_eq_true, if_false, permits, mem_append,
        plannedRequired_eq hr]
      refine forall₂_congr fun name _ => ?_
      tauto
  | _ => simp

theorem validateSpec_ok_iff {name : String} {w : Value} : validateSpec env (name, w) = .ok () ↔
    name ≠ "" ∧ ∃ spec, w = .dict spec ∧ ∀ key ∈ keys spec, key ∈ argumentSpecKeys := by
  unfold validateSpec
  by_cases hn : name = ""
  · simp [hn]
  · cases w <;> simp [hn, filter_eq_nil_iff]

theorem validateRequired_ok_iff {v : Option Value} : validateRequired v = .ok () ↔
    ∀ w, v = some w → (w.items?.bind nonEmptyStrings?).isSome = true := by
  cases v with
  | none => simp [validateRequired]
  | some => simp [validateRequired, Option.isSome_iff_ne_none]

theorem validateSchema_ok_iff {v : Option Value} : validateSchema env v = .ok () ↔
    ∀ w, v = some w → ∃ schema, w = .dict schema ∧
      ∀ name w, get? schema name = some w → validateSpec env (name, w) = .ok () := by
  cases v with
  | none => simp [validateSchema]
  | some w =>
    cases w <;> simp [validateSchema]
    refine (forM_ok_iff _ _).trans ⟨fun h name w hw => h (name, w) (mem_items_iff.2 hw), ?_⟩
    rintro h ⟨name, w⟩ hm
    exact h name w (mem_items_iff.1 hm)

theorem validateConstraints_ok (h : validateConstraints env (.dict c) = .ok ()) :
    (∃ names, requiredArguments ((get? c "required").getD (.tuple [])) = .ok names) ∧
    (∃ b, (get? c "additional_arguments").getD (.bool (!declaresArgumentPolicy c)) = .bool b) ∧
    ∀ v, given? c "arguments" = some v → ∃ schema, v = .dict schema ∧ ∀ name w, get? schema name = some w →
      name ≠ "" ∧ ∃ spec, w = .dict spec ∧ ∀ key ∈ keys spec, key ∈ argumentSpecKeys := by
  simp only [validateConstraints, seq_ok_iff, refuseIf_ok_iff, Bool.not_eq_false', validateRequired_ok_iff,
    validateSchema_ok_iff, validateSpec_ok_iff] at h
  obtain ⟨hreq, hadd, hschema⟩ := h
  refine ⟨?_, ?_, hschema⟩
  · simp only [requiredArguments_ok_iff]
    cases hr : get? c "required" with
    | none => exact ⟨[], .inr ⟨[], rfl, rfl⟩⟩
    | some v =>
      by_cases hnull : v = .null
      · exact ⟨[], .inl ⟨hnull, rfl⟩⟩
      obtain ⟨names, hn⟩ := Option.isSome_iff_exists.1 (hreq v (given?_eq_some.2 ⟨hr, hnull⟩))
      obtain ⟨xs, hxs, hn⟩ := Option.bind_eq_some_iff.1 hn
      exact ⟨names, .inr ⟨xs, hxs, hn⟩⟩
  · cases ha : get? c "additional_arguments" with
    | none => exact ⟨_, rfl⟩
    | some v =>
      rw [ha, Option.getD_some] at hadd
      cases v <;> simp [Value.isBool] at hadd
      exact ⟨_, rfl⟩

end Checker

/-! ## Well-formed constraint sets -/

/-- A flat limit that `check_constraints` does not itself refuse as malformed. -/
def wellFormedFlat (key : String) (v : Value) : Bool :=
  if (after? "max_" key).isSome then finiteLimit v
  else if (after? "allowed_" key).isSome then v.items?.isSome
  else true

/-- No limit of the set is one that `check_constraints` refuses as malformed. -/
def wellFormedLimits (c : Dict) : Bool :=
  (Assoc.items c).all (fun entry => reservedKeys.contains entry.1 || wellFormedFlat entry.1 entry.2) &&
  match Assoc.get? c "arguments" with
  | some (.dict schema) => (Assoc.items schema).all fun entry => (entry.2.dict?.map wellFormedSpec).getD true
  | _ => true

theorem wellFormedLimits_flat {c : Dict} (h : wellFormedLimits c = true) {key : String} (hk : key ∉ reservedKeys)
    (hv : get? c key = some v) : wellFormedFlat key v = true := by
  simp only [wellFormedLimits, Bool.and_eq_true] at h
  have hall := all_eq_true.1 h.1 (key, v) (mem_items_iff.2 hv)
  simpa [hk] using hall

variable {name : String} {spec : Dict}

theorem wellFormedLimits_spec {c schema : Dict} (h : wellFormedLimits c = true)
    (hs : get? c "arguments" = some (.dict schema)) (hv : get? schema name = some (.dict spec)) :
    wellFormedSpec spec = true := by
  simp only [wellFormedLimits, hs, Bool.and_eq_true] at h
  exact all_eq_true.1 h.2 (name, .dict spec) (mem_items_iff.2 hv)

/-! ## Flat limits -/

def flatRule (key : String) : Rule :=
  if (after? "max_" key).isSome then .numericMin
  else if (after? "allowed_" key).isSome then .listIntersection
  else .identical

variable {a : Value} {w : Option Value}

section Flat

variable {env : Env} {arguments l r : Dict} {permitted : Option (List String)} {key : String}

theorem finiteLimit_isNumber (h : finiteLimit v = true) : v.isNumber = true := by
  obtain ⟨hb, q, hq⟩ := finiteNumber_true (finiteLimit_eq h)
  simp [Value.isNumber, hb, hq]

def combineFlat (key : String) (a b : Value) : Option Value :=
  if (after? "max_" key).isSome && a.num?.isSome && b.num?.isSome then some (Value.min a b)
  else if (after? "allowed_" key).isSome then sharedItems a b
  else none

theorem mergeFlat_eq (hk : key ∉ reservedKeys) (hp : permits permitted (constrainedArgumentName key) = true) :
    mergeFlat permitted l r key =
      (joinSides (combineFlat key) (get? l key) (get? r key)).elim (.error (.key key)) .ok := by
  have hres : reservedKeys.contains key = false := by simpa using hk
  simp only [mergeFlat, hres, hp, Bool.not_true, Bool.false_eq_true, if_false]
  cases get? l key with
  | none => rfl
  | some a =>
    cases get? r key with
    | none => rfl
    | some b =>
      simp only [joinSides, combineFlat]
      split
      · rfl
      split
      · rfl
      split
      · cases sharedItems a b <;> rfl
      · rfl

/-- What one flat key of a merged set is. The merge looks at the two limits of the key alone, once its name is
permitted. -/
theorem mergeFlat_joined (hk : key ∉ reservedKeys) (h : mergeFlat permitted l r key = .ok w) :
    permits permitted (constrainedArgumentName key) = true ∧
      Joined (fun a b v => combineFlat key a b = some v) (get? l key) (get? r key) w := by
  have hp : permits permitted (constrainedArgumentName key) = true := by
    cases hp : permits permitted (constrainedArgumentName key) with
    | true => rfl
    | false => simp [mergeFlat, hk, hp] at h
  rw [mergeFlat_eq hk hp, joinSides_ok_iff] at h
  exact ⟨hp, joinSides_some_iff.1 h⟩

/-- The flat merge of two different well-formed limits is the merge by the key's rule. -/
theorem combineFlat_rule {b : Value} (hwa : wellFormedFlat key a = true) (hwb : wellFormedFlat key b = true) :
    combineFlat key a b = narrow (flatRule key) a b := by
  unfold wellFormedFlat at hwa hwb
  unfold combineFlat flatRule
  by_cases hmax : (after? "max_" key).isSome = true
  · simp only [hmax, if_true] at hwa hwb
    have na := finiteLimit_isNumber hwa
    have nb := finiteLimit_isNumber hwb
    have hnum : a.num?.isSome = true ∧ b.num?.isSome = true := by
      simp only [Value.isNumber, Bool.and_eq_true] at na nb
      exact ⟨na.1, nb.1⟩
    simp [hmax, hnum.1, hnum.2, narrow, na, nb]
  · simp only [hmax, Bool.false_and, Bool.false_eq_true, if_false]
    split <;> rfl

theorem mergeFlat_tighter (hwl : wellFormedLimits l = true) (hwr : wellFormedLimits r = true) (hk : key ∉ reservedKeys)
    (h : mergeFlat permitted l r key = .ok w) (ha : get? l key = some a ∨ get? r key = some a) :
    ∃ v, w = some v ∧ Tighter (flatRule key) v a := by
  refine (mergeFlat_joined hk h).2.tighter (fun a b v ha hb hne h => ?_) ha
  rw [← combineFlat_rule (wellFormedLimits_flat hwl hk ha) (wellFormedLimits_flat hwr hk hb)]
  exact h

theorem checkFlat_of_tighter (ht : Tighter (flatRule key) v a) (hwa : wellFormedFlat key a = true)
    (hk : key ∉ reservedKeys) (h : checkFlat env arguments (key, v) = .ok ()) :
    checkFlat env arguments (key, a) = .ok () := by
  have hres : reservedKeys.contains key = false := by simpa using hk
  simp only [checkFlat, hres, Bool.false_eq_true, if_false] at h ⊢
  unfold flatRule at ht
  unfold wellFormedFlat at hwa
  cases hmax : after? "max_" key with
  | some =>
    simp only [hmax, Option.isSome_some, if_true, bind_ok_iff, refuseIf_ok_iff, Bool.or_eq_false_iff,
      Bool.not_eq_false'] at h ht hwa ⊢
    obtain ⟨_, hx, _, rfl, _, hv, rfl, hlt⟩ := h
    have hfa := finiteLimit_eq hwa
    exact ⟨true, hx, (), rfl, true, hfa, rfl, ht.not_above hv hfa hx hlt⟩
  | none =>
    simp only [hmax, Option.isSome_none, Bool.false_eq_true, if_false] at h ht hwa ⊢
    cases hallowed : after? "allowed_" key with
    | some argument =>
      simp only [hallowed, Option.isSome_some, if_true, Option.isSome_iff_exists] at h ht hwa ⊢
      obtain ⟨as, has⟩ := hwa
      cases hvs : v.items? with
      | none => simp [hvs] at h
      | some =>
        cases hx : get? arguments argument with
        | none => simp [hvs, hx] at h
        | some =>
          simp only [hvs, hx, has, refuseIf_ok_iff, Bool.not_eq_false'] at h ⊢
          exact ht.jsonIn hvs has h
    | none =>
      simp only [hallowed, Option.isSome_none, Bool.false_eq_true, if_false] at h ht ⊢
      cases hx : get? arguments key with
      | none => simp [hx] at h
      | some =>
        simp only [hx, refuseIf_ok_iff, Bool.not_eq_false'] at h ⊢
        rcases ht.identical with rfl | he
        · exact h
        · exact jsonEqual_trans h he

end Flat

/-! ## A set against a merged one -/

/-- `m` keeps every demand of `l`: it permits no other name, requires what `l` requires, and holds
a merged limit for each limit of `l`. A specification may be dropped for a name `m` refuses. -/
structure Narrows (m l : Dict) : Prop where
  names : ∀ name, permits (permittedArgumentNames m) name = true → permits (permittedArgumentNames l) name = true
  required : ∀ name ∈ plannedRequired l, name ∈ plannedRequired m
  schema : ∀ schema name spec, Assoc.get? l "arguments" = some (.dict schema) →
    Assoc.get? schema name = some (.dict spec) →
    (∃ schema' spec', Assoc.get? m "arguments" = some (.dict schema') ∧
      Assoc.get? schema' name = some (.dict spec') ∧ (spec' = spec ∨ Keeps spec' spec)) ∨
    permits (permittedArgumentNames m) name = false ∧ demandsArgument (.dict spec) = false
  flat : ∀ key a, key ∉ reservedKeys → Assoc.get? l key = some a →
    ∃ v, Assoc.get? m key = some v ∧ Tighter (flatRule key) v a

section Sets

variable {env : Env} {arguments m l : Dict}

theorem demandsArgument_iff : demandsArgument (.dict spec) = true ↔ get? spec "required" = some (.bool true) := by
  unfold demandsArgument
  split
  · split <;> simp_all
  · rename_i h; exact absurd rfl (h spec)

theorem Keeps.demands {spec' : Dict} (hk : Keeps spec' spec) (h : demandsArgument (.dict spec) = true) :
    demandsArgument (.dict spec') = true := by
  obtain ⟨v, hv, ht⟩ := hk.get .eitherTrue rfl (demandsArgument_iff.1 h)
  exact demandsArgument_iff.2 (ht.eitherTrue ▸ hv)

theorem checkSchemaEntry_ok_iff : checkSchemaEntry env arguments (name, .dict spec) = .ok () ↔ name ≠ "" ∧
      (demandsArgument (.dict spec) = true → name ∈ keys arguments) ∧
      ∀ value, get? arguments name = some value → checkArgumentSchema env name value spec = .ok () := by
  by_cases hne : name = ""
  · simp [checkSchemaEntry, hne]
  simp only [checkSchemaEntry, hne, if_false, seq_ok_iff, refuseIf_ok_iff, ne_eq, not_false_eq_true, true_and]
  refine and_congr ?_ ?_
  · rw [← Assoc.contains_iff]
    cases demandsArgument (.dict spec) <;> simp
  · cases get? arguments name <;> simp

theorem checkSchema_ok_iff {v : Option Value} : checkSchema env arguments v = .ok () ↔
    v = none ∨ v = some .null ∨ ∃ schema, v = some (.dict schema) ∧
      ∀ name w, get? schema name = some w → checkSchemaEntry env arguments (name, w) = .ok () := by
  unfold checkSchema
  split
  · simp
  · simp
  · rw [forM_ok_iff]; simp [mem_items_iff]
  · rename_i hnull hdict
    simp only [refuse_ne_ok, reduceCtorEq, Option.some.injEq, false_or, false_iff, not_or, not_exists, not_and]
    exact ⟨hnull, fun schema h => absurd h (hdict schema)⟩

/-- A checked entry of `l` passes because the merged set keeps it, or refuses its name. -/
theorem checkSchemaEntry_of_narrows (hn : Narrows m l) (hw : wellFormedLimits l = true)
    (hnames : ∀ name ∈ keys arguments, permits (permittedArgumentNames m) name = true)
    (hm : checkSchema env arguments (get? m "arguments") = .ok ()) {schema : Dict}
    (hs : get? l "arguments" = some (.dict schema)) (hspec : get? schema name = some (.dict spec))
    (hne : name ≠ "") : checkSchemaEntry env arguments (name, .dict spec) = .ok () := by
  rcases hn.schema schema name spec hs hspec with ⟨schema', spec', hs', hspec', hkeep⟩ | ⟨hrefused, hopt⟩
  · rw [hs', checkSchema_ok_iff] at hm
    simp only [reduceCtorEq, Option.some.injEq, Value.dict.injEq, exists_eq_left', false_or] at hm
    have hentry := hm name _ hspec'
    rcases hkeep with rfl | hkeep
    · exact hentry
    rw [checkSchemaEntry_ok_iff] at hentry ⊢
    obtain ⟨_, hdem, hval⟩ := hentry
    exact ⟨hne, fun h => hdem (hkeep.demands h), fun value hv =>
      checkArgumentSchema_of_keeps hkeep (wellFormedLimits_spec hw hs hspec) (hval value hv)⟩
  · have habsent : name ∉ keys arguments := fun h => by
      rw [hnames name h] at hrefused; cases hrefused
    refine checkSchemaEntry_ok_iff.2 ⟨hne, fun h => ?_, fun value hv => ?_⟩
    · rw [hopt] at h; cases h
    · exact absurd (mem_keys_iff.2 ⟨value, hv⟩) habsent

/-- Arguments that pass a set that keeps every demand of `l` pass `l`. -/
theorem checkConstraints_of_narrows (hv : validateConstraints env (.dict l) = .ok ())
    (hw : wellFormedLimits l = true) (hn : Narrows m l) (h : checkConstraints env arguments m = .ok ()) :
    checkConstraints env arguments l = .ok () := by
  obtain ⟨_, _, hreq, -, hpresent, hschema, hnames, hflat⟩ := checkConstraints_ok_iff.1 h
  obtain ⟨⟨required, hr⟩, ⟨additional, hadd⟩, hval⟩ := validateConstraints_ok hv
  refine checkConstraints_ok_iff.2 ⟨required, additional, hr, hadd, ?_, ?_, ?_, ?_⟩
  · intro name hname
    exact hpresent name ((plannedRequired_eq hreq name).1 (hn.required name ((plannedRequired_eq hr name).2 hname)))
  · cases hs : get? l "arguments" with
    | none => exact checkSchema_ok_iff.2 (.inl rfl)
    | some v =>
      by_cases hnull : v = .null
      · exact checkSchema_ok_iff.2 (.inr (.inl (by rw [hnull])))
      obtain ⟨schema, rfl, hspecs⟩ := hval v (given?_eq_some.2 ⟨hs, hnull⟩)
      refine checkSchema_ok_iff.2 (.inr (.inr ⟨schema, rfl, fun name w hw' => ?_⟩))
      obtain ⟨hne, spec, rfl, -⟩ := hspecs name w hw'
      exact checkSchemaEntry_of_narrows hn hw hnames hschema hs hw' hne
  · exact fun name hname => hn.names name (hnames name hname)
  · intro key a ha
    by_cases hk : key ∈ reservedKeys
    · simp [checkFlat, hk]
    · obtain ⟨v, hv, ht⟩ := hn.flat key a hk ha
      exact checkFlat_of_tighter ht (wellFormedLimits_flat hw hk ha) hk (hflat key v hv)

end Sets

/-! ## The merged set -/

section Merged

variable {order : SetOrder} {l r m : Dict}

theorem permits_intersect_iff : permits (intersectPermittedNames l r) name = true ↔
    permits (permittedArgumentNames l) name = true ∧ permits (permittedArgumentNames r) name = true := by
  unfold intersectPermittedNames
  cases permittedArgumentNames l <;> cases permittedArgumentNames r <;> simp [permits]

section Assemble

variable {flat : Dict} {schema : Option Dict} {required : Option (List String)} {additional : Bool}

theorem get?_unflagged (hflat : ∀ key ∈ reservedKeys, get? flat key = none) (key : String) :
    get? (unflagged flat schema required) key =
      if key = "arguments" then schema.map .dict
      else if key = "required" then required.map fun names => .list (names.map .str)
      else get? flat key := by
  unfold unflagged
  rw [get?_append, get?_append]
  by_cases h1 : key = "arguments"
  · subst h1
    rw [hflat _ (by decide)]
    cases schema <;> cases required <;> simp [get?_cons]
  · by_cases h2 : key = "required"
    · subst h2
      rw [hflat _ (by decide)]
      cases schema <;> cases required <;> simp [get?_cons]
    · cases schema <;> cases required <;> simp [get?_cons, h1, h2]

theorem get?_assemble (hflat : ∀ key ∈ reservedKeys, get? flat key = none) {key : String}
    (hk : key ≠ "additional_arguments") : get? (assemble flat schema required additional) key =
      if key = "arguments" then schema.map .dict
      else if key = "required" then required.map fun names => .list (names.map .str)
      else get? flat key := by
  rw [← get?_unflagged hflat]
  simp only [assemble]
  split
  · simp [get?_append, get?_cons, hk]
  · rfl

/-- The merged set's effective flag is the merged flag, whether recorded or left to the default. -/
theorem additional_assemble (hflat : ∀ key ∈ reservedKeys, get? flat key = none) :
    (get? (assemble flat schema required additional) "additional_arguments").getD
      (.bool (!declaresArgumentPolicy (assemble flat schema required additional))) = .bool additional := by
  have hnone : get? (unflagged flat schema required) "additional_arguments" = none := by
    rw [get?_unflagged hflat, if_neg (by decide), if_neg (by decide), hflat _ (by decide)]
  simp only [assemble]
  split
  · simp [get?_append, hnone, get?_cons]
  rename_i h
  have heq : additional = !declaresArgumentPolicy (unflagged flat schema required) := by
    simpa only [bne_iff_ne, ne_eq, not_not] using h
  rw [hnone, Option.getD_none, heq]

end Assemble

theorem flat_reserved {permitted : Option (List String)} {flat : Dict}
    (hf : build (mergeFlat permitted l r) (keyUnion order l r) = .ok flat) :
    ∀ key ∈ reservedKeys, get? flat key = none := by
  intro key hk
  cases hg : get? flat key with
  | none => rfl
  | some =>
    have := ((get?_build hf).1 hg).2
    simp [mergeFlat, hk] at this

/-- The merged set, key by key. -/
theorem constraintIntersection_ok (h : constraintIntersection order l r = .ok m) : ∃ flat schema required additional,
    build (mergeFlat (intersectPermittedNames l r) l r) (keyUnion order l r) = .ok flat ∧
    mergeArgumentSchemas order l r (intersectPermittedNames l r) = .ok schema ∧
    mergeRequired l r (intersectPermittedNames l r) = .ok required ∧
    mergeAdditionalArguments l r = .ok additional ∧
    (∀ key, key ∉ reservedKeys → get? m key = get? flat key) ∧ get? m "arguments" = schema.map .dict ∧
    get? m "required" = required.map (fun names => .list (names.map .str)) ∧
    (get? m "additional_arguments").getD (.bool (!declaresArgumentPolicy m)) = .bool additional := by
  simp only [constraintIntersection, bind_ok_iff] at h
  obtain ⟨flat, hf, schema, hs, required, hr, additional, ha, h⟩ := h
  cases h
  have hres := flat_reserved hf
  refine ⟨flat, schema, required, additional, hf, hs, hr, ha, fun key hk => ?_, ?_, ?_, additional_assemble hres⟩
  · simp only [reservedKeys, mem_cons, not_mem_nil, or_false, not_or] at hk
    rw [get?_assemble hres hk.2.2, if_neg hk.1, if_neg hk.2.1]
  · rw [get?_assemble hres (by decide), if_pos rfl]
  · rw [get?_assemble hres (by decide), if_neg (by decide), if_pos rfl]

variable {permitted : Option (List String)}

theorem mergeSchemaEntry_ok (h : mergeSchemaEntry order permitted l r name = .ok w) :
    (w.isSome = permits permitted name) ∧ (∀ spec, given? l name = some (.dict spec) →
      (∃ spec', w = some (.dict spec') ∧ (spec' = spec ∨ Keeps spec' spec)) ∨
      permits permitted name = false ∧ demandsArgument (.dict spec) = false) ∧
    ∀ spec, given? r name = some (.dict spec) →
      (∃ spec', w = some (.dict spec') ∧ (spec' = spec ∨ Keeps spec' spec)) ∨
      permits permitted name = false ∧ demandsArgument (.dict spec) = false := by
  simp only [mergeSchemaEntry] at h
  split at h
  · cases h
  split at h
  · rename_i hp
    have hp' : permits permitted name = false := by simpa using hp
    split at h <;> cases h
    rename_i hdem
    simp only [Bool.or_eq_true, not_or, Bool.not_eq_true] at hdem
    refine ⟨hp'.symm, fun spec hs => .inr ⟨hp', ?_⟩, fun spec hs => .inr ⟨hp', ?_⟩⟩
    · simpa [hs] using hdem.1
    · simpa [hs] using hdem.2
  · rename_i hp
    have hp' : permits permitted name = true := by simpa using hp
    rw [hp']
    rcases hl : given? l name with _ | a
    · simp only [hl, Except.ok.injEq] at h
      subst h
      exact ⟨rfl, by simp, fun spec hs => .inl ⟨spec, by simp [hs], .inl rfl⟩⟩
    rcases hr : given? r name with _ | b
    · simp only [hl, hr, Except.ok.injEq] at h
      subst h
      exact ⟨rfl, fun spec hs => .inl ⟨spec, by simpa using hs, .inl rfl⟩, by simp⟩
    simp only [hl, hr, Option.some.injEq] at h ⊢
    cases hn : narrowArgumentSpec order (a.dict?.getD []) (b.dict?.getD []) with
    | error => simp [hn] at h
    | ok spec' =>
      rw [hn] at h; cases h
      obtain ⟨hkl, hkr⟩ := narrowArgumentSpec_keeps hn
      refine ⟨rfl, ?_, ?_⟩
      · rintro spec rfl; exact .inl ⟨spec', rfl, .inr hkl⟩
      · rintro spec rfl; exact .inl ⟨spec', rfl, .inr hkr⟩

theorem mergeArgumentSchemas_ok {schema : Option Dict} (h : mergeArgumentSchemas order l r permitted = .ok schema) :
    (given? l "arguments" = none ∧ given? r "arguments" = none ∧ schema = none) ∨
    ∃ ls rs merged, (given? l "arguments").getD (.dict []) = .dict ls ∧
      (given? r "arguments").getD (.dict []) = .dict rs ∧ schema = some merged ∧
      build (mergeSchemaEntry order permitted ls rs) (keyUnion order ls rs) = .ok merged := by
  unfold mergeArgumentSchemas at h
  split at h
  · rename_i hl hr; cases h; exact .inl ⟨hl, hr, rfl⟩
  split at h
  · rename_i ls rs hl hr
    obtain ⟨merged, hm, h⟩ := bind_ok_iff.1 h
    cases h
    exact .inr ⟨ls, rs, merged, Value.dict?_eq_some.1 hl, Value.dict?_eq_some.1 hr, rfl, hm⟩
  · cases h

theorem mem_sorted {xs : List String} {x : String} : x ∈ sorted xs ↔ x ∈ xs := mem_mergeSort

theorem requiredNames_ok {side : Dict} {names : Option (List String)} (h : requiredNames side = .ok names)
    (hn : name ∈ plannedRequired side) : ∃ ns, names = some ns ∧ name ∈ ns := by
  unfold requiredNames at h
  unfold plannedRequired at hn
  rcases hr : get? side "required" with _ | v
  · simp [hr] at hn
  rw [hr, Option.bind_some] at hn
  cases hi : v.items? with
  | none => simp [hi] at hn
  | some items =>
    have hg : given? side "required" = some v := given?_eq_some.2 ⟨hr, by rintro rfl; cases hi⟩
    simp only [hi, mem_filterMap] at hn
    simp only [hg, hi] at h
    cases hm : items.mapM Value.str? with
    | none => simp [hm] at h
    | some ns =>
      rw [hm] at h; cases h
      exact ⟨ns, rfl, ((mapM_some_mem hm).1 name).2 hn⟩

theorem mergeRequired_ok {required : Option (List String)} (h : mergeRequired l r permitted = .ok required) :
    (∀ name, name ∈ plannedRequired l ∨ name ∈ plannedRequired r → ∃ ns, required = some ns ∧ name ∈ ns) ∧
    ∀ ns, required = some ns → ∀ name ∈ ns, permits permitted name = true := by
  simp only [mergeRequired, bind_ok_iff] at h
  obtain ⟨lo, hl, ro, hr, h⟩ := h
  split at h
  · cases h
    refine ⟨?_, by simp⟩
    rintro name (hn | hn)
    · obtain ⟨ns, h, -⟩ := requiredNames_ok hl hn; cases h
    · obtain ⟨ns, h, -⟩ := requiredNames_ok hr hn; cases h
  · split at h <;> cases h
    rename_i hall
    refine ⟨?_, ?_⟩
    · rintro name (hn | hn)
      · obtain ⟨ns, rfl, hm⟩ := requiredNames_ok hl hn
        exact ⟨_, rfl, mem_sorted.2 (mem_dedup.2 (mem_append_left _ hm))⟩
      · obtain ⟨ns, rfl, hm⟩ := requiredNames_ok hr hn
        exact ⟨_, rfl, mem_sorted.2 (mem_dedup.2 (mem_append_right _ hm))⟩
    · rintro ns h name hname
      cases h
      exact all_eq_true.1 hall name (mem_sorted.1 hname)

/-- The merged set permits no name that either input refuses: every name it mentions passed the
intersected whitelist, and it admits others only when both inputs do. -/
theorem merged_permits (h : constraintIntersection order l r = .ok m)
    (hp : permits (permittedArgumentNames m) name = true) : permits (intersectPermittedNames l r) name = true := by
  obtain ⟨flat, schema, required, additional, hf, hs, hr, ha, hflat, hschema, hrequired, hflag⟩ :=
    constraintIntersection_ok h
  rw [permittedArgumentNames_eq, additional_eq hflag] at hp
  cases additional with
  | true =>
    unfold mergeAdditionalArguments at ha
    split at ha
    · cases ha
    · simp only [Except.ok.injEq, Bool.and_eq_true, Option.isNone_iff_eq_none] at ha
      simp [intersectPermittedNames, ha.1, ha.2, permits]
  | false =>
    simp only [Bool.false_eq_true, if_false, permits, contains_iff_mem, mem_append] at hp
    rcases hp with (hp | hp) | hp
    · obtain ⟨key, hkey, rfl⟩ := mem_map.1 hp
      obtain ⟨hkey, hk⟩ := mem_filter.1 hkey
      obtain ⟨v, hv⟩ := mem_keys_iff.1 hkey
      have hk : key ∉ reservedKeys := by simpa using hk
      rw [hflat key hk] at hv
      exact (mergeFlat_joined hk ((get?_build hf).1 hv).2).1
    · unfold schemaNames at hp
      rw [hschema] at hp
      rcases mergeArgumentSchemas_ok hs with ⟨-, -, rfl⟩ | ⟨ls, rs, merged, -, -, rfl, hb⟩
      · simp at hp
      · obtain ⟨v, hv⟩ := mem_keys_iff.1 hp
        exact (mergeSchemaEntry_ok ((get?_build hb).1 hv).2).1.symm
    · unfold plannedRequired at hp
      rw [hrequired] at hp
      cases required with
      | none => simp at hp
      | some ns =>
        refine (mergeRequired_ok hr).2 ns rfl name ?_
        simpa [Value.items?, Value.str?, mem_filterMap] using hp

theorem merged_required (h : constraintIntersection order l r = .ok m)
    (hn : name ∈ plannedRequired l ∨ name ∈ plannedRequired r) : name ∈ plannedRequired m := by
  obtain ⟨_, _, required, _, -, -, hr, -, -, -, hrequired, -⟩ := constraintIntersection_ok h
  obtain ⟨ns, rfl, hmem⟩ := (mergeRequired_ok hr).1 name hn
  unfold plannedRequired
  rw [hrequired]
  simpa [Value.items?, Value.str?, mem_filterMap] using hmem

theorem merged_flat (hwl : wellFormedLimits l = true) (hwr : wellFormedLimits r = true)
    (h : constraintIntersection order l r = .ok m) {key : String} (hk : key ∉ reservedKeys)
    (ha : get? l key = some a ∨ get? r key = some a) : ∃ v, get? m key = some v ∧ Tighter (flatRule key) v a := by
  obtain ⟨flat, _, _, _, hf, -, -, -, hflat, -⟩ := constraintIntersection_ok h
  obtain ⟨v, hv, ht⟩ := mergeFlat_tighter hwl hwr hk ((build_ok hf).1 key (mem_keyUnion_of ha)) ha
  exact ⟨v, (hflat key hk).trans hv, ht⟩

/-- Every specification of either side is kept in the merged schema, unless the merged whitelist
refuses its name and nothing demands it. -/
theorem merged_schema (h : constraintIntersection order l r = .ok m) {specs : Dict}
    (hside : get? l "arguments" = some (.dict specs) ∨ get? r "arguments" = some (.dict specs))
    (hspec : get? specs name = some (.dict spec)) : (∃ schema' spec', get? m "arguments" = some (.dict schema') ∧
      get? schema' name = some (.dict spec') ∧ (spec' = spec ∨ Keeps spec' spec)) ∨
    permits (intersectPermittedNames l r) name = false ∧ demandsArgument (.dict spec) = false := by
  obtain ⟨_, schema, _, _, -, hs, -, -, -, hschema, -, -⟩ := constraintIntersection_ok h
  have hgiven : given? l "arguments" = some (.dict specs) ∨ given? r "arguments" = some (.dict specs) :=
    hside.imp (fun h => given?_eq_some.2 ⟨h, by simp⟩) fun h => given?_eq_some.2 ⟨h, by simp⟩
  have hname : given? specs name = some (.dict spec) := given?_eq_some.2 ⟨hspec, by simp⟩
  rcases mergeArgumentSchemas_ok hs with ⟨hl, hr, -⟩ | ⟨ls, rs, merged, hl, hr, rfl, hb⟩
  · simp [hl, hr] at hgiven
  -- the side that holds `specs` is the side the loop read it from
  have hsides : specs = ls ∨ specs = rs := by
    rcases hgiven with hg | hg
    · rw [hg, Option.getD_some] at hl; cases hl; exact .inl rfl
    · rw [hg, Option.getD_some] at hr; cases hr; exact .inr rfl
  have hmem : name ∈ keyUnion order ls rs := mem_keyUnion_of (hsides.imp (fun h => h ▸ hspec) fun h => h ▸ hspec)
  obtain ⟨-, hleft, hright⟩ := mergeSchemaEntry_ok ((build_ok hb).1 name hmem)
  have hkept := hsides.elim (fun h => hleft spec (h ▸ hname)) fun h => hright spec (h ▸ hname)
  refine hkept.imp ?_ id
  rintro ⟨spec', hspec', hkeep⟩
  exact ⟨merged, spec', hschema, hspec', hkeep⟩

/-- A merged set keeps every demand of both inputs. -/
theorem constraintIntersection_keeps (hwl : wellFormedLimits l = true) (hwr : wellFormedLimits r = true)
    (h : constraintIntersection order l r = .ok m) : Narrows m l ∧ Narrows m r := by
  have hrefused : ∀ {name}, permits (intersectPermittedNames l r) name = false →
      permits (permittedArgumentNames m) name = false := fun {name} hp => by
    by_contra hc
    rw [merged_permits h (by simpa using hc)] at hp
    cases hp
  refine ⟨?_, ?_⟩
  · exact
      { names := fun name hp => (permits_intersect_iff.1 (merged_permits h hp)).1
        required := fun name hn => merged_required h (.inl hn)
        schema := fun specs name spec hs hspec => (merged_schema h (.inl hs) hspec).imp id (.imp hrefused id)
        flat := fun key a hk ha => merged_flat hwl hwr h hk (.inl ha) }
  · exact
      { names := fun name hp => (permits_intersect_iff.1 (merged_permits h hp)).2
        required := fun name hn => merged_required h (.inr hn)
        schema := fun specs name spec hs hspec => (merged_schema h (.inr hs) hspec).imp id (.imp hrefused id)
        flat := fun key a hk ha => merged_flat hwl hwr h hk (.inr ha) }

/-- Merging constraint sets only narrows: arguments that pass the merged set pass both inputs. -/
theorem constraintIntersection_narrows (env : Env) (order : SetOrder) (l r m arguments : Dict)
    (hvl : validateConstraints env (.dict l) = .ok ()) (hvr : validateConstraints env (.dict r) = .ok ())
    (hwl : wellFormedLimits l = true) (hwr : wellFormedLimits r = true)
    (hm : constraintIntersection order l r = .ok m) (h : checkConstraints env arguments m = .ok ()) :
    checkConstraints env arguments l = .ok () ∧ checkConstraints env arguments r = .ok () := by
  obtain ⟨hl, hr⟩ := constraintIntersection_keeps hwl hwr hm
  exact ⟨checkConstraints_of_narrows hvl hwl hl h, checkConstraints_of_narrows hvr hwr hr h⟩

def permitGrant : Dict :=
  [("max_amount", .int 100),
    ("arguments", .dict [("currency", .dict [("enum", .list [.str "EUR", .str "USD"]), ("required", .bool true)]),
      ("memo", .dict [("max_length", .int 20)])])]

def hostGrant : Dict :=
  [("max_amount", .int 50),
    ("arguments", .dict [("currency", .dict [("enum", .list [.str "USD", .str "GBP"]), ("type", .str "string")])])]

def mergedGrant : Dict :=
  [("max_amount", .int 50),
    ("arguments", .dict [("currency",
      .dict [("enum", .list [.str "USD"]), ("required", .bool true), ("type", .str "string")])])]

def payment : Dict := [("amount", .int 20), ("currency", .str "USD")]

def plainEnv : Env := ⟨id, id, fun _ => refuse "no URL", fun _ _ => .matched⟩

theorem constraintIntersection_narrows_payment :
    constraintIntersection .insertion permitGrant hostGrant = .ok mergedGrant ∧
    checkConstraints plainEnv payment mergedGrant = .ok () ∧
    checkConstraints plainEnv payment permitGrant = .ok () ∧ checkConstraints plainEnv payment hostGrant = .ok () :=
  have hm : constraintIntersection .insertion permitGrant hostGrant = .ok mergedGrant := rfl
  have hc : checkConstraints plainEnv payment mergedGrant = .ok () := by decide +kernel
  ⟨hm, hc, constraintIntersection_narrows plainEnv .insertion permitGrant hostGrant mergedGrant payment
    (by decide) (by decide) (by decide +kernel) (by decide +kernel) hm hc⟩

end Merged

end Portmark.Security
