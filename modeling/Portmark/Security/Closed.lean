/-
Merging keeps constraint sets well formed, so a merged set can be merged again: the permit of a run
that meets a second policy, or the authority ceiling of a migrated task, is itself the result of
merges. One lemma per kind of limit says that two well-formed limits combine to a well-formed one.
-/
import Portmark.Security.Ceiling

namespace Portmark.Security

open Lib Assoc Option

/-! ## Limits -/

theorem max_or (a b : Value) : Value.max a b = a ∨ Value.max a b = b := by
  rcases Value.max_eq a b with ⟨h, -⟩ | ⟨h, -⟩
  · exact .inl h
  · exact .inr h

theorem min_or (a b : Value) : Value.min a b = a ∨ Value.min a b = b := by
  rcases Value.min_eq a b with ⟨h, -⟩ | ⟨h, -⟩
  · exact .inl h
  · exact .inr h

theorem mapM_filter {f : Value → Option String} {xs : List Value} (p : Value → Bool) (h : (xs.mapM f).isSome = true) :
    ((xs.filter p).mapM f).isSome = true :=
  mapM_isSome_iff.2 fun x hx => mapM_isSome_iff.1 h x (List.mem_of_mem_filter hx)

theorem stringItems?_shared {a b v : Value} (ha : (stringItems? a).isSome = true) (h : sharedItems a b = some v) :
    (stringItems? v).isSome = true := by
  obtain ⟨ls, rs, rfl, rfl, hne, rfl⟩ := sharedItems_eq_some.1 h
  have hls : (nonEmptyStrings? ls).isSome = true := by
    unfold stringItems? at ha
    cases ls with
    | nil => simp [Value.items?] at ha
    | cons => simpa [Value.items?] using ha
  have hfilter := mapM_filter (jsonIn · rs) hls
  unfold stringItems?
  cases hf : ls.filter (jsonIn · rs) with
  | nil => exact absurd hf hne
  | cons =>
    rw [hf] at hfilter
    exact hfilter

theorem narrow_types {a b v : Value} (ha : wellFormedLimit "type" a = true) (hb : wellFormedLimit "type" b = true)
    (hne : jsonEqual a b = false) (h : narrow .typeIntersection a b = some v) : wellFormedLimit "type" v = true := by
  obtain ⟨hnil, rfl⟩ := nonEmptyList_eq_some.1 h
  have hstr : ((asTypeList a).mapM Value.str?).isSome = true := by
    cases a with
    | null =>
      -- a null type next to a real one shares nothing with it
      exfalso
      have hb' : ((asTypeList b).mapM Value.str?).isSome = true := by
        cases b with
        | null => simp [jsonEqual] at hne
        | _ => simpa [wellFormedLimit] using hb
      obtain ⟨ts, hts⟩ := isSome_iff_exists.1 hb'
      refine hnil (List.filter_eq_nil_iff.2 fun x hx hany => ?_)
      cases List.mem_singleton.1 (show x ∈ [Value.null] from hx)
      obtain ⟨y, hy, heq⟩ := List.any_eq_true.1 hany
      obtain ⟨t, ht⟩ := (mapM_some_mem hts).2 y hy
      rw [Value.str?_eq_some.1 ht] at heq
      simp [Value.pyEqual, Value.num?] at heq
    | _ => simpa [wellFormedLimit] using ha
  simpa [wellFormedLimit, asTypeList] using mapM_filter _ hstr

/-- Two different well-formed limits of one key combine to a well-formed limit. -/
theorem narrow_wellFormed {key : String} {rule : Rule} {a b v : Value} (hrule : specNarrower key = some rule)
    (ha : wellFormedLimit key a = true) (hb : wellFormedLimit key b = true) (hne : jsonEqual a b = false)
    (h : narrow rule a b = some v) : wellFormedLimit key v = true := by
  have hmax : ∀ P : Value → Bool, P a = true → P b = true → narrow .numericMax a b = some v → P v = true := by
    intro P hPa hPb hn
    simp only [narrow] at hn
    split at hn <;> cases hn
    rcases max_or a b with he | he <;> rw [he] <;> assumption
  have hmin : ∀ P : Value → Bool, P a = true → P b = true → narrow .numericMin a b = some v → P v = true := by
    intro P hPa hPb hn
    simp only [narrow] at hn
    split at hn <;> cases hn
    rcases min_or a b with he | he <;> rw [he] <;> assumption
  have hlist : (a = .null ∨ (stringItems? a).isSome = true) → narrow .listIntersection a b = some v →
      (stringItems? v).isSome = true := by
    rintro (rfl | hs) hn
    · simp [narrow, sharedItems] at hn
    · exact stringItems?_shared hs hn
  unfold specNarrower at hrule
  split at hrule <;> cases hrule
  · exact narrow_types ha hb hne h
  · simp [wellFormedLimit]
  · obtain ⟨ls, rs, rfl, rfl, hnil, rfl⟩ := sharedItems_eq_some.1 h
    simpa [wellFormedLimit] using hnil
  · exact hmax (wellFormedLimit "minimum") ha hb h
  · exact hmin (wellFormedLimit "maximum") ha hb h
  · exact hmax (wellFormedLimit "min_length") ha hb h
  · exact hmin (wellFormedLimit "max_length") ha hb h
  · simp [wellFormedLimit]
  · simp [wellFormedLimit]
  · simp [narrow] at h
  all_goals
    have hs := hlist (by cases a <;> first | exact .inl rfl | exact .inr (by simpa [wellFormedLimit] using ha)) h
    cases v <;> first | rfl | simpa [wellFormedLimit] using hs

/-! ## Specifications -/

theorem wellFormedSpec_iff {spec : Dict} : wellFormedSpec spec = true ↔
    ∀ key v, get? spec key = some v → wellFormedLimit key v = true := by
  unfold wellFormedSpec
  rw [List.all_eq_true]
  constructor
  · exact fun h key v hv => h (key, v) (mem_items_iff.2 hv)
  · rintro h ⟨key, v⟩ hm
    exact h key v (mem_items_iff.1 hm)

theorem narrowArgumentSpec_wellFormed {order : SetOrder} {l r m : Dict} (hl : wellFormedSpec l = true)
    (hr : wellFormedSpec r = true) (h : narrowArgumentSpec order l r = .ok m) :
    wellFormedSpec m = true ∧ ∀ key ∈ keys m, key ∈ argumentSpecKeys := by
  rw [wellFormedSpec_iff] at hl hr
  have hkey : ∀ key v, get? m key = some v →
      wellFormedLimit key v = true ∧ ∃ rule, specNarrower key = some rule := by
    intro key v hv
    obtain ⟨rule, hrule, hjoined⟩ := narrowKey_joined ((get?_build h).1 hv).2
    refine ⟨hjoined.preserves (hl key) (hr key) ?_, rule, hrule⟩
    exact fun a b ha hb hne hn => narrow_wellFormed hrule ha hb hne hn
  refine ⟨wellFormedSpec_iff.2 fun key v hv => (hkey key v hv).1, fun key hk => ?_⟩
  obtain ⟨v, hv⟩ := mem_keys_iff.1 hk
  obtain ⟨-, rule, hrule⟩ := hkey key v hv
  unfold specNarrower at hrule
  split at hrule <;> first | (cases hrule; done) | (simp [argumentSpecKeys])

/-! ## Constraint sets -/

structure SoundSpec (spec : Dict) : Prop where
  known : ∀ key ∈ Assoc.keys spec, key ∈ argumentSpecKeys
  limits : wellFormedSpec spec = true

def SoundSchema (schema : Dict) : Prop :=
  ∀ name w, Assoc.get? schema name = some w → name ≠ "" ∧ ∃ spec, w = .dict spec ∧ SoundSpec spec

/-- A constraint set that `validate_constraints` accepts and whose limits are well formed, read part
by part. -/
structure Sound (c : Dict) : Prop where
  required : ∀ v, given? c "required" = some v → (v.items?.bind nonEmptyStrings?).isSome = true
  flag : ((Assoc.get? c "additional_arguments").getD (.bool true)).isBool = true
  schema : ∀ v, given? c "arguments" = some v → ∃ schema, v = .dict schema ∧ SoundSchema schema
  flat : ∀ key v, key ∉ reservedKeys → Assoc.get? c key = some v → wellFormedFlat key v = true

variable {env : Env}

theorem sound_iff {c : Dict} : validateConstraints env (.dict c) = .ok () ∧ wellFormedLimits c = true ↔ Sound c := by
  simp only [validateConstraints, seq_ok_iff, refuseIf_ok_iff, Bool.not_eq_false', validateRequired_ok_iff,
    validateSchema_ok_iff, validateSpec_ok_iff]
  constructor
  · rintro ⟨⟨hreq, hflag, hschema⟩, hlimits⟩
    refine ⟨hreq, hflag, fun v hv => ?_, fun key v hk hv => wellFormedLimits_flat hlimits hk hv⟩
    obtain ⟨schema, rfl, hspecs⟩ := hschema v hv
    refine ⟨schema, rfl, fun name w hw => ?_⟩
    obtain ⟨hname, spec, rfl, hknown⟩ := hspecs name w hw
    exact ⟨hname, spec, rfl, hknown, wellFormedLimits_spec hlimits (given?_eq_some.1 hv).1 hw⟩
  · intro h
    refine ⟨⟨h.required, h.flag, fun v hv => ?_⟩, ?_⟩
    · obtain ⟨schema, rfl, hspecs⟩ := h.schema v hv
      refine ⟨schema, rfl, fun name w hw => ?_⟩
      obtain ⟨hname, spec, rfl, hs⟩ := hspecs name w hw
      exact ⟨hname, spec, rfl, hs.known⟩
    · simp only [wellFormedLimits, Bool.and_eq_true]
      constructor
      · rw [List.all_eq_true]
        rintro ⟨key, v⟩ hm
        by_cases hk : key ∈ reservedKeys
        · simp [hk]
        · simp [h.flat key v hk (mem_items_iff.1 hm)]
      · split
        · rename_i schema hs
          rw [List.all_eq_true]
          rintro ⟨name, w⟩ hm
          obtain ⟨schema', hd, hspecs⟩ := h.schema (.dict schema) (given?_eq_some.2 ⟨hs, by simp⟩)
          cases hd
          obtain ⟨-, spec, rfl, hspec⟩ := hspecs name w (mem_items_iff.1 hm)
          exact hspec.limits
        · rfl

section Merge

variable {order : SetOrder} {l r m : Dict} {permitted : Option (List String)}

theorem nonEmptyStrings?_of_ne {names : List String} (h : ∀ name ∈ names, name ≠ "") :
    (nonEmptyStrings? (names.map .str)).isSome = true := by
  rw [nonEmptyStrings?, mapM_isSome_iff]
  simpa [Value.str?] using h

theorem requiredNames_ne {side : Dict} {names : List String} (hs : Sound side)
    (h : requiredNames side = .ok (some names)) : ∀ name ∈ names, name ≠ "" := by
  unfold requiredNames at h
  rcases hg : given? side "required" with _ | v
  · simp [hg] at h
  have hv := hs.required v hg
  rcases hi : v.items? with _ | items
  · simp [hi] at hv
  simp only [hg, hi, bind_some] at h hv
  cases hm : items.mapM Value.str? with
  | none => simp [hm] at h
  | some =>
    rw [hm] at h
    cases h
    obtain ⟨good, hgood⟩ := isSome_iff_exists.1 hv
    rintro name hname rfl
    obtain ⟨x, hx, hstr⟩ := ((mapM_some_mem hm).1 "").1 hname
    obtain ⟨y, hy⟩ := (mapM_some_mem hgood).2 x hx
    simp [hstr] at hy

theorem mergeRequired_ne {required : List String} (hl : Sound l) (hr : Sound r)
    (h : mergeRequired l r permitted = .ok (some required)) : ∀ name ∈ required, name ≠ "" := by
  simp only [mergeRequired, bind_ok_iff] at h
  obtain ⟨lo, hlo, ro, hro, h⟩ := h
  split at h
  · cases h
  split at h <;> cases h
  intro name hname
  rcases List.mem_append.1 (List.mem_dedup.1 (mem_sorted.1 hname)) with hm | hm
  · cases lo with
    | none => simp at hm
    | some => exact requiredNames_ne hl hlo name hm
  · cases ro with
    | none => simp at hm
    | some => exact requiredNames_ne hr hro name hm

theorem Sound.schema_getD {c schema : Dict} (h : Sound c) (hs : (given? c "arguments").getD (.dict []) = .dict schema) :
    SoundSchema schema := by
  cases hg : given? c "arguments" with
  | none =>
    rw [hg, getD_none] at hs
    cases hs
    intro name w hw
    simp at hw
  | some v =>
    rw [hg, getD_some] at hs
    obtain ⟨schema', rfl, hspecs⟩ := h.schema v hg
    cases hs
    exact hspecs

theorem mergeSchemaEntry_sound {ls rs : Dict} {name : String} {w : Value} (hl : SoundSchema ls) (hr : SoundSchema rs)
    (hmem : name ∈ keyUnion order ls rs) (h : mergeSchemaEntry order permitted ls rs name = .ok (some w)) :
    name ≠ "" ∧ ∃ spec, w = .dict spec ∧ SoundSpec spec := by
  have hgiven : ∀ d : Dict, SoundSchema d → ∀ v, get? d name = some v → given? d name = some v := by
    intro d hd v hv
    obtain ⟨-, spec, rfl, -⟩ := hd name v hv
    exact given?_eq_some.2 ⟨hv, by simp⟩
  have hname : name ≠ "" := by
    rcases mem_keyUnion.1 hmem with ⟨v, hv⟩ | ⟨v, hv⟩
    · exact (hl name v hv).1
    · exact (hr name v hv).1
  refine ⟨hname, ?_⟩
  simp only [mergeSchemaEntry] at h
  split at h
  · cases h
  split at h
  · split at h <;> cases h
  cases hgl : given? ls name with
  | none =>
    rcases hgr : given? rs name with _ | b
    · rcases mem_keyUnion.1 hmem with ⟨v, hv⟩ | ⟨v, hv⟩
      · rw [hgiven ls hl v hv] at hgl; cases hgl
      · rw [hgiven rs hr v hv] at hgr; cases hgr
    simp only [hgl, hgr, Except.ok.injEq, Option.some.injEq, getD_some] at h
    subst h
    exact (hr name b (given?_eq_some.1 hgr).1).2
  | some a =>
    obtain ⟨-, sl, rfl, hsl⟩ := hl name a (given?_eq_some.1 hgl).1
    rcases hgr : given? rs name with _ | b
    · simp only [hgl, hgr, Except.ok.injEq, Option.some.injEq] at h
      exact ⟨sl, h.symm, hsl⟩
    obtain ⟨-, sr, rfl, hsr⟩ := hr name b (given?_eq_some.1 hgr).1
    simp only [hgl, hgr, Value.dict?, getD_some] at h
    cases hn : narrowArgumentSpec order sl sr with
    | error => simp [hn] at h
    | ok spec =>
      rw [hn] at h
      cases h
      obtain ⟨hlimits, hknown⟩ := narrowArgumentSpec_wellFormed hsl.limits hsr.limits hn
      exact ⟨spec, rfl, hknown, hlimits⟩

theorem mergeFlat_sound {key : String} {v : Value} (hl : Sound l) (hr : Sound r) (hk : key ∉ reservedKeys)
    (h : mergeFlat permitted l r key = .ok (some v)) : wellFormedFlat key v = true := by
  refine (mergeFlat_joined hk h).2.preserves (P := fun v => wellFormedFlat key v = true) (fun a => hl.flat key a hk)
    (fun b => hr.flat key b hk) fun a b hwa hwb hne h => ?_
  rw [combineFlat_rule hwa hwb, flatRule] at h
  unfold wellFormedFlat at hwa hwb ⊢
  split at h
  · rename_i hmax
    simp only [narrow] at h
    split at h <;> cases h
    rcases min_or a b with hmin | hmin <;> rw [hmin] <;> assumption
  · rename_i hmax
    split at h
    · obtain ⟨ls, rs, -, -, -, rfl⟩ := sharedItems_eq_some.1 h
      simp [hmax, Value.items?]
    · simp [narrow] at h

theorem constraintIntersection_sound (hl : Sound l) (hr : Sound r) (h : constraintIntersection order l r = .ok m) :
    Sound m := by
  obtain ⟨flat, schema, required, additional, hf, hs, hr', -, hflat, hschema, hrequired, hflag⟩ :=
    constraintIntersection_ok h
  constructor
  · intro v hv
    have hget := (given?_eq_some.1 hv).1
    rw [hrequired, map_eq_some_iff] at hget
    obtain ⟨names, rfl, rfl⟩ := hget
    simpa [Value.items?] using nonEmptyStrings?_of_ne (mergeRequired_ne hl hr hr')
  · cases hg : get? m "additional_arguments" with
    | none => rfl
    | some =>
      rw [hg, getD_some] at hflag
      rw [hflag]
      rfl
  · intro v hv
    have hget := (given?_eq_some.1 hv).1
    rw [hschema, map_eq_some_iff] at hget
    obtain ⟨merged, rfl, rfl⟩ := hget
    refine ⟨merged, rfl, fun name w hw => ?_⟩
    rcases mergeArgumentSchemas_ok hs with ⟨-, -, ⟨⟩⟩ | ⟨ls, rs, _, hls, hrs, ⟨⟩, hbuild⟩
    obtain ⟨hmem, hentry⟩ := (get?_build hbuild).1 hw
    exact mergeSchemaEntry_sound (hl.schema_getD hls) (hr.schema_getD hrs) hmem hentry
  · intro key v hk hv
    rw [hflat key hk] at hv
    exact mergeFlat_sound hl hr hk ((get?_build hf).1 hv).2

end Merge

/-! ## Grant sets -/

theorem wellFormed_iff {g : ToolGrant} : WellFormed env g ↔ Sound g.constraints :=
  (show WellFormed env g ↔ _ from ⟨fun h => ⟨h.valid, h.limits⟩, fun h => ⟨h.1, h.2⟩⟩).trans sound_iff

theorem FromBoth.wellFormed {order : SetOrder} {g l r : ToolGrant} (h : FromBoth order g l r)
    (hl : WellFormed env l) (hr : WellFormed env r) : WellFormed env g :=
  wellFormed_iff.2 (constraintIntersection_sound (wellFormed_iff.1 hl) (wellFormed_iff.1 hr) h.constraints)

end Portmark.Security
