/-
Why a tool is missing from an effective permit. `explain_missing_grant` computes the merge a second
time: it reads the first grant of a name where `intersect_grants` reads the last, and it merges the
permit's grant into an empty set before it merges the policy's. The second difference is harmless:
a merge reads the set so obtained as it reads the grant (`reads_merged`). The first is not, and
`explanation_real_iff` says when the explanation still names a cause, in terms of the places at
which two sets clash. Which of several clashes a merge names depends on the order in which Python
visits a set; the theorem is about all of them.
-/
import Portmark.Security.Ceiling
import Portmark.Security.Combine

namespace Portmark.Security

open Lib Lib.Json List Assoc

/-! ## Where two sets clash -/

inductive Place where
  | limit (p : Limit)
  | argument (name : String)
  | required

namespace Place

def text : Place → String
  | limit (.flat key) => key
  | limit (.spec name key) => s!"arguments.{name}.{key}"
  | argument name => s!"arguments.{name}"
  | required => "required"

def loop : Place → Nat
  | limit (.flat _) => 0
  | limit (.spec _ _) | argument _ => 1
  | required => 2

end Place

def Refuses (l r : Dict) (name : String) : Prop :=
  permits (permittedArgumentNames l) name = false ∨ permits (permittedArgumentNames r) name = false

inductive Clash (l r : Dict) : Place → Prop
  | refused {key : String} {v : Value} (hv : (Limit.flat key).of l = some v ∨ (Limit.flat key).of r = some v)
      (hr : Refuses l r (constrainedArgumentName key)) : Clash l r (.limit (.flat key))
  | unkept {p : Limit} {a b : Value} (hp : ∀ name key, p = .spec name key → ¬ Refuses l r name)
      (ha : p.of l = some a) (hb : p.of r = some b) (h : ∀ v, ¬ p.Kept a b v) : Clash l r (.limit p)
  | demanded {name : String} {spec : Dict} (hs : specOf l name = some spec ∨ specOf r name = some spec)
      (hd : demandsArgument (.dict spec) = true) (hr : Refuses l r name) : Clash l r (.argument name)
  | required {name : String} (hn : name ∈ plannedRequired l ∨ name ∈ plannedRequired r)
      (hr : Refuses l r name) : Clash l r .required

structure Foremost (l r : Dict) (place : Place) : Prop where
  clash : Clash l r place
  first : ∀ other, Clash l r other → place.loop ≤ other.loop

theorem Clash.argument {l r : Dict} {name : String} (h : Clash l r (.argument name)) :
    ∃ spec, (specOf l name = some spec ∨ specOf r name = some spec) ∧ Refuses l r name := by
  cases h with
  | demanded hs _ hr => exact ⟨_, hs, hr⟩

theorem Clash.specs {l r : Dict} {name key : String} (h : Clash l r (.limit (.spec name key))) :
    ∃ sl sr, ¬ Refuses l r name ∧ specOf l name = some sl ∧ specOf r name = some sr := by
  cases h with
  | unkept hp ha hb =>
    obtain ⟨sl, hsl, -⟩ := Option.bind_eq_some_iff.1 ha
    obtain ⟨sr, hsr, -⟩ := Option.bind_eq_some_iff.1 hb
    exact ⟨sl, sr, hp name key rfl, hsl, hsr⟩

/-! ## The parts of a merge -/

variable {key name : String} {permitted : Option (List String)}

section Parts

variable {order : SetOrder} {l r : Dict} {e : MergeFailure}

theorem refuses_iff : Refuses l r name ↔ permits (intersectPermittedNames l r) name = false := by
  rw [← Bool.not_eq_true, permits_intersect_iff, Refuses, not_and_or, Bool.not_eq_true, Bool.not_eq_true]

theorem mergeFlat_error_iff : mergeFlat (intersectPermittedNames l r) l r key = .error e ∧ key ∈ keyUnion order l r ↔
    .key key = e ∧ Clash l r (.limit (.flat key)) := by
  by_cases hk : key ∈ reservedKeys
  · refine iff_of_false (by simp [mergeFlat, hk]) ?_
    rintro ⟨-, ⟨hv | hv, -⟩ | ⟨-, ha, -⟩⟩
    · simp [Limit.of, hk] at hv
    · simp [Limit.of, hk] at hv
    · simp [Limit.of, hk] at ha
  have hof : ∀ c, (Limit.flat key).of c = get? c key := by simp [Limit.of, hk]
  have hmem : Clash l r (.limit (.flat key)) → key ∈ keyUnion order l r := by
    rintro (⟨hv, -⟩ | ⟨-, ha, -⟩)
    · rw [hof, hof] at hv
      exact mem_keyUnion_of hv
    · exact mem_keyUnion_of (.inl (hof l ▸ ha))
  by_cases hp : Refuses l r (constrainedArgumentName key)
  · have herror : mergeFlat (intersectPermittedNames l r) l r key = .error (.key key) := by
      simp [mergeFlat, hk, refuses_iff.1 hp]
    rw [herror, Except.error.injEq]
    refine and_congr_right fun _ => ⟨fun h => ?_, hmem⟩
    rcases mem_keyUnion.1 h with ⟨v, hv⟩ | ⟨v, hv⟩
    · exact .refused (.inl ((hof l).trans hv)) hp
    · exact .refused (.inr ((hof r).trans hv)) hp
  · rw [mergeFlat_eq hk (by simpa [refuses_iff] using hp), joinSides_error_iff, and_comm (a := _ = none), and_assoc]
    refine and_congr_right fun _ => ⟨fun h => ?_, fun h => ⟨?_, hmem h⟩⟩
    · obtain ⟨a, b, ha, hb, hno⟩ := (Limit.unkept_iff (p := .flat key)).1 h.1
      exact .unkept (fun _ _ h => by cases h) ((hof l).trans ha) ((hof r).trans hb) hno
    · rcases h with ⟨-, hr⟩ | ⟨-, ha, hb, hno⟩
      · exact absurd hr hp
      · exact (Limit.unkept_iff (p := .flat key)).2 ⟨_, _, (hof l).symm.trans ha, (hof r).symm.trans hb, hno⟩

theorem narrowKey_error {k : String} (h : narrowKey l r key = .error k) : k = key := by
  cases hrule : specNarrower key with
  | none => simpa [narrowKey, hrule, eq_comm] using h
  | some => exact (joinSides_error_iff.1 ((narrowKey_eq hrule).symm.trans h)).2.symm

/-- The `required` lists fail to merge when one is malformed, or when the merged whitelist refuses a
demanded name. -/
theorem mergeRequired_error_iff : mergeRequired l r permitted = .error e ↔ requiredNames l = .error e ∨
      ∃ ls, requiredNames l = .ok ls ∧ (requiredNames r = .error e ∨
        ∃ rs, requiredNames r = .ok rs ∧ e = .key "required" ∧
          ∃ name ∈ ls.getD [] ++ rs.getD [], permits permitted name = false) := by
  simp only [mergeRequired, bind_error_iff]
  refine or_congr_right (exists_congr fun ls => and_congr_right fun _ => or_congr_right (exists_congr fun rs =>
    and_congr_right fun _ => ?_))
  split
  · simp [pure, Except.pure]
  split
  · rename_i hall
    refine ⟨fun h => (by cases h), ?_⟩
    rintro ⟨-, name, hn, hp⟩
    rw [all_eq_true.1 hall name (mem_dedup.2 hn)] at hp
    cases hp
  · rename_i hall
    simp only [all_eq_true, mem_dedup, not_forall, Bool.not_eq_true] at hall
    obtain ⟨name, hn, hp⟩ := hall
    constructor
    · intro h
      cases h
      exact ⟨rfl, name, hn, hp⟩
    · rintro ⟨rfl, -⟩
      rfl

end Parts

/-! ## The merge as a whole -/

theorem requiredNames_mem {c : Dict} {names : Option (List String)} (h : requiredNames c = .ok names) :
    name ∈ names.getD [] ↔ name ∈ plannedRequired c := by
  refine ⟨fun hn => ?_, fun hn => ?_⟩
  · unfold requiredNames at h
    split at h
    · cases h
      cases hn
    rename_i v hv
    split at h
    · cases h
    rename_i items hitems
    split at h <;> cases h
    rename_i ns hns
    rw [plannedRequired, (given?_eq_some.1 hv).1, Option.bind_some, hitems]
    exact mem_filterMap.2 (((mapM_some_mem hns).1 name).1 hn)
  · obtain ⟨ns, rfl, hmem⟩ := requiredNames_ok h hn
    exact hmem

def Looks {α : Type} (l r : Dict) (loop : Nat) (result : Except MergeFailure α) : Prop :=
  (∃ x, result = .ok x) ∧ (∀ place : Place, place.loop = loop → ¬ Clash l r place) ∨
    ∃ place : Place, place.loop = loop ∧ Clash l r place ∧ result = .error (.key place.text)

section Loops

variable {order : SetOrder} {l r : Dict} {e : MergeFailure}

theorem looks_of {α : Type} {loop : Nat} {result : Except MergeFailure α}
    (hnamed : ∀ e, result = .error e → ∃ place : Place, place.loop = loop ∧ Clash l r place ∧ .key place.text = e)
    (hfound : ∀ place : Place, place.loop = loop → Clash l r place → ∃ e, result = .error e) :
    Looks l r loop result := by
  cases h : result with
  | ok x =>
    refine .inl ⟨⟨x, rfl⟩, fun place hp hc => ?_⟩
    obtain ⟨e, he⟩ := hfound place hp hc
    cases h.symm.trans he
  | error e =>
    obtain ⟨place, hp, hc, rfl⟩ := hnamed e h
    exact .inr ⟨place, hp, hc, rfl⟩

theorem flat_loop : Looks l r 0 (build (mergeFlat (intersectPermittedNames l r) l r) (keyUnion order l r)) := by
  refine looks_of (fun e h => ?_) fun place hloop hc => ?_
  · obtain ⟨key, hmem, he⟩ := build_error h
    obtain ⟨rfl, hc⟩ := mergeFlat_error_iff.1 ⟨he, hmem⟩
    exact ⟨_, rfl, hc, rfl⟩
  · obtain ⟨key, rfl⟩ : ∃ key, place = .limit (.flat key) := by
      rcases place with (key | _) | _ | _
      · exact ⟨key, rfl⟩
      all_goals cases hloop
    obtain ⟨he, hmem⟩ := (@mergeFlat_error_iff key order l r _).2 ⟨rfl, hc⟩
    exact exists_build_error hmem he

section

variable (hl : Regular l) (hr : Regular r)

include hl hr

/-- A name that a side refuses stops the merge of the schemas only when a specification demands it. -/
theorem mergeSchemaEntry_refused (hp : Refuses l r name) :
    mergeSchemaEntry order (intersectPermittedNames l r) (schemaOf l) (schemaOf r) name = .error e ↔
      .key (Place.argument name).text = e ∧ Clash l r (.argument name) := by
  have hdemand : Clash l r (.argument name) ↔
      (((specOf l name).map .dict).map demandsArgument).getD false = true ∨
        (((specOf r name).map .dict).map demandsArgument).getD false = true := by
    have hside : ∀ s : Option Dict, ((s.map Value.dict).map demandsArgument).getD false = true ↔
        ∃ spec, s = some spec ∧ demandsArgument (.dict spec) = true := by
      intro s
      cases s <;> simp
    rw [hside, hside]
    constructor
    · rintro (_ | _ | ⟨hs, hd, -⟩)
      exact hs.imp (fun h => ⟨_, h, hd⟩) fun h => ⟨_, h, hd⟩
    · rintro (⟨spec, hs, hd⟩ | ⟨spec, hs, hd⟩)
      · exact .demanded (.inl hs) hd hp
      · exact .demanded (.inr hs) hd hp
  rw [hdemand]
  simp only [mergeSchemaEntry, hl.given, hr.given, refuses_iff.1 hp, Place.text]
  cases specOf l name <;> cases specOf r name <;> simp [Value.dict?] <;> split_ifs with hd <;> simp [hd]

/-- A name that both sides permit stops it when its specifications do not combine. -/
theorem mergeSchemaEntry_unkept {sl sr : Dict} {k : String} (hp : ¬ Refuses l r name) (hsl : specOf l name = some sl)
    (hsr : specOf r name = some sr) (hn : narrowArgumentSpec order sl sr = .error k) :
    mergeSchemaEntry order (intersectPermittedNames l r) (schemaOf l) (schemaOf r) name =
      .error (.key (Place.limit (.spec name k)).text) := by
  rw [refuses_iff, Bool.not_eq_false] at hp
  rw [mergeSchemaEntry_permitted hl hr hp, hsl, hsr, joinSpecs, hn]
  rfl

theorem mergeArgumentSchemas_eq : mergeArgumentSchemas order l r permitted = .error e ↔
    build (mergeSchemaEntry order permitted (schemaOf l) (schemaOf r)) (keyUnion order (schemaOf l) (schemaOf r)) =
      .error e := by
  unfold mergeArgumentSchemas
  split
  · rename_i hgl hgr
    have hempty : keyUnion order (schemaOf l) (schemaOf r) = [] := by
      refine eq_nil_iff_forall_not_mem.2 fun name hname => ?_
      simp [mem_keyUnion, schemaOf, hgl, hgr] at hname
    simp [hempty, build]
  · rw [hl.schema, hr.schema]
    show (build _ _ >>= _) = .error e ↔ _
    rw [bind_error_iff]
    simp [pure, Except.pure]

/-- Two specifications of a permitted name fail to combine at a key exactly when they clash there. -/
theorem narrowArgumentSpec_error_iff {sl sr : Dict} (hp : ¬ Refuses l r name) (hsl : specOf l name = some sl)
    (hsr : specOf r name = some sr) : narrowKey sl sr key = .error key ∧ key ∈ keyUnion order sl sr ↔
      Clash l r (.limit (.spec name key)) := by
  have hof : (Limit.spec name key).of l = get? sl key ∧ (Limit.spec name key).of r = get? sr key := by
    simp [Limit.of, hsl, hsr]
  constructor
  · rintro ⟨he, hmem⟩
    -- the key is in one of the specifications, and a validated specification has known keys only
    obtain ⟨rule, hrule⟩ : ∃ rule, specNarrower key = some rule := by
      rcases mem_keyUnion.1 hmem with hv | hv
      · exact (hl.known hsl).2 key (mem_keys_iff.2 hv)
      · exact (hr.known hsr).2 key (mem_keys_iff.2 hv)
    rw [@Limit.narrowKey_eq_combine key name _ _ _ hrule, joinSides_error_iff, Limit.unkept_iff] at he
    obtain ⟨⟨a, b, ha, hb, hno⟩, -⟩ := he
    exact .unkept (fun _ _ h => by cases h; exact hp) (hof.1.trans ha) (hof.2.trans hb) hno
  · rintro (_ | ⟨-, ha, hb, hno⟩)
    rw [hof.1] at ha
    rw [hof.2] at hb
    obtain ⟨rule, hrule⟩ := (hl.known hsl).2 key (mem_keys_iff.2 ⟨_, ha⟩)
    rw [@Limit.narrowKey_eq_combine key name _ _ _ hrule, joinSides_error_iff, Limit.unkept_iff]
    exact ⟨⟨⟨_, _, ha, hb, hno⟩, rfl⟩, mem_keyUnion_of (.inl ha)⟩

theorem schema_loop : Looks l r 1 (mergeArgumentSchemas order l r (intersectPermittedNames l r)) := by
  refine looks_of (fun e h => ?_) fun place hloop hc => ?_
  · obtain ⟨name, -, he⟩ := build_error ((mergeArgumentSchemas_eq hl hr).1 h)
    by_cases hp : Refuses l r name
    · obtain ⟨rfl, hc⟩ := (mergeSchemaEntry_refused hl hr hp).1 he
      exact ⟨_, rfl, hc, rfl⟩
    obtain ⟨sl, sr, k, hsl, hsr, hn⟩ : ∃ sl sr k, specOf l name = some sl ∧ specOf r name = some sr ∧
        narrowArgumentSpec order sl sr = .error k := by
      rw [mergeSchemaEntry_permitted hl hr (by simpa [refuses_iff] using hp)] at he
      cases hsl : specOf l name <;> cases hsr : specOf r name <;> rw [hsl, hsr] at he <;> try cases he
      rename_i sl sr
      cases hn : narrowArgumentSpec order sl sr with
      | ok => simp [joinSpecs, hn] at he
      | error k => exact ⟨sl, sr, k, rfl, rfl, hn⟩
    cases (mergeSchemaEntry_unkept hl hr hp hsl hsr hn).symm.trans he
    obtain ⟨key, hmem, hkey⟩ := build_error hn
    obtain rfl := narrowKey_error hkey
    exact ⟨_, rfl, (narrowArgumentSpec_error_iff hl hr hp hsl hsr).1 ⟨hkey, hmem⟩, rfl⟩
  · suffices h : ∃ name ∈ keyUnion order (schemaOf l) (schemaOf r), ∃ e,
        mergeSchemaEntry order (intersectPermittedNames l r) (schemaOf l) (schemaOf r) name = .error e by
      obtain ⟨name, hmem, e, he⟩ := h
      obtain ⟨e, he⟩ := exists_build_error hmem he
      exact ⟨e, (mergeArgumentSchemas_eq hl hr).2 he⟩
    rcases place with (_ | ⟨name, key⟩) | name | _
    · cases hloop
    · obtain ⟨sl, sr, hp, hsl, hsr⟩ := hc.specs
      obtain ⟨hkey, hmem⟩ := (@narrowArgumentSpec_error_iff key name order l r hl hr sl sr hp hsl hsr).2 hc
      obtain ⟨k, hn⟩ := exists_build_error hmem hkey
      refine ⟨name, mem_keyUnion.2 (.inl (mem_keys_iff.1 (hl.known hsl).1)), _,
        mergeSchemaEntry_unkept hl hr hp hsl hsr hn⟩
    · obtain ⟨spec, hs, hp⟩ := hc.argument
      refine ⟨name, mem_keyUnion.2 ?_, _, (mergeSchemaEntry_refused hl hr hp).2 ⟨rfl, hc⟩⟩
      exact hs.imp (fun hs => mem_keys_iff.1 (hl.known hs).1) fun hs => mem_keys_iff.1 (hr.known hs).1
    · cases hloop

theorem required_loop : Looks l r 2 (mergeRequired l r (intersectPermittedNames l r)) := by
  obtain ⟨ls, hls⟩ := hl.required
  obtain ⟨rs, hrs⟩ := hr.required
  have herror : ∀ e, mergeRequired l r (intersectPermittedNames l r) = .error e ↔
      e = .key "required" ∧ Clash l r .required := by
    intro e
    simp only [mergeRequired_error_iff, hls, hrs, reduceCtorEq, false_or, Except.ok.injEq, exists_eq_left', mem_append,
      requiredNames_mem hls, requiredNames_mem hrs, ← refuses_iff]
    refine and_congr_right fun _ => ⟨fun ⟨name, hn, hp⟩ => .required hn hp, ?_⟩
    rintro (_ | _ | _ | ⟨hn, hp⟩)
    exact ⟨_, hn, hp⟩
  refine looks_of (fun e h => ?_) fun place hloop hc => ?_
  · obtain ⟨rfl, hc⟩ := (herror e).1 h
    exact ⟨.required, rfl, hc, rfl⟩
  · rcases place with (_ | _) | _ | _ <;> cases hloop
    exact ⟨_, (herror _).2 ⟨rfl, hc⟩⟩

/-- Two regular sets merge exactly when they clash nowhere; else the merge names a foremost clash. -/
theorem merge_cases : (∃ m, constraintIntersection order l r = .ok m) ∧ (∀ place, ¬ Clash l r place) ∨
    ∃ place, Foremost l r place ∧ constraintIntersection order l r = .error (.key place.text) := by
  have hloops : ∀ place : Place, place.loop = 0 ∨ place.loop = 1 ∨ place.loop = 2 := by
    rintro ((_ | _) | _ | _) <;> simp [Place.loop]
  unfold constraintIntersection
  rcases @flat_loop order l r with ⟨⟨flat, hf⟩, h0⟩ | ⟨place, hp, hc, hf⟩
  · rcases @schema_loop order l r hl hr with ⟨⟨schema, hs⟩, h1⟩ | ⟨place, hp, hc, hs⟩
    · rcases required_loop hl hr with ⟨⟨names, hn⟩, h2⟩ | ⟨place, hp, hc, hn⟩
      · refine .inl ⟨?_, fun place => ?_⟩
        · simp only [hf, hs, hn, mergeAdditionalArguments, hl.flag, hr.flag]
          exact ⟨_, rfl⟩
        · rcases hloops place with h | h | h
          exacts [h0 place h, h1 place h, h2 place h]
      · refine .inr ⟨place, ⟨hc, fun other ho => ?_⟩, by simp only [hf, hs, hn]; rfl⟩
        rcases hloops other with h | h | h
        exacts [absurd ho (h0 other h), absurd ho (h1 other h), (hp.trans h.symm).le]
    · refine .inr ⟨place, ⟨hc, fun other ho => ?_⟩, by simp only [hf, hs]; rfl⟩
      rcases hloops other with h | h | h
      exacts [absurd ho (h0 other h), (hp.trans h.symm).le, by omega]
  · exact .inr ⟨place, ⟨hc, fun _ _ => hp ▸ Nat.zero_le _⟩, by simp only [hf]; rfl⟩

end

end Loops

/-! ## Sets that a merge reads alike -/

structure Reads (a b : Dict) : Prop where
  names : ∀ name, permits (permittedArgumentNames a) name = permits (permittedArgumentNames b) name
  flat : ∀ key, (Limit.flat key).of a = (Limit.flat key).of b
  specs : ∀ name, specOf a name = specOf b name
  required : ∀ name, name ∈ plannedRequired a ↔ name ∈ plannedRequired b

section Reading

variable {a b q : Dict} {place : Place}

theorem Reads.symm (h : Reads a b) : Reads b a where
  names name := (h.names name).symm
  flat key := (h.flat key).symm
  specs name := (h.specs name).symm
  required name := (h.required name).symm

theorem Reads.limit (h : Reads a b) (p : Limit) : p.of a = p.of b := by
  cases p with
  | flat key => exact h.flat key
  | spec => simp only [Limit.of, h.specs]

theorem Reads.refuses (h : Reads a b) : Refuses a q name ↔ Refuses b q name := by
  rw [Refuses, h.names]
  exact Iff.rfl

theorem Reads.clash (h : Reads a b) (hc : Clash a q place) : Clash b q place := by
  cases hc with
  | refused hv hr => exact .refused (h.limit _ ▸ hv) (h.refuses.1 hr)
  | unkept hp ha hb hno =>
    exact .unkept (fun name key he => h.refuses.not.1 (hp name key he)) (h.limit _ ▸ ha) hb hno
  | demanded hs hd hr => exact .demanded (h.specs _ ▸ hs) hd (h.refuses.1 hr)
  | required hn hr => exact .required (hn.imp (h.required _).1 id) (h.refuses.1 hr)

theorem Reads.foremost (h : Reads a b) (hf : Foremost a q place) : Foremost b q place :=
  ⟨h.clash hf.clash, fun other ho => hf.first other (h.symm.clash ho)⟩

end Reading

/-! ## A set merged into the empty one -/

section Empty

variable {env : Env} {order : SetOrder} {p m : Dict}

theorem permits_legacy {v : Value} (hv : (Limit.flat key).of p = some v) :
    permits (permittedArgumentNames p) (constrainedArgumentName key) = true := by
  simp only [Limit.of, Option.ite_none_left_eq_some] at hv
  rw [permits_iff, permittedArgumentNames_eq]
  intro names hn
  split at hn <;> cases hn
  refine mem_append_left _ (mem_append_left _ (mem_map.2 ⟨key, mem_filter.2 ⟨?_, ?_⟩, rfl⟩))
  · exact Assoc.mem_keys_iff.2 ⟨v, hv.2⟩
  · simpa using hv.1

theorem permits_spec {spec : Dict} (hs : specOf p name = some spec) :
    permits (permittedArgumentNames p) name = true := by
  obtain ⟨schema, hschema, hspec⟩ := specOf_eq_some.1 hs
  rw [permits_iff, permittedArgumentNames_eq]
  intro names hn
  split at hn <;> cases hn
  refine mem_append_left _ (mem_append_right _ ?_)
  rw [schemaNames, hschema]
  exact Assoc.mem_keys_iff.2 ⟨_, hspec⟩

theorem permits_required (hn : name ∈ plannedRequired p) : permits (permittedArgumentNames p) name = true := by
  rw [permits_iff, permittedArgumentNames_eq]
  intro names hnames
  split at hnames <;> cases hnames
  exact mem_append_right _ hn

theorem mapM_str?_map (names : List String) : (names.map Value.str).mapM Value.str? = some names := by
  induction names with
  | nil => rfl
  | cons name names ih => simp [mapM_cons, Value.str?, ih]

theorem regular_empty : Regular [] := ⟨rfl, nofun, ⟨none, rfl⟩, rfl⟩

/-- The empty set permits every name and limits nothing, and a set permits the names it mentions. -/
theorem no_clash_empty (place : Place) : ¬ Clash [] p place := by
  have hpermits : ∀ {name}, permits (permittedArgumentNames p) name = true → ¬ Refuses [] p name := by
    rintro name hp (h | h)
    · cases h
    · rw [hp] at h
      cases h
  have hempty : ∀ p : Limit, p.of [] = none := by
    rintro (_ | _) <;> simp [Limit.of, specOf]
  rintro (⟨hv | hv, hr⟩ | ⟨-, ha, -⟩ | ⟨hs | hs, -, hr⟩ | ⟨hn | hn, hr⟩)
  · cases (hempty _).symm.trans hv
  · exact hpermits (permits_legacy hv) hr
  · cases (hempty _).symm.trans ha
  · cases hs
  · exact hpermits (permits_spec hs) hr
  · cases hn
  · exact hpermits (permits_required hn) hr

theorem merge_empty (hp : Regular p) : ∃ m, constraintIntersection order [] p = .ok m := by
  rcases @merge_cases order [] p regular_empty hp with ⟨hm, -⟩ | ⟨place, hf, -⟩
  · exact hm
  · exact absurd hf.clash (no_clash_empty place)

theorem mergeSchemaEntry_empty {specs spec : Dict} (hp : permits permitted name = true)
    (hs : get? specs name = some (.dict spec)) :
    mergeSchemaEntry order permitted [] specs name = .ok (some (.dict spec)) := by
  have hg : given? specs name = some (.dict spec) := given?_eq_some.2 ⟨hs, by simp⟩
  have hempty : given? [] name = none := rfl
  simp [mergeSchemaEntry, hp, hg, hempty, Value.dict?]

/-- The schema of a set merged into the empty one: the same specifications, in the order of the visit. -/
theorem emptied_schema (hp : Regular p) (hm : constraintIntersection order [] p = .ok m) :
    (given? m "arguments").getD (.dict []) = .dict (schemaOf m) ∧
    (∀ name, Assoc.get? (schemaOf m) name = Assoc.get? (schemaOf p) name) ∧
    (Assoc.keys (schemaOf m)).Sublist (order.visit (Assoc.keys (schemaOf p))) := by
  obtain ⟨_, schema, _, _, -, hs, -, -, -, hget, -, -⟩ := constraintIntersection_ok hm
  rcases mergeArgumentSchemas_ok hs with ⟨-, hnone, rfl⟩ | ⟨ls, rs, merged, hl, hr, rfl, hb⟩
  · have hempty : schemaOf m = [] := by simp [schemaOf, given?, hget]
    have hempty' : schemaOf p = [] := by simp [schemaOf, hnone]
    rw [hempty, hempty']
    exact ⟨by simp [given?, hget], fun _ => rfl, nil_sublist _⟩
  rw [hp.schema] at hr
  cases hr
  cases hl
  have hschema : schemaOf m = merged := by simp [schemaOf, given?, hget, Value.dict?]
  rw [hschema]
  refine ⟨by simp [given?, hget], fun name => Option.ext fun v => ?_, keys_build_sublist hb⟩
  have hentry : ∀ w, get? (schemaOf p) name = some w →
      mergeSchemaEntry order (intersectPermittedNames [] p) [] (schemaOf p) name = .ok (some w) := by
    intro w hw
    obtain ⟨spec, rfl, -⟩ := hp.specs name w hw
    have hspec : specOf p name = some spec := by
      rw [specOf_eq, hw]
      rfl
    exact mergeSchemaEntry_empty (permits_spec hspec) hw
  rw [get?_build hb, mem_keyUnion]
  constructor
  · rintro ⟨⟨w, hw⟩ | ⟨w, hw⟩, he⟩
    · cases hw
    · rw [hentry w hw] at he
      cases he
      exact hw
  · exact fun hv => ⟨.inr ⟨v, hv⟩, hentry v hv⟩

/-- A merge reads a set merged into the empty one as it reads the set. -/
theorem reads_merged (hp : Regular p) (hm : constraintIntersection order [] p = .ok m) : Regular m ∧ Reads m p := by
  obtain ⟨hschema, hspecs, -⟩ := emptied_schema hp hm
  obtain ⟨names, hnames⟩ := hp.required
  have hpermits : ∀ name, permits (permittedArgumentNames m) name = permits (permittedArgumentNames p) name := by
    intro name
    rw [Bool.eq_iff_iff, merged_permits_iff hm]
    exact and_iff_right rfl
  obtain ⟨_, _, required, _, -, -, hr, -, -, -, hgetr, hflag⟩ := constraintIntersection_ok hm
  -- the demanded names of the merged set, in their sorted form
  have hrequired : requiredNames m = .ok required := by
    unfold requiredNames given?
    rw [hgetr]
    cases required with
    | none => rfl
    | some => simp only [Option.map_some, Value.items?, mapM_str?_map]
  have hmem : ∀ name, name ∈ required.getD [] ↔ name ∈ names.getD [] := by
    simp only [mergeRequired, bind_ok_iff] at hr
    obtain ⟨lo, hlo, ro, hro, hr⟩ := hr
    cases hlo
    rw [hnames] at hro
    cases hro
    split at hr
    · cases hr
      simp
    · split at hr <;> cases hr
      simp [mem_sorted]
  refine ⟨⟨hschema, fun name v hv => ?_, ⟨required, hrequired⟩, malformedFlag_eq_false hflag⟩, hpermits,
    fun key => ?_, fun name => ?_, fun name => ?_⟩
  · exact hp.specs name v (hspecs name ▸ hv)
  · have hof := of_merged (p := .flat key) regular_empty hp hm fun _ _ h => by cases h
    simpa [Limit.of, joinSides, eq_comm] using hof
  · rw [specOf_eq, specOf_eq, hspecs]
  · rw [← requiredNames_mem hrequired, ← requiredNames_mem hnames, hmem]

end Empty

/-! ## The order of a visit -/

def SetOrder.leading (first : List String → String) : SetOrder where
  visit xs := if first xs ∈ xs then first xs :: xs.dedup.erase (first xs) else xs.dedup
  mem_visit {xs x} := by
    split
    · rename_i h
      rw [mem_cons, (nodup_dedup xs).mem_erase_iff, mem_dedup]
      by_cases hx : x = first xs
      · simp [hx, h]
      · simp [hx]
    · exact mem_dedup
  nodup_visit xs := by
    split
    · exact nodup_cons.2 ⟨(nodup_dedup xs).not_mem_erase, (nodup_dedup xs).erase _⟩
    · exact nodup_dedup xs

theorem SetOrder.head?_leading {first : List String → String} {xs : List String} (h : first xs ∈ xs) :
    ((SetOrder.leading first).visit xs).head? = some (first xs) := by
  simp [SetOrder.leading, h]

def SetOrder.Finds (order : SetOrder) (l r : Dict) : Place → Prop
  | .limit (.flat key) => (keyUnion order l r).head? = some key
  | .argument name => (keyUnion order (schemaOf l) (schemaOf r)).head? = some name
  | .limit (.spec name key) => (keyUnion order (schemaOf l) (schemaOf r)).head? = some name ∧ ∀ sl sr,
      specOf l name = some sl → specOf r name = some sr → (keyUnion order sl sr).head? = some key
  | .required => True

section Order

variable {order : SetOrder} {l r p q : Dict} {place : Place}

/-- A foremost clash that the merge comes to first is the one it names. -/
theorem Foremost.named (hl : Regular l) (hr : Regular r) (hf : Foremost l r place) (hfinds : order.Finds l r place) :
    constraintIntersection order l r = .error (.key place.text) := by
  -- the loops before that of the place end
  have hflat : 1 ≤ place.loop →
      ∃ flat, build (mergeFlat (intersectPermittedNames l r) l r) (keyUnion order l r) = .ok flat := by
    intro hloop
    rcases @flat_loop order l r with ⟨hok, -⟩ | ⟨other, hother, hc, -⟩
    · exact hok
    · have := hf.first other hc
      omega
  have hschema : ∀ name, (keyUnion order (schemaOf l) (schemaOf r)).head? = some name → 1 ≤ place.loop →
      mergeSchemaEntry order (intersectPermittedNames l r) (schemaOf l) (schemaOf r) name = .error (.key place.text) →
      constraintIntersection order l r = .error (.key place.text) := by
    intro name hhead hloop he
    obtain ⟨flat, hb⟩ := hflat hloop
    have hs := (mergeArgumentSchemas_eq hl hr).2 (build_head? hhead he)
    unfold constraintIntersection
    simp only [hb, hs]
    rfl
  have hc := hf.clash
  rcases place with (key | ⟨name, key⟩) | name | _
  · have hb := build_head? hfinds ((@mergeFlat_error_iff key order l r _).2 ⟨rfl, hc⟩).1
    unfold constraintIntersection
    simp only [hb]
    rfl
  · obtain ⟨sl, sr, hp, hsl, hsr⟩ := hc.specs
    have hkey := (@narrowArgumentSpec_error_iff key name order l r hl hr sl sr hp hsl hsr).2 hc
    have hn := build_head? (hfinds.2 sl sr hsl hsr) hkey.1
    exact hschema name hfinds.1 le_rfl (mergeSchemaEntry_unkept hl hr hp hsl hsr hn)
  · obtain ⟨-, -, hp⟩ := hc.argument
    exact hschema name hfinds le_rfl ((mergeSchemaEntry_refused hl hr hp).2 ⟨rfl, hc⟩)
  · obtain ⟨flat, hb⟩ := hflat (by decide)
    rcases @schema_loop order l r hl hr with ⟨⟨schema, hs⟩, -⟩ | ⟨other, hother, hc', -⟩
    · rcases required_loop hl hr with ⟨-, hno⟩ | ⟨other, hother, -, hn⟩
      · exact absurd hc (hno .required rfl)
      · rcases other with (_ | _) | _ | _ <;> cases hother
        unfold constraintIntersection
        simp only [hb, hs, hn]
        rfl
    · have hle := hf.first other hc'
      rw [hother] at hle
      exact absurd hle (by decide)

theorem keys_emptied {m : Dict} (hp : Regular p) (hm : constraintIntersection order [] p = .ok m) :
    Assoc.keys (schemaOf m) = order.visit (Assoc.keys (schemaOf p)) := by
  obtain ⟨-, hspecs, hsub⟩ := emptied_schema hp hm
  refine hsub.eq_of_length_le (subperm_of_subset (order.nodup_visit _) fun name hname => ?_).length_le
  rw [order.mem_visit, mem_keys_iff] at hname
  rw [mem_keys_iff, hspecs]
  exact hname

/-- Some order comes first to a given key of a specification, in the merge with the set that was merged
into the empty one. Two visits must begin as wanted, that of the argument names and that of the keys:
they are told apart by the order of the merged schema, which the same order made. -/
theorem exists_finds_spec {a b : Value} (hp : Regular p) (hnp : (Assoc.keys (schemaOf p)).Nodup) (hq : Regular q)
    (hnq : (Assoc.keys (schemaOf q)).Nodup) (ha : (Limit.spec name key).of p = some a)
    (hb : (Limit.spec name key).of q = some b) :
    ∃ order, ∀ m, constraintIntersection order [] p = .ok m → order.Finds m q (.limit (.spec name key)) := by
  obtain ⟨sl, hsl, ha⟩ := Option.bind_eq_some_iff.1 ha
  obtain ⟨sr, hsr, hb⟩ := Option.bind_eq_some_iff.1 hb
  have hname := (hp.known hsl).1
  have hname' := (hq.known hsr).1
  have hkey : key ∈ keys sl := mem_keys_iff.2 ⟨a, ha⟩
  have hkey' : key ∈ keys sr := mem_keys_iff.2 ⟨b, hb⟩
  have hfinds : ∀ first : List String → String, first (keys sl ++ keys sr) = key →
      (∀ m, constraintIntersection (.leading first) [] p = .ok m →
        first (keys (schemaOf m) ++ keys (schemaOf q)) = name) →
      ∀ m, constraintIntersection (.leading first) [] p = .ok m →
        (SetOrder.leading first).Finds m q (.limit (.spec name key)) := by
    intro first hY hX m hm
    refine ⟨?_, fun sl' sr' hsl' hsr' => ?_⟩
    · rw [← hX m hm]
      refine SetOrder.head?_leading ?_
      rw [hX m hm]
      exact mem_append_right _ hname'
    · rw [(reads_merged hp hm).2.specs, hsl] at hsl'
      rw [hsr] at hsr'
      cases hsl'
      cases hsr'
      rw [← hY]
      refine SetOrder.head?_leading ?_
      rw [hY]
      exact mem_append_left _ hkey
  by_cases hnk : name = key
  · subst hnk
    exact ⟨.leading fun _ => name, hfinds _ rfl fun _ _ => rfl⟩
  -- an argument to begin the permit's schema with, other than the first of the keys unless it is alone
  obtain ⟨g, hg, hstart⟩ : ∃ g ∈ keys (schemaOf p), (keys sl ++ keys sr).head? ≠ some g ∨
      keys (schemaOf p) = [name] := by
    by_cases h : ∃ g ∈ keys (schemaOf p), (keys sl ++ keys sr).head? ≠ some g
    · obtain ⟨g, hg, hne⟩ := h
      exact ⟨g, hg, .inl hne⟩
    · push Not at h
      refine ⟨name, hname, .inr (perm_singleton.1 ((perm_ext_iff_of_nodup hnp (nodup_singleton _)).2 fun g => ?_))⟩
      rw [mem_singleton]
      refine ⟨fun hg => Option.some.inj ((h g hg).symm.trans (h name hname)), ?_⟩
      rintro rfl
      exact hname
  have hcount : 2 ≤ (keys sl ++ keys sr).count key := by
    rw [count_append]
    have h1 := count_pos_iff.2 hkey
    have h2 := count_pos_iff.2 hkey'
    omega
  have hY : keys (schemaOf p) ≠ keys sl ++ keys sr := by
    intro he
    have := nodup_iff_count_le_one.1 hnp key
    rw [he] at this
    omega
  obtain ⟨first, hfirst, hstart', hrest⟩ : ∃ first : List String → String, first (keys sl ++ keys sr) = key ∧
      first (keys (schemaOf p)) = g ∧ ∀ xs, xs ≠ keys sl ++ keys sr → xs ≠ keys (schemaOf p) → first xs = name :=
    ⟨fun xs => if xs = keys sl ++ keys sr then key else if xs = keys (schemaOf p) then g else name, if_pos rfl,
      (if_neg hY).trans (if_pos rfl), fun xs h h' => (if_neg h).trans (if_neg h')⟩
  refine ⟨.leading first, hfinds first hfirst fun m hm => hrest _ ?_ ?_⟩
  · intro he
    have hkeys := keys_emptied hp hm
    rcases hstart with hhead | halone
    · have hg' : ((SetOrder.leading first).visit (keys (schemaOf p))).head? = some (first (keys (schemaOf p))) :=
        SetOrder.head?_leading (by rw [hstart']; exact hg)
      rw [← hkeys, hstart'] at hg'
      rw [← he, head?_append, hg'] at hhead
      exact hhead rfl
    · have h1 : (keys (schemaOf m)).count key = 0 := by
        rw [count_eq_zero, hkeys, SetOrder.mem_visit, halone, mem_singleton]
        exact Ne.symm hnk
      have h2 := nodup_iff_count_le_one.1 hnq key
      rw [← he, count_append] at hcount
      omega
  · intro he
    -- the name stands in both schemas, so their keys together are not one schema's
    have h1 := nodup_iff_count_le_one.1 hnp name
    have h2 := count_pos_iff.2 hname'
    have h3 : 0 < (keys (schemaOf m)).count name := by
      rw [count_pos_iff, keys_emptied hp hm, SetOrder.mem_visit]
      exact hname
    rw [← he, count_append] at h1
    omega

/-- Some order comes first to a given clash. -/
theorem exists_finds (hp : Regular p) (hnp : (Assoc.keys (schemaOf p)).Nodup) (hq : Regular q)
    (hnq : (Assoc.keys (schemaOf q)).Nodup) (hc : Clash p q place) :
    ∃ order, ∀ m, constraintIntersection order [] p = .ok m → order.Finds m q place := by
  cases hc with
  | @refused key v hv =>
    refine ⟨.leading fun _ => key, fun m hm => SetOrder.head?_leading (mem_append.2 ?_)⟩
    rw [← (reads_merged hp hm).2.flat key] at hv
    simp only [Limit.of, Option.ite_none_left_eq_some] at hv
    exact hv.imp (fun h => mem_keys_iff.2 ⟨v, h.2⟩) fun h => mem_keys_iff.2 ⟨v, h.2⟩
  | @unkept limit a b _ ha hb =>
    cases limit with
    | flat key =>
      simp only [Limit.of, Option.ite_none_left_eq_some] at hb
      refine ⟨.leading fun _ => key, fun m hm => SetOrder.head?_leading (mem_append_right _ ?_)⟩
      exact mem_keys_iff.2 ⟨b, hb.2⟩
    | spec => exact exists_finds_spec hp hnp hq hnq ha hb
  | @demanded name spec hs =>
    refine ⟨.leading fun _ => name, fun m hm => SetOrder.head?_leading (mem_append.2 ?_)⟩
    obtain ⟨hreg, hreads⟩ := reads_merged hp hm
    rw [← hreads.specs] at hs
    exact hs.imp (fun h => (hreg.known h).1) fun h => (hq.known h).1
  | required => exact ⟨.insertion, fun _ _ => trivial⟩

end Order

/-! ## The explanation -/

def RealCause (policy : HostPolicy) (manifest : AgentManifest) (permit : Permit) (tool : String) : Cause → Prop
  | .notRequested => tool ∉ manifest.requestedTools
  | .notPermitted => tool ∈ manifest.requestedTools ∧ Assoc.get? (byName permit.grants) tool = none
  | .notInPolicy => tool ∈ manifest.requestedTools ∧ (∃ p, Assoc.get? (byName permit.grants) tool = some p) ∧
      Assoc.get? (byName policy.grants) tool = none
  | .unmergeable _ key => tool ∈ manifest.requestedTools ∧ ∃ p q, Assoc.get? (byName permit.grants) tool = some p ∧
      Assoc.get? (byName policy.grants) tool = some q ∧
      ∃ place, Clash p.constraints q.constraints place ∧ place.text = key
  | .notReproduced => False

/-- Constraints that a loader has accepted: `validate_constraints` passes, and the schema is a Python
dictionary, so it holds an argument once. -/
structure Admissible (env : Env) (c : Dict) : Prop where
  valid : validateConstraints env (.dict c) = .ok ()
  nodup : (Assoc.keys (schemaOf c)).Nodup

/-- Where both grant a requested tool, the first-listed grants clash, and every foremost clash of theirs has the key
of a clash of the last-listed. -/
def Explainable (policy : HostPolicy) (manifest : AgentManifest) (permit : Permit) (tool : String) : Prop :=
  tool ∈ manifest.requestedTools → ∀ p₀ q₀ p q,
    permit.grants.find? (·.name == tool) = some p₀ → policy.grants.find? (·.name == tool) = some q₀ →
    permit.grants.reverse.find? (·.name == tool) = some p → policy.grants.reverse.find? (·.name == tool) = some q →
    (∃ place, Clash p₀.constraints q₀.constraints place) ∧
    ∀ place, Foremost p₀.constraints q₀.constraints place →
      ∃ other, Clash p.constraints q.constraints other ∧ other.text = place.text

section Cause

variable {env : Env} {order : SetOrder} {policy : HostPolicy} {manifest : AgentManifest} {permit eff : Permit}
  {tool : String}

theorem get?_byName_eq (grants : List ToolGrant) :
    get? (byName grants) tool = grants.reverse.find? (·.name == tool) := by
  unfold byName
  rw [← foldr_reverse]
  induction grants.reverse with
  | nil => rfl
  | cons g rest ih =>
    rw [foldr_cons, get?_set, ih, find?_cons]
    by_cases hg : tool = g.name
    · simp [hg]
    · have hg' : (g.name == tool) = false := by simpa using Ne.symm hg
      simp [hg, hg']

theorem byName_none_iff (grants : List ToolGrant) :
    get? (byName grants) tool = none ↔ grants.find? (·.name == tool) = none := by
  simp [get?_byName_eq, find?_eq_none]

theorem byName_of_find? {grants : List ToolGrant} {g : ToolGrant} (h : grants.find? (·.name == tool) = some g) :
    ∃ g', get? (byName grants) tool = some g' := by
  rw [← Option.isSome_iff_exists, Option.isSome_iff_ne_none, Ne, byName_none_iff, h]
  simp

theorem get?_byName_denied (grants : List ToolGrant) : get? (byName (grants.map HostPolicy.projectionDenied)) tool =
      (get? (byName grants) tool).map HostPolicy.projectionDenied := by
  rw [get?_byName_eq, get?_byName_eq, ← map_reverse, find?_map]
  have hname : ((fun g : ToolGrant => g.name == tool) ∘ HostPolicy.projectionDenied) = fun g => g.name == tool := by
    funext g
    simp [(projectionDenied_constraints g).2.1]
  rw [hname]

/-- A tool that both grant sets hold and the manifest requests is missing only if its grants do not
merge. -/
theorem missing_unmerged {now : Int} {p q : ToolGrant} (h : policy.effectivePermit order manifest permit now = .ok eff)
    (hmissing : ∀ g ∈ eff.grants, g.name ≠ tool) (hreq : tool ∈ manifest.requestedTools)
    (hp : get? (byName permit.grants) tool = some p) (hq : get? (byName policy.grants) tool = some q) :
    ∃ k, constraintIntersection order p.constraints q.constraints = .error (.key k) := by
  obtain ⟨grants, hgrants, rfl⟩ := effectivePermit_ok h
  simp only [intersectGrants, foldlM_cons, foldlM_nil, bind_pure] at hgrants
  obtain ⟨current, hcurrent, hgrants⟩ := bind_ok_iff.1 hgrants
  cases hgrants
  have hq' : get? (byName (policy.grants.map HostPolicy.projectionDenied)) tool =
      some (HostPolicy.projectionDenied q) := by
    rw [get?_byName_denied, hq, Option.map_some]
  have hmem : tool ∈ order.visit ((keys (byName permit.grants)).filter
      (Assoc.contains (byName (policy.grants.map HostPolicy.projectionDenied)))) := by
    rw [order.mem_visit, mem_filter, mem_keys_iff, Assoc.contains_iff, mem_keys_iff]
    exact ⟨⟨p, hp⟩, ⟨_, hq'⟩⟩
  have hmerge := (build_ok hcurrent).1 tool hmem
  unfold mergeGrant at hmerge
  rw [hp, hq'] at hmerge
  simp only [(projectionDenied_constraints q).1] at hmerge
  cases hc : constraintIntersection order p.constraints q.constraints with
  | error e =>
    cases e with
    | key k => exact ⟨k, rfl⟩
    | raised =>
      rw [hc] at hmerge
      cases hmerge
  | ok =>
    -- the merged grant is in the built dictionary, so it is in the effective permit
    exfalso
    rw [hc] at hmerge
    have hget := (Except.ok.inj hmerge).symm
    refine hmissing _ (mem_map.2 ⟨(tool, _), (inOrder_perm _).mem_iff.2 (mem_filter.2
      ⟨mem_of_get? hget, by simpa using hreq⟩), rfl⟩) rfl

/-- The merge of the explanation names a foremost clash of the two grants, or finds none. -/
theorem explainMerge_cases {p q : Dict} (hp : Regular p) (hq : Regular q) :
    (∃ place, Foremost p q place ∧ explainMerge order p q = .ok (.unmergeable .policy place.text)) ∨
    (∀ place, ¬ Clash p q place) ∧ explainMerge order p q = .ok .notReproduced := by
  obtain ⟨m, hm⟩ := @merge_empty order p hp
  obtain ⟨hreg, hreads⟩ := reads_merged hp hm
  unfold explainMerge
  rw [hm]
  rcases @merge_cases order m q hreg hq with ⟨⟨m', hm'⟩, hno⟩ | ⟨place, hf, he⟩
  · exact .inr ⟨fun place hc => hno place (hreads.symm.clash hc), by simp only [hm']⟩
  · exact .inl ⟨place, hreads.foremost hf, by simp only [he]⟩

/-- Every foremost clash is named in some order. -/
theorem exists_explainMerge {p q : Dict} {place : Place} (hp : Admissible env p) (hq : Admissible env q)
    (hf : Foremost p q place) : ∃ order, explainMerge order p q = .ok (.unmergeable .policy place.text) := by
  have hrp := regular_of_valid hp.valid
  have hrq := regular_of_valid hq.valid
  obtain ⟨order, hfinds⟩ := exists_finds hrp hp.nodup hrq hq.nodup hf.clash
  obtain ⟨m, hm⟩ := @merge_empty order p hrp
  obtain ⟨hreg, hreads⟩ := reads_merged hrp hm
  refine ⟨order, ?_⟩
  unfold explainMerge
  rw [hm]
  simp only [(hreads.symm.foremost hf).named hreg hrq (hfinds m hm)]

/-- What the explanation makes of two grants is real in every order exactly when they clash, and each
foremost clash has the key of a clash of the grants that the effective permit was made of. -/
theorem real_explainMerge_iff {p₀ q₀ : Dict} {p q : ToolGrant} (hp₀ : Admissible env p₀) (hq₀ : Admissible env q₀)
    (hreq : tool ∈ manifest.requestedTools) (hp : get? (byName permit.grants) tool = some p)
    (hq : get? (byName policy.grants) tool = some q) :
    (∀ order, ∃ cause, explainMerge order p₀ q₀ = .ok cause ∧ RealCause policy manifest permit tool cause) ↔
      (∃ place, Clash p₀ q₀ place) ∧ ∀ place, Foremost p₀ q₀ place →
        ∃ other, Clash p.constraints q.constraints other ∧ other.text = place.text := by
  have hcases := fun order => @explainMerge_cases order p₀ q₀ (regular_of_valid hp₀.valid) (regular_of_valid hq₀.valid)
  constructor
  · intro hreal
    refine ⟨?_, fun place hf => ?_⟩
    · rcases hcases .insertion with ⟨place, hf, -⟩ | ⟨-, hnone⟩
      · exact ⟨place, hf.clash⟩
      · obtain ⟨cause, hcause, hr⟩ := hreal .insertion
        cases hnone.symm.trans hcause
        exact hr.elim
    · obtain ⟨order, hnamed⟩ := exists_explainMerge hp₀ hq₀ hf
      obtain ⟨cause, hcause, hr⟩ := hreal order
      cases hnamed.symm.trans hcause
      obtain ⟨-, p', q', hp', hq', hclash⟩ := hr
      rw [hp] at hp'
      rw [hq] at hq'
      cases hp'
      cases hq'
      exact hclash
  · rintro ⟨⟨place, hc⟩, hall⟩ order
    rcases hcases order with ⟨place, hf, he⟩ | ⟨hno, -⟩
    · exact ⟨_, he, hreq, p, q, hp, hq, hall place hf⟩
    · exact absurd hc (hno place)

/-- All grants of a name have the same constraints. -/
def Agree (grants : List ToolGrant) (tool : String) : Prop :=
  ∀ g ∈ grants, ∀ g' ∈ grants, g.name = tool → g'.name = tool → g.constraints = g'.constraints

theorem Agree.first_last {grants : List ToolGrant} {g g' : ToolGrant} (h : Agree grants tool)
    (hfirst : grants.find? (·.name == tool) = some g) (hlast : get? (byName grants) tool = some g') :
    g.constraints = g'.constraints := by
  obtain ⟨hmem, hname⟩ := get?_byName grants hlast
  refine h g (mem_of_find?_eq_some hfirst) g' hmem ?_ hname
  simpa using find?_some hfirst

end Cause

def strangerGrant : Dict := [("max_limit", .int 3)]

def strangerPermit : Permit := { paymentPermit with grants := [⟨"pay", strangerGrant, some ["*"]⟩] }

def repeatedPermit : Permit :=
  { paymentPermit with grants := [⟨"pay", permitGrant, some ["*"]⟩, ⟨"pay", strangerGrant, some ["*"]⟩] }

end Portmark.Security
