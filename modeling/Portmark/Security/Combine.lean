/-
A merge, place by place. A limit stands under a flat key of a set or under a key of an argument's
specification. At every place the merge does the same: a limit that one side has stays, and of two it
keeps what `Limit.Kept` says, by the kind of the key. `of_merged` reads the limits of a merged set
off the two that were merged.
-/
import Portmark.Security.Names

namespace Portmark.Security

open Lib Assoc List

variable {key name : String} {v : Value}

/-! ## Limits by their place -/

inductive Limit where
  | flat (key : String)
  | spec (name key : String)

def specOf (c : Dict) (name : String) : Option Dict :=
  ((Assoc.get? c "arguments").bind Value.dict?).bind fun schema => (Assoc.get? schema name).bind Value.dict?

namespace Limit

def of (c : Dict) : Limit → Option Value
  | .flat key => if key ∈ reservedKeys then none else Assoc.get? c key
  | .spec name key => (specOf c name).bind fun spec => Assoc.get? spec key

def Kept (a b v : Value) : Limit → Prop
  | .flat key => jsonEqual a b = true ∧ a = v ∨ jsonEqual a b = false ∧
      ((after? "max_" key).isSome = true ∧ a.num?.isSome = true ∧ b.num?.isSome = true ∧ Value.min a b = v ∨
        (after? "allowed_" key).isSome = true ∧ Rule.listIntersection.Kept a b v)
  | .spec _ key => jsonEqual a b = true ∧ a = v ∨ jsonEqual a b = false ∧
      ∃ rule, specNarrower key = some rule ∧ rule.Kept a b v

def combine : Limit → Value → Value → Option Value
  | .flat key => combineFlat key
  | .spec _ key => fun a b => (specNarrower key).bind fun rule => narrow rule a b

variable {p : Limit} {a b : Value}

theorem combineFlat_eq_some_iff : combineFlat key a b = some v ↔
    (after? "max_" key).isSome = true ∧ a.num?.isSome = true ∧ b.num?.isSome = true ∧ Value.min a b = v ∨
      (after? "allowed_" key).isSome = true ∧ Rule.listIntersection.Kept a b v := by
  have hshared : sharedItems a b = some v ↔ Rule.listIntersection.Kept a b v := sharedItems_eq_some
  unfold combineFlat
  split
  · rename_i hmax
    simp only [Bool.and_eq_true] at hmax
    -- two numbers are no lists
    have hlists : ¬ Rule.listIntersection.Kept a b v := by
      rintro ⟨xs, ys, rfl, -⟩
      simp [Value.num?] at hmax
    simp [hmax, hlists]
  · rename_i hmax
    simp only [Bool.and_eq_true, not_and] at hmax
    rw [← hshared]
    constructor
    · intro h
      split at h
      · exact .inr ⟨‹_›, h⟩
      · cases h
    · rintro (⟨h1, h2, h3, -⟩ | ⟨hallowed, hk⟩)
      · exact absurd h3 (hmax ⟨h1, h2⟩)
      · rwa [if_pos hallowed]

theorem kept_iff : joinSides p.combine (some a) (some b) = some (some v) ↔ p.Kept a b v := by
  have hcombine : jsonEqual a b = false → (p.combine a b = some v ↔ p.Kept a b v) := by
    intro hne
    cases p with
    | flat => simp [combine, Kept, hne, combineFlat_eq_some_iff]
    | spec => simp [combine, Kept, hne, Option.bind_eq_some_iff, narrow_eq_some_iff]
  cases he : jsonEqual a b with
  | true => cases p <;> simp [joinSides, Kept, he]
  | false => simpa [joinSides, he] using hcombine he

theorem kept_of_join {w : Option Value} (h : joinSides p.combine (some a) (some b) = some w) :
    ∃ v, w = some v ∧ p.Kept a b v := by
  cases w with
  | some v => exact ⟨v, rfl, kept_iff.1 h⟩
  | none => cases he : jsonEqual a b <;> simp [joinSides, he] at h

theorem unkept_iff {x y : Option Value} : joinSides p.combine x y = none ↔
    ∃ a b, x = some a ∧ y = some b ∧ ∀ v, ¬ p.Kept a b v := by
  rcases x with _ | a
  · simp [joinSides]
  rcases y with _ | b
  · simp [joinSides]
  simp only [← kept_iff, Option.some.injEq, exists_and_left, exists_eq_left']
  cases he : jsonEqual a b <;> simp [joinSides, he, Option.eq_none_iff_forall_ne_some]

theorem narrowKey_eq_combine {l r : Dict} {rule : Rule} (hrule : specNarrower key = some rule) :
    narrowKey l r key =
      (joinSides (Limit.spec name key).combine (get? l key) (get? r key)).elim (.error key) .ok := by
  have hcombine : (Limit.spec name key).combine = narrow rule := by
    funext a b
    simp [combine, hrule]
  rw [hcombine, narrowKey_eq hrule]

end Limit

/-! ## Regular sets -/

def schemaOf (c : Dict) : Dict := ((given? c "arguments").bind Value.dict?).getD []

structure Regular (c : Dict) : Prop where
  schema : (given? c "arguments").getD (.dict []) = .dict (schemaOf c)
  specs : ∀ name v, Assoc.get? (schemaOf c) name = some v →
    ∃ spec, v = .dict spec ∧ ∀ key ∈ Assoc.keys spec, ∃ rule, specNarrower key = some rule
  required : ∃ names, requiredNames c = .ok names
  flag : malformedFlag c = false

section Sets

variable {env : Env} {c l r : Dict} {spec : Dict}

theorem specOf_eq_some : specOf c name = some spec ↔
    ∃ schema, get? c "arguments" = some (.dict schema) ∧ get? schema name = some (.dict spec) := by
  simp only [specOf, Option.bind_eq_some_iff, Value.dict?_eq_some]
  constructor
  · rintro ⟨schema, ⟨_, hs, rfl⟩, _, hspec, rfl⟩
    exact ⟨schema, hs, hspec⟩
  · rintro ⟨schema, hs, hspec⟩
    exact ⟨schema, ⟨_, hs, rfl⟩, _, hspec, rfl⟩

/-- The specification of an argument, read from the schema as the merge reads it. -/
theorem specOf_eq (c : Dict) (name : String) : specOf c name = (get? (schemaOf c) name).bind Value.dict? := by
  unfold specOf schemaOf given?
  rcases get? c "arguments" with _ | v
  · rfl
  cases v <;> rfl

theorem Regular.given (hl : Regular l) (name : String) : given? (schemaOf l) name = (specOf l name).map .dict := by
  rw [specOf_eq, given?]
  cases hs : Assoc.get? (schemaOf l) name with
  | none => rfl
  | some v =>
    obtain ⟨spec, rfl, -⟩ := hl.specs name v hs
    rfl

theorem Regular.known (hl : Regular l) (hs : specOf l name = some spec) :
    name ∈ Assoc.keys (schemaOf l) ∧ ∀ key ∈ Assoc.keys spec, ∃ rule, specNarrower key = some rule := by
  rw [specOf_eq] at hs
  obtain ⟨v, hv, hd⟩ := Option.bind_eq_some_iff.1 hs
  obtain ⟨spec', rfl, hknown⟩ := hl.specs name v hv
  cases hd
  exact ⟨mem_keys_iff.2 ⟨_, hv⟩, hknown⟩

theorem mapM_str?_of_nonEmpty : ∀ {xs : List Value} {names : List String}, nonEmptyStrings? xs = some names →
    xs.mapM Value.str? = some names
  | [], names, h => h
  | x :: xs, names, h => by
    simp only [nonEmptyStrings?, mapM_cons, Option.bind_eq_bind, Option.bind_eq_some_iff, Option.pure_def,
      Option.ite_none_left_eq_some, Option.some.injEq] at h
    obtain ⟨name, ⟨s, hs, -, rfl⟩, rest, hrest, rfl⟩ := h
    simp [mapM_cons, hs, mapM_str?_of_nonEmpty hrest]

theorem malformedFlag_eq_false {flag b : Bool}
    (h : (get? c "additional_arguments").getD (.bool flag) = .bool b) : malformedFlag c = false := by
  unfold malformedFlag given?
  cases ha : get? c "additional_arguments" with
  | none => rfl
  | some =>
    rw [ha, Option.getD_some] at h
    subst h
    rfl

/-- What `validate_constraints` accepts is regular. -/
theorem regular_of_valid (hv : validateConstraints env (.dict c) = .ok ()) : Regular c := by
  obtain ⟨⟨names, hn⟩, ⟨flag, hflag⟩, hschema⟩ := validateConstraints_ok hv
  have hknown : ∀ key ∈ argumentSpecKeys, ∃ rule, specNarrower key = some rule := by
    simp only [← Option.isSome_iff_exists]
    decide
  refine ⟨?_, fun name v hname => ?_, ?_, malformedFlag_eq_false hflag⟩
  · unfold schemaOf
    cases hg : given? c "arguments" with
    | none => rfl
    | some w =>
      obtain ⟨schema, rfl, -⟩ := hschema w hg
      rfl
  · unfold schemaOf at hname
    cases hg : given? c "arguments" with
    | none => simp [hg] at hname
    | some w =>
      obtain ⟨schema, rfl, hspecs⟩ := hschema w hg
      rw [hg] at hname
      obtain ⟨-, spec, hspec, hkeys⟩ := hspecs name v hname
      exact ⟨spec, hspec, fun key hkey => hknown key (hkeys key hkey)⟩
  · unfold requiredNames given?
    rw [requiredArguments_ok_iff] at hn
    cases hr : get? c "required" with
    | none => exact ⟨none, rfl⟩
    | some v =>
      rw [hr, Option.getD_some] at hn
      rcases hn with ⟨rfl, -⟩ | ⟨xs, hxs, hn⟩
      · exact ⟨none, rfl⟩
      · cases v <;> cases hxs <;> exact ⟨some names, by simp only [Value.items?, mapM_str?_of_nonEmpty hn]⟩

/-! ## The limits of a merged set -/

variable {order : SetOrder} {m : Dict}

/-- A loop over the keys of both sides that joins their limits. -/
theorem joinSides_build {ε : Type} {f : String → Except ε (Option Value)} {combine : Value → Value → Option Value}
    {d : Dict} (hb : build f (keyUnion order l r) = .ok d)
    (hf : ∀ w, f key = .ok w → joinSides combine (get? l key) (get? r key) = some w) :
    joinSides combine (get? l key) (get? r key) = some (get? d key) := by
  by_cases hmem : key ∈ keyUnion order l r
  · exact hf _ ((build_ok hb).1 key hmem)
  · rw [(build_ok hb).2 key hmem]
    rw [mem_keyUnion, not_or, not_exists, not_exists] at hmem
    rw [Option.eq_none_iff_forall_ne_some.2 hmem.1, Option.eq_none_iff_forall_ne_some.2 hmem.2]
    rfl

def joinSpecs (order : SetOrder) (name : String) : Option Dict → Option Dict → Except MergeFailure (Option Value)
  | some sl, some sr =>
    match narrowArgumentSpec order sl sr with
    | .ok spec => .ok (some (.dict spec))
    | .error failing => .error (.key s!"arguments.{name}.{failing}")
  | some sl, none => .ok (some (.dict sl))
  | none, some sr => .ok (some (.dict sr))
  | none, none => .ok (some .null)

variable (hl : Regular l) (hr : Regular r)

include hl hr

/-- A name that both sides permit: its specification is the one there is, or the two narrowed. -/
theorem mergeSchemaEntry_permitted {permitted : Option (List String)} (hp : permits permitted name = true) :
    mergeSchemaEntry order permitted (schemaOf l) (schemaOf r) name =
      joinSpecs order name (specOf l name) (specOf r name) := by
  simp only [mergeSchemaEntry, hl.given, hr.given, hp]
  cases specOf l name <;> cases specOf r name <;> rfl

/-- What a merged set holds at a place that both sides permit is what the two join to. -/
theorem of_merged {p : Limit} (h : constraintIntersection order l r = .ok m)
    (hp : ∀ name key, p = .spec name key → permits (intersectPermittedNames l r) name = true) :
    joinSides p.combine (p.of l) (p.of r) = some (p.of m) := by
  obtain ⟨flat, schema, _, _, hf, hs, -, -, hflat, hget, -, -⟩ := constraintIntersection_ok h
  cases p with
  | flat key =>
    by_cases hk : key ∈ reservedKeys
    · simp [Limit.of, hk, joinSides]
    simp only [Limit.of, hk, if_false, hflat key hk]
    refine joinSides_build hf fun w hw => ?_
    rwa [mergeFlat_eq hk (mergeFlat_joined hk hw).1, joinSides_ok_iff] at hw
  | spec name key =>
    simp only [Limit.of]
    rcases mergeArgumentSchemas_ok hs with ⟨hnl, hnr, rfl⟩ | ⟨ls, rs, merged, hls, hrs, rfl, hb⟩
    · have hm : specOf m name = none := by simp [specOf, hget]
      simp [hm, specOf_eq l, specOf_eq r, schemaOf, hnl, hnr, joinSides]
    rw [hl.schema] at hls
    rw [hr.schema] at hrs
    cases hls
    cases hrs
    have hspec : specOf m name = (get? merged name).bind Value.dict? := by simp [specOf, hget, Value.dict?]
    rw [hspec]
    by_cases hmem : name ∈ keyUnion order (schemaOf l) (schemaOf r)
    · have hok := (build_ok hb).1 name hmem
      rw [mergeSchemaEntry_permitted hl hr (hp name key rfl)] at hok
      cases hsl : specOf l name with
      | none =>
        cases hsr : specOf r name with
        | none | some =>
          rw [hsl, hsr] at hok
          rw [← Except.ok.inj hok]
          rfl
      | some sl =>
        cases hsr : specOf r name with
        | none =>
          rw [hsl, hsr] at hok
          rw [← Except.ok.inj hok]
          cases hkey : get? sl key <;> simp [joinSides, Value.dict?, hkey]
        | some sr =>
          rw [hsl, hsr, joinSpecs] at hok
          cases hn : narrowArgumentSpec order sl sr with
          | error => simp [hn] at hok
          | ok spec =>
            rw [hn] at hok
            rw [← Except.ok.inj hok]
            refine joinSides_build hn fun w hw => ?_
            obtain ⟨rule, hrule, -⟩ := narrowKey_joined hw
            rwa [Limit.narrowKey_eq_combine hrule, joinSides_ok_iff] at hw
    · rw [(build_ok hb).2 name hmem]
      rw [mem_keyUnion, not_or, not_exists, not_exists] at hmem
      rw [specOf_eq l, specOf_eq r, Option.eq_none_iff_forall_ne_some.2 hmem.1,
        Option.eq_none_iff_forall_ne_some.2 hmem.2]
      rfl

end Sets

end Portmark.Security
