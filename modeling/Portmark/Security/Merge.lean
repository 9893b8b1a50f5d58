/-
The constraint merge of security.py: `_narrow_argument_spec`, `_merge_argument_schemas`,
`_merge_required`, `_merge_additional_arguments` and `_constraint_intersection`. A merge gives
the merged set or the key that could not be combined. The loops over `left.keys() | right.keys()`
visit a Python set, so their order is a parameter (`SetOrder`): it decides which of several
failing keys is named, never the merged set.
-/
import Portmark.Security.Check

namespace Portmark.Security

open Lib

structure SetOrder where
  visit : List String → List String
  mem_visit : ∀ {xs : List String} {x : String}, x ∈ visit xs ↔ x ∈ xs
  nodup_visit : ∀ xs : List String, (visit xs).Nodup

def SetOrder.insertion : SetOrder :=
  ⟨fun xs => xs.reverse.dedup.reverse, by simp, fun xs => List.nodup_reverse.2 (List.nodup_dedup _)⟩

/-- `left.keys() | right.keys()`. -/
def keyUnion (order : SetOrder) (left right : Dict) : List String :=
  order.visit (Assoc.keys left ++ Assoc.keys right)

inductive MergeFailure where
  | key (failing : String)
  | raised (error : PyError)

/-! ## Names -/

/-- `_admits_any_argument`. -/
def admitsAnyArgument (constraints : Dict) : Bool :=
  match given? constraints "additional_arguments" with
  | none => !declaresArgumentPolicy constraints
  | some (.bool true) => true
  | some _ => false

/-- `_permitted_argument_names`, `none` when the set admits any name. -/
def permittedArgumentNames (constraints : Dict) : Option (List String) :=
  if admitsAnyArgument constraints then none
  else
    some (legacyConstrainedArguments constraints ++
      (match Assoc.get? constraints "arguments" with
        | some (.dict schema) => Assoc.keys schema
        | _ => []) ++
      (match (Assoc.get? constraints "required").bind Value.items? with
        | some items => items.filterMap Value.str?
        | none => []))

/-- `_intersect_permitted_names`. -/
def intersectPermittedNames (left right : Dict) : Option (List String) :=
  match permittedArgumentNames left, permittedArgumentNames right with
  | none, names => names
  | names, none => names
  | some l, some r => some (l.filter (r.contains ·))

/-- `permitted is None or name in permitted`. -/
def permits (permitted : Option (List String)) (name : String) : Bool :=
  match permitted with
  | none => true
  | some names => names.contains name

/-! ## Specifications -/

inductive Rule where
  | typeIntersection
  | identical
  | listIntersection
  | numericMax
  | numericMin
  | eitherTrue
deriving DecidableEq

/-- `_SPEC_NARROWERS`. -/
def specNarrower : String → Option Rule
  | "type" => some .typeIntersection
  | "const" => some .identical
  | "enum" => some .listIntersection
  | "minimum" => some .numericMax
  | "maximum" => some .numericMin
  | "min_length" => some .numericMax
  | "max_length" => some .numericMin
  | "pattern" => some .identical
  | "required" => some .eitherTrue
  | "scheme" => some .identical
  | "allowed_schemes" => some .listIntersection
  | "allowed_hosts" => some .listIntersection
  | "allowed_domains" => some .listIntersection
  | _ => none

def nonEmptyList : List Value → Option Value
  | [] => none
  | xs => some (.list xs)

def sharedItems : Value → Value → Option Value
  | .list ls, .list rs => nonEmptyList (ls.filter (jsonIn · rs))
  | _, _ => none

def narrow : Rule → Value → Value → Option Value
  | .identical, _, _ => none
  | .eitherTrue, l, r => some (.bool (l.truthy || r.truthy))
  | .numericMax, l, r => if l.isNumber && r.isNumber then some (Value.max l r) else none
  | .numericMin, l, r => if l.isNumber && r.isNumber then some (Value.min l r) else none
  | .listIntersection, l, r => sharedItems l r
  | .typeIntersection, l, r => nonEmptyList ((asTypeList l).filter fun item => (asTypeList r).any (Value.pyEqual item))

def narrowKey (left right : Dict) (key : String) : Except String (Option Value) :=
  match specNarrower key with
  | none => .error key
  | some rule =>
    match Assoc.get? left key, Assoc.get? right key with
    | none, r => .ok r
    | l, none => .ok l
    | some l, some r =>
      if jsonEqual l r then .ok (some l)
      else
        match narrow rule l r with
        | some v => .ok (some v)
        | none => .error key

/-- `_narrow_argument_spec`: the merged specification, or the failing key. -/
def narrowArgumentSpec (order : SetOrder) (left right : Dict) : Except String Dict :=
  Assoc.build (narrowKey left right) (keyUnion order left right)

/-! ## Schemas -/

/-- One name of two argument schemas: its merged specification, or `none` when the merged
whitelist refuses the name and neither side demands it. -/
def mergeSchemaEntry (order : SetOrder) (permitted : Option (List String)) (left right : Dict) (name : String) :
    Except MergeFailure (Option Value) :=
  let l := given? left name
  let r := given? right name
  if [l, r].any fun spec => (spec.map fun v => v.dict?.isNone).getD false then .error (.key s!"arguments.{name}")
  else if !permits permitted name then
    if (l.map demandsArgument).getD false || (r.map demandsArgument).getD false then .error (.key s!"arguments.{name}")
    else .ok none
  else
    match l, r with
    | none, r => .ok (some (r.getD .null))
    | some l, none => .ok (some l)
    | some l, some r =>
      match narrowArgumentSpec order (l.dict?.getD []) (r.dict?.getD []) with
      | .ok spec => .ok (some (.dict spec))
      | .error failing => .error (.key s!"arguments.{name}.{failing}")

/-- `_merge_argument_schemas`. -/
def mergeArgumentSchemas (order : SetOrder) (left right : Dict) (permitted : Option (List String)) :
    Except MergeFailure (Option Dict) :=
  match given? left "arguments", given? right "arguments" with
  | none, none => .ok none
  | l, r =>
    match (l.getD (.dict [])).dict?, (r.getD (.dict [])).dict? with
    | some l, some r => do
      let merged ← Assoc.build (mergeSchemaEntry order permitted l r) (keyUnion order l r)
      return some merged
    | _, _ => .error (.key "arguments")

/-! ## Required and additional names -/

def requiredNames (side : Dict) : Except MergeFailure (Option (List String)) :=
  match given? side "required" with
  | none => .ok none
  | some v =>
    match v.items? with
    | none => .error (.key "required")
    | some items =>
      match items.mapM Value.str? with
      | none => .error (.raised (.type "required names cannot be sorted"))
      | some names => .ok (some names)

/-- `_merge_required`. -/
def mergeRequired (left right : Dict) (permitted : Option (List String)) :
    Except MergeFailure (Option (List String)) := do
  let l ← requiredNames left
  let r ← requiredNames right
  match l, r with
  | none, none => return none
  | l, r =>
    let names := (l.getD [] ++ r.getD []).dedup
    if names.all (permits permitted) then return some (sorted names) else .error (.key "required")

def malformedFlag (side : Dict) : Bool :=
  match given? side "additional_arguments" with
  | none => false
  | some v => !v.isBool

/-- `_merge_additional_arguments`. -/
def mergeAdditionalArguments (left right : Dict) : Except MergeFailure Bool :=
  if malformedFlag left || malformedFlag right then .error (.key "additional_arguments")
  else .ok ((permittedArgumentNames left).isNone && (permittedArgumentNames right).isNone)

/-! ## Constraint sets -/

def mergeFlat (permitted : Option (List String)) (left right : Dict) (key : String) :
    Except MergeFailure (Option Value) :=
  if reservedKeys.contains key then .ok none
  else if !permits permitted (constrainedArgumentName key) then .error (.key key)
  else
    match Assoc.get? left key, Assoc.get? right key with
    | none, r => .ok r
    | l, none => .ok l
    | some l, some r =>
      if jsonEqual l r then .ok (some l)
      else if (after? "max_" key).isSome && l.num?.isSome && r.num?.isSome then .ok (some (Value.min l r))
      else if (after? "allowed_" key).isSome then
        match sharedItems l r with
        | some shared => .ok (some shared)
        | none => .error (.key key)
      else .error (.key key)

def unflagged (flat : Dict) (schema : Option Dict) (required : Option (List String)) : Dict :=
  flat ++
    (match schema with
      | some schema => [("arguments", .dict schema)]
      | none => []) ++
    (match required with
      | some names => [("required", .list (names.map .str))]
      | none => [])

def assemble (flat : Dict) (schema : Option Dict) (required : Option (List String)) (additional : Bool) : Dict :=
  let result := unflagged flat schema required
  if additional != !declaresArgumentPolicy result then result ++
    [("additional_arguments", .bool additional)] else result

/-- `_constraint_intersection`. -/
def constraintIntersection (order : SetOrder) (left right : Dict) : Except MergeFailure Dict := do
  let permitted := intersectPermittedNames left right
  let flat ← Assoc.build (mergeFlat permitted left right) (keyUnion order left right)
  let schema ← mergeArgumentSchemas order left right permitted
  let required ← mergeRequired left right permitted
  let additional ← mergeAdditionalArguments left right
  return assemble flat schema required additional

end Portmark.Security
