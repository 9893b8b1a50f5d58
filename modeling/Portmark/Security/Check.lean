/-
The constraint checker of security.py: `check_constraints` and `_check_argument_schema` with
everything they call, and the load-time check `validate_constraints`. What Python's `str` and
the `re` and `urllib.parse` modules compute is opaque (`Env`); a check passes when it returns
`.ok ()`.
-/
import Portmark.Security.Basic

namespace Portmark.Security

open Lib

/-! ## Python text -/

/-- What the checker reads of `urlparse(value)`. -/
structure Url where
  scheme : String
  hostname : Option String
  username : Option String
  password : Option String

/-- What `re.fullmatch` gives: a match, no match, or `re.error` for the pattern. -/
inductive FullMatch where
  | matched
  | unmatched
  | error
deriving DecidableEq

structure Env where
  repr : String → String
  lower : String → String
  urlparse : String → Except PyError Url
  fullmatch : String → String → FullMatch

/-- `s[len(p):]` when `s.startswith(p)`. -/
def after? (p s : String) : Option String :=
  if p.toList.isPrefixOf s.toList then some (String.ofList (s.toList.drop p.length)) else none

/-- `s.rstrip(".")`. -/
def rstripDots (s : String) : String := String.ofList ((s.toList.reverse.dropWhile (· == '.')).reverse)

/-- `s.endswith(p)`. -/
def endsWith (s p : String) : Bool := p.toList.isSuffixOf s.toList

/-- `sorted` of strings. -/
def sorted (xs : List String) : List String := xs.mergeSort fun a b => decide (a ≤ b)

/-- `str` of a list of strings. -/
def Env.reprList (env : Env) (xs : List String) : String := "[" ++ ", ".intercalate (xs.map env.repr) ++ "]"

/-- `spec.get(key)`, a null counting as absent. -/
def given? (spec : Dict) (key : String) : Option Value :=
  match Assoc.get? spec key with
  | some .null => none
  | v => v

/-! ## The names a constraint set mentions -/

/-- `RESERVED_CONSTRAINT_KEYS`. -/
def reservedKeys : List String := ["arguments", "required", "additional_arguments"]

/-- `_constrained_argument_name`: the argument a flat key constrains. -/
def constrainedArgumentName (key : String) : String :=
  match after? "max_" key with
  | some name => name
  | none =>
    match after? "allowed_" key with
    | some name => name
    | none => key

/-- `_legacy_constrained_arguments`. -/
def legacyConstrainedArguments (constraints : Dict) : List String :=
  ((Assoc.keys constraints).filter (!reservedKeys.contains ·)).map constrainedArgumentName

/-- `_declares_argument_policy`. -/
def declaresArgumentPolicy (constraints : Dict) : Bool :=
  (match Assoc.get? constraints "arguments" with
    | some (.dict schema) => !schema.isEmpty
    | _ => false) ||
  (match Assoc.get? constraints "required" with
    | some v => v.truthy
    | none => false) ||
  !(legacyConstrainedArguments constraints).isEmpty

/-- `all(isinstance(item, str) and item for item in value)`, with the strings. -/
def nonEmptyStrings? (xs : List Value) : Option (List String) :=
  xs.mapM fun v => v.str?.bind fun s => if s = "" then none else some s

/-- `_required_arguments`. -/
def requiredArguments (value : Value) : Except PyError (List String) :=
  match value with
  | .null => .ok []
  | v =>
    match v.items? with
    | none => refuse "required argument constraints must be a list"
    | some xs =>
      match nonEmptyStrings? xs with
      | none => refuse "required argument constraints must be non-empty strings"
      | some names => .ok names

/-! ## One argument against its specification -/

def typeMatches (value : Value) (item : String) : Bool :=
  match item, value with
  | "string", .str _ => true
  | "integer", .int _ => true
  | "number", .int _ => true
  | "number", .float _ => true
  | "boolean", .bool _ => true
  | "object", .dict _ => true
  | "array", .list _ => true
  | "null", .null => true
  | _, _ => false

/-- `_as_type_list`, the list a `type` limit stands for. -/
def asTypeList : Value → List Value
  | .list xs => xs
  | v => [v]

/-- `_matches_type`. -/
def matchesType (value expectedType : Value) : Except PyError Bool :=
  match (asTypeList expectedType).mapM Value.str? with
  | none => refuse "argument type constraints must be strings"
  | some types => .ok (types.any (typeMatches value))

section Spec

variable (env : Env) (name : String) (value : Value)

def checkType (spec : Dict) : Except PyError Unit :=
  match given? spec "type" with
  | none => .ok ()
  | some expected => do
    let matching ← matchesType value expected
    refuseIf (!matching) s!"argument {env.repr name} has invalid type"

def checkConst (spec : Dict) : Except PyError Unit :=
  match Assoc.get? spec "const" with
  | none => .ok ()
  | some expected => refuseIf (!jsonEqual value expected) s!"argument {env.repr name} does not match its required value"

def checkEnum (spec : Dict) : Except PyError Unit :=
  match given? spec "enum" with
  | none => .ok ()
  | some (.list (x :: xs)) =>
    refuseIf (!jsonIn value (x :: xs)) s!"argument {env.repr name} is outside its allowed set"
  | some _ => refuse s!"argument {env.repr name} enum constraint must be a non-empty list"

/-- A numeric bound: `limit` must be a finite number, `value` too, and not beyond it. -/
def checkBound (beyond : Value → Value → Bool) (malformed outside : String) : Option Value → Except PyError Unit
  | none => .ok ()
  | some limit => do
    let finite ← finiteNumber limit
    refuseIf (!finite) malformed
    let real ← finiteNumber value
    refuseIf (!real || beyond value limit) outside

def checkMinimum (spec : Dict) : Except PyError Unit :=
  checkBound value Value.lt s!"argument {env.repr name} minimum constraint must be numeric"
    s!"argument {env.repr name} is below its permitted minimum" (Assoc.get? spec "minimum")

def checkMaximum (spec : Dict) : Except PyError Unit :=
  checkBound value (fun v limit => Value.lt limit v) s!"argument {env.repr name} maximum constraint must be numeric"
    s!"argument {env.repr name} exceeds its permitted maximum" (Assoc.get? spec "maximum")

/-- A length bound: `limit` must be a non-negative integer, `value` a string of a length within it. -/
def checkLength (beyond : Int → Int → Bool) (malformed outside : String) : Option Value → Except PyError Unit
  | none => .ok ()
  | some (.int limit) => do
    refuseIf (decide (limit < 0)) malformed
    match value with
    | .str s => refuseIf (beyond s.length limit) outside
    | _ => refuse outside
  | some _ => refuse malformed

def checkMinLength (spec : Dict) : Except PyError Unit :=
  checkLength value (fun n limit => decide (n < limit))
    s!"argument {env.repr name} min_length constraint must be a non-negative integer"
    s!"argument {env.repr name} is shorter than its permitted minimum length" (Assoc.get? spec "min_length")

def checkMaxLength (spec : Dict) : Except PyError Unit :=
  checkLength value (fun n limit => decide (limit < n))
    s!"argument {env.repr name} max_length constraint must be a non-negative integer"
    s!"argument {env.repr name} exceeds its permitted maximum length" (Assoc.get? spec "max_length")

def checkPattern (spec : Dict) : Except PyError Unit :=
  match given? spec "pattern" with
  | none => .ok ()
  | some (.str pattern) =>
    match value with
    | .str s =>
      match env.fullmatch pattern s with
      | .matched => .ok ()
      | .unmatched => refuse s!"argument {env.repr name} does not match its required pattern"
      | .error => refuse s!"argument {env.repr name} pattern constraint is invalid"
    | _ => refuse s!"argument {env.repr name} does not match its required pattern"
  | some _ => refuse s!"argument {env.repr name} pattern constraint must be a string"

/-- `_non_empty_string_tuple`. -/
def nonEmptyStringTuple (v : Value) (label : String) : Except PyError (List String) :=
  match v.items? with
  | none => refuse s!"{label} must be a non-empty list"
  | some [] => refuse s!"{label} must be a non-empty list"
  | some xs =>
    match nonEmptyStrings? xs with
    | none => refuse s!"{label} entries must be non-empty strings"
    | some items => .ok items

/-- `_normalized_hosts`. -/
def normalizedHosts (v : Value) (label : String) : Except PyError (List String) := do
  let items ← nonEmptyStringTuple v label
  return items.map fun item => env.lower (rstripDots item)

def urlKeys : List String := ["scheme", "allowed_schemes", "allowed_hosts", "allowed_domains"]

def checkScheme (scheme : String) (spec : Dict) : Except PyError Unit :=
  match given? spec "scheme" with
  | none => .ok ()
  | some (.str expected) =>
    if expected = "" then refuse s!"argument {env.repr name} scheme constraint must be a non-empty string"
    else refuseIf (env.lower scheme != env.lower expected)
      s!"argument {env.repr name} URL scheme must be {env.lower expected}"
  | some _ => refuse s!"argument {env.repr name} scheme constraint must be a non-empty string"

def checkAllowedSchemes (scheme : String) (spec : Dict) : Except PyError Unit :=
  match given? spec "allowed_schemes" with
  | none => .ok ()
  | some v => do
    let schemes ← nonEmptyStringTuple v s!"argument {env.repr name} allowed_schemes"
    refuseIf (!(schemes.map env.lower).contains (env.lower scheme))
      s!"argument {env.repr name} URL scheme is outside its allowed set"

def checkAllowedHosts (host : String) (spec : Dict) : Except PyError Unit :=
  match given? spec "allowed_hosts" with
  | none => .ok ()
  | some v => do
    let hosts ← normalizedHosts env v s!"argument {env.repr name} allowed_hosts"
    refuseIf (!hosts.contains host) s!"argument {env.repr name} host is outside its allowed set"

def checkAllowedDomains (host : String) (spec : Dict) : Except PyError Unit :=
  match given? spec "allowed_domains" with
  | none => .ok ()
  | some v => do
    let domains ← normalizedHosts env v s!"argument {env.repr name} allowed_domains"
    refuseIf (!domains.any fun domain => host == domain || endsWith host ("." ++ domain))
      s!"argument {env.repr name} domain is outside its allowed set"

def absoluteUrl : Except PyError (String × String) :=
  match value with
  | .str s => do
    let parsed ← env.urlparse s
    match parsed.hostname with
    | none => refuse s!"argument {env.repr name} must be an absolute URL"
    | some hostname => do
      refuseIf (parsed.scheme == "" || hostname == "") s!"argument {env.repr name} must be an absolute URL"
      refuseIf (parsed.username.isSome || parsed.password.isSome) s!"argument {env.repr name} must not contain userinfo"
      return (parsed.scheme, env.lower (rstripDots hostname))
  | _ => refuse s!"argument {env.repr name} URL must be a string"

/-- `_check_url_constraints`. -/
def checkUrlConstraints (spec : Dict) : Except PyError Unit :=
  if urlKeys.any (Assoc.contains spec) then do
    let (scheme, host) ← absoluteUrl env name value
    checkScheme env name scheme spec
    checkAllowedSchemes env name scheme spec
    checkAllowedHosts env name host spec
    checkAllowedDomains env name host spec
  else .ok ()

/-- `_check_argument_schema`. -/
def checkArgumentSchema (spec : Dict) : Except PyError Unit := do
  checkType env name value spec
  checkConst env name value spec
  checkEnum env name value spec
  checkMinimum env name value spec
  checkMaximum env name value spec
  checkMinLength env name value spec
  checkMaxLength env name value spec
  checkPattern env name value spec
  checkUrlConstraints env name value spec

end Spec

/-! ## `check_constraints` -/

section Constraints

variable (env : Env) (arguments : Dict)

def checkPresent (name : String) : Except PyError Unit :=
  refuseIf (!Assoc.contains arguments name) s!"argument {env.repr name} is required"

/-- `spec.get("required") is True`. -/
def demandsArgument (spec : Value) : Bool :=
  match spec with
  | .dict spec =>
    match Assoc.get? spec "required" with
    | some (.bool true) => true
    | _ => false
  | _ => false

/-- One entry of the `arguments` schema. -/
def checkSchemaEntry (entry : String × Value) : Except PyError Unit :=
  if entry.1 = "" then refuse "argument constraint names must be non-empty strings"
  else
    match entry.2 with
    | .dict spec => do
      refuseIf (demandsArgument (.dict spec) && !Assoc.contains arguments entry.1)
        s!"argument {env.repr entry.1} is required"
      match Assoc.get? arguments entry.1 with
      | some value => checkArgumentSchema env entry.1 value spec
      | none => .ok ()
    | _ => refuse s!"argument {env.repr entry.1} constraint must be an object"

/-- The `arguments` schema: absent, or an object of specifications. -/
def checkSchema (schema : Option Value) : Except PyError Unit :=
  match schema with
  | none => .ok ()
  | some .null => .ok ()
  | some (.dict schema) => (Assoc.items schema).forM (checkSchemaEntry env arguments)
  | some _ => refuse "argument constraints must be an object"

/-- The names an `additional_arguments: false` set knows. -/
def knownArguments (constraints : Dict) (required : List String) : List String :=
  required ++ legacyConstrainedArguments constraints ++
    (match Assoc.get? constraints "arguments" with
      | some (.dict schema) => Assoc.keys schema
      | _ => [])

def checkFlat (entry : String × Value) : Except PyError Unit :=
  if reservedKeys.contains entry.1 then .ok ()
  else
    match after? "max_" entry.1 with
    | some argument => do
      let actual := (Assoc.get? arguments argument).getD .null
      let real ← finiteNumber actual
      refuseIf (!real) s!"argument {env.repr argument} exceeds its permitted maximum"
      let finite ← finiteNumber entry.2
      refuseIf (!finite || Value.lt entry.2 actual) s!"argument {env.repr argument} exceeds its permitted maximum"
    | none =>
      match after? "allowed_" entry.1 with
      | some argument =>
        match entry.2.items? with
        | none => refuse s!"{entry.1} constraint must be a list"
        | some items =>
          match Assoc.get? arguments argument with
          | none => refuse s!"argument {env.repr argument} is outside its allowed set"
          | some actual => refuseIf (!jsonIn actual items) s!"argument {env.repr argument} is outside its allowed set"
      | none =>
        match Assoc.get? arguments entry.1 with
        | none => refuse s!"argument {env.repr entry.1} does not match its required value"
        | some actual =>
          refuseIf (!jsonEqual actual entry.2) s!"argument {env.repr entry.1} does not match its required value"

/-- `check_constraints`. -/
def checkConstraints (constraints : Dict) : Except PyError Unit := do
  let required ← requiredArguments ((Assoc.get? constraints "required").getD (.tuple []))
  match (Assoc.get? constraints "additional_arguments").getD (.bool (!declaresArgumentPolicy constraints)) with
  | .bool additional => do
    required.forM (checkPresent env arguments)
    checkSchema env arguments (Assoc.get? constraints "arguments")
    refuseIf (!additional && (Assoc.keys arguments).any (!(knownArguments constraints required).contains ·))
      "tool arguments contain unsupported fields"
    (Assoc.items constraints).forM (checkFlat env arguments)
  | _ => refuse "additional_arguments constraint must be boolean"

end Constraints

/-! ## `validate_constraints` -/

/-- `_ARGUMENT_SPEC_KEYS`. -/
def argumentSpecKeys : List String :=
  ["type", "const", "enum", "minimum", "maximum", "min_length", "max_length", "pattern", "required", "scheme",
    "allowed_schemes", "allowed_hosts", "allowed_domains"]

def validateSpec (env : Env) (entry : String × Value) : Except PyError Unit :=
  if entry.1 = "" then refuse "argument constraint names must be non-empty strings"
  else
    match entry.2 with
    | .dict spec =>
      let unknown := ((Assoc.keys spec).filter (!argumentSpecKeys.contains ·)).dedup
      refuseIf (!unknown.isEmpty)
        s!"argument {env.repr entry.1} constraint has unknown keys: {env.reprList (sorted unknown)}"
    | _ => refuse s!"argument {env.repr entry.1} constraint must be an object"

def validateRequired : Option Value → Except PyError Unit
  | none => .ok ()
  | some v =>
    refuseIf ((v.items?.bind nonEmptyStrings?).isNone) "required constraint must be a list of non-empty strings"

def validateSchema (env : Env) : Option Value → Except PyError Unit
  | none => .ok ()
  | some (.dict schema) => (Assoc.items schema).forM (validateSpec env)
  | some _ => refuse "argument constraints must be an object"

/-- `validate_constraints`. -/
def validateConstraints (env : Env) (constraints : Value) : Except PyError Unit :=
  match constraints with
  | .dict constraints => do
    validateRequired (given? constraints "required")
    refuseIf (!((Assoc.get? constraints "additional_arguments").getD (.bool true)).isBool)
      "additional_arguments constraint must be boolean"
    validateSchema env (given? constraints "arguments")
  | _ => refuse "constraints must be an object"

end Portmark.Security
