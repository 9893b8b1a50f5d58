/-
Permits and the host policy of security.py and models.py: `intersect_grants`, `HostPolicy` with
`effective_permit`, `explain_missing_grant`, the approval decision and `authorize_migration`, and
`require_unexpired`. Times are epoch seconds; the clock is read by the caller.
-/
import Portmark.Lib.Json.Order
import Portmark.Security.Merge

namespace Portmark.Security

open Lib Lib.Json

inductive Fault where
  | py (error : PyError)
  | permitExpired (message : String)
  | taskCancelled
  | toolExecution (message : String) (cause : Option (String × String)) (code : Option String)
  | toolKilled (message : String)
  | clockRollback
  | floor (code message : String)
  | abandoned (operation : String)
  | outside (name : String)
deriving DecidableEq

/-- `raise SecurityError(message)`. -/
def Fault.security (message : String) : Fault := .py (.security message)

/-- `isinstance(error, SecurityError)`. -/
def Fault.isSecurity : Fault → Bool
  | .py (.security _) => true
  | .py _ => false
  | .abandoned _ => false
  | .outside _ => false
  | _ => true

/-- `type(error).__name__`. -/
def Fault.name : Fault → String
  | .py (.security _) => "SecurityError"
  | .py (.value _) => "ValueError"
  | .py (.type _) => "TypeError"
  | .py (.overflow _) => "OverflowError"
  | .permitExpired _ => "PermitExpiredError"
  | .taskCancelled => "TaskCancelledError"
  | .toolExecution _ _ _ => "ToolExecutionError"
  | .toolKilled _ => "ToolKilledError"
  | .clockRollback => "ClockRollbackError"
  | .floor _ _ => "FloorError"
  | .abandoned _ => "RunAbandoned"
  | .outside name => name

/-- `str(error)`, where the host reads it. -/
def Fault.message : Fault → String
  | .py (.security message) => message
  | .py (.value message) => message
  | .py (.type message) => message
  | .py (.overflow message) => message
  | .permitExpired message => message
  | .taskCancelled => "task is cancelled"
  | .toolExecution message _ _ => message
  | .toolKilled message => message
  | .clockRollback => "the trusted clock cannot be read"
  | .floor _ message => message
  | .abandoned operation => s!"run abandoned at the shutdown grace deadline; {operation} not started"
  | .outside name => name

/-- `if not c: raise SecurityError(message)`. -/
def require (c : Bool) (message : String) : Except Fault Unit := if c then .ok () else .error (.security message)

@[simp] theorem require_ok_iff {c : Bool} {message : String} {u : Unit} : require c message = .ok u ↔ c = true := by
  unfold require
  cases c <;> simp

/-! ## Grants, budgets, permits -/

structure ToolGrant where
  name : String
  constraints : Dict
  outputProjection : Option (List String)

structure ResourceBudget where
  maxSteps : Int
  maxToolCalls : Int
  maxOutputBytes : Int
deriving DecidableEq

/-- `ResourceBudget.intersect`. -/
def ResourceBudget.intersect (a b : ResourceBudget) : ResourceBudget :=
  ⟨min a.maxSteps b.maxSteps, min a.maxToolCalls b.maxToolCalls, min a.maxOutputBytes b.maxOutputBytes⟩

structure AgentManifest where
  agentId : String
  version : String
  provider : String
  requestedTools : List String
  componentDigest : String
deriving DecidableEq

/-- A permit; its attestation evidence as `asdict` gives it, or null. -/
structure Permit where
  issuer : String
  subject : String
  audience : String
  expiresAt : Int
  nonce : String
  grants : List ToolGrant
  budget : ResourceBudget
  delegationAllowed : Bool
  attestation : Value

/-- `_projection_intersection`. -/
def projectionIntersection : Option (List String) → Option (List String) → Option (List String)
  | none, right => right
  | left, none => left
  | some left, some right =>
    if left.isEmpty || right.isEmpty then some []
    else if left.contains "*" then some right
    else if right.contains "*" then some left
    else some (left.filter (right.contains ·))

/-- `{grant.name: grant for grant in grants}`. -/
def byName (grants : List ToolGrant) : Assoc ToolGrant := grants.foldl (fun d g => Assoc.set d g.name g) []

def mergeGrant (order : SetOrder) (current incoming : Assoc ToolGrant) (name : String) :
    Except Fault (Option ToolGrant) :=
  match Assoc.get? current name, Assoc.get? incoming name with
  | some l, some r =>
    match constraintIntersection order l.constraints r.constraints with
    | .ok constraints => .ok (some ⟨name, constraints, projectionIntersection l.outputProjection r.outputProjection⟩)
    | .error (.key _) => .ok none
    | .error (.raised error) => .error (.py error)
  | _, _ => .ok none

def mergeGrants (order : SetOrder) (current : Assoc ToolGrant) (grants : List ToolGrant) :
    Except Fault (Assoc ToolGrant) :=
  Assoc.build (mergeGrant order current (byName grants))
    (order.visit ((Assoc.keys current).filter (Assoc.contains (byName grants))))

/-- `intersect_grants`: `allow` is the manifest's name filter. -/
def intersectGrants (order : SetOrder) (grantSets : List (List ToolGrant)) (allow : Option (List String)) :
    Except Fault (List ToolGrant) :=
  match grantSets with
  | [] => .ok []
  | first :: rest => do
    let current ← rest.foldlM (mergeGrants order) (byName first)
    let current := match allow with
      | none => current
      | some names => current.filter fun entry => names.contains entry.1
    return (inOrder current).map Prod.snd

/-! ## Expiry -/

/-- `require_unexpired`, at the time `now`. -/
def requireUnexpired (permit : Permit) («where» : String) (now : Int) : Except Fault Unit :=
  if permit.expiresAt ≤ now then .error (.permitExpired ("permit has expired (" ++ «where» ++ ")")) else .ok ()

/-! ## The host policy -/

structure MigrationPolicy where
  allowed : Bool
  destinations : List String

structure TrustedApprover where
  keyId : String
  approver : String
  publicKey : String
  notBefore : Int
  expiresAt : Option Int
  revoked : Bool

/-- `_policy_grant_denies_unnamed_arguments`. -/
def policyGrantDeniesUnnamedArguments (grant : ToolGrant) : ToolGrant :=
  if Assoc.contains grant.constraints "additional_arguments" || declaresArgumentPolicy grant.constraints then grant
  else { grant with constraints := Assoc.set grant.constraints "additional_arguments" (.bool false) }

/-- A host policy. `declared` are the grants as the policy file gives them. -/
structure HostPolicy where
  audience : String
  declared : List ToolGrant
  budget : ResourceBudget
  policyVersion : String
  policyHash : String
  toolImpacts : Assoc String
  approvalAuthorities : List TrustedApprover
  approvalRequiredImpacts : List String
  migration : MigrationPolicy
  implicitImpacts : List String

namespace HostPolicy

/-- `self.grants`: a grant that names no argument admits none. -/
def grants (policy : HostPolicy) : List ToolGrant := policy.declared.map policyGrantDeniesUnnamedArguments

def projectionDenied (grant : ToolGrant) : ToolGrant :=
  match grant.outputProjection with
  | some _ => grant
  | none => { grant with outputProjection := some [] }

/-- `effective_permit`, at the time `now`. -/
def effectivePermit (order : SetOrder) (policy : HostPolicy) (manifest : AgentManifest) (permit : Permit) (now : Int) :
    Except Fault Permit := do
  require (permit.subject == manifest.agentId) "permit subject does not match agent"
  require (permit.audience == policy.audience) "permit is not intended for this host"
  requireUnexpired permit "at admission" now
  let grants ← intersectGrants order [permit.grants, policy.grants.map projectionDenied] (some manifest.requestedTools)
  return { permit with grants, budget := permit.budget.intersect policy.budget, delegationAllowed := false }

/-- `authorize_migration`. -/
def authorizeMigration (env : Env) (policy : HostPolicy) (permit : Permit) (destination : String) :
    Except Fault Unit := do
  require permit.delegationAllowed "permit does not allow migration"
  require policy.migration.allowed "host policy does not allow migration"
  require (policy.migration.destinations.contains destination)
    ("host policy does not allow migration to " ++ env.repr destination)

/-- `impact_for_tool`. -/
def impactForTool (policy : HostPolicy) (tool : String) : String := (Assoc.get? policy.toolImpacts tool).getD "low"

/-- `requires_approval`. -/
def requiresApproval (policy : HostPolicy) (tool : String) : Bool :=
  policy.approvalRequiredImpacts.contains (policy.impactForTool tool)

/-- `impact_for`: a side-effecting tool with no explicit impact is `high`. -/
def impactFor (policy : HostPolicy) (tool : String) (sideEffecting : Bool) : String :=
  if sideEffecting && policy.implicitImpacts.contains tool then "high" else policy.impactForTool tool

/-- `requires_approval_for`. -/
def requiresApprovalFor (policy : HostPolicy) (tool : String) (sideEffecting : Bool) : Bool :=
  policy.approvalRequiredImpacts.contains (policy.impactFor tool sideEffecting)

/-- `self._approval_authorities.get(key_id)`: the last authority of a key id counts. -/
def approvalAuthority (policy : HostPolicy) (keyId : String) : Option TrustedApprover :=
  policy.approvalAuthorities.reverse.find? fun authority => authority.keyId == keyId

end HostPolicy

/-- `{sorted(names) or 'none'}`. -/
def namesOrNone (env : Env) (names : List String) : String :=
  if names.isEmpty then "none" else env.reprList (sorted names)

def unmergeable (env : Env) (policyVersion tool stage failing : String) : String :=
  s!"tool {env.repr tool} was not granted: it is granted by the manifest, the permit and " ++
  s!"host policy {env.repr policyVersion}, but their constraints could not be combined. " ++
  s!"Constraint {env.repr failing} from the {stage} could not be narrowed against what " ++
  "came before it. Portmark refuses a merge it cannot prove is narrower, so the " ++
  "grant is dropped rather than widened. Define this constraint in one place — " ++
  "usually the host policy — instead of both."

inductive MergeStage where
  | permit
  | policy

inductive Cause where
  | notRequested
  | notPermitted
  | notInPolicy
  | unmergeable (stage : MergeStage) (key : String)
  | notReproduced

def MergeStage.text (env : Env) (policy : HostPolicy) : MergeStage → String
  | .permit => "permit"
  | .policy => s!"host policy {env.repr policy.policyVersion}"

def Cause.text (env : Env) (policy : HostPolicy) (manifest : AgentManifest) (permit : Permit) (tool : String) :
    Cause → String
  | .notRequested =>
    s!"tool {env.repr tool} was not granted: the agent manifest does not request it. " ++
      "Requested tools are " ++ namesOrNone env manifest.requestedTools ++ "."
  | .notPermitted =>
    s!"tool {env.repr tool} was not granted: it is requested by the manifest but absent " ++
      "from the permit. Permit grants are " ++ namesOrNone env (permit.grants.map (·.name)) ++ "."
  | .notInPolicy =>
    s!"tool {env.repr tool} was not granted: host policy {env.repr policy.policyVersion} does not " ++
      "grant it. Policy grants are " ++ namesOrNone env (policy.grants.map (·.name)) ++ ". " ++
      "The host policy is a ceiling, so no permit can add a tool it omits."
  | .unmergeable stage key => Security.unmergeable env policy.policyVersion tool (stage.text env policy) key
  | .notReproduced =>
    s!"tool {env.repr tool} was not granted, and the cause could not be reproduced. " ++
      "The permit may have expired or been replaced between the check and this message."

def explainMerge (order : SetOrder) (permitted held : Dict) : Except Fault Cause :=
  match constraintIntersection order [] permitted with
  | .error (.raised error) => .error (.py error)
  | .error (.key failing) => .ok (.unmergeable .permit failing)
  | .ok merged =>
    match constraintIntersection order merged held with
    | .error (.raised error) => .error (.py error)
    | .error (.key failing) => .ok (.unmergeable .policy failing)
    | .ok _ => .ok .notReproduced

/-- The stage that `explain_missing_grant` finds, the first grant of a name standing for the name. -/
def HostPolicy.explainedCause (order : SetOrder) (policy : HostPolicy) (manifest : AgentManifest) (permit : Permit)
    (tool : String) : Except Fault Cause :=
  if !manifest.requestedTools.contains tool then .ok .notRequested
  else
    match permit.grants.find? (·.name == tool) with
    | none => .ok .notPermitted
    | some permitGrant =>
      match policy.grants.find? (·.name == tool) with
      | none => .ok .notInPolicy
      | some policyGrant => explainMerge order permitGrant.constraints policyGrant.constraints

/-- `explain_missing_grant`: the stage that removed a tool, put in words. -/
def HostPolicy.explainMissingGrant (env : Env) (order : SetOrder) (policy : HostPolicy) (manifest : AgentManifest)
    (permit : Permit) (tool : String) : Except Fault String :=
  (policy.explainedCause order manifest permit tool).map (Cause.text env policy manifest permit tool)

end Portmark.Security
