/-
The authority of a run in host.py: the policy it checks against once a reload landed
(`_ReloadedPolicy`, `_narrow_permit`, `_recheck_reloaded_policy`), and the authority a migrated
task arrived with (`_authority_ceiling_json`, `_cap_to_ceiling`).
-/
import Portmark.Host.Types

namespace Portmark.Host

open Lib Lib.Json Security

/-! ## The policy of a run -/

/-- `HostPolicy | _ReloadedPolicy`. -/
inductive ActivePolicy where
  | plain (policy : HostPolicy)
  | reloaded (previous : ActivePolicy) (fresh : HostPolicy)

namespace ActivePolicy

/-- Where `__getattr__` ends: the policy whose approvers, hash and version count. -/
def current : ActivePolicy → HostPolicy
  | plain policy => policy
  | reloaded _ fresh => fresh

/-- `requires_approval`. -/
def requiresApproval : ActivePolicy → String → Bool
  | plain policy, tool => policy.requiresApproval tool
  | reloaded previous fresh, tool => previous.requiresApproval tool || fresh.requiresApproval tool

/-- `requires_approval_for`. -/
def requiresApprovalFor : ActivePolicy → String → Bool → Bool
  | plain policy, tool, sideEffecting => policy.requiresApprovalFor tool sideEffecting
  | reloaded previous fresh, tool, sideEffecting =>
    previous.requiresApprovalFor tool sideEffecting || fresh.requiresApprovalFor tool sideEffecting

/-- `authorize_migration`. -/
def authorizeMigration (env : Env) : ActivePolicy → Permit → String → Except Fault Unit
  | plain policy, permit, destination => policy.authorizeMigration env permit destination
  | reloaded previous fresh, permit, destination => do
    previous.authorizeMigration env permit destination
    fresh.authorizeMigration env permit destination

def isCurrent (active : ActivePolicy) (fresh : HostPolicy) : Bool :=
  fresh.policyVersion == active.current.policyVersion && fresh.policyHash == active.current.policyHash

end ActivePolicy

/-- `_narrow_permit`. -/
def narrowPermit (order : SetOrder) (effective fresh : Permit) : Except Fault Permit := do
  let grants ← intersectGrants order [effective.grants, fresh.grants] none
  return { effective with
    grants, budget := effective.budget.intersect fresh.budget, expiresAt := min effective.expiresAt fresh.expiresAt }

structure Authority where
  policy : ActivePolicy
  effective : Permit

def Authority.narrowed (host : AgentHost) (manifest : AgentManifest) (permit : Permit) (authority : Authority)
    (fresh : HostPolicy) (now : Int) : Except Fault (Option Permit) :=
  if authority.policy.isCurrent fresh then .ok none
  else do
    let given ← fresh.effectivePermit host.order manifest permit now
    let narrowed ← narrowPermit host.order authority.effective given
    return some narrowed

def AgentHost.adoptable (host : AgentHost) (state : AgentState) (narrowed : Permit) : Except Fault Unit := do
  require (decide (state.step < narrowed.budget.maxSteps)) "step budget exhausted by a policy reload"
  let fits ← host.checkpointFits narrowed state
  require fits "checkpoint exceeds the output budget of a reloaded policy"

/-- `_recheck_reloaded_policy` of a policy the loader returned, but for its audit event. -/
def Authority.recheck (host : AgentHost) (manifest : AgentManifest) (permit : Permit) (authority : Authority)
    (fresh : HostPolicy) (now : Int) (state : AgentState) : Except Fault Authority := do
  match ← authority.narrowed host manifest permit fresh now with
  | none => return authority
  | some narrowed => do
    host.adoptable state narrowed
    return ⟨.reloaded authority.policy fresh, narrowed⟩

/-! ## The authority of a migrated task -/

/-- `_authority_ceiling_json`. -/
def AgentHost.authorityCeilingJson (host : AgentHost) (effective : Permit) (manifest : AgentManifest) :
    Except Fault Text :=
  host.canonical (.dict [
    ("version", .int 1),
    ("grants", .list (effective.grants.map fun grant =>
      .dict [("name", .str grant.name), ("constraints", .dict grant.constraints),
        ("output_projection", projectionValue .list grant.outputProjection)])),
    ("budget", budgetDict effective.budget),
    ("expires_at", .int effective.expiresAt),
    ("provider", .str manifest.provider),
    ("component_digest", .str manifest.componentDigest)])

/-- The recorded authority, as `_cap_to_ceiling` reads it. -/
structure AuthorityCeiling where
  grants : List ToolGrant
  budget : ResourceBudget
  expiresAt : Int
  provider : String
  componentDigest : String

/-- `d[key]`. -/
def item (v : Value) (key : String) : Except Fault Value :=
  match v with
  | .dict d =>
    match Assoc.get? d key with
    | some v => .ok v
    | none => .error (.outside "KeyError")
  | _ => .error (.py (.type "object is not subscriptable by a string"))

def strItem (v : Value) (key : String) : Except Fault String := do
  match ← item v key with
  | .str s => return s
  | _ => .error (.py (.type key))

def intItem (v : Value) (key : String) : Except Fault Int := do
  match ← item v key with
  | .int n => return n
  | _ => .error (.py (.type key))

def readGrant (v : Value) : Except Fault ToolGrant := do
  let name ← strItem v "name"
  let constraints ← item v "constraints"
  let projection ← item v "output_projection"
  match constraints, projection with
  | .dict constraints, .null => return ⟨name, constraints, none⟩
  | .dict constraints, .list fields =>
    match fields.mapM Value.str? with
    | some fields => return ⟨name, constraints, some fields⟩
    | none => .error (.py (.type "output_projection"))
  | _, _ => .error (.py (.type "grant"))

/-- `json.loads` of the record, with the fields that are read from it. -/
def readCeiling (text : Text) : Except Fault AuthorityCeiling := do
  let ceiling ← (loads text).mapError fun message => .py (.value message)
  let provider ← strItem ceiling "provider"
  let componentDigest ← strItem ceiling "component_digest"
  let grants ← item ceiling "grants"
  let budget ← item ceiling "budget"
  let maxSteps ← intItem budget "max_steps"
  let maxToolCalls ← intItem budget "max_tool_calls"
  let maxOutputBytes ← intItem budget "max_output_bytes"
  let expiresAt ← intItem ceiling "expires_at"
  match grants with
  | .list grants => do
    let grants ← grants.mapM readGrant
    return ⟨grants, ⟨maxSteps, maxToolCalls, maxOutputBytes⟩, expiresAt, provider, componentDigest⟩
  | _ => .error (.py (.type "grants"))

/-- `_cap_to_ceiling`. -/
def capToCeiling (order : SetOrder) (effective : Permit) (text : Text) (manifest : AgentManifest) :
    Except Fault Permit := do
  let ceiling ← readCeiling text
  require (manifest.provider == ceiling.provider && manifest.componentDigest == ceiling.componentDigest)
    "a migrated task must resume with the agent component it was admitted with"
  let grants ← intersectGrants order [effective.grants, ceiling.grants] none
  return { effective with
    grants, budget := effective.budget.intersect ceiling.budget
    expiresAt := min effective.expiresAt ceiling.expiresAt }

end Portmark.Host
