/-
The calls a run of host.py makes to its surroundings: the runtime store, the clock, the provider,
the tools, the attesters and the policy loader. A run is code over these calls: between two of
them other runs of the pool may make theirs.
-/
import Portmark.Host.Approval
import Portmark.Host.Authority
import Portmark.Host.Projection
import Portmark.Host.Store
import Portmark.Lib.Program

namespace Portmark.Host

open Lib Lib.Json Security

inductive Op where
  | loadPolicy
  | verifyEnvelope (envelope : AgentEnvelope)
  | now
  | unexpired (permit : Permit) (boundary : String)
  | getMigrationReceipt (taskId : String)
  | produceChallengeEvidence (envelope : AgentEnvelope)
  | replaceMigrationReceipt (taskId : String) (receipt : MigrationReceipt)
  | verifyExecution (permit : Permit)
  | loadCheckpoint (taskId : String)
  | loadAuthorityCeiling (taskId : String)
  | auditHead (taskId : String)
  | verifyAuditHead (envelope : AgentEnvelope) (originalTaskId : String)
  | begin (operation : String)
  | decide (provider : String) (effective : Permit) (view : ProviderView)
  | isTaskCancelled (taskId : String)
  | redeem (token : ApprovalToken) (permit : Permit) (taskId : String)
  | getEffect (effectId : String)
  | recordEffectPrepared (effectId taskId tool : String) (argumentsJson : Text)
  | markEffectStarted (effectId : String)
  | settleEffect (effectId : String) (state : EffectState) (resultJson : Option Text) (reason : Option String)
  | arm (effectId tool : String) (argumentsJson : Text)
  | disarm (capability : String)
  | invoke (permit : Permit) (tool : String) (arguments : Dict) (argumentsJson : Text) (capability : Option String)
  | verifyMigration (evidence : Value) (destination nonce : String)
  | challenge
  | preflight (destination challenge : String)
  | save (save : Save)
  | claimEffectForReconcile (effectId claimId : String)
  | renewEffectClaim (effectId claimId : String)
  | runReconcile (effectId tool : String) (argumentsJson : Text) (claimId : String)
  | settleEffectFromClaim (effectId claimId : String) (state : EffectState) (resultJson : Option Text)
    (reason : Option String)
  | releaseEffectClaim (effectId claimId : String)

def Result : Op → Type
  | .loadPolicy => HostPolicy
  | .now => Int
  | .getMigrationReceipt _ => Option MigrationReceipt
  | .produceChallengeEvidence _ => Value
  | .loadCheckpoint _ => Option AgentState
  | .loadAuthorityCeiling _ => Option Text
  | .auditHead _ => Option (String × Int)
  | .decide _ _ _ => RawDecision
  | .isTaskCancelled _ => Bool
  | .redeem _ _ _ => Store.Redemption
  | .getEffect _ => Option EffectRow
  | .arm _ _ _ => String
  | .invoke _ _ _ _ _ => Value
  | .challenge => String
  | .preflight _ _ => Value
  | .save _ => Int
  | .claimEffectForReconcile _ _ => Bool
  | .renewEffectClaim _ _ => Bool
  | .runReconcile _ _ _ _ => Value
  | .settleEffectFromClaim _ _ _ _ _ => Bool
  | .releaseEffectClaim _ _ => Bool
  | _ => Unit

abbrev Answer (op : Op) : Type := Except Fault (Result op)

structure Local where
  state : AgentState
  audit : AuditLog
  persistedEvents : Nat
  authority : Authority

abbrev Run := Code Answer Local Fault

def call {σ : Type} (op : Op) : Code Answer σ Fault (Result op) := do
  let answer ← Code.ask op
  Code.lift answer

theorem meets_call_iff {m : Monitor Answer} {σ : Type} {op : Op} {Q : Except Fault (Result op) → σ → m.State → Prop}
    {l : σ} {s : m.State} :
    Code.Meets m (call op) Q l s ↔ m.allows s op ∧ ∀ answer, m.answers op answer → Q answer l (m.next s op answer) := by
  refine and_congr_right fun _ => forall_congr' fun answer => imp_congr_right fun _ => ?_
  exact Code.meets_lift

/-- `trusted_now()`. -/
def trustedNow {σ : Type} : Code Answer σ Fault Int := call .now

/-- `except SecurityError: handle`. -/
def exceptSecurity {σ α : Type} (body : Code Answer σ Fault α) (handle : Fault → Code Answer σ Fault α) :
    Code Answer σ Fault α :=
  tryCatch body fun error => if error.isSecurity then handle error else throw error

def setState (change : AgentState → AgentState) : Run Unit := modify fun l => { l with state := change l.state }

/-- `state.status = "failed"; state.result = {"error": message}`. -/
def setFailed (message : String) : Run Unit :=
  setState fun state => { state with status := .failed, result := .dict [("error", .str message)] }

/-- `audit.append`. -/
def AgentHost.record (host : AgentHost) (event : String) (details : Dict) : Run Unit := do
  let l ← get
  let audit ← Code.lift (host.appendEvent l.audit event details)
  set { l with audit }

/-- `audit.append("agent.failed", {"error": message})`. -/
def AgentHost.recordFailed (host : AgentHost) (message : String) : Run Unit :=
  host.record "agent.failed" [("error", .str message)]

end Portmark.Host
