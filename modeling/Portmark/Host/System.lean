/-
Runs and reconciliations of one host over one store, in any interleaving of their calls. A
process may stop between two calls, a call may fail, and the operator and the dispatcher cancel
tasks, prune rows and work on the outbox meanwhile.
-/
import Portmark.Host.Run

namespace Portmark.Host

open Lib Lib.Json Security

/-! ## The world -/

/-- An outstanding launch capability of `ToolRegistry._armed`, in one process of the host. -/
structure Armed where
  process : Nat
  capability : String
  effectId : String
  tool : String
  argumentsJson : Text
deriving DecidableEq

structure Launch where
  effectId : Option String
  tool : String
  argumentsJson : Text
deriving DecidableEq

structure World where
  store : Store
  armed : List Armed
  minted : List Armed
  launches : List Launch

def World.start (store : Store) : World := ⟨store, [], [], []⟩

inductive Job where
  | run (process : Nat) (envelope : AgentEnvelope)
  | reconcile (process : Nat) (effectId taskId : String)

def Job.process : Job → Nat
  | .run process _ => process
  | .reconcile process _ _ => process

structure Hint where
  fault : Option Fault := none
  time : Int := 0
  policy : Option HostPolicy := none
  decision : Option RawDecision := none
  value : Value := .null
  token : String := ""

/-! ## How calls are answered -/

def World.put (w : World) (store : Store) : World := { w with store }

def World.commit {α : Type} (w : World) : Except Fault (α × Store) → Except Fault α × World
  | .ok (a, store) => (.ok a, w.put store)
  | .error error => (.error error, w)

def approvalNonce (taskId approvalId : String) : String := s!"approval:{taskId}:{approvalId}"

/-- `consume_nonce` of an approval, in its transaction. -/
def World.redeem (w : World) (token : ApprovalToken) (permit : Permit) (taskId : String) (now : Int) :
    Except Fault Store.Redemption × World :=
  w.commit (w.store.redeem (approvalNonce taskId token.approvalId)
    ⟨permit.subject, permit.audience, taskId, some token.expiresAt⟩ taskId now)

/-- The `started` row of the ledger that a launch is armed for. -/
def World.startedRow (w : World) (effectId tool : String) (argumentsJson : Text) : Bool :=
  match w.store.effects effectId with
  | some row => row.state == .started && row.tool == tool && row.argumentsJson == argumentsJson
  | none => false

/-- `arm`. A token is not drawn twice. -/
def World.arm (host : AgentHost) (w : World) (process : Nat) (effectId tool : String) (argumentsJson : Text)
    (token : String) : Option (Except Fault String × World) :=
  if !w.startedRow effectId tool argumentsJson then
    some (.error (.security
      (s!"cannot arm a launch for effect {host.env.repr effectId}: no started ledger row matches this " ++
        "(tool, arguments). Knowledge of an effect_id is not launch authority.")), w)
  else if w.armed.any fun armed => armed.process == process && armed.effectId == effectId then
    some (.error (.security
      (s!"a launch capability is already outstanding for effect {host.env.repr effectId}; one " ++
        "started effect authorizes at most one launch.")), w)
  else if w.minted.any fun armed => armed.capability == token then none
  else
    let armed : Armed := ⟨process, token, effectId, tool, argumentsJson⟩
    some (.ok token, { w with armed := w.armed ++ [armed], minted := w.minted ++ [armed] })

/-- `disarm`. -/
def World.disarm (w : World) (process : Nat) (capability : String) : World :=
  { w with armed := w.armed.filter fun armed => !(armed.process == process && armed.capability == capability) }

def World.invoke (host : AgentHost) (w : World) (process : Nat) (tool : String) (argumentsJson : Text)
    (capability : Option String) (answer : Except Fault Value) : Except Fault Value × World :=
  if host.tools.isSideEffecting tool then
    match w.armed.find? fun armed => armed.process == process && some armed.capability == capability &&
        armed.tool == tool && armed.argumentsJson == argumentsJson with
    | none => (.error (.security s!"launch capability does not authorize this call to {host.env.repr tool}"), w)
    | some armed =>
      (answer, { w.disarm process armed.capability with
        launches := w.launches ++ [⟨some armed.effectId, tool, argumentsJson⟩] })
  else (answer, { w with launches := w.launches ++ [⟨none, tool, argumentsJson⟩] })

def World.claimedRow (w : World) (effectId tool : String) (argumentsJson : Text) (claimId : String) : Bool :=
  match w.store.effects effectId with
  | some row => Store.ownedBy row claimId && row.tool == tool && row.argumentsJson == argumentsJson
  | none => false

/-- `_RECONCILE_LEASE_SECONDS`. -/
def reconcileLeaseSeconds : Int := 300

def World.attempt (w : World) (outcome : Bool × Store) : Except Fault Bool × World := (.ok outcome.1, w.put outcome.2)

def serveCall (host : AgentHost) (process : Nat) (hint : Hint) (w : World) : (op : Op) → Option (Answer op × World)
  | .loadPolicy => hint.policy.map fun policy => (.ok policy, w)
  | .verifyEnvelope _ => some (.ok (), w)
  | .now => some (.ok hint.time, w)
  | .unexpired permit boundary => some (requireUnexpired permit boundary hint.time, w)
  | .getMigrationReceipt taskId => some (.ok (w.store.receipts taskId), w)
  | .produceChallengeEvidence _ => some (.ok hint.value, w)
  | .replaceMigrationReceipt taskId receipt => some (.ok (), w.put (w.store.replaceMigrationReceipt taskId receipt))
  | .verifyExecution _ => some (.ok (), w)
  | .loadCheckpoint taskId => some (.ok (w.store.loadCheckpoint taskId), w)
  | .loadAuthorityCeiling taskId => some (.ok (w.store.loadAuthorityCeiling taskId), w)
  | .auditHead taskId => some (.ok (w.store.auditHead taskId), w)
  | .verifyAuditHead _ _ => some (.ok (), w)
  | .begin _ => some (.ok (), w)
  | .decide _ _ _ => hint.decision.map fun decision => (.ok decision, w)
  | .isTaskCancelled taskId => some (.ok (w.store.cancelled taskId), w)
  | .redeem token permit taskId => some (w.redeem token permit taskId hint.time)
  | .getEffect effectId => some (.ok (w.store.effects effectId), w)
  | .recordEffectPrepared effectId taskId tool argumentsJson =>
    some (.ok (), w.put (w.store.recordEffectPrepared effectId taskId tool argumentsJson))
  | .markEffectStarted effectId => some (.ok (), w.put (w.store.markEffectStarted effectId))
  | .settleEffect effectId state resultJson reason =>
    some (.ok (), w.put (w.store.settleEffect effectId state resultJson reason))
  | .arm effectId tool argumentsJson => w.arm host process effectId tool argumentsJson hint.token
  | .disarm capability => some (.ok (), w.disarm process capability)
  | .invoke _ tool _ argumentsJson capability =>
    some (w.invoke host process tool argumentsJson capability (.ok hint.value))
  | .verifyMigration _ _ _ => some (.ok (), w)
  | .challenge => some (.ok hint.token, w)
  | .preflight _ _ => some (.ok hint.value, w)
  | .save save => some (w.commit (w.store.save host save hint.time))
  | .claimEffectForReconcile effectId claimId =>
    some (w.attempt (w.store.claimEffectForReconcile effectId claimId reconcileLeaseSeconds hint.time))
  | .renewEffectClaim effectId claimId =>
    some (w.attempt (w.store.renewEffectClaim effectId claimId reconcileLeaseSeconds hint.time))
  | .runReconcile effectId tool argumentsJson claimId =>
    if w.claimedRow effectId tool argumentsJson claimId then some (.ok hint.value, w)
    else some (.error (.security s!"cannot run a reconcile for effect {host.env.repr effectId}"), w)
  | .settleEffectFromClaim effectId claimId state resultJson reason =>
    some (w.attempt (w.store.settleEffectFromClaim effectId claimId state resultJson reason hint.time))
  | .releaseEffectClaim effectId claimId => some (w.attempt (w.store.releaseEffectClaim effectId claimId))

def serveFault (host : AgentHost) (process : Nat) (fault : Fault) (w : World) : (op : Op) → Option (Answer op × World)
  | .invoke _ tool _ argumentsJson capability =>
    if fault = .taskCancelled then none
    else some (w.invoke host process tool argumentsJson capability (.error fault))
  | .disarm _ => none
  | _ => if fault = .taskCancelled then none else some (.error fault, w)

def serve (host : AgentHost) (job : Job) (op : Op) (hint : Hint) (w : World) : Option (Answer op × World) :=
  match hint.fault with
  | none => serveCall host job.process hint w op
  | some fault => serveFault host job.process fault w op

/-! ## What happens besides -/

inductive Act where
  | cancelTask (taskId : String)
  | prune (nonceCutoff migrationCutoff : Int) (batch : String → Bool)
  | claimMigration (taskId workerId : String) (leaseSeconds now : Int)
  | releaseMigration (taskId workerId : String) (now : Int)
  | recordMigrationAttempt (taskId : String) (workerId : Option String) (now : Int)
  | deadLetterMigration (taskId workerId reason : String) (now : Int)
  | requeueMigration (taskId : String)
  | settleMigration (taskId : String) (receipt : Text) (now : Int)
  | restart (process : Nat)

def act : Act → World → World
  | .cancelTask taskId, w => w.put (w.store.cancelTask taskId)
  | .prune nonceCutoff migrationCutoff batch, w => w.put (w.store.prune nonceCutoff migrationCutoff batch)
  | .claimMigration taskId workerId leaseSeconds now, w =>
    w.put (w.store.claimMigration taskId workerId leaseSeconds now)
  | .releaseMigration taskId workerId now, w => w.put (w.store.releaseMigration taskId workerId now)
  | .recordMigrationAttempt taskId workerId now, w => w.put (w.store.recordMigrationAttempt taskId workerId now)
  | .deadLetterMigration taskId workerId reason now, w => w.put (w.store.deadLetterMigration taskId workerId reason now)
  | .requeueMigration taskId, w => w.put (w.store.requeueMigration taskId)
  | .settleMigration taskId receipt now, w => w.put (w.store.markMigrationDelivered taskId receipt now)
  | .restart process, w => { w with armed := w.armed.filter fun armed => armed.process != process }

/-! ## The machine -/

inductive Outcome where
  | result (result : RunResult)
  | effect (state : String)

def program (host : AgentHost) : Job → Prog Answer (Except Fault Outcome)
  | .run _ envelope => do
    let outcome ← host.runEnvelope envelope
    return outcome.map .result
  | .reconcile _ effectId taskId => do
    let (outcome, _) ← host.reconcileEffect effectId taskId ()
    return outcome.map .effect

abbrev HostProc := Proc Answer Job (Except Fault Outcome)

abbrev HostPool := Pool Answer Job (Except Fault Outcome) World

abbrev HostEvent := PoolEvent Job Hint Act

def machine (host : AgentHost) : Machine Answer Job (Except Fault Outcome) World Hint Act where
  program := program host
  serve := serve host
  act := act

def runHost (host : AgentHost) (store : Store) (events : List HostEvent) : HostPool :=
  (machine host).run ⟨.start store, []⟩ events

end Portmark.Host
