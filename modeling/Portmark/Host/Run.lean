/-
`AgentHost._run`: the admission of an envelope (fresh, resume, migration or redelivery), the loop
of decisions with its failure boundaries, and `reconcile_effect`.
-/
import Portmark.Host.Step

namespace Portmark.Host

open Lib Lib.Json Security

namespace AgentHost

variable (host : AgentHost)

/-! ## One step -/

/-- `_require_wellformed_decision`. -/
def requireWellformedDecision (raw : RawDecision) : Except Fault ProviderDecision :=
  match raw.kind, raw.tool, raw.arguments, raw.destination, raw.content with
  | some kind, some tool, some arguments, some destination, some content => do
    let kind ← match kind with
      | .str kind => .ok kind
      | _ => .error (Fault.security "provider decision kind must be a string")
    let tool ← match tool with
      | .null => .ok none
      | .str tool => .ok (some tool)
      | _ => .error (Fault.security "provider decision tool must be a string")
    let destination ← match destination with
      | .null => .ok none
      | .str destination => .ok (some destination)
      | _ => .error (Fault.security "provider decision destination must be a string")
    let arguments ← match arguments with
      | .null => .ok .null
      | .dict arguments =>
        match host.detachedJson (.dict arguments) with
        | .ok arguments => .ok arguments
        | .error _ => .error (Fault.security "provider decision arguments cannot be recorded")
      | _ => .error (Fault.security "provider decision arguments must be an object")
    return { kind, tool, arguments, content, destination }
  | _, _, _, _, _ => .error (.security "provider decision fields could not be read")

variable (v : Visit)

def askProvider : Run RawDecision := do
  call (.begin "deciding")
  tryCatch
    (do
      host.recheckStep v
      let l ← get
      let view ← Code.lift (providerView l.state l.authority.effective.grants)
      call (.decide v.envelope.manifest.provider l.authority.effective view))
    fun error => do
      setFailed "provider failed"
      host.record "provider.failed" [("error", .str "provider decision failed")]
      host.closeFailed v .null false
      throw error

def actOn (raw : RawDecision) : Run (Option Applied) := do
  let l ← get
  let cancelled : Bool ← call (.isTaskCancelled l.state.taskId)
  if cancelled then return none
  else do
    let decision ← Code.lift (host.requireWellformedDecision raw)
    host.recheckStep v
    host.record "provider.proposed"
      [("kind", .str decision.kind), ("tool", decision.tool.elim .null .str)]
    let applied ← host.applyDecision v decision
    return some applied

def refuseDecision (raw : RawDecision) (toolCallsBefore : Int) (error : Fault) : Run (Option Applied) := do
  let expired := match error with
    | .permitExpired _ => true
    | _ => false
  setFailed (if expired then "permit expired" else "decision refused")
  host.record (if expired then "permit.expired" else "decision.refused")
    [("kind", recordableLabel raw.kind), ("tool", recordableLabel raw.tool), ("error", .str error.name)]
  let l ← get
  host.closeFailed v (recordableLabel raw.tool) (decide (toolCallsBefore < l.state.toolCalls))
  throw error

def saveStep (raw : RawDecision) (toolCallsBefore : Int) (migration : Option AgentEnvelope) : Run (Option RunResult) :=
    do
  let l ← get
  let closed := migration.isSome || l.state.status == .completed || l.state.status == .failed
  let toolRan := decide (toolCallsBefore < l.state.toolCalls)
  tryCatch
    (do
      let fits ← Code.lift (host.checkpointFits l.authority.effective l.state)
      if !fits && (toolRan || closed) then do
        host.terminalizeOverBudget v (recordableLabel raw.tool) toolRan migration
        let result ← result migration
        return some result
      else do
        host.persistNext v closed migration
        return none)
    fun error =>
      if error = .taskCancelled then do
        let result ← host.closeCancelled v
        return some result
      else throw error

def stepOnce : Run (Option RunResult) := do
  let raw ← host.askProvider v
  let before ← get
  let applied ← tryCatch (host.actOn v raw) (host.refuseDecision v raw before.state.toolCalls)
  match applied with
  | none => do
    let result ← host.closeCancelled v
    return some result
  | some applied => do
    setState fun state => { state with step := state.step + 1 }
    let ended ← host.saveStep v raw before.state.toolCalls applied.migration
    match ended with
    | some result => return some result
    | none =>
      if applied.finished then do
        let result ← result applied.migration
        return some result
      else return none

def exhausted : Run RunResult := do
  setFailed "step budget exhausted"
  host.recordFailed "step budget exhausted"
  host.closeFailed v .null false
  result none

/-- The loop. Every turn that does not end the run raises the step counter, so `maxSteps - step`
turns are enough. -/
def loop : Nat → Run RunResult
  | 0 => host.exhausted v
  | turns + 1 => do
    let l ← get
    if l.state.step < l.authority.effective.budget.maxSteps then do
      let ended ← host.stepOnce v
      match ended with
      | some result => return result
      | none => loop turns
    else host.exhausted v

def admitted (first : FirstSave) : Run RunResult := do
  let ended ← tryCatch
    (do
      host.persist v first false none
      return none)
    fun error =>
      if error = .taskCancelled ∧ first.nonce = none then do
        let result ← host.closeCancelled v
        return some result
      else throw error
  match ended with
  | some result => return result
  | none => do
    let l ← get
    host.loop v (l.authority.effective.budget.maxSteps - l.state.step).toNat

/-! ## Admission -/

variable (envelope : AgentEnvelope)

abbrev Door := Code Answer Unit Fault

/-- `memory["migration"]["challenge_required"]`. -/
def challengeRequired (memory : Value) : Bool :=
  match memory with
  | .dict memory =>
    match Assoc.get? memory "migration" with
    | some (.dict migration) => ((Assoc.get? migration "challenge_required").map Value.truthy).getD false
    | _ => false
  | _ => false

def challengeEvidence : Door Value :=
  if host.hasMigrationAttester then call (.produceChallengeEvidence envelope)
  else throw (.security "migration requires a challenge attestation but no attester is configured")

def redeliveredReceipt (existing : MigrationReceipt) : Door MigrationReceipt :=
  if challengeRequired envelope.state.memory then do
    let evidence ← exceptSecurity (some <$> host.challengeEvidence envelope) fun _ => pure none
    match evidence with
    | none => return existing
    | some evidence => do
      let bindings := { existing.bindings with destinationHostId := host.hostId }
      let receipt := ⟨bindings, some evidence, host.signMigrationReceipt bindings (some evidence)⟩
      call (.replaceMigrationReceipt envelope.storedTaskId receipt)
      return receipt
  else return existing

def redeliver (digest : String) (existing : MigrationReceipt) : Door RunResult := do
  if existing.bindings.permitNonce ≠ envelope.permit.nonce ∨ existing.bindings.envelopeDigest ≠ digest then
    throw (.security "a migration receipt already exists for this task under a different envelope")
  else do
    let receipt ← host.redeliveredReceipt envelope existing
    let stored ← call (.loadCheckpoint envelope.storedTaskId)
    return ⟨(stored.map (·.status)).getD envelope.state.status, envelope.storedTaskId,
      (stored.map (·.result)).getD .null, stored, [], none, some receipt⟩

/-- `_is_content_digest`. -/
def isContentDigest (digest : String) : Bool :=
  match digest.toList.span (· != ':') with
  | (algo, ':' :: _ :: _) => ["sha256", "sha384", "sha512", "blake3"].contains (String.ofList algo)
  | _ => false

def checkProvider : Except Fault Unit :=
  match Assoc.get? host.providers envelope.manifest.provider with
  | none => .error (.security s!"provider {host.env.repr envelope.manifest.provider} is not configured")
  | some (some digest) =>
    require (envelope.manifest.componentDigest == digest) "Wasm component digest does not match the signed manifest"
  | some none =>
    require (!isContentDigest envelope.manifest.componentDigest)
      "signed manifest pins a component digest but the provider exposes none to verify"

/-- `_require_wellformed_messages`. -/
def requireWellformedMessages : Except Fault Unit :=
  require
    (match envelope.state.messages with
      | .list messages => messages.all fun message => match message with
        | .dict _ => true
        | _ => false
      | _ => false)
    "state.messages must be a list of message objects"

/-- `_require_nonnegative_counters`. -/
def requireNonnegativeCounters : Except Fault Unit := do
  require (decide (0 ≤ envelope.state.step)) "migrated state has invalid step counter"
  require (decide (0 ≤ envelope.state.toolCalls)) "migrated state has invalid tool_calls counter"

def checkFresh : Except Fault Unit := do
  require (decide (envelope.state.checkpointGeneration = 0)) "new task has invalid checkpoint generation"
  require (envelope.migrates || !migrationTaskNamespace.isPrefixOf envelope.state.taskId)
    "task id uses the reserved migration namespace"
  requireNonnegativeCounters envelope

def resumePermit (effective : Permit) : Door (Permit × AgentEnvelope) := do
  let ceiling ← call (.loadAuthorityCeiling envelope.storedTaskId)
  match ceiling with
  | some text => do
    let capped ← Code.lift (capToCeiling host.order effective text envelope.manifest)
    call (.unexpired capped "at admission")
    return (capped, { envelope with permit := { envelope.permit with delegationAllowed := false } })
  | none =>
    if migrationTaskNamespace.isPrefixOf envelope.storedTaskId then
      throw (.security "migrated task has no recorded authority ceiling; refusing to resume")
    else return (effective, envelope)

/-- `_verify_previous_audit_head`. -/
def verifyPreviousAuditHead : Door Unit := do
  Code.lift (require
    (envelope.previousAuditHostId != "" && envelope.previousAuditSignatureKeyId != "" &&
      envelope.previousAuditSignature != "" && decide (0 < envelope.previousAuditSequence))
    "previous audit head signature is missing")
  Code.lift (require (envelope.previousAuditHostId == envelope.permit.issuer)
    "migration audit host does not match permit issuer")
  call (.verifyAuditHead envelope envelope.state.taskId)

def migrationAnchor : Value :=
  .dict [("previous_audit_hash", .str envelope.previousAuditHash),
    ("previous_audit_sequence", .int envelope.previousAuditSequence),
    ("previous_audit_host_id", .str envelope.previousAuditHostId),
    ("previous_audit_task_id", .str envelope.state.taskId),
    ("previous_audit_signature_key_id", .str envelope.previousAuditSignatureKeyId),
    ("previous_audit_signature", .str envelope.previousAuditSignature)]

structure AuditStart where
  previous : String
  sequence : Int
  anchors : Bool

/-- `_audit_start`. -/
def auditStart (fresh : Bool) : Door AuditStart := do
  let stored ← call (.auditHead envelope.storedTaskId)
  if envelope.migrates then
    match stored with
    | some (head, sequence) => do
      Code.lift (require (head == envelope.previousAuditHash) "envelope audit head does not match stored audit head")
      return ⟨envelope.previousAuditHash, sequence, false⟩
    | none => do
      verifyPreviousAuditHead envelope
      return ⟨envelope.previousAuditHash, 0, true⟩
  else
    match stored with
    | some (head, sequence) => do
      Code.lift (require (!fresh) Store.freshWithHistory)
      return ⟨head, sequence, false⟩
    | none => return ⟨"", 0, false⟩

def receiptBinding (digest : String) : Door ReceiptBinding := do
  let attestation ←
    if challengeRequired envelope.state.memory then some <$> host.challengeEvidence envelope else pure none
  return ⟨envelope.state.taskId, envelope.previousAuditHostId, envelope.permit.nonce, digest, attestation⟩

def permitNonceRow : String × NonceRow :=
  (envelope.permit.nonce,
    ⟨envelope.permit.subject, envelope.permit.audience, envelope.storedTaskId, some envelope.permit.expiresAt⟩)

/-- The details of `agent.accepted`. -/
def acceptedDetails (policy : HostPolicy) (anchors : Bool) : Dict :=
  [("agent", .str envelope.manifest.agentId), ("host", .str host.hostId), ("policy_version", .str policy.policyVersion),
    ("policy_hash", .str policy.policyHash)] ++ (if anchors then [("migration", migrationAnchor envelope)] else [])

structure Admission where
  visit : Visit
  local_ : Local
  first : FirstSave

def openRun (digest : String) (policy : HostPolicy) (stored : Option AgentState) (effective : Permit)
    (kept : AgentEnvelope) : Door Admission := do
  let start ← auditStart envelope stored.isNone
  let binding ← if start.anchors then some <$> host.receiptBinding envelope digest else pure none
  let audit ← Code.lift (host.appendEvent ⟨start.previous, start.sequence, host.hostId, []⟩ "agent.accepted"
    (host.acceptedDetails envelope policy start.anchors))
  let state : AgentState :=
    { envelope.state with
      taskId := envelope.storedTaskId, status := .running
      step := (stored.map (·.step)).getD envelope.state.step
      toolCalls := (stored.map (·.toolCalls)).getD envelope.state.toolCalls }
  return {
    visit := ⟨kept, (stored.map (·.checkpointGeneration)).getD 0⟩
    local_ := ⟨state, audit, 0, ⟨.plain policy, effective⟩⟩
    first := ⟨if stored.isNone then some (permitNonceRow envelope) else none, binding⟩ }

def enter (digest : String) (policy : HostPolicy) : Door Admission := do
  let now ← trustedNow
  let effective ← Code.lift (policy.effectivePermit host.order envelope.manifest envelope.permit now)
  call (.verifyExecution effective)
  Code.lift (host.checkProvider envelope)
  Code.lift (requireWellformedMessages envelope)
  let stored ← call (.loadCheckpoint envelope.storedTaskId)
  match stored with
  | none => do
    Code.lift (checkFresh envelope)
    host.openRun envelope digest policy none effective envelope
  | some stored => do
    let (effective, kept) ← host.resumePermit envelope effective
    host.openRun envelope digest policy (some stored) effective kept

def incomingDigest : Except Fault String := if envelope.migrates then host.migrationEnvelopeDigest envelope else .ok ""

/-- `_run` up to the first save. -/
def door : Door (RunResult ⊕ Admission) := do
  let policy ← host.activePolicy
  call (.verifyEnvelope envelope)
  let digest ← Code.lift (host.incomingDigest envelope)
  if envelope.migrates then do
    let existing ← call (.getMigrationReceipt envelope.storedTaskId)
    match existing with
    | some existing => do
      let result ← host.redeliver envelope digest existing
      return .inl result
    | none => do
      let admission ← host.enter envelope digest policy
      return .inr admission
  else do
    let admission ← host.enter envelope digest policy
    return .inr admission

/-- `run`. -/
def runEnvelope : Prog Answer (Except Fault RunResult) := do
  let (outcome, _) ← host.door envelope ()
  match outcome with
  | .error error => return .error error
  | .ok (.inl result) => return .ok result
  | .ok (.inr admission) => do
    let (result, _) ← host.admitted admission.visit admission.first admission.local_
    return result

/-! ## Reconciliation -/

/-- `_effect_state_after_lost_claim`. -/
def effectStateAfterLostClaim (effectId : String) : Door String := do
  let current ← call (.getEffect effectId)
  return (current.map (·.state.text)).getD "unknown"

def reconcileOutcome (outcome : Value) : Except Fault (Bool × Option Text) :=
  match outcome with
  | .dict d =>
    match Assoc.get? d "landed" with
    | some (.bool true) => do
      let resultJson ← match Assoc.get? d "result" with
        | some result => some <$> host.canonical result
        | none => .ok none
      return (true, resultJson)
    | some (.bool false) => .ok (false, none)
    | _ => .error (.security "reconcile function must return \x7b'landed': bool, 'result'?: ...\x7d")
  | _ => .error (.security "reconcile function must return \x7b'landed': bool, 'result'?: ...\x7d")

def settleReconcile (effectId tool : String) (argumentsJson : Text) (claimId : String) : Door String := do
  let outcome ← call (.runReconcile effectId tool argumentsJson claimId)
  let (landed, resultJson) ← Code.lift (host.reconcileOutcome outcome)
  let settled : Bool ← if landed then
      call (.settleEffectFromClaim effectId claimId .confirmed resultJson (some "reconciled: effect landed"))
    else call (.settleEffectFromClaim effectId claimId .reconciled none (some "reconciled: effect did not land"))
  if settled then return (if landed then "confirmed" else "reconciled")
  else effectStateAfterLostClaim effectId

/-- `reconcile_effect`. -/
def reconcileEffect (effectId taskId : String) : Door String := do
  let row ← call (.getEffect effectId)
  match row with
  | none => throw (.security s!"no effect {host.env.repr effectId} to reconcile")
  | some row =>
    if row.taskId ≠ taskId then
      throw (.security s!"effect {host.env.repr effectId} does not belong to task {host.env.repr taskId}")
    else if !host.tools.hasReconcile row.tool then
      throw (.security
        s!"tool {host.env.repr row.tool} has no reconcile function registered; cannot reconcile its effects")
    else do
      let claimId ← call .challenge
      let claimed : Bool ← call (.claimEffectForReconcile effectId claimId)
      if claimed then do
        let renewed : Bool ← call (.renewEffectClaim effectId claimId)
        if renewed then
          tryCatch (host.settleReconcile effectId row.tool row.argumentsJson claimId) fun error => do
            let _ ← call (.releaseEffectClaim effectId claimId)
            throw error
        else effectStateAfterLostClaim effectId
      else do
        let current ← call (.getEffect effectId)
        throw (.security
          (s!"effect {host.env.repr effectId} is " ++ (current.map (·.state.text)).getD "missing" ++
            "; only an unknown (or lease-expired reconciling) effect can be reconciled -- another reconciler " ++
            "holds a live claim, or it is already settled."))

end AgentHost

end Portmark.Host
