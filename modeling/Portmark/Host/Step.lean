/-
The actions of one step of `AgentHost._run`: the save, the approval gate, the effect ledger around
a tool launch, and what each kind of decision does (`_persist`, `_approval_gate`,
`_effect_pre_launch`, `_apply_decision`, `_terminalize_over_budget`).
-/
import Mathlib.Data.List.Infix
import Portmark.Host.Ops

namespace Portmark.Host

open Lib Lib.Json Security

structure Visit where
  envelope : AgentEnvelope
  admissionGeneration : Int

structure FirstSave where
  nonce : Option (String × NonceRow)
  binding : Option ReceiptBinding

namespace AgentHost

variable (host : AgentHost) (v : Visit)

/-! ## Saving -/

def ceilingColumn (effective : Permit) : Except Fault (Option Text) :=
  if v.envelope.migrates then some <$> host.authorityCeilingJson effective v.envelope.manifest else .ok none

def outboxEntry : Option AgentEnvelope → Except Fault (Option (String × Text))
  | none => .ok none
  | some migrated => do
    let text ← host.canonical migrated.asdict
    return some (migrated.permit.audience, text)

/-- The size check of `_persist`. -/
def requireFits (effective : Permit) (state : AgentState) : Except Fault Unit := do
  let fits ← host.checkpointFits effective state
  require fits "checkpoint exceeds output budget"

/-- `_persist`. -/
def persist (first : FirstSave) (closed : Bool) (migration : Option AgentEnvelope) : Run Unit := do
  call (.begin "persisting")
  let l ← get
  Code.lift (host.requireFits l.authority.effective l.state)
  let authorityCeiling ← Code.lift (host.ceilingColumn v l.authority.effective)
  let outbox ← Code.lift (host.outboxEntry migration)
  let generation ← call (.save
    { taskId := l.state.taskId, effective := l.authority.effective, state := l.state, nonce := first.nonce,
      migrated := v.envelope.migrates, events := l.audit.events.drop l.persistedEvents, auditHead := l.audit.head,
      closed, owner := some (v.envelope.permit.issuer, v.envelope.permit.subject), authorityCeiling,
      binding := first.binding, migration := outbox })
  set { l with
    state := { l.state with checkpointGeneration := generation }, persistedEvents := l.audit.events.length }

def persistNext (closed : Bool) (migration : Option AgentEnvelope) : Run Unit :=
  host.persist v ⟨none, none⟩ closed migration

/-- `_recordable_label`. -/
def recordableLabel : Option Value → Value
  | some (.str label) => if label.length ≤ 128 then .str label else .null
  | _ => .null

def recordTombstone (tool : Value) (toolRan : Bool) (status : Status) (oversized : Nat) (ceiling : Int) : Run Unit :=
  if toolRan && status == .running then do
    setFailed "checkpoint exceeds output budget after tool execution"
    host.record "output.refused" [("tool", tool), ("encoded_size", .int oversized), ("max_output_bytes", .int ceiling),
      ("effect_status", .str "unknown")]
    host.recordFailed "checkpoint exceeds output budget after tool execution"
  else
    host.record "checkpoint.terminalized" [("status", .str status.text), ("encoded_size", .int oversized),
      ("max_output_bytes", .int ceiling), ("dropped", .list [.str "memory", .str "messages"])]

def dropResult (ceiling : Int) : Run Unit := do
  let emptied ← get
  let size ← Code.lift (host.encodedSize emptied.state.asdict)
  if ceiling < (size : Int) then setState fun state => { state with result := .null } else pure ()

/-- `_terminalize_over_budget`: `tool` is the label of the decision's tool. -/
def terminalizeOverBudget (tool : Value) (toolRan : Bool) (migration : Option AgentEnvelope) : Run Unit := do
  let l ← get
  let ceiling := l.authority.effective.budget.maxOutputBytes
  let oversized ← Code.lift (host.encodedSize l.state.asdict)
  setState fun state => { state with memory := .dict [], messages := .list [] }
  host.recordTombstone tool toolRan l.state.status oversized ceiling
  host.dropResult ceiling
  host.persistNext v true migration

def closeFailed (tool : Value) (toolRan : Bool) : Run Unit := do
  let l ← get
  let fits ← Code.lift (host.checkpointFits l.authority.effective l.state)
  if fits then host.persistNext v true none else host.terminalizeOverBudget v tool toolRan none

/-- `_result`. -/
def result (migration : Option AgentEnvelope) : Run RunResult := do
  let l ← get
  let receipt ← call (.getMigrationReceipt l.state.taskId)
  return ⟨l.state.status, l.state.taskId, l.state.result, some l.state, l.audit.events, migration, receipt⟩

/-- `_close_cancelled`. -/
def closeCancelled : Run RunResult := do
  setFailed "task cancelled"
  let l ← get
  host.record "agent.cancelled" [("task_id", .str l.state.taskId)]
  host.closeFailed v .null false
  result none

/-! ## The policy of a step -/

/-- `_active_policy`. -/
def activePolicy {σ : Type} : Code Answer σ Fault HostPolicy :=
  if host.reloadPolicy then do
    let loaded ← call .loadPolicy
    if loaded.audience ≠ host.hostId then throw (.py (.value "policy audience must equal host id")) else pure loaded
  else pure host.policy

/-- `_recheck_reloaded_policy`: the authority to go on with. -/
def recheckReloadedPolicy (authority : Authority) : Run Authority :=
  if host.reloadPolicy then do
    let fresh ← host.activePolicy
    if authority.policy.isCurrent fresh then pure authority
    else do
      let now ← trustedNow
      let narrowed ← Code.lift (authority.narrowed host v.envelope.manifest v.envelope.permit fresh now)
      match narrowed with
      | none => pure authority
      | some narrowed => do
        host.record "policy.reloaded"
          [("policy_version", .str fresh.policyVersion), ("policy_hash", .str fresh.policyHash)]
        let l ← get
        Code.lift (host.adoptable l.state narrowed)
        pure ⟨.reloaded authority.policy fresh, narrowed⟩
  else pure authority

def recheckStep : Run Unit := do
  let l ← get
  let authority ← host.recheckReloadedPolicy v l.authority
  modify fun l => { l with authority }

/-! ## The approval gate -/

/-- `_approval_failure`. -/
def approvalFailure (event reason : String) : Run Unit := do
  setFailed "approval rejected"
  host.record event [("reason", .str reason)]
  host.recordFailed "approval rejected"

/-- `memory.get("used_approval_ids", [])`, or none where it is not a list of strings. -/
def usedApprovalIds : Value → Option (List String)
  | .dict memory =>
    match Assoc.get? memory "used_approval_ids" with
    | none => some []
    | some (.list ids) => ids.mapM Value.str?
    | some _ => none
  | _ => none

/-- `"expired" in str(error)`. -/
def saysExpired (error : Fault) : Bool := decide ("expired".toList <:+: error.message.toList)

/-- `state.memory[key] = value`. -/
def setMemory (key : String) (value : Value) : Run Unit := do
  let l ← get
  match l.state.memory with
  | .dict memory => setState fun state => { state with memory := .dict (Assoc.set memory key value) }
  | _ => throw (.py (.type "memory is not an object"))

/-- `policy.verify_approval`: the clock is read once the signer is found. -/
def verifyToken (token : ApprovalToken) (tool : String) (arguments : Value) : Run Unit := do
  let l ← get
  let policy := l.authority.policy.current
  let now ← if (policy.approvalAuthority token.signatureKeyId).isSome then trustedNow else pure 0
  Code.lift (host.verifyApproval policy token l.authority.effective l.state.taskId tool arguments
    v.admissionGeneration now)

def redeemToken (token : ApprovalToken) (tool : String) (used : List String) : Run Bool := do
  let l ← get
  call (.unexpired l.authority.effective "before the approval redemption")
  call (.begin "approving")
  let redemption ← exceptSecurity (some <$> call (.redeem token l.authority.effective l.state.taskId)) fun _ =>
    pure none
  match redemption with
  | none => do
    host.approvalFailure "approval.denied" "replayed"
    return false
  | some .cancelled => do
    host.approvalFailure "approval.denied" "cancelled"
    return false
  | some .redeemed => do
    host.record "approval.approved" [("approval_id", .str token.approvalId), ("tool", .str tool),
      ("approved_by", .str token.approvedBy)]
    setMemory "used_approval_ids" (.list ((used ++ [token.approvalId]).map .str))
    host.record "approval.used" [("approval_id", .str token.approvalId), ("tool", .str tool)]
    return true

def approvalGateToken (token : ApprovalToken) (tool : String) (arguments : Value) : Run Bool := do
  let l ← get
  match usedApprovalIds l.state.memory with
  | none => do
    host.approvalFailure "approval.denied" "invalid"
    return false
  | some used =>
    if used.contains token.approvalId then do
      host.approvalFailure "approval.denied" "replayed"
      return false
    else do
      let refusal ← exceptSecurity (do host.verifyToken v token tool arguments; pure none) fun error =>
        pure (some error)
      match refusal with
      | some error => do
        host.approvalFailure (if saysExpired error then "approval.expired" else "approval.denied") "invalid"
        return false
      | none => host.redeemToken token tool used

/-- `_requires_approval`. -/
def requiresApproval (policy : ActivePolicy) (tool : String) : Bool :=
  policy.requiresApprovalFor tool (host.tools.isSideEffecting tool)

def requestApproval (tool : String) (arguments : Value) : Run Unit := do
  let l ← get
  let policy := l.authority.policy.current
  setState fun state => { state with status := .awaitingInput }
  let hash ← Code.lift (host.argumentsHash arguments)
  let request : Dict :=
    [("approval_required", .bool true), ("tool", .str tool),
      ("impact", .str (policy.impactFor tool (host.tools.isSideEffecting tool))), ("arguments_hash", .str hash),
      ("policy_version", .str policy.policyVersion), ("policy_hash", .str policy.policyHash)]
  setState fun state => { state with result := .dict request }
  host.record "approval.requested" request

/-- `_approval_gate`: whether the step goes on. -/
def approvalGate (tool : String) (arguments : Value) : Run Bool := do
  let l ← get
  if host.requiresApproval l.authority.policy tool then
    match approvalToken l.state.memory tool with
    | .error error =>
      if error.isSecurity then do
        host.approvalFailure "approval.denied" "invalid"
        return false
      else throw error
    | .ok none => do
      host.requestApproval tool arguments
      return false
    | .ok (some token) => host.approvalGateToken v token tool arguments
  else return true

/-! ## A tool call -/

inductive PreLaunch where
  | run
  | replay (result : Value)
  | refuse (reason : String)

def driftRefusal (row : EffectRow) (tool : String) (argumentsJson : Text) : Option String :=
  let toolDrift := row.tool != tool
  let argDrift := row.argumentsJson != argumentsJson
  if toolDrift || argDrift then
    let what := if toolDrift && argDrift then "tool and arguments" else if toolDrift then "tool" else "arguments"
    some (s!"effect at this position was recorded for tool {host.env.repr row.tool}; the current " ++
      s!"decision drifts in {what} -- refusing to replay or re-run a drifted effect, " ++
      "reconcile or issue a new call instead")
  else none

/-- A row that is bound to a tool and arguments: `prepared` or `confirmed`. -/
def resumeEffect (row : EffectRow) (effectId tool : String) (arguments : Value) : Run PreLaunch := do
  let argumentsJson ← Code.lift (host.canonical arguments)
  match host.driftRefusal row tool argumentsJson with
  | some reason => return .refuse reason
  | none =>
    if row.state = .confirmed then
      match row.resultJson with
      | none => return .replay .null
      | some stored => do
        let result ← Code.lift ((loads stored).mapError fun message => Fault.py (.value message))
        return .replay result
    else do
      call (.markEffectStarted effectId)
      return .run

/-- `_effect_pre_launch`. -/
def effectPreLaunch (effectId taskId tool : String) (arguments : Value) : Run PreLaunch := do
  let row ← call (.getEffect effectId)
  match row with
  | none => do
    let argumentsJson ← Code.lift (host.canonical arguments)
    call (.recordEffectPrepared effectId taskId tool argumentsJson)
    call (.markEffectStarted effectId)
    return .run
  | some row =>
    match row.state with
    | .started => do
      call (.settleEffect effectId .unknown none (some "host interrupted while the effect was in flight"))
      return .refuse "effect is unknown after an interrupted run; reconcile before re-running"
    | .prepared => host.resumeEffect row effectId tool arguments
    | .confirmed => host.resumeEffect row effectId tool arguments
    | _ => return .refuse s!"effect is {row.state.text}; reconcile it or issue a new call -- never auto-retry"

/-- `_fail_unserializable`. -/
def failUnserializable (source : String) (tool : Option String) (isolationProfile : Option Value) : Run Unit := do
  let result : Dict := [("error", .str "non-serializable content rejected"), ("source", .str source)]
  setState fun state => { state with status := .failed, result := .dict result }
  host.record "content.rejected"
    ([("source", .str source), ("reason", .str "content is not JSON-encodable")] ++
      (tool.elim [] fun tool => [("tool", .str tool)]) ++
      (isolationProfile.elim [] fun profile => [("effect_status", .str "unknown"), ("isolation_profile", profile)]))
  host.record "agent.failed" result

/-- `_effect_refused`. -/
def effectRefused (tool : String) (arguments : Value) (reason : String) : Run Unit := do
  setFailed "tool effect refused"
  host.record "tool.refused" [("tool", .str tool), ("arguments", arguments), ("reason", .str reason)]
  host.recordFailed "tool effect refused"

/-- `_containment_claim`, as an entry of an effect's audit event. -/
def containmentEntry : Dict := host.tools.isolationProfile.elim [] fun profile => [("isolation_profile", profile.1)]

/-- `_assert_side_effecting_contract`. -/
def assertSideEffectingContract (tool : String) : Except Fault Unit := do
  require (host.tools.hasReconcile tool) s!"tool {host.env.repr tool} is side-effecting but has no reconcile target"
  require host.tools.isolationProfile.isSome
    s!"tool {host.env.repr tool} is side-effecting but no IsolationProfile was acknowledged"
  require (host.tools.isolationProfile.any (·.2))
    s!"tool {host.env.repr tool} is side-effecting but the acknowledged IsolationProfile does not contain workers here"

/-- The checks of `tools.invoke` before a launch: the plain copy of the arguments. -/
def checkInvoke (permit : Permit) (tool : String) (arguments : Value) (capability : Option String) :
    Except Fault Dict := do
  match arguments with
  | .dict _ =>
    match host.detachedJson arguments with
    | .ok (.dict arguments) =>
      match permit.grants.find? (·.name == tool) with
      | none => .error (.security s!"tool {host.env.repr tool} is not in the effective permit")
      | some grant => do
        require (host.tools.isIsolated tool || host.tools.threaded.contains tool)
          s!"tool {host.env.repr tool} is not installed"
        (checkConstraints host.env arguments grant.constraints).mapError .py
        if host.tools.isSideEffecting tool then do
          host.assertSideEffectingContract tool
          if capability.isNone then
            .error (.toolExecution
              s!"tool {host.env.repr tool} is side-effecting and must run through the effect ledger"
              none none)
          else .ok arguments
        else .ok arguments
    | _ => .error (.security "tool arguments must be JSON")
  | _ => .error (.security "tool arguments must be an object")

/-- `tools.invoke`. -/
def invokeTool (tool : String) (arguments : Value) (capability : Option String) : Run Value := do
  let l ← get
  let checked ← Code.lift (host.checkInvoke l.authority.effective tool arguments capability)
  let argumentsJson ← Code.lift (host.canonical (.dict checked))
  call (.invoke l.authority.effective tool checked argumentsJson capability)

/-- `self.store.settle_effect`, for a call that has an effect id. -/
def settleIf (effectId : Option String) (state : EffectState) (resultJson : Option Text) (reason : Option String) :
    Run Unit :=
  match effectId with
  | none => pure ()
  | some effectId => call (.settleEffect effectId state resultJson reason)

def requireUnexpiredAtLaunch (effectId : Option String) : Run Unit := do
  let l ← get
  tryCatch (call (.unexpired l.authority.effective "before the tool launch")) fun error =>
    match error with
    | .permitExpired _ => do
      settleIf effectId .prepared none (some "permit expired before the launch; nothing ran")
      throw error
    | _ => throw error

def armLaunch (effectId : Option String) (tool : String) (arguments : Value) : Run (Option String) :=
  match effectId with
  | none => do
    call (.begin "tool")
    return none
  | some effectId => do
    let argumentsJson ← Code.lift (host.canonical arguments)
    let capability ← call (.arm effectId tool argumentsJson)
    return some capability

def disarmLaunch : Option String → Run Unit
  | none => pure ()
  | some capability => call (.disarm capability)

def toolFailure (effectId : Option String) (tool : String) (arguments : Value) (error : Fault) : Run Unit :=
  match error with
  | .toolKilled message => do
    settleIf effectId .unknown none (some "tool killed at deadline")
    setFailed "tool killed at deadline"
    host.record "tool.killed"
      ([("tool", .str tool), ("arguments", arguments), ("error", .str message), ("effect_status", .str "unknown")] ++
        (effectId.elim [] fun _ => host.containmentEntry))
    host.recordFailed "tool killed at deadline"
  | .toolExecution message cause code => do
    settleIf effectId .unknown none (some "tool execution failed")
    setFailed "tool execution failed"
    host.record "tool.failed"
      ([("tool", .str tool), ("arguments", arguments), ("error", .str message),
          ("cause", (cause.map Prod.fst).elim .null .str), ("cause_message", .str ((cause.map Prod.snd).getD ""))] ++
        (code.elim [] fun code => [("error_code", .str code)]) ++
        (effectId.elim [] fun _ => ("effect_status", .str "unknown") :: host.containmentEntry))
    host.recordFailed "tool execution failed"
  | error => throw error

def launchTool (effectId : Option String) (tool : String) (arguments : Value) : Run (Option Value) := do
  let capability ← host.armLaunch effectId tool arguments
  let launch : Run Value := do
    requireUnexpiredAtLaunch effectId
    host.invokeTool tool arguments capability
  let outcome ← tryCatch (some <$> Code.finally_ launch (disarmLaunch capability)) fun error => do
    host.toolFailure effectId tool arguments error
    return none
  match outcome with
  | none => return none
  | some result =>
    if host.isEncodable result then do
      match effectId with
      | none => return some result
      | some effectId => do
        let resultJson ← Code.lift (host.canonical result)
        call (.settleEffect effectId .confirmed (some resultJson) none)
        return some result
    else do
      settleIf effectId .unknown none (some "tool output not serializable")
      host.failUnserializable "tool" (some tool)
        (effectId.bind fun _ => host.tools.isolationProfile.map Prod.fst)
      return none

/-- `state.memory.setdefault("tool_results", {})[tool] = result; state.messages.append(...)`. -/
def recordToolResult (tool : String) (result : Value) : Run Unit := do
  setState fun state => { state with toolCalls := state.toolCalls + 1 }
  let l ← get
  match l.state.memory with
  | .dict memory =>
    match (Assoc.get? memory "tool_results").getD (.dict []) with
    | .dict results => do
      setState fun state =>
        { state with memory := .dict (Assoc.set memory "tool_results" (.dict (Assoc.set results tool result))) }
      match l.state.messages with
      | .list messages =>
        let message := .dict [("role", .str "tool"), ("name", .str tool), ("content", result)]
        setState fun state => { state with messages := .list (messages ++ [message]) }
      | _ => throw (.outside "AttributeError")
    | _ => throw (.py (.type "tool_results is not an object"))
  | _ => throw (.outside "AttributeError")

def goesOn : Bool := false

def finished : Bool := true

def replayTool (effectId tool : String) (arguments result : Value) : Run Bool := do
  let l ← get
  let fits := match host.encodedSize result with
    | .ok size => decide ((size : Int) ≤ l.authority.effective.budget.maxOutputBytes)
    | .error _ => false
  if fits then do
    recordToolResult tool result
    host.record "tool.replayed" [("tool", .str tool), ("arguments", arguments), ("effect_id", .str effectId)]
    return goesOn
  else do
    host.failUnserializable "tool" (some tool) none
    return finished

def executeTool (effectId : Option String) (tool : String) (arguments : Value) : Run Bool := do
  let result ← host.launchTool effectId tool arguments
  match result with
  | none => return finished
  | some result => do
    recordToolResult tool result
    host.record "tool.executed" [("tool", .str tool), ("arguments", arguments)]
    return goesOn

def ledgerTool (tool : String) (arguments : Value) : Run Bool := do
  let l ← get
  if host.tools.isSideEffecting tool && host.tools.isIsolated tool then do
    let effectId := host.effectId l.state.taskId l.state.toolCalls
    call (.begin "side_effecting_tool")
    let before ← host.effectPreLaunch effectId l.state.taskId tool arguments
    match before with
    | .refuse reason => do
      host.effectRefused tool arguments reason
      return finished
    | .replay result => host.replayTool effectId tool arguments result
    | .run => host.executeTool (some effectId) tool arguments
  else host.executeTool none tool arguments

def cancelledBeforeLaunch (tool : String) : Run Bool := do
  let l ← get
  if host.requiresApproval l.authority.policy tool then call (.isTaskCancelled l.state.taskId) else pure false

def proposedTool (l : Local) (decision : ProviderDecision) : Except Fault String := do
  let effective := l.authority.effective
  require (decide (l.state.toolCalls < effective.budget.maxToolCalls)) "tool-call budget exhausted"
  match decision.tool with
  | none => .error (.security "provider proposed a tool action without a tool name")
  | some tool => do
    require (tool != "") "provider proposed a tool action without a tool name"
    if effective.grants.any (·.name == tool) then .ok tool
    else do
      let explanation ← l.authority.policy.current.explainMissingGrant host.env host.order v.envelope.manifest
        v.envelope.permit tool
      .error (.security explanation)

def applyTool (decision : ProviderDecision) : Run Bool := do
  let l ← get
  let tool ← Code.lift (host.proposedTool v l decision)
  let passed ← host.approvalGate v tool decision.arguments
  if passed then do
    let cancelled ← host.cancelledBeforeLaunch tool
    if cancelled then do
      host.approvalFailure "approval.denied" "cancelled"
      return finished
    else do
      call (.unexpired l.authority.effective "before the ledger write")
      host.ledgerTool tool decision.arguments
  else return finished

/-! ## The other decisions -/

def applyContent (source event key : String) (status : Status) (content : Value) : Run Bool := do
  if host.isEncodable content then do
    setState fun state => { state with status, result := content }
    host.record event [(key, content)]
    return finished
  else do
    host.failUnserializable source none none
    return finished

/-- `decision.content or {"error": "provider failed"}`. -/
def failureContent (content : Value) : Value :=
  if content.truthy then content else .dict [("error", .str "provider failed")]

def applyComplete (content : Value) : Run Bool :=
    host.applyContent "complete" "agent.completed" "result" .completed content

def applyAwaitInput (content : Value) : Run Bool :=
  host.applyContent "await_input" "agent.awaiting_input" "request" .awaitingInput content

def applyFail (content : Value) : Run Bool :=
  if host.isEncodable content then host.applyContent "failed" "agent.failed" "result" .failed (failureContent content)
  else host.applyContent "failed" "agent.failed" "result" .failed content

/-- The fields of `AttestationEvidence`, those without a default first. -/
def attestationRequired : List String := ["verifier", "subject", "audience", "measurement", "issued_at", "expires_at"]

def attestationOptional : List String := ["nonce", "claims", "quote", "signature_key_id", "signature"]

/-- `_migration_attestation`: null where the decision carries none. -/
def migrationAttestation : Value → Except Fault Value
  | .dict content =>
    match (Assoc.get? content "attestation").getD .null with
    | .null => .ok .null
    | .dict evidence =>
      if attestationRequired.all (Assoc.contains evidence) &&
          (Assoc.keys evidence).all ((attestationRequired ++ attestationOptional).contains ·) then
        .ok (.dict (evidence ++ (attestationOptional.filter (!Assoc.contains evidence ·)).map fun key =>
          (key, if key = "claims" then .dict [] else .str "")))
      else .error (.py (.type "AttestationEvidence"))
    | _ => .error (.security "migration attestation has invalid shape")
  | _ => .ok .null

def measurementEntry : Value → Dict
  | .dict evidence => [("attested_measurement", (Assoc.get? evidence "measurement").getD .null)]
  | _ => []

def preflightMigration (destination challenge : String) (authority : Authority) : Run (Dict × Authority) :=
  if host.hasMigrationPreflight then do
    let measurement ← call (.preflight destination challenge)
    let authority ← host.recheckReloadedPolicy v authority
    Code.lift (authority.policy.authorizeMigration host.env v.envelope.permit destination)
    return ([("preflight_measurement", measurement)], authority)
  else return ([], authority)

def delegatedPermit (effective : Permit) (destination challenge : String) (attestation : Value) : Permit :=
  { effective with
    issuer := host.hostId, audience := destination
    nonce := if host.requireMigrationChallenge then challenge else effective.nonce
    delegationAllowed := false
    attestation := if host.requireMigrationChallenge then .null else attestation }

def migratedEnvelope (l : Local) (delegated : Permit) : Except Fault AgentEnvelope := do
  let previousSequence := (l.audit.events.getLast?.map (·.sequence)).getD 0 + 1
  let state ← projectStateForMigration { l.state with checkpointGeneration := 0 } delegated.grants
  return host.sealEnvelope
    { manifest := v.envelope.manifest, permit := delegated, state, previousAuditHash := l.audit.head,
      previousAuditSequence := previousSequence, previousAuditHostId := host.hostId,
      previousAuditSignatureKeyId := host.keyId,
      previousAuditSignature := host.signAuditHead l.state.taskId l.audit.head previousSequence none,
      signatureKeyId := "", signature := "" }

def applyMigrate (decision : ProviderDecision) : Run AgentEnvelope := do
  match decision.destination with
  | none => throw (.security "migration proposal lacks a destination")
  | some "" => throw (.security "migration proposal lacks a destination")
  | some destination => do
    let l ← get
    Code.lift (l.authority.policy.authorizeMigration host.env v.envelope.permit destination)
    let attestation ← Code.lift (migrationAttestation decision.content)
    call (.verifyMigration attestation destination l.authority.effective.nonce)
    let challenge ← call .challenge
    let (preflight, authority) ← host.preflightMigration v destination challenge l.authority
    setState fun state => { state with status := .ready }
    let challengeEntry : Dict := if host.requireMigrationChallenge then [("challenge_required", .bool true)] else []
    setMemory "migration" (.dict ([("from", .str host.hostId), ("to", .str destination)] ++
      measurementEntry attestation ++ preflight ++ challengeEntry))
    setState fun state => { state with result := .dict [("destination", .str destination)] }
    host.record "agent.migrating" [("destination", .str destination)]
    let l ← get
    Code.lift (host.migratedEnvelope v l (host.delegatedPermit authority.effective destination challenge attestation))

/-- What `_apply_decision` returns: whether the run is finished, and the envelope of a migration. -/
structure Applied where
  finished : Bool
  migration : Option AgentEnvelope

def applyHere (decision : ProviderDecision) : Run Bool :=
  match decision.kind with
  | "tool" => host.applyTool v decision
  | "complete" => host.applyComplete decision.content
  | "await_input" => host.applyAwaitInput decision.content
  | _ => host.applyFail decision.content

/-- `_apply_decision`. -/
def applyDecision (decision : ProviderDecision) : Run Applied := do
  let l ← get
  call (.unexpired l.authority.effective "after the provider decision")
  if decision.kind = "migrate" then do
    let migrated ← host.applyMigrate v decision
    return ⟨true, some migrated⟩
  else do
    let finished ← host.applyHere v decision
    return ⟨finished, none⟩

end AgentHost

end Portmark.Host
