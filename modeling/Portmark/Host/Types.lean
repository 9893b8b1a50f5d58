/-
The data of a run of host.py: the agent's state and envelope (models.py), the audit log of
security.py, provider decisions, approval tokens, migration receipts and run results, with the
`asdict` form of what is hashed, sized or sent. `AgentHost` is what a host is configured with; what its
libraries compute (digests, signatures, the text of a float) is opaque.
-/
import Portmark.Security.Json
import Portmark.Security.Permit

namespace Portmark.Host

open Lib Lib.Json Security

/-! ## States and envelopes -/

inductive Status where
  | ready
  | running
  | awaitingInput
  | migrating
  | completed
  | failed
deriving DecidableEq

def Status.text : Status → String
  | .ready => "ready"
  | .running => "running"
  | .awaitingInput => "awaiting_input"
  | .migrating => "migrating"
  | .completed => "completed"
  | .failed => "failed"

/-- `AgentState`. The memory and the messages come from a caller, so any value can stand there. -/
structure AgentState where
  taskId : String
  goal : String
  checkpointGeneration : Int
  step : Int
  toolCalls : Int
  memory : Value
  messages : Value
  status : Status
  result : Value

/-- `asdict(state)`. -/
def AgentState.asdict (state : AgentState) : Value :=
  .dict [("task_id", .str state.taskId), ("goal", .str state.goal),
    ("checkpoint_generation", .int state.checkpointGeneration), ("step", .int state.step),
    ("tool_calls", .int state.toolCalls), ("memory", state.memory), ("messages", state.messages),
    ("status", .str state.status.text), ("result", state.result)]

/-- `asdict` of the budget, the grants, the manifest and the permit. -/
def budgetDict (budget : ResourceBudget) : Value :=
  .dict [("max_steps", .int budget.maxSteps), ("max_tool_calls", .int budget.maxToolCalls),
    ("max_output_bytes", .int budget.maxOutputBytes)]

def projectionValue (make : List Value → Value) : Option (List String) → Value
  | none => .null
  | some fields => make (fields.map .str)

def grantDict (grant : ToolGrant) : Value :=
  .dict [("name", .str grant.name), ("constraints", .dict grant.constraints),
    ("output_projection", projectionValue .tuple grant.outputProjection)]

def manifestDict (manifest : AgentManifest) : Value :=
  .dict [("agent_id", .str manifest.agentId), ("version", .str manifest.version),
    ("provider", .str manifest.provider), ("requested_tools", .tuple (manifest.requestedTools.map .str)),
    ("component_digest", .str manifest.componentDigest)]

def permitDict (permit : Permit) : Value :=
  .dict [("issuer", .str permit.issuer), ("subject", .str permit.subject), ("audience", .str permit.audience),
    ("expires_at", .int permit.expiresAt), ("nonce", .str permit.nonce),
    ("grants", .tuple (permit.grants.map grantDict)), ("budget", budgetDict permit.budget),
    ("delegation_allowed", .bool permit.delegationAllowed), ("attestation", permit.attestation)]

structure AgentEnvelope where
  manifest : AgentManifest
  permit : Permit
  state : AgentState
  previousAuditHash : String
  previousAuditSequence : Int
  previousAuditHostId : String
  previousAuditSignatureKeyId : String
  previousAuditSignature : String
  signatureKeyId : String
  signature : String

/-- `asdict(envelope)`. -/
def AgentEnvelope.asdict (envelope : AgentEnvelope) : Value :=
  .dict [("manifest", manifestDict envelope.manifest), ("permit", permitDict envelope.permit),
    ("state", envelope.state.asdict), ("previous_audit_hash", .str envelope.previousAuditHash),
    ("previous_audit_sequence", .int envelope.previousAuditSequence),
    ("previous_audit_host_id", .str envelope.previousAuditHostId),
    ("previous_audit_signature_key_id", .str envelope.previousAuditSignatureKeyId),
    ("previous_audit_signature", .str envelope.previousAuditSignature),
    ("signature_key_id", .str envelope.signatureKeyId), ("signature", .str envelope.signature)]

/-- A truthy `previous_audit_hash`: the envelope of a migration. -/
def AgentEnvelope.migrates (envelope : AgentEnvelope) : Bool := envelope.previousAuditHash != ""

/-- `_MIGRATION_TASK_NAMESPACE`. -/
def migrationTaskNamespace : String := "mig::"

/-- `_namespaced_migration_task_id`. -/
def namespacedMigrationTaskId (sourceHostId taskId : String) : String :=
  migrationTaskNamespace ++ toString sourceHostId.length ++ "::" ++ sourceHostId ++ "::" ++ taskId

def AgentEnvelope.storedTaskId (envelope : AgentEnvelope) : String :=
  if envelope.migrates then namespacedMigrationTaskId envelope.previousAuditHostId envelope.state.taskId
  else envelope.state.taskId

/-! ## Decisions, approvals, receipts, results -/

structure RawDecision where
  kind : Option Value
  tool : Option Value
  arguments : Option Value
  content : Option Value
  destination : Option Value

/-- A `ProviderDecision` of the checked shape; the arguments are null or an object. -/
structure ProviderDecision where
  kind : String
  tool : Option String
  arguments : Value
  content : Value
  destination : Option String

structure ApprovalToken where
  approvalId : String
  tool : String
  subject : String
  audience : String
  taskId : String
  permitNonce : String
  checkpointGeneration : Int
  argumentsHash : String
  policyHash : String
  approvedBy : String
  issuedAt : Int
  expiresAt : Int
  signatureKeyId : String
  signature : String
deriving DecidableEq

/-- `token.unsigned_dict()`. -/
def ApprovalToken.unsignedDict (token : ApprovalToken) : Value :=
  .dict [("approval_id", .str token.approvalId), ("tool", .str token.tool), ("subject", .str token.subject),
    ("audience", .str token.audience), ("task_id", .str token.taskId), ("permit_nonce", .str token.permitNonce),
    ("checkpoint_generation", .int token.checkpointGeneration), ("arguments_hash", .str token.argumentsHash),
    ("policy_hash", .str token.policyHash), ("approved_by", .str token.approvedBy), ("issued_at", .int token.issuedAt),
    ("expires_at", .int token.expiresAt), ("signature_key_id", .str token.signatureKeyId)]

structure ReceiptBindings where
  taskId : String
  sourceHostId : String
  destinationHostId : String
  permitNonce : String
  envelopeDigest : String
  destinationCheckpointGeneration : Int
  destinationAuditHead : String
  acceptedAt : Int
deriving DecidableEq

structure MigrationReceipt where
  bindings : ReceiptBindings
  destinationAttestation : Option Value
  signature : String

/-! ## The audit log -/

structure AuditEvent where
  sequence : Int
  event : String
  details : Dict
  previous : String
  hostId : String
  hash : String

structure AuditLog where
  head : String
  startSequence : Int
  hostId : String
  events : List AuditEvent

/-- `audit_event_record`, at `AUDIT_HASH_VERSION`. -/
def auditEventRecord (sequence : Int) (event : String) (details : Dict) (previous hostId : String) : Value :=
  .dict [("sequence", .int sequence), ("event", .str event), ("details", .dict details), ("previous", .str previous),
    ("host_id", .str hostId), ("hash_version", .int 2)]

structure RunResult where
  status : Status
  taskId : String
  result : Value
  checkpoint : Option AgentState
  audit : List AuditEvent
  migrationEnvelope : Option AgentEnvelope
  migrationReceipt : Option MigrationReceipt

/-! ## Tools -/

structure ToolRegistry where
  sideEffecting : List String
  isolated : List String
  threaded : List String
  reconcilable : List String
  isolationProfile : Option (Value × Bool)

namespace ToolRegistry

def isSideEffecting (tools : ToolRegistry) (name : String) : Bool := tools.sideEffecting.contains name

def isIsolated (tools : ToolRegistry) (name : String) : Bool := tools.isolated.contains name

/-- `has_reconcile`. -/
def hasReconcile (tools : ToolRegistry) (name : String) : Bool :=
  tools.isolated.contains name && tools.reconcilable.contains name

end ToolRegistry

/-! ## The host -/

structure AgentHost where
  hostId : String
  env : Env
  order : SetOrder
  floatText : ℚ → Text
  sha256 : Text → String
  blake2b : Text → String
  keyId : String
  signAuditHead : String → String → Int → Option Int → String
  sealSignature : AgentEnvelope → String
  signMigrationReceipt : ReceiptBindings → Option Value → String
  verifySignature : String → Text → String → Bool
  policy : HostPolicy
  reloadPolicy : Bool
  tools : ToolRegistry
  providers : Assoc (Option String)
  hasMigrationAttester : Bool
  hasMigrationPreflight : Bool
  requireMigrationChallenge : Bool

namespace AgentHost

variable (host : AgentHost)

/-- `canonical_json`, decoded. -/
def canonical (v : Value) : Except Fault Text := (canonicalJson host.floatText v).mapError .py

/-- `len(canonical_json(v))`. -/
def encodedSize (v : Value) : Except Fault Nat := utf8Size <$> host.canonical v

/-- `detached_json`. -/
def detachedJson (v : Value) : Except Fault Value := do
  let text ← host.canonical v
  (loads text).mapError fun message => .py (.value message)

/-- `_is_encodable`. -/
def isEncodable (v : Value) : Bool :=
  match host.canonical v with
  | .ok _ => true
  | .error _ => false

/-- `arguments_hash`. -/
def argumentsHash (arguments : Value) : Except Fault String := host.sha256 <$> host.canonical arguments

/-- `effect_id`: the position of a call in its task. -/
def effectId (taskId : String) (sequence : Int) : String :=
  host.sha256 (dumps host.floatText (.dict [("task_id", .str taskId), ("sequence", .int sequence)]))

/-- `migration_envelope_digest(asdict(envelope))`. -/
def migrationEnvelopeDigest (envelope : AgentEnvelope) : Except Fault String :=
  host.blake2b <$> host.canonical envelope.asdict

/-- `_checkpoint_fits`. -/
def checkpointFits (effective : Permit) (state : AgentState) : Except Fault Bool := do
  let size ← host.encodedSize state.asdict
  return decide ((size : Int) ≤ effective.budget.maxOutputBytes)

/-- `signer.seal`. -/
def sealEnvelope (envelope : AgentEnvelope) : AgentEnvelope :=
  let keyed := { envelope with signatureKeyId := host.keyId }
  { keyed with signature := host.sealSignature keyed }

/-- `AuditLog.append`: the event is hashed before it is stored. -/
def appendEvent (log : AuditLog) (event : String) (details : Dict) : Except Fault AuditLog := do
  let sequence := log.startSequence + log.events.length
  let text ← host.canonical (auditEventRecord sequence event details log.head log.hostId)
  let hash := host.sha256 text
  return { log with head := hash, events := log.events ++ [⟨sequence, event, details, log.head, log.hostId, hash⟩] }

end AgentHost

end Portmark.Host
