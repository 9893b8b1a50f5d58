/-
The runtime store of storage.py: the tables a run reads and writes, the operations of the effect
ledger and of the migration outbox, the prune, and the transaction of `_persist`. A table is a
function from keys to rows; an operation that raises leaves the store as it was, as the rollback
of a transaction does.
-/
import Mathlib.Logic.Function.Basic
import Portmark.Host.Types

namespace Portmark.Host

open Lib Lib.Json Security

/-! ## Tables -/

structure NonceRow where
  subject : String
  audience : String
  taskId : String
  expiresAt : Option Int
deriving DecidableEq

structure CheckpointRow where
  generation : Int
  closed : Bool
  state : AgentState
  owner : Option (String × String)
  authorityCeiling : Option Text

structure AuditHead where
  headHash : String
  sequence : Int
  hostId : String
  signatureKeyId : String
  signature : String
  signedAt : Int

inductive EffectState where
  | prepared
  | started
  | confirmed
  | unknown
  | reconciling
  | reconciled
deriving DecidableEq

def EffectState.text : EffectState → String
  | .prepared => "prepared"
  | .started => "started"
  | .confirmed => "confirmed"
  | .unknown => "unknown"
  | .reconciling => "reconciling"
  | .reconciled => "reconciled"

structure EffectRow where
  taskId : String
  tool : String
  state : EffectState
  argumentsJson : Text
  resultJson : Option Text
  reason : Option String
  claimId : Option String
  leaseExpiresAt : Option Int
deriving DecidableEq

inductive OutboxStatus where
  | pending
  | delivered
  | dead
deriving DecidableEq

structure OutboxRow where
  destination : String
  sealedEnvelope : Text
  status : OutboxStatus
  attemptCount : Int
  claimedBy : Option String
  leaseExpiresAt : Option Int
  deadReason : Option String
  receipt : Option Text
  deliveredAt : Option Int
deriving DecidableEq

structure Store where
  nonces : String → Option NonceRow
  checkpoints : String → Option CheckpointRow
  auditEvents : String → List AuditEvent
  auditHeads : Assoc AuditHead
  outbox : String → Option OutboxRow
  receipts : String → Option MigrationReceipt
  cancelled : String → Bool
  effects : String → Option EffectRow
  floorMarkers : String → Option (Int × Bool)
  timeFloor : Int

def Store.empty : Store :=
  ⟨fun _ => none, fun _ => none, fun _ => [], [], fun _ => none, fun _ => none, fun _ => false, fun _ => none,
    fun _ => none, 0⟩

namespace Store

/-! ## Reads -/

/-- `load_checkpoint`: the state of the row. -/
def loadCheckpoint (store : Store) (taskId : String) : Option AgentState := (store.checkpoints taskId).map (·.state)

/-- `load_authority_ceiling`. -/
def loadAuthorityCeiling (store : Store) (taskId : String) : Option Text :=
  (store.checkpoints taskId).bind (·.authorityCeiling)

/-- `audit_head`, outside a transaction. -/
def auditHead (store : Store) (taskId : String) : Option (String × Int) :=
  if (store.auditEvents taskId).isEmpty then none
  else (Assoc.get? store.auditHeads taskId).map fun head => (head.headHash, head.sequence)

/-- `cancel_task`. -/
def cancelTask (store : Store) (taskId : String) : Store :=
  { store with cancelled := Function.update store.cancelled taskId true }

/-- `replace_migration_receipt`. -/
def replaceMigrationReceipt (store : Store) (taskId : String) (receipt : MigrationReceipt) : Store :=
  { store with receipts := Function.update store.receipts taskId (some receipt) }

/-! ## The effect ledger -/

def setEffect (store : Store) (effectId : String) (row : EffectRow) : Store :=
  { store with effects := Function.update store.effects effectId (some row) }

/-- `record_effect_prepared`: the first row of an effect stays. -/
def recordEffectPrepared (store : Store) (effectId taskId tool : String) (argumentsJson : Text) : Store :=
  match store.effects effectId with
  | some _ => store
  | none => store.setEffect effectId ⟨taskId, tool, .prepared, argumentsJson, none, none, none, none⟩

/-- `mark_effect_started`. -/
def markEffectStarted (store : Store) (effectId : String) : Store :=
  match store.effects effectId with
  | some row => if row.state = .prepared then store.setEffect effectId { row with state := .started } else store
  | none => store

/-- `settle_effect`: whatever state the row is in. -/
def settleEffect (store : Store) (effectId : String) (state : EffectState) (resultJson : Option Text)
    (reason : Option String) : Store :=
  match store.effects effectId with
  | some row => store.setEffect effectId { row with state, resultJson, reason }
  | none => store

def leaseLapsed (row : EffectRow) (now : Int) : Bool :=
  match row.leaseExpiresAt with
  | none => true
  | some lease => decide (lease ≤ now)

/-- `claim_effect_for_reconcile`, at the store's time. -/
def claimEffectForReconcile (store : Store) (effectId claimId : String) (leaseSeconds now : Int) : Bool × Store :=
  match store.effects effectId with
  | none => (false, store)
  | some row =>
    if row.state = .unknown ∨ (row.state = .reconciling ∧ leaseLapsed row now = true) then
      (true, store.setEffect effectId
        { row with state := .reconciling, claimId := some claimId, leaseExpiresAt := some (now + leaseSeconds) })
    else (false, store)

def ownedBy (row : EffectRow) (claimId : String) : Bool :=
  row.state == .reconciling && row.claimId == some claimId

/-- `settle_effect_from_claim`: the owning claim, and a live lease. -/
def settleEffectFromClaim (store : Store) (effectId claimId : String) (state : EffectState) (resultJson : Option Text)
    (reason : Option String) (now : Int) : Bool × Store :=
  match store.effects effectId with
  | none => (false, store)
  | some row =>
    if ownedBy row claimId && decide (now < row.leaseExpiresAt.getD 0) then
      (true, store.setEffect effectId { row with state, resultJson, reason, claimId := none, leaseExpiresAt := none })
    else (false, store)

/-- `release_effect_claim`. -/
def releaseEffectClaim (store : Store) (effectId claimId : String) : Bool × Store :=
  match store.effects effectId with
  | none => (false, store)
  | some row =>
    if ownedBy row claimId then
      (true, store.setEffect effectId
        { row with
          state := .unknown, resultJson := none, reason := some "reconcile failed; claim released",
          claimId := none, leaseExpiresAt := none })
    else (false, store)

/-- `renew_effect_claim`. -/
def renewEffectClaim (store : Store) (effectId claimId : String) (leaseSeconds now : Int) : Bool × Store :=
  match store.effects effectId with
  | none => (false, store)
  | some row =>
    if ownedBy row claimId then
      (true, store.setEffect effectId { row with leaseExpiresAt := some (now + leaseSeconds) })
    else (false, store)

/-! ## The migration outbox -/

def changeOutbox (store : Store) (taskId : String) (change : OutboxRow → Option OutboxRow) : Store :=
  match (store.outbox taskId).bind change with
  | some row => { store with outbox := Function.update store.outbox taskId (some row) }
  | none => store

/-- `_is_live_holder`. -/
def isLiveHolder (row : OutboxRow) (workerId : String) (now : Int) : Bool :=
  row.claimedBy == some workerId && decide (now < row.leaseExpiresAt.getD 0)

/-- `claim_migrations` of one row. -/
def claimMigration (store : Store) (taskId workerId : String) (leaseSeconds now : Int) : Store :=
  store.changeOutbox taskId fun row =>
    if row.status = .pending ∧ (row.claimedBy = none ∨ row.leaseExpiresAt.getD 0 ≤ now) then
      some { row with claimedBy := some workerId, leaseExpiresAt := some (now + leaseSeconds) }
    else none

/-- `release_migration`. -/
def releaseMigration (store : Store) (taskId workerId : String) (now : Int) : Store :=
  store.changeOutbox taskId fun row =>
    if isLiveHolder row workerId now then some { row with claimedBy := none, leaseExpiresAt := none } else none

/-- `record_migration_attempt`. -/
def recordMigrationAttempt (store : Store) (taskId : String) (workerId : Option String) (now : Int) : Store :=
  store.changeOutbox taskId fun row =>
    match workerId with
    | some workerId => if isLiveHolder row workerId now then some
      { row with attemptCount := row.attemptCount + 1 } else none
    | none => some { row with attemptCount := row.attemptCount + 1 }

/-- `dead_letter_migration`. -/
def deadLetterMigration (store : Store) (taskId workerId reason : String) (now : Int) : Store :=
  store.changeOutbox taskId fun row =>
    if isLiveHolder row workerId now && row.status == .pending then
      some { row with status := .dead, deadReason := some reason, claimedBy := none, leaseExpiresAt := none }
    else none

/-- `requeue_migration`. -/
def requeueMigration (store : Store) (taskId : String) : Store :=
  store.changeOutbox taskId fun row =>
    if row.status = .dead then
      some { row with status := .pending, deadReason := none, claimedBy := none, leaseExpiresAt := none }
    else none

/-- `mark_migration_delivered`, with the receipt the host has verified. -/
def markMigrationDelivered (store : Store) (taskId : String) (receipt : Text) (now : Int) : Store :=
  store.changeOutbox taskId fun row =>
    some { row with status := .delivered, receipt := some receipt, deliveredAt := some now }

/-! ## The prune -/

/-- A nonce record that `prune` may delete: its stored expiry is before the cutoff. -/
def nonceEligible (cutoff : Int) (row : NonceRow) : Bool :=
  match row.expiresAt with
  | some expiresAt => decide (expiresAt < cutoff)
  | none => false

/-- An outbox row that `prune` may delete: delivered with a receipt, before the cutoff. -/
def outboxEligible (cutoff : Int) (row : OutboxRow) : Bool :=
  row.status == .delivered && row.receipt.isSome &&
    (match row.deliveredAt with
      | some deliveredAt => decide (deliveredAt < cutoff)
      | none => false)

/-- One applied batch of `prune`: the eligible rows among the keys it holds. -/
def prune (store : Store) (nonceCutoff migrationCutoff : Int) (batch : String → Bool) : Store :=
  { store with
    nonces := fun key => (store.nonces key).filter fun row => !(batch key && nonceEligible nonceCutoff row)
    outbox := fun key => (store.outbox key).filter fun row => !(batch key && outboxEligible migrationCutoff row) }

/-! ## The transactions -/

/-- `consume_nonce`. -/
def consumeNonce (store : Store) (nonce : String) (row : NonceRow) : Except Fault Store :=
  match store.nonces nonce with
  | some _ => .error (.security "permit nonce has already been consumed")
  | none => .ok { store with nonces := Function.update store.nonces nonce (some row) }

/-- `TIME_FLOOR_CADENCE_SECONDS`. -/
def timeFloorCadenceSeconds : Int := 60

/-- `advance_time_floor`. -/
def advanceTimeFloor (store : Store) (now : Int) : Store :=
  if now - timeFloorCadenceSeconds < store.timeFloor then store else { store with timeFloor := now }

/-- One event of `append_audit_events`, with the signature of the head it gives. -/
def appendAuditEvent (host : AgentHost) (taskId : String) (signedAt : Int) (store : Store) (event : AuditEvent) :
    Except Fault Store := do
  let current := store.auditEvents taskId
  require (decide (event.sequence = current.length)) "audit event sequence is not contiguous"
  let expectedPrevious := match current.getLast? with
    | some last => last.hash
    | none => event.previous
  require (event.previous == expectedPrevious) "audit event previous hash does not match stored head"
  require (!(current.map (·.hash)).contains event.hash) "audit event hash already exists"
  let sequence := event.sequence + 1
  return { store with
    auditEvents := Function.update store.auditEvents taskId (current ++ [event])
    auditHeads := Assoc.set store.auditHeads taskId
      { headHash := event.hash, sequence, hostId := host.hostId, signatureKeyId := host.keyId,
        signature := host.signAuditHead taskId event.hash sequence (some signedAt), signedAt } }

/-- `append_audit_events`. -/
def appendAuditEvents (host : AgentHost) (taskId : String) (signedAt : Int) (store : Store) (events : List AuditEvent) :
    Except Fault Store :=
  events.foldlM (appendAuditEvent host taskId signedAt) store

/-- `_check_owner`. -/
def checkOwner (stored asserted : Option (String × String)) : Except Fault Unit :=
  if stored = asserted then .ok ()
  else if stored = none then
    .error (.security ("legacy checkpoint has no stored owner and cannot be resumed safely after upgrade. " ++
      "Submit it as a new task."))
  else .error (.security "checkpoint belongs to a different owner")

/-- `save_checkpoint`: the new generation. -/
def saveCheckpoint (store : Store) (taskId : String) (state : AgentState) (expectedGeneration : Int) (closed : Bool)
    (owner : Option (String × String)) (authorityCeiling : Option Text) : Except Fault (Int × Store) :=
  if !closed && store.cancelled taskId then .error .taskCancelled
  else
    match store.checkpoints taskId with
    | none => do
      require (decide (expectedGeneration = 0)) "stale checkpoint generation"
      return (1, { store with
        checkpoints := Function.update store.checkpoints taskId
          (some ⟨1, closed, { state with checkpointGeneration := 1 }, owner, authorityCeiling⟩) })
    | some row => do
      require (!row.closed) "task checkpoint is closed"
      require (decide (row.generation = expectedGeneration)) "stale checkpoint generation"
      checkOwner row.owner owner
      let generation := expectedGeneration + 1
      return (generation, { store with
        checkpoints := Function.update store.checkpoints taskId
          (some ⟨generation, closed, { state with checkpointGeneration := generation }, row.owner,
          row.authorityCeiling⟩) })

/-- `enqueue_migration`: keep-first, and loud about a different envelope. -/
def enqueueMigration (env : Env) (store : Store) (taskId destination : String) (sealedEnvelope : Text) :
    Except Fault Store :=
  if store.cancelled taskId then .error .taskCancelled
  else
    match store.outbox taskId with
    | some row =>
      if row.sealedEnvelope = sealedEnvelope ∧ row.destination = destination then .ok store
      else .error (.security s!"migration outbox already holds a different envelope for task {env.repr taskId}")
    | none => .ok { store with
        outbox := Function.update store.outbox taskId
          (some ⟨destination, sealedEnvelope, .pending, 0, none, none, none, none, none⟩) }

/-- `store_migration_receipt`: keep-first. -/
def storeMigrationReceipt (store : Store) (taskId : String) (receipt : MigrationReceipt) : Store :=
  match store.receipts taskId with
  | some _ => store
  | none => { store with receipts := Function.update store.receipts taskId (some receipt) }

end Store

/-- What `_persist` binds a destination receipt to. -/
structure ReceiptBinding where
  originalTaskId : String
  sourceHostId : String
  permitNonce : String
  envelopeDigest : String
  destinationAttestation : Option Value

/-- One call of `_persist`, past its size check. -/
structure Save where
  taskId : String
  effective : Permit
  state : AgentState
  nonce : Option (String × NonceRow)
  migrated : Bool
  events : List AuditEvent
  auditHead : String
  closed : Bool
  owner : Option (String × String)
  authorityCeiling : Option Text
  binding : Option ReceiptBinding
  migration : Option (String × Text)

namespace Store

def freshWithHistory : String := "task already has audit history; refusing a fresh admission"

def saveNonce (store : Store) (s : Save) : Except Fault Store :=
  match s.nonce with
  | none => .ok store
  | some (nonce, row) => do
    require (s.migrated || !Assoc.contains store.auditHeads s.taskId) freshWithHistory
    store.consumeNonce nonce row

def saveReceipt (host : AgentHost) (store : Store) (s : Save) (generation signedAt : Int) : Store :=
  match s.binding with
  | none => store
  | some binding =>
    let bindings : ReceiptBindings :=
      { taskId := binding.originalTaskId, sourceHostId := binding.sourceHostId, destinationHostId := host.hostId,
        permitNonce := binding.permitNonce, envelopeDigest := binding.envelopeDigest,
        destinationCheckpointGeneration := generation, destinationAuditHead := s.auditHead, acceptedAt := signedAt }
    store.storeMigrationReceipt s.taskId
      ⟨bindings, binding.destinationAttestation, host.signMigrationReceipt bindings binding.destinationAttestation⟩

def saveMigration (env : Env) (store : Store) (s : Save) : Except Fault Store :=
  match s.migration with
  | some (destination, sealedEnvelope) =>
    if s.closed then store.enqueueMigration env s.taskId destination sealedEnvelope else .ok store
  | none => .ok store

def save (host : AgentHost) (store : Store) (s : Save) (signedAt : Int) : Except Fault (Int × Store) := do
  let store ← store.saveNonce s
  let store ← appendAuditEvents host s.taskId signedAt (store.advanceTimeFloor signedAt) s.events
  let (generation, store) ← store.saveCheckpoint s.taskId s.state s.state.checkpointGeneration s.closed s.owner
    s.authorityCeiling
  let store ← (store.saveReceipt host s generation signedAt).saveMigration host.env s
  return (generation, store)

inductive Redemption where
  | redeemed
  | cancelled
deriving DecidableEq

/-- The approval transaction of `_approval_gate`: a cancelled task rolls the nonce back. -/
def redeem (store : Store) (nonce : String) (row : NonceRow) (taskId : String) (now : Int) :
    Except Fault (Redemption × Store) := do
  let consumed ← store.consumeNonce nonce row
  let consumed := consumed.advanceTimeFloor now
  if consumed.cancelled taskId then return (.cancelled, store) else return (.redeemed, consumed)

end Store

end Portmark.Host
