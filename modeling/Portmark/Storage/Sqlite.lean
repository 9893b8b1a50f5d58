/-
`SQLiteRuntimeStore` and `_SQLiteTransaction` of storage.py: the tables of its schema, with their
primary keys and uniqueness constraints, and the statements each call runs on them. An integer
parameter must fit 64 bits, or the driver raises before the statement runs.
-/
import Portmark.Lib.Json.Ascii
import Portmark.Lib.Table
import Portmark.Storage.Basic

namespace Portmark.Storage

open Lib Lib.Json Host

/-! ## Parameters -/

/-- The driver binds integer parameters, or raises `OverflowError`. -/
def bindInts (params : List Int) : Except StoreError Unit :=
  if params.all fitsInt64 then .ok () else .error .overflow

/-- A `CheckpointCodec`, by what it seals and opens: the task id, the generation, the text and the
binding to the other columns. Sealing draws a nonce. -/
structure CheckpointCodec where
  sealText : Text → String → Int → Text → Value → Text
  openStored : String → Int → Text → Value → Except String Text

/-! ## Tables -/

structure NonceRecord where
  nonce : String
  row : NonceRow

structure CheckpointRecord where
  taskId : String
  status : String
  checkpointJson : Text
  generation : Int
  closed : Int
  owner : Option String × Option String
  authorityCeiling : Option Text

structure EventRecord where
  taskId : String
  sequence : Int
  hostId : String
  event : String
  detailsJson : Text
  previousHash : String
  hash : String

structure HeadRecord where
  taskId : String
  head : Head

structure OutboxRecord where
  taskId : String
  row : OutboxRow

structure ReceiptRecord where
  taskId : String
  receiptJson : Text

structure WitnessRecord where
  hostId : String
  hostSeq : Int
  receiptHash : String
  receiptJson : Text

structure TimeFloorRecord where
  singleton : Int
  floorAt : Int

structure SQLiteRuntimeStore where
  consumedNonces : Table NonceRecord
  checkpoints : Table CheckpointRecord
  auditEvents : Table EventRecord
  auditHeads : Table HeadRecord
  migrationOutbox : Table OutboxRecord
  migrationReceipts : Table ReceiptRecord
  taskCancellations : Table String
  witnessReceipts : Table WitnessRecord
  timeFloor : Table TimeFloorRecord

/-- `PRIMARY KEY (task_id, sequence)` and `UNIQUE (task_id, hash)` of the audit events. -/
def EventRecord.clash (a b : EventRecord) : Bool :=
  decide (b.taskId = a.taskId ∧ b.sequence = a.sequence) || decide (b.taskId = a.taskId ∧ b.hash = a.hash)

/-! ## Stored checkpoints -/

/-- `_effective_closed`. -/
def effectiveClosed (closed : Bool) (status : String) : Bool := closed || status == "completed" || status == "failed"

def optionalString : Option String → Value
  | some s => .str s
  | none => .null

/-- `_row_binding`. -/
def rowBinding (closed : Bool) (status : String) (owner : Option String × Option String)
    (authorityCeiling : Option Text) : Value :=
  .dict ([("closed", .bool (effectiveClosed closed status)),
    ("owner", .list [optionalString owner.1, optionalString owner.2])] ++
    match authorityCeiling with
    | some ceiling => [("authority_ceiling", .str (String.ofList ceiling))]
    | none => [])

section Sqlite

variable (floatText : ℚ → Text)

/-- `_encode_checkpoint`, with the nonce a codec draws. -/
def encodeCheckpoint (codec : Option CheckpointCodec) (draw : Text) (taskId : String) (state : AgentState)
    (generation : Int) (closed : Bool) (owner : Option String × Option String) (authorityCeiling : Option Text) :
    Text :=
  let text := asciiDumps floatText { state with checkpointGeneration := generation }.asdict
  match codec with
  | some codec =>
    codec.sealText draw taskId generation text (rowBinding closed state.status.text owner authorityCeiling)
  | none => text

/-- `_decode_row` with a keyring: the row opens, and the sealed status is that of its column. -/
def openRow (codec : CheckpointCodec) (row : CheckpointRecord) : Except StoreError Unit :=
  match codec.openStored row.taskId row.generation row.checkpointJson
      (rowBinding (row.closed != 0) row.status row.owner row.authorityCeiling) with
  | .error message => .error (.checkpointCrypto message)
  | .ok text =>
    match loads text with
    | .ok (.dict blob) =>
      match Assoc.get? blob "status" with
      | some (.str status) =>
        if status = row.status then .ok ()
        else .error (.checkpointCrypto "status column does not match the sealed state")
      | _ => .error (.checkpointCrypto "status column does not match the sealed state")
    | .ok _ => .error (.python "the sealed state is no object")
    | .error message => .error (.python message)

namespace SQLiteRuntimeStore

def new : SQLiteRuntimeStore := ⟨[], [], [], [], [], [], [], [], [⟨1, 0⟩]⟩

/-- `cancel_task`: `INSERT ... ON CONFLICT DO NOTHING`. -/
def cancelTask (taskId : String) (store : SQLiteRuntimeStore) : SQLiteRuntimeStore :=
  { store with
    taskCancellations := (Table.insertOrNothing (Table.sameKey id) store.taskCancellations taskId).2 }

def isTaskCancelled (store : SQLiteRuntimeStore) (taskId : String) : Bool :=
  (Table.rowOf id store.taskCancellations taskId).isSome

/-! ## The transaction -/

def consumeNonce (nonce : String) (row : NonceRow) (store : SQLiteRuntimeStore) : Outcome × SQLiteRuntimeStore :=
  match bindInts row.expiresAt.toList with
  | .error e => (.error e, store)
  | .ok _ =>
    match Table.insert (Table.sameKey NonceRecord.nonce) store.consumedNonces ⟨nonce, row⟩ with
    | none => (.error (.security "permit nonce has already been consumed"), store)
    | some nonces => (.ok .done, { store with consumedNonces := nonces })

def advanceTimeFloor (now : Int) (store : SQLiteRuntimeStore) : Outcome × SQLiteRuntimeStore :=
  match bindInts [now, now, now - Store.timeFloorCadenceSeconds] with
  | .error e => (.error e, store)
  | .ok _ =>
    let (rowCount, timeFloor) := Table.update
      (fun r => decide (r.singleton = 1) && decide (r.floorAt ≤ now - Store.timeFloorCadenceSeconds))
      (fun r => { r with floorAt := now }) store.timeFloor
    (.ok (.floor (if 0 < rowCount then some now else none)), { store with timeFloor })

/-- `_check_audit_link`. -/
def checkAuditLink (head : Option Head) (event : Event) : Except StoreError Unit :=
  let expectedSequence := match head with
    | some head => head.sequence
    | none => 0
  let expectedPrevious := match head with
    | some head => head.headHash
    | none => event.previous
  if event.sequence ≠ expectedSequence then .error (.security "audit event sequence is not contiguous")
  else if event.previous ≠ expectedPrevious then
    .error (.security "audit event previous hash does not match stored head")
  else .ok ()

/-- The row of an event: `_audit_event_row`. -/
def auditEventRow (taskId hostId : String) (event : Event) : EventRecord :=
  ⟨taskId, event.sequence, hostId, event.event, asciiDumps floatText event.details, event.previous, event.hash⟩

def upsertHead (taskId : String) (head : Head) (store : SQLiteRuntimeStore) : Outcome × SQLiteRuntimeStore :=
  match bindInts (head.sequence :: head.signature.signedAt.toList) with
  | .error e => (.error e, store)
  | .ok _ =>
    (.ok .done, { store with
      auditHeads := (Table.upsert (Table.sameKey HeadRecord.taskId) (fun _ => true) (fun r => { r with head })
        store.auditHeads ⟨taskId, head⟩).2 })

/-- One event of `append_audit_events`. -/
def appendAuditEvent (taskId hostId : String) (signHead : Option AuditHeadSigner) (event : Event)
    (store : SQLiteRuntimeStore) : Outcome × SQLiteRuntimeStore :=
  match checkAuditLink ((Table.rowOf HeadRecord.taskId store.auditHeads taskId).map (·.head)) event with
  | .error e => (.error e, store)
  | .ok _ =>
    match bindInts [event.sequence] with
    | .error e => (.error e, store)
    | .ok _ =>
      match Table.insert EventRecord.clash store.auditEvents (auditEventRow floatText taskId hostId event) with
      | none => (.error (.security "audit event already exists"), store)
      | some auditEvents =>
        let sequence := event.sequence + 1
        upsertHead taskId ⟨event.hash, sequence, hostId, headSignature signHead event.hash sequence⟩
          { store with auditEvents }

/-- `append_audit_events`: what came before an event that is refused stays. -/
def appendAuditEvents (taskId hostId : String) (signHead : Option AuditHeadSigner) :
    List Event → SQLiteRuntimeStore → Outcome × SQLiteRuntimeStore
  | [], store => (.ok .done, store)
  | event :: events, store =>
    match appendAuditEvent floatText taskId hostId signHead event store with
    | (.ok _, store) => appendAuditEvents taskId hostId signHead events store
    | (.error e, store) => (.error e, store)

variable (codec : Option CheckpointCodec)

/-- The `closed` column. -/
def closedColumn (closed : Bool) : Int := if closed then 1 else 0

def createdRecord (save : SaveArguments) : CheckpointRecord where
  taskId := save.taskId
  status := save.state.status.text
  checkpointJson := encodeCheckpoint floatText codec save.sealNonce save.taskId save.state 1 save.closed
    (ownerColumns save.owner) save.authorityCeiling
  generation := 1
  closed := closedColumn save.closed
  owner := ownerColumns save.owner
  authorityCeiling := save.authorityCeiling

def createCheckpoint (save : SaveArguments) (store : SQLiteRuntimeStore) : Outcome × SQLiteRuntimeStore :=
  if save.expectedGeneration ≠ 0 then (.error (.security "stale checkpoint generation"), store)
  else
    let inserted := Table.insertOrNothing (Table.sameKey CheckpointRecord.taskId) store.checkpoints
      (createdRecord floatText codec save)
    (if inserted.1 ≠ 1 then .error (.security "stale checkpoint generation") else .ok (.generation 1),
      { store with checkpoints := inserted.2 })

def checkSealed (row : CheckpointRecord) : Except StoreError Unit :=
  match codec with
  | none => .ok ()
  | some codec =>
    match openRow codec row with
    | .error e => .error e
    | .ok _ =>
      if effectiveClosed (row.closed != 0) row.status then .error (.security "task checkpoint is closed") else .ok ()

def checkRow (save : SaveArguments) (row : CheckpointRecord) : Except StoreError Unit :=
  match checkSealed codec row with
  | .error e => .error e
  | .ok _ =>
    if row.closed ≠ 0 then .error (.security "task checkpoint is closed")
    else checkOwner row.owner (ownerColumns save.owner)

/-- The rows a later save updates: `WHERE task_id = ? AND generation = ? AND closed = 0`. -/
def updatable (save : SaveArguments) (r : CheckpointRecord) : Bool :=
  decide (r.taskId = save.taskId) && (decide (r.generation = save.expectedGeneration) && decide (r.closed = 0))

def updatedRecord (save : SaveArguments) (row r : CheckpointRecord) : CheckpointRecord :=
  { r with
    generation := save.expectedGeneration + 1
    status := save.state.status.text
    checkpointJson := encodeCheckpoint floatText codec save.sealNonce save.taskId save.state
      (save.expectedGeneration + 1) save.closed row.owner row.authorityCeiling
    closed := closedColumn save.closed }

def updateCheckpoint (save : SaveArguments) (row : CheckpointRecord) (store : SQLiteRuntimeStore) :
    Outcome × SQLiteRuntimeStore :=
  match checkRow codec save row with
  | .error e => (.error e, store)
  | .ok _ =>
    match bindInts [save.expectedGeneration + 1, save.expectedGeneration] with
    | .error e => (.error e, store)
    | .ok _ =>
      let updated := Table.update (updatable save) (updatedRecord floatText codec save row) store.checkpoints
      (if updated.1 ≠ 1 then .error (.security "stale checkpoint generation")
        else .ok (.generation (save.expectedGeneration + 1)),
        { store with checkpoints := updated.2 })

/-- `save_checkpoint`. -/
def saveCheckpoint (save : SaveArguments) (store : SQLiteRuntimeStore) : Outcome × SQLiteRuntimeStore :=
  if !save.closed && store.isTaskCancelled save.taskId then (.error .taskCancelled, store)
  else
    match Table.rowOf CheckpointRecord.taskId store.checkpoints save.taskId with
    | none => createCheckpoint floatText codec save store
    | some row => updateCheckpoint floatText codec save row store

def sameEnvelope (destination : String) (sealedEnvelopeJson : Text) (r : OutboxRecord) : Bool :=
  decide (r.row.sealedEnvelope = sealedEnvelopeJson) && decide (r.row.destination = destination)

def setDestination (destination : String) (r : OutboxRecord) : OutboxRecord :=
  { r with row := { r.row with destination } }

/-- `enqueue_migration`: one insert with a guarded conflict clause. -/
def enqueueMigration (env : Security.Env) (taskId destination : String) (sealedEnvelopeJson : Text)
    (store : SQLiteRuntimeStore) : Outcome × SQLiteRuntimeStore :=
  if store.isTaskCancelled taskId then (.error .taskCancelled, store)
  else
    let upserted := Table.upsert (Table.sameKey OutboxRecord.taskId) (sameEnvelope destination sealedEnvelopeJson)
      (setDestination destination) store.migrationOutbox ⟨taskId, pendingRow destination sealedEnvelopeJson⟩
    (if upserted.1 = 0 then
        .error (.security s!"migration outbox already holds a different envelope for task {env.repr taskId}")
      else .ok .done,
      { store with migrationOutbox := upserted.2 })

/-- `store_migration_receipt`. -/
def storeMigrationReceipt (taskId : String) (receiptJson : Text) (store : SQLiteRuntimeStore) :
    Outcome × SQLiteRuntimeStore :=
  (.ok .done, { store with
    migrationReceipts :=
      (Table.insertOrNothing (Table.sameKey ReceiptRecord.taskId) store.migrationReceipts ⟨taskId, receiptJson⟩).2 })

/-- `store_witness_receipt`: `_upsert_witness_receipt`. -/
def storeWitnessReceipt (hostId : String) (hostSeq : Int) (receiptHash : String) (receiptJson : Text)
    (store : SQLiteRuntimeStore) : Outcome × SQLiteRuntimeStore :=
  match bindInts [hostSeq] with
  | .error e => (.error e, store)
  | .ok _ =>
    (.ok .done, { store with
      witnessReceipts := (Table.upsert (Table.sameKey WitnessRecord.hostId) (fun _ => true)
        (fun r => { r with hostSeq, receiptHash, receiptJson }) store.witnessReceipts
        ⟨hostId, hostSeq, receiptHash, receiptJson⟩).2 })

def call (env : Security.Env) : Call → SQLiteRuntimeStore → Outcome × SQLiteRuntimeStore
  | .consumeNonce nonce row => consumeNonce nonce row
  | .advanceTimeFloor now => advanceTimeFloor now
  | .appendAuditEvents taskId hostId events signHead => appendAuditEvents floatText taskId hostId signHead events
  | .saveCheckpoint save => saveCheckpoint floatText codec save
  | .enqueueMigration taskId destination sealedEnvelopeJson =>
    enqueueMigration env taskId destination sealedEnvelopeJson
  | .storeMigrationReceipt taskId receiptJson => storeMigrationReceipt taskId receiptJson
  | .storeWitnessReceipt hostId hostSeq receiptHash receiptJson =>
    storeWitnessReceipt hostId hostSeq receiptHash receiptJson

end SQLiteRuntimeStore

def sqlite (env : Security.Env) (codec : Option CheckpointCodec) : Backend :=
  ⟨SQLiteRuntimeStore, .new, SQLiteRuntimeStore.call floatText codec env, fun before _ => before, .cancelTask⟩

end Sqlite

end Portmark.Storage
