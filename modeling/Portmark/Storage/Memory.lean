/-
`InMemoryRuntimeStore` and `_InMemoryTransaction` of storage.py. The tables are dictionaries; a
transaction keeps a snapshot of them, the nested ones copied through JSON text, and a rollback puts
the snapshot in their place.
-/
import Portmark.Storage.Basic

namespace Portmark.Storage

open Lib Lib.Json Host

/-! ## Copies -/

mutual

/-- `json.loads(json.dumps(v))`: a tuple comes back as a list. -/
def jsonCopy : Value → Value
  | .list xs => .list (jsonCopyItems xs)
  | .tuple xs => .list (jsonCopyItems xs)
  | .dict d => .dict (jsonCopyEntries d)
  | v => v

def jsonCopyItems : List Value → List Value
  | [] => []
  | v :: vs => jsonCopy v :: jsonCopyItems vs

def jsonCopyEntries : List (String × Value) → List (String × Value)
  | [] => []
  | (k, v) :: es => (k, jsonCopy v) :: jsonCopyEntries es

end

mutual

theorem sortKeys_jsonCopy : ∀ v : Value, sortKeys (jsonCopy v) = sortKeys v
  | .null | .bool _ | .int _ | .float _ | .str _ => rfl
  | .list xs | .tuple xs => by simp only [jsonCopy, sortKeys, sortItems_jsonCopyItems xs]
  | .dict d => by simp only [jsonCopy, sortKeys, sortEntries_jsonCopyEntries d]

theorem sortItems_jsonCopyItems : ∀ xs : List Value, sortItems (jsonCopyItems xs) = sortItems xs
  | [] => rfl
  | v :: vs => by simp only [jsonCopyItems, sortItems, sortKeys_jsonCopy v, sortItems_jsonCopyItems vs]

theorem sortEntries_jsonCopyEntries : ∀ d : List (String × Value), sortEntries (jsonCopyEntries d) = sortEntries d
  | [] => rfl
  | (k, v) :: d => by simp only [jsonCopyEntries, sortEntries, sortKeys_jsonCopy v, sortEntries_jsonCopyEntries d]

end

/-! ## The store -/

/-- A value of `_checkpoints`. -/
structure MemoryCheckpoint where
  generation : Int
  closed : Bool
  state : Value
  owner : Option String × Option String
  authorityCeiling : Option Text

def MemoryCheckpoint.copy (row : MemoryCheckpoint) : MemoryCheckpoint := { row with state := jsonCopy row.state }

/-- An item of `_audit_events`. -/
structure MemoryEvent where
  event : Event
  hostId : String

def MemoryEvent.copy (e : MemoryEvent) : MemoryEvent :=
  { e with event := { e.event with details := jsonCopy e.event.details } }

structure InMemoryRuntimeStore where
  nonces : Assoc NonceRow
  checkpoints : Assoc MemoryCheckpoint
  auditEvents : Assoc (List MemoryEvent)
  auditHeads : Assoc Head
  outbox : Assoc OutboxRow
  migrationReceipts : Assoc Text
  cancelled : List String
  witnessReceipts : Assoc (Int × String × Text)
  timeFloor : Int

namespace InMemoryRuntimeStore

def new : InMemoryRuntimeStore := ⟨[], [], [], [], [], [], [], [], 0⟩

/-- `cancel_task`. -/
def cancelTask (taskId : String) (store : InMemoryRuntimeStore) : InMemoryRuntimeStore :=
  { store with cancelled := if store.cancelled.contains taskId then store.cancelled else store.cancelled ++ [taskId] }

def isTaskCancelled (store : InMemoryRuntimeStore) (taskId : String) : Bool := store.cancelled.contains taskId

/-! ## The transaction -/

def consumeNonce (nonce : String) (row : NonceRow) (store : InMemoryRuntimeStore) : Outcome × InMemoryRuntimeStore :=
  if Assoc.contains store.nonces nonce then (.error (.security "permit nonce has already been consumed"), store)
  else (.ok .done, { store with nonces := Assoc.set store.nonces nonce row })

def advanceTimeFloor (now : Int) (store : InMemoryRuntimeStore) : Outcome × InMemoryRuntimeStore :=
  if now - Store.timeFloorCadenceSeconds < store.timeFloor then (.ok (.floor none), store)
  else (.ok (.floor (some now)), { store with timeFloor := now })

def expectedPrevious (current : List MemoryEvent) (event : Event) : String :=
  match current.getLast? with
  | some last => last.event.hash
  | none => event.previous

def withEvent (taskId hostId : String) (signHead : Option AuditHeadSigner) (event : Event) (current : List MemoryEvent)
    (store : InMemoryRuntimeStore) : InMemoryRuntimeStore :=
  let sequence := event.sequence + 1
  { store with
    auditEvents := Assoc.set store.auditEvents taskId
      (current ++ [MemoryEvent.copy ⟨event, hostId⟩])
    auditHeads := Assoc.set store.auditHeads taskId
      ⟨event.hash, sequence, hostId, headSignature signHead event.hash sequence⟩ }

/-- One event of `append_audit_events`: the store with it, or what is raised. -/
def appendAuditEvent (taskId hostId : String) (signHead : Option AuditHeadSigner) (event : Event)
    (store : InMemoryRuntimeStore) : Except StoreError InMemoryRuntimeStore :=
  let current := (Assoc.get? store.auditEvents taskId).getD []
  if event.sequence ≠ current.length then .error (.security "audit event sequence is not contiguous")
  else if event.previous ≠ expectedPrevious current event then
    .error (.security "audit event previous hash does not match stored head")
  else if (current.map (·.event.hash)).contains event.hash then
    .error (.security "audit event hash already exists")
  else .ok (withEvent taskId hostId signHead event current store)

def Continues (current : List MemoryEvent) (event : Event) : Prop :=
  event.sequence = current.length ∧ event.previous = expectedPrevious current event ∧
    event.hash ∉ current.map (·.event.hash)

instance (current : List MemoryEvent) (event : Event) : Decidable (Continues current event) :=
  inferInstanceAs (Decidable (_ ∧ _ ∧ _))

theorem appendAuditEvent_continues {taskId hostId : String} {signHead : Option AuditHeadSigner} {event : Event}
    {store : InMemoryRuntimeStore} (h : Continues ((Assoc.get? store.auditEvents taskId).getD []) event) :
    appendAuditEvent taskId hostId signHead event store =
      .ok (withEvent taskId hostId signHead event ((Assoc.get? store.auditEvents taskId).getD []) store) := by
  unfold appendAuditEvent
  rw [if_neg (not_not.2 h.1), if_neg (not_not.2 h.2.1), if_neg (by simpa using h.2.2)]

theorem appendAuditEvent_refused {taskId hostId : String} {signHead : Option AuditHeadSigner} {event : Event}
    {store : InMemoryRuntimeStore} (h : ¬ Continues ((Assoc.get? store.auditEvents taskId).getD []) event) :
    ∃ message, appendAuditEvent taskId hostId signHead event store = .error (.security message) := by
  unfold appendAuditEvent
  by_cases h1 : event.sequence = ((Assoc.get? store.auditEvents taskId).getD []).length
  · rw [if_neg (not_not.2 h1)]
    by_cases h2 : event.previous = expectedPrevious ((Assoc.get? store.auditEvents taskId).getD []) event
    · rw [if_neg (not_not.2 h2), if_pos (by
        by_contra h3
        exact h ⟨h1, h2, by simpa using h3⟩)]
      exact ⟨_, rfl⟩
    · rw [if_pos h2]
      exact ⟨_, rfl⟩
  · rw [if_pos h1]
    exact ⟨_, rfl⟩

/-- The loop of `append_audit_events`: the events before one that is refused stay. -/
def appendLoop (taskId hostId : String) (signHead : Option AuditHeadSigner) :
    List Event → InMemoryRuntimeStore → Outcome × InMemoryRuntimeStore
  | [], store => (.ok .done, store)
  | event :: events, store =>
    match appendAuditEvent taskId hostId signHead event store with
    | .ok store => appendLoop taskId hostId signHead events store
    | .error e => (.error e, store)

/-- `append_audit_events`: `setdefault` enters the task before the first event. -/
def appendAuditEvents (taskId hostId : String) (events : List Event) (signHead : Option AuditHeadSigner)
    (store : InMemoryRuntimeStore) : Outcome × InMemoryRuntimeStore :=
  appendLoop taskId hostId signHead events
    { store with
      auditEvents :=
        if Assoc.contains store.auditEvents taskId then store.auditEvents
        else Assoc.set store.auditEvents taskId [] }

def checkSave (save : SaveArguments) (store : InMemoryRuntimeStore) : Except StoreError Int :=
  if !save.closed && store.isTaskCancelled save.taskId then .error .taskCancelled
  else
    match Assoc.get? store.checkpoints save.taskId with
    | none =>
      if save.expectedGeneration ≠ 0 then .error (.security "stale checkpoint generation") else .ok 1
    | some row =>
      if row.closed then .error (.security "task checkpoint is closed")
      else if row.generation ≠ save.expectedGeneration then .error (.security "stale checkpoint generation")
      else
        match checkOwner row.owner (ownerColumns save.owner) with
        | .ok _ => .ok (save.expectedGeneration + 1)
        | .error e => .error e

/-- `save_checkpoint`: the owner and the ceiling are recorded with the first save. -/
def saveCheckpoint (save : SaveArguments) (store : InMemoryRuntimeStore) : Outcome × InMemoryRuntimeStore :=
  match checkSave save store with
  | .error e => (.error e, store)
  | .ok generation =>
    let row := Assoc.get? store.checkpoints save.taskId
    (.ok (.generation generation), { store with
      checkpoints := Assoc.set store.checkpoints save.taskId
        { generation
          closed := save.closed
          state := { save.state with checkpointGeneration := generation }.asdict
          owner := match row with
            | some row => row.owner
            | none => ownerColumns save.owner
          authorityCeiling := match row with
            | some row => row.authorityCeiling
            | none => save.authorityCeiling } })

/-- `enqueue_migration`. -/
def enqueueMigration (env : Security.Env) (taskId destination : String) (sealedEnvelopeJson : Text)
    (store : InMemoryRuntimeStore) : Outcome × InMemoryRuntimeStore :=
  if store.isTaskCancelled taskId then (.error .taskCancelled, store)
  else
    match Assoc.get? store.outbox taskId with
    | some row =>
      if row.sealedEnvelope = sealedEnvelopeJson ∧ row.destination = destination then (.ok .done, store)
      else (.error (.security s!"migration outbox already holds a different envelope for task {env.repr taskId}"),
        store)
    | none =>
      (.ok .done, { store with outbox := Assoc.set store.outbox taskId (pendingRow destination sealedEnvelopeJson) })

/-- `store_migration_receipt`. -/
def storeMigrationReceipt (taskId : String) (receiptJson : Text) (store : InMemoryRuntimeStore) :
    Outcome × InMemoryRuntimeStore :=
  (.ok .done, { store with
    migrationReceipts :=
      if Assoc.contains store.migrationReceipts taskId then store.migrationReceipts
      else Assoc.set store.migrationReceipts taskId receiptJson })

/-- `store_witness_receipt`. -/
def storeWitnessReceipt (hostId : String) (hostSeq : Int) (receiptHash : String) (receiptJson : Text)
    (store : InMemoryRuntimeStore) : Outcome × InMemoryRuntimeStore :=
  (.ok .done, { store with
    witnessReceipts := Assoc.set store.witnessReceipts hostId (hostSeq, receiptHash, receiptJson) })

def call (env : Security.Env) : Call → InMemoryRuntimeStore → Outcome × InMemoryRuntimeStore
  | .consumeNonce nonce row => consumeNonce nonce row
  | .advanceTimeFloor now => advanceTimeFloor now
  | .appendAuditEvents taskId hostId events signHead => appendAuditEvents taskId hostId events signHead
  | .saveCheckpoint save => saveCheckpoint save
  | .enqueueMigration taskId destination sealedEnvelopeJson =>
    enqueueMigration env taskId destination sealedEnvelopeJson
  | .storeMigrationReceipt taskId receiptJson => storeMigrationReceipt taskId receiptJson
  | .storeWitnessReceipt hostId hostSeq receiptHash receiptJson =>
    storeWitnessReceipt hostId hostSeq receiptHash receiptJson

/-- `__exit__` after an exception: the snapshot `__enter__` took comes back. -/
def restore (before after : InMemoryRuntimeStore) : InMemoryRuntimeStore :=
  { after with
    nonces := before.nonces
    checkpoints := before.checkpoints.map fun entry => (entry.1, entry.2.copy)
    auditEvents := before.auditEvents.map fun entry => (entry.1, entry.2.map MemoryEvent.copy)
    auditHeads := before.auditHeads
    outbox := before.outbox
    migrationReceipts := before.migrationReceipts
    timeFloor := before.timeFloor
    witnessReceipts := before.witnessReceipts }

end InMemoryRuntimeStore

def memory (env : Security.Env) : Backend :=
  ⟨InMemoryRuntimeStore, .new, InMemoryRuntimeStore.call env, .restore, .cancelTask⟩

end Portmark.Storage
