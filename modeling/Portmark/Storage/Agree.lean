/-
The in-memory and the SQLite store agree. `Same` relates the dictionaries of one to the tables of
the other: row by row under each key, with the JSON text of a stored state or event read back. A
well-formed call keeps the relation and ends alike on both, so any run of transactions does; the one
thing that tells the stores apart is an integer next to the largest or the smallest SQL can hold.
-/
import Portmark.Lib.Json.Float
import Portmark.Security.Narrow
import Portmark.Storage.Lifecycle

namespace Portmark.Storage

open Lib Lib.Json Host List Table Assoc

/-! ## What the stores hold -/

structure CheckpointContents where
  generation : Int
  closed : Bool
  state : Option Value
  owner : Option String × Option String
  authorityCeiling : Option Text

structure EventContents where
  sequence : Int
  event : String
  details : Option Value
  previous : String
  hash : String
  hostId : String

structure Contents where
  nonce : String → Option NonceRow
  checkpoint : String → Option CheckpointContents
  events : String → List EventContents
  head : String → Option Head
  outbox : String → Option OutboxRow
  receipt : String → Option Text
  witnessReceipt : String → Option (Int × String × Text)
  timeFloor : Option Int
  cancelled : String → Bool

def MemoryCheckpoint.contents (row : MemoryCheckpoint) : CheckpointContents :=
  ⟨row.generation, row.closed, some (sortKeys row.state), row.owner, row.authorityCeiling⟩

def MemoryEvent.contents (e : MemoryEvent) : EventContents :=
  ⟨e.event.sequence, e.event.event, some (sortKeys e.event.details), e.event.previous, e.event.hash, e.hostId⟩

def InMemoryRuntimeStore.contents (store : InMemoryRuntimeStore) : Contents where
  nonce := Assoc.get? store.nonces
  checkpoint taskId := (Assoc.get? store.checkpoints taskId).map MemoryCheckpoint.contents
  events taskId := ((Assoc.get? store.auditEvents taskId).getD []).map MemoryEvent.contents
  head := Assoc.get? store.auditHeads
  outbox := Assoc.get? store.outbox
  receipt := Assoc.get? store.migrationReceipts
  witnessReceipt := Assoc.get? store.witnessReceipts
  timeFloor := some store.timeFloor
  cancelled := store.isTaskCancelled

def decoded (text : Text) : Option Value := (loads text).toOption.map sortKeys

def CheckpointRecord.contents (r : CheckpointRecord) : CheckpointContents :=
  ⟨r.generation, r.closed != 0, decoded r.checkpointJson, r.owner, r.authorityCeiling⟩

def EventRecord.contents (r : EventRecord) : EventContents :=
  ⟨r.sequence, r.event, decoded r.detailsJson, r.previousHash, r.hash, r.hostId⟩

/-- The events of a task: `WHERE task_id = ? ORDER BY sequence`. -/
def SQLiteRuntimeStore.eventsOf (store : SQLiteRuntimeStore) (taskId : String) : List EventRecord :=
  (store.auditEvents.filter fun r => decide (r.taskId = taskId)).insertionSort fun a b => a.sequence ≤ b.sequence

def SQLiteRuntimeStore.contents (store : SQLiteRuntimeStore) : Contents where
  nonce n := (Table.rowOf NonceRecord.nonce store.consumedNonces n).map (·.row)
  checkpoint taskId := (Table.rowOf CheckpointRecord.taskId store.checkpoints taskId).map CheckpointRecord.contents
  events taskId := (store.eventsOf taskId).map EventRecord.contents
  head taskId := (Table.rowOf HeadRecord.taskId store.auditHeads taskId).map (·.head)
  outbox taskId := (Table.rowOf OutboxRecord.taskId store.migrationOutbox taskId).map (·.row)
  receipt taskId := (Table.rowOf ReceiptRecord.taskId store.migrationReceipts taskId).map (·.receiptJson)
  witnessReceipt hostId := (Table.rowOf WitnessRecord.hostId store.witnessReceipts hostId).map fun r =>
    (r.hostSeq, r.receiptHash, r.receiptJson)
  timeFloor := (store.timeFloor.find? fun r => decide (r.singleton = 1)).map (·.floorAt)
  cancelled := store.isTaskCancelled

/-! ## Well-formed calls -/

def PlainJson (v : Value) : Prop := Plain IsDouble true v

/-- Well-formed arguments: 64-bit integers, and string-keyed JSON. -/
def Call.WellFormed : Call → Prop
  | .consumeNonce _ row => ∀ expiresAt, row.expiresAt = some expiresAt → fitsInt64 expiresAt = true
  | .advanceTimeFloor now => fitsInt64 now = true
  | .appendAuditEvents _ _ events signHead =>
    (∀ event ∈ events, fitsInt64 event.sequence = true ∧ PlainJson event.details) ∧
      ∀ hash sequence signedAt, (headSignature signHead hash sequence).signedAt = some signedAt →
        fitsInt64 signedAt = true
  | .saveCheckpoint save =>
    fitsInt64 save.expectedGeneration = true ∧ fitsInt64 save.state.step = true ∧
      fitsInt64 save.state.toolCalls = true ∧ PlainJson save.state.memory ∧ PlainJson save.state.messages ∧
        PlainJson save.state.result
  | .enqueueMigration .. => True
  | .storeMigrationReceipt .. => True
  | .storeWitnessReceipt _ hostSeq _ _ => fitsInt64 hostSeq = true

/-- The integers next to the arguments fit too: the generation, the compared time and the head's sequence. -/
def Call.HasRoom : Call → Prop
  | .advanceTimeFloor now => fitsInt64 (now - Store.timeFloorCadenceSeconds) = true
  | .appendAuditEvents _ _ events _ => ∀ event ∈ events, fitsInt64 (event.sequence + 1) = true
  | .saveCheckpoint save => fitsInt64 (save.expectedGeneration + 1) = true
  | _ => True

def Step.calls : Step → List Call
  | .transaction calls _ => calls
  | .cancelTask _ => []

def outcomeClass (outcome : Outcome) : Except ErrorClass Reply := outcome.mapError StoreError.errorClass

/-! ## The relation -/

def InMemoryRuntimeStore.eventsOf (store : InMemoryRuntimeStore) (taskId : String) : List MemoryEvent :=
  (Assoc.get? store.auditEvents taskId).getD []

structure Same (m : InMemoryRuntimeStore) (s : SQLiteRuntimeStore) : Prop where
  nonce : ∀ n, Assoc.get? m.nonces n = (Table.rowOf NonceRecord.nonce s.consumedNonces n).map (·.row)
  checkpoint : ∀ taskId, (Assoc.get? m.checkpoints taskId).map MemoryCheckpoint.contents =
    (Table.rowOf CheckpointRecord.taskId s.checkpoints taskId).map CheckpointRecord.contents
  uniqueCheckpoint : Table.Unique CheckpointRecord.taskId s.checkpoints
  events : ∀ taskId, (m.eventsOf taskId).map MemoryEvent.contents =
    (s.auditEvents.filter fun r => decide (r.taskId = taskId)).map EventRecord.contents
  numbered : ∀ (taskId : String) (i : Nat) (e : MemoryEvent), (m.eventsOf taskId)[i]? = some e → e.event.sequence = i
  head : ∀ taskId, Assoc.get? m.auditHeads taskId = (Table.rowOf HeadRecord.taskId s.auditHeads taskId).map (·.head)
  headOf : ∀ taskId, (Assoc.get? m.auditHeads taskId).map (fun head => (head.headHash, head.sequence)) =
    (m.eventsOf taskId).getLast?.map fun e => (e.event.hash, ((m.eventsOf taskId).length : Int))
  outbox : ∀ taskId, Assoc.get? m.outbox taskId = (Table.rowOf OutboxRecord.taskId s.migrationOutbox taskId).map (·.row)
  uniqueOutbox : Table.Unique OutboxRecord.taskId s.migrationOutbox
  receipt : ∀ taskId, Assoc.get? m.migrationReceipts taskId =
    (Table.rowOf ReceiptRecord.taskId s.migrationReceipts taskId).map (·.receiptJson)
  witnessReceipt : ∀ hostId, Assoc.get? m.witnessReceipts hostId =
    (Table.rowOf WitnessRecord.hostId s.witnessReceipts hostId).map fun r => (r.hostSeq, r.receiptHash, r.receiptJson)
  floor : s.timeFloor = [⟨1, m.timeFloor⟩]
  cancelled : ∀ taskId, m.isTaskCancelled taskId = s.isTaskCancelled taskId

theorem same_new : Same .new .new where
  nonce _ := rfl
  checkpoint _ := rfl
  uniqueCheckpoint := nodup_nil
  events _ := rfl
  numbered _ i e h := by simp [InMemoryRuntimeStore.eventsOf, InMemoryRuntimeStore.new] at h
  head _ := rfl
  headOf _ := rfl
  outbox _ := rfl
  uniqueOutbox := nodup_nil
  receipt _ := rfl
  witnessReceipt _ := rfl
  floor := rfl
  cancelled _ := rfl

/-- Both calls end alike, with the stores related again. -/
def Agree (x : Outcome × InMemoryRuntimeStore) (y : Outcome × SQLiteRuntimeStore) : Prop :=
  outcomeClass x.1 = outcomeClass y.1 ∧ Same x.2 y.2

theorem bindInts_ok {params : List Int} (h : ∀ n ∈ params, fitsInt64 n = true) : bindInts params = .ok () :=
  if_pos (all_eq_true.2 h)

section Calls

variable {m : InMemoryRuntimeStore} {s : SQLiteRuntimeStore} (h : Same m s)

include h

theorem Same.consumeNonce {nonce : String} {row : NonceRow} (hw : (Call.consumeNonce nonce row).WellFormed) :
    Agree (m.consumeNonce nonce row) (s.consumeNonce nonce row) := by
  have hbind : bindInts row.expiresAt.toList = .ok () :=
    bindInts_ok fun n hn => hw n (Option.mem_toList.1 hn)
  have hrow := h.nonce nonce
  unfold InMemoryRuntimeStore.consumeNonce SQLiteRuntimeStore.consumeNonce
  rw [hbind]
  simp only [insert_sameKey, Assoc.contains, hrow, Option.isSome_map]
  by_cases hsome : (rowOf NonceRecord.nonce s.consumedNonces nonce).isSome = true
  · rw [if_pos hsome, if_pos hsome]
    exact ⟨rfl, h⟩
  rw [if_neg hsome, if_neg hsome]
  have hnone : rowOf NonceRecord.nonce s.consumedNonces (NonceRecord.mk nonce row).nonce = none := by
    simpa using hsome
  refine ⟨rfl, { h with nonce := ?_ }⟩
  intro n
  rw [get?_set, rowOf_append_new hnone, Function.update_apply, h.nonce n]
  split <;> rfl

theorem Same.advanceTimeFloor {now : Int} (hw : (Call.advanceTimeFloor now).WellFormed)
    (hr : (Call.advanceTimeFloor now).HasRoom) : Agree (m.advanceTimeFloor now) (s.advanceTimeFloor now) := by
  have hbind : bindInts [now, now, now - Store.timeFloorCadenceSeconds] = .ok () :=
    bindInts_ok (forall_mem_cons.2 ⟨hw, forall_mem_cons.2 ⟨hw, forall_mem_singleton.2 hr⟩⟩)
  unfold InMemoryRuntimeStore.advanceTimeFloor SQLiteRuntimeStore.advanceTimeFloor
  rw [hbind, h.floor]
  have hupdate : Table.update (fun r : TimeFloorRecord => decide (r.singleton = 1) &&
      decide (r.floorAt ≤ now - Store.timeFloorCadenceSeconds))
        (fun r => { r with floorAt := now }) [⟨1, m.timeFloor⟩] =
      if now - Store.timeFloorCadenceSeconds < m.timeFloor then (0, [⟨1, m.timeFloor⟩]) else (1, [⟨1, now⟩]) := by
    split
    · exact update_none _ (by simpa)
    · simp_all [Table.update]
  simp only [hupdate]
  split
  · exact ⟨rfl, { h with floor := rfl }⟩
  · exact ⟨rfl, { h with floor := rfl }⟩

theorem Same.storeMigrationReceipt (taskId : String) (receiptJson : Text) :
    Agree (m.storeMigrationReceipt taskId receiptJson) (s.storeMigrationReceipt taskId receiptJson) := by
  refine ⟨rfl, { h with receipt := ?_ }⟩
  intro other
  show get? (if Assoc.contains m.migrationReceipts taskId then m.migrationReceipts
    else Assoc.set m.migrationReceipts taskId receiptJson) other = _
  simp only [SQLiteRuntimeStore.storeMigrationReceipt, rowOf_insertOrNothing]
  rw [get?_setDefault, h.receipt other]
  cases rowOf ReceiptRecord.taskId s.migrationReceipts other with
  | none => by_cases ht : taskId = other <;> simp [ht]
  | some => rfl

variable {hostId : String}

theorem Same.storeWitnessReceipt {receiptHash : String} {hostSeq : Int} {receiptJson : Text}
    (hw : (Call.storeWitnessReceipt hostId hostSeq receiptHash receiptJson).WellFormed) :
    Agree (m.storeWitnessReceipt hostId hostSeq receiptHash receiptJson)
      (s.storeWitnessReceipt hostId hostSeq receiptHash receiptJson) := by
  have hbind : bindInts [hostSeq] = .ok () := bindInts_ok (by simpa [Call.WellFormed] using hw)
  unfold InMemoryRuntimeStore.storeWitnessReceipt SQLiteRuntimeStore.storeWitnessReceipt
  rw [hbind]
  refine ⟨rfl, { h with witnessReceipt := ?_ }⟩
  intro other
  have hkeep : ∀ r : WitnessRecord, ({ r with hostSeq, receiptHash, receiptJson } : WitnessRecord).hostId = r.hostId :=
    fun _ => rfl
  rw [get?_set, rowOf_upsert hkeep, h.witnessReceipt other]
  split
  · cases rowOf WitnessRecord.hostId s.witnessReceipts other <;> rfl
  · rfl

open SQLiteRuntimeStore in
theorem Same.enqueueMigration (env : Security.Env) (taskId destination : String) (sealedEnvelopeJson : Text) :
    Agree (m.enqueueMigration env taskId destination sealedEnvelopeJson)
      (s.enqueueMigration env taskId destination sealedEnvelopeJson) := by
  unfold InMemoryRuntimeStore.enqueueMigration SQLiteRuntimeStore.enqueueMigration
  rw [h.cancelled taskId]
  split
  · exact ⟨rfl, h⟩
  have hkeep : ∀ r, (setDestination destination r).taskId = r.taskId := fun _ => rfl
  have hm := h.outbox taskId
  cases hrow : rowOf OutboxRecord.taskId s.migrationOutbox taskId with
  | none =>
    rw [hrow, Option.map_none] at hm
    have hnone : rowOf OutboxRecord.taskId s.migrationOutbox
        (OutboxRecord.mk taskId (pendingRow destination sealedEnvelopeJson)).taskId = none := hrow
    rw [hm, upsert_new hnone]
    refine ⟨rfl, { h with outbox := ?_, uniqueOutbox := unique_append h.uniqueOutbox hnone }⟩
    intro other
    show get? (Assoc.set m.outbox taskId (pendingRow destination sealedEnvelopeJson)) other = _
    rw [get?_set, rowOf_append_new hnone, Function.update_apply, h.outbox other]
    split <;> rfl
  | some r =>
    rw [hrow, Option.map_some] at hm
    have hsome : rowOf OutboxRecord.taskId s.migrationOutbox
        (OutboxRecord.mk taskId (pendingRow destination sealedEnvelopeJson)).taskId = some r := hrow
    generalize hupserted : upsert (sameKey OutboxRecord.taskId) (sameEnvelope destination sealedEnvelopeJson)
      (setDestination destination) s.migrationOutbox ⟨taskId, pendingRow destination sealedEnvelopeJson⟩ = upserted
    obtain ⟨hcount, hrows, hunique⟩ := hupserted ▸ upsert_old hkeep h.uniqueOutbox hsome
    -- a row the guard lets through keeps its destination
    have hsame : ∀ other, get? m.outbox other = (rowOf OutboxRecord.taskId upserted.2 other).map (·.row) := by
      intro other
      rw [hrows, h.outbox other, Function.update_apply]
      split
      · rename_i ht
        subst ht
        rw [hrow]
        split
        · rename_i hguard
          simp only [sameEnvelope, Bool.and_eq_true, decide_eq_true_eq] at hguard
          simp [setDestination, ← hguard.2]
        · rfl
      · rfl
    rw [hm]
    simp only
    by_cases hguard : r.row.sealedEnvelope = sealedEnvelopeJson ∧ r.row.destination = destination
    · rw [if_pos (by simpa [sameEnvelope] using hguard)] at hcount
      rw [if_pos hguard, if_neg (by omega)]
      exact ⟨rfl, { h with outbox := hsame, uniqueOutbox := hunique }⟩
    · rw [if_neg (by simpa [sameEnvelope] using hguard)] at hcount
      rw [if_neg hguard, if_pos hcount]
      exact ⟨rfl, { h with outbox := hsame, uniqueOutbox := hunique }⟩

omit h in
theorem decoded_state {save : SaveArguments} (hw : (Call.saveCheckpoint save).WellFormed) {generation : Int}
    (hg : Readable generation) (closed : Bool) (owner : Option String × Option String) (ceiling : Option Text) :
    decoded (encodeCheckpoint floatRepr none save.sealNonce save.taskId save.state generation closed owner ceiling) =
      some (sortKeys { save.state with checkpointGeneration := generation }.asdict) := by
  obtain ⟨-, hstep, hcalls, hmemory, hmessages, hresult⟩ := hw
  have hplain : Plain IsDouble true { save.state with checkpointGeneration := generation }.asdict := by
    unfold AgentState.asdict
    simp only [Plain, PlainEntries, Assoc.keys, map_cons, map_nil, true_and, and_true]
    exact ⟨by decide, hg, readable_of_fitsInt64 hstep, readable_of_fitsInt64 hcalls, hmemory, hmessages, hresult⟩
  show (loads (asciiDumps floatRepr _)).toOption.map sortKeys = _
  rw [loads_asciiDumps hplain]
  exact congrArg some (sortKeys_idem _)

omit h in
theorem contents_eq_iff {row : MemoryCheckpoint} {record : CheckpointRecord} : row.contents = record.contents ↔
    row.generation = record.generation ∧ row.closed = (record.closed != 0) ∧
      some (sortKeys row.state) = decoded record.checkpointJson ∧ row.owner = record.owner ∧
        row.authorityCeiling = record.authorityCeiling := by
  simp only [MemoryCheckpoint.contents, CheckpointRecord.contents, CheckpointContents.mk.injEq]

open SQLiteRuntimeStore in
theorem Same.saveCheckpoint {save : SaveArguments} (hw : (Call.saveCheckpoint save).WellFormed)
    (hr : (Call.saveCheckpoint save).HasRoom) :
    Agree (m.saveCheckpoint save) (s.saveCheckpoint floatRepr none save) := by
  unfold InMemoryRuntimeStore.saveCheckpoint SQLiteRuntimeStore.saveCheckpoint InMemoryRuntimeStore.checkSave
  rw [h.cancelled save.taskId]
  by_cases hcancelled : (!save.closed && s.isTaskCancelled save.taskId) = true
  · rw [if_pos hcancelled, if_pos hcancelled]
    exact ⟨rfl, h⟩
  rw [if_neg hcancelled, if_neg hcancelled]
  have hm := h.checkpoint save.taskId
  cases hrow : rowOf CheckpointRecord.taskId s.checkpoints save.taskId with
  | none =>
    rw [hrow, Option.map_none, Option.map_eq_none_iff] at hm
    rw [hm]
    simp only [createCheckpoint_eq floatRepr none hrow]
    by_cases hgen : save.expectedGeneration = 0
    · rw [if_neg (not_not.2 hgen), if_pos hgen]
      have hnone : rowOf CheckpointRecord.taskId s.checkpoints (createdRecord floatRepr none save).taskId = none :=
        hrow
      refine ⟨rfl, { h with checkpoint := ?_, uniqueCheckpoint := unique_append h.uniqueCheckpoint hnone }⟩
      intro other
      simp only [get?_set, rowOf_append_new hnone, Function.update_apply]
      have hkey : (createdRecord floatRepr none save).taskId = save.taskId := rfl
      rw [hkey]
      split
      · refine congrArg some (contents_eq_iff.2 ⟨rfl, (closedColumn_ne_zero _).symm, ?_, rfl, rfl⟩)
        exact (decoded_state hw (readable_of_lt (by decide)) save.closed
          (ownerColumns save.owner) save.authorityCeiling).symm
      · exact h.checkpoint other
    · rw [if_pos hgen, if_neg hgen]
      exact ⟨rfl, h⟩
  | some record =>
    rw [hrow, Option.map_some] at hm
    obtain ⟨row, hget, hcontents⟩ := Option.map_eq_some_iff.1 hm
    obtain ⟨hgeneration, hclosed, -, howner, hceiling⟩ := contents_eq_iff.1 hcontents
    rw [hget]
    simp only [updateCheckpoint, checkRow, checkSealed, hclosed, bne_iff_ne, hgeneration]
    by_cases hopen : record.closed = 0
    swap
    · rw [if_pos hopen, if_pos hopen]
      exact ⟨rfl, h⟩
    rw [if_neg (not_not.2 hopen), if_neg (not_not.2 hopen), howner]
    by_cases hsame : record.owner = ownerColumns save.owner
    swap
    · -- another owner: the in-memory store may find the generation stale first
      obtain ⟨message, hmessage⟩ := checkOwner_ne hsame
      rw [hmessage]
      split_ifs <;> exact ⟨rfl, h⟩
    have hbind : bindInts [save.expectedGeneration + 1, save.expectedGeneration] = .ok () :=
      bindInts_ok (forall_mem_cons.2 ⟨hr, forall_mem_singleton.2 hw.1⟩)
    rw [hsame, checkOwner_self, hbind]
    have hcount := updatable_count h.uniqueCheckpoint hrow hopen
    by_cases hgen : record.generation = save.expectedGeneration
    · rw [if_pos hgen] at hcount
      have hone : (Table.update (updatable save) (updatedRecord floatRepr none save record) s.checkpoints).1 = 1 :=
        hcount
      have hkeep : ∀ r, (updatedRecord floatRepr none save record r).taskId = r.taskId := fun _ => rfl
      rw [if_neg (not_not.2 hgen)]
      simp only
      rw [if_neg (not_not.2 hone)]
      refine ⟨rfl, { h with checkpoint := ?_, uniqueCheckpoint := unique_update hkeep h.uniqueCheckpoint }⟩
      intro other
      simp only [get?_set, rowOf_updated floatRepr none hrow hopen hgen, Function.update_apply]
      split
      · refine congrArg some (contents_eq_iff.2 ⟨rfl, (closedColumn_ne_zero _).symm, ?_, hsame.symm, hceiling⟩)
        exact (decoded_state hw (readable_of_fitsInt64 hr) save.closed record.owner record.authorityCeiling).symm
      · exact h.checkpoint other
    · rw [if_neg hgen] at hcount
      rw [if_pos hgen, update_none _ hcount]
      exact ⟨rfl, { h with }⟩

/-! ## Audit events -/

theorem Same.checkAuditLink (taskId : String) (event : Event) :
    SQLiteRuntimeStore.checkAuditLink ((rowOf HeadRecord.taskId s.auditHeads taskId).map (·.head)) event =
      if event.sequence ≠ (m.eventsOf taskId).length then .error (.security "audit event sequence is not contiguous")
      else if event.previous ≠ InMemoryRuntimeStore.expectedPrevious (m.eventsOf taskId) event then
        .error (.security "audit event previous hash does not match stored head")
      else .ok () := by
  have hhead := h.headOf taskId
  rw [← h.head taskId]
  unfold SQLiteRuntimeStore.checkAuditLink InMemoryRuntimeStore.expectedPrevious
  cases hlast : (m.eventsOf taskId).getLast? with
  | none =>
    rw [hlast, Option.map_none, Option.map_eq_none_iff] at hhead
    rw [hhead, getLast?_eq_none_iff.1 hlast]
    rfl
  | some =>
    rw [hlast, Option.map_some] at hhead
    obtain ⟨hd, hget, heq⟩ := Option.map_eq_some_iff.1 hhead
    simp only [Prod.mk.injEq] at heq
    simp only [hget, heq.1, heq.2]

/-- The hashes and the numbers of a task's records are those of its events. -/
theorem Same.record_iff (taskId : String) {r : EventRecord} (hr : r ∈ s.auditEvents) (ht : r.taskId = taskId) :
    (∃ e ∈ m.eventsOf taskId, e.event.hash = r.hash) ∧ r.sequence < (m.eventsOf taskId).length := by
  have hmem : r.contents ∈ (m.eventsOf taskId).map MemoryEvent.contents := by
    rw [h.events taskId]
    exact mem_map_of_mem (mem_filter.2 ⟨hr, by simpa using ht⟩)
  obtain ⟨e, he, heq⟩ := mem_map.1 hmem
  obtain ⟨i, hi⟩ := getElem?_of_mem he
  have hsequence : e.event.sequence = r.sequence := congrArg EventContents.sequence heq
  have hnumber := h.numbered taskId i e hi
  have hlt := (List.getElem?_eq_some_iff.1 hi).1
  exact ⟨⟨e, he, congrArg EventContents.hash heq⟩, by omega⟩

variable {event : Event} {taskId : String}

/-- A constraint refuses the record of an event that is next in its task just when its hash is taken. -/
theorem Same.clash_iff (hseq : event.sequence = (m.eventsOf taskId).length) :
    s.auditEvents.any (EventRecord.clash (SQLiteRuntimeStore.auditEventRow floatRepr taskId hostId event)) = true ↔
      event.hash ∈ (m.eventsOf taskId).map (·.event.hash) := by
  rw [any_eq_true]
  constructor
  · rintro ⟨r, hr, hclash⟩
    rcases Bool.or_eq_true_iff.1 hclash with hclash | hclash <;> obtain ⟨ht, hs⟩ := of_decide_eq_true hclash <;>
      simp only [SQLiteRuntimeStore.auditEventRow] at ht hs
    · have := (h.record_iff taskId hr ht).2
      omega
    · obtain ⟨⟨e, he, hhash⟩, -⟩ := h.record_iff taskId hr ht
      exact mem_map.2 ⟨e, he, hhash.trans hs⟩
  · intro hmem
    obtain ⟨e, he, hhash⟩ := mem_map.1 hmem
    have hcontents :
      e.contents ∈ (s.auditEvents.filter fun r => decide (r.taskId = taskId)).map EventRecord.contents := by
      rw [← h.events taskId]
      exact mem_map_of_mem he
    obtain ⟨r, hr, heq⟩ := mem_map.1 hcontents
    obtain ⟨hmem', ht⟩ := mem_filter.1 hr
    exact ⟨r, hmem', Bool.or_eq_true_iff.2 (.inr (decide_eq_true
      ⟨of_decide_eq_true ht, (congrArg EventContents.hash heq).trans hhash⟩))⟩

variable {signHead : Option AuditHeadSigner}

open InMemoryRuntimeStore in
theorem Same.withEvent (hseq : event.sequence = (m.eventsOf taskId).length) (hw : PlainJson event.details) :
    Same (m.withEvent taskId hostId signHead event (m.eventsOf taskId))
      { s with
        auditEvents := s.auditEvents ++ [SQLiteRuntimeStore.auditEventRow floatRepr taskId hostId event]
        auditHeads := (upsert (sameKey HeadRecord.taskId) (fun _ => true)
          (fun r => { r with head := ⟨event.hash, event.sequence + 1, hostId,
            headSignature signHead event.hash (event.sequence + 1)⟩ }) s.auditHeads
          ⟨taskId, ⟨event.hash, event.sequence + 1, hostId,
            headSignature signHead event.hash (event.sequence + 1)⟩⟩).2 } := by
  generalize hhead : (⟨event.hash, event.sequence + 1, hostId,
    headSignature signHead event.hash (event.sequence + 1)⟩ : Head) = head
  have hevents : ∀ t, (m.withEvent taskId hostId signHead event (m.eventsOf taskId)).eventsOf t =
      if t = taskId then m.eventsOf taskId ++ [MemoryEvent.copy ⟨event, hostId⟩] else m.eventsOf t := by
    intro t
    simp only [InMemoryRuntimeStore.eventsOf, InMemoryRuntimeStore.withEvent, get?_set]
    split <;> rfl
  have hheads : ∀ t, get? (m.withEvent taskId hostId signHead event (m.eventsOf taskId)).auditHeads t =
      if t = taskId then some head else get? m.auditHeads t := by
    intro t
    simp only [InMemoryRuntimeStore.withEvent, get?_set, hhead]
  have hcontents : (MemoryEvent.copy ⟨event, hostId⟩).contents =
      (SQLiteRuntimeStore.auditEventRow floatRepr taskId hostId event).contents := by
    simp only [MemoryEvent.contents, MemoryEvent.copy, EventRecord.contents, SQLiteRuntimeStore.auditEventRow, decoded,
      loads_asciiDumps hw, sortKeys_jsonCopy]
    exact congrArg (fun v => EventContents.mk _ _ (some v) _ _ _) (sortKeys_idem _).symm
  refine { h with events := ?_, numbered := ?_, head := ?_, headOf := ?_ }
  · intro t
    rw [hevents, filter_append, map_append, ← h.events t]
    have hkey : (SQLiteRuntimeStore.auditEventRow floatRepr taskId hostId event).taskId = taskId := rfl
    by_cases ht : t = taskId
    · subst ht
      rw [if_pos rfl, map_append, map_singleton, hcontents, filter_cons_of_pos (by rw [hkey, decide_eq_true rfl])]
      rfl
    · rw [if_neg ht, filter_cons_of_neg (by simpa [hkey] using Ne.symm ht), filter_nil, map_nil, append_nil]
  · intro t i e he
    rw [hevents] at he
    by_cases ht : t = taskId
    · subst ht
      rw [if_pos rfl, getElem?_append] at he
      split at he
      · exact h.numbered t i e he
      rename_i hle
      obtain ⟨hi, rfl⟩ := List.getElem?_eq_some_iff.1 he
      simp only [length_singleton] at hi
      rw [getElem_singleton]
      show event.sequence = i
      omega
    · rw [if_neg ht] at he
      exact h.numbered t i e he
  · intro t
    have hkeep : ∀ r : HeadRecord, ({ r with head } : HeadRecord).taskId = r.taskId := fun _ => rfl
    rw [hheads, h.head t, rowOf_upsert hkeep]
    split
    · cases rowOf HeadRecord.taskId s.auditHeads t <;> rfl
    · rfl
  · intro t
    rw [hheads, hevents]
    by_cases ht : t = taskId
    · subst ht
      rw [if_pos rfl, if_pos rfl, getLast?_concat, ← hhead]
      simp [hseq, MemoryEvent.copy]
    · rw [if_neg ht, if_neg ht]
      exact h.headOf t

/-- One event: both stores take it, or both refuse it and stay as they are. -/
theorem Same.appendAuditEvent (hw : fitsInt64 event.sequence = true ∧ PlainJson event.details)
    (hsign : ∀ hash sequence signedAt, (headSignature signHead hash sequence).signedAt = some signedAt →
      fitsInt64 signedAt = true) (hr : fitsInt64 (event.sequence + 1) = true) :
    (∃ m' s', m.appendAuditEvent taskId hostId signHead event = .ok m' ∧
      s.appendAuditEvent floatRepr taskId hostId signHead event = (.ok .done, s') ∧ Same m' s') ∨
    ∃ message message', m.appendAuditEvent taskId hostId signHead event = .error (.security message) ∧
      s.appendAuditEvent floatRepr taskId hostId signHead event = (.error (.security message'), s) := by
  by_cases hcontinues : InMemoryRuntimeStore.Continues (m.eventsOf taskId) event
  · obtain ⟨hseq, hprevious, hhash⟩ := hcontinues
    refine .inl ⟨_, _, InMemoryRuntimeStore.appendAuditEvent_continues ⟨hseq, hprevious, hhash⟩, ?_,
      h.withEvent hseq hw.2⟩
    unfold SQLiteRuntimeStore.appendAuditEvent
    rw [h.checkAuditLink, if_neg (not_not.2 hseq), if_neg (not_not.2 hprevious), bindInts_ok (by simpa using hw.1)]
    simp only [Table.insert]
    rw [if_neg fun hclash => hhash ((h.clash_iff hseq).1 hclash)]
    simp only [SQLiteRuntimeStore.upsertHead]
    rw [bindInts_ok (forall_mem_cons.2 ⟨hr, fun n hn => hsign _ _ n (Option.mem_toList.1 hn)⟩)]
  · obtain ⟨message, hrefused⟩ : ∃ message,
        m.appendAuditEvent taskId hostId signHead event = .error (.security message) :=
      InMemoryRuntimeStore.appendAuditEvent_refused hcontinues
    refine .inr ?_
    unfold SQLiteRuntimeStore.appendAuditEvent
    rw [h.checkAuditLink]
    by_cases hseq : event.sequence = (m.eventsOf taskId).length
    swap
    · exact ⟨message, _, hrefused, by rw [if_pos hseq]⟩
    by_cases hprevious : event.previous = InMemoryRuntimeStore.expectedPrevious (m.eventsOf taskId) event
    swap
    · exact ⟨message, _, hrefused, by rw [if_neg (not_not.2 hseq), if_pos hprevious]⟩
    have hhash : event.hash ∈ (m.eventsOf taskId).map (·.event.hash) := by
      by_contra hnot
      exact hcontinues ⟨hseq, hprevious, hnot⟩
    refine ⟨message, "audit event already exists", hrefused, ?_⟩
    rw [if_neg (not_not.2 hseq), if_neg (not_not.2 hprevious), bindInts_ok (by simpa using hw.1)]
    simp only [Table.insert]
    rw [if_pos ((h.clash_iff hseq).2 hhash)]

omit h in
/-- The events of a call: induction on them, each taken by both stores or refused by both. -/
theorem Same.appendLoop
    (hsign : ∀ hash sequence signedAt, (headSignature signHead hash sequence).signedAt = some signedAt →
      fitsInt64 signedAt = true) :
    ∀ (events : List Event) {m : InMemoryRuntimeStore} {s : SQLiteRuntimeStore}, Same m s →
      (∀ event ∈ events, fitsInt64 event.sequence = true ∧ PlainJson event.details) →
      (∀ event ∈ events, fitsInt64 (event.sequence + 1) = true) →
      Agree (InMemoryRuntimeStore.appendLoop taskId hostId signHead events m)
        (SQLiteRuntimeStore.appendAuditEvents floatRepr taskId hostId signHead events s) := by
  intro events
  induction events with
  | nil => exact fun h _ _ => ⟨rfl, h⟩
  | cons event events ih =>
    intro m s h hw hr
    unfold InMemoryRuntimeStore.appendLoop SQLiteRuntimeStore.appendAuditEvents
    rcases h.appendAuditEvent (hw event mem_cons_self) hsign (hr event mem_cons_self) with
      ⟨m', s', hm, hs, hsame⟩ | ⟨message, message', hm, hs⟩
    · rw [hm, hs]
      exact ih hsame (fun e he => hw e (mem_cons_of_mem _ he)) fun e he => hr e (mem_cons_of_mem _ he)
    · rw [hm, hs]
      exact ⟨rfl, h⟩

theorem Same.appendAuditEvents {events : List Event}
    (hw : (Call.appendAuditEvents taskId hostId events signHead).WellFormed)
    (hr : (Call.appendAuditEvents taskId hostId events signHead).HasRoom) :
    Agree (m.appendAuditEvents taskId hostId events signHead)
      (s.appendAuditEvents floatRepr taskId hostId signHead events) := by
  refine Same.appendLoop hw.2 events ?_ hw.1 hr
  -- entering a task that was missing with no events leaves the events of every task as they were
  have hevents : ∀ t, InMemoryRuntimeStore.eventsOf { m with auditEvents :=
      if (Assoc.contains m.auditEvents taskId) = true then m.auditEvents else Assoc.set m.auditEvents taskId [] } t =
      m.eventsOf t := by
    intro t
    show (get? (if Assoc.contains m.auditEvents taskId then m.auditEvents else _) t).getD [] =
      (get? m.auditEvents t).getD []
    rw [get?_setDefault]
    cases get? m.auditEvents t with
    | none => by_cases ht : taskId = t <;> simp [ht]
    | some => rfl
  exact { h with
    events := fun t => by rw [hevents]; exact h.events t
    numbered := fun t => by rw [hevents]; exact h.numbered t
    headOf := fun t => by rw [hevents]; exact h.headOf t }

end Calls

variable {m : InMemoryRuntimeStore} {s : SQLiteRuntimeStore}

/-- Every call keeps the stores the same, and ends alike on both. -/
theorem Same.call (h : Same m s) (env : Security.Env) {call : Call} (hw : call.WellFormed) (hr : call.HasRoom) :
    Agree (InMemoryRuntimeStore.call env call m) (SQLiteRuntimeStore.call floatRepr none env call s) := by
  cases call with
  | consumeNonce => exact h.consumeNonce hw
  | advanceTimeFloor => exact h.advanceTimeFloor hw hr
  | appendAuditEvents => exact h.appendAuditEvents hw hr
  | saveCheckpoint => exact h.saveCheckpoint hw hr
  | enqueueMigration taskId destination sealedEnvelopeJson =>
    exact h.enqueueMigration env taskId destination sealedEnvelopeJson
  | storeMigrationReceipt taskId receiptJson => exact h.storeMigrationReceipt taskId receiptJson
  | storeWitnessReceipt => exact h.storeWitnessReceipt hw

/-! ## Transactions and runs -/

/-- A snapshot that comes back holds what the store held: copying keeps the values. -/
theorem Same.restore {after : InMemoryRuntimeStore} (h : Same m s)
    (hcancelled : ∀ taskId, after.isTaskCancelled taskId = m.isTaskCancelled taskId) : Same (m.restore after) s := by
  have hevents : ∀ t, (m.restore after).eventsOf t = (m.eventsOf t).map MemoryEvent.copy := by
    intro t
    simp only [InMemoryRuntimeStore.eventsOf, InMemoryRuntimeStore.restore, get?_map]
    cases get? m.auditEvents t <;> rfl
  refine { h with checkpoint := ?_, events := ?_, numbered := ?_, headOf := ?_, cancelled := ?_ }
  · intro t
    rw [← h.checkpoint t]
    simp only [InMemoryRuntimeStore.restore, get?_map, Option.map_map]
    congr 1
    funext row
    simp only [Function.comp, MemoryCheckpoint.contents, MemoryCheckpoint.copy, sortKeys_jsonCopy]
  · intro t
    rw [← h.events t, hevents, map_map]
    congr 1
    funext e
    simp only [Function.comp, MemoryEvent.contents, MemoryEvent.copy, sortKeys_jsonCopy]
  · intro t i e he
    rw [hevents, getElem?_map, Option.map_eq_some_iff] at he
    obtain ⟨e, he, rfl⟩ := he
    exact h.numbered t i e he
  · intro t
    rw [hevents, getLast?_map, Option.map_map, length_map]
    exact h.headOf t
  · intro t
    exact (hcancelled t).trans (h.cancelled t)

theorem Same.cancelTask (h : Same m s) (taskId : String) : Same (m.cancelTask taskId) (s.cancelTask taskId) := by
  refine { h with cancelled := ?_ }
  intro t
  rw [memory_cancelTask, sqlite_cancelTask, h.cancelled t]

section Runs

variable (env : Security.Env)

theorem Same.perform (calls : List Call) (h : Same m s) (hw : ∀ call ∈ calls, call.WellFormed ∧ call.HasRoom) :
    ((memory env).perform calls m).1.map outcomeClass =
        ((sqlite floatRepr env none).perform calls s).1.map outcomeClass ∧
      Same ((memory env).perform calls m).2 ((sqlite floatRepr env none).perform calls s).2 := by
  induction calls generalizing m s with
  | nil => exact ⟨rfl, h⟩
  | cons call calls ih =>
    obtain ⟨hw', hr'⟩ := hw call mem_cons_self
    obtain ⟨hclass, hsame⟩ := h.call env hw' hr'
    obtain ⟨hrest, hafter⟩ := ih hsame fun c hc => hw c (mem_cons_of_mem _ hc)
    exact ⟨congrArg₂ cons hclass hrest, hafter⟩

theorem Same.step (step : Step) (h : Same m s) (hw : ∀ call ∈ step.calls, call.WellFormed ∧ call.HasRoom) :
    ((memory env).step step m).1.map outcomeClass = ((sqlite floatRepr env none).step step s).1.map outcomeClass ∧
      Same ((memory env).step step m).2 ((sqlite floatRepr env none).step step s).2 := by
  cases step with
  | cancelTask taskId => exact ⟨rfl, h.cancelTask taskId⟩
  | transaction calls commits =>
    obtain ⟨houtcomes, hsame⟩ := h.perform env calls hw
    refine ⟨houtcomes, ?_⟩
    cases commits with
    | true => exact hsame
    | false =>
      have hcancelled := (memory_lawful env).perform_facts calls m trivial
      exact h.restore fun taskId => congrFun hcancelled.2 taskId

theorem Same.run (steps : List Step) (h : Same m s)
    (hw : ∀ step ∈ steps, ∀ call ∈ step.calls, call.WellFormed ∧ call.HasRoom) :
    ((memory env).run steps m).1.map (·.map outcomeClass) =
        ((sqlite floatRepr env none).run steps s).1.map (·.map outcomeClass) ∧
      Same ((memory env).run steps m).2 ((sqlite floatRepr env none).run steps s).2 := by
  induction steps generalizing m s with
  | nil => exact ⟨rfl, h⟩
  | cons step steps ih =>
    obtain ⟨houtcomes, hsame⟩ := h.step env step (hw step mem_cons_self)
    obtain ⟨hrest, hafter⟩ := ih hsame fun s hs => hw s (mem_cons_of_mem _ hs)
    exact ⟨congrArg₂ cons houtcomes hrest, hafter⟩

end Runs

/-- The records of a task are in the order of their numbers. -/
theorem Same.eventsOf (h : Same m s) (taskId : String) :
    s.eventsOf taskId = s.auditEvents.filter fun r => decide (r.taskId = taskId) := by
  refine List.Pairwise.insertionSort_eq (pairwise_iff_getElem.2 ?_)
  intro i j hi hj hij
  have hnumber : ∀ (k : Nat) (hk : k < (s.auditEvents.filter fun r => decide (r.taskId = taskId)).length),
      ((s.auditEvents.filter fun r => decide (r.taskId = taskId)).get ⟨k, hk⟩).sequence = k := by
    intro k hk
    have hget : ((m.eventsOf taskId).map MemoryEvent.contents)[k]? =
        some ((s.auditEvents.filter fun r => decide (r.taskId = taskId)).get ⟨k, hk⟩).contents := by
      rw [h.events taskId, getElem?_map, getElem?_eq_getElem hk]
      rfl
    rw [getElem?_map, Option.map_eq_some_iff] at hget
    obtain ⟨e, he, heq⟩ := hget
    exact (congrArg EventContents.sequence heq).symm.trans (h.numbered taskId k e he)
  have h1 := hnumber i hi
  have h2 := hnumber j hj
  simp only [get_eq_getElem] at h1 h2
  omega

theorem Same.contents (h : Same m s) : m.contents = s.contents := by
  unfold InMemoryRuntimeStore.contents SQLiteRuntimeStore.contents
  rw [Contents.mk.injEq]
  refine ⟨funext h.nonce, funext h.checkpoint, funext fun taskId => ?_, funext h.head, funext h.outbox,
    funext h.receipt, funext h.witnessReceipt, ?_, funext h.cancelled⟩
  · rw [h.eventsOf taskId]
    exact h.events taskId
  · rw [h.floor]
    rfl

/-- The in-memory and the SQLite store agree: in every run of transactions and cancellations whose calls are
well formed, with the integers next to their arguments inside 64 bits too, each call returns the same or raises the
same class on both, and after every step both stores hold the same. -/
theorem stores_agree (env : Security.Env) (steps : List Step)
    (hw : ∀ step ∈ steps, ∀ call ∈ step.calls, call.WellFormed)
    (hr : ∀ step ∈ steps, ∀ call ∈ step.calls, call.HasRoom) :
    ((memory env).run steps .new).1.map (·.map outcomeClass) =
        ((sqlite floatRepr env none).run steps .new).1.map (·.map outcomeClass) ∧
      ∀ n, InMemoryRuntimeStore.contents ((memory env).after (steps.take n)) =
        SQLiteRuntimeStore.contents ((sqlite floatRepr env none).after (steps.take n)) := by
  have hboth : ∀ step ∈ steps, ∀ call ∈ step.calls, call.WellFormed ∧ call.HasRoom :=
    fun step hs call hc => ⟨hw step hs call hc, hr step hs call hc⟩
  refine ⟨(same_new.run env steps hboth).1, fun n => ?_⟩
  have hstart := same_new.run env (steps.take n) fun step hs => hboth step (mem_of_mem_take hs)
  exact hstart.2.contents

def freshState : AgentState :=
  ⟨"task", "goal", 0, 0, 0, .dict [], .list [], .ready, .null⟩

def freshSave (expectedGeneration : Int) : Call :=
  .saveCheckpoint ⟨"task", freshState, expectedGeneration, false, some ("issuer", "subject"), none, []⟩

theorem freshSave_wellFormed {expectedGeneration : Int} (h : fitsInt64 expectedGeneration = true) :
    (freshSave expectedGeneration).WellFormed :=
  have hzero : fitsInt64 0 = true := by decide
  ⟨h, hzero, hzero, ⟨nodup_nil, trivial⟩, trivial, trivial⟩

theorem freshSave_hasRoom {expectedGeneration : Int} (h : fitsInt64 (expectedGeneration + 1) = true) :
    (freshSave expectedGeneration).HasRoom := h

/-- The largest integer a parameter can hold, asserted as the generation of a stored checkpoint: the in-memory store
finds it stale, the SQLite store raises on binding the generation after it. -/
theorem largest_generation_overflows :
    (∀ call ∈ [freshSave 0, freshSave (2 ^ 63 - 1)], call.WellFormed) ∧
      ((memory Security.plainEnv).perform [freshSave 0, freshSave (2 ^ 63 - 1)] .new).1.map outcomeClass =
        [.ok (.generation 1), .error .securityError] ∧
      ((sqlite floatRepr Security.plainEnv none).perform [freshSave 0, freshSave (2 ^ 63 - 1)] .new).1.map outcomeClass
        = [.ok (.generation 1), .error .overflowError] := by
  refine ⟨?_, ?_, ?_⟩
  · intro call hcall
    simp only [mem_cons, not_mem_nil, or_false] at hcall
    rcases hcall with rfl | rfl <;> exact freshSave_wellFormed (by decide)
  · decide +kernel
  · decide +kernel

def agreedSteps : List Step :=
  [.transaction [freshSave 0, freshSave 1] true, .cancelTask "task", .transaction [freshSave 2] false]

theorem stores_agree_saves :
    (∀ step ∈ agreedSteps, ∀ call ∈ step.calls, call.WellFormed) ∧
      ((memory Security.plainEnv).run agreedSteps .new).1.map (·.map outcomeClass) =
        ((sqlite floatRepr Security.plainEnv none).run agreedSteps .new).1.map (·.map outcomeClass) := by
  have hcalls : ∀ step ∈ agreedSteps, ∀ call ∈ step.calls, call.WellFormed ∧ call.HasRoom := by
    intro step hs call hc
    simp only [agreedSteps, mem_cons, not_mem_nil, or_false] at hs
    rcases hs with rfl | rfl | rfl <;> simp only [Step.calls, mem_cons, not_mem_nil, or_false] at hc
    · rcases hc with rfl | rfl <;> exact ⟨freshSave_wellFormed (by decide), freshSave_hasRoom (by decide)⟩
    · subst hc
      exact ⟨freshSave_wellFormed (by decide), freshSave_hasRoom (by decide)⟩
  have hwell := fun step hs call hc => (hcalls step hs call hc).1
  exact ⟨hwell, (stores_agree Security.plainEnv agreedSteps hwell fun step hs call hc => (hcalls step hs call hc).2).1⟩

end Portmark.Storage
