/-
The migration outbox as the delivery workers and the operator use it: the calls of storage.py that
claim, count, release, bury, requeue, settle and prune its rows, in the in-memory and in the SQLite
store. A call takes its reading of the clock before it gets the lock, so the reading is an argument
of its own; under the lock a call is one step. What a step may do to a row is said once, for both
stores.
-/
import Portmark.Storage.Sqlite
import Portmark.Witness.Rules

namespace Portmark.Storage

open Lib Lib.Json Host

/-! ## Rows and calls -/

structure OutboxEntry where
  createdAt : Int
  row : OutboxRow
deriving DecidableEq

inductive OutboxCall where
  | claimMigrations (workerId : String) (leaseSeconds limit : Int)
  | recordMigrationAttempt (taskId : String) (workerId : Option String)
  | releaseMigration (taskId workerId : String)
  | deadLetterMigration (taskId workerId reason : String)
  | requeueMigration (taskId : String)
  | markMigrationDelivered (taskId : String) (receiptJson : Text) (deliveredAt : Int)
  | prune (nonceCutoff migrationCutoff batchSize : Int) (apply : Bool) (cursorKey : String)
  | enqueueMigration (taskId destination : String) (sealedEnvelopeJson : Text) (createdAt : Int) (cancelled : Bool)

inductive OutboxReply where
  | done
  | answer (b : Bool)
  | claimed (rows : List (String × OutboxEntry))

abbrev OutboxOutcome := Except StoreError OutboxReply

def maxMigrationLeaseSeconds : Int := 7 * 24 * 60 * 60

def maxClaimLimit : Int := 100

def maxPruneBatch : Int := 1000

/-- `_validate_claim_args`. -/
def validateClaimArgs (workerId : String) (leaseSeconds limit : Int) : Except StoreError Unit :=
  if workerId.toList.all Witness.isSpace then
    .error (.security "claim_migrations: worker_id must be a non-empty string")
  else if leaseSeconds ≤ 0 then .error (.security "claim_migrations: lease_seconds must be positive")
  else if leaseSeconds > maxMigrationLeaseSeconds then
    .error (.security s!"claim_migrations: lease_seconds exceeds the {maxMigrationLeaseSeconds}s ceiling")
  else if limit < 1 then .error (.security "claim_migrations: limit must be a positive int")
  else if limit > maxClaimLimit then
    .error (.security s!"claim_migrations: limit exceeds the ceiling of {maxClaimLimit} rows per claim")
  else .ok ()

/-- `_validate_prune_args`. -/
def validatePruneArgs (nonceCutoff migrationCutoff batchSize : Int) : Except StoreError Unit :=
  if nonceCutoff ≤ 0 then .error (.python s!"nonce_cutoff must be a positive epoch-seconds integer, got {nonceCutoff}")
  else if migrationCutoff ≤ 0 then
    .error (.python s!"migration_cutoff must be a positive epoch-seconds integer, got {migrationCutoff}")
  else if batchSize < 1 ∨ maxPruneBatch < batchSize then
    .error (.python s!"batch_size must be an integer from 1 to {maxPruneBatch}, got {batchSize}")
  else .ok ()

/-- The order of a claim: `created_at`, then `task_id`. -/
def earlier (a b : String × OutboxEntry) : Bool :=
  decide (a.2.createdAt < b.2.createdAt) || (decide (a.2.createdAt = b.2.createdAt) && !decide (b.1 < a.1))

def firstOf (limit : Int) (may : OutboxEntry → Bool) (rows : List (String × OutboxEntry)) :
    List (String × OutboxEntry) :=
  ((rows.filter fun e => may e.2).insertionSort fun a b => earlier a b = true).take limit.toNat

theorem mem_of_firstOf {limit : Int} {may : OutboxEntry → Bool} {rows : List (String × OutboxEntry)}
    {e : String × OutboxEntry} (h : e ∈ firstOf limit may rows) : e ∈ rows ∧ may e.2 = true := by
  have hmem := (List.perm_insertionSort _ _).subset (List.mem_of_mem_take h)
  exact List.mem_filter.1 hmem

/-! ## What the calls do to a row -/

namespace OutboxEntry

def grant (workerId : String) (expiry : Int) (e : OutboxEntry) : OutboxEntry :=
  { e with row := { e.row with claimedBy := some workerId, leaseExpiresAt := some expiry } }

def counted (e : OutboxEntry) : OutboxEntry := { e with row := { e.row with attemptCount := e.row.attemptCount + 1 } }

def released (e : OutboxEntry) : OutboxEntry :=
    { e with row := { e.row with claimedBy := none, leaseExpiresAt := none } }

def buried (reason : String) (e : OutboxEntry) : OutboxEntry :=
  { e with row := { e.row with
    status := .dead, deadReason := some reason, claimedBy := none, leaseExpiresAt := none } }

def requeued (e : OutboxEntry) : OutboxEntry :=
  { e with row := { e.row with status := .pending, deadReason := none, claimedBy := none, leaseExpiresAt := none } }

def delivered (receiptJson : Text) (deliveredAt : Int) (e : OutboxEntry) : OutboxEntry :=
  { e with row := { e.row with status := .delivered, receipt := some receiptJson, deliveredAt := some deliveredAt } }

def claimable (moment : Int) (e : OutboxEntry) : Bool :=
  e.row.status == .pending && (e.row.claimedBy == none || decide (e.row.leaseExpiresAt.getD 0 ≤ moment))

end OutboxEntry

inductive Change (call : OutboxCall) (moment : Int) (outcome : OutboxOutcome) (taskId : String) :
    Option OutboxEntry → Option OutboxEntry → Prop where
  | kept (e : Option OutboxEntry) : Change call moment outcome taskId e e
  | claimed {workerId : String} {leaseSeconds limit : Int} {e : OutboxEntry}
      (hcall : call = .claimMigrations workerId leaseSeconds limit) (hmay : e.claimable moment = true) :
      Change call moment outcome taskId (some e) (some (e.grant workerId (moment + leaseSeconds)))
  | counted {workerId : Option String} {e : OutboxEntry} (hcall : call = .recordMigrationAttempt taskId workerId)
      (hlive : ∀ w, workerId = some w → Store.isLiveHolder e.row w moment = true) :
      Change call moment outcome taskId (some e) (some e.counted)
  | released {workerId : String} {e : OutboxEntry} (hcall : call = .releaseMigration taskId workerId)
      (hlive : Store.isLiveHolder e.row workerId moment = true) (hanswer : outcome = .ok (.answer true)) :
      Change call moment outcome taskId (some e) (some e.released)
  | buried {workerId reason : String} {e : OutboxEntry} (hcall : call = .deadLetterMigration taskId workerId reason)
      (hlive : Store.isLiveHolder e.row workerId moment = true) (hpending : e.row.status = .pending)
      (hanswer : outcome = .ok (.answer true)) : Change call moment outcome taskId (some e) (some (e.buried reason))
  | requeued {e : OutboxEntry} (hcall : call = .requeueMigration taskId) (hdead : e.row.status = .dead) :
      Change call moment outcome taskId (some e) (some e.requeued)
  | delivered {receiptJson : Text} {deliveredAt : Int} {e : OutboxEntry}
      (hcall : call = .markMigrationDelivered taskId receiptJson deliveredAt) :
      Change call moment outcome taskId (some e) (some (e.delivered receiptJson deliveredAt))
  | pruned {nonceCutoff migrationCutoff batchSize : Int} {apply : Bool} {cursorKey : String} {e : OutboxEntry}
      (hcall : call = .prune nonceCutoff migrationCutoff batchSize apply cursorKey)
      (hdelivered : Store.outboxEligible migrationCutoff e.row = true) :
      Change call moment outcome taskId (some e) none
  | entered {destination : String} {sealedEnvelopeJson : Text} {createdAt : Int} {cancelled : Bool}
      (hcall : call = .enqueueMigration taskId destination sealedEnvelopeJson createdAt cancelled) :
      Change call moment outcome taskId none (some ⟨createdAt, pendingRow destination sealedEnvelopeJson⟩)

structure Effect (call : OutboxCall) (moment : Int) (outcome : OutboxOutcome)
    (before after : String → Option OutboxEntry) : Prop where
  change : ∀ taskId, Change call moment outcome taskId (before taskId) (after taskId)
  granted : ∀ rows, outcome = .ok (.claimed rows) → ∃ workerId leaseSeconds limit,
    call = .claimMigrations workerId leaseSeconds limit ∧ 0 < leaseSeconds ∧
      ∀ p ∈ rows, ∃ e, before p.1 = some e ∧ e.claimable moment = true ∧
        p.2 = e.grant workerId (moment + leaseSeconds) ∧ after p.1 = some p.2

theorem Effect.none {call : OutboxCall} {moment : Int} {outcome : OutboxOutcome} {rows : String → Option OutboxEntry}
    (h : ∀ claimed, outcome ≠ .ok (.claimed claimed)) : Effect call moment outcome rows rows :=
  ⟨fun _ => .kept _, fun claimed hc => absurd hc (h claimed)⟩

theorem Effect.one {call : OutboxCall} {moment : Int} {outcome : OutboxOutcome}
    {rows rows' : String → Option OutboxEntry}
    (taskId : String) (h : ∀ claimed, outcome ≠ .ok (.claimed claimed)) (hrest : ∀ k, k ≠ taskId → rows' k = rows k)
    (hone : Change call moment outcome taskId (rows taskId) (rows' taskId)) :
    Effect call moment outcome rows rows' := by
  refine ⟨fun k => ?_, fun claimed hc => absurd hc (h claimed)⟩
  by_cases hk : k = taskId
  · subst hk
    exact hone
  · rw [hrest k hk]
    exact .kept _

structure OutboxBackend where
  Store : Type
  new : Store
  call : OutboxCall → Int → Store → OutboxOutcome × Store
  rows : Store → String → Option OutboxEntry
  Valid : Store → Prop

structure OutboxBackend.Lawful (B : OutboxBackend) : Prop where
  valid_new : B.Valid B.new
  rows_new : ∀ taskId, B.rows B.new taskId = none
  valid_call : ∀ {call moment store}, B.Valid store → B.Valid (B.call call moment store).2
  effect : ∀ {call moment store}, B.Valid store →
    Effect call moment (B.call call moment store).1 (B.rows store) (B.rows (B.call call moment store).2)

/-! ## The in-memory store -/

namespace MemoryOutbox

variable (env : Security.Env)

def claimMigrations (workerId : String) (leaseSeconds limit moment : Int) (outbox : Assoc OutboxEntry) :
    OutboxOutcome × Assoc OutboxEntry :=
  match validateClaimArgs workerId leaseSeconds limit with
  | .error e => (.error e, outbox)
  | .ok _ =>
    let claimed := (firstOf limit (·.claimable moment) outbox).map fun e =>
      (e.1, e.2.grant workerId (moment + leaseSeconds))
    (.ok (.claimed claimed), Assoc.update outbox claimed)

def recordMigrationAttempt (taskId : String) (workerId : Option String) (moment : Int) (outbox : Assoc OutboxEntry) :
    OutboxOutcome × Assoc OutboxEntry :=
  match Assoc.get? outbox taskId with
  | none => (.ok .done, outbox)
  | some e =>
    if workerId.all fun w => Store.isLiveHolder e.row w moment then (.ok .done, Assoc.set outbox taskId e.counted)
    else (.ok .done, outbox)

def releaseMigration (taskId workerId : String) (moment : Int) (outbox : Assoc OutboxEntry) :
    OutboxOutcome × Assoc OutboxEntry :=
  match Assoc.get? outbox taskId with
  | none => (.ok (.answer false), outbox)
  | some e =>
    if Store.isLiveHolder e.row workerId moment then (.ok (.answer true), Assoc.set outbox taskId e.released)
    else (.ok (.answer false), outbox)

def deadLetterMigration (taskId workerId reason : String) (moment : Int) (outbox : Assoc OutboxEntry) :
    OutboxOutcome × Assoc OutboxEntry :=
  match Assoc.get? outbox taskId with
  | none => (.ok (.answer false), outbox)
  | some e =>
    if !Store.isLiveHolder e.row workerId moment then (.ok (.answer false), outbox)
    else if e.row.status ≠ .pending then (.ok (.answer false), outbox)
    else (.ok (.answer true), Assoc.set outbox taskId (e.buried reason))

def requeueMigration (taskId : String) (outbox : Assoc OutboxEntry) : OutboxOutcome × Assoc OutboxEntry :=
  match Assoc.get? outbox taskId with
  | none => (.ok (.answer false), outbox)
  | some e =>
    if e.row.status ≠ .dead then (.ok (.answer false), outbox)
    else (.ok (.answer true), Assoc.set outbox taskId e.requeued)

def markMigrationDelivered (taskId : String) (receiptJson : Text) (deliveredAt : Int) (outbox : Assoc OutboxEntry) :
    OutboxOutcome × Assoc OutboxEntry :=
  match Assoc.get? outbox taskId with
  | none => (.ok .done, outbox)
  | some e => (.ok .done, Assoc.set outbox taskId (e.delivered receiptJson deliveredAt))

def prune (nonceCutoff migrationCutoff batchSize : Int) (apply : Bool) (outbox : Assoc OutboxEntry) :
    OutboxOutcome × Assoc OutboxEntry :=
  match validatePruneArgs nonceCutoff migrationCutoff batchSize with
  | .error e => (.error e, outbox)
  | .ok _ =>
    if apply then (.ok .done, outbox.filter fun e => !Store.outboxEligible migrationCutoff e.2.row)
    else (.ok .done, outbox)

def enqueueMigration (taskId destination : String) (sealedEnvelopeJson : Text) (createdAt : Int) (cancelled : Bool)
    (outbox : Assoc OutboxEntry) : OutboxOutcome × Assoc OutboxEntry :=
  if cancelled then (.error .taskCancelled, outbox)
  else
    match Assoc.get? outbox taskId with
    | some existing =>
      if existing.row.sealedEnvelope = sealedEnvelopeJson ∧ existing.row.destination =
        destination then (.ok .done, outbox)
      else (.error (.security s!"migration outbox already holds a different envelope for task {env.repr taskId}"),
        outbox)
    | none => (.ok .done, Assoc.set outbox taskId ⟨createdAt, pendingRow destination sealedEnvelopeJson⟩)

def call : OutboxCall → Int → Assoc OutboxEntry → OutboxOutcome × Assoc OutboxEntry
  | .claimMigrations workerId leaseSeconds limit, moment => claimMigrations workerId leaseSeconds limit moment
  | .recordMigrationAttempt taskId workerId, moment => recordMigrationAttempt taskId workerId moment
  | .releaseMigration taskId workerId, moment => releaseMigration taskId workerId moment
  | .deadLetterMigration taskId workerId reason, moment => deadLetterMigration taskId workerId reason moment
  | .requeueMigration taskId, _ => requeueMigration taskId
  | .markMigrationDelivered taskId receiptJson deliveredAt, _ => markMigrationDelivered taskId receiptJson deliveredAt
  | .prune nonceCutoff migrationCutoff batchSize apply _, _ => prune nonceCutoff migrationCutoff batchSize apply
  | .enqueueMigration taskId destination sealedEnvelopeJson createdAt cancelled, _ =>
    enqueueMigration env taskId destination sealedEnvelopeJson createdAt cancelled

end MemoryOutbox

def memoryOutbox (env : Security.Env) : OutboxBackend where
  Store := Assoc OutboxEntry
  new := []
  call := MemoryOutbox.call env
  rows := Assoc.get?
  Valid outbox := (Assoc.keys outbox).Nodup

/-! ## The SQLite store -/

namespace SQLiteOutbox

variable (env : Security.Env)

/-- The rows of `migration_outbox` under their task ids. -/
abbrev Rows := Table (String × OutboxEntry)

/-- `status = 'pending' AND (claimed_by IS NULL OR lease_expires_at <= ?)`. -/
def claimable (moment : Int) (e : OutboxEntry) : Bool :=
  e.row.status == .pending && (e.row.claimedBy == none || e.row.leaseExpiresAt.any (· ≤ moment))

/-- `claimed_by = ? AND lease_expires_at > ?`. -/
def isLiveHolder (workerId : String) (moment : Int) (e : OutboxEntry) : Bool :=
  e.row.claimedBy == some workerId && e.row.leaseExpiresAt.any (moment < ·)

/-- `UPDATE migration_outbox SET ... WHERE task_id = ? AND ...`. -/
def updateOne (taskId : String) (which : OutboxEntry → Bool) (set : OutboxEntry → OutboxEntry) (outbox : Rows) :
    Nat × Rows :=
  Table.update (fun r => decide (r.1 = taskId) && which r.2) (fun r => (r.1, set r.2)) outbox

def grantAll (workerId : String) (expiry : Int) (chosen : List (String × OutboxEntry)) (outbox : Rows) : Rows :=
  chosen.foldl (fun outbox e => (updateOne e.1 (fun _ => true) (·.grant workerId expiry) outbox).2) outbox

def claimMigrations (workerId : String) (leaseSeconds limit moment : Int) (outbox : Rows) : OutboxOutcome × Rows :=
  match validateClaimArgs workerId leaseSeconds limit with
  | .error e => (.error e, outbox)
  | .ok _ =>
    match bindInts [moment, limit] with
    | .error e => (.error e, outbox)
    | .ok _ =>
      let chosen := firstOf limit (claimable moment) outbox
      let expiry := moment + leaseSeconds
      match bindInts (if chosen.isEmpty then [] else [expiry]) with
      | .error e => (.error e, outbox)
      | .ok _ =>
        (.ok (.claimed (chosen.map fun e => (e.1, e.2.grant workerId expiry))), grantAll workerId expiry chosen outbox)

def recordMigrationAttempt (taskId : String) (workerId : Option String) (moment : Int) (outbox : Rows) :
    OutboxOutcome × Rows :=
  match workerId with
  | none => (.ok .done, (updateOne taskId (fun _ => true) (·.counted) outbox).2)
  | some w =>
    match bindInts [moment] with
    | .error e => (.error e, outbox)
    | .ok _ => (.ok .done, (updateOne taskId (isLiveHolder w moment) (·.counted) outbox).2)

def releaseMigration (taskId workerId : String) (moment : Int) (outbox : Rows) : OutboxOutcome × Rows :=
  match bindInts [moment] with
  | .error e => (.error e, outbox)
  | .ok _ =>
    let updated := updateOne taskId (isLiveHolder workerId moment) (·.released) outbox
    (.ok (.answer (decide (0 < updated.1))), updated.2)

def deadLetterMigration (taskId workerId reason : String) (moment : Int) (outbox : Rows) : OutboxOutcome × Rows :=
  match bindInts [moment] with
  | .error e => (.error e, outbox)
  | .ok _ =>
    let updated := updateOne taskId (fun e => isLiveHolder workerId moment e && e.row.status == .pending)
      (·.buried reason) outbox
    (.ok (.answer (decide (0 < updated.1))), updated.2)

def requeueMigration (taskId : String) (outbox : Rows) : OutboxOutcome × Rows :=
  let updated := updateOne taskId (fun e => e.row.status == .dead) (·.requeued) outbox
  (.ok (.answer (decide (0 < updated.1))), updated.2)

def markMigrationDelivered (taskId : String) (receiptJson : Text) (deliveredAt : Int) (outbox : Rows) :
    OutboxOutcome × Rows :=
  match bindInts [deliveredAt] with
  | .error e => (.error e, outbox)
  | .ok _ => (.ok .done, (updateOne taskId (fun _ => true) (·.delivered receiptJson deliveredAt) outbox).2)

def pruneKeys (migrationCutoff batchSize : Int) (cursorKey : String) (outbox : Rows) : List String :=
  (((outbox.filter fun r => Store.outboxEligible migrationCutoff r.2.row && decide (cursorKey < r.1)).map
    Prod.fst).insertionSort fun a b => !decide (b < a) = true).take batchSize.toNat

def prune (nonceCutoff migrationCutoff batchSize : Int) (apply : Bool) (cursorKey : String) (outbox : Rows) :
    OutboxOutcome × Rows :=
  match validatePruneArgs nonceCutoff migrationCutoff batchSize with
  | .error e => (.error e, outbox)
  | .ok _ =>
    match bindInts [migrationCutoff, batchSize] with
    | .error e => (.error e, outbox)
    | .ok _ =>
      if apply then
        let keys := pruneKeys migrationCutoff batchSize cursorKey outbox
        (.ok .done, outbox.filter fun r => !(keys.contains r.1 && Store.outboxEligible migrationCutoff r.2.row))
      else (.ok .done, outbox)

def sameEnvelope (destination : String) (sealedEnvelopeJson : Text) (r : String × OutboxEntry) : Bool :=
  decide (r.2.row.sealedEnvelope = sealedEnvelopeJson) && decide (r.2.row.destination = destination)

def setDestination (destination : String) (r : String × OutboxEntry) : String × OutboxEntry :=
  (r.1, { r.2 with row := { r.2.row with destination } })

def enqueueMigration (taskId destination : String) (sealedEnvelopeJson : Text) (createdAt : Int) (cancelled : Bool)
    (outbox : Rows) : OutboxOutcome × Rows :=
  if cancelled then (.error .taskCancelled, outbox)
  else
    match bindInts [createdAt] with
    | .error e => (.error e, outbox)
    | .ok _ =>
      let upserted := Table.upsert (Table.sameKey Prod.fst) (sameEnvelope destination sealedEnvelopeJson)
        (setDestination destination) outbox (taskId, ⟨createdAt, pendingRow destination sealedEnvelopeJson⟩)
      (if upserted.1 = 0 then
          .error (.security s!"migration outbox already holds a different envelope for task {env.repr taskId}")
        else .ok .done, upserted.2)

def call : OutboxCall → Int → Rows → OutboxOutcome × Rows
  | .claimMigrations workerId leaseSeconds limit, moment => claimMigrations workerId leaseSeconds limit moment
  | .recordMigrationAttempt taskId workerId, moment => recordMigrationAttempt taskId workerId moment
  | .releaseMigration taskId workerId, moment => releaseMigration taskId workerId moment
  | .deadLetterMigration taskId workerId reason, moment => deadLetterMigration taskId workerId reason moment
  | .requeueMigration taskId, _ => requeueMigration taskId
  | .markMigrationDelivered taskId receiptJson deliveredAt, _ => markMigrationDelivered taskId receiptJson deliveredAt
  | .prune nonceCutoff migrationCutoff batchSize apply cursorKey, _ =>
    prune nonceCutoff migrationCutoff batchSize apply cursorKey
  | .enqueueMigration taskId destination sealedEnvelopeJson createdAt cancelled, _ =>
    enqueueMigration env taskId destination sealedEnvelopeJson createdAt cancelled

def rows (outbox : Rows) (taskId : String) : Option OutboxEntry := (Table.rowOf Prod.fst outbox taskId).map Prod.snd

end SQLiteOutbox

def sqliteOutbox (env : Security.Env) : OutboxBackend where
  Store := SQLiteOutbox.Rows
  new := []
  call := SQLiteOutbox.call env
  rows := SQLiteOutbox.rows
  Valid outbox := Table.Unique Prod.fst outbox

end Portmark.Storage
