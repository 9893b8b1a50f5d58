/-
The calls a caller makes on a runtime store inside a transaction (`RuntimeTransaction` of
storage.py), what they return or raise, and runs of transactions on a store. A caller may catch what
a call raises and go on, so a transaction is any list of calls with the way it ends; a backend says
what a call does to its store and what a rollback brings back.
-/
import Portmark.Host.Store

namespace Portmark.Storage

open Lib Lib.Json Host

/-! ## Calls -/

inductive StoreError where
  | security (message : String)
  | taskCancelled
  | checkpointCrypto (message : String)
  | overflow
  | python (message : String)
deriving DecidableEq

inductive ErrorClass where
  | securityError
  | taskCancelledError
  | checkpointCryptoError
  | overflowError
  | otherError
deriving DecidableEq

def StoreError.errorClass : StoreError → ErrorClass
  | .security _ => .securityError
  | .taskCancelled => .taskCancelledError
  | .checkpointCrypto _ => .checkpointCryptoError
  | .overflow => .overflowError
  | .python _ => .otherError

structure Event where
  sequence : Int
  event : String
  details : Value
  previous : String
  hash : String

structure HeadSignature where
  keyId : String
  signature : String
  signedAt : Option Int
deriving DecidableEq

/-- `AuditHeadSigner`. -/
abbrev AuditHeadSigner := String → Int → HeadSignature

/-- The signature of a head: `sign_head`, or none. -/
def headSignature (signHead : Option AuditHeadSigner) (hash : String) (sequence : Int) : HeadSignature :=
  match signHead with
  | some sign => sign hash sequence
  | none => ⟨"", "", none⟩

structure Head where
  headHash : String
  sequence : Int
  hostId : String
  signature : HeadSignature
deriving DecidableEq

/-- The arguments of `save_checkpoint`. -/
structure SaveArguments where
  taskId : String
  state : AgentState
  expectedGeneration : Int
  closed : Bool
  owner : Option (String × String)
  authorityCeiling : Option Text
  sealNonce : Text

def ownerColumns : Option (String × String) → Option String × Option String
  | some (issuer, subject) => (some issuer, some subject)
  | none => (none, none)

inductive Call where
  | consumeNonce (nonce : String) (row : NonceRow)
  | advanceTimeFloor (now : Int)
  | appendAuditEvents (taskId hostId : String) (events : List Event) (signHead : Option AuditHeadSigner)
  | saveCheckpoint (arguments : SaveArguments)
  | enqueueMigration (taskId destination : String) (sealedEnvelopeJson : Text)
  | storeMigrationReceipt (taskId : String) (receiptJson : Text)
  | storeWitnessReceipt (hostId : String) (hostSeq : Int) (receiptHash : String) (receiptJson : Text)

inductive Reply where
  | done
  | generation (n : Int)
  | floor (advancedTo : Option Int)
deriving DecidableEq

abbrev Outcome := Except StoreError Reply

/-- `_check_owner`. -/
def checkOwner (stored asserted : Option String × Option String) : Except StoreError Unit :=
  if stored = asserted then .ok ()
  else if stored = (none, none) then
    .error (.security ("legacy checkpoint has no stored owner and cannot be resumed safely after upgrade. " ++
      "Submit it as a new task."))
  else .error (.security "checkpoint belongs to a different owner")

theorem checkOwner_ok {stored asserted : Option String × Option String} {done : Unit}
    (h : checkOwner stored asserted = .ok done) : stored = asserted := by
  unfold checkOwner at h
  split at h
  · assumption
  · split at h <;> cases h

theorem checkOwner_self (owner : Option String × Option String) : checkOwner owner owner = .ok () := if_pos rfl

theorem checkOwner_ne {stored asserted : Option String × Option String} (h : stored ≠ asserted) :
    ∃ message, checkOwner stored asserted = .error (.security message) := by
  unfold checkOwner
  rw [if_neg h]
  split <;> exact ⟨_, rfl⟩

def pendingRow (destination : String) (sealedEnvelopeJson : Text) : OutboxRow :=
  ⟨destination, sealedEnvelopeJson, .pending, 0, none, none, none, none, none⟩

/-! ## Runs -/

inductive Step where
  | transaction (calls : List Call) (commits : Bool)
  | cancelTask (taskId : String)

structure Backend where
  Store : Type
  new : Store
  call : Call → Store → Outcome × Store
  rollback : Store → Store → Store
  cancelTask : String → Store → Store

namespace Backend

variable (B : Backend)

def perform : List Call → B.Store → List Outcome × B.Store
  | [], store => ([], store)
  | call :: calls, store =>
    let (outcome, store) := B.call call store
    let (outcomes, store) := perform calls store
    (outcome :: outcomes, store)

def step : Step → B.Store → List Outcome × B.Store
  | .transaction calls commits, store =>
    let (outcomes, after) := B.perform calls store
    (outcomes, if commits then after else B.rollback store after)
  | .cancelTask taskId, store => ([], B.cancelTask taskId store)

def run : List Step → B.Store → List (List Outcome) × B.Store
  | [], store => ([], store)
  | step :: steps, store =>
    let (outcomes, store) := B.step step store
    let (rest, store) := run steps store
    (outcomes :: rest, store)

def after (steps : List Step) : B.Store := (B.run steps B.new).2

end Backend

end Portmark.Storage
