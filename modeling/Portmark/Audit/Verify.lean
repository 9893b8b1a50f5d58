/-
The chain verifier: `_verify_audit_rows` of storage.py over one snapshot of a task's rows and head,
with `evaluate_audit_head` of security.py. A column is what SQLite may hold in it, whatever its
declared type; a row's details are the stored text, or the data itself in the in-memory store.
Everything Python raises on the way is an outcome, and the verifier catches some of it.
-/
import Portmark.Lib.Base64
import Portmark.Lib.Json.Decode

namespace Portmark.Audit

open Lib Lib.Json

/-! ## Columns -/

structure Double where
  value : PyFloat
  rounded : ∀ q, value = .finite q → toDouble q = .finite q
deriving DecidableEq

inductive Cell where
  | null
  | int (n : Int)
  | real (x : Double)
  | text (t : Text)
  | blob (b : List Nat)
deriving DecidableEq

namespace Cell

def data : Cell → Data
  | null => .null
  | int n => .int n
  | real x => .float x.value
  | text t => .ofText t
  | blob b => .bytes b

/-- `==`: numbers compare as numbers. -/
def eq : Cell → Cell → Bool
  | null, null => true
  | int a, int b => a == b
  | int a, real x => PyFloat.eq (.finite a) x.value
  | real x, int b => PyFloat.eq x.value (.finite b)
  | real x, real y => PyFloat.eq x.value y.value
  | text a, text b => a == b
  | blob a, blob b => a == b
  | _, _ => false

def truthy : Cell → Bool
  | null => false
  | int n => n != 0
  | real x => !PyFloat.eq x.value (.finite 0)
  | text t => !t.isEmpty
  | blob b => !b.isEmpty

end Cell

/-- The details of a row: `details` or `details_json`. -/
inductive Details where
  | decoded (d : Data)
  | stored (json : Text)

/-- A row of `audit_events`. -/
structure Row where
  sequence : Cell
  event : Cell
  details : Details
  previousHash : Cell
  hash : Cell
  hostId : Cell

/-- A row of `audit_heads`. -/
structure Head where
  headHash : Cell
  sequence : Cell
  hostId : Cell
  signatureKeyId : Cell
  signature : Cell
  signedAt : Cell

/-! ## The world -/

/-- The exceptions that are no `SecurityError`. -/
inductive PyException where
  | typeError
  | valueError
  | overflowError
  | recursionError
deriving DecidableEq

structure Env where
  sha256 : Text → Text
  depth : Nat
  intOfText : Text → Option Int
  intOfBytes : List Nat → Option Int
  isPublicKey : List Nat → Bool
  verify : List Nat → List Nat → Text → Bool
  clock : Except String Int

structure TrustedIdentity where
  issuer : Codes
  publicKey : List Nat
  notBefore : Int
  expiresAt : Option Int
  revoked : Bool
  usages : List String
  revokedAt : Option Int

abbrev TrustRegistry := List (Codes × TrustedIdentity)

abbrev AuditHeadVerifier := Except String TrustRegistry

/-- `int(x)`: towards zero. -/
def Double.toInt (x : Double) : Except PyException Int :=
  match x.value with
  | .finite q => .ok (if q < 0 then ⌈q⌉ else ⌊q⌋)
  | .nan => .error .valueError
  | _ => .error .overflowError

/-- `int(cell)`. -/
def Cell.toInt (env : Env) : Cell → Except PyException Int
  | .null => .error .typeError
  | .int n => .ok n
  | .real x => x.toInt
  | .text t => (env.intOfText t).elim (.error .valueError) .ok
  | .blob b => (env.intOfBytes b).elim (.error .valueError) .ok

/-- An error of `canonical_json`. -/
def ofEncodeError : EncodeError → PyException
  | .typeError => .typeError
  | .valueError => .valueError
  | .recursionError => .recursionError

/-- `b64url_decode`, none where it raises its `ValueError`. -/
def b64urlDecode? : Data → Option (List Nat)
  | .str s => (b64urlDecode (charsOf s)).toOption
  | _ => none

/-! ## The audit head -/

structure HeadPayload where
  taskId : Data
  hostId : Data
  headHash : Data
  sequence : Int
  signedAt : Data

def key (name : String) : Key := .str (codes name.toList)

/-- `_audit_head_payload_for`: version 1 without a signing time, version 2 with one. -/
def HeadPayload.data (p : HeadPayload) : Data :=
  match p.signedAt with
  | .null => .dict [(key "type", .ofText "portmark.audit-head.v1".toList), (key "task_id", p.taskId),
      (key "host_id", p.hostId), (key "head_hash", p.headHash), (key "sequence", .int p.sequence)]
  | signedAt => .dict [(key "type", .ofText "portmark.audit-head.v2".toList), (key "task_id", p.taskId),
      (key "host_id", p.hostId), (key "head_hash", p.headHash), (key "sequence", .int p.sequence),
      (key "signed_at", signedAt)]

structure AuditHeadEvaluation where
  ok : Bool
  headStatus : String
  detail : String

/-- What `evaluate_audit_head` raises. -/
inductive Raised where
  | security (message : String)
  | python (e : PyException)

def TrustedIdentity.permits (identity : TrustedIdentity) (usage : String) : Bool :=
  identity.usages.isEmpty || identity.usages.contains usage

def identityOf (registry : TrustRegistry) : Data → Option TrustedIdentity
  | .str s => (registry.find? fun e => e.1 == s).map Prod.snd
  | _ => none

def isText (d : Data) (s : Codes) : Bool :=
  match d with
  | .str s' => s' == s
  | _ => false

/-- Whether the signature verifies; a `ValueError` on the way says no, as a wrong signature does. -/
def authentic (env : Env) (identity : TrustedIdentity) (payload : HeadPayload) (signature : Data) :
    Except Raised Bool :=
  if !env.isPublicKey identity.publicKey then .ok false
  else
    match b64urlDecode? signature with
    | none => .ok false
    | some bytes =>
      match canonicalJson env.depth payload.data with
      | .ok text => .ok (env.verify identity.publicKey bytes text)
      | .error .valueError => .ok false
      | .error e => .error (.python (ofEncodeError e))

def auditHeadClockSkewSeconds : Int := 300

def judgeHead (identity : TrustedIdentity) (signedAt : Data) (currentTime : Int) : AuditHeadEvaluation :=
  match signedAt with
  | .null =>
    if identity.revoked then
      ⟨false, "revoked-key-legacy-v1",
        "v1 audit head signed by a now-revoked key; pre-revocation signing cannot be established without a signed_at"⟩
    else ⟨true, "valid-legacy-v1", "v1 audit head cryptographically valid (legacy: signing time not attested)"⟩
  | .int signedAt =>
    if signedAt < 0 then ⟨false, "signature-invalid", "audit head signed_at is malformed (negative)"⟩
    else if signedAt > currentTime + auditHeadClockSkewSeconds then
      ⟨false, "signed-in-future", "audit head signed_at is in the future beyond the allowed clock skew"⟩
    else if signedAt < identity.notBefore then
      ⟨false, "signed-before-activation", "audit head signed before the key's activation time"⟩
    else if identity.expiresAt.any (· ≤ signedAt) then
      ⟨false, "signed-after-expiry", "audit head signed after the signing key expired"⟩
    else if identity.revoked then
      match identity.revokedAt with
      | some revokedAt =>
        if signedAt < revokedAt then
          ⟨true, "valid-key-revoked",
            s!"audit head cryptographically valid; signing key was later revoked (effective {revokedAt})"⟩
        else ⟨false, "signed-after-revocation",
          "audit head signed at/after the signing key's revocation (or the key is revoked with no effective time)"⟩
      | none => ⟨false, "signed-after-revocation",
          "audit head signed at/after the signing key's revocation (or the key is revoked with no effective time)"⟩
    else if identity.expiresAt.any (· ≤ currentTime) then
      ⟨true, "valid-key-expired", "audit head cryptographically valid; signing key has since expired"⟩
    else ⟨true, "valid", "audit head verified"⟩
  | _ => ⟨false, "signature-invalid", "audit head signed_at is malformed"⟩

/-- `TrustRegistry.evaluate_audit_head`. -/
def evaluateAuditHead (env : Env) (registry : TrustRegistry) (keyId : Data) (payload : HeadPayload) (signature : Data)
    (requiredUsage : String) : Except Raised AuditHeadEvaluation :=
  match env.clock with
  | .error message => .error (.security message)
  | .ok currentTime =>
    match identityOf registry keyId with
    | none => .ok ⟨false, "untrusted", "audit head signing key is not trusted"⟩
    | some identity =>
      if !identity.permits requiredUsage then
        .ok ⟨false, "usage-violation", s!"audit head signing key lacks the required '{requiredUsage}' usage"⟩
      else if !isText payload.hostId identity.issuer then
        .ok ⟨false, "host-mismatch", "audit head signer identity does not match host"⟩
      else
        match authentic env identity payload signature with
        | .error e => .error e
        | .ok false => .ok ⟨false, "signature-invalid", "audit head signature is invalid"⟩
        | .ok true => .ok (judgeHead identity payload.signedAt currentTime)

/-- The verifier's `evaluate_audit_head`. -/
def evaluate (env : Env) (verifier : AuditHeadVerifier) (keyId : Data) (payload : HeadPayload) (signature : Data)
    (requiredUsage : String) : Except Raised AuditHeadEvaluation :=
  match verifier with
  | .error message => .error (.security message)
  | .ok registry => evaluateAuditHead env registry keyId payload signature requiredUsage

/-! ## The verdict -/

inductive AuditVerificationStatus where
  | valid
  | invalid
  | unverifiable
deriving DecidableEq

structure AuditVerificationResult where
  status : AuditVerificationStatus
  reason : String
  headStatus : String := ""
  anchorStatus : String := ""
  replayedAfterFinish : List Int := []
deriving DecidableEq

/-- `_verify_head_signature`. -/
def verifyHeadSignature (env : Env) (verifier : Option AuditHeadVerifier) (taskId : Text) (head : Head)
    (sequence : Int) : Except PyException AuditVerificationResult :=
  match verifier with
  | none => .ok ⟨.unverifiable, "trust registry is not configured", "unverifiable", "", []⟩
  | some verifier =>
    if !head.signatureKeyId.truthy || !head.signature.truthy || !head.hostId.truthy then
      .ok ⟨.invalid, "signed audit head is missing", "incomplete", "", []⟩
    else
      match evaluate env verifier head.signatureKeyId.data
          ⟨.ofText taskId, head.hostId.data, head.headHash.data, sequence,
            head.signedAt.data⟩ head.signature.data "audit" with
      | .error (.security message) => .ok ⟨.unverifiable, message, "registry-unavailable", "", []⟩
      | .error (.python e) => .error e
      | .ok evaluation =>
        .ok ⟨if evaluation.ok then .valid else .invalid, evaluation.detail, evaluation.headStatus, "", []⟩

def legacyAnchorFields : List String :=
  ["previous_audit_hash", "previous_audit_sequence", "previous_audit_host_id"]

def anchorProofFields : List String :=
  ["previous_audit_task_id", "previous_audit_signature_key_id", "previous_audit_signature"]

def legacyAnchorRefusedReason : String :=
  "migration anchor predates the kept source proof (legacy-anchor): the source signature cannot be " ++
  "independently reverified; pass --allow-legacy-anchor only to accept it for migration compatibility"

def legacyAnchorAllowedReason : String :=
  "legacy migration anchor accepted by --allow-legacy-anchor: the source proof was NOT independently " ++
  "reverified (compatibility mode, not an equivalent security mode)"

/-- `d.get(name)`, `None` where it is missing. -/
def getData (d : List (Key × Data)) (name : String) : Data :=
  match d.find? fun e => e.1 = key name with
  | some e => e.2
  | none => .null

/-- `set(d) == set(names)`. -/
def hasKeys (d : List (Key × Data)) (names : List String) : Bool :=
  (d.all fun e => names.any fun name => e.1 = key name) && names.all fun name => d.any fun e => e.1 = key name

def isNonEmptyText : Data → Bool
  | .str s => !s.isEmpty
  | _ => false

/-- `isinstance(v, int) and not isinstance(v, bool) and v > 0`. -/
def positiveInt? : Data → Option Int
  | .int n => if 0 < n then some n else none
  | _ => none

def malformedAnchor (headStatus : String) : AuditVerificationResult :=
  ⟨.invalid, "migration anchor proof is incomplete or malformed", headStatus, "invalid", []⟩

/-- `_check_migration_anchor`. -/
def checkMigrationAnchor (env : Env) (verifier : Option AuditHeadVerifier) (headResult : AuditVerificationResult)
    (firstDetails : Option Data) (allowLegacyAnchor : Bool) : Except PyException AuditVerificationResult :=
  if headResult.status ≠ .valid then .ok headResult
  else
    let anchor := match firstDetails with
      | some (.dict d) => getData d "migration"
      | _ => .null
    match anchor with
    | .null => .ok { headResult with anchorStatus := "none" }
    | .dict d =>
      let isLegacy := hasKeys d legacyAnchorFields
      if !isLegacy && !hasKeys d (legacyAnchorFields ++ anchorProofFields) then
        .ok (malformedAnchor headResult.headStatus)
      else
        let fields := if isLegacy then legacyAnchorFields else legacyAnchorFields ++ anchorProofFields
        match (fields.filter (· != "previous_audit_sequence")).all (fun field => isNonEmptyText (getData d field)),
            positiveInt? (getData d "previous_audit_sequence") with
        | true, some sequence =>
          if isLegacy then
            if allowLegacyAnchor then .ok ⟨.valid, legacyAnchorAllowedReason, headResult.headStatus, "legacy-anchor",
              []⟩
            else .ok ⟨.unverifiable, legacyAnchorRefusedReason, headResult.headStatus, "legacy-anchor", []⟩
          else
            match verifier with
            | none =>
              .ok ⟨.unverifiable, "trust registry is not configured", headResult.headStatus, "unverifiable", []⟩
            | some verifier =>
              match evaluate env verifier (getData d "previous_audit_signature_key_id")
                  ⟨getData d "previous_audit_task_id", getData d "previous_audit_host_id",
                    getData d "previous_audit_hash",
                    sequence, .null⟩ (getData d "previous_audit_signature") "migration" with
              | .error (.security message) =>
                .ok ⟨.unverifiable, message, headResult.headStatus, "registry-unavailable", []⟩
              | .error (.python e) => .error e
              | .ok evaluation =>
                if evaluation.ok then .ok { headResult with anchorStatus := "verified" }
                else .ok ⟨.invalid, s!"migration anchor proof failed ({evaluation.headStatus}): {evaluation.detail}",
                  headResult.headStatus, "invalid", []⟩
        | _, _ => .ok (malformedAnchor headResult.headStatus)
    | _ => .ok (malformedAnchor headResult.headStatus)

/-! ## The chain -/

def auditHashVersion : Int := 2

/-- `audit_event_record`. -/
def auditEventRecord (sequence event details previous hostId : Data) : Data :=
  .dict [(key "sequence", sequence), (key "event", event), (key "details", details), (key "previous", previous),
    (key "host_id", hostId), (key "hash_version", .int auditHashVersion)]

def Row.record (row : Row) (details : Data) : Data :=
  auditEventRecord row.sequence.data row.event.data details row.previousHash.data row.hostId.data

/-- The decoded details, none where a `JSONDecodeError` is caught. -/
def Details.read (env : Env) : Details → Except PyException (Option Data)
  | .decoded d => .ok (some d)
  | .stored json =>
    match decode env.depth json with
    | .ok d => .ok (some d)
    | .error .jsonDecodeError => .ok none
    | .error .valueError => .error .valueError
    | .error .recursionError => .error .recursionError

/-- `_audit_event_hash_matches`, for the one supported version. -/
def auditEventHashMatches (env : Env) (row : Row) (details : Data) : Except PyException Bool :=
  match canonicalJson env.depth (row.record details) with
  | .error e => .error (ofEncodeError e)
  | .ok text => .ok (row.hash == .text (env.sha256 text))

def Row.linked (row : Row) (expectedSequence : Nat) (previous : Cell) : Bool :=
  row.sequence.eq (.int expectedSequence) && row.previousHash.eq previous

def checkRow (env : Env) (expectedSequence : Nat) (previous : Cell) (row : Row) :
    Except PyException (Except String Data) :=
  if !row.linked expectedSequence previous then .ok (.error "audit chain sequence or previous hash is inconsistent")
  else
    match row.details.read env with
    | .error e => .error e
    | .ok none => .ok (.error "audit event details are malformed")
    | .ok (some details) =>
      match auditEventHashMatches env row details with
      | .error e => .error e
      | .ok false => .ok (.error "audit event hash is invalid")
      | .ok true => .ok (.ok details)

def checkRows (env : Env) : Nat → Cell → List Row → Except PyException (Except String (List Data))
  | _, _, [] => .ok (.ok [])
  | expectedSequence, previous, row :: rows =>
    match checkRow env expectedSequence previous row with
    | .error e => .error e
    | .ok (.error reason) => .ok (.error reason)
    | .ok (.ok details) =>
      match checkRows env (expectedSequence + 1) row.hash rows with
      | .ok (.ok rest) => .ok (.ok (details :: rest))
      | outcome => outcome

def lastHash (previous : Cell) (rows : List Row) : Cell := (rows.getLast?.map Row.hash).getD previous

def checkHead (env : Env) (verifier : Option AuditHeadVerifier) (taskId : Text) (count : Nat) (previous : Cell)
    (head : Head)
    (firstDetails : Option Data) (allowLegacyAnchor : Bool) : Except PyException AuditVerificationResult :=
  match head.sequence.toInt env with
  | .error .typeError => .ok ⟨.invalid, "signed audit head sequence is malformed", "", "", []⟩
  | .error .valueError => .ok ⟨.invalid, "signed audit head sequence is malformed", "", "", []⟩
  | .error e => .error e
  | .ok sequence =>
    if !head.headHash.eq previous || sequence != count then
      .ok ⟨.invalid, "stored audit head does not match audit events", "", "", []⟩
    else
      match verifyHeadSignature env verifier taskId head sequence with
      | .error e => .error e
      | .ok headResult => checkMigrationAnchor env verifier headResult firstDetails allowLegacyAnchor

/-- `_verify_audit_chain_rows`. -/
def verifyAuditChainRows (env : Env) (verifier : Option AuditHeadVerifier) (taskId : Text) (rows : List Row)
    (head : Option Head) (allowLegacyAnchor : Bool) : Except PyException AuditVerificationResult :=
  match rows, head with
  | first :: rest, some head =>
    match checkRows env 0 first.previousHash (first :: rest) with
    | .error e => .error e
    | .ok (.error reason) => .ok ⟨.invalid, reason, "", "", []⟩
    | .ok (.ok details) =>
      checkHead env verifier taskId (first :: rest).length (lastHash first.previousHash
        (first :: rest)) head details.head?
        allowLegacyAnchor
  | _, _ => .ok ⟨.invalid, "audit chain is missing", "", "", []⟩

def finishEvents : List String := ["agent.completed", "agent.failed", "agent.cancelled"]

def Row.isEvent (row : Row) (name : String) : Bool := row.event == .text name.toList

def Row.finishes (row : Row) : Bool := finishEvents.any row.isEvent

/-- `_replayed_after_finish`. -/
def replayedAfterFinish (env : Env) : Bool → List Row → Except PyException (List Int)
  | _, [] => .ok []
  | finished, row :: rows =>
    if row.isEvent "agent.accepted" && finished then do
      let sequence ← row.sequence.toInt env
      let rest ← replayedAfterFinish env finished rows
      return sequence :: rest
    else replayedAfterFinish env (finished || row.finishes) rows

/-- `_verify_audit_rows`. -/
def verifyAuditRows (env : Env) (verifier : Option AuditHeadVerifier) (taskId : Text) (rows : List Row)
    (head : Option Head) (allowLegacyAnchor : Bool) : Except PyException AuditVerificationResult := do
  let result ← verifyAuditChainRows env verifier taskId rows head allowLegacyAnchor
  let replayed ← replayedAfterFinish env false rows
  return { result with replayedAfterFinish := replayed }

end Portmark.Audit
