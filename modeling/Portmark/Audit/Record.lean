/-
What the export writes of an event and of a head: `Projector`, `event_record`, `head_record`,
`control_record` and `encode_record` of audit_export.py. A record keeps the fields of the details that a
policy allows; every other field becomes a digest under a keyring. HMAC-SHA-256 is a parameter.
-/
import Portmark.Audit.Verify

namespace Portmark.Audit

open Lib Lib.Json

/-! ## Dictionaries with string keys -/

abbrev Fields := List (Codes × Data)

def field (name : String) (x : Data) : Codes × Data := (codes name.toList, x)

def textData (s : String) : Data := .ofText s.toList

/-- `d.get(name)`, none where it is missing. -/
def fieldOf (d : Fields) (name : String) : Option Data := (d.find? fun e => e.1 == codes name.toList).map Prod.snd

def fieldsData (d : Fields) : Data := .dict (d.map fun e => (.str e.1, e.2))

def dictFields (d : List (Key × Data)) : Fields :=
  d.filterMap fun e =>
    match e.1 with
    | .str s => some (s, e.2)
    | _ => none

/-- `sorted(d)`, with the values. -/
def sortFields (d : Fields) : Fields := d.insertionSort fun a b => ¬ b.1 < a.1

/-! ## Exceptions -/

inductive ExportError where
  | python (e : PyException)
  | keyError
  | config (message : String)
deriving DecidableEq

def encoded (depth : Nat) (d : Data) : Except ExportError Text :=
  match canonicalJson depth d with
  | .ok text => .ok text
  | .error e => .error (.python (ofEncodeError e))

/-! ## The projection -/

structure FieldRule where
  included : List Codes
  redacted : List Codes
  hashOnly : Bool

structure ProjectionPolicy where
  events : List (Codes × FieldRule)
  tools : List (Codes × FieldRule)
  digest : Codes

structure Keyring where
  active : Codes
  keys : List (Codes × List Nat)
  active_mem : active ∈ keys.map Prod.fst

/-- `key_id or self.active`. -/
def Keyring.keyId (keyring : Keyring) : Option Codes → Codes
  | none => keyring.active
  | some [] => keyring.active
  | some id => id

structure Projector where
  policy : ProjectionPolicy
  keyring : Option Keyring
  hmacSha256 : List Nat → Text → Text

def ruleOf (rules : List (Codes × FieldRule)) : Data → Option FieldRule
  | .str s => (rules.find? fun r => r.1 == s).map Prod.snd
  | _ => none

def noRule : FieldRule := ⟨[], [], false⟩

def toolEvents : List String := ["tool.executed", "tool.failed", "tool.killed", "tool.refused", "tool.replayed"]

def isToolEvent (event : Data) : Bool := toolEvents.any fun name => isText event (codes name.toList)

def redactedText : Data := textData "[REDACTED]"

namespace Projector

/-- `_digest`. -/
def digest (p : Projector) (depth : Nat) (value : Data) (keyId : Option Codes) : Except ExportError Data :=
  match p.keyring with
  | none => .error (.config "a projection keyring is required: this record has fields that must be digested")
  | some keyring =>
    match keyring.keys.find? fun k => k.1 == keyring.keyId keyId with
    | none => .error .keyError
    | some k => do
      let text ← encoded depth value
      return .ofText ("hmac-sha256:".toList ++ p.hmacSha256 k.2 text)

def shownArguments (rule : FieldRule) (arguments : Fields) : Fields :=
  arguments.filterMap fun e =>
    if rule.included.contains e.1 then some e
    else if rule.redacted.contains e.1 then some (e.1, redactedText)
    else none

/-- `_project_arguments`. -/
def projectArguments (p : Projector) (depth : Nat) (tool : Data) (arguments : Data) (keyId : Option Codes) :
    Except ExportError Fields := do
  let hmac ← p.digest depth arguments keyId
  match arguments with
  | .dict d =>
    let arguments := sortFields (dictFields d)
    match ruleOf p.policy.tools tool with
    | none => return [field "arguments_hmac" hmac, field "argument_count" (.int d.length)]
    | some rule =>
      if rule.hashOnly then return [field "arguments_hmac" hmac, field "argument_count" (.int d.length)]
      else
        return [field "arguments_hmac" hmac, field "argument_keys" (.list (arguments.map fun e => .str e.1)),
          field "arguments" (fieldsData (shownArguments rule arguments))]
  | _ => return [field "arguments_hmac" hmac]

/-- `d.update(e)`. -/
def update (d e : Fields) : Fields := e.foldl (fun d x => setEntry x.1 x.2 d) d

def projectField (p : Projector) (depth : Nat) (event tool : Data) (keyId : Option Codes) (out : Fields × Fields)
    (e : Codes × Data) : Except ExportError (Fields × Fields) :=
  let rule := (ruleOf p.policy.events event).getD noRule
  if e.1 == codes "arguments".toList && isToolEvent event then do
    let arguments ← p.projectArguments depth tool e.2 keyId
    return (update out.1 arguments, out.2)
  else if rule.included.contains e.1 then return (setEntry e.1 e.2 out.1, out.2)
  else if rule.redacted.contains e.1 then do
    let digest ← p.digest depth e.2 keyId
    return (setEntry e.1 redactedText out.1, setEntry e.1 digest out.2)
  else do
    let digest ← p.digest depth e.2 keyId
    return (out.1, setEntry e.1 digest out.2)

/-- `project`: the projected fields, and the digests of the others. -/
def project (p : Projector) (depth : Nat) (event details : Data) (keyId : Option Codes) :
    Except ExportError (Fields × Fields) :=
  match details with
  | .dict d =>
    (sortFields (dictFields d)).foldlM
      (p.projectField depth event ((fieldOf (dictFields d) "tool").getD .null) keyId) ([], [])
  | details => do
    let digest ← p.digest depth details keyId
    return ([], [field "details" digest])

end Projector

/-! ## Records -/

/-- A row as the exporter reads it: `_export_event_row`. -/
structure ExportEvent where
  sequence : Int
  event : Cell
  detailsJson : Cell
  previous : Cell
  hash : Cell
  hostId : Cell
  createdAt : Cell
deriving DecidableEq

/-- One byte of `repr(b"...")`. -/
def byteRepr (quote : Char) (n : Nat) : Text :=
  if n = 92 then ['\\', '\\']
  else if n = 9 then ['\\', 't']
  else if n = 10 then ['\\', 'n']
  else if n = 13 then ['\\', 'r']
  else if n = quote.toNat then ['\\', quote]
  else if n < 32 ∨ 127 ≤ n then ['\\', 'x', hexDigit (n / 16), hexDigit (n % 16)]
  else [Char.ofNat n]

/-- `str(column)`. -/
def Cell.display : Cell → Text
  | .null => "None".toList
  | .int n => intText n
  | .real x =>
    match x.value with
    | .finite q => floatRepr q
    | .inf => "inf".toList
    | .negInf => "-inf".toList
    | .nan => "nan".toList
  | .text t => t
  | .blob b =>
    let quote := if b.contains 39 && !b.contains 34 then '"' else Char.ofNat 39
    'b' :: quote :: (b.flatMap (byteRepr quote) ++ [quote])

def exportSchema : Data := textData "portmark.audit.export.v1"

def controlSchema : Data := textData "portmark.audit.export.control.v1"

def eventKey (taskId : Text) (row : ExportEvent) : Text :=
  taskId ++ ':' :: (intText row.sequence ++ ':' :: row.hash.display)

/-- `event_record`. -/
def eventRecord (p : Projector) (depth : Nat) (taskId : Text) (row : ExportEvent) (details : Data)
    (keyId : Option Codes) : Except ExportError Fields := do
  let (projected, omitted) ← p.project depth row.event.data details keyId
  let record :=
    [field "schema" exportSchema, field "kind" (textData "event"), field "key" (.ofText (eventKey taskId row)),
    field "task_id" (.ofText taskId), field "host_id" row.hostId.data, field "sequence" (.int row.sequence),
    field "event" row.event.data, field "previous" row.previous.data, field "hash" row.hash.data,
    field "created_at" row.createdAt.data, field "details" (fieldsData projected), field "omitted" (fieldsData omitted),
    field "policy_digest" (.str p.policy.digest)]
  match p.keyring with
  | none => return record
  | some keyring => return record ++ [field "hmac_key_id" (.str (keyring.keyId keyId))]

def headKey (taskId : Text) (head : Head) : Text :=
  taskId ++ ":head:".toList ++ head.sequence.display ++ ':' :: head.headHash.display

/-- `head_record`; `sequence` is the integer of the column. -/
def headRecord (taskId : Text) (head : Head) (sequence : Int) (signatureStatus : String) : Fields :=
  [field "schema" exportSchema, field "kind" (textData "head"), field "key" (.ofText (headKey taskId head)),
    field "task_id" (.ofText taskId), field "host_id" head.hostId.data, field "sequence" (.int sequence),
    field "head_hash" head.headHash.data, field "signature_key_id" head.signatureKeyId.data,
    field "signature" head.signature.data, field "signed_at" head.signedAt.data,
    field "signature_status" (textData signatureStatus)]

def controlRecord (taskId : Text) (sequence : Int) (reason : String) : Fields :=
  [field "schema" controlSchema, field "kind" (textData "integrity_failure"), field "task_id" (.ofText taskId),
    field "sequence" (.int sequence), field "reason" (textData reason)]

/-- `encode_record`, as the text whose UTF-8 is the line. -/
def encodeRecord (depth : Nat) (record : Fields) : Except ExportError Text := encoded depth (fieldsData record)

end Portmark.Audit
