/-
The host's side of the remote witness: `WitnessClient` of remote_witness.py, which signs requests
and accepts only answers bound to the request just sent, and `HostWitness` of witness_binding.py,
which advances the chain inside a save and compares the database with the witness at start.
-/
import Portmark.Witness.Server

namespace Portmark.Witness

open Lib Lib.Json Security

def witnessUnavailable : String := "witness-unavailable"
def witnessBehind : String := "witness-behind"
def tooLarge : String := "too-large"

/-! ## `WitnessClient` -/

structure Client where
  signer : String
  sign : Text → String
  witnessKeyId : String
  verifyAnswer : String → Text → Bool

/-- `WitnessUnavailable`: no usable answer. -/
def unavailable {α : Type} (message : String) : Except Refusal α := .error ⟨witnessUnavailable, message⟩

/-- `d.get(key)`. -/
def field (d : Dict) (key : String) : Value := (Assoc.get? d key).getD .null

section Client

variable (w : World) (c : Client)

/-- `sign_request`. -/
def Client.signRequest (body : Dict) : Dict :=
  [("body", .dict body), ("signer", .str c.signer),
    ("signature", .str (c.sign (requestDomain ++ dumps w.floatText (.dict body))))]

/-- The body of `WitnessClient.advance`. -/
def Client.advanceBody (b : AdvanceBody) : Dict :=
  [("format", .str advanceFormat), ("witness_key_id", .str c.witnessKeyId), ("host_id", .str b.hostId),
    ("host_seq", .int b.hostSeq), ("prev", optStr b.prev), ("heads", headsValue b.heads),
    ("registry", registryValue b.registry), ("time_floor", .int b.timeFloor)]

/-- The body of `WitnessClient.state`. -/
def Client.stateBody (b : StateBody) : Dict :=
  [("format", .str stateFormat), ("witness_key_id", .str c.witnessKeyId), ("host_id", .str b.hostId),
    ("nonce", .str b.nonce), ("task_id", optStr b.taskId)]

/-- The body of `rebaseline_envelope`. -/
def Client.rebaselineBody (b : RebaselineBody) : Dict :=
  [("format", .str rebaselineFormat), ("witness_key_id", .str c.witnessKeyId), ("host_id", .str b.hostId),
    ("expected_last", optStr b.expectedLast), ("nonce", .str b.nonce), ("reason", .str b.reason),
    ("heads", headsValue b.heads), ("registry", registryValue b.registry), ("time_floor", .int b.timeFloor)]

/-- The bytes `send_envelope` sends, or its refusal to send that many. -/
def Client.payload (body : Dict) : Except Refusal Text :=
  let payload := dumps w.floatText (.dict (c.signRequest w body))
  if maxRequestBytes < utf8Size payload then
    .error ⟨tooLarge, s!"the witness request is {utf8Size payload} bytes; a request is at most {maxRequestBytes} bytes"⟩
  else .ok payload

/-- `open_answer`: the body of an answer that the pinned key signed. -/
def Client.openAnswer (document : Value) : Except Refusal Dict :=
  match document with
  | .dict d =>
    if !hasExactly d ["format", "body", "key_id", "signature"] then
      unavailable "the witness answer has an unexpected shape"
    else
      match Assoc.get? d "format", Assoc.get? d "body", Assoc.get? d "signature" with
      | some (.str format), some (.dict body), some (.str signature) =>
        if format ≠ answerFormat then unavailable "the witness answer has an unexpected shape"
        else if !Value.pyEqual (field d "key_id") (.str c.witnessKeyId) then
          unavailable "the witness answer is signed by a key other than the pinned witness key"
        else
          match canonicalJson w.floatText (.dict body) with
          | .ok text =>
            if c.verifyAnswer signature (answerDomain ++ text) then .ok body
            else unavailable "the witness answer signature does not verify"
          | .error _ => unavailable "the witness answer signature does not verify"
      | _, _, _ => unavailable "the witness answer has an unexpected shape"
  | _ => unavailable "the witness answer has an unexpected shape"

/-- What `send_envelope` asks of an answer's body, given the body it sent. -/
def Client.checkBound (sent : Dict) (status : Nat) (answer : Dict) : Except Refusal Dict :=
  let same (key : String) := Value.pyEqual (field answer key) (field sent key)
  let kind (name : String) := Value.pyEqual (field answer "kind") (.str name)
  let format (name : String) := Value.pyEqual (field sent "format") (.str name)
  if !Value.pyEqual (field answer "request_sha256") (.str (digest w (.dict sent))) ||
      !Value.pyEqual (field answer "witness_key_id") (.str c.witnessKeyId) then
    unavailable "the witness answer is not bound to this request"
  else if kind "refusal" then
    if status = 200 then unavailable "the witness answered a refusal with HTTP 200" else .ok answer
  else if status ≠ 200 then unavailable s!"the witness answered HTTP {status} without a refusal"
  else if !same "host_id" then unavailable "the witness answer is for another host"
  else if format stateFormat && (!kind "state" || !same "nonce") then
    unavailable "the witness state answer does not echo this request's nonce"
  else if format advanceFormat && (!kind "receipt" || !same "host_seq" || !same "prev") then
    unavailable "the witness receipt does not match the advance"
  else if format rebaselineFormat && !kind "rebaseline" then
    unavailable "the witness answered a rebaseline with something else"
  else .ok answer

/-- The rest of `send_envelope`: from the status and the text that came back to the answer's body. -/
def Client.receive (sent : Dict) (status : Nat) (text : Text) : Except Refusal Dict :=
  if maxRequestBytes < utf8Size text then unavailable "the witness answer is too large"
  else
    match loads text with
    | .error _ => unavailable s!"the witness answer is not JSON (HTTP {status})"
    | .ok document => do
      let answer ← c.openAnswer w document
      c.checkBound w sent status answer

end Client

def Reply.wire (w : World) : Reply → Option (Nat × Text)
  | .answer status document => some (status, dumps w.floatText (.dict document))
  | .refused status _ document => some (status, dumps w.floatText (.dict document))
  | .raised _ => none

/-! ## `HostWitness` -/

def receiptAt (state : Dict) (key : String) : Option (Int × String) :=
  match Assoc.get? state key with
  | some (.dict d) =>
    match Assoc.get? d "host_seq", Assoc.get? d "receipt_hash" with
    | some (.int n), some (.str hash) => some (n, hash)
    | _, _ => none
  | _ => none

/-- The verdict of `classify_boot` on a receipt that is neither the confirmed nor the pending one. -/
def classifyReceipt (seq : Int) (confirmed : Option (Int × String)) (newest : Int) : Refusal :=
  let forkedHere : Refusal :=
    ⟨forked, s!"this database's last witness receipt ({seq}) is not the witness's receipt at that " ++
    "position: another copy of this host advanced the chain (a clone or a fork)"⟩
  let behind : Refusal :=
    ⟨witnessBehind, s!"this database's last witness receipt ({seq}) is NEWER than the witness's " ++
    s!"({newest}): the witness was restored, or it is the wrong witness"⟩
  match confirmed with
  | some (confirmedSeq, _) =>
    if seq < confirmedSeq then
      ⟨rolledBack, s!"this database's last witness receipt ({seq}) is OLDER than the witness's ({confirmedSeq}): " ++
        "the database was restored, or it is a stale copy of this host"⟩
    else if newest < seq then behind else forkedHere
  | none => if newest < seq then behind else forkedHere

/-- `classify_boot`: the database's last receipt against the published state. -/
def classifyBoot (database : Option (Int × String)) (state : Dict) : Option Refusal :=
  let confirmed := receiptAt state "confirmed"
  let pending := receiptAt state "pending"
  match pending.or confirmed, database with
  | none, none => none
  | none, some _ =>
    some ⟨witnessBehind, "this database holds a remote-witness receipt, but the witness has no chain for this host: " ++
      "the witness was wiped or restored, or it is the wrong witness"⟩
  | some _, none =>
    if confirmed = none then none
    else
      some ⟨rolledBack, "the witness holds a chain for this host, but this database has no receipt: the database is " ++
        "OLDER than the witness (restored from before the remote witness was used)"⟩
  | some newest, some (seq, hash) =>
    if confirmed.map Prod.snd = some hash ∨ pending.map Prod.snd = some hash then none
    else some (classifyReceipt seq confirmed newest.1)

def nextAdvance (hostId : String) (receipt : Option (Int × String)) (heads : Assoc Head) (registry : Option Registry)
    (timeFloor : Int) : AdvanceBody :=
  { hostId, hostSeq := (receipt.map Prod.fst).getD 0 + 1, prev := receipt.map Prod.snd, heads, registry, timeFloor }

/-- `int(v)` of a number. -/
def intOf : Value → Option Int
  | .int n => some n
  | .bool b => some b.toNat
  | .float (.finite q) => some (if 0 ≤ q then q.floor else q.ceil)
  | _ => none

/-- The end of `_advance`: the receipt the save stores, from the answer to the advance it sent. -/
def Client.storedReceipt (w : World) (c : Client) (b : AdvanceBody) (status : Nat) (text : Text) :
    Except Refusal (Int × String) := do
  let answer ← c.receive w (c.advanceBody b) status text
  if Value.pyEqual (field answer "kind") (.str "refusal") then
    let code := (Value.str? (field answer "code")).getD "None"
    let message := (Value.str? (field answer "message")).getD "None"
    .error ⟨code, s!"the remote witness refused the save ({code}): {message}"⟩
  else
    match intOf (field answer "host_seq") with
    | some seq => .ok (seq, digest w (.dict answer))
    | none => unavailable "the witness receipt does not match the advance"

/-! ## A small world -/

def checksum (text : Text) : String :=
  let n := text.foldl (fun n c => (n * 257 + c.toNat + 1) % (2 ^ 256 - 189)) 1
  String.ofList ((List.range 64).map fun i => hexDigits.getD (n / 16 ^ i % 16) '0')

def smallService : Service where
  world :=
    { env := { repr := id, lower := id, urlparse := fun _ => .error (.value ""), fullmatch := fun _ _ => .unmatched },
      floatText := fun _ => [], sha256 := checksum, sign := fun _ => "s", verify := fun _ _ _ => true, keyId := "w" }
  enrolment := { hosts := [("a", "k")], operators := [("op", "k")], auditors := [] }

def smallClient (signer : String) : Client :=
  { signer, sign := fun _ => "s", witnessKeyId := "w", verifyAnswer := fun _ _ => true }

def smallRequest (path : String) (c : Client) (body : Dict) : Request :=
  { path, raw := (c.payload smallService.world body).toOption, globalToken := true, signerToken := true, now := 7 }

def smallAdvance (receipt : Option (Int × String)) (timeFloor : Int) : Request :=
  smallRequest "/v1/advance" (smallClient "a") ((smallClient "a").advanceBody
    (nextAdvance "a" receipt [] none timeFloor))

def smallReceipt : Int × String := (1, "9383a2b84753ee04e8dd60d7d64b48b0c69d08265a4dd0106ef82577ddeb692d")

def smallReceipt' : Int × String := (2, "77390582336b7d604fd2b2a0073c5b2e8ba70602785e2502c81bc53a77dc8ed8")

def smallRun : List Request := [smallAdvance none 0, smallAdvance (some smallReceipt) 0, smallAdvance none 1]

def smallState : Request :=
  smallRequest "/v1/state" (smallClient "a") ((smallClient "a").stateBody ⟨"a", "0123456789abcdef", none⟩)

def smallRebaseline (expectedLast : Option String) : Request :=
  smallRequest "/v1/rebaseline" (smallClient "op") ((smallClient "op").rebaselineBody
    { hostId := "a", expectedLast, nonce := "0123456789abcdef", reason := "restored", heads := [], registry := none,
      timeFloor := 0 })

end Portmark.Witness
