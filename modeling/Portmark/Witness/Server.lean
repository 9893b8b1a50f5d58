/-
The witness service of witness_server.py: the SQLite file (the append-only log, the state of each
host as JSON text, the confirmed task heads), one request at a time inside a transaction, and
`fold_log`. A request is the bytes that came in with what the clock and the two token buckets said
while it was handled; an exception rolls its transaction back.
-/
import Portmark.Witness.Rules

namespace Portmark.Witness

open Lib Lib.Json Security

/-! ## The state as JSON -/

def Pending.toValue (p : Pending) : Value :=
  .dict [("host_seq", .int p.hostSeq), ("receipt_hash", .str p.receiptHash), ("request_sha256", .str p.requestSha256),
    ("heads", headsValue p.heads), ("registry", registryValue p.registry), ("time_floor", .int p.timeFloor),
    ("answer", .dict p.answer)]

def pendingValue : Option Pending → Value
  | none => .null
  | some p => p.toValue

/-- `asdict(state)`. -/
def HostState.toValue (s : HostState) : Value :=
  .dict [("host_id", .str s.hostId), ("epoch", .int s.epoch), ("confirmed_seq", .int s.confirmedSeq),
    ("confirmed_hash", optStr s.confirmedHash), ("pending", pendingValue s.pending),
    ("registry", registryValue s.registry), ("time_floor", .int s.timeFloor)]

/-- `_state_to_json`. -/
def stateToJson (w : World) (s : HostState) : Text := dumps w.floatText s.toValue

def optStr? : Value → Option (Option String)
  | .null => some none
  | .str s => some (some s)
  | _ => none

def Head.ofValue? : Value → Option Head
  | .dict d =>
    match Assoc.get? d "sequence", Assoc.get? d "head_hash" with
    | some (.int n), some (.str s) => some ⟨n, s⟩
    | _, _ => none
  | _ => none

def registryOf? : Value → Option (Option Registry)
  | .null => some none
  | .dict d =>
    match Assoc.get? d "version", Assoc.get? d "digest" with
    | some (.int n), some (.str s) => some (some ⟨n, s⟩)
    | _, _ => none
  | _ => none

def headsOf? : Value → Option (Assoc Head)
  | .dict d => d.mapM fun e => (Head.ofValue? e.2).map (e.1, ·)
  | _ => none

def intOf? : Value → Option Int
  | .int n => some n
  | _ => none

/-- `Pending(**pending)`. -/
def pendingOf? : Value → Option (Option Pending)
  | .null => some none
  | .dict d => do
    let hostSeq ← (Assoc.get? d "host_seq").bind intOf?
    let receiptHash ← (Assoc.get? d "receipt_hash").bind Value.str?
    let requestSha256 ← (Assoc.get? d "request_sha256").bind Value.str?
    let heads ← (Assoc.get? d "heads").bind headsOf?
    let registry ← (Assoc.get? d "registry").bind registryOf?
    let timeFloor ← (Assoc.get? d "time_floor").bind intOf?
    let answer ← (Assoc.get? d "answer").bind Value.dict?
    return some { hostSeq, receiptHash, requestSha256, heads, registry, timeFloor, answer }
  | _ => none

/-- `HostState(**raw, pending=...)`. -/
def stateOf? : Value → Option HostState
  | .dict d => do
    let hostId ← (Assoc.get? d "host_id").bind Value.str?
    let epoch ← (Assoc.get? d "epoch").bind intOf?
    let confirmedSeq ← (Assoc.get? d "confirmed_seq").bind intOf?
    let confirmedHash ← (Assoc.get? d "confirmed_hash").bind optStr?
    let pending ← (Assoc.get? d "pending").bind pendingOf?
    let registry ← (Assoc.get? d "registry").bind registryOf?
    let timeFloor ← (Assoc.get? d "time_floor").bind intOf?
    return { hostId, epoch, confirmedSeq, confirmedHash, pending, registry, timeFloor }
  | _ => none

/-- `_state_from_json`. -/
def stateFromJson (text : Text) : Except PyError HostState :=
  match loads text with
  | .error e => .error (.value e)
  | .ok raw =>
    match stateOf? raw with
    | some s => .ok s
    | none => .error (.type "HostState() got unexpected fields")

/-! ## The log -/

inductive Kind where
  | advance
  | discard
  | rebaseline
deriving DecidableEq

/-- One row of `witness_log`. -/
structure LogRow where
  hostId : String
  kind : Kind
  epoch : Int
  hostSeq : Int
  receiptHash : String
  requestJson : Text
  answerJson : Text
  createdAt : Int

structure Db where
  log : List LogRow
  hosts : String → Option Text
  heads : String → String → Option Head

def Db.empty : Db := ⟨[], fun _ => none, fun _ _ => none⟩

def bindInt (n : Int) : Except PyError Unit :=
  if fitsInt64 n then .ok () else .error (.overflow "Python int too large to convert to SQLite INTEGER")

namespace Db

/-- `host_state`. -/
def hostState (db : Db) (hostId : String) : Except PyError HostState :=
  match db.hosts hostId with
  | none => .ok (.fresh hostId)
  | some text => stateFromJson text

/-- `save_state`. -/
def saveState (w : World) (db : Db) (s : HostState) : Db :=
  { db with hosts := Function.update db.hosts s.hostId (some (stateToJson w s)) }

/-- Insert or replace one row of `witness_task_heads`. -/
def setHead (db : Db) (hostId : String) (entry : String × Head) : Except PyError Db := do
  bindInt entry.2.sequence
  return { db with heads := Function.update db.heads hostId (Function.update (db.heads hostId) entry.1 (some entry.2)) }

/-- `confirm_heads`. -/
def confirmHeads (db : Db) (hostId : String) (heads : Assoc Head) : Except PyError Db :=
  heads.foldlM (fun db entry => db.setHead hostId entry) db

/-- `replace_heads`. -/
def replaceHeads (db : Db) (hostId : String) (heads : Assoc Head) : Except PyError Db :=
  confirmHeads { db with heads := Function.update db.heads hostId fun _ => none } hostId heads

/-- The rows `known` and `rebaseline_row` select. -/
def receiptRows (db : Db) (hostId receiptHash : String) : List LogRow :=
  db.log.filter fun row => row.hostId == hostId && row.receiptHash == receiptHash

/-- `known`. -/
def known (db : Db) (hostId receiptHash : String) : Option KnownEntry :=
  let rows := db.receiptRows hostId receiptHash
  match rows.filter (·.kind ≠ .discard) with
  | [] => none
  | row :: _ => some ⟨row.hostSeq, row.epoch, rows.any (·.kind = .discard)⟩

/-- `append`. -/
def append (db : Db) (row : LogRow) : Except PyError Db := do
  bindInt row.epoch
  bindInt row.hostSeq
  bindInt row.createdAt
  return { db with log := db.log ++ [row] }

/-- `rebaseline_row`. -/
def rebaselineRow (db : Db) (hostId receiptHash : String) : Option (Text × Text) :=
  match (db.receiptRows hostId receiptHash).filter (·.kind = .rebaseline) with
  | [] => none
  | row :: _ => some (row.requestJson, row.answerJson)

/-- `log_rows`. -/
def logRows (db : Db) (hostId : String) : List LogRow := db.log.filter (·.hostId == hostId)

end Db

/-! ## The service -/

structure Enrolment where
  hosts : Assoc String
  operators : Assoc String
  auditors : Assoc String

/-- `public_key_for`. -/
def Enrolment.publicKeyFor (e : Enrolment) (format signer : String) : Option String :=
  if format = advanceFormat then Assoc.get? e.hosts signer
  else if format = stateFormat then (Assoc.get? e.hosts signer).or (Assoc.get? e.auditors signer)
  else if format = rebaselineFormat then Assoc.get? e.operators signer
  else none

structure Service where
  world : World
  enrolment : Enrolment

/-- A request: where it went, its bytes (`none` when they are not UTF-8), whether each token bucket
had a token for it, and the time on the clock. -/
structure Request where
  path : String
  raw : Option Text
  globalToken : Bool
  signerToken : Bool
  now : Int

inductive Reply where
  | answer (status : Nat) (document : Dict)
  | refused (status : Nat) (refusal : Refusal) (document : Dict)
  | raised (error : PyError)

/-- `_PATH_FORMATS`. -/
def pathFormat (path : String) : Option String :=
  if path = "/v1/advance" then some advanceFormat
  else if path = "/v1/state" then some stateFormat
  else if path = "/v1/rebaseline" then some rebaselineFormat
  else none

/-- `_STATUS`. -/
def statusOf (code : String) : Nat :=
  if code = malformedCode then 400
  else if code = unauthenticated then 401
  else if code = notFound then 404
  else if code = rateLimited then 429
  else if code = wrongWitness then 400
  else 409

section Service

variable (svc : Service)

/-- `refusal`. -/
def Service.refusal (refusal : Refusal) (requestSha256 hostId : Option String) (at_ : Int) : Reply :=
  .refused (statusOf refusal.code) refusal
    (signAnswer svc.world (refusalBody refusal requestSha256 hostId svc.world.keyId at_))

/-- `_body_digest`: the digest and the host id of a body that parses. -/
def Service.bodyDigest (raw : Option Text) : Option String × Option String :=
  match strictJsonLoads svc.world.env raw maxRequestBytes with
  | .ok (.dict envelope) =>
    match Assoc.get? envelope "body" with
    | some (.dict body) =>
      match canonicalJson svc.world.floatText (.dict body) with
      | .ok text => (some (svc.world.sha256 text), (Assoc.get? body "host_id").bind Value.str?)
      | .error _ => (none, none)
    | _ => (none, none)
  | _ => (none, none)

/-- `str(body.get("format"))`; only a string is the name of a format. -/
def formatOf (body : Dict) : String := ((Assoc.get? body "format").bind Value.str?).getD "None"

/-- `open_request`: the signer and the body of an authenticated envelope. -/
def Service.openRequest (raw : Option Text) : Except Refusal (String × Dict) :=
  match strictJsonLoads svc.world.env raw maxRequestBytes with
  | .error e => .error ⟨malformedCode, s!"the request is not valid JSON: {e}"⟩
  | .ok (.dict envelope) =>
    if !hasExactly envelope ["body", "signer", "signature"] then
      .error ⟨malformedCode, "the request envelope has an unexpected shape"⟩
    else
      match Assoc.get? envelope "body", Assoc.get? envelope "signer", Assoc.get? envelope "signature" with
      | some (.dict body), some (.str signer), some (.str signature) =>
        if !isId signer then .error ⟨malformedCode, "the request envelope has an unexpected shape"⟩
        else
          match svc.enrolment.publicKeyFor (formatOf body) signer with
          | none => .error ⟨unauthenticated, s!"{svc.world.env.repr signer} is not enrolled for this request"⟩
          | some key =>
            match canonicalJson svc.world.floatText (.dict body) with
            | .ok text =>
              if svc.world.verify key signature (requestDomain ++ text) then .ok (signer, body)
              else .error ⟨unauthenticated, "the request signature does not verify"⟩
            | .error _ => .error ⟨unauthenticated, "the request signature does not verify"⟩
      | _, _, _ => .error ⟨malformedCode, "the request envelope has an unexpected shape"⟩
  | .ok _ => .error ⟨malformedCode, "the request envelope has an unexpected shape"⟩

/-- The part of `_authorize` that looks at the signer. -/
def Service.authorizeSigner (signer : String) : Body → Except Refusal Unit
  | .advance b => Refusal.unless ⟨unauthenticated, "a host may advance only its own chain"⟩ (signer == b.hostId)
  | .state b =>
    Refusal.unless ⟨unauthenticated, "a host may read only its own state"⟩
      (signer == b.hostId || Assoc.contains svc.enrolment.auditors signer)
  | .rebaseline _ => .ok ()

/-- `_authorize`. -/
def Service.authorize (signer : String) (body : Body) : Except Refusal Unit := do
  svc.authorizeSigner signer body
  Refusal.unless ⟨unauthenticated, s!"host {svc.world.env.repr body.hostId} is not enrolled"⟩
    (Assoc.contains svc.enrolment.hosts body.hostId)

/-- What `handle` does before its transaction: the signer, the body as sent and the body as checked. -/
def Service.admit (request : Request) : Except Refusal (String × Dict × Body) :=
  match pathFormat request.path with
  | none => .error ⟨notFound, s!"no such endpoint {request.path}"⟩
  | some expected => do
    Refusal.unless ⟨rateLimited, "the witness is busy"⟩ request.globalToken
    let opened ← svc.openRequest request.raw
    Refusal.unless ⟨malformedCode, s!"{request.path} takes {expected} requests"⟩ (formatOf opened.2 == expected)
    let body ← checkBody svc.world.env svc.world.keyId opened.2
    svc.authorize opened.1 body
    Refusal.unless ⟨rateLimited, s!"too many requests from {svc.world.env.repr opened.1}"⟩ request.signerToken
    return (opened.1, opened.2, body)

def discardRows (hostId : String) (epoch : Int) (discard : Option Pending) (at_ : Int) : List LogRow :=
  match discard with
  | none => []
  | some p => [⟨hostId, .discard, epoch, p.hostSeq, p.receiptHash, "\x7b\x7d".toList, "\x7b\x7d".toList, at_⟩]

def Db.appendAll (db : Db) (rows : List LogRow) : Except PyError Db := rows.foldlM Db.append db

def Service.advance (db : Db) (s : HostState) (raw : Dict) (body : AdvanceBody) (requestJson : Text) (at_ : Int) :
    Except PyError (Db × Reply) :=
  let w := svc.world
  let requestSha256 := digest w (.dict raw)
  match decideAdvance w.env s body requestSha256 (db.heads body.hostId) (db.known body.hostId) with
  | .replay => .ok (db, .answer 200 ((s.pending.map Pending.answer).getD []))
  | .refuse refusal => .ok (db, svc.refusal refusal (some requestSha256) (some body.hostId) at_)
  | .accept confirm discard => do
    let receipt := receiptBody s body requestSha256 confirm discard w.keyId at_
    let answer := signAnswer w receipt
    let db ← db.confirmHeads body.hostId ((confirm.map Pending.heads).getD [])
    let db ← db.appendAll (discardRows body.hostId s.epoch discard at_)
    let db ← db.append ⟨body.hostId, .advance, s.epoch, body.hostSeq, digest w (.dict receipt), requestJson,
      dumps w.floatText (.dict answer), at_⟩
    return (db.saveState w (applyAdvance w s body requestSha256 confirm answer), .answer 200 answer)

/-- The body of a logged request: `json.loads(text)["body"]`. -/
def loggedBody (text : Text) : Except PyError Dict :=
  match loads text with
  | .ok (.dict envelope) =>
    match Assoc.get? envelope "body" with
    | some (.dict body) => .ok body
    | _ => .error (.value "body")
  | .ok _ => .error (.type "indices must be integers")
  | .error e => .error (.value e)

/-- A logged answer: `json.loads(text)`. -/
def loggedAnswer (text : Text) : Except PyError Dict :=
  match loads text with
  | .ok (.dict answer) => .ok answer
  | .ok _ => .error (.type "indices must be integers")
  | .error e => .error (.value e)

def Service.rebaselineReplay (db : Db) (s : HostState) (hostId requestSha256 : String) : Except PyError (Option Dict) :=
  match s.pending, s.confirmedHash with
  | none, some hash =>
    match db.rebaselineRow hostId hash with
    | none => .ok none
    | some (requestJson, answerJson) => do
      let body ← loggedBody requestJson
      if digest svc.world (.dict body) = requestSha256 then some <$> loggedAnswer answerJson else return none
  | _, _ => .ok none

def Service.rebaseline (db : Db) (s : HostState) (signer : String) (raw : Dict) (body : RebaselineBody)
    (requestJson : Text) (at_ : Int) : Except PyError (Db × Reply) := do
  let w := svc.world
  let requestSha256 := digest w (.dict raw)
  match ← svc.rebaselineReplay db s body.hostId requestSha256 with
  | some answer => return (db, .answer 200 answer)
  | none =>
    match decideRebaseline s body with
    | .error refusal => return (db, svc.refusal refusal (some requestSha256) (some body.hostId) at_)
    | .ok discard => do
      let receipt := rebaselineBody s body requestSha256 signer w.keyId at_
      let answer := signAnswer w receipt
      let s' := applyRebaseline w s body answer
      let db ← db.appendAll (discardRows body.hostId s.epoch discard at_)
      let db ← db.replaceHeads body.hostId body.heads
      let db ← db.append ⟨body.hostId, .rebaseline, s'.epoch, s'.confirmedSeq, digest w (.dict receipt), requestJson,
        dumps w.floatText (.dict answer), at_⟩
      return (db.saveState w s', .answer 200 answer)

/-- `_dispatch`. -/
def Service.dispatch (db : Db) (signer : String) (raw : Dict) (body : Body) (requestJson : Text) (at_ : Int) :
    Except PyError (Db × Reply) := do
  let s ← db.hostState body.hostId
  match body with
  | .state b =>
    let task := b.taskId.bind (db.heads b.hostId)
    return (db, .answer 200 (signAnswer svc.world
      (stateBody s b (digest svc.world (.dict raw)) task svc.world.keyId at_)))
  | .advance b => svc.advance db s raw b requestJson at_
  | .rebaseline b => svc.rebaseline db s signer raw b requestJson at_

/-- `handle`: the file after the request, and the reply. -/
def Service.handle (db : Db) (request : Request) : Db × Reply :=
  match svc.admit request with
  | .error refusal =>
    let (requestSha256, hostId) := svc.bodyDigest request.raw
    (db, svc.refusal refusal requestSha256 hostId request.now)
  | .ok (signer, raw, body) =>
    match svc.dispatch db signer raw body (request.raw.getD []) request.now with
    | .ok (db', reply) => (db', reply)
    | .error e => (db, .raised e)

end Service

/-! ## `fold_log` -/

/-- The fields `apply_advance` reads of a logged body. -/
def advanceOf? (raw : Dict) : Option AdvanceBody := do
  let hostId ← (Assoc.get? raw "host_id").bind Value.str?
  let hostSeq ← (Assoc.get? raw "host_seq").bind intOf?
  let prev ← (Assoc.get? raw "prev").bind optStr?
  let heads ← (Assoc.get? raw "heads").bind headsOf?
  let registry ← (Assoc.get? raw "registry").bind registryOf?
  let timeFloor ← (Assoc.get? raw "time_floor").bind intOf?
  return { hostId, hostSeq, prev, heads, registry, timeFloor }

/-- The fields `apply_rebaseline` reads of a logged body. -/
def rebaselineOf? (raw : Dict) : Option RebaselineBody := do
  let hostId ← (Assoc.get? raw "host_id").bind Value.str?
  let expectedLast ← (Assoc.get? raw "expected_last").bind optStr?
  let nonce ← (Assoc.get? raw "nonce").bind Value.str?
  let reason ← (Assoc.get? raw "reason").bind Value.str?
  let heads ← (Assoc.get? raw "heads").bind headsOf?
  let registry ← (Assoc.get? raw "registry").bind registryOf?
  let timeFloor ← (Assoc.get? raw "time_floor").bind intOf?
  return { hostId, expectedLast, nonce, reason, heads, registry, timeFloor }

def orKeyError {α : Type} : Option α → Except PyError α
  | some a => .ok a
  | none => .error (.value "KeyError")

/-- The pending advance that an advance on `prev` confirms. -/
def confirmedBy (s : HostState) (prev : Option String) : Option Pending :=
  s.pending.bind fun p => if prev = some p.receiptHash then some p else none

/-- One row of the log in `fold_log`. -/
def foldRow (w : World) (acc : HostState × Assoc Head) (row : LogRow) : Except PyError (HostState × Assoc Head) :=
  match row.kind with
  | .discard => .ok acc
  | .advance => do
    let raw ← loggedBody row.requestJson
    let answer ← loggedAnswer row.answerJson
    let body ← orKeyError (advanceOf? raw)
    let confirm := confirmedBy acc.1 body.prev
    return (applyAdvance w acc.1 body (digest w (.dict raw)) confirm answer,
      Assoc.update acc.2 ((confirm.map Pending.heads).getD []))
  | .rebaseline => do
    let raw ← loggedBody row.requestJson
    let answer ← loggedAnswer row.answerJson
    let body ← orKeyError (rebaselineOf? raw)
    return (applyRebaseline w acc.1 body answer, body.heads)

/-- `fold_log`: the state and the confirmed heads of a host, rebuilt from the log alone. -/
def Db.foldLog (w : World) (db : Db) (hostId : String) : Except PyError (HostState × Assoc Head) :=
  (db.logRows hostId).foldlM (foldRow w) (.fresh hostId, [])

end Portmark.Witness
