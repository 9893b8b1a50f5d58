/-
The remote witness protocol of remote_witness.py: request bodies and their check, the state the
witness keeps for a host, and the chain rules. A request body is decoded while it is checked; its
digest is taken of the body as it was sent.
-/
import Portmark.Security.Json

namespace Portmark.Witness

open Lib Lib.Json Security

/-- What the witness takes from outside: its key (Ed25519 over a text, base64url), the hash, and
Python's `repr`. -/
structure World where
  env : Env
  floatText : ℚ → Text
  sha256 : Text → String
  sign : Text → String
  verify : String → String → Text → Bool
  keyId : String

/-- `digest`: the hash of the canonical JSON. -/
def digest (w : World) (v : Value) : String := w.sha256 (dumps w.floatText v)

structure Refusal where
  code : String
  message : String
deriving DecidableEq

def Refusal.unless (refusal : Refusal) (condition : Bool) : Except Refusal Unit :=
  if condition then .ok () else .error refusal

def rolledBack : String := "rolled-back"
def forked : String := "forked"
def sequenceMismatch : String := "sequence-mismatch"
def registryRolledBack : String := "registry-rolled-back"
def registryForked : String := "registry-forked"
def registryMissing : String := "registry-missing"
def staleRebaseline : String := "stale-rebaseline"
def unauthenticated : String := "unauthenticated"
def wrongWitness : String := "wrong-witness"
def malformedCode : String := "malformed"
def rateLimited : String := "rate-limited"
def notFound : String := "not-found"

def advanceFormat : String := "portmark.witness.advance.v1"
def stateFormat : String := "portmark.witness.state-request.v1"
def rebaselineFormat : String := "portmark.witness.rebaseline.v1"
def answerFormat : String := "portmark.witness.answer.v1"

def requestDomain : Text := "portmark.witness.request.v1\n".toList
def answerDomain : Text := "portmark.witness.answer.v1\n".toList

def maxRequestBytes : Nat := 1024 * 1024
def maxHeads : Nat := 10000
def maxIdLength : Nat := 512

/-! ## Values -/

def optStr : Option String → Value
  | none => .null
  | some s => .str s

structure Head where
  sequence : Int
  headHash : String
deriving DecidableEq

structure Registry where
  version : Int
  digest : String
deriving DecidableEq

def Head.toValue (h : Head) : Value := .dict [("sequence", .int h.sequence), ("head_hash", .str h.headHash)]

def Registry.toValue (r : Registry) : Value := .dict [("version", .int r.version), ("digest", .str r.digest)]

def headsValue (heads : Assoc Head) : Value := .dict (heads.map fun e => (e.1, e.2.toValue))

def registryValue : Option Registry → Value
  | none => .null
  | some r => r.toValue

/-- `set(d) == fields`. -/
def hasExactly (d : Dict) (fields : List String) : Bool :=
  (Assoc.keys d).all (fields.contains ·) && fields.all (Assoc.contains d)

/-- `_is_id`. -/
def isId (s : String) : Bool := decide (0 < s.length ∧ s.length ≤ maxIdLength)

def hexDigits : List Char := "0123456789abcdef".toList

/-- `_is_hash`. -/
def isHash (s : String) : Bool := decide (s.length = 64) && s.toList.all (hexDigits.contains ·)

/-! ## Request bodies -/

def head? (task : String) (v : Value) : Option Head :=
  match v with
  | .dict d =>
    match Assoc.get? d "sequence", Assoc.get? d "head_hash" with
    | some (.int n), some (.str s) =>
      if isId task && hasExactly d ["sequence", "head_hash"] && decide (1 ≤ n) && isId s then some ⟨n, s⟩ else none
    | _, _ => none
  | _ => none

def checkHead (env : Env) (entry : String × Value) : Except Refusal (String × Head) :=
  match head? entry.1 entry.2 with
  | some head => .ok (entry.1, head)
  | none => .error ⟨malformedCode, s!"head for task {env.repr entry.1} is malformed"⟩

/-- `_check_heads`. -/
def checkHeads (env : Env) (v : Option Value) : Except Refusal (Assoc Head) :=
  match v with
  | some (.dict d) =>
    if d.length ≤ maxHeads then d.mapM (checkHead env)
    else .error ⟨malformedCode, s!"heads must be an object of at most {maxHeads} tasks"⟩
  | _ => .error ⟨malformedCode, s!"heads must be an object of at most {maxHeads} tasks"⟩

/-- `_check_registry`. -/
def checkRegistry (v : Option Value) : Except Refusal (Option Registry) :=
  match v with
  | some .null => .ok none
  | some (.dict d) =>
    match Assoc.get? d "version", Assoc.get? d "digest" with
    | some (.int n), some (.str s) =>
      if hasExactly d ["version", "digest"] && decide (1 ≤ n) then .ok (some ⟨n, s⟩)
      else .error ⟨malformedCode, "registry must be null or \x7bversion, digest\x7d"⟩
    | _, _ => .error ⟨malformedCode, "registry must be null or \x7bversion, digest\x7d"⟩
  | _ => .error ⟨malformedCode, "registry must be null or \x7bversion, digest\x7d"⟩

def hashOrNull? (v : Option Value) : Option (Option String) :=
  match v with
  | some .null => some none
  | some (.str s) => if isHash s then some (some s) else none
  | _ => none

def intFrom? (minimum : Int) (v : Option Value) : Option Int :=
  match v with
  | some (.int n) => if minimum ≤ n then some n else none
  | _ => none

structure AdvanceBody where
  hostId : String
  hostSeq : Int
  prev : Option String
  heads : Assoc Head
  registry : Option Registry
  timeFloor : Int

structure StateBody where
  hostId : String
  nonce : String
  taskId : Option String

structure RebaselineBody where
  hostId : String
  expectedLast : Option String
  nonce : String
  reason : String
  heads : Assoc Head
  registry : Option Registry
  timeFloor : Int

inductive Body where
  | advance (body : AdvanceBody)
  | state (body : StateBody)
  | rebaseline (body : RebaselineBody)

def Body.hostId : Body → String
  | .advance b => b.hostId
  | .state b => b.hostId
  | .rebaseline b => b.hostId

/-- `_BODY_FIELDS`. -/
def bodyFields (format : String) : Option (List String) :=
  if format = advanceFormat then
    some ["format", "witness_key_id", "host_id", "host_seq", "prev", "heads", "registry", "time_floor"]
  else if format = stateFormat then some ["format", "witness_key_id", "host_id", "nonce", "task_id"]
  else if format = rebaselineFormat then
    some ["format", "witness_key_id", "host_id", "expected_last", "nonce", "reason", "heads", "registry", "time_floor"]
  else none

def checkTimeFloor (body : Dict) : Except Refusal Int :=
  match intFrom? 0 (Assoc.get? body "time_floor") with
  | some n => .ok n
  | none => .error ⟨malformedCode, "time_floor is malformed"⟩

def checkNonce (body : Dict) : Except Refusal String :=
  match Assoc.get? body "nonce" with
  | some (.str s) =>
    if 16 ≤ s.length ∧ s.length ≤ 128 then .ok s
    else .error ⟨malformedCode, "nonce must be 16 to 128 characters"⟩
  | _ => .error ⟨malformedCode, "nonce must be 16 to 128 characters"⟩

/-- `str.isspace` of one character. -/
def isSpace (c : Char) : Bool :=
  let n := c.toNat
  decide (9 ≤ n ∧ n ≤ 13 ∨ 0x1c ≤ n ∧ n ≤ 0x20 ∨ n = 0x85 ∨ n = 0xa0 ∨ n = 0x1680 ∨ 0x2000 ≤ n ∧ n ≤ 0x200a ∨
    n = 0x2028 ∨ n = 0x2029 ∨ n = 0x202f ∨ n = 0x205f ∨ n = 0x3000)

def checkReason (body : Dict) : Except Refusal String :=
  match Assoc.get? body "reason" with
  | some (.str s) =>
    if s.toList.all isSpace || decide (2000 < s.length) then .error ⟨malformedCode, "a rebaseline needs a reason"⟩
    else .ok s
  | _ => .error ⟨malformedCode, "a rebaseline needs a reason"⟩

def checkAdvance (env : Env) (hostId : String) (body : Dict) : Except Refusal AdvanceBody :=
  match intFrom? 1 (Assoc.get? body "host_seq"), hashOrNull? (Assoc.get? body "prev") with
  | some hostSeq, some prev => do
    let heads ← checkHeads env (Assoc.get? body "heads")
    let registry ← checkRegistry (Assoc.get? body "registry")
    let timeFloor ← checkTimeFloor body
    return { hostId, hostSeq, prev, heads, registry, timeFloor }
  | _, _ => .error ⟨malformedCode, "host_seq or prev is malformed"⟩

def checkState (hostId : String) (body : Dict) : Except Refusal StateBody := do
  let nonce ← checkNonce body
  match Assoc.get? body "task_id" with
  | some .null => return { hostId, nonce, taskId := none }
  | some (.str task) =>
    if isId task then return { hostId, nonce, taskId := some task } else .error ⟨malformedCode, "task_id is malformed"⟩
  | _ => .error ⟨malformedCode, "task_id is malformed"⟩

def checkRebaseline (env : Env) (hostId : String) (body : Dict) : Except Refusal RebaselineBody :=
  match hashOrNull? (Assoc.get? body "expected_last") with
  | some expectedLast => do
    let nonce ← checkNonce body
    let reason ← checkReason body
    let heads ← checkHeads env (Assoc.get? body "heads")
    let registry ← checkRegistry (Assoc.get? body "registry")
    let timeFloor ← checkTimeFloor body
    return { hostId, expectedLast, nonce, reason, heads, registry, timeFloor }
  | none => .error ⟨malformedCode, "expected_last is malformed"⟩

def checkFields (env : Env) (format hostId : String) (body : Dict) : Except Refusal Body :=
  if format = advanceFormat then .advance <$> checkAdvance env hostId body
  else if format = stateFormat then .state <$> checkState hostId body
  else .rebaseline <$> checkRebaseline env hostId body

/-- `check_body`: the exact shape of a request to this witness. -/
def checkBody (env : Env) (witnessKeyId : String) (body : Dict) : Except Refusal Body :=
  match Assoc.get? body "format" with
  | some (.str format) =>
    match bodyFields format with
    | none => .error ⟨malformedCode, "unknown request format or unexpected fields"⟩
    | some fields =>
      if !hasExactly body fields then .error ⟨malformedCode, "unknown request format or unexpected fields"⟩
      else
        match Assoc.get? body "witness_key_id", Assoc.get? body "host_id" with
        | some (.str key), hostId =>
          if key ≠ witnessKeyId then .error ⟨wrongWitness, "the request is addressed to another witness"⟩
          else
            match hostId with
            | some (.str hostId) =>
              if isId hostId then checkFields env format hostId body else .error ⟨malformedCode, "host_id is malformed"⟩
            | _ => .error ⟨malformedCode, "host_id is malformed"⟩
        | _, _ => .error ⟨wrongWitness, "the request is addressed to another witness"⟩
  | _ => .error ⟨malformedCode, "unknown request format or unexpected fields"⟩

/-! ## The state of a host -/

structure Pending where
  hostSeq : Int
  receiptHash : String
  requestSha256 : String
  heads : Assoc Head
  registry : Option Registry
  timeFloor : Int
  answer : Dict

structure HostState where
  hostId : String
  epoch : Int
  confirmedSeq : Int
  confirmedHash : Option String
  pending : Option Pending
  registry : Option Registry
  timeFloor : Int

/-- `HostState(host_id)`. -/
def HostState.fresh (hostId : String) : HostState :=
  { hostId, epoch := 1, confirmedSeq := 0, confirmedHash := none, pending := none, registry := none, timeFloor := 0 }

namespace HostState

def lastHash (s : HostState) : Option String :=
  match s.pending with
  | some p => some p.receiptHash
  | none => s.confirmedHash

def lastSeq (s : HostState) : Int :=
  match s.pending with
  | some p => p.hostSeq
  | none => s.confirmedSeq

end HostState

structure KnownEntry where
  hostSeq : Int
  epoch : Int
  discarded : Bool

inductive Decision where
  | accept (confirm discard : Option Pending)
  | replay
  | refuse (refusal : Refusal)

/-- `_higher_registry`. -/
def higherRegistry : Option Registry → Option Registry → Option Registry
  | none, second => second
  | first, none => first
  | some first, some second => if first.version < second.version then some second else some first

/-! ## The chain rules -/

/-- `_classify_prev`: why `prev` is neither the pending nor the confirmed receipt. -/
def classifyPrev (s : HostState) (prev : Option String) (known : String → Option KnownEntry) : Refusal :=
  match prev with
  | none => ⟨rolledBack, "the host names no earlier receipt, but this witness holds a chain for it: " ++
      "the host database is OLDER than the witness (restored)"⟩
  | some hash =>
    match known hash with
    | none => ⟨forked, "the host builds on a receipt this witness never issued to it (forked)"⟩
    | some entry =>
      if entry.discarded then
        ⟨forked, "the host builds on an advance that was discarded because another copy of the " ++
          "host advanced first: two copies of this host are running (forked or cloned)"⟩
      else
        ⟨rolledBack, s!"the host builds on receipt {entry.hostSeq} (epoch {entry.epoch}), OLDER than " ++
          s!"the witnessed receipt {s.confirmedSeq} (epoch {s.epoch}): the host was restored or cloned"⟩

def sequenced (hostSeq base : Int) (confirm discard : Option Pending) :
    Except Refusal (Option Pending × Option Pending) :=
  if hostSeq = base + 1 then .ok (confirm, discard)
  else .error ⟨sequenceMismatch, s!"host_seq must be {base + 1} after that receipt, not {hostSeq}"⟩

/-- The part of `decide_advance` that looks at `prev` and `host_seq`: what the advance confirms and
what it discards. -/
def chainPart (s : HostState) (prev : Option String) (hostSeq : Int) (known : String → Option KnownEntry) :
    Except Refusal (Option Pending × Option Pending) :=
  match s.pending with
  | some p =>
    if prev = some p.receiptHash then sequenced hostSeq p.hostSeq (some p) none
    else if prev = s.confirmedHash then sequenced hostSeq s.confirmedSeq none (some p)
    else .error (classifyPrev s prev known)
  | none =>
    if prev = s.confirmedHash then sequenced hostSeq s.confirmedSeq none none else .error (classifyPrev s prev known)

def witnessedHead (confirm : Option Pending) (taskHead : String → Option Head) (task : String) : Option Head :=
  (confirm.bind fun p => Assoc.get? p.heads task).or (taskHead task)

def checkWitnessed (env : Env) (taskHead : String → Option Head) (confirm : Option Pending) (entry : String × Head) :
    Except Refusal Unit :=
  match witnessedHead confirm taskHead entry.1 with
  | none => .ok ()
  | some w =>
    if entry.2.sequence < w.sequence then
      .error ⟨rolledBack,
        s!"task {env.repr entry.1}: sequence {entry.2.sequence} is OLDER than the witnessed {w.sequence}"⟩
    else if entry.2.sequence = w.sequence ∧ entry.2.headHash ≠ w.headHash then
      .error ⟨forked, s!"task {env.repr entry.1}: a different head for the witnessed sequence {w.sequence}"⟩
    else .ok ()

def checkOffered (witnessed offered : Option Registry) : Except Refusal Unit :=
  match witnessed with
  | none => .ok ()
  | some w =>
    match offered with
    | none => .error ⟨registryMissing, "the witness records a trust registry, but the host sent none"⟩
    | some o =>
      if o.version < w.version then .error ⟨registryRolledBack,
        "the trust registry is OLDER than the witnessed version"⟩
      else if o.version = w.version ∧ o.digest ≠ w.digest then
        .error ⟨registryForked, "the trust registry has the witnessed version but different content"⟩
      else .ok ()

def judgeAdvance (env : Env) (s : HostState) (body : AdvanceBody) (taskHead : String → Option Head)
    (known : String → Option KnownEntry) : Except Refusal (Option Pending × Option Pending) := do
  let (confirm, discard) ← chainPart s body.prev body.hostSeq known
  body.heads.forM (checkWitnessed env taskHead confirm)
  checkOffered (higherRegistry s.registry (confirm.bind Pending.registry)) body.registry
  return (confirm, discard)

/-- `decide_advance`. -/
def decideAdvance (env : Env) (s : HostState) (body : AdvanceBody) (requestSha256 : String)
    (taskHead : String → Option Head) (known : String → Option KnownEntry) : Decision :=
  if (s.pending.map Pending.requestSha256) = some requestSha256 then .replay
  else
    match judgeAdvance env s body taskHead known with
    | .ok (confirm, discard) => .accept confirm discard
    | .error refusal => .refuse refusal

def confirmedValue : Option Pending → Value
  | none => .null
  | some p => .dict [("host_seq", .int p.hostSeq), ("receipt_hash", .str p.receiptHash)]

/-- `receipt_body`. -/
def receiptBody (s : HostState) (body : AdvanceBody) (requestSha256 : String) (confirm discard : Option Pending)
    (witnessKeyId : String) (at_ : Int) : Dict :=
  [("kind", .str "receipt"), ("host_id", .str s.hostId), ("epoch", .int s.epoch), ("host_seq", .int body.hostSeq),
    ("prev", optStr body.prev), ("request_sha256", .str requestSha256), ("witness_key_id", .str witnessKeyId),
    ("accepted_at", .int at_), ("confirmed", confirmedValue confirm),
    ("discarded", optStr (discard.map Pending.receiptHash))]

def HostState.confirm (s : HostState) : Option Pending → HostState
  | none => s
  | some p =>
    { s with
      confirmedSeq := p.hostSeq
      confirmedHash := some p.receiptHash
      registry := higherRegistry s.registry p.registry
      timeFloor := max s.timeFloor p.timeFloor }

/-- `answer["body"]`; an answer is one `sign_answer` built. -/
def answerBody (answer : Dict) : Dict := ((Assoc.get? answer "body").bind Value.dict?).getD []

def intAt (body : Dict) (key : String) : Int :=
  match Assoc.get? body key with
  | some (.int n) => n
  | _ => 0

/-- `apply_advance`. -/
def applyAdvance (w : World) (s : HostState) (body : AdvanceBody) (requestSha256 : String) (confirm : Option Pending)
    (answer : Dict) : HostState :=
  { s.confirm confirm with
    pending := some
      { hostSeq := body.hostSeq, receiptHash := digest w (.dict (answerBody answer)), requestSha256,
        heads := body.heads, registry := body.registry, timeFloor := body.timeFloor, answer } }

/-- `decide_rebaseline`: what an accepted rebaseline discards. -/
def decideRebaseline (s : HostState) (body : RebaselineBody) : Except Refusal (Option Pending) :=
  if body.expectedLast = s.lastHash then .ok s.pending
  else .error ⟨staleRebaseline, "the rebaseline names a last receipt that is not the witness's newest one"⟩

/-- `rebaseline_body`. -/
def rebaselineBody (s : HostState) (body : RebaselineBody) (requestSha256 operator witnessKeyId : String) (at_ : Int) :
    Dict :=
  [("kind", .str "rebaseline"), ("host_id", .str s.hostId), ("epoch", .int (s.epoch + 1)),
    ("host_seq", .int (s.lastSeq + 1)), ("prev", optStr s.lastHash), ("request_sha256", .str requestSha256),
    ("witness_key_id", .str witnessKeyId), ("accepted_at", .int at_), ("operator", .str operator),
    ("reason", .str body.reason)]

/-- `apply_rebaseline`. -/
def applyRebaseline (w : World) (s : HostState) (body : RebaselineBody) (answer : Dict) : HostState :=
  { hostId := s.hostId, epoch := intAt (answerBody answer) "epoch",
    confirmedSeq := intAt (answerBody answer) "host_seq", confirmedHash := some (digest w (.dict (answerBody answer))),
    pending := none, registry := body.registry, timeFloor := body.timeFloor }

/-! ## Answers -/

/-- `sign_answer`. -/
def signAnswer (w : World) (body : Dict) : Dict :=
  [("format", .str answerFormat), ("body", .dict body), ("key_id", .str w.keyId),
    ("signature", .str (w.sign (answerDomain ++ dumps w.floatText (.dict body))))]

/-- A receipt as `state_body` and the boot check show it. -/
def receiptView : Option (Int × String) → Value
  | none => .null
  | some (seq, hash) => .dict [("host_seq", .int seq), ("receipt_hash", .str hash)]

def HostState.confirmedView (s : HostState) : Option (Int × String) :=
  s.confirmedHash.map fun hash => (s.confirmedSeq, hash)

def HostState.pendingView (s : HostState) : Option (Int × String) :=
  s.pending.map fun p => (p.hostSeq, p.receiptHash)

def headView : Option Head → Value
  | none => .null
  | some h => h.toValue

/-- What `state_body` says of the task asked for. -/
def taskView (s : HostState) (task : Option Head) : Option String → Value
  | none => .null
  | some taskId =>
    .dict [("task_id", .str taskId), ("confirmed", headView task),
      ("pending", headView (s.pending.bind fun p => Assoc.get? p.heads taskId))]

/-- `state_body`. -/
def stateBody (s : HostState) (request : StateBody) (requestSha256 : String) (task : Option Head)
    (witnessKeyId : String) (at_ : Int) : Dict :=
  [("kind", .str "state"), ("host_id", .str s.hostId), ("nonce", .str request.nonce),
    ("request_sha256", .str requestSha256), ("witness_key_id", .str witnessKeyId), ("at", .int at_),
    ("epoch", .int s.epoch), ("confirmed", receiptView s.confirmedView), ("pending", receiptView s.pendingView),
    ("registry", registryValue s.registry), ("time_floor", .int s.timeFloor),
    ("task", taskView s task request.taskId)]

/-- `refusal_body`. -/
def refusalBody (refusal : Refusal) (requestSha256 hostId : Option String) (witnessKeyId : String) (at_ : Int) : Dict :=
  [("kind", .str "refusal"), ("code", .str refusal.code), ("message", .str refusal.message),
    ("request_sha256", optStr requestSha256), ("host_id", optStr hostId), ("witness_key_id", .str witnessKeyId),
    ("at", .int at_)]

end Portmark.Witness
