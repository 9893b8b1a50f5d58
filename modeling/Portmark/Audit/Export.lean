/-
The export loop: `audit_export_page` of both stores with the paging rule they share
(`_assemble_export_page` of storage.py), and `_check_event`, `_export_task` and `run_export` of
audit_export.py. A page is one snapshot of the heads after a task and of the events past a watermark;
the loop exports the tasks of a page, saves the cursor and goes on where the page says.
-/
import Portmark.Audit.Record
import Portmark.Lib.Utf8
import Portmark.Security.Json

namespace Portmark.Audit

open Lib Lib.Json

/-! ## The store -/

/-- A row of `audit_events`. -/
structure EventRow where
  sequence : Cell
  event : Cell
  detailsJson : Cell
  previousHash : Cell
  hash : Cell
  hostId : Cell
  createdAt : Cell
deriving DecidableEq

/-- A row of `audit_heads`. -/
structure TaskHead where
  taskId : Text
  head : Head

def Cell.rank : Cell → Nat
  | .null => 0
  | .int _ => 1
  | .real _ => 1
  | .text _ => 2
  | .blob _ => 3

def Cell.number : Cell → PyFloat
  | .int n => .finite n
  | .real x => x.value
  | _ => .nan

/-- The order `ORDER BY` gives two values of a column that is a key. -/
def Cell.before : Cell → Cell → Bool
  | .text a, .text b => decide (a < b)
  | .blob a, .blob b => decide (a < b)
  | a, b => if a.rank = b.rank then PyFloat.lt a.number b.number else decide (a.rank < b.rank)

/-- `column >= ?`. -/
def Cell.atLeast : Cell → Int → Bool
  | .int n, start => decide (start ≤ n)
  | .real x, start => PyFloat.lt (.finite start) x.value || PyFloat.eq (.finite start) x.value
  | .text _, _ => true
  | .blob _, _ => true
  | .null, _ => false

/-- `start <= sequence < start + count`. -/
def Cell.within : Cell → Int → Nat → Bool
  | .int n, start, count => decide (start ≤ n ∧ n < start + count)
  | _, _, _ => false

inductive StoreKind where
  | memory
  | sql
deriving DecidableEq

structure Store where
  kind : StoreKind
  heads : List TaskHead
  events : Text → List EventRow
  sorted : (heads.map TaskHead.taskId).Pairwise (· < ·)
  ordered : ∀ taskId, (events taskId).Pairwise fun a b => a.sequence.before b.sequence = true

def exportEventRow (env : Env) (row : EventRow) : Except PyException ExportEvent := do
  let sequence ← row.sequence.toInt env
  return ⟨sequence, row.event, row.detailsJson, row.previousHash, row.hash, row.hostId, row.createdAt⟩

/-- `fetch_events`. -/
def Store.fetch (env : Env) (store : Store) (taskId : Text) (start : Int) (count : Nat) :
    Except PyException (List ExportEvent) :=
  match store.kind with
  | .memory => ((store.events taskId).filter fun r => r.sequence.within start count).mapM (exportEventRow env)
  | .sql =>
    if fitsInt64 start then
      (((store.events taskId).filter fun r => r.sequence.atLeast start).take count).mapM (exportEventRow env)
    else .error .overflowError

/-! ## A page -/

structure ExportTask where
  taskId : Text
  head : Head
  events : List ExportEvent
  truncated : Bool

structure Page where
  tasks : List ExportTask
  nextAfter : Option Text
  done : Bool

def Page.cons (task : ExportTask) (page : Page) : Page := { page with tasks := task :: page.tasks }

/-- `_assemble_export_page` over the heads of the page; `done` says that they were all passed. -/
def assemble (env : Env) (fetch : Text → Int → Nat → Except PyException (List ExportEvent)) (watermark : Text → Int) :
    List TaskHead → Nat → Option Text → Except PyException Page
  | [], _, lastDone => .ok ⟨[], lastDone, true⟩
  | h :: heads, budget, lastDone => do
    let sequence ← h.head.sequence.toInt env
    let start := watermark h.taskId
    let needed := sequence - start
    if needed ≤ 0 then do
      let page ← assemble env fetch watermark heads budget (some h.taskId)
      return page.cons ⟨h.taskId, h.head, [], false⟩
    else if budget = 0 then return ⟨[], lastDone, false⟩
    else do
      let want := min needed.toNat budget
      let events ← fetch h.taskId start want
      if (want : Int) < needed then return ⟨[⟨h.taskId, h.head, events, true⟩], lastDone, false⟩
      else do
        let page ← assemble env fetch watermark heads (budget - events.length) (some h.taskId)
        return page.cons ⟨h.taskId, h.head, events, false⟩

structure PageSize where
  limit : Nat
  maxEvents : Nat
  limit_pos : 1 ≤ limit
  maxEvents_pos : 1 ≤ maxEvents

/-- `task_id > after`. -/
def isAfter (after : Option Text) (taskId : Text) : Bool :=
  match after with
  | none => true
  | some after => decide (after < taskId)

def Store.headsAfter (store : Store) (after : Option Text) : List TaskHead :=
  store.heads.filter fun h => isAfter after h.taskId

/-- `audit_export_page`. -/
def auditExportPage (env : Env) (store : Store) (size : PageSize) (after : Option Text) (watermark : Text → Int) :
    Except PyException Page := do
  let heads := (store.headsAfter after).take size.limit
  let page ← assemble env (store.fetch env) watermark heads size.maxEvents after
  return { page with done := page.done && decide (heads.length < size.limit) }

/-! ## A task -/

def strictLiterals : Literals DecodeError Data where
  __ := dataLiterals
  float t :=
    match toDouble t.value with
    | .finite q => .ok (.float (.finite q))
    | _ => .error .valueError
  constant _ := .error .valueError

/-- `json.loads` with the strict hooks: a repeated key is refused where it stands. -/
def strictReader : Reader Unit DecodeError Codes Data where
  malformed := .jsonDecodeError
  string := scanCodes
  str := .str
  atom := strictLiterals.atom
  list := .list
  object pairs := if (pairs.map Prod.fst).Nodup then .ok (.object pairs) else .error .valueError
  enter := .ok

/-- `strict_json_loads` of a text, none where it raises its error; the nesting is bounded before the parser runs. -/
def strictLoads (text : Text) : Option Data :=
  if Security.checkDepth Security.maxJsonDepth text 0 false false then
    (strictReader.document () text).toOption else none

/-- `strict_json_loads` of a column, none where its error is caught. -/
def strictDetails : Cell → Option Data
  | .text t => strictLoads t
  | .blob b => (decodeUtf8 b).bind strictLoads
  | _ => none

def ExportEvent.row (e : ExportEvent) (details : Data) : Row :=
  ⟨.int e.sequence, e.event, .decoded details, e.previous, e.hash, e.hostId⟩

/-- `_check_event`: the details, or the reason the row is refused for. -/
def checkEvent (env : Env) (expected : Int) (previous : Option Cell) (row : ExportEvent) :
    Except PyException (Except String Data) :=
  if row.sequence ≠ expected then .ok (.error s!"expected sequence {expected}, found {row.sequence}")
  else if previous.any fun p => !row.previous.eq p then
    .ok (.error "previous hash does not link to the last exported event")
  else
    match strictDetails row.detailsJson with
    | none => .ok (.error "stored details are not valid JSON")
    | some details =>
      match auditEventHashMatches env (row.row details) details with
      | .error e => .error e
      | .ok false => .ok (.error "event hash does not match its stored content")
      | .ok true => .ok (.ok details)

structure Exporter where
  env : Env
  projector : Projector
  verifier : Option AuditHeadVerifier
  encode : Fields → Except ExportError Text

abbrev Cursor := Text → Option (Int × Cell)

structure RowsExport where
  lines : List Text
  position : Int
  previous : Option Cell
  reason : Option String

def exportRows (x : Exporter) (taskId : Text) : Int → Option Cell → List ExportEvent → Except ExportError RowsExport
  | position, previous, [] => .ok ⟨[], position, previous, none⟩
  | position, previous, row :: rows =>
    match checkEvent x.env position previous row with
    | .error e => .error (.python e)
    | .ok (.error reason) => .ok ⟨[], position, previous, some reason⟩
    | .ok (.ok details) => do
      let record ← eventRecord x.projector x.env.depth taskId row details none
      let line ← x.encode record
      let rest ← exportRows x taskId (position + 1) (some row.hash) rows
      return { rest with lines := line :: rest.lines }

structure TaskExport where
  lines : List Text
  entry : Option (Int × Cell)
  reason : Option String
  events : Nat
  heads : Nat

/-- `previous == head_hash`. -/
def sameHash : Option Cell → Cell → Bool
  | none, c => c == .null
  | some h, c => h.eq c

def headStatus (x : Exporter) (taskId : Text) (head : Head) (sequence : Int) : Except ExportError String :=
  match x.verifier with
  | none => .ok "unchecked"
  | some verifier =>
    match verifyHeadSignature x.env (some verifier) taskId head sequence with
    | .error e => .error (.python e)
    | .ok result => .ok (if result.headStatus = "" then "invalid" else result.headStatus)

def newEntry (entry : Option (Int × Cell)) (rows : RowsExport) : Option (Int × Cell) :=
  if rows.lines = [] then entry else rows.previous.map fun hash => (rows.position, hash)

/-- `_export_task`. -/
def exportTask (x : Exporter) (entry : Option (Int × Cell)) (task : ExportTask) : Except ExportError TaskExport :=
  match task.head.sequence.toInt x.env with
  | .error e => .error (.python e)
  | .ok headSequence =>
    let position := entry.elim 0 Prod.fst
    let lastHash := entry.map Prod.snd
    if headSequence < position then
      .ok ⟨[], entry, some (s!"stored head (sequence {headSequence}) is behind events already exported " ++
        s!"(next {position}): rollback or rewrite"), 0, 0⟩
    else if headSequence = position then
      if lastHash.any fun h => !task.head.headHash.eq h then
        .ok ⟨[], entry, some "stored head hash differs from the last exported event: history was rewritten", 0, 0⟩
      else .ok ⟨[], entry, none, 0, 0⟩
    else do
      let rows ← exportRows x task.taskId position lastHash task.events
      let entry := newEntry entry rows
      match rows.reason with
      | some reason => return ⟨rows.lines, entry, some reason, rows.lines.length, 0⟩
      | none =>
        if task.truncated then return ⟨rows.lines, entry, none, rows.lines.length, 0⟩
        else if rows.position ≠ headSequence || !sameHash rows.previous task.head.headHash then
          return ⟨rows.lines, entry, some "stored head does not match the stored events (missing or extra rows)",
            rows.lines.length, 0⟩
        else do
          let status ← headStatus x task.taskId task.head headSequence
          let line ← x.encode (headRecord task.taskId task.head headSequence status)
          return ⟨rows.lines ++ [line], entry, none, rows.lines.length, 1⟩

/-! ## The run -/

structure ExportReport where
  events : Nat
  heads : Nat
  tasks : Nat
  integrityFailures : List Fields

structure Run where
  cursor : Cursor
  failed : List Text
  after : Option Text
  out : List Text
  report : ExportReport

/-- `_SKIP_TASK`. -/
def skipTask : Int := 2 ^ 62

def Run.watermark (run : Run) (taskId : Text) : Int :=
  if run.failed.contains taskId then skipTask else (run.cursor taskId).elim 0 Prod.fst

def exportOne (x : Exporter) (run : Run) (task : ExportTask) : Except ExportError Run :=
  if run.failed.contains task.taskId then .ok run
  else do
    let t ← exportTask x (run.cursor task.taskId) task
    let run := { run with
      cursor := Function.update run.cursor task.taskId t.entry
      out := run.out ++ t.lines
      report := { run.report with
        events := run.report.events + t.events
        heads := run.report.heads + t.heads
        tasks := run.report.tasks + t.heads } }
    match t.reason with
    | none => return run
    | some reason =>
      let failure := controlRecord task.taskId (t.entry.elim 0 Prod.fst) reason
      let line ← x.encode failure
      return { run with
        failed := run.failed ++ [task.taskId]
        out := run.out ++ [line]
        report := { run.report with integrityFailures := run.report.integrityFailures ++ [failure] } }

def exportPage (x : Exporter) (store : Store) (size : PageSize) (run : Run) : Except ExportError (Run × Bool) :=
  match auditExportPage x.env store size run.after run.watermark with
  | .error e => .error (.python e)
  | .ok page => do
    let run ← page.tasks.foldlM (exportOne x) run
    return ({ run with after := page.nextAfter }, page.done)

def Run.start (cursor : Cursor) : Run := ⟨cursor, [], none, [], ⟨0, 0, 0, []⟩⟩

/-- `while True` over pages that say whether they are the last; none while it has not ended after so many. -/
def overPages {σ ε : Type} (page : σ → Except ε (σ × Bool)) : Nat → σ → Option (Except ε σ)
  | 0, _ => none
  | pages + 1, s =>
    match page s with
    | .error e => some (.error e)
    | .ok (s, true) => some (.ok s)
    | .ok (s, false) => overPages page pages s

/-- `run_export`. -/
def runExport (x : Exporter) (store : Store) (size : PageSize) : Nat → Run → Option (Except ExportError Run) :=
  overPages (exportPage x store size)

end Portmark.Audit
