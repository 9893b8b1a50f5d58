/-
The local audit floor of witness.py: a file outside the database that records the head of every
task. `_persist` compares the database with it before a save and raises it before the commit;
`open_audit_floor` compares every recorded task when the host starts. The marker, the floor file
and the database commit are separate durable writes, and the process may stop after any of them.
-/
import Portmark.Host.Commit
import Portmark.Lib.Durable

namespace Portmark.Host

open Lib Lib.Json Security

/-! ## The floor file -/

structure FloorBody where
  epoch : Int
  registry : Option (Int × String)
  tasks : Assoc (String × Int)
  timeFloor : Int

/-- `_validate_body`. -/
def FloorBody.validate (body : FloorBody) : Except Fault Unit :=
  let bad (detail : String) : Except Fault Unit :=
    .error (.floor "floor-corrupt" ("audit floor body is malformed: " ++ detail))
  if body.timeFloor < 0 then bad "time_floor"
  else if body.epoch < 1 then bad "epoch"
  else if body.registry.any fun r => decide (r.1 < 1) then bad "registry"
  else if body.tasks.any fun e => decide (e.2.2 < 1) || e.2.1 == "" then bad "task"
  else .ok ()

inductive HeadStatus where
  | anchored
  | notAnchored
  | rolledBack
  | forked
deriving DecidableEq

/-- `compare_head`. -/
def compareHead (witnessed localHead : Option (String × Int)) (eventHashAt : Int → Option String) : HeadStatus :=
  match witnessed with
  | none => .notAnchored
  | some (witnessedHash, witnessedSequence) =>
    match localHead with
    | none => .rolledBack
    | some (_, localSequence) =>
      if localSequence < witnessedSequence then .rolledBack
      else if eventHashAt (witnessedSequence - 1) ≠ some witnessedHash then .forked
      else .anchored

def HeadStatus.refuse (status : HeadStatus) (older diverged : String) : Except Fault Unit :=
  match status with
  | .rolledBack => .error (.floor "rolled-back" older)
  | .forked => .error (.floor "forked" diverged)
  | .anchored => .ok ()
  | .notAnchored => .ok ()

/-- `check_registry_against`. -/
def checkRegistryAgainst (floorRegistry registry : Option (Int × String)) : Except Fault Unit :=
  match floorRegistry with
  | none => .ok ()
  | some (floorVersion, floorDigest) =>
    match registry with
    | none => .error (.floor "registry-missing" "the audit floor records a trust registry, but none is configured")
    | some (version, digest) =>
      if version < floorVersion then
        .error (.floor "registry-rolled-back"
          "the trust registry is OLDER than the version recorded in the audit floor (rolled back)")
      else if version = floorVersion ∧ digest ≠ floorDigest then
        .error (.floor "registry-forked"
          "the trust registry has the floor's version but different content (same version, two registries)")
      else .ok ()

/-- `advance_registry`: the new body, if it changes. -/
def advanceRegistry (registry : Option (Int × String)) (body : FloorBody) : Except Fault (Option FloorBody) :=
  match registry, body.registry with
  | none, _ => .ok none
  | some _, none => .ok (some { body with registry })
  | some (version, digest), some (current, currentDigest) =>
    if version = current ∧ digest ≠ currentDigest then
      .error (.floor "registry-forked"
        "the trust registry has the floor's version but different content (same version, two registries)")
    else if current < version then .ok (some { body with registry })
    else .ok none

/-- `advance_time_floor`. -/
def raiseTimeFloor (floorAt : Int) (body : FloorBody) : Except Fault (Option FloorBody) :=
  .ok (if body.timeFloor < floorAt then some { body with timeFloor := floorAt } else none)

/-- One head of `advance_heads`. -/
def advanceEntry (env : Env) (taskId : String) (head : String × Int) (body : FloorBody) :
    Except Fault (Option FloorBody) :=
  match Assoc.get? body.tasks taskId with
  | none => .ok (some { body with tasks := Assoc.set body.tasks taskId head })
  | some current =>
    if head.2 = current.2 ∧ head.1 ≠ current.1 then
      .error (.floor "forked"
        s!"task {env.repr taskId}: a different head for an already-witnessed sequence (forked)")
    else if current.2 < head.2 then .ok (some { body with tasks := Assoc.set body.tasks taskId head })
    else .ok none

/-- `advance_heads`. -/
def advanceHeads (env : Env) : List (String × String × Int) → FloorBody → Except Fault (Option FloorBody)
  | [], _ => .ok none
  | (taskId, head) :: heads, body => do
    let changed ← advanceEntry env taskId head body
    let further ← advanceHeads env heads (changed.getD body)
    return further.or changed

/-! ## The durable state -/

structure FloorSystem where
  db : Store
  floor : Option FloorBody
  commits : List Store

def FloorSystem.entry (s : FloorSystem) (taskId : String) : Option (String × Int) :=
  s.floor.bind fun body => Assoc.get? body.tasks taskId

/-- `audit_event_hash`. -/
def Store.auditEventHash (store : Store) (taskId : String) (index : Int) : Option String :=
  if 0 ≤ index then ((store.auditEvents taskId)[index.toNat]?).map (·.hash) else none

/-- A host with a floor. `verifies` is the verdict of `verify_audit_chain_status`. -/
structure FloorHost where
  host : AgentHost
  verifies : Store → String → Bool

abbrev FloorCode := Durable FloorSystem Fault

def commitDb (db : Store) : FloorCode Unit := do
  let s ← Durable.read
  Durable.write { s with db, commits := s.commits ++ [db] }

/-- `set_audit_floor_marker`. -/
def setFloorMarker (hostId : String) (epoch : Int) (pending : Bool) : FloorCode Unit := do
  let s ← Durable.read
  commitDb { s.db with floorMarkers := Function.update s.db.floorMarkers hostId (some (epoch, pending)) }

/-- `LocalFloorWitness._write`. -/
def writeFloor (body : FloorBody) : FloorCode Unit := do
  Durable.lift body.validate
  let s ← Durable.read
  Durable.write { s with floor := some body }

/-- `load`, for a caller that needs the file. -/
def loadFloor : FloorCode FloorBody := do
  let s ← Durable.read
  match s.floor with
  | none => Durable.lift (.error (.floor "floor-missing" "audit floor is missing"))
  | some body => pure body

/-- `LocalFloorWitness._update`. -/
def updateFloor (mutate : FloorBody → Except Fault (Option FloorBody)) : FloorCode Unit := do
  let body ← loadFloor
  let changed ← Durable.lift (mutate body)
  match changed with
  | none => pure ()
  | some body => writeFloor body

/-! ## A save -/

def AgentHost.logEvents (host : AgentHost) (head : String) (startSequence : Int) (entries : List (String × Dict)) :
    Except Fault AuditLog :=
  entries.foldlM (fun log entry => host.appendEvent log entry.1 entry.2) ⟨head, startSequence, host.hostId, []⟩

/-- `check_head` of the floor, and the rule for a chain it has never witnessed. -/
def FloorHost.checkHead (fh : FloorHost) (body : FloorBody) (db : Store) (taskId : String) : Except Fault Unit := do
  let witnessed := Assoc.get? body.tasks taskId
  let task := fh.host.env.repr taskId
  (compareHead witnessed (db.transactionAuditHead taskId) (db.auditEventHash taskId)).refuse
    s!"task {task}: the database is OLDER than the audit floor (rolled back)"
    s!"task {task}: the database diverges from the audit floor (forked)"
  require (witnessed.isSome || (db.transactionAuditHead taskId).isNone || fh.verifies db taskId)
    s!"task {task} is not in the audit floor and its chain does not verify; refusing to witness it"

def advancedFloor (db : Store) (signedAt : Int) : Option Int :=
  if signedAt - Store.timeFloorCadenceSeconds < db.timeFloor then none else some signedAt

def witnessTime : Option Int → FloorCode Unit
  | none => pure ()
  | some floorAt => updateFloor (raiseTimeFloor floorAt)

def FloorHost.witnessHead (fh : FloorHost) (taskId : String) : Option (String × Int) → FloorCode Unit
  | none => pure ()
  | some head => updateFloor (advanceHeads fh.host.env [(taskId, head)])

/-- `_persist` of a host with a floor: the floor is raised last, right before the commit. -/
def FloorHost.persist (fh : FloorHost) (save : Save) (signedAt : Int) : FloorCode Int := do
  let body ← loadFloor
  let s ← Durable.read
  Durable.lift (fh.checkHead body s.db save.taskId)
  let (generation, db) ← Durable.lift (s.db.save fh.host save signedAt)
  witnessTime (advancedFloor s.db signedAt)
  fh.witnessHead save.taskId (db.transactionAuditHead save.taskId)
  commitDb db
  return generation

def FloorHost.save (fh : FloorHost) (save : Save) (head : String) (startSequence : Int) (entries : List (String × Dict))
    (signedAt : Int) : FloorCode Int := do
  let log ← Durable.lift (fh.host.logEvents head startSequence entries)
  fh.persist { save with events := log.events, auditHead := log.head } signedAt

/-! ## The start of a host -/

def FloorHost.openFloor (fh : FloorHost) (registry : Option (Int × String)) : FloorCode FloorBody := do
  let s ← Durable.read
  match s.floor, s.db.floorMarkers fh.host.hostId with
  | none, some (_, false) => Durable.lift (.error (.floor "floor-missing"
      "audit floor is missing but this database recorded it; refusing to rebuild it"))
  | none, marker => do
    -- first run, or a crash before the floor was written
    let epoch := (marker.map Prod.fst).getD 1
    setFloorMarker fh.host.hostId epoch true
    writeFloor ⟨epoch, registry, [], 0⟩
    setFloorMarker fh.host.hostId epoch false
    loadFloor
  | some _, none => Durable.lift (.error (.floor "db-older-than-floor"
      "an audit floor exists but this database has no record of it"))
  | some body, some (epoch, pending) =>
    if epoch ≠ body.epoch then
      Durable.lift (.error (.floor "epoch-mismatch" "audit floor epoch does not match this database's epoch"))
    else if pending then do
      setFloorMarker fh.host.hostId epoch false
      pure body
    else pure body

def compareAll (env : Env) (body : FloorBody) (db : Store) : Except Fault Unit :=
  (Assoc.items body.tasks).forM fun entry =>
    (compareHead (some entry.2) (db.auditHead entry.1) (db.auditEventHash entry.1)).refuse
      s!"task {env.repr entry.1}: the database is OLDER than the audit floor"
      s!"task {env.repr entry.1}: the database is diverged from the audit floor"

/-- `audit_heads_for_host`, less what the floor has already seen. -/
def FloorHost.candidates (fh : FloorHost) (body : FloorBody) (db : Store) : List (String × String × Int) :=
  (Assoc.items db.auditHeads).filterMap fun entry =>
    if entry.2.hostId = fh.host.hostId ∧
        (Assoc.get? body.tasks entry.1).all (fun witnessed => decide (witnessed.2 < entry.2.sequence)) = true then
      some (entry.1, entry.2.headHash, entry.2.sequence)
    else none

/-- `open_audit_floor`. -/
def FloorHost.openAuditFloor (fh : FloorHost) (registry : Option (Int × String)) : FloorCode Unit := do
  let body ← fh.openFloor registry
  Durable.lift (checkRegistryAgainst body.registry registry)
  updateFloor (advanceRegistry registry)
  let s ← Durable.read
  Durable.lift (compareAll fh.host.env body s.db)
  let adopt := fh.candidates body s.db
  if adopt.any fun entry => !fh.verifies s.db entry.1 || s.db.auditHead entry.1 != some entry.2 then
    Durable.lift (.error (.floor "unverified-head"
      "refusing to start: these heads are not in the audit floor and cannot be verified"))
  else if adopt.isEmpty then pure ()
  else updateFloor (advanceHeads fh.host.env adopt)

/-! ## Runs -/

/-- What happens to the durable state. A process stops after `crash` durable writes, if it does. -/
inductive FloorEvent where
  | boot (registry : Option (Int × String)) (crash : Option Nat)
  | save (save : Save) (head : String) (startSequence : Int) (entries : List (String × Dict)) (signedAt : Int)
      (crash : Option Nat)
  | restore (snapshot : Nat)

/-- The state that code leaves, stopped after `crash` of its writes. -/
def leave {α : Type} (code : FloorCode α) (s : FloorSystem) (crash : Option Nat) : FloorSystem :=
  match crash with
  | none => code.final s
  | some writes => ((code s).1.take writes).getLastD s

def FloorHost.step (fh : FloorHost) (s : FloorSystem) : FloorEvent → FloorSystem
  | .boot registry crash => leave (fh.openAuditFloor registry) s crash
  | .save save head startSequence entries signedAt crash =>
    leave (fh.save save head startSequence entries signedAt) s crash
  | .restore snapshot =>
    match s.commits[snapshot]? with
    | some db => { s with db }
    | none => s

def FloorHost.run (fh : FloorHost) (s : FloorSystem) (events : List FloorEvent) : FloorSystem := events.foldl fh.step s

end Portmark.Host
