/-
One copy of a host and its witness. Saves run one at a time: each sends one advance on the receipt
the database committed last, and commits the receipt that comes back or rolls back. Requests and
answers may be lost, delayed and reordered; none is duplicated or forged.
-/
import Portmark.Witness.Boot
import Portmark.Witness.Monotone
import Portmark.Witness.Wire

namespace Portmark.Witness

open Lib Lib.Json Security

/-! ## The host and the network -/

structure Save where
  id : Nat
  base : Nat
  body : AdvanceBody
  payload : Text

structure Site where
  db : Db
  receipt : Option (Int × String)
  heads : String → Option Head
  registry : Option Registry
  begun : Nat
  commits : Nat
  saving : Option Save
  network : List Save
  reached : List Nat
  answers : List (Nat × Nat × Text)

def Site.start : Site :=
  { db := .empty, receipt := none, heads := fun _ => none, registry := none, begun := 0, commits := 0, saving := none,
    network := [], reached := [], answers := [] }

inductive Event where
  | save (heads : Assoc Head) (registry : Option Registry) (timeFloor : Int)
  | deliver (i : Nat) (globalToken signerToken : Bool) (now : Int)
  | receive (i : Nat)
  | rollBack
  | loseRequest (i : Nat)
  | loseAnswer (i : Nat)
  | foreign (request : Request)

def Site.mayOffer (site : Site) (heads : Assoc Head) (registry : Option Registry) (timeFloor : Int) : Bool :=
  decide (Assoc.keys heads).Nodup &&
    heads.all (fun e => fitsInt64 e.2.sequence && (site.heads e.1).all fun h => decide (h.Le e.2)) &&
    registry.all (fun r => fitsInt64 r.version) && decide (registryLe site.registry registry) && fitsInt64 timeFloor

section Site

variable (svc : Service) (c : Client) (hostId : String)

def Service.leaves (request : Request) : Bool :=
  match svc.admit request with
  | .ok (_, _, .advance b) => b.hostId != hostId
  | .ok (_, _, .rebaseline b) => b.hostId != hostId
  | _ => true

def Site.delivers (site : Site) : Event → Option (Save × Request)
  | .deliver i globalToken signerToken now =>
    if fitsInt64 now then
      site.network[i]?.map fun save =>
        (save, { path := "/v1/advance", raw := some save.payload, globalToken, signerToken, now })
    else none
  | _ => none

def Site.step (site : Site) (event : Event) : Option Site :=
  match event with
  | .save heads registry timeFloor =>
    let body := nextAdvance hostId site.receipt heads registry timeFloor
    if site.saving.isNone && site.mayOffer heads registry timeFloor then
      match c.payload svc.world (c.advanceBody body) with
      | .error _ => some site
      | .ok payload =>
        let save : Save := { id := site.begun, base := site.commits, body, payload }
        some { site with begun := site.begun + 1, saving := some save, network := site.network ++ [save] }
    else none
  | .deliver i _ _ _ =>
    (site.delivers event).map fun (save, request) =>
      let (db, reply) := svc.handle site.db request
      { site with
        db
        network := site.network.eraseIdx i
        reached := save.id :: site.reached
        answers := site.answers ++ ((reply.wire svc.world).map fun (status, text) => (save.id, status, text)).toList }
  | .receive i =>
    match site.saving, site.answers[i]? with
    | some save, some (id, status, text) =>
      if id = save.id then
        match c.storedReceipt svc.world save.body status text with
        | .error _ => some { site with saving := none, answers := site.answers.eraseIdx i }
        | .ok receipt =>
          -- the receipt is stored in the transaction of the save
          if fitsInt64 receipt.1 then
            some { site with
              receipt := some receipt
              heads := fun task => (Assoc.get? save.body.heads task).or (site.heads task)
              registry := save.body.registry
              commits := site.commits + 1
              saving := none
              answers := site.answers.eraseIdx i }
          else some { site with saving := none, answers := site.answers.eraseIdx i }
      else none
    | _, _ => none
  | .rollBack => some { site with saving := none }
  | .loseRequest i => some { site with network := site.network.eraseIdx i }
  | .loseAnswer i => some { site with answers := site.answers.eraseIdx i }
  | .foreign request => if svc.leaves hostId request then some
    { site with db := (svc.handle site.db request).1 } else none

/-- Something holds whenever a request reaches the witness, over a run of events. -/
def EachDelivery (P : Site → Save → Request → Prop) : Site → List Event → Prop
  | _, [] => True
  | site, event :: events =>
    (∀ delivery ∈ site.delivers event, P site delivery.1 delivery.2) ∧
      ∀ site' ∈ site.step svc c hostId event, EachDelivery P site' events

def Site.run : Site → List Event → Option Site
  | site, [] => some site
  | site, event :: events => (site.step svc c hostId event).bind fun site' => Site.run site' events

def Site.hashed (site : Site) (event : Event) : List Text :=
  match event, site.delivers event with
  | _, some (_, request) => svc.hashed site.db request
  | .foreign request, none => svc.hashed site.db request
  | _, none => []

def Site.hashedIn : Site → List Event → List Text
  | _, [] => []
  | site, event :: events =>
    site.hashed svc event ++
      match site.step svc c hostId event with
      | some site' => Site.hashedIn site' events
      | none => []

end Site

/-- The witness accepts the advance or answers it again; at any rate it does not refuse it as rolled back or forked.
-/
structure Welcome (svc : Service) (db : Db) (request : Request) : Prop where
  accepted : ∀ signer raw b s, svc.admit request = .ok (signer, raw, .advance b) → db.hostState b.hostId = .ok s →
    ∀ refusal, decideAdvance svc.world.env s b (digest svc.world (.dict raw)) (db.heads b.hostId) (db.known b.hostId) ≠
      .refuse refusal
  code : ∀ status refusal document, (svc.handle db request).2 = .refused status refusal document →
    refusal.code ≠ rolledBack ∧ refusal.code ≠ forked

/-- No save has been committed since this one began, and another one that waits has not reached the witness. -/
def InTime (site : Site) (save : Save) : Prop :=
  save.base = site.commits ∧ ∀ waiting ∈ site.saving, waiting.id = save.id ∨ waiting.id ∉ site.reached

instance (site : Site) (save : Save) : Decidable (InTime site save) := inferInstanceAs (Decidable (_ ∧ _))

instance decidableEachDelivery (svc : Service) (c : Client) (hostId : String) (P : Site → Save → Request → Prop)
    [∀ site save request, Decidable (P site save request)] :
    (site : Site) → (events : List Event) → Decidable (EachDelivery svc c hostId P site events)
  | _, [] => isTrue trivial
  | _, _ :: events =>
    have : ∀ site', Decidable (EachDelivery svc c hostId P site' events) := fun site' =>
      decidableEachDelivery svc c hostId P site' events
    inferInstanceAs (Decidable (_ ∧ _))

/-- What a run of saves makes the witness hash has no two texts with one digest. -/
def SavesCollisionFree (svc : Service) (c : Client) (hostId : String) (events : List Event) : Prop :=
  Set.InjOn svc.world.sha256 {text | text ∈ Site.hashedIn svc c hostId .start events}

theorem savesCollisionFree_of_nodup {svc : Service} {c : Client} {hostId : String} {events : List Event}
    (h : ((Site.hashedIn svc c hostId .start events).map svc.world.sha256).Nodup) :
    SavesCollisionFree svc c hostId events :=
  fun _ hx _ hy hxy => List.inj_on_of_nodup_map h hx hy hxy

/-! ## A late request -/

def Reply.code : Reply → Option String
  | .refused _ refusal _ => some refusal.code
  | _ => none

def refusedWith (svc : Service) (c : Client) (hostId : String) (events : List Event) (event : Event) : Option String :=
  (Site.run svc c hostId .start events).bind fun site =>
    (site.delivers event).bind fun delivery => (svc.handle site.db delivery.2).2.code

def lateEvents : List Event :=
  [.save [] none 0, .rollBack, .save [] none 1, .deliver 1 true true 7, .receive 0, .deliver 0 true true 7,
    .save [] none 2]

theorem EachDelivery.at {svc : Service} {c : Client} {hostId : String} {P : Site → Save → Request → Prop} :
    ∀ (before : List Event) {site site' : Site} {event : Event} {after : List Event},
      EachDelivery svc c hostId P site (before ++ event :: after) → Site.run svc c hostId site before = some site' →
      ∀ delivery ∈ site'.delivers event, P site' delivery.1 delivery.2
  | [], _, _, _, _, h, hrun => by
    cases hrun
    exact h.1
  | _ :: before, _, _, _, _, h, hrun => by
    obtain ⟨site, hstep, hrun⟩ := Option.bind_eq_some_iff.1 hrun
    exact EachDelivery.at before (h.2 site hstep) hrun

/-- A host whose saves run one at a time is refused as forked after a request of its own came late. -/
theorem late_request_forks :
    SavesCollisionFree smallService (smallClient "a") "a" (lateEvents ++ [.deliver 0 true true 7]) ∧
    ¬ EachDelivery smallService (smallClient "a") "a" (fun site _ request =>
      Welcome smallService site.db request) .start
      (lateEvents ++ [.deliver 0 true true 7]) := by
  have heval : refusedWith smallService (smallClient "a") "a" lateEvents (.deliver 0 true true 7) = some forked ∧
      ((Site.hashedIn smallService (smallClient "a") "a" .start (lateEvents ++ [.deliver 0 true true 7])).map
        smallService.world.sha256).Nodup := by
    decide +kernel
  obtain ⟨hcode, hnodup⟩ := heval
  refine ⟨savesCollisionFree_of_nodup hnodup, fun h => ?_⟩
  obtain ⟨site, hrun, hcode⟩ := Option.bind_eq_some_iff.1 hcode
  obtain ⟨delivery, hdelivers, hcode⟩ := Option.bind_eq_some_iff.1 hcode
  have hwelcome := EachDelivery.at lateEvents h hrun delivery hdelivers
  cases hreply : (smallService.handle site.db delivery.2).2 with
  | refused status refusal document =>
    rw [hreply] at hcode
    exact (hwelcome.code status refusal document hreply).2 (Option.some.inj hcode)
  | answer | raised =>
    rw [hreply] at hcode
    cases hcode

end Portmark.Witness
