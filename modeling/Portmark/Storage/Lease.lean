/-
Runs of outbox calls by any number of workers and the operator, and the leases the workers hold in
them. A worker knows a lease from the answer of its claim; it holds it until it gives the row up or
the row is deleted, and the lease counts while the clock is before its expiry. The rules are proved
from what a call may do to a row, for both stores at once.
-/
import Portmark.Security.Narrow
import Portmark.Storage.OutboxLaw

namespace Portmark.Storage

open Lib Lib.Json Host List

/-! ## Runs -/

structure TimedCall where
  call : OutboxCall
  moment : Int
  now : Int

/-- The clock never goes back, and a reading is one that it has shown. -/
def Timely : Int → List TimedCall → Prop
  | _, [] => True
  | clock, c :: calls => clock ≤ c.now ∧ c.moment ≤ c.now ∧ Timely c.now calls

instance Timely.decidable : ∀ (clock : Int) (calls : List TimedCall), Decidable (Timely clock calls)
  | _, [] => isTrue trivial
  | clock, c :: calls =>
    have := Timely.decidable c.now calls
    inferInstanceAs (Decidable (clock ≤ c.now ∧ c.moment ≤ c.now ∧ Timely c.now calls))

def clockAfter (clock : Int) (calls : List TimedCall) : Int := calls.foldl (fun _ c => c.now) clock

structure Lease where
  workerId : String
  expiry : Int
deriving DecidableEq

def leasesOn (taskId : String) : OutboxCall → OutboxOutcome → List Lease
  | .claimMigrations workerId _ _, .ok (.claimed rows) =>
    (rows.filter fun p => p.1 = taskId).filterMap fun p => p.2.row.leaseExpiresAt.map (⟨workerId, ·⟩)
  | _, _ => []

def givenUp : OutboxCall → OutboxOutcome → Option (String × String)
  | .releaseMigration taskId workerId, .ok (.answer true) => some (taskId, workerId)
  | .deadLetterMigration taskId workerId _, .ok (.answer true) => some (taskId, workerId)
  | _, _ => none

def heldAfter (call : OutboxCall) (outcome : OutboxOutcome) (taskId : String) (row : Option OutboxEntry)
    (held : List Lease) : List Lease :=
  if row.isNone then []
  else leasesOn taskId call outcome ++ held.filter fun l => givenUp call outcome ≠ some (taskId, l.workerId)

def OutboxCall.scope : OutboxCall → Option (String × String)
  | .recordMigrationAttempt taskId (some workerId) => some (taskId, workerId)
  | .releaseMigration taskId workerId => some (taskId, workerId)
  | .deadLetterMigration taskId workerId _ => some (taskId, workerId)
  | _ => none

namespace OutboxBackend

variable (B : OutboxBackend)

structure Delivery where
  store : B.Store
  held : String → List Lease

variable {B}

def Delivery.step (d : B.Delivery) (c : TimedCall) : B.Delivery :=
  let answered := B.call c.call c.moment d.store
  ⟨answered.2, fun taskId => heldAfter c.call answered.1 taskId (B.rows answered.2 taskId) (d.held taskId)⟩

variable (B)

def deliver (calls : List TimedCall) : B.Delivery := calls.foldl Delivery.step ⟨B.new, fun _ => []⟩

def rowsAfter (calls : List TimedCall) : String → Option OutboxEntry := B.rows (B.deliver calls).store

theorem deliver_append (calls : List TimedCall) (c : TimedCall) :
    B.deliver (calls ++ [c]) = (B.deliver calls).step c := by
  unfold deliver
  rw [foldl_append]
  rfl

end OutboxBackend

/-! ## One call -/

theorem mem_heldAfter {call : OutboxCall} {outcome : OutboxOutcome} {taskId : String} {row : Option OutboxEntry}
    {held : List Lease} {l : Lease} (h : l ∈ heldAfter call outcome taskId row held) : (∃ e, row = some e) ∧
      (l ∈ leasesOn taskId call outcome ∨ l ∈ held ∧ givenUp call outcome ≠ some (taskId, l.workerId)) := by
  unfold heldAfter at h
  cases row with
  | none => simp at h
  | some e =>
    simpa [mem_filter] using h

theorem mem_leasesOn {taskId : String} {call : OutboxCall} {outcome : OutboxOutcome} {l : Lease}
    (h : l ∈ leasesOn taskId call outcome) :
    ∃ leaseSeconds limit rows e, call = .claimMigrations l.workerId leaseSeconds limit ∧ outcome = .ok (.claimed rows) ∧
      (taskId, e) ∈ rows ∧ e.row.leaseExpiresAt = some l.expiry := by
  unfold leasesOn at h
  split at h
  · rename_i workerId leaseSeconds limit rows
    obtain ⟨p, hp, hl⟩ := mem_filterMap.1 h
    obtain ⟨hmem, hkey⟩ := mem_filter.1 hp
    obtain ⟨expiry, hexpiry, rfl⟩ := Option.map_eq_some_iff.1 hl
    simp only [decide_eq_true_eq] at hkey
    exact ⟨leaseSeconds, limit, rows, p.2, rfl, rfl, hkey ▸ hmem, hexpiry⟩
  · cases h

def Paired (row : OutboxRow) : Prop := row.claimedBy.isSome = true → row.leaseExpiresAt.isSome = true

theorem isLiveHolder_iff {row : OutboxRow} {workerId : String} {moment : Int} (h : Paired row) :
    Store.isLiveHolder row workerId moment = true ↔
      row.claimedBy = some workerId ∧ ∃ expiry, row.leaseExpiresAt = some expiry ∧ moment < expiry := by
  unfold Store.isLiveHolder
  simp only [Bool.and_eq_true, beq_iff_eq, decide_eq_true_eq]
  constructor
  · rintro ⟨hby, hlt⟩
    obtain ⟨expiry, hexpiry⟩ := Option.isSome_iff_exists.1 (h (by rw [hby]; rfl))
    rw [hexpiry] at hlt
    exact ⟨hby, expiry, hexpiry, hlt⟩
  · rintro ⟨hby, expiry, hexpiry, hlt⟩
    rw [hexpiry]
    exact ⟨hby, hlt⟩

def Shows (l : Lease) (row : Option OutboxEntry) : Prop :=
  ∃ e, row = some e ∧ e.row.claimedBy = some l.workerId ∧ e.row.leaseExpiresAt = some l.expiry ∧ e.row.status ≠ .dead

section Change

variable {call : OutboxCall} {moment : Int} {outcome : OutboxOutcome} {taskId : String}
  {before after : Option OutboxEntry}

theorem Change.paired (h : Change call moment outcome taskId before after) (hb : ∀ e, before = some e → Paired e.row) :
    ∀ e, after = some e → Paired e.row := by
  intro e' he'
  cases h with
  | kept => exact hb e' he'
  | claimed _ _ =>
    cases he'
    exact fun _ => rfl
  | @counted _ e _ _ | @delivered _ _ e _ =>
    cases he'
    exact hb e rfl
  | released | buried | requeued | entered =>
    cases he'
    intro h
    cases h
  | pruned => cases he'

section

variable (h : Change call moment outcome taskId before after)

include h

/-- A lease that is in force at the reading is not taken away by a call, unless its worker gives the
row up or the row is deleted. -/
theorem Change.shows {l : Lease} (hb : Shows l before)
    (hforce : moment < l.expiry) (hkeeps : givenUp call outcome ≠ some (taskId, l.workerId)) (hthere : after ≠ none) :
    Shows l after := by
  obtain ⟨e, rfl, hby, hexpiry, hdead⟩ := hb
  have hsame : ∀ {w}, Store.isLiveHolder e.row w moment = true → w = l.workerId := by
    intro w hw
    simp only [Store.isLiveHolder, Bool.and_eq_true, beq_iff_eq] at hw
    exact Option.some.inj (hw.1.symm.trans hby)
  cases h with
  | kept => exact ⟨e, rfl, hby, hexpiry, hdead⟩
  | claimed _ hmay =>
    -- the row is claimed by `l.workerId` and its lease has not run out
    simp only [OutboxEntry.claimable, hby, hexpiry, Bool.and_eq_true, Bool.or_eq_true, beq_iff_eq, reduceCtorEq,
      Option.getD_some, decide_eq_true_eq, false_or] at hmay
    omega
  | counted => exact ⟨e.counted, rfl, hby, hexpiry, hdead⟩
  | released hcall hlive hanswer | buried hcall hlive _ hanswer =>
    subst hcall hanswer
    exact absurd (by rw [givenUp, hsame hlive]) hkeeps
  | requeued _ hd => exact absurd hd hdead
  | delivered _ => exact ⟨_, rfl, hby, hexpiry, by simp [OutboxEntry.delivered]⟩
  | pruned => exact absurd rfl hthere

/-- A call scoped to a worker changes the row of its task, and only for a worker that holds it. -/
theorem Change.scoped {scopeTask workerId : String}
    (hscope : call.scope = some (scopeTask, workerId)) (hchanged : after ≠ before) :
    taskId = scopeTask ∧ ∃ e, before = some e ∧ Store.isLiveHolder e.row workerId moment = true := by
  cases h with
  | kept => exact absurd rfl hchanged
  | claimed hcall | requeued hcall | delivered hcall | pruned hcall | entered hcall =>
    subst hcall
    cases hscope
  | @counted w e hcall hlive =>
    subst hcall
    cases w with
    | none => cases hscope
    | some =>
      cases hscope
      exact ⟨rfl, e, rfl, hlive _ rfl⟩
  | @released _ e hcall hlive _ | @buried _ _ e hcall hlive _ _ =>
    subst hcall
    cases hscope
    exact ⟨rfl, e, rfl, hlive⟩

theorem Change.delivered_stays (hb : ∃ e, before = some e ∧ e.row.status = .delivered) :
    (∃ e, after = some e ∧ e.row.status = .delivered) ∨ after = none := by
  obtain ⟨e, rfl, hd⟩ := hb
  cases h with
  | kept => exact .inl ⟨e, rfl, hd⟩
  | claimed _ hmay => simp [OutboxEntry.claimable, hd] at hmay
  | counted _ _ | released _ _ _ => exact .inl ⟨_, rfl, hd⟩
  | buried _ _ hp =>
    rw [hd] at hp
    cases hp
  | requeued _ hdead =>
    rw [hd] at hdead
    cases hdead
  | delivered _ => exact .inl ⟨_, rfl, rfl⟩
  | pruned => exact .inr rfl

theorem Change.dead_stays (hb : ∃ e, before = some e ∧ e.row.status = .dead) :
    (∃ e, after = some e ∧ e.row.status = .dead) ∨ call = .requeueMigration taskId ∨
      ∃ receiptJson deliveredAt, call = .markMigrationDelivered taskId receiptJson deliveredAt := by
  obtain ⟨e, rfl, hd⟩ := hb
  cases h with
  | kept => exact .inl ⟨e, rfl, hd⟩
  | claimed _ hmay => simp [OutboxEntry.claimable, hd] at hmay
  | counted _ _ | released _ _ _ => exact .inl ⟨_, rfl, hd⟩
  | buried _ _ _ _ => exact .inl ⟨_, rfl, rfl⟩
  | requeued hcall => exact .inr (.inl hcall)
  | delivered hcall => exact .inr (.inr ⟨_, _, hcall⟩)
  | pruned _ hout => simp [Store.outboxEligible, hd] at hout

/-- The destination and the envelope of a row stay, or the row is deleted. -/
theorem Change.envelope_stays {destination : String} {envelope : Text}
    (hb : ∃ e, before = some e ∧ e.row.destination = destination ∧ e.row.sealedEnvelope = envelope) :
    (∃ e, after = some e ∧ e.row.destination = destination ∧ e.row.sealedEnvelope = envelope) ∨ after = none := by
  obtain ⟨e, rfl, hd⟩ := hb
  cases h with
  | kept => exact .inl ⟨e, rfl, hd⟩
  | claimed _ _ | counted _ _ | released _ _ _ | buried _ _ _ _ | requeued _ _ | delivered _ => exact .inl ⟨_, rfl, hd⟩
  | pruned => exact .inr rfl

end

end Change

/-! ## Whole runs -/

namespace OutboxBackend

variable {B : OutboxBackend}

/-- What holds of a run's outbox and its leases when the clock shows `clock`. -/
structure Sound (clock : Int) (d : B.Delivery) : Prop where
  valid : B.Valid d.store
  paired : ∀ taskId e, B.rows d.store taskId = some e → Paired e.row
  shown : ∀ taskId, ∀ l ∈ d.held taskId, clock < l.expiry → Shows l (B.rows d.store taskId)

theorem Lawful.sound_step (law : B.Lawful) {clock : Int} {d : B.Delivery} {c : TimedCall} (h : Sound clock d)
    (hclock : clock ≤ c.now) (hmoment : c.moment ≤ c.now) : Sound c.now (d.step c) := by
  have heffect : Effect c.call c.moment _ _ _ := law.effect h.valid
  refine ⟨law.valid_call h.valid, ?_, ?_⟩
  · intro taskId
    exact (heffect.change taskId).paired fun e he => h.paired taskId e he
  · intro taskId l hl hforce
    obtain ⟨⟨e, he⟩, hnew | ⟨hold, hkeeps⟩⟩ := mem_heldAfter hl
    · -- a new lease is what the row now shows
      obtain ⟨leaseSeconds, limit, rows, e', hcall, houtcome, hmem, hexpiry⟩ := mem_leasesOn hnew
      obtain ⟨w, ls, lim, hcall', -, hrows⟩ := heffect.granted rows houtcome
      rw [hcall] at hcall'
      cases hcall'
      obtain ⟨e₀, -, hmay, hgrant, hafter⟩ := hrows _ hmem
      have hpending : e₀.row.status = .pending := by
        simp only [OutboxEntry.claimable, Bool.and_eq_true, beq_iff_eq] at hmay
        exact hmay.1
      simp only at hgrant hafter
      refine ⟨e', hafter, ?_, hexpiry, ?_⟩
      · rw [hgrant]
        rfl
      · rw [hgrant]
        simp [OutboxEntry.grant, hpending]
    · have hshown := h.shown taskId l hold (by omega)
      exact (heffect.change taskId).shows hshown (by omega) hkeeps (by rw [he]; simp)

theorem Lawful.sound_run (law : B.Lawful) : ∀ (calls : List TimedCall) {clock : Int} {d : B.Delivery}, Sound clock d →
    Timely clock calls → Sound (clockAfter clock calls) (calls.foldl Delivery.step d)
  | [], _, _, h, _ => h
  | _ :: calls, _, _, h, ht => Lawful.sound_run law calls (law.sound_step h ht.1 ht.2.1) ht.2.2

variable {start : Int}

theorem Lawful.sound (law : B.Lawful) {calls : List TimedCall} (ht : Timely start calls) :
    Sound (clockAfter start calls) (B.deliver calls) := by
  refine law.sound_run calls ⟨law.valid_new, ?_, ?_⟩ ht
  · intro taskId e he
    rw [law.rows_new] at he
    cases he
  · rintro taskId l ⟨⟩

theorem timely_of_append : ∀ {before after : List TimedCall} {clock : Int}, Timely clock (before ++ after) →
    Timely clock before
  | [], _, _, _ => trivial
  | _ :: _, _, _, h => ⟨h.1, h.2.1, timely_of_append h.2.2⟩

theorem Lawful.change_of_run (law : B.Lawful) {before : List TimedCall} {c : TimedCall}
    (ht : Timely start before) (taskId : String) : ∃ outcome,
      Change c.call c.moment outcome taskId (B.rowsAfter before taskId) (B.rowsAfter (before ++ [c]) taskId) := by
  refine ⟨(B.call c.call c.moment (B.deliver before).store).1, ?_⟩
  unfold rowsAfter
  rw [deliver_append]
  exact (law.effect (law.sound ht).valid).change taskId

/-- What every call keeps of a row, or stops with, a run keeps or stops with. -/
theorem Lawful.keeps (law : B.Lawful) {taskId : String} {P : Option OutboxEntry → Prop}
    (stop : OutboxCall → Option OutboxEntry → Prop)
    (hstep : ∀ {call moment outcome before after}, Change call moment outcome taskId before after → P before →
      P after ∨ stop call after) :
    ∀ (after before : List TimedCall), Timely start (before ++ after) → P (B.rowsAfter before taskId) →
      P (B.rowsAfter (before ++ after) taskId) ∨
        ∃ mid c rest, after = mid ++ c :: rest ∧ stop c.call (B.rowsAfter (before ++ mid ++ [c]) taskId)
  | [], before, _, h => by
    left
    simpa using h
  | c :: after, before, ht, h => by
    obtain ⟨outcome, hchange⟩ := law.change_of_run (c := c) (timely_of_append ht) taskId
    rcases hstep hchange h with hkept | hstop
    · have hassoc : before ++ c :: after = before ++ [c] ++ after := by simp
      rw [hassoc] at ht ⊢
      rcases law.keeps stop hstep after (before ++ [c]) ht hkept with hend | ⟨mid, c', rest, rfl, hstop⟩
      · exact .inl hend
      · exact .inr ⟨c :: mid, c', rest, rfl, by simpa using hstop⟩
    · exact .inr ⟨[], c, after, rfl, by simpa using hstop⟩

variable (B)

structure LeaseRules (start : Int) (calls : List TimedCall) : Prop where
  exclusive : ∀ taskId, ∀ l ∈ (B.deliver calls).held taskId, ∀ l' ∈ (B.deliver calls).held taskId, ∀ time,
    clockAfter start calls ≤ time → time < l.expiry → time < l'.expiry → l.workerId = l'.workerId
  byHolder : ∀ before c after, calls = before ++ c :: after →
    ∀ taskId workerId, c.call.scope = some (taskId, workerId) →
    ∀ k, B.rowsAfter (before ++ [c]) k ≠ B.rowsAfter before k → k = taskId ∧ ∃ e expiry,
      B.rowsAfter before taskId = some e ∧ e.row.claimedBy = some workerId ∧ e.row.leaseExpiresAt = some expiry ∧
        c.moment < expiry
  delivered : ∀ before after, calls = before ++ after → ∀ taskId,
    (∃ e, B.rowsAfter before taskId = some e ∧ e.row.status = .delivered) →
      (∃ e, B.rowsAfter calls taskId = some e ∧ e.row.status = .delivered) ∨
        ∃ mid c rest, after = mid ++ c :: rest ∧ B.rowsAfter (before ++ mid ++ [c]) taskId = none
  dead : ∀ before after, calls = before ++ after → ∀ taskId,
    (∃ e, B.rowsAfter before taskId = some e ∧ e.row.status = .dead) →
      (∃ e, B.rowsAfter calls taskId = some e ∧ e.row.status = .dead) ∨
        ∃ c ∈ after, c.call = .requeueMigration taskId ∨
          ∃ receiptJson deliveredAt, c.call = .markMigrationDelivered taskId receiptJson deliveredAt
  envelope : ∀ before after, calls = before ++ after → ∀ taskId e, B.rowsAfter before taskId = some e →
    (∃ e', B.rowsAfter calls taskId = some e' ∧ e'.row.destination = e.row.destination ∧
        e'.row.sealedEnvelope = e.row.sealedEnvelope) ∨
      ∃ mid c rest, after = mid ++ c :: rest ∧ B.rowsAfter (before ++ mid ++ [c]) taskId = none

variable {B}

theorem Lawful.leaseRules (law : B.Lawful) {calls : List TimedCall} (ht : Timely start calls) :
    B.LeaseRules start calls where
  exclusive := by
    intro taskId l hl l' hl' time hclock hforce hforce'
    have hsound := law.sound ht
    obtain ⟨e, he, hby, -, -⟩ := hsound.shown taskId l hl (by omega)
    obtain ⟨e', he', hby', -, -⟩ := hsound.shown taskId l' hl' (by omega)
    rw [he] at he'
    cases he'
    exact Option.some.inj (hby.symm.trans hby')
  byHolder := by
    rintro before c after rfl taskId workerId hscope k hchanged
    have hbefore := timely_of_append ht
    obtain ⟨outcome, hchange⟩ := law.change_of_run (c := c) hbefore k
    obtain ⟨rfl, e, he, hlive⟩ := hchange.scoped hscope hchanged
    obtain ⟨hby, expiry, hexpiry, hlt⟩ := (isLiveHolder_iff ((law.sound hbefore).paired _ e he)).1 hlive
    exact ⟨rfl, e, expiry, he, hby, hexpiry, hlt⟩
  delivered := by
    rintro before after rfl taskId h
    exact law.keeps (fun _ row => row = none) (fun hc hp => hc.delivered_stays hp) after before ht h
  dead := by
    rintro before after rfl taskId h
    rcases law.keeps (fun call _ => call = .requeueMigration taskId ∨
      ∃ receiptJson deliveredAt, call = .markMigrationDelivered taskId receiptJson deliveredAt)
      (fun hc hp => hc.dead_stays hp) after before ht h with hend | ⟨mid, c, rest, rfl, hstop⟩
    · exact .inl hend
    · exact .inr ⟨c, by simp, hstop⟩
  envelope := by
    rintro before after rfl taskId e he
    exact law.keeps (fun _ row => row = none) (fun hc hp => hc.envelope_stays hp) after before ht
      ⟨e, he, rfl, rfl⟩

end OutboxBackend

/-! ## Both stores -/

/-- In every run the leases of the outbox are exclusive and its rows keep to their rules, in the
in-memory and in the SQLite store. -/
theorem outbox_leases_exclusive (env : Security.Env) (start : Int) (calls : List TimedCall) (ht : Timely start calls) :
    (memoryOutbox env).LeaseRules start calls ∧ (sqliteOutbox env).LeaseRules start calls :=
  ⟨(memoryOutbox_lawful env).leaseRules ht, (sqliteOutbox_lawful env).leaseRules ht⟩

def takenOver : List TimedCall :=
  [⟨.enqueueMigration "task" "away" [] 1 false, 1, 1⟩, ⟨.claimMigrations "a" 10 1, 2, 3⟩,
    ⟨.claimMigrations "b" 10 1, 4, 5⟩, ⟨.releaseMigration "task" "b", 6, 6⟩, ⟨.claimMigrations "b" 30 1, 13, 20⟩,
    ⟨.recordMigrationAttempt "task" (some "a"), 9, 21⟩]

theorem outbox_leases_exclusive_taken :
    Timely 0 takenOver ∧
      ((memoryOutbox Security.plainEnv).deliver takenOver).held "task" = [⟨"b", 43⟩, ⟨"a", 12⟩] ∧
      (memoryOutbox Security.plainEnv).LeaseRules 0 takenOver ∧
        (sqliteOutbox Security.plainEnv).LeaseRules 0 takenOver :=
  ⟨by decide, by decide +kernel, outbox_leases_exclusive Security.plainEnv 0 takenOver (by decide)⟩

end Portmark.Storage
