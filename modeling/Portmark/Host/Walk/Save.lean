/-
The walk through a run, first part: what a run keeps, and its saves. `Open` is what a run keeps
while its task is open, `Active` what it keeps between two steps; every call an admitted run makes
is one its record allows.
-/
import Portmark.Host.Quiet

namespace Portmark.Host

open Lib Lib.Json Security Code

variable {host : AgentHost} {e : AgentEnvelope} {v : Visit} {l l' : Local} {s s' : Trail}

/-! ## What a run keeps -/

structure Visiting (e : AgentEnvelope) (v : Visit) (s : Trail) : Prop where
  envelope : s.envelope = some e
  manifest : v.envelope.manifest = e.manifest
  migrates : v.envelope.migrates = e.migrates
  permit : ∃ allowed, v.envelope.permit = { e.permit with delegationAllowed := allowed }
  delegation : s.ceiling.isSome = true → v.envelope.permit.delegationAllowed = false
  admission : v.admissionGeneration = (s.loaded.bind id).elim 0 (·.checkpointGeneration)
  receipt : s.receipt = none
  loaded : s.loaded.isSome = true
  asked : ∀ stored, s.loaded = some (some stored) → s.asked = true

structure CanSave (host : AgentHost) (e : AgentEnvelope) (v : Visit) (l : Local) (s : Trail) : Prop
    extends Visiting e v s where
  task : l.state.taskId = e.storedTaskId
  generation : l.state.checkpointGeneration = s.generation
  capped : Capped host s e l.authority.effective

structure Open (host : AgentHost) (e : AgentEnvelope) (v : Visit) (l : Local) (s : Trail) : Prop
    extends CanSave host e v l s where
  resumed : s.saved = false → ∃ stored, s.loaded = some (some stored) ∧ l.state.step = stored.step ∧
    l.state.toolCalls = stored.toolCalls

structure Active (host : AgentHost) (e : AgentEnvelope) (v : Visit) (l : Local) (s : Trail) : Prop
    extends CanSave host e v l s where
  policy : s.policy = some l.authority.policy
  saved : s.saved = true
  stays : l.state.status ≠ .ready

theorem Active.open_ (h : Active host e v l s) : Open host e v l s where
  toCanSave := h.toCanSave
  resumed hsaved := by
    rw [h.saved] at hsaved
    cases hsaved

theorem Active.working (h : Active host e v l s) : Working s := ⟨h.saved, h.receipt⟩

structure Steady (s s' : Trail) : Prop where
  envelope : s'.envelope = s.envelope
  receipt : s'.receipt = s.receipt
  loaded : s'.loaded = s.loaded
  ceiling : s'.ceiling = s.ceiling
  asked : s'.asked = s.asked
  generation : s'.generation = s.generation
  saved : s'.saved = s.saved
  policies : s.policies ⊆ s'.policies

theorem Steady.refl (s : Trail) : Steady s s := ⟨rfl, rfl, rfl, rfl, rfl, rfl, rfl, List.Subset.refl _⟩

theorem SoundInputs.steady (h : SoundInputs host s' e) (hs : Steady s s') : SoundInputs host s e :=
  ⟨h.permit, fun p hp => h.policies p (hs.policies hp), hs.ceiling ▸ h.ceiling⟩

theorem Capped.steady {effective : Permit} (h : Capped host s e effective) (hs : Steady s s') :
    Capped host s' e effective where
  settled hsound := h.settled (hsound.steady hs)
  component text htext := h.component text (hs.ceiling ▸ htext)
  below hsound text ceiling htext := h.below (hsound.steady hs) text ceiling (hs.ceiling ▸ htext)

theorem Visiting.steady (h : Visiting e v s) (hs : Steady s s') : Visiting e v s' where
  envelope := hs.envelope.trans h.envelope
  manifest := h.manifest
  migrates := h.migrates
  permit := h.permit
  delegation hceiling := h.delegation (hs.ceiling ▸ hceiling)
  admission := hs.loaded ▸ h.admission
  receipt := hs.receipt.trans h.receipt
  loaded := hs.loaded ▸ h.loaded
  asked stored hstored := hs.asked.trans (h.asked stored (hs.loaded ▸ hstored))

structure Near (l l' : Local) : Prop where
  taskId : l'.state.taskId = l.state.taskId
  generation : l'.state.checkpointGeneration = l.state.checkpointGeneration
  authority : l'.authority = l.authority

theorem Near.refl (l : Local) : Near l l := ⟨rfl, rfl, rfl⟩

theorem Same.near (h : Same l l') : Near l l' := ⟨h.taskId, h.generation, h.authority⟩

/-- The same, and the task is not made `ready`. -/
structure Going (l l' : Local) : Prop extends Near l l' where
  status : l.state.status ≠ .ready → l'.state.status ≠ .ready

theorem Going.refl (l : Local) : Going l l := ⟨Near.refl l, id⟩

theorem Same.going (h : Same l l') : Going l l' := ⟨h.near, h.status⟩

theorem CanSave.steady (h : CanSave host e v l s) (hl : Near l l') (hs : Steady s s') : CanSave host e v l' s' where
  toVisiting := h.toVisiting.steady hs
  task := hl.taskId.trans h.task
  generation := by rw [hl.generation, h.generation, hs.generation]
  capped := by
    rw [hl.authority]
    exact h.capped.steady hs

theorem Open.steady (h : Open host e v l s) (hl : Same l l') (hs : Steady s s') : Open host e v l' s' where
  toCanSave := h.toCanSave.steady hl.near hs
  resumed hsaved := by
    obtain ⟨stored, hstored, hstep, hcalls⟩ := h.resumed (hs.saved ▸ hsaved)
    exact ⟨stored, hs.loaded ▸ hstored, hl.step.trans hstep, hl.toolCalls.trans hcalls⟩

theorem Active.steady (h : Active host e v l s) (hl : Going l l') (hs : Steady s s') (hp : s'.policy = s.policy) :
    Active host e v l' s' where
  toCanSave := h.toCanSave.steady hl.toNear hs
  policy := by rw [hp, h.policy, hl.authority]
  saved := hs.saved.trans h.saved
  stays := hl.status h.stays

/-! ## Saving -/

structure FirstAllowed (host : AgentHost) (e : AgentEnvelope) (l : Local) (s : Trail) (first : FirstSave) : Prop where
  nonce : s.saved = false → s.loaded = some none → first.nonce = some (AgentHost.permitNonceRow e)
  noNonce : s.saved = true ∨ (∃ stored, s.loaded = some (some stored)) → first.nonce = none
  counters : s.saved = false → ∀ stored, s.loaded = some (some stored) →
    l.state.step = stored.step ∧ l.state.toolCalls = stored.toolCalls
  fresh : s.saved = false → s.loaded = some none → AgentHost.checkFresh e = .ok ()
  issues : s.saved = false → s.loaded = some none → s.head = some none → e.migrates = true → first.binding.isSome = true
  binding : ∀ binding, first.binding = some binding → s.saved = false ∧ e.migrates = true ∧
    binding.originalTaskId = e.state.taskId ∧ binding.sourceHostId = e.previousAuditHostId ∧
    binding.permitNonce = e.permit.nonce ∧ host.migrationEnvelopeDigest e = .ok binding.envelopeDigest

theorem Open.firstAllowed (h : Open host e v l s) : FirstAllowed host e l s ⟨none, none⟩ := by
  have hfresh : s.saved = false → s.loaded ≠ some none := by
    intro hsaved hloaded
    obtain ⟨stored, hstored, -⟩ := h.resumed hsaved
    rw [hloaded] at hstored
    cases hstored
  refine ⟨fun hs hl => absurd hl (hfresh hs), fun _ => rfl, ?_, fun hs hl => absurd hl (hfresh hs),
    fun hs hl => absurd hl (hfresh hs), fun _ hb => by cases hb⟩
  intro hsaved stored hloaded
  obtain ⟨stored', hstored, hcounters⟩ := h.resumed hsaved
  rw [hloaded] at hstored
  cases hstored
  exact hcounters

/-- What a save may close with: a migration exactly where the task leaves as `ready`. -/
structure CloseAllowed (l : Local) (s : Trail) (closed : Bool) (migration : Option AgentEnvelope) : Prop where
  outcome : migration.isSome = true ↔ closed = true ∧ l.state.status = .ready
  stays : migration.isSome = true → s.ceiling = none
  sealedFresh : ∀ migrated, migration = some migrated → migrated.state.checkpointGeneration = 0

variable {closed : Bool}

theorem closeAllowed_none (h : closed = true → l.state.status ≠ .ready) : CloseAllowed l s closed none where
  outcome := by
    constructor
    · intro hnone
      cases hnone
    · rintro ⟨hclosed, hready⟩
      exact absurd hready (h hclosed)
  stays hnone := by cases hnone
  sealedFresh _ hnone := by cases hnone

def Trail.saves (s : Trail) (generation : Int) : Trail := { s with generation, saved := true }

def Local.saves (l : Local) (generation : Int) : Local :=
  { l with state := { l.state with checkpointGeneration := generation }, persistedEvents := l.audit.events.length }

theorem ceilingColumn_ok {effective : Permit} {column : Option Text} (h : host.ceilingColumn v effective = .ok column) :
    if v.envelope.migrates then ∃ text, host.authorityCeilingJson effective v.envelope.manifest = .ok text ∧
      column = some text else column = none := by
  unfold AgentHost.ceilingColumn at h
  split
  · rename_i hmigrates
    rw [if_pos hmigrates] at h
    obtain ⟨text, htext, rfl⟩ := map_ok_iff.1 h
    exact ⟨text, htext, rfl⟩
  · rename_i hmigrates
    rw [if_neg hmigrates] at h
    cases h
    rfl

variable {migration : Option AgentEnvelope}

theorem outboxEntry_ok {outbox : Option (String × Text)} (h : host.outboxEntry migration = .ok outbox) :
    (migration = none ∧ outbox = none) ∨ ∃ migrated text, migration = some migrated ∧
      host.canonical migrated.asdict = .ok text ∧ outbox = some (migrated.permit.audience, text) := by
  cases migration with
  | none =>
    cases h
    exact .inl ⟨rfl, rfl⟩
  | some migrated =>
    obtain ⟨text, htext, h⟩ := bind_ok_iff.1 h
    cases h
    exact .inr ⟨migrated, text, rfl, htext, rfl⟩

theorem saveAllowed_persist {first : FirstSave} {column : Option Text} {outbox : Option (String × Text)}
    (h : CanSave host e v l s) (hfirst : FirstAllowed host e l s first) (hclose : CloseAllowed l s closed migration)
    (hcolumn : host.ceilingColumn v l.authority.effective = .ok column)
    (houtbox : host.outboxEntry migration = .ok outbox) : SaveAllowed host s e
      { taskId := l.state.taskId, effective := l.authority.effective, state := l.state, nonce := first.nonce,
        migrated := v.envelope.migrates, events := l.audit.events.drop l.persistedEvents, auditHead := l.audit.head,
        closed, owner := some (v.envelope.permit.issuer, v.envelope.permit.subject), authorityCeiling := column,
        binding := first.binding, migration := outbox } := by
  obtain ⟨allowed, hpermit⟩ := h.permit
  have hcol := ceilingColumn_ok hcolumn
  rw [h.migrates, h.manifest] at hcol
  have hsome : outbox.isSome = migration.isSome := by
    obtain ⟨rfl, rfl⟩ | ⟨migrated, text, rfl, -, rfl⟩ := outboxEntry_ok houtbox <;> rfl
  refine
    { receipt := h.receipt, loaded := h.loaded, asked := h.asked, task := h.task, generation := h.generation,
      owner := by rw [hpermit], migrated := h.migrates, nonce := hfirst.nonce, noNonce := hfirst.noNonce,
      counters := hfirst.counters, fresh := hfirst.fresh, capped := h.capped, column := hcol,
      outcome := ?_, stays := ?_, sealedFresh := ?_, issues := hfirst.issues, binding := hfirst.binding }
  · rw [hsome]
    exact hclose.outcome
  · rw [hsome]
    exact hclose.stays
  · rintro destination text houtbox'
    obtain ⟨-, rfl⟩ | ⟨migrated, text', rfl, htext, rfl⟩ := outboxEntry_ok houtbox
    · cases houtbox'
    · cases houtbox'
      exact ⟨migrated, htext, rfl, hclose.sealedFresh migrated rfl⟩

theorem meets_persist {first : FirstSave} (h : CanSave host e v l s) (hfirst : FirstAllowed host e l s first)
    (hclose : CloseAllowed l s closed migration) : Walks host (host.persist v first closed migration)
      (fun r l' s' => match r with
        | .ok _ => ∃ generation, l' = l.saves generation ∧ s' = s.saves generation
        | .error _ => l' = l ∧ s' = s) l s := by
  refine meets_unseen_bind rfl (fun _ => ?_) fun _ => ⟨rfl, rfl⟩
  refine meets_get_bind (meets_lift_bind (fun _ _ => ?_) fun _ => ⟨rfl, rfl⟩)
  refine meets_lift_bind (fun column hcolumn => ?_) fun _ => ⟨rfl, rfl⟩
  refine meets_lift_bind (fun outbox houtbox => ?_) fun _ => ⟨rfl, rfl⟩
  refine meets_bind.2 (meets_call.2 ⟨⟨e, h.envelope, ?_⟩, fun answer _ => ?_⟩)
  · exact saveAllowed_persist h hfirst hclose hcolumn houtbox
  · cases answer with
    | error => exact ⟨rfl, rfl⟩
    | ok generation => exact ⟨generation, rfl, rfl⟩

structure Ended (e : AgentEnvelope) (l : Local) (s : Trail) : Prop where
  envelope : s.envelope = some e
  task : l.state.taskId = e.storedTaskId
  receipt : s.receipt = none
  loaded : s.loaded.isSome = true

def Shut {α : Type} (host : AgentHost) (e : AgentEnvelope) (v : Visit) : Except Fault α → Local → Trail → Prop
  | .ok _, l, s => Ended e l s
  | .error _, l, s => Open host e v l s

theorem CanSave.ended {generation : Int} (h : CanSave host e v l s) :
    Ended e (l.saves generation) (s.saves generation) :=
  ⟨h.envelope, h.task, h.receipt, h.loaded⟩

theorem meets_persistNext (h : Open host e v l s) (hclose : CloseAllowed l s closed migration) :
    Walks host (host.persistNext v closed migration)
      (fun r l' s' => match r with
        | .ok _ => ∃ generation, l' = l.saves generation ∧ s' = s.saves generation
        | .error _ => l' = l ∧ s' = s) l s :=
  meets_persist h.toCanSave h.firstAllowed hclose

theorem meets_persistNext_shut (h : Open host e v l s) (hclose : CloseAllowed l s true migration) :
    Walks host (host.persistNext v true migration) (Shut host e v) l s := by
  refine (meets_persistNext h hclose).mono fun r l' s' hr => ?_
  cases r with
  | ok =>
    obtain ⟨generation, rfl, rfl⟩ := hr
    exact h.toCanSave.ended
  | error =>
    obtain ⟨rfl, rfl⟩ := hr
    exact h

structure Closing (host : AgentHost) (e : AgentEnvelope) (v : Visit) (migration : Option AgentEnvelope) (l : Local)
    (s : Trail) : Prop where
  isOpen : Open host e v l s
  close : CloseAllowed l s true migration

theorem CloseAllowed.status (h : CloseAllowed l s closed migration) (hstatus : l'.state.status = l.state.status) :
    CloseAllowed l' s closed migration :=
  ⟨hstatus ▸ h.outcome, h.stays, h.sealedFresh⟩

theorem Closing.change (h : Closing host e v migration l s) (hl : Same l l')
    (hstatus : l'.state.status = l.state.status) : Closing host e v migration l' s :=
  ⟨h.isOpen.steady hl (Steady.refl s), h.close.status hstatus⟩

theorem Open.failed (h : Open host e v l s) (hl : Same l l') (hstatus : l'.state.status = .failed) :
    Closing host e v none l' s :=
  ⟨h.steady hl (Steady.refl s), closeAllowed_none fun _ => by rw [hstatus]; decide⟩

theorem meets_setState {change : AgentState → AgentState} {Q : Except Fault Unit → Local → Trail → Prop}
    (h : Q (.ok ()) { l with state := change l.state } s) : Walks host (setState change) Q l s := h

theorem meets_setFailed (h : Open host e v l s) (message : String) :
    Walks host (setFailed message) (fun _ l' s' => Closing host e v none l' s') l s :=
  meets_setState (h.failed ⟨rfl, rfl, rfl, rfl, rfl, fun _ => nofun⟩ rfl)

section

variable (h : Closing host e v migration l s)

include h

theorem meets_record_closing (event : String) (details : Dict) :
    Walks host (host.record event details) (fun _ l' s' => Closing host e v migration l' s') l s := by
  refine (meets_record event details l s).mono fun _ l' s' hr => ?_
  obtain ⟨rfl, hstate, hauthority⟩ := hr
  have hsame : Same l l' :=
    ⟨by rw [hstate], by rw [hstate], by rw [hstate], by rw [hstate], hauthority, by rw [hstate]; exact id⟩
  exact h.change hsame (by rw [hstate])

theorem meets_recordTombstone (tool : Value) (toolRan : Bool) (oversized : Nat) (ceiling : Int) :
    Walks host (host.recordTombstone tool toolRan l.state.status oversized ceiling)
      (fun _ l' s' => Closing host e v migration l' s') l s := by
  unfold AgentHost.recordTombstone
  split
  · rename_i hrunning
    -- a running task carries no migration, so its failure closes it without one
    have hnone : migration = none := by
      rw [Bool.and_eq_true, beq_iff_eq] at hrunning
      cases migration with
      | none => rfl
      | some =>
        have := (h.close.outcome.1 rfl).2
        rw [hrunning.2] at this
        cases this
    subst hnone
    refine (meets_setFailed h.isOpen _).bind (fun _ _ _ hfailed => ?_) fun _ _ _ h' => h'
    refine (meets_record_closing hfailed _ _).bind (fun _ _ _ h' => ?_) fun _ _ _ h' => h'
    exact meets_record_closing h' _ _
  · exact meets_record_closing h _ _

theorem meets_dropResult (ceiling : Int) :
    Walks host (host.dropResult ceiling) (fun _ l' s' => Closing host e v migration l' s') l s := by
  refine meets_get_bind (meets_lift_bind (fun size _ => ?_) fun _ => h)
  split
  · exact meets_setState (h.change ⟨rfl, rfl, rfl, rfl, rfl, id⟩ rfl)
  · exact h

theorem meets_terminalizeOverBudget (tool : Value) (toolRan : Bool) :
    Walks host (host.terminalizeOverBudget v tool toolRan migration) (Shut host e v) l s := by
  refine meets_get_bind (meets_lift_bind (fun oversized _ => ?_) fun _ => h.isOpen)
  have hempty : Closing host e v migration
      { l with state := { l.state with memory := .dict [], messages := .list [] } } s :=
    h.change ⟨rfl, rfl, rfl, rfl, rfl, id⟩ rfl
  refine (meets_recordTombstone hempty _ _ _ _).bind (fun _ l' s' h' => ?_) fun _ _ _ h' => h'.isOpen
  refine (meets_dropResult h' _).bind (fun _ _ _ h'' => ?_) fun _ _ _ h'' => h''.isOpen
  exact meets_persistNext_shut h''.isOpen h''.close

end

theorem meets_closeFailed (h : Closing host e v none l s) (tool : Value) (toolRan : Bool) :
    Walks host (host.closeFailed v tool toolRan) (Shut host e v) l s := by
  refine meets_get_bind (meets_lift_bind (fun fits _ => ?_) fun _ => h.isOpen)
  split
  · exact meets_persistNext_shut h.isOpen h.close
  · exact meets_terminalizeOverBudget h tool toolRan

/-- The result of a run that is over. The read of its receipt does not report a cancellation. -/
theorem meets_result_raises (h : Ended e l s) (migration : Option AgentEnvelope) :
    Walks host (AgentHost.result migration)
      (fun r _ s' => s'.receipt = none ∧ r ≠ .error .taskCancelled) l s := by
  refine meets_get_bind (meets_bind.2 (meets_call.2 ⟨⟨e, h.envelope, h.task⟩, fun answer hanswer => ?_⟩))
  have hnext : s.next (.getMigrationReceipt l.state.taskId) answer = s := by
    cases answer with
    | error => rfl
    | ok =>
      obtain ⟨stored, hstored⟩ := Option.isSome_iff_exists.1 h.loaded
      simp only [Trail.next, Trail.returned, hstored, Option.isNone_some, Bool.false_eq_true, if_false]
  rw [hnext]
  cases answer with
  | error =>
    refine ⟨h.receipt, fun hcancelled => ?_⟩
    cases hcancelled
    exact hanswer rfl
  | ok => exact ⟨h.receipt, fun hcancelled => by cases hcancelled⟩

theorem meets_result (h : Ended e l s) (migration : Option AgentEnvelope) :
    Walks host (AgentHost.result migration) (fun _ _ s' => s'.receipt = none) l s :=
  (meets_result_raises h migration).mono fun _ _ _ hr => hr.1

theorem meets_closeFailed_result (h : Closing host e v none l s) (tool : Value) (toolRan : Bool) :
    Walks host (do host.closeFailed v tool toolRan; AgentHost.result none)
      (fun _ _ s' => s'.receipt = none) l s :=
  (meets_closeFailed h tool toolRan).bind (fun _ _ _ h' => meets_result h' none) fun _ _ _ h' => h'.receipt

theorem meets_closeCancelled (h : Open host e v l s) :
    Walks host (host.closeCancelled v) (fun _ _ s' => s'.receipt = none) l s := by
  refine (meets_setFailed h _).bind (fun _ _ _ h' => ?_) fun _ _ _ h' => h'.isOpen.receipt
  refine meets_get_bind ?_
  refine (meets_record_closing h' _ _).bind (fun _ _ _ h'' => ?_) fun _ _ _ h'' => h''.isOpen.receipt
  exact meets_closeFailed_result h'' _ _

theorem meets_exhausted (h : Open host e v l s) :
    Walks host (host.exhausted v) (fun _ _ s' => s'.receipt = none) l s := by
  refine (meets_setFailed h _).bind (fun _ _ _ h' => ?_) fun _ _ _ h' => h'.isOpen.receipt
  refine (meets_record_closing h' _ _).bind (fun _ _ _ h'' => ?_) fun _ _ _ h'' => h''.isOpen.receipt
  exact meets_closeFailed_result h'' _ _

end Portmark.Host
