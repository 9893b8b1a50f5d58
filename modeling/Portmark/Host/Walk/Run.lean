/-
The walk through a run, last part: the other decisions, a step with its failure boundaries, the
loop and the admission. `runWatch` puts the parts together: every process of every pool of runs
keeps to its record.
-/
import Portmark.Host.Walk.Tool

namespace Portmark.Host

open Lib Lib.Json Security Code

variable {host : AgentHost} {e : AgentEnvelope} {v : Visit} {l l' : Local} {s s' : Trail}

/-! ## A migrate decision -/

theorem authorizeMigration_delegates {env : Env} {permit : Permit} {destination : String} :
    ∀ {policy : ActivePolicy}, policy.authorizeMigration env permit destination = .ok () →
      permit.delegationAllowed = true := by
  intro policy
  induction policy with
  | plain =>
    intro h
    obtain ⟨_, h, -⟩ := bind_ok_iff.1 h
    exact require_ok_iff.1 h
  | reloaded previous fresh ih =>
    intro h
    obtain ⟨_, h, -⟩ := bind_ok_iff.1 h
    exact ih h

/-- A task that arrived with a recorded authority does not leave again. -/
theorem Visiting.stays {policy : ActivePolicy} {destination : String} (h : Visiting e v s)
    (hauthorized : policy.authorizeMigration host.env v.envelope.permit destination = .ok ()) : s.ceiling = none := by
  cases hceiling : s.ceiling with
  | none => rfl
  | some =>
    have hdelegates := authorizeMigration_delegates hauthorized
    rw [h.delegation (by rw [hceiling]; rfl)] at hdelegates
    cases hdelegates

theorem projectStateForMigration_generation {state projected : AgentState} {grants : List ToolGrant}
    (h : projectStateForMigration state grants = .ok projected) :
    projected.checkpointGeneration = state.checkpointGeneration := by
  unfold projectStateForMigration at h
  cases hmemory : state.memory with
  | dict =>
    rw [hmemory] at h
    obtain ⟨messages, -, h⟩ := bind_ok_iff.1 h
    obtain ⟨kept, -, h⟩ := bind_ok_iff.1 h
    cases h
    rfl
  | _ =>
    rw [hmemory] at h
    cases h

theorem migratedEnvelope_fresh {delegated : Permit} {migrated : AgentEnvelope}
    (h : host.migratedEnvelope v l delegated = .ok migrated) : migrated.state.checkpointGeneration = 0 := by
  obtain ⟨state, hstate, h⟩ := bind_ok_iff.1 h
  cases h
  exact projectStateForMigration_generation hstate

structure Leaving (host : AgentHost) (e : AgentEnvelope) (v : Visit) (l : Local) (s : Trail) : Prop
    extends CanSave host e v l s where
  saved : s.saved = true

theorem Leaving.open_ (h : Leaving host e v l s) : Open host e v l s where
  toCanSave := h.toCanSave
  resumed hsaved := by
    rw [h.saved] at hsaved
    cases hsaved

theorem Active.leaving (h : Active host e v l s) : Leaving host e v l s := ⟨h.toCanSave, h.saved⟩

theorem Leaving.steady (h : Leaving host e v l s) (hl : Near l l') (hs : Steady s s') : Leaving host e v l' s' :=
  ⟨h.toCanSave.steady hl hs, hs.saved.trans h.saved⟩

theorem meets_preflightMigration (h : Active host e v l s) (destination challenge : String) :
    Walks host (host.preflightMigration v destination challenge l.authority)
      (fun _ l' s' => Same l l' ∧ Steady s s') l s := by
  unfold AgentHost.preflightMigration
  split
  · refine meets_unseen_bind rfl (fun _ => ?_) fun _ => ⟨Same.refl l, Steady.refl s⟩
    refine (meets_recheckReloadedPolicy h.toVisiting h.policy h.capped).bind ?_ fun _ _ _ h' => ⟨h'.1, h'.2.1⟩
    rintro authority l' s' ⟨hsame, hsteady, -⟩
    exact meets_lift_bind (fun _ _ => ⟨hsame, hsteady⟩) fun _ => ⟨hsame, hsteady⟩
  · exact ⟨Same.refl l, Steady.refl s⟩

/-- What the seal of a migration leaves: a task that is `ready` to go, and the fresh envelope. -/
def Departs (host : AgentHost) (e : AgentEnvelope) (v : Visit) : Except Fault AgentEnvelope → Local → Trail → Prop
  | .ok migrated, l, s => Leaving host e v l s ∧ l.state.status = .ready ∧ s.ceiling = none ∧
      migrated.state.checkpointGeneration = 0
  | .error _, l, s => Open host e v l s

theorem meets_setMemory (key : String) (value : Value) : Walks host (AgentHost.setMemory key value)
      (fun _ l' s' => s' = s ∧ Same l l' ∧ l'.state.status = l.state.status) l s := by
  refine meets_get_bind ?_
  split
  · exact meets_setState ⟨rfl, ⟨rfl, rfl, rfl, rfl, rfl, id⟩, rfl⟩
  · exact ⟨rfl, Same.refl l, rfl⟩

theorem meets_applyMigrate (h : Active host e v l s) (decision : ProviderDecision) :
    Walks host (host.applyMigrate v decision) (Departs host e v) l s := by
  unfold AgentHost.applyMigrate
  split
  · exact h.open_
  · exact h.open_
  · refine meets_get_bind (meets_lift_bind (fun _ hauthorized => ?_) fun _ => h.open_)
    have hstays : s.ceiling = none := h.toVisiting.stays hauthorized
    refine meets_lift_bind (fun attestation _ => ?_) fun _ => h.open_
    refine meets_bind.2 (meets_call.2 ⟨hstays, fun answer _ => ?_⟩)
    rcases answer with error | _
    · exact h.open_
    refine meets_unseen_bind rfl (fun challenge => ?_) fun _ => h.open_
    refine (meets_preflightMigration h _ challenge).bind ?_ fun _ _ _ h' => h.open_.steady h'.1 h'.2
    rintro ⟨preflight, authority⟩ l₁ s₁ ⟨hsame₁, hsteady⟩
    have h₁ := h.leaving.steady hsame₁.near hsteady
    have hstays₁ : s₁.ceiling = none := hsteady.ceiling.trans hstays
    refine (meets_setMemory _ _).bind ?_ ?_
    · rintro _ l₂ s₁ ⟨rfl, hsame₂, hstatus₂⟩
      have hnear : ∀ {state l₃}, l₃.state = state ∧ l₃.authority = l₂.authority → state.taskId = l₂.state.taskId →
          state.checkpointGeneration = l₂.state.checkpointGeneration → Near l₁ l₃ := by
        rintro state l₃ ⟨rfl, hauthority⟩ htask hgeneration
        exact ⟨htask.trans hsame₂.taskId, hgeneration.trans hsame₂.generation, hauthority.trans hsame₂.authority⟩
      refine (meets_record _ _ _ _).bind ?_ ?_
      · rintro _ l₃ s₁ ⟨rfl, hstate₃, hauthority₃⟩
        have h₃ := h₁.steady (hnear ⟨hstate₃, hauthority₃⟩ rfl rfl) (Steady.refl s₁)
        refine meets_get_bind (meets_lift.2 ?_)
        cases hmigrated : host.migratedEnvelope v l₃ _ with
        | error => exact h₃.open_
        | ok =>
          refine ⟨h₃, ?_, hstays₁, migratedEnvelope_fresh hmigrated⟩
          rw [hstate₃]
          exact hstatus₂
      · rintro _ l₃ s₁ ⟨rfl, hstate₃, hauthority₃⟩
        exact (h₁.steady (hnear ⟨hstate₃, hauthority₃⟩ rfl rfl) (Steady.refl s₁)).open_
    · rintro _ l₂ s₁ ⟨rfl, hsame₂, -⟩
      exact (h₁.steady ⟨hsame₂.taskId, hsame₂.generation, hsame₂.authority⟩ (Steady.refl s₁)).open_

/-! ## A step -/

/-- A migration comes with a task that is `ready` to go. -/
structure Departing (l : Local) (s : Trail) (migration : Option AgentEnvelope) : Prop where
  ready : migration.isSome = true ↔ l.state.status = .ready
  stays : migration.isSome = true → s.ceiling = none
  sealedFresh : ∀ migrated, migration = some migrated → migrated.state.checkpointGeneration = 0

theorem departing_none (h : l.state.status ≠ .ready) : Departing l s none where
  ready := ⟨fun hnone => (by cases hnone), fun hready => absurd hready h⟩
  stays hnone := by cases hnone
  sealedFresh _ hnone := by cases hnone

structure Decided (host : AgentHost) (e : AgentEnvelope) (v : Visit) (applied : AgentHost.Applied) (l : Local)
    (s : Trail) : Prop where
  leaving : Leaving host e v l s
  goesOn : applied.finished = false → Active host e v l s
  departing : Departing l s applied.migration

theorem meets_applyHere (h : Active host e v l s) (decision : ProviderDecision) :
    Walks host (host.applyHere v decision) (Goes host e v) l s := by
  unfold AgentHost.applyHere
  split
  · exact meets_applyTool h decision
  · exact (quiet_applyContent _ _ _ (by decide : Status.completed ≠ .ready) _).goes h
  · exact (quiet_applyContent _ _ _ (by decide : Status.awaitingInput ≠ .ready) _).goes h
  · unfold AgentHost.applyFail
    split <;> exact (quiet_applyContent _ _ _ (by decide : Status.failed ≠ .ready) _).goes h

theorem meets_applyDecision (h : Active host e v l s) (decision : ProviderDecision) :
    Walks host (host.applyDecision v decision)
      (fun r l' s' => match r with
        | .ok applied => Decided host e v applied l' s'
        | .error _ => Open host e v l' s') l s := by
  refine meets_get_bind (meets_unseen_bind rfl (fun _ => ?_) fun _ => h.open_)
  split
  · refine (meets_applyMigrate h decision).bind ?_ fun _ _ _ h' => h'
    rintro migrated l' s' ⟨hleaving, hready, hstays, hfresh⟩
    refine ⟨hleaving, fun hgoes => (by cases hgoes), ⟨fun _ => hready, fun _ => rfl⟩, fun _ => hstays, ?_⟩
    rintro _ ⟨⟩
    exact hfresh
  · refine (meets_applyHere h decision).bind ?_ fun _ _ _ h' => h'
    intro finished l' s' h'
    exact ⟨h'.leaving, fun _ => h', departing_none h'.stays⟩

def Acted (host : AgentHost) (e : AgentEnvelope) (v : Visit) :
    Except Fault (Option AgentHost.Applied) → Local → Trail → Prop
  | .ok (some applied), l, s => Decided host e v applied l s
  | _, l, s => Open host e v l s

theorem meets_actOn (h : Active host e v l s) (raw : RawDecision) :
    Walks host (host.actOn v raw) (Acted host e v) l s := by
  refine meets_get_bind (meets_unseen_bind rfl (fun cancelled => ?_) fun _ => h.open_)
  split
  · exact h.open_
  refine meets_lift_bind (fun decision _ => ?_) fun _ => h.open_
  refine (meets_recheckStep h).bind (fun _ l₁ s₁ h₁ => ?_) fun _ _ _ h₁ => h₁
  refine ((quiet_record _ _).goes h₁).bind (fun _ l₂ s₂ h₂ => ?_) fun _ _ _ h₂ => h₂
  exact (meets_applyDecision h₂ decision).bind (fun _ _ _ h₃ => h₃) fun _ _ _ h₃ => h₃

def RaisedOnly {α : Type} : Except Fault α → Local → Trail → Prop
  | .ok _, _, _ => False
  | .error _, _, s => s.receipt = none

/-- A failure boundary: the task is closed as failed, and the error is raised again. -/
theorem meets_closeFailed_throw {α : Type} (h : Closing host e v none l s) (tool : Value) (toolRan : Bool)
    (error : Fault) : Walks host (do host.closeFailed v tool toolRan; throw error : Run α)
      (RaisedOnly : Except Fault α → Local → Trail → Prop) l s :=
  (meets_closeFailed h tool toolRan).bind (fun _ _ _ h' => h'.receipt) fun _ _ _ h' => h'.receipt

theorem meets_askProvider (h : Active host e v l s) : Walks host (host.askProvider v)
      (fun r l' s' => match r with
        | .ok _ => Active host e v l' s'
        | .error _ => s'.receipt = none) l s := by
  refine meets_unseen_bind rfl (fun _ => ?_) fun _ => h.receipt
  have hask : Walks host
      (do
        host.recheckStep v
        let l ← get
        let view ← Code.lift (providerView l.state l.authority.effective.grants)
        call (.decide v.envelope.manifest.provider l.authority.effective view))
      (Goes host e v) l s := by
    refine goes_bind (meets_recheckStep h) fun _ l₁ s₁ h₁ => ?_
    refine meets_get_bind (meets_lift_bind (fun view _ => ?_) fun _ => h₁.open_)
    refine meets_call.2 ⟨⟨e, h₁.envelope, h₁.working, h₁.capped, by rw [h₁.manifest]⟩, fun answer _ => ?_⟩
    rcases answer with error | raw
    · exact h₁.open_
    · exact h₁
  refine hask.tryCatch (fun _ _ _ h₁ => h₁) fun error l₁ s₁ h₁ => ?_
  refine (meets_setFailed h₁ _).bind (fun _ l₂ s₂ h₂ => ?_) fun _ _ _ h₂ => h₂.isOpen.receipt
  refine (meets_record_closing h₂ _ _).bind (fun _ l₃ s₃ h₃ => ?_) fun _ _ _ h₃ => h₃.isOpen.receipt
  refine (meets_closeFailed_throw h₃ _ _ _).mono fun r _ _ hr => ?_
  cases r with
  | ok => exact hr.elim
  | error => exact hr

theorem meets_refuseDecision (h : Open host e v l s) (raw : RawDecision) (toolCallsBefore : Int) (error : Fault) :
    Walks host (host.refuseDecision v raw toolCallsBefore error) RaisedOnly l s := by
  refine (meets_setFailed h _).bind (fun _ l₁ s₁ h₁ => ?_) fun _ _ _ h₁ => h₁.isOpen.receipt
  refine (meets_record_closing h₁ _ _).bind (fun _ l₂ s₂ h₂ => ?_) fun _ _ _ h₂ => h₂.isOpen.receipt
  exact meets_get_bind (meets_closeFailed_throw h₂ _ _ _)

theorem CanSave.saves (h : CanSave host e v l s) (generation : Int) :
    CanSave host e v (l.saves generation) (s.saves generation) where
  envelope := h.envelope
  manifest := h.manifest
  migrates := h.migrates
  permit := h.permit
  delegation := h.delegation
  admission := h.admission
  receipt := h.receipt
  loaded := h.loaded
  asked := h.asked
  task := h.task
  generation := rfl
  capped :=
    { settled := fun hsound => h.capped.settled ⟨hsound.permit, hsound.policies, hsound.ceiling⟩
      component := h.capped.component
      below := fun hsound => h.capped.below ⟨hsound.permit, hsound.policies, hsound.ceiling⟩ }

theorem Active.saves (h : Active host e v l s) (generation : Int) :
    Active host e v (l.saves generation) (s.saves generation) where
  toCanSave := h.toCanSave.saves generation
  policy := h.policy
  saved := rfl
  stays := h.stays

variable {migration : Option AgentEnvelope}

theorem Departing.closes (h : Departing l s migration) : CloseAllowed l s true migration where
  outcome := h.ready.trans ⟨fun hready => ⟨rfl, hready⟩, And.right⟩
  stays := h.stays
  sealedFresh := h.sealedFresh

/-- The closing rule of a step: a task closes with its migration, or as completed or failed. -/
theorem Departing.step (h : Departing l s migration) :
    CloseAllowed l s (migration.isSome || l.state.status == .completed || l.state.status == .failed) migration where
  outcome := by
    constructor
    · intro hsome
      exact ⟨by rw [hsome]; rfl, h.ready.1 hsome⟩
    · rintro ⟨-, hready⟩
      exact h.ready.2 hready
  stays := h.stays
  sealedFresh := h.sealedFresh

def SavedStep (l : Local) (s : Trail) : Except Fault (Option RunResult) → Local → Trail → Prop
  | .ok none, l', s' => ∃ generation, l' = l.saves generation ∧ s' = s.saves generation
  | _, _, s' => s'.receipt = none

theorem meets_saveStep (h : Leaving host e v l s) (hmigration : Departing l s migration)
    (raw : RawDecision) (toolCallsBefore : Int) :
    Walks host (host.saveStep v raw toolCallsBefore migration) (SavedStep l s) l s := by
  refine meets_get_bind ?_
  -- the two ways to save; a cancellation found by the save closes the task instead
  have hsave : Walks host (do
      let fits ← Code.lift (host.checkpointFits l.authority.effective l.state)
      if !fits && (decide (toolCallsBefore < l.state.toolCalls) ||
          (migration.isSome || l.state.status == .completed || l.state.status == .failed)) then do
        host.terminalizeOverBudget v (AgentHost.recordableLabel raw.tool)
          (decide (toolCallsBefore < l.state.toolCalls)) migration
        let result ← AgentHost.result migration
        return some result
      else do
        host.persistNext v (migration.isSome || l.state.status == .completed || l.state.status == .failed) migration
        return none)
      (fun r l' s' => match r with
        | .ok outcome => SavedStep l s (.ok outcome) l' s'
        | .error error => s'.receipt = none ∧ (error = .taskCancelled → Open host e v l' s')) l s := by
    refine meets_lift_bind (fun fits _ => ?_) fun _ => ⟨h.receipt, fun _ => h.open_⟩
    split
    · refine (meets_terminalizeOverBudget ⟨h.open_, hmigration.closes⟩ _ _).bind ?_ ?_
      · intro _ l₁ s₁ h₁
        refine (meets_result_raises h₁ migration).bind (fun _ _ _ h₂ => h₂.1) fun error _ _ h₂ =>
          ⟨h₂.1, fun herror => ?_⟩
        rw [herror] at h₂
        exact absurd rfl h₂.2
      · intro error l₁ s₁ h₁
        exact ⟨h₁.receipt, fun _ => h₁⟩
    · refine (meets_persistNext h.open_ hmigration.step).bind ?_ ?_
      · intro _ l₁ s₁ h₁
        exact h₁
      · rintro error l₁ s₁ ⟨rfl, rfl⟩
        exact ⟨h.receipt, fun _ => h.open_⟩
  refine hsave.tryCatch (fun _ _ _ h' => h') ?_
  rintro error l₁ s₁ ⟨hreceipt, hopen⟩
  split
  · rename_i hcancelled
    exact (meets_closeCancelled (hopen hcancelled)).bind (fun _ _ _ h₂ => h₂) fun _ _ _ h₂ => h₂
  · exact hreceipt

theorem meets_stepOnce (h : Active host e v l s) : Walks host (host.stepOnce v)
      (fun r l' s' => s'.receipt = none ∧ (r = .ok none → Active host e v l' s')) l s := by
  refine (meets_askProvider h).bind (fun raw l₁ s₁ h₁ => ?_) fun _ _ _ h₁ => ⟨h₁, fun hr => by cases hr⟩
  refine meets_get_bind ?_
  have hact : Walks host (tryCatch (host.actOn v raw) (host.refuseDecision v raw l₁.state.toolCalls))
      (fun r l' s' => match r with
        | .ok (some applied) => Decided host e v applied l' s'
        | .ok none => Open host e v l' s'
        | .error _ => s'.receipt = none) l₁ s₁ := by
    refine (meets_actOn h₁ raw).tryCatch (fun applied _ _ h₂ => ?_) fun error l₂ s₂ h₂ => ?_
    · cases applied <;> exact h₂
    · refine (meets_refuseDecision h₂ raw _ error).mono fun r _ _ hr => ?_
      cases r with
      | ok => exact hr.elim
      | error => exact hr
  refine hact.bind (fun applied l₂ s₂ h₂ => ?_) fun _ _ _ h₂ => ⟨h₂, fun hr => by cases hr⟩
  rcases applied with _ | applied
  · exact (meets_closeCancelled h₂).bind (fun _ _ _ h₃ => ⟨h₃, fun hr => by cases hr⟩) fun _ _ _ h₃ =>
      ⟨h₃, fun hr => by cases hr⟩
  refine meets_bind.2 (meets_setState ?_)
  have hleaving : Leaving host e v { l₂ with state := { l₂.state with step := l₂.state.step + 1 } } s₂ :=
    h₂.leaving.steady ⟨rfl, rfl, rfl⟩ (Steady.refl s₂)
  have hdeparting : Departing { l₂ with state := { l₂.state with step := l₂.state.step + 1 } } s₂ applied.migration :=
    ⟨h₂.departing.ready, h₂.departing.stays, h₂.departing.sealedFresh⟩
  refine (meets_saveStep hleaving hdeparting raw _).bind (fun ended l₃ s₃ h₃ => ?_) fun _ _ _ h₃ =>
    ⟨h₃, fun hr => by cases hr⟩
  cases ended with
  | some => exact ⟨h₃, fun hr => by cases hr⟩
  | none =>
    obtain ⟨generation, rfl, rfl⟩ := h₃
    dsimp only
    split
    · refine (meets_result hleaving.toCanSave.ended applied.migration).bind (fun _ _ _ h₄ => ?_) fun _ _ _ h₄ => ?_
      · exact ⟨h₄, fun hr => by cases hr⟩
      · exact ⟨h₄, fun hr => by cases hr⟩
    · rename_i hfinished
      have hgoes := h₂.goesOn (by simpa using hfinished)
      have hgoing : Going l₂ { l₂ with state := { l₂.state with step := l₂.state.step + 1 } } := ⟨⟨rfl, rfl, rfl⟩, id⟩
      have hactive := (hgoes.steady hgoing (Steady.refl s₂) rfl).saves generation
      exact ⟨hactive.receipt, fun _ => hactive⟩

/-- The loop, by induction on the turns that are left. -/
theorem meets_loop (turns : Nat) : ∀ {l s}, Active host e v l s →
    Walks host (host.loop v turns) (fun _ _ s' => s'.receipt = none) l s := by
  induction turns with
  | zero => exact fun h => meets_exhausted h.open_
  | succ turns ih =>
    intro l s h
    refine meets_get_bind ?_
    split
    · refine (meets_stepOnce h).bind (fun ended l₁ s₁ h₁ => ?_) fun _ _ _ h₁ => h₁.1
      cases ended with
      | some => exact h₁.1
      | none => exact ih (h₁.2 rfl)
    · exact meets_exhausted h.open_

/-! ## The first save -/

structure Entering (host : AgentHost) (e : AgentEnvelope) (v : Visit) (first : FirstSave) (l : Local) (s : Trail) : Prop
    extends CanSave host e v l s where
  first : FirstAllowed host e l s first
  policy : s.policy = some l.authority.policy
  running : l.state.status = .running

theorem meets_admitted {first : FirstSave} (h : Entering host e v first l s) :
    Walks host (host.admitted v first) (fun _ _ s' => s'.receipt = none) l s := by
  have hclose : CloseAllowed l s false none := closeAllowed_none fun hclosed => by cases hclosed
  have hsave : Walks host (do host.persist v first false none; return none : Run (Option RunResult))
      (fun r l' s' => match r with
        | .ok outcome => outcome = none ∧ Active host e v l' s'
        | .error _ => l' = l ∧ s' = s) l s := by
    refine (meets_persist h.toCanSave h.first hclose).bind ?_ fun _ _ _ h' => h'
    rintro _ l' s' ⟨generation, rfl, rfl⟩
    refine ⟨rfl, { toCanSave := h.toCanSave.saves generation, policy := h.policy, saved := rfl, stays := ?_ }⟩
    show l.state.status ≠ .ready
    rw [h.running]
    decide
  have hadmitted : Walks host
      (tryCatch (do host.persist v first false none; return none : Run (Option RunResult)) fun error =>
        if error = .taskCancelled ∧ first.nonce = none then do
          let result ← host.closeCancelled v
          return some result
        else throw error)
      (fun r l' s' => s'.receipt = none ∧ (r = .ok none → Active host e v l' s')) l s := by
    refine hsave.tryCatch ?_ ?_
    · rintro _ l' s' ⟨rfl, hactive⟩
      exact ⟨hactive.receipt, fun _ => hactive⟩
    · rintro error l s ⟨rfl, rfl⟩
      split
      · -- no nonce: the run is a resume, so its checkpoint can be closed
        rename_i hcancelled
        have hopen : Open host e v l s := by
          refine ⟨h.toCanSave, fun hsaved => ?_⟩
          obtain ⟨stored, hstored⟩ := Option.isSome_iff_exists.1 h.loaded
          cases stored with
          | none =>
            have := h.first.nonce hsaved hstored
            rw [hcancelled.2] at this
            cases this
          | some stored => exact ⟨stored, hstored, h.first.counters hsaved stored hstored⟩
        exact (meets_closeCancelled hopen).bind (fun _ _ _ h₂ => ⟨h₂, fun hr => by cases hr⟩) fun _ _ _ h₂ =>
          ⟨h₂, fun hr => by cases hr⟩
      · exact ⟨h.receipt, fun hr => by cases hr⟩
  refine hadmitted.bind (fun ended l₁ s₁ h₁ => ?_) fun _ _ _ h₁ => h₁.1
  cases ended with
  | some => exact h₁.1
  | none => exact meets_get_bind (meets_loop _ (h₁.2 rfl))

end Portmark.Host
