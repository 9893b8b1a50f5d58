/-
Reconciliations of one effect, in any interleaving. A `reconcile_effect` call goes through its
stages one call at a time (`ReconcileStage`), and what it does to the row of the effect is entered in a
journal. The journal is a valid one of a claimed resource (`journal_valid`), so that the row is
settled once, by the latest claim under a live lease, and a call whose reconcile function failed
does not hold it any more.
-/
import Portmark.Lib.Claim
import Portmark.Host.Settled
import Portmark.Host.Walk.Run

namespace Portmark.Host

open Lib Lib.Json Security List Option Code

/-! ## The stages of a call -/

inductive ReconcilePhase where
  | opened
  | found
  | drawn
  | granted
  | renewed
  | ran
  | overtaken
  | failed
  | released
  | ended
deriving DecidableEq

/-- Where a `reconcile_effect` call is, with its claim id. -/
structure ReconcileStage where
  claim : Option String
  phase : ReconcilePhase
deriving DecidableEq

namespace ReconcileStage

def nextPhase (host : AgentHost) : ReconcilePhase → (op : Op) → Answer op → ReconcilePhase
  | .opened, .getEffect _, .ok _ => .found
  | .found, .challenge, .ok _ => .drawn
  | .drawn, .claimEffectForReconcile _ _, .ok true => .granted
  | .granted, .renewEffectClaim _ _, .ok true => .renewed
  | .renewed, .runReconcile _ _ _ _, .ok outcome =>
    match host.reconcileOutcome outcome with
    | .ok _ => .ran
    | .error _ => .failed
  | .renewed, .runReconcile _ _ _ _, .error _ => .failed
  | .ran, .settleEffectFromClaim _ _ _ _ _, .ok false => .overtaken
  | .ran, .settleEffectFromClaim _ _ _ _ _, .error _ => .failed
  | .overtaken, .getEffect _, .error _ => .failed
  | .failed, .releaseEffectClaim _ _, .ok _ => .released
  | _, _, _ => .ended

def next (host : AgentHost) (s : ReconcileStage) (op : Op) (answer : Answer op) : ReconcileStage :=
  ⟨match op, answer with
    | .challenge, .ok token => some token
    | _, _ => s.claim, nextPhase host s.phase op answer⟩

def allows (effectId : String) (s : ReconcileStage) : Op → Prop
  | .getEffect id => id = effectId ∧ s.phase ≠ .failed
  | .challenge => s.phase = .found
  | .claimEffectForReconcile id claimId => id = effectId ∧ s.phase = .drawn ∧ s.claim = some claimId
  | .renewEffectClaim id claimId => id = effectId ∧ s.phase = .granted ∧ s.claim = some claimId
  | .runReconcile id _ _ claimId => id = effectId ∧ s.phase = .renewed ∧ s.claim = some claimId
  | .settleEffectFromClaim id claimId state _ _ => id = effectId ∧ s.phase = .ran ∧ s.claim = some claimId ∧
      (state = .confirmed ∨ state = .reconciled)
  | .releaseEffectClaim id claimId => id = effectId ∧ s.phase = .failed ∧ s.claim = some claimId
  | _ => False

end ReconcileStage

def stageMonitor (host : AgentHost) : Monitor Answer where
  State := Option (String × ReconcileStage)
  next s op answer := s.map fun (effectId, stage) => (effectId, stage.next host op answer)
  allows s op := ∀ effectId stage, s = some (effectId, stage) → stage.allows effectId op
  answers _ _ := True

def startStage : Job → Option (String × ReconcileStage)
  | .run _ _ => none
  | .reconcile _ effectId _ => some (effectId, ⟨none, .opened⟩)

def StageEnds : Job → Except Fault Outcome → Option (String × ReconcileStage) → Prop :=
  fun _ _ s => ∀ effectId stage, s = some (effectId, stage) → stage.phase ≠ .failed

theorem follows_unwatched {host : AgentHost} {α : Type} {Q : α → (stageMonitor host).State → Prop}
    (hQ : ∀ a, Q a none) : ∀ p : Prog Answer α, p.Follows (stageMonitor host) Q none
  | .ret a => hQ a
  | .ask _ k => ⟨nofun, fun r _ => follows_unwatched hQ (k r)⟩

section Walk

variable {host : AgentHost} {effectId : String}

theorem stage_call {α : Type} {op : Op} {f : Result op → AgentHost.Door α} {stage : ReconcileStage}
    {Q : Except Fault α → Unit → Option (String × ReconcileStage) → Prop} (hallows : stage.allows effectId op)
    (hok : ∀ a, Code.Meets (stageMonitor host) (f a) Q () (some (effectId, stage.next host op (.ok a))))
    (herror : ∀ error, Q (.error error) () (some (effectId, stage.next host op (.error error)))) :
    Code.Meets (stageMonitor host) (call op >>= f) Q () (some (effectId, stage)) := by
  refine meets_bind.2 (meets_call_iff.2 ⟨?_, fun answer _ => ?_⟩)
  · rintro _ _ ⟨⟩
    exact hallows
  · cases answer with
    | ok a => exact hok a
    | error error => exact herror error

def Clear (effectId : String) (s : Option (String × ReconcileStage)) : Prop :=
  ∃ stage, s = some (effectId, stage) ∧ stage.phase ≠ .failed

def Guarded (effectId claimId : String) {α : Type} (r : Except Fault α) (_ : Unit)
    (s : Option (String × ReconcileStage)) : Prop :=
  match r with
  | .ok _ => Clear effectId s
  | .error _ => s = some (effectId, ⟨some claimId, .failed⟩)

theorem clear_ended (claim : Option String) : Clear effectId (some (effectId, ⟨claim, .ended⟩)) := ⟨_, rfl, by simp⟩

/-- The settlement: it finds the claim, or reads what became of the row. -/
theorem stage_settle {state : EffectState} {resultJson : Option Text} {reason : Option String} (claimId answer : String)
    (hstate : state = .confirmed ∨ state = .reconciled) : Code.Meets (stageMonitor host) (do
        let settled : Bool ← call (.settleEffectFromClaim effectId claimId state resultJson reason)
        if settled then return answer else AgentHost.effectStateAfterLostClaim effectId : AgentHost.Door String)
      (Guarded effectId claimId) () (some (effectId, ⟨some claimId, .ran⟩)) := by
  refine stage_call ⟨rfl, rfl, rfl, hstate⟩ (fun (settled : Bool) => ?_) fun _ => rfl
  cases settled with
  | true => exact clear_ended _
  | false =>
    exact stage_call ⟨rfl, nofun⟩ (fun _ => clear_ended _) fun _ => rfl

theorem stage_settleReconcile (tool : String) (argumentsJson : Text) (claimId : String) :
    Code.Meets (stageMonitor host) (host.settleReconcile effectId tool argumentsJson claimId)
      (Guarded effectId claimId) () (some (effectId, ⟨some claimId, .renewed⟩)) := by
  refine stage_call ⟨rfl, rfl, rfl⟩ (fun outcome => ?_) fun _ => rfl
  rcases houtcome : host.reconcileOutcome outcome with _ | settlement
  · refine meets_bind.2 (meets_lift.2 ?_)
    simp [Guarded, ReconcileStage.next, ReconcileStage.nextPhase, houtcome]
  have hstage :
    (ReconcileStage.mk (some claimId) .renewed).next host (.runReconcile effectId tool argumentsJson claimId)
      (.ok outcome) = ⟨some claimId, .ran⟩ := by
    simp [ReconcileStage.next, ReconcileStage.nextPhase, houtcome]
  rw [hstage]
  obtain ⟨landed, resultJson⟩ := settlement
  cases landed with
  | true => exact stage_settle claimId "confirmed" (.inl rfl)
  | false => exact stage_settle claimId "reconciled" (.inr rfl)

theorem stage_reconcileEffect (taskId : String) :
    Code.Meets (stageMonitor host) (host.reconcileEffect effectId taskId) (fun _ _ s => Clear effectId s) ()
      (some (effectId, ⟨none, .opened⟩)) := by
  refine stage_call ⟨rfl, by decide⟩ (fun row => ?_) fun _ => clear_ended _
  have hfound : Clear effectId (some (effectId, ⟨none, .found⟩)) := ⟨_, rfl, by simp⟩
  rcases row with _ | row
  · exact hfound
  refine meets_ite (fun _ => hfound) fun _ => meets_ite (fun _ => hfound) fun _ => ?_
  refine stage_call rfl (fun claimId => ?_) fun _ => clear_ended _
  refine stage_call ⟨rfl, rfl, rfl⟩ (fun (claimed : Bool) => ?_) fun _ => clear_ended _
  cases claimed
  · exact stage_call ⟨rfl, nofun⟩ (fun _ => clear_ended _) fun _ => clear_ended _
  refine stage_call ⟨rfl, rfl, rfl⟩ (fun (renewed : Bool) => ?_) fun _ => clear_ended _
  cases renewed
  · exact stage_call ⟨rfl, nofun⟩ (fun _ => clear_ended _) fun _ => clear_ended _
  refine (stage_settleReconcile row.tool row.argumentsJson claimId).tryCatch (fun _ _ _ h => h) ?_
  rintro error _ s rfl
  exact stage_call ⟨rfl, rfl, rfl⟩ (fun _ => ⟨_, rfl, by simp [ReconcileStage.next, ReconcileStage.nextPhase]⟩)
    fun _ => clear_ended _

end Walk

def stageWatch (host : AgentHost) : Machine.Watch (machine host) where
  monitor := stageMonitor host
  init := startStage
  post := StageEnds
  starts job := by
    cases job with
    | run process envelope => exact follows_unwatched (fun _ => nofun) _
    | reconcile process effectId taskId =>
      refine Prog.follows_bind.2 (Prog.Follows.mono ?_ (stage_reconcileEffect taskId))
      rintro ⟨outcome, _⟩ s ⟨stage, rfl, hstage⟩ _ _ ⟨⟩
      exact hstage
  served _ := trivial

/-! ## The journal of an effect -/

def Op.touches : Op → Option String
  | .recordEffectPrepared effectId _ _ _ => some effectId
  | .markEffectStarted effectId => some effectId
  | .settleEffect effectId _ _ _ => some effectId
  | .claimEffectForReconcile effectId _ => some effectId
  | .renewEffectClaim effectId _ => some effectId
  | .runReconcile effectId _ _ _ => some effectId
  | .settleEffectFromClaim effectId _ _ _ _ => some effectId
  | .releaseEffectClaim effectId _ => some effectId
  | _ => none

def enter (effectId : String) (pid : Nat) (hint : Hint) (id claim : String) (deed : Claim.Deed) (done : Bool) :
    Option (Claim.Entry Nat String) :=
  if id = effectId ∧ done = true then some ⟨pid, claim, deed, hint.time⟩ else none

def wrote (hint : Hint) (outcome : Bool × Store) : Bool := hint.fault.isNone && outcome.1

def callEntry (effectId : String) (w : World) (pid : Nat) (hint : Hint) : Op → Option (Claim.Entry Nat String)
  | .claimEffectForReconcile id claimId => enter effectId pid hint id claimId .granted
      (wrote hint (w.store.claimEffectForReconcile id claimId reconcileLeaseSeconds hint.time))
  | .renewEffectClaim id claimId => enter effectId pid hint id claimId .renewed
      (wrote hint (w.store.renewEffectClaim id claimId reconcileLeaseSeconds hint.time))
  | .runReconcile id tool argumentsJson claimId => enter effectId pid hint id claimId .started
      (w.claimedRow id tool argumentsJson claimId)
  | .settleEffectFromClaim id claimId state resultJson reason => enter effectId pid hint id claimId .settled
      (wrote hint (w.store.settleEffectFromClaim id claimId state resultJson reason hint.time))
  | .releaseEffectClaim id claimId => enter effectId pid hint id claimId .released
      (wrote hint (w.store.releaseEffectClaim id claimId))
  | _ => none

def entryOf (host : AgentHost) (effectId : String) (pool : HostPool) : HostEvent → Option (Claim.Entry Nat String)
  | .step pid hint =>
    match pool.procs[pid]? with
    | some ⟨job, .ask op _, _, true⟩ =>
      if (serve host job op hint pool.world).isSome then callEntry effectId pool.world pid hint op else none
    | _ => none
  | _ => none

def journal (host : AgentHost) (effectId : String) : HostPool → List HostEvent → List (Claim.Entry Nat String)
  | _, [] => []
  | pool, event :: events =>
    (entryOf host effectId pool event).toList ++ journal host effectId ((machine host).step pool event) events

theorem journal_concat (host : AgentHost) (effectId : String) (pool : HostPool) (events : List HostEvent)
    (event : HostEvent) : journal host effectId pool (events ++ [event]) =
      journal host effectId pool events ++ (entryOf host effectId ((machine host).run pool events) event).toList := by
  induction events generalizing pool with
  | nil => simp [journal, Machine.run]
  | cons e events ih => rw [cons_append, journal, journal, ih, append_assoc, Machine.run_cons]

/-! ## The row under the journal -/

def Fits (first : Option EffectRow) : Claim.Standing Nat String → Option EffectRow → Prop
  | .initial, row => row = first
  | .held _ claim lease, row =>
    ∃ r, row = some r ∧ r.state = .reconciling ∧ r.claimId = some claim ∧ r.leaseExpiresAt = some lease
  | .free, row => ∃ r, row = some r ∧ r.state = .unknown
  | .closed, row => ∃ r, row = some r ∧ r.Final

def ReconcilePhase.Ran (phase : ReconcilePhase) : Prop :=
  phase = .renewed ∨ phase = .ran ∨ phase = .overtaken ∨ phase = .failed ∨ phase = .released

structure Placed (entries : List (Claim.Entry Nat String)) (pid : Nat) (stage : ReconcileStage) : Prop where
  early : stage.phase = .opened ∨ stage.phase = .found ∨ stage.phase = .drawn → ∀ e ∈ entries, e.caller ≠ pid
  own : ∀ e ∈ entries, e.caller = pid → stage.claim = some e.claim
  renewed : stage.phase.Ran → ∃ claim time, stage.claim = some claim ∧ ⟨pid, claim, .renewed, time⟩ ∈ entries
  released : stage.phase = .released → ∀ claim lease,
    Claim.standing reconcileLeaseSeconds entries ≠ .held pid claim lease

namespace Placed

variable {entries : List (Claim.Entry Nat String)} {pid : Nat} {stage : ReconcileStage}

section

variable (h : Placed entries pid stage)

include h

theorem other {e : Claim.Entry Nat String} (hne : e.caller ≠ pid) : Placed (entries ++ [e]) pid stage := by
  have hmem : ∀ f ∈ entries ++ [e], f.caller = pid → f ∈ entries := by
    intro f hf hpid
    rcases mem_append.1 hf with hf | hf
    · exact hf
    · cases mem_singleton.1 hf
      exact absurd hpid hne
  refine ⟨fun hphase f hf hpid => h.early hphase f (hmem f hf hpid) hpid,
    fun f hf hpid => h.own f (hmem f hf hpid) hpid, fun hphase => ?_, fun hphase claim lease hheld => ?_⟩
  · obtain ⟨claim, time, hclaim, hrenewed⟩ := h.renewed hphase
    exact ⟨claim, time, hclaim, mem_append_left _ hrenewed⟩
  · rw [Claim.standing_concat] at hheld
    unfold Claim.Standing.after at hheld
    cases hdeed : e.deed with
    | granted | renewed => rw [hdeed] at hheld; cases hheld; exact hne rfl
    | started => rw [hdeed] at hheld; exact h.released hphase claim lease hheld
    | _ => rw [hdeed] at hheld; cases hheld

theorem ended : Placed entries pid ⟨stage.claim, .ended⟩ :=
  ⟨by simp, h.own, by simp [ReconcilePhase.Ran], by simp⟩

theorem goesOn (hran : stage.phase.Ran) {phase : ReconcilePhase}
    (hlate : phase = .ran ∨ phase = .overtaken ∨ phase = .failed) : Placed entries pid ⟨stage.claim, phase⟩ := by
  refine ⟨?_, h.own, fun _ => h.renewed hran, ?_⟩
  · rcases hlate with rfl | rfl | rfl <;> simp
  · rcases hlate with rfl | rfl | rfl <;> simp

theorem acts {claim : String} {deed : Claim.Deed} {time : Int} (phase : ReconcilePhase)
    (hclaim : stage.claim = some claim)
    (hearly : phase ≠ .opened ∧ phase ≠ .found ∧ phase ≠ .drawn)
    (hrenewed : phase.Ran → deed = .renewed ∨ stage.phase.Ran)
    (hreleased : phase = .released → deed = .released) :
    Placed (entries ++ [⟨pid, claim, deed, time⟩]) pid ⟨stage.claim, phase⟩ := by
  refine ⟨?_, fun e he hpid => ?_, fun hran => ?_, fun hphase c lease => ?_⟩
  · rintro (hphase | hphase | hphase)
    · exact absurd hphase hearly.1
    · exact absurd hphase hearly.2.1
    · exact absurd hphase hearly.2.2
  · rcases mem_append.1 he with he | he
    · exact h.own e he hpid
    · cases mem_singleton.1 he
      exact hclaim
  · rcases hrenewed hran with rfl | hold
    · exact ⟨claim, time, hclaim, by simp⟩
    · obtain ⟨c, t, hc, ht⟩ := h.renewed hold
      exact ⟨c, t, hc, mem_append_left _ ht⟩
  · rw [Claim.standing_concat, hreleased hphase]
    nofun

end

end Placed

structure Own (first : Option EffectRow) (entries : List (Claim.Entry Nat String)) (row : Option EffectRow) (pid : Nat)
    (stage : ReconcileStage) : Prop where
  valid : Claim.Valid reconcileLeaseSeconds entries
  fits : Fits first (Claim.standing reconcileLeaseSeconds entries) row
  placed : Placed entries pid stage
  mine : ∀ e ∈ entries, stage.claim = some e.claim → e.caller = pid
  foreign : ∀ claim, stage.claim = some claim → first.bind (·.claimId) ≠ some claim

structure Turned (first : Option EffectRow) (entries : List (Claim.Entry Nat String))
    (entry : Option (Claim.Entry Nat String)) (row row' : Option EffectRow) (pid : Nat) (stage : ReconcileStage) :
    Prop where
  valid : Claim.Valid reconcileLeaseSeconds (entries ++ entry.toList)
  fits : Fits first (Claim.standing reconcileLeaseSeconds (entries ++ entry.toList)) row'
  placed : Placed (entries ++ entry.toList) pid stage
  silent : (∀ e ∈ entry, e.deed = .started) → row' = row

section Turns

variable {host : AgentHost} {job : Job} {hint : Hint} {w w' : World} {effectId claimId : String} {pid : Nat}
  {stage stage' : ReconcileStage} {first : Option EffectRow} {entries : List (Claim.Entry Nat String)}

theorem Own.quiet {row : Option EffectRow} (h : Own first entries row pid stage) (hplaced : Placed entries pid stage') :
    Turned first entries none row row pid stage' := by
  refine ⟨?_, ?_, ?_, fun _ => rfl⟩ <;> rw [toList_none, append_nil]
  · exact h.valid
  · exact h.fits
  · exact hplaced

theorem ownedBy_iff {row : EffectRow} : Store.ownedBy row claimId = true ↔
    row.state = .reconciling ∧ row.claimId = some claimId := by
  simp [Store.ownedBy]

theorem Own.holder {row : Option EffectRow} {r : EffectRow} (h : Own first entries row pid stage) (hr : row = some r)
    (hclaim : stage.claim = some claimId) (howned : Store.ownedBy r claimId = true) :
    ∃ lease, Claim.standing reconcileLeaseSeconds entries = .held pid claimId lease ∧
      r.leaseExpiresAt = some lease := by
  obtain ⟨hstate, hid⟩ := ownedBy_iff.1 howned
  have hfits := h.fits
  subst hr
  cases hs : Claim.standing reconcileLeaseSeconds entries with
  | initial =>
    rw [hs] at hfits
    refine absurd ?_ (h.foreign claimId hclaim)
    rw [← (hfits : some r = first)]
    exact hid
  | held caller claim lease =>
    rw [hs] at hfits
    obtain ⟨r', hr, -, hclaim', hlease⟩ := hfits
    cases hr
    rw [hid] at hclaim'
    cases hclaim'
    obtain ⟨e, he, rfl, hec⟩ := Claim.standing_held_mem hs
    rw [h.mine e he (hclaim.trans (congrArg some hec.symm))]
    exact ⟨lease, rfl, hlease⟩
  | free =>
    rw [hs] at hfits
    obtain ⟨r', hr, hunknown⟩ := hfits
    cases hr
    rw [hstate] at hunknown
    cases hunknown
  | closed =>
    rw [hs] at hfits
    obtain ⟨r', hr, hfinal | hfinal⟩ := hfits <;>
      · cases hr
        rw [hstate] at hfinal
        cases hfinal

/-! ### Conditional writes -/

def Store.writeIf (store : Store) (effectId : String) (P : EffectRow → Prop) [DecidablePred P]
    (change : EffectRow → EffectRow) : Bool × Store :=
  match store.effects effectId with
  | none => (false, store)
  | some row => if P row then (true, store.setEffect effectId (change row)) else (false, store)

def World.tries (w : World) (fault : Option Fault) (outcome : Bool × Store) : Option (Except Fault Bool × World) :=
  match fault with
  | none => some (w.attempt outcome)
  | some fault => if fault = .taskCancelled then none else some (.error fault, w)

/-- A conditional write by a call: it finds its condition and is entered, or it leaves the row. -/
theorem Own.tries {P : EffectRow → Prop} [DecidablePred P] {change : EffectRow → EffectRow} {answer : Except Fault Bool}
    {next : Except Fault Bool → ReconcileStage} {deed : Claim.Deed}
    (h : Own first entries (w.store.effects effectId) pid stage)
    (hs : w.tries hint.fault (w.store.writeIf effectId P change) = some (answer, w'))
    (hyes : ∀ r, w.store.effects effectId = some r → P r → deed ≠ .started ∧
      Claim.Proper reconcileLeaseSeconds entries ⟨pid, claimId, deed, hint.time⟩ ∧
      Fits first ((Claim.standing reconcileLeaseSeconds entries).after reconcileLeaseSeconds ⟨pid, claimId, deed,
        hint.time⟩)
        (some (change r)) ∧ Placed (entries ++ [⟨pid, claimId, deed, hint.time⟩]) pid (next (.ok true)))
    (hno : (∀ r, w.store.effects effectId = some r → ¬ P r) → Placed entries pid (next (.ok false)))
    (hraised : ∀ error, Placed entries pid (next (.error error))) : Turned first entries
      (enter effectId pid hint effectId claimId deed (wrote hint (w.store.writeIf effectId P change)))
      (w.store.effects effectId) (w'.store.effects effectId) pid (next answer) := by
  unfold World.tries at hs
  cases hfault : hint.fault with
  | some fault =>
    simp only [hfault] at hs
    split at hs <;> cases hs
    simp only [enter, wrote, hfault, isNone_some, Bool.false_and, Bool.false_eq_true, and_false, if_false]
    exact h.quiet (hraised fault)
  | none =>
    simp only [hfault] at hs
    cases hs
    simp only [enter, wrote, hfault, isNone_none, Bool.true_and, true_and, World.put]
    unfold Store.writeIf
    rcases hr : w.store.effects effectId with _ | r
    · have hquiet := h.quiet (hno fun r hr' => by rw [hr] at hr'; cases hr')
      simpa only [hr, Bool.false_eq_true, if_false] using hquiet
    by_cases hP : P r
    · obtain ⟨hdeed, hproper, hfits, hplaced⟩ := hyes r hr hP
      simp only [if_pos hP, setEffect_effects]
      refine ⟨Claim.valid_concat.2 ⟨h.valid, hproper⟩, ?_, hplaced, fun hstarted => absurd (hstarted _ rfl) hdeed⟩
      rw [if_true, toList_some, Claim.standing_concat]
      exact hfits
    · have hquiet := h.quiet (hno fun r' hr' => by rw [hr] at hr'; cases hr'; exact hP)
      simpa only [hr, if_neg hP, Bool.false_eq_true, if_false] using hquiet

def Op.writesNothing : Op → Bool
  | .getEffect _ => true
  | .challenge => true
  | .runReconcile _ _ _ _ => true
  | _ => false

theorem reads_nothing {op : Op} {answer : Answer op} (hs : serve host job op hint w = some (answer, w'))
    (hop : op.writesNothing = true) : w'.store = w.store := by
  have hwrote := serve_wrote hs
  generalize w'.store = store' at hwrote ⊢
  cases hwrote with
  | nothing => rfl
  | _ => cases hop

/-! ### One lemma for each call -/

theorem turn_getEffect (h : Own first entries (w.store.effects effectId) pid stage)
    {answer : Answer (.getEffect effectId)} (hs : serve host job (.getEffect effectId) hint w = some (answer, w')) :
    Turned first entries none (w.store.effects effectId) (w'.store.effects effectId) pid
      (stage.next host (.getEffect effectId) answer) := by
  rw [reads_nothing hs rfl]
  refine h.quiet ?_
  obtain ⟨claim, phase⟩ := stage
  cases phase with
  | opened =>
    cases answer with
    | ok => exact ⟨fun _ => h.placed.early (.inl rfl), h.placed.own, by
        simp [ReconcilePhase.Ran, ReconcileStage.next, ReconcileStage.nextPhase], nofun⟩
    | error => exact h.placed.ended
  | overtaken =>
    cases answer with
    | ok => exact h.placed.ended
    | error => exact h.placed.goesOn (by simp [ReconcilePhase.Ran]) (.inr (.inr rfl))
  | _ => exact h.placed.ended

theorem turn_challenge (h : Own first entries (w.store.effects effectId) pid stage) {answer : Answer .challenge}
    (hphase : stage.phase = .found) (hs : serve host job .challenge hint w = some (answer, w')) :
    Turned first entries none (w.store.effects effectId) (w'.store.effects effectId) pid
      (stage.next host .challenge answer) := by
  rw [reads_nothing hs rfl]
  refine h.quiet ?_
  obtain ⟨claim, phase⟩ := stage
  cases hphase
  have hnone := h.placed.early (.inr (.inl rfl))
  cases answer with
  | ok =>
    refine ⟨fun _ => hnone, fun e he hpid => absurd hpid (hnone e he), ?_, nofun⟩
    simp [ReconcilePhase.Ran, ReconcileStage.next, ReconcileStage.nextPhase]
  | error => exact h.placed.ended

/-- What one call does to the history of claims, to the row and to the stage of its process. -/
abbrev Turns (host : AgentHost) (first : Option EffectRow) (entries : List (Claim.Entry Nat String)) (effectId : String)
    (w w' : World) (pid : Nat) (hint : Hint) (stage : ReconcileStage) {op : Op} (answer : Answer op) : Prop :=
  Turned first entries (callEntry effectId w pid hint op) (w.store.effects effectId) (w'.store.effects effectId) pid
    (stage.next host op answer)

theorem turn_claim (h : Own first entries (w.store.effects effectId) pid ⟨some claimId, .drawn⟩)
    {answer : Answer (.claimEffectForReconcile effectId claimId)}
    (hs : serve host job (.claimEffectForReconcile effectId claimId) hint w = some (answer, w')) :
    Turns host first entries effectId w w' pid hint ⟨some claimId, .drawn⟩ answer := by
  refine h.tries hs (fun r hr hfree => ⟨by decide, ⟨⟨fun hclosed => ?_, fun caller claim lease hheld => ?_⟩, ?_, nofun⟩,
    ⟨_, rfl, rfl, rfl, rfl⟩, ?_⟩) (fun _ => h.placed.ended) fun _ => h.placed.ended
  · -- a settled row is not claimed
    have hfits := h.fits
    rw [hclosed, hr] at hfits
    obtain ⟨r', hr', hfinal⟩ := hfits
    cases hr'
    rcases hfree with hstate | ⟨hstate, -⟩ <;> rcases hfinal with hfinal | hfinal <;> rw [hstate] at hfinal <;>
      cases hfinal
  · have hfits := h.fits
    rw [hheld, hr] at hfits
    obtain ⟨r', hr', hstate, -, hlease⟩ := hfits
    cases hr'
    rcases hfree with hunknown | ⟨-, hlapsed⟩
    · rw [hstate] at hunknown
      cases hunknown
    · simpa [Store.leaseLapsed, hlease] using hlapsed
  · exact fun _ e he hec => h.placed.early (.inr (.inr rfl)) e he (h.mine e he (congrArg some hec.symm))
  · exact h.placed.acts .granted rfl (by decide) (fun hran => by simp [ReconcilePhase.Ran] at hran) nofun

theorem turn_renew (h : Own first entries (w.store.effects effectId) pid ⟨some claimId, .granted⟩)
    {answer : Answer (.renewEffectClaim effectId claimId)}
    (hs : serve host job (.renewEffectClaim effectId claimId) hint w = some (answer, w')) :
    Turns host first entries effectId w w' pid hint ⟨some claimId, .granted⟩ answer := by
  refine h.tries hs (fun r hr howned => ?_) (fun _ => h.placed.ended) fun _ => h.placed.ended
  obtain ⟨lease, hheld, -⟩ := h.holder hr rfl howned
  obtain ⟨hstate, hclaim⟩ := ownedBy_iff.1 howned
  exact ⟨by decide, ⟨⟨lease, hheld⟩, nofun, nofun⟩, ⟨_, rfl, hstate, hclaim, rfl⟩,
    h.placed.acts .renewed rfl (by decide) (fun _ => .inl rfl) nofun⟩

theorem turn_settle (h : Own first entries (w.store.effects effectId) pid ⟨some claimId, .ran⟩) {state : EffectState}
    {resultJson : Option Text} {reason : Option String}
    {answer : Answer (.settleEffectFromClaim effectId claimId state resultJson reason)}
    (hstate : state = .confirmed ∨ state = .reconciled)
    (hs : serve host job (.settleEffectFromClaim effectId claimId state resultJson reason) hint w = some (answer, w')) :
    Turns host first entries effectId w w' pid hint ⟨some claimId, .ran⟩ answer := by
  have hran : ReconcilePhase.Ran .ran := .inr (.inl rfl)
  refine h.tries hs (fun r hr hlive => ?_) (fun _ => h.placed.goesOn hran (.inr (.inl rfl)))
    fun _ => h.placed.goesOn hran (.inr (.inr rfl))
  simp only [Bool.and_eq_true, decide_eq_true_eq] at hlive
  obtain ⟨lease, hheld, hlease⟩ := h.holder hr rfl hlive.1
  rw [hlease, getD_some] at hlive
  exact ⟨by decide, ⟨⟨lease, hheld, hlive.2⟩, nofun, nofun⟩, ⟨_, rfl, hstate⟩,
    h.placed.acts .ended rfl (by decide) (fun hran => by simp [ReconcilePhase.Ran] at hran) nofun⟩

theorem turn_release (h : Own first entries (w.store.effects effectId) pid ⟨some claimId, .failed⟩)
    {answer : Answer (.releaseEffectClaim effectId claimId)}
    (hs : serve host job (.releaseEffectClaim effectId claimId) hint w = some (answer, w')) :
    Turns host first entries effectId w w' pid hint ⟨some claimId, .failed⟩ answer := by
  have hran : ReconcilePhase.Ran .failed := .inr (.inr (.inr (.inl rfl)))
  refine h.tries hs (fun r hr howned => ?_)
    (fun hlost => ⟨nofun, h.placed.own, fun _ => h.placed.renewed hran, fun _ c lease hheld => ?_⟩)
    fun _ => h.placed.ended
  · obtain ⟨lease, hheld, -⟩ := h.holder hr rfl howned
    exact ⟨by decide, ⟨⟨lease, hheld⟩, nofun, nofun⟩, ⟨_, rfl, rfl⟩,
      h.placed.acts .released rfl (by decide) (fun _ => .inr hran) fun _ => rfl⟩
  · -- the holder's claim is the call's own, and the release did not find it
    obtain ⟨e, he, hpid, rfl⟩ := Claim.standing_held_mem hheld
    have hc : some claimId = some e.claim := h.placed.own e he hpid
    have hfits := h.fits
    rw [hheld] at hfits
    obtain ⟨r, hr, hstate, hid, -⟩ := hfits
    exact hlost r hr (ownedBy_iff.2 ⟨hstate, hid.trans hc.symm⟩)

theorem turn_run (h : Own first entries (w.store.effects effectId) pid ⟨some claimId, .renewed⟩) {tool : String}
    {argumentsJson : Text} {answer : Answer (.runReconcile effectId tool argumentsJson claimId)}
    (hs : serve host job (.runReconcile effectId tool argumentsJson claimId) hint w = some (answer, w')) :
    Turns host first entries effectId w w' pid hint ⟨some claimId, .renewed⟩ answer := by
  rw [Turns, reads_nothing hs rfl]
  have hran : ReconcilePhase.Ran .renewed := .inl rfl
  obtain ⟨phase, hnext, hlate⟩ : ∃ phase, ReconcileStage.next host ⟨some claimId, .renewed⟩
      (.runReconcile effectId tool argumentsJson claimId) answer = ⟨some claimId, phase⟩ ∧
      (phase = .ran ∨ phase = .overtaken ∨ phase = .failed) := by
    cases answer with
    | error => exact ⟨.failed, rfl, .inr (.inr rfl)⟩
    | ok outcome =>
      simp only [ReconcileStage.next, ReconcileStage.nextPhase]
      cases host.reconcileOutcome outcome with
      | ok => exact ⟨.ran, rfl, .inl rfl⟩
      | error => exact ⟨.failed, rfl, .inr (.inr rfl)⟩
  rw [hnext]
  by_cases hrow : w.claimedRow effectId tool argumentsJson claimId = true
  · obtain ⟨r, hr, howned⟩ : ∃ r, w.store.effects effectId = some r ∧ Store.ownedBy r claimId = true := by
      unfold World.claimedRow at hrow
      split at hrow
      · rename_i r hr
        simp only [Bool.and_eq_true] at hrow
        exact ⟨r, hr, hrow.1.1⟩
      · cases hrow
    obtain ⟨lease, hheld, -⟩ := h.holder hr rfl howned
    obtain ⟨c, time, hc, hrenewed⟩ := h.placed.renewed hran
    cases hc
    simp only [callEntry, enter, hrow, and_self, if_true]
    refine ⟨Claim.valid_concat.2 ⟨h.valid, ⟨⟨lease, hheld⟩, nofun, fun _ => ⟨time, hrenewed⟩⟩⟩, ?_, ?_, fun _ => rfl⟩
    · rw [toList_some, Claim.standing_concat]
      exact h.fits
    · refine h.placed.acts phase rfl ?_ (fun _ => .inr hran) ?_
      · rcases hlate with rfl | rfl | rfl <;> decide
      · rcases hlate with rfl | rfl | rfl <;> nofun
  · simp only [callEntry, enter, hrow]
    exact h.quiet (h.placed.goesOn hran hlate)

/-- One call of a reconciliation of the effect. -/
theorem turn {op : Op} {answer : Answer op} (h : Own first entries (w.store.effects effectId) pid stage)
    (hallows : stage.allows effectId op) (hs : serve host job op hint w = some (answer, w')) :
    Turns host first entries effectId w w' pid hint stage answer := by
  obtain ⟨claim, phase⟩ := stage
  cases op
  case getEffect id =>
    obtain ⟨rfl, -⟩ := hallows
    exact turn_getEffect h hs
  case challenge => exact turn_challenge h hallows hs
  case claimEffectForReconcile id claimId =>
    obtain ⟨rfl, rfl, rfl⟩ := hallows
    exact turn_claim h hs
  case renewEffectClaim id claimId =>
    obtain ⟨rfl, rfl, rfl⟩ := hallows
    exact turn_renew h hs
  case runReconcile id tool argumentsJson claimId =>
    obtain ⟨rfl, rfl, rfl⟩ := hallows
    exact turn_run h hs
  case settleEffectFromClaim id claimId state resultJson reason =>
    obtain ⟨rfl, rfl, rfl, hstate⟩ := hallows
    exact turn_settle h hstate hs
  case releaseEffectClaim id claimId =>
    obtain ⟨rfl, rfl, rfl⟩ := hallows
    exact turn_release h hs
  all_goals exact hallows.elim

end Turns

end Portmark.Host
