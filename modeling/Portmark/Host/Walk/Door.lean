/-
The walk from the start of a job: the admission of an envelope up to its first save, a redelivery,
and a reconciliation. With it every process of every pool keeps to its record (`runWatch`).
-/
import Portmark.Host.Serve
import Portmark.Host.Walk.Run

namespace Portmark.Host

open Lib Lib.Json Security Code

variable {host : AgentHost} {e : AgentEnvelope} {s s' : Trail}

/-! ## Before the checkpoint is loaded -/

structure Knocking (e : AgentEnvelope) (policy : HostPolicy) (s : Trail) : Prop where
  envelope : s.envelope = some e
  policies : policy ∈ s.policies
  policy : s.policy = some (.plain policy)
  loaded : s.loaded = none
  ceiling : s.ceiling = none
  generation : s.generation = e.state.checkpointGeneration
  saved : s.saved = false

theorem knocking_start (process : Nat) (e : AgentEnvelope) (hreload : host.reloadPolicy = false) :
    Knocking e host.policy (Trail.start host (.run process e)) := by
  refine ⟨rfl, ?_, ?_, rfl, rfl, rfl, rfl⟩
  · simp [Trail.start, hreload]
  · simp [Trail.start, hreload]

theorem knocking_loads (process : Nat) (e : AgentEnvelope) (hreload : host.reloadPolicy = true) (fresh : HostPolicy) :
    Knocking e fresh ((Trail.start host (.run process e)).loads fresh) := by
  refine ⟨rfl, List.mem_append_right _ (List.mem_singleton_self _), ?_, rfl, rfl, rfl, rfl⟩
  simp [Trail.loads, Trail.start, hreload, Trail.adopt]

theorem meets_activePolicy_start (process : Nat) (e : AgentEnvelope) :
    Walks host (host.activePolicy : AgentHost.Door HostPolicy)
      (fun r _ s' => match r with
        | .ok policy => Knocking e policy s' ∧ s'.receipt = none
        | .error _ => s'.receipt = none) () (Trail.start host (.run process e)) := by
  cases hreload : host.reloadPolicy
  · unfold AgentHost.activePolicy
    rw [hreload]
    exact ⟨knocking_start process e hreload, rfl⟩
  refine (meets_activePolicy hreload).mono fun r _ s' hr => ?_
  obtain ⟨-, hr⟩ := hr
  cases r with
  | ok fresh =>
    obtain rfl : s' = _ := hr
    exact ⟨knocking_loads process e hreload fresh, rfl⟩
  | error =>
    obtain rfl | ⟨fresh, rfl⟩ := (hr : s' = _ ∨ _) <;> rfl

/-! ## A redelivery -/

def Redelivered (host : AgentHost) (e : AgentEnvelope) (existing : MigrationReceipt) (result : RunResult) : Prop :=
  existing.bindings.permitNonce = e.permit.nonce ∧
  host.migrationEnvelopeDigest e = .ok existing.bindings.envelopeDigest ∧
  ∃ receipt, result.migrationReceipt = some receipt ∧
    (receipt = existing ∨ receipt.bindings = { existing.bindings with destinationHostId := host.hostId })

theorem meets_challengeEvidence {Q : Except Fault Value → Unit → Trail → Prop} (hQ : ∀ r, Q r () s) :
    Walks host (host.challengeEvidence e) Q () s :=
  meets_ite (fun _ => meets_unseen rfl hQ) fun _ => hQ _

theorem meets_redeliveredReceipt {existing : MigrationReceipt} (henvelope : s.envelope = some e)
    (hreceipt : s.receipt = some existing) : Walks host (host.redeliveredReceipt e existing)
      (fun r _ s' => s' = s ∧ ∀ receipt, r = .ok receipt →
        receipt = existing ∨ receipt.bindings = { existing.bindings with destinationHostId := host.hostId }) () s := by
  unfold AgentHost.redeliveredReceipt
  split
  · have hevidence : Walks host
        (exceptSecurity (some <$> host.challengeEvidence e) fun _ => pure none) (fun _ _ s' => s' = s) () s := by
      refine Code.Meets.tryCatch (R := fun _ _ s' => s' = s) ?_ (fun _ _ _ h => h) fun error _ s' h => ?_
      · refine meets_bind.2 (meets_challengeEvidence fun r => ?_)
        cases r <;> exact rfl
      · split <;> exact h
    refine hevidence.bind ?_ ?_
    · rintro evidence _ s rfl
      rcases evidence with _ | _
      · refine ⟨rfl, ?_⟩
        rintro _ ⟨⟩
        exact .inl rfl
      refine meets_bind.2 (meets_call.2 ⟨⟨e, existing, henvelope, hreceipt, rfl, rfl⟩, fun answer _ => ?_⟩)
      rcases answer with error | _
      · exact ⟨rfl, fun _ hr => by cases hr⟩
      · refine ⟨rfl, ?_⟩
        rintro _ ⟨⟩
        exact .inr rfl
    · rintro error _ s rfl
      exact ⟨rfl, fun _ hr => by cases hr⟩
  · refine ⟨rfl, ?_⟩
    rintro _ ⟨⟩
    exact .inl rfl

variable {digest : String}

theorem meets_redeliver {existing : MigrationReceipt} (henvelope : s.envelope = some e) (hloaded : s.loaded = none)
    (hreceipt : s.receipt = some existing) (hdigest : host.migrationEnvelopeDigest e = .ok digest) :
    Walks host (host.redeliver e digest existing)
      (fun r _ s' => s'.receipt = some existing ∧ ∀ result, r = .ok result →
        Redelivered host e existing result) () s := by
  unfold AgentHost.redeliver
  split
  · exact ⟨hreceipt, fun _ hr => by cases hr⟩
  rename_i hmatch
  rw [not_or, not_not, not_not] at hmatch
  obtain ⟨hnonce, hsame⟩ := hmatch
  refine (meets_redeliveredReceipt henvelope hreceipt).bind ?_ ?_
  · rintro receipt _ s ⟨rfl, hbindings⟩
    refine meets_bind.2 (meets_call.2 ⟨⟨e, henvelope, rfl, hloaded⟩, fun answer _ => ?_⟩)
    rcases answer with error | stored
    · exact ⟨hreceipt, fun _ hr => by cases hr⟩
    · refine ⟨hreceipt, ?_⟩
      rintro _ ⟨⟩
      exact ⟨hnonce, by rw [hsame]; exact hdigest, receipt, rfl, hbindings receipt rfl⟩
  · rintro error _ s ⟨rfl, -⟩
    exact ⟨hreceipt, fun _ hr => by cases hr⟩

/-! ## An admission -/

structure Loaded (host : AgentHost) (e kept : AgentEnvelope) (policy : HostPolicy) (stored : Option AgentState)
    (effective : Permit) (s : Trail) : Prop where
  envelope : s.envelope = some e
  policy : s.policy = some (.plain policy)
  receipt : s.receipt = none
  loaded : s.loaded = some stored
  asked : stored.isSome = true → s.asked = true
  generation : s.generation = e.state.checkpointGeneration
  saved : s.saved = false
  manifest : kept.manifest = e.manifest
  migrates : kept.migrates = e.migrates
  permit : ∃ allowed, kept.permit = { e.permit with delegationAllowed := allowed }
  delegation : s.ceiling.isSome = true → kept.permit.delegationAllowed = false
  fresh : stored = none → AgentHost.checkFresh e = .ok ()
  capped : Capped host s e effective

variable {effective : Permit} {now : Int} {policy : HostPolicy}

theorem capped_effectivePermit (hpolicy : policy ∈ s.policies) (hceiling : s.ceiling = none)
    (h : policy.effectivePermit host.order e.manifest e.permit now = .ok effective) : Capped host s e effective where
  settled hsound := effectivePermit_settled hsound.permit (hsound.policies policy hpolicy) h
  component text htext := by
    rw [hceiling] at htext
    cases htext
  below hsound text ceiling htext := by
    rw [hceiling] at htext
    cases htext

theorem capped_capToCeiling {capped : Permit} {text : Text} (hpolicy : policy ∈ s.policies)
    (htext : s.ceiling = some text) (h : policy.effectivePermit host.order e.manifest e.permit now = .ok effective)
    (hcap : capToCeiling host.order effective text e.manifest = .ok capped) : Capped host s e capped := by
  obtain ⟨ceiling, grants, hread, hprovider, hdigest, hgrants, hcapped⟩ := capToCeiling_ok hcap
  have heffective : SoundInputs host s e → Settled host.env effective.grants := fun hsound =>
    effectivePermit_settled hsound.permit (hsound.policies policy hpolicy) h
  have hceiling : ∀ text' ceiling', s.ceiling = some text' → readCeiling text' = .ok ceiling' → ceiling' = ceiling := by
    intro text' ceiling' htext' hread'
    rw [htext] at htext'
    cases htext'
    rw [hread] at hread'
    cases hread'
    rfl
  refine ⟨fun hsound => ?_, ?_, fun hsound text' ceiling' htext' hread' => ?_⟩
  · have hsettled := hsound.ceiling text ceiling htext hread
    exact (capToCeiling_below hread (fun g hg => (hsettled g hg).1) (heffective hsound) hcap).1
  · intro text' htext'
    rw [htext] at htext'
    cases htext'
    exact ⟨ceiling, hread, hprovider, hdigest⟩
  · cases hceiling text' ceiling' htext' hread'
    have hsettled := hsound.ceiling text ceiling htext hread
    obtain ⟨-, haccepts, -, hright⟩ := intersectGrants_below hgrants (heffective hsound) fun g hg => (hsettled g hg).1
    subst hcapped
    exact ⟨fun tool arguments hacc => (haccepts tool arguments hacc).2,
      fun tool field => hright tool field fun g hg => (hsettled g hg).2,
      (effective.budget.intersect_le ceiling.budget).2, min_le_right _ _⟩

theorem meets_verifyPreviousAuditHead {Q : Except Fault Unit → Unit → Trail → Prop} (hQ : ∀ r, Q r () s) :
    Walks host (AgentHost.verifyPreviousAuditHead e) Q () s := by
  refine meets_lift_bind (fun _ _ => ?_) fun _ => hQ _
  refine meets_lift_bind (fun _ _ => ?_) fun _ => hQ _
  exact meets_unseen rfl hQ

/-- The chain a run starts from: a migration without one is anchored. -/
theorem meets_auditStart {fresh : Bool} (henvelope : s.envelope = some e) (hsaved : s.saved = false) :
    Walks host (AgentHost.auditStart e fresh)
      (fun r _ s' => s' = s ∧ (∀ start, r = .ok start → False) ∨ ∃ head, s' = { s with head := some head } ∧
        ∀ start, r = .ok start → (start.anchors = true ↔ e.migrates = true ∧ head = none)) () s := by
  refine meets_bind.2 (meets_call.2 ⟨⟨e, henvelope, rfl, hsaved⟩, fun answer _ => ?_⟩)
  rcases answer with error | head
  · exact .inl ⟨rfl, fun _ hr => by cases hr⟩
  have hraise : ∀ error : Fault, ∃ head', { s with head := some head } = { s with head := some head' } ∧
      ∀ start, (.error error : Except Fault AgentHost.AuditStart) = .ok start →
        (start.anchors = true ↔ e.migrates = true ∧ head' = none) :=
    fun error => ⟨head, rfl, fun _ hr => by cases hr⟩
  refine meets_ite (fun hmigrates => ?_) fun hmigrates => ?_
  · rcases head with _ | ⟨hash, sequence⟩
    · refine meets_bind.2 (meets_verifyPreviousAuditHead fun r => ?_)
      cases r with
      | error error => exact .inr (hraise error)
      | ok _ =>
        refine .inr ⟨none, rfl, ?_⟩
        rintro _ ⟨⟩
        exact ⟨fun _ => ⟨hmigrates, rfl⟩, fun _ => rfl⟩
    · refine meets_lift_bind (fun _ _ => ?_) fun error => .inr (hraise error)
      refine .inr ⟨some (hash, sequence), rfl, ?_⟩
      simp
  · rcases head with _ | ⟨hash, sequence⟩
    · refine .inr ⟨none, rfl, ?_⟩
      simp [hmigrates]
    · refine meets_lift_bind (fun _ _ => ?_) fun error => .inr (hraise error)
      refine .inr ⟨some (hash, sequence), rfl, ?_⟩
      simp

theorem meets_receiptBinding : Walks host (host.receiptBinding e digest)
      (fun r _ s' => s' = s ∧ ∀ binding, r = .ok binding → binding.originalTaskId = e.state.taskId ∧
        binding.sourceHostId = e.previousAuditHostId ∧ binding.permitNonce = e.permit.nonce ∧
        binding.envelopeDigest = digest) () s := by
  refine meets_ite (fun _ => ?_) fun _ => ?_
  · refine meets_bind.2 (meets_bind.2 (meets_challengeEvidence fun r => ?_))
    cases r with
    | error => exact ⟨rfl, fun _ hr => by cases hr⟩
    | ok =>
      refine ⟨rfl, ?_⟩
      rintro _ ⟨⟩
      exact ⟨rfl, rfl, rfl, rfl⟩
  · refine ⟨rfl, ?_⟩
    rintro _ ⟨⟩
    exact ⟨rfl, rfl, rfl, rfl⟩

theorem entering_openRun {kept : AgentEnvelope} {stored : Option AgentState} {audit : AuditLog}
    {binding : Option ReceiptBinding} {head : Option (String × Int)}
    (h : Loaded host e kept policy stored effective s)
    (hissues : e.migrates = true → head = none → binding.isSome = true)
    (hbinding : ∀ b, binding = some b → e.migrates = true ∧ b.originalTaskId = e.state.taskId ∧
      b.sourceHostId = e.previousAuditHostId ∧ b.permitNonce = e.permit.nonce ∧
      host.migrationEnvelopeDigest e = .ok b.envelopeDigest) :
    Entering host e ⟨kept, (stored.map (·.checkpointGeneration)).getD 0⟩
      ⟨if stored.isNone then some (AgentHost.permitNonceRow e) else none, binding⟩
      ⟨{ e.state with
          taskId := e.storedTaskId, status := .running
          step := (stored.map (·.step)).getD e.state.step
          toolCalls := (stored.map (·.toolCalls)).getD e.state.toolCalls }, audit, 0, ⟨.plain policy, effective⟩⟩
      { s with head := some head } := by
  have hloaded : ∀ stored', s.loaded = some stored' → stored' = stored := by
    intro stored' hstored'
    rw [h.loaded] at hstored'
    cases hstored'
    rfl
  refine
    { envelope := h.envelope, manifest := h.manifest, migrates := h.migrates, permit := h.permit,
      delegation := h.delegation, admission := ?_, receipt := h.receipt
      loaded := by show s.loaded.isSome = true; rw [h.loaded]; rfl
      asked := fun stored' hsome => h.asked (by rw [← hloaded _ hsome]; rfl)
      task := rfl, generation := h.generation.symm, capped := ?_, first := ⟨?_, ?_, ?_, ?_, ?_, ?_⟩,
      policy := h.policy, running := rfl }
  · show (stored.map (·.checkpointGeneration)).getD 0 = (s.loaded.bind id).elim 0 (·.checkpointGeneration)
    rw [h.loaded]
    cases stored <;> rfl
  · exact ⟨fun hsound => h.capped.settled ⟨hsound.permit, hsound.policies, hsound.ceiling⟩, h.capped.component,
      fun hsound => h.capped.below ⟨hsound.permit, hsound.policies, hsound.ceiling⟩⟩
  · intro _ hnone
    rw [← hloaded none hnone]
    rfl
  · rintro (hsaved | ⟨stored', hsome⟩)
    · have := h.saved.symm.trans hsaved
      cases this
    · rw [← hloaded _ hsome]
      rfl
  · intro _ stored' hsome
    rw [← hloaded _ hsome]
    exact ⟨rfl, rfl⟩
  · intro _ hnone
    exact h.fresh (hloaded none hnone).symm
  · intro _ _ hhead hmigrates
    cases hhead
    exact hissues hmigrates rfl
  · intro b hb
    exact ⟨h.saved, hbinding b hb⟩

theorem meets_openRun {kept : AgentEnvelope} {stored : Option AgentState}
    (h : Loaded host e kept policy stored effective s)
    (hdigest : e.migrates = true → host.migrationEnvelopeDigest e = .ok digest) :
    Walks host (host.openRun e digest policy stored effective kept)
      (fun r _ s' => s'.receipt = none ∧
        ∀ admission, r = .ok admission → Entering host e admission.visit admission.first admission.local_ s') () s := by
  refine (meets_auditStart h.envelope h.saved).bind ?_ ?_
  · rintro start _ s' (⟨-, hfalse⟩ | ⟨head, rfl, hanchors⟩)
    · exact (hfalse start rfl).elim
    have hanchors := hanchors start rfl
    refine meets_ite (fun hanchor => ?_) fun hanchor => ?_
    · refine Code.Meets.bind (R := fun r _ s' => s' = { s with head := some head } ∧ ∀ binding, r = .ok binding →
        ∃ b, binding = some b ∧ b.originalTaskId = e.state.taskId ∧ b.sourceHostId = e.previousAuditHostId ∧
          b.permitNonce = e.permit.nonce ∧ b.envelopeDigest = digest) ?_ ?_ ?_
      · refine meets_receiptBinding.bind ?_ ?_
        · rintro b _ s' ⟨rfl, hb⟩
          refine ⟨rfl, ?_⟩
          rintro _ ⟨⟩
          exact ⟨b, rfl, hb b rfl⟩
        · rintro error _ s' ⟨rfl, -⟩
          exact ⟨rfl, fun _ hr => by cases hr⟩
      · rintro binding _ s' ⟨rfl, hb⟩
        obtain ⟨b, rfl, htask, hsource, hnonce, hd⟩ := hb binding rfl
        refine meets_lift_bind (fun audit _ => ?_) fun error => ⟨h.receipt, fun _ hr => by cases hr⟩
        refine ⟨h.receipt, ?_⟩
        rintro _ ⟨⟩
        refine entering_openRun h (fun _ _ => rfl) ?_
        rintro _ ⟨⟩
        have hmigrates := (hanchors.1 hanchor).1
        exact ⟨hmigrates, htask, hsource, hnonce, by rw [hd]; exact hdigest hmigrates⟩
      · rintro error _ s' ⟨rfl, -⟩
        exact ⟨h.receipt, fun _ hr => by cases hr⟩
    · refine meets_lift_bind (fun audit _ => ?_) fun error => ⟨h.receipt, fun _ hr => by cases hr⟩
      refine ⟨h.receipt, ?_⟩
      rintro _ ⟨⟩
      refine entering_openRun h (fun hmigrates hhead => ?_) fun _ hb => by cases hb
      exact absurd (hanchors.2 ⟨hmigrates, hhead⟩) hanchor
  · rintro error _ s' (⟨rfl, -⟩ | ⟨head, rfl, -⟩)
    · exact ⟨h.receipt, fun _ hr => by cases hr⟩
    · exact ⟨h.receipt, fun _ hr => by cases hr⟩

theorem meets_resumePermit {stored : AgentState} (h : Knocking e policy s) (hreceipt : s.receipt = none)
    (heffective : policy.effectivePermit host.order e.manifest e.permit now = .ok effective) :
    Walks host (host.resumePermit e effective)
      (fun r _ s' => s'.receipt = none ∧ ∀ permit kept, r = .ok (permit, kept) →
        Loaded host e kept policy (some stored) permit s') () { s with loaded := some (some stored) } := by
  refine meets_bind.2 (meets_call.2 ⟨⟨e, h.envelope, rfl, stored, rfl⟩, fun answer _ => ?_⟩)
  rcases answer with error | ceiling
  · exact ⟨hreceipt, fun _ _ hr => by cases hr⟩
  cases ceiling with
  | none =>
    refine meets_ite (fun _ => ⟨hreceipt, fun _ _ hr => by cases hr⟩) fun _ => ⟨hreceipt, ?_⟩
    rintro _ _ ⟨⟩
    exact
      { envelope := h.envelope, policy := h.policy, receipt := hreceipt, loaded := rfl, asked := fun _ => rfl,
        generation := h.generation, saved := h.saved, manifest := rfl, migrates := rfl,
        permit := ⟨e.permit.delegationAllowed, rfl⟩, delegation := (fun hsome => by cases hsome)
        fresh := fun hnone => by cases hnone
        capped := capped_effectivePermit h.policies rfl heffective }
  | some =>
    refine meets_lift_bind (fun capped hcapped => ?_) fun _ => ⟨hreceipt, fun _ _ hr => by cases hr⟩
    refine meets_unseen_bind rfl (fun _ => ⟨hreceipt, ?_⟩) fun _ => ⟨hreceipt, fun _ _ hr => by cases hr⟩
    rintro _ _ ⟨⟩
    exact
      { envelope := h.envelope, policy := h.policy, receipt := hreceipt, loaded := rfl, asked := fun _ => rfl,
        generation := h.generation, saved := h.saved, manifest := rfl, migrates := rfl, permit := ⟨false, rfl⟩,
        delegation := fun _ => rfl,
        fresh := (fun hnone => by cases hnone), capped := capped_capToCeiling h.policies rfl heffective hcapped }

theorem meets_enter (h : Knocking e policy s) (hreceipt : s.receipt = none)
    (hdigest : e.migrates = true → host.migrationEnvelopeDigest e = .ok digest) :
    Walks host (host.enter e digest policy)
      (fun r _ s' => s'.receipt = none ∧
        ∀ admission, r = .ok admission → Entering host e admission.visit admission.first admission.local_ s') () s := by
  have hraise : ∀ error : Fault, s.receipt = none ∧ ∀ admission : AgentHost.Admission,
      (.error error : Except Fault AgentHost.Admission) = .ok admission →
      Entering host e admission.visit admission.first admission.local_ s := fun _ => ⟨hreceipt, fun _ hr => by cases hr⟩
  refine meets_unseen_bind rfl (fun now => ?_) hraise
  refine meets_lift_bind (fun effective heffective => ?_) hraise
  refine meets_unseen_bind rfl (fun _ => ?_) hraise
  refine meets_lift_bind (fun _ _ => ?_) hraise
  refine meets_lift_bind (fun _ _ => ?_) hraise
  refine meets_bind.2 (meets_call.2 ⟨⟨e, h.envelope, rfl, h.loaded⟩, fun answer _ => ?_⟩)
  rcases answer with error | stored
  · exact hraise error
  cases stored with
  | none =>
    refine meets_lift_bind (fun _ hfresh => ?_) fun _ => ⟨hreceipt, fun _ hr => by cases hr⟩
    refine meets_openRun ?_ hdigest
    exact
      { envelope := h.envelope, policy := h.policy, receipt := hreceipt, loaded := rfl
        asked := fun hsome => by cases hsome
        generation := h.generation, saved := h.saved, manifest := rfl, migrates := rfl,
        permit := ⟨e.permit.delegationAllowed, rfl⟩,
        delegation := fun hsome => absurd hsome (by show ¬ s.ceiling.isSome = true; rw [h.ceiling]; decide)
        fresh := fun _ => hfresh
        capped := capped_effectivePermit h.policies h.ceiling heffective }
  | some =>
    refine (meets_resumePermit h hreceipt heffective).bind ?_ ?_
    · rintro ⟨permit, kept⟩ _ s' ⟨-, hloaded⟩
      exact meets_openRun (hloaded permit kept rfl) hdigest
    · rintro error _ s' ⟨hreceipt', -⟩
      exact ⟨hreceipt', fun _ hr => by cases hr⟩

def Through (host : AgentHost) (e : AgentEnvelope) : Except Fault (RunResult ⊕ AgentHost.Admission) → Trail → Prop
  | .ok (.inl result), s => ∃ existing, s.receipt = some existing ∧ Redelivered host e existing result
  | .ok (.inr admission), s => Entering host e admission.visit admission.first admission.local_ s
  | .error _, _ => True

theorem Trail.receipt_eq {receipt : Option MigrationReceipt} (h : s.receipt = receipt) : { s with receipt } = s := by
  subst h
  rfl

theorem meets_door (host : AgentHost) (process : Nat) (e : AgentEnvelope) :
    Walks host (host.door e) (fun r _ s' => Through host e r s') () (Trail.start host (.run process e)) := by
  refine (meets_activePolicy_start process e).bind ?_ fun _ _ _ _ => trivial
  rintro policy _ s ⟨h, hreceipt⟩
  refine meets_unseen_bind rfl (fun _ => ?_) fun _ => trivial
  refine meets_lift_bind (fun digest hdigest => ?_) fun _ => trivial
  have hdigest : e.migrates = true → host.migrationEnvelopeDigest e = .ok digest := by
    intro hmigrates
    unfold AgentHost.incomingDigest at hdigest
    rwa [if_pos hmigrates] at hdigest
  have henter : Walks host
      (do let admission ← host.enter e digest policy; return .inr admission)
      (fun r _ s' => Through host e r s') () s := by
    refine (meets_enter h hreceipt hdigest).bind ?_ fun _ _ _ _ => trivial
    rintro admission _ s' ⟨-, hentering⟩
    exact hentering admission rfl
  refine meets_ite (fun hmigrates => ?_) fun _ => henter
  refine meets_bind.2 (meets_call.2 ⟨⟨e, h.envelope, rfl⟩, fun answer _ => ?_⟩)
  rcases answer with error | existing
  · exact trivial
  have hnext : s.next (.getMigrationReceipt e.storedTaskId) (.ok existing) = { s with receipt := existing } :=
    if_pos (by rw [h.loaded]; rfl)
  rw [hnext]
  cases existing with
  | none =>
    rw [Trail.receipt_eq hreceipt]
    exact henter
  | some existing =>
    refine Code.Meets.bind (Q := fun r _ s' => Through host e r s')
      (meets_redeliver (s := { s with receipt := some existing }) h.envelope h.loaded rfl (hdigest hmigrates)) ?_
      fun _ _ _ _ => trivial
    rintro result _ s' ⟨hexisting, hresult⟩
    exact ⟨existing, hexisting, hresult result rfl⟩

/-! ## Every job -/

def RunEnds (host : AgentHost) : Job → Except Fault Outcome → Trail → Prop
  | .run _ e, outcome, s => ∀ existing result, s.receipt = some existing → outcome = .ok (.result result) →
      Redelivered host e existing result
  | .reconcile _ _ _, _, _ => True

theorem follows_run (process : Nat) (e : AgentEnvelope) :
    (program host (.run process e)).Follows (watcher host) (RunEnds host (.run process e))
      (Trail.start host (.run process e)) := by
  refine Prog.follows_bind.2 (Prog.follows_bind.2 ?_)
  refine Prog.Follows.mono ?_ (meets_door host process e)
  rintro ⟨outcome, _⟩ s h
  rcases outcome with error | result | admission
  · exact fun _ _ _ hr => by cases hr
  · obtain ⟨existing, hexisting, hredelivered⟩ := h
    intro existing' result' hexisting' hr
    cases hr
    rw [hexisting] at hexisting'
    cases hexisting'
    exact hredelivered
  · refine Prog.follows_bind.2 (Prog.Follows.mono ?_ (meets_admitted h))
    rintro ⟨outcome, _⟩ s hreceipt existing _ hexisting
    rw [hreceipt] at hexisting
    cases hexisting

theorem meets_free {β : Type} {op : Op} {f : Result op → AgentHost.Door β} (h : ∀ s : Trail, s.allows host op)
    (hf : ∀ a s, Walks host (f a) (fun _ _ _ => True) () s) : Walks host (call op >>= f) (fun _ _ _ => True) () s := by
  refine meets_bind.2 (meets_call.2 ⟨h s, fun answer _ => ?_⟩)
  cases answer with
  | error => exact trivial
  | ok a => exact hf a _

theorem meets_effectStateAfterLostClaim (effectId : String) :
    Walks host (AgentHost.effectStateAfterLostClaim effectId) (fun _ _ _ => True) () s :=
  meets_free (fun _ => trivial) fun _ _ => trivial

theorem meets_settleReconcile (effectId tool : String) (argumentsJson : Text) (claimId : String) :
    Walks host (host.settleReconcile effectId tool argumentsJson claimId) (fun _ _ _ => True) () s := by
  refine meets_free (fun _ => trivial) fun outcome s => ?_
  refine meets_lift_bind ?_ fun _ => trivial
  rintro ⟨landed, resultJson⟩ -
  have hrest : ∀ settled s, Walks host
      (if settled = true then return (if landed = true then "confirmed" else "reconciled")
        else AgentHost.effectStateAfterLostClaim effectId : AgentHost.Door String) (fun _ _ _ => True) () s :=
    fun settled s => meets_ite (fun _ => trivial) fun _ => meets_effectStateAfterLostClaim effectId
  refine meets_ite (fun _ => ?_) fun _ => ?_
  · exact meets_free (fun _ => .inl rfl) hrest
  · exact meets_free (fun _ => .inr rfl) hrest

theorem meets_reconcileEffect (host : AgentHost) (effectId taskId : String) :
    Walks host (host.reconcileEffect effectId taskId) (fun _ _ _ => True) () s := by
  refine meets_free (fun _ => trivial) fun row s => ?_
  cases row with
  | none => exact trivial
  | some row =>
    refine meets_ite (fun _ => trivial) fun _ => meets_ite (fun _ => trivial) fun _ => ?_
    refine meets_free (fun _ => trivial) fun claimId s => meets_free (fun _ => trivial) fun (claimed : Bool) s => ?_
    refine meets_ite (fun _ => ?_) fun _ => ?_
    · refine meets_free (fun _ => trivial) fun (renewed : Bool) s => ?_
      refine meets_ite (fun _ => ?_) fun _ => meets_effectStateAfterLostClaim effectId
      refine (meets_settleReconcile effectId row.tool row.argumentsJson claimId).tryCatch (fun _ _ _ _ => trivial) ?_
      exact fun _ _ _ _ => meets_free (fun _ => trivial) fun _ _ => trivial
    · exact meets_free (fun _ => trivial) fun _ _ => trivial

theorem follows_reconcile (process : Nat) (effectId taskId : String) :
    (program host (.reconcile process effectId taskId)).Follows (watcher host)
      (RunEnds host (.reconcile process effectId taskId)) (Trail.start host (.reconcile process effectId taskId)) := by
  refine Prog.follows_bind.2 (Prog.Follows.mono ?_ (meets_reconcileEffect host effectId taskId))
  exact fun _ _ _ => trivial

def runWatch (host : AgentHost) : Machine.Watch (machine host) where
  monitor := watcher host
  init := Trail.start host
  post := RunEnds host
  starts job := by
    cases job with
    | run process e => exact follows_run process e
    | reconcile process effectId taskId => exact follows_reconcile process effectId taskId
  served := serve_answers

end Portmark.Host
