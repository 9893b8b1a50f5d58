/-
What every process keeps to, in every interleaving of runs with crashes and with the operator's and
the dispatcher's work: a launch that needs an approval has redeemed one for itself, a side effect is
on the ledger, a run stays under the authority recorded for its task, a migration leaves with the save
that closes its task, and a receipt goes on saying what it says.
-/
import Portmark.Host.Tables

namespace Portmark.Host

open Lib Lib.Json Security List

def recordAfter (host : AgentHost) (job : Job) (calls : List (Call Answer)) : Trail :=
  (watcher host).after (Trail.start host job) calls

theorem recordAfter_concat (host : AgentHost) (job : Job) (calls : List (Call Answer)) (c : Call Answer) :
    recordAfter host job (calls ++ [c]) = (recordAfter host job calls).next c.op c.answer :=
  Monitor.after_concat ..

theorem recordAfter_envelope (host : AgentHost) (job : Job) (calls : List (Call Answer)) :
    (recordAfter host job calls).envelope = job.envelope :=
  trail_envelope host ⟨job, .ret (.error .taskCancelled), calls, true⟩

variable {host : AgentHost}

/-- What the allowed calls of the processes do to the world, and the acts, an event does. -/
theorem step_world {pool : HostPool} {R : World → World → Prop} (hkept : (runWatch host).AllKept pool)
    (hsame : ∀ w, R w w) (hact : ∀ a, R pool.world (act a pool.world))
    (hserve : ∀ p ∈ pool.procs, ∀ op hint (answer : Answer op) w', (trail host p).allows host op →
      serve host p.job op hint pool.world = some (answer, w') → R pool.world w') (event : HostEvent) :
    R pool.world ((machine host).step pool event).world := by
  have hmoves := (machine host).step_moves pool event
  generalize (machine host).step pool event = pool' at hmoves
  cases hmoves with
  | idle | started | crashed => exact hsame _
  | acted a => exact hact a
  | served hp hs => exact hserve _ (mem_of_getElem? hp) _ _ _ _ (hkept _ (mem_of_getElem? hp)).rest.1 hs

/-! ## Approvals -/

def voidsApproval : Call Answer → Bool
  | ⟨.invoke _ _ _ _ _, _⟩ => true
  | ⟨.loadPolicy, .ok _⟩ => true
  | _ => false

theorem redeemed_next {s : Trail} {token : ApprovalToken} (c : Call Answer)
    (h : (s.next c.op c.answer).redeemed = some token) :
    (∃ permit taskId, c = ⟨.redeem token permit taskId, .ok .redeemed⟩) ∨
      s.redeemed = some token ∧ voidsApproval c = false := by
  obtain ⟨op, error | result⟩ := c
  · cases op
    case invoke => cases h
    all_goals exact .inr ⟨h, rfl⟩
  · cases op
    case invoke | loadPolicy => cases h
    case redeem =>
      cases result with
      | redeemed =>
        cases h
        exact .inl ⟨_, _, rfl⟩
      | cancelled => exact .inr ⟨h, rfl⟩
    case getMigrationReceipt =>
      refine .inr ⟨?_, rfl⟩
      have h : (if s.loaded.isNone then { s with receipt := result } else s).redeemed = some token := h
      split at h <;> exact h
    all_goals exact .inr ⟨h, rfl⟩

/-- An approval that counts was redeemed by a call, and nothing after that call spent or voided it. -/
theorem redeemed_by {job : Job} {token : ApprovalToken} {calls : List (Call Answer)}
    (h : (recordAfter host job calls).redeemed = some token) : ∃ earlier permit taskId between,
      calls = earlier ++ ⟨.redeem token permit taskId, .ok .redeemed⟩ :: between ∧
        ∀ c ∈ between, voidsApproval c = false := by
  induction calls using reverseRecOn with
  | nil => cases job <;> cases h
  | append_singleton calls c ih =>
    rw [recordAfter_concat] at h
    obtain ⟨permit, taskId, rfl⟩ | ⟨hbefore, hc⟩ := redeemed_next c h
    · exact ⟨calls, permit, taskId, [], rfl, fun _ hc => absurd hc not_mem_nil⟩
    · obtain ⟨earlier, permit, taskId, between, rfl, hbetween⟩ := ih hbefore
      refine ⟨earlier, permit, taskId, between ++ [c], by simp, ?_⟩
      exact forall_mem_append.2 ⟨hbetween, forall_mem_singleton.2 hc⟩

/-- Every launch has a policy in force; an approval it requires was redeemed for this very call, with no launch or
reload between. -/
def LaunchesApproved (host : AgentHost) (p : HostProc) : Prop :=
  ∀ before after permit tool arguments argumentsJson capability answer,
    p.history = before ++ ⟨.invoke permit tool arguments argumentsJson capability, answer⟩ :: after →
    ∃ e policy, p.job.envelope = some e ∧ (recordAfter host p.job before).policy = some policy ∧
      (host.requiresApproval policy tool = true →
        ∃ earlier token redeemedFor between now proposed,
          before = earlier ++ ⟨.redeem token redeemedFor e.storedTaskId, .ok .redeemed⟩ :: between ∧
          (∀ c ∈ between, voidsApproval c = false) ∧ host.detachedJson proposed = .ok (.dict arguments) ∧
          Approves host policy.current token permit e.storedTaskId tool proposed
            (((recordAfter host p.job before).loaded.bind id).elim 0 (·.checkpointGeneration)) now)

theorem launches_approved (host : AgentHost) (store : Store) (events : List HostEvent) :
    (runHost host store events).procs.Forall (LaunchesApproved host) := by
  rw [forall_iff_forall_mem]
  intro p hp before after permit tool arguments argumentsJson capability answer hhistory
  have hkept := (allKept_runHost host store events p hp).history
  obtain ⟨⟨e, he, hinvoke⟩, -⟩ := hkept before _ after hhistory
  obtain ⟨policy, hpolicy⟩ := Option.isSome_iff_exists.1 hinvoke.policy
  refine ⟨e, policy, (recordAfter_envelope host p.job before).symm.trans he, hpolicy, fun hrequires => ?_⟩
  obtain ⟨token, now, proposed, hredeemed, hdetached, happroves⟩ := hinvoke.approved policy hpolicy hrequires
  obtain ⟨earlier, redeemedFor, taskId, between, rfl, hbetween⟩ := redeemed_by hredeemed
  rw [append_assoc, cons_append] at hhistory
  obtain ⟨⟨e', he', rfl, -⟩, -⟩ := hkept earlier _ _ hhistory
  obtain rfl : e' = e := Option.some.inj (he'.symm.trans ((recordAfter_envelope host p.job earlier).trans
    ((recordAfter_envelope host p.job _).symm.trans he)))
  exact ⟨earlier, token, redeemedFor, between, now, proposed, rfl, hbetween, hdetached, happroves⟩

/-! ## Side effects -/

def Identified (host : AgentHost) (w : World) : Prop :=
  ∀ launch ∈ w.launches, host.tools.isSideEffecting launch.tool = true → launch.effectId.isSome = true

variable {w w' : World}

theorem invoke_identified {process : Nat} {tool : String} {argumentsJson : Text} {capability : Option String}
    {given answer : Except Fault Value} (h : w.invoke host process tool argumentsJson capability given = (answer, w'))
    (hw : Identified host w) : Identified host w' := by
  unfold World.invoke at h
  split at h
  · split at h <;> cases h
    · exact hw
    · exact forall_mem_append.2 ⟨hw, forall_mem_singleton.2 fun _ => rfl⟩
  · next hplain =>
    cases h
    exact forall_mem_append.2 ⟨hw, forall_mem_singleton.2 fun hside => absurd hside hplain⟩

theorem serve_identified {job : Job} {op : Op} {hint : Hint} {answer : Answer op}
    (h : serve host job op hint w = some (answer, w')) (hw : Identified host w) : Identified host w' := by
  cases serve_fired h with
  | nothing _ _ _ _ _ hlaunches =>
    unfold Identified
    rw [hlaunches]
    exact hw
  | armed | disarmed => exact hw
  | launched => exact forall_mem_append.2 ⟨hw, forall_mem_singleton.2 fun _ => rfl⟩
  | plain =>
    -- the inversion does not say which tool it was, the registry does
    unfold serve at h
    split at h
    · exact invoke_identified (Option.some.inj h) hw
    · simp only [serveFault] at h
      split_ifs at h
      exact invoke_identified (Option.some.inj h) hw

theorem side_effects_recorded (host : AgentHost) (store : Store) (events : List HostEvent) :
    (runHost host store events).world.launches.Forall fun launch => host.tools.isSideEffecting launch.tool = true →
      ∃ id, launch.effectId = some id ∧
        RecordedAs ((runHost host store events).world.store.effects id) launch.tool launch.argumentsJson := by
  have hrun : Armory host (runHost host store events) ∧ Identified host (runHost host store events).world := by
    refine (machine host).invariant (I := fun pool => Armory host pool ∧ Identified host pool.world)
      (fun pool event h => ⟨h.1.step event, ?_⟩) _ events ⟨armory_start host store, fun _ h => by cases h⟩
    refine step_world (R := fun w w' => Identified host w → Identified host w') h.1.kept (fun _ h => h) (fun a h => ?_)
      (fun _ _ _ _ _ _ _ hs => serve_identified hs) event h.2
    show ∀ launch ∈ (act a pool.world).launches, _
    rw [(act_launches a pool.world).2.1]
    exact h
  rw [forall_iff_forall_mem]
  intro launch hlaunch hside
  obtain ⟨id, hid⟩ := Option.isSome_iff_exists.1 (hrun.2 launch hlaunch hside)
  exact ⟨id, hid, hrun.1.launched launch hlaunch id hid⟩

/-! ## The recorded authority -/

/-- What a run does once it has read a recorded authority stays under it, and it leaves the host no more. -/
def StaysUnder (host : AgentHost) (p : HostProc) : Prop :=
  ∀ before c after e text ceiling, p.history = before ++ c :: after → p.job.envelope = some e →
    (recordAfter host p.job before).ceiling = some text → readCeiling text = .ok ceiling →
    SoundInputs host (recordAfter host p.job before) e →
    match c.op with
    | .invoke permit tool arguments _ _ => Accepts host.env ceiling.grants tool arguments ∧
        Below host.env permit (ceiling.over permit) ∧ e.manifest.componentDigest = ceiling.componentDigest
    | .decide provider effective _ => provider = ceiling.provider ∧ Below host.env effective (ceiling.over effective)
    | .save sv => sv.migration = none ∧ Below host.env sv.effective (ceiling.over sv.effective)
    | .verifyMigration _ _ _ => False
    | _ => True

theorem runs_stay_under (host : AgentHost) (store : Store) (events : List HostEvent) :
    (runHost host store events).procs.Forall (StaysUnder host) := by
  rw [forall_iff_forall_mem]
  intro p hp before c after e text ceiling hhistory he htext hread hsound
  obtain ⟨hallows, -⟩ := (allKept_runHost host store events p hp).history before c after hhistory
  have hsame : ∀ e', (recordAfter host p.job before).envelope = some e' → e' = e := by
    intro e' he'
    rw [recordAfter_envelope, he] at he'
    exact (Option.some.inj he').symm
  have hcomponent : ∀ {effective}, Capped host (recordAfter host p.job before) e effective →
      e.manifest.provider = ceiling.provider ∧ e.manifest.componentDigest = ceiling.componentDigest := by
    intro effective hcapped
    obtain ⟨ceiling', hread', hmanifest⟩ := hcapped.component text htext
    rw [hread] at hread'
    cases hread'
    exact hmanifest
  obtain ⟨op, answer⟩ := c
  cases op
  case invoke =>
    obtain ⟨e', he', hinvoke⟩ := hallows
    obtain rfl := hsame e' he'
    have hbelow := hinvoke.capped.below hsound text ceiling htext hread
    exact ⟨hbelow.accepts _ _ hinvoke.accepted, hbelow, (hcomponent hinvoke.capped).2⟩
  case decide =>
    obtain ⟨e', he', -, hcapped, rfl⟩ := hallows
    obtain rfl := hsame e' he'
    exact ⟨(hcomponent hcapped).1, hcapped.below hsound text ceiling htext hread⟩
  case save sv =>
    obtain ⟨e', he', hsave⟩ := hallows
    obtain rfl := hsame e' he'
    refine ⟨?_, hsave.capped.below hsound text ceiling htext hread⟩
    cases hmigration : sv.migration with
    | none => rfl
    | some =>
      have hnone := hsave.stays (by rw [hmigration]; rfl)
      exact absurd (hnone.symm.trans htext) (by simp)
  case verifyMigration => exact absurd (Eq.trans (Eq.symm hallows) htext) (by simp)
  all_goals trivial

def recordedText : Text :=
  (summedHost.authorityCeilingJson (payEnvelope 0).permit (payEnvelope 0).manifest).toOption.getD []

def cappedStore : Store :=
  let store := (runHost summedHost .empty (.start (.run 0 (payEnvelope 0)) :: paySteps 0 7)).world.store
  { store with
    checkpoints := fun taskId => (store.checkpoints taskId).map ({ · with authorityCeiling := some recordedText }) }

def resumedUnder : List HostEvent := .start (.run 0 (payEnvelope 1)) :: paySteps 0 22

def Op.launches : Op → Bool
  | .invoke _ _ _ _ _ => true
  | _ => false

def unconstrained (grants : List ToolGrant) : Bool :=
  grants.all fun g => g.constraints.isEmpty && g.outputProjection.isSome

theorem settled_unconstrained {env : Env} {grants : List ToolGrant} (h : unconstrained grants = true) :
    Settled env grants := by
  intro g hg
  have hg := all_eq_true.1 h g hg
  rw [Bool.and_eq_true] at hg
  obtain ⟨hnone, hprojection⟩ := hg
  have hempty : g.constraints = [] := isEmpty_iff.1 hnone
  exact ⟨⟨by rw [hempty]; rfl, by rw [hempty]; rfl⟩, hprojection⟩

theorem runs_stay_under_resumed : ∃ p ∈ (runHost summedHost cappedStore resumedUnder).procs,
    ∃ before permit tool arguments argumentsJson capability answer after ceiling,
      p.history = before ++ ⟨.invoke permit tool arguments argumentsJson capability, answer⟩ :: after ∧
      (recordAfter summedHost p.job before).ceiling = some recordedText ∧ readCeiling recordedText = .ok ceiling ∧
      Accepts summedHost.env ceiling.grants tool arguments ∧
      Below summedHost.env permit (ceiling.over permit) := by
  have hceiling : (readCeiling recordedText).toOption.any (unconstrained ·.grants) = true := by decide +kernel
  obtain ⟨ceiling, hsome, hgrants⟩ := (Option.any_eq_true _ _).1 hceiling
  have hread : readCeiling recordedText = .ok ceiling := by
    cases h : readCeiling recordedText <;> rw [h] at hsome <;> cases hsome
    rfl
  have hrun : (runHost summedHost cappedStore resumedUnder).procs[0]?.any (fun p =>
      p.history[20]?.any (fun c => c.op.launches) &&
      p.job.envelope.any (unconstrained ·.permit.grants) &&
      (recordAfter summedHost p.job (p.history.take 20)).policies.all (unconstrained ·.declared) &&
      decide ((recordAfter summedHost p.job (p.history.take 20)).ceiling = some recordedText)) = true := by
    decide +kernel
  obtain ⟨p, hp, hrun⟩ := (Option.any_eq_true _ _).1 hrun
  simp only [Bool.and_eq_true, decide_eq_true_eq] at hrun
  obtain ⟨⟨⟨hcall, henvelope⟩, hpolicies⟩, htext⟩ := hrun
  obtain ⟨e, he, hpermit⟩ := (Option.any_eq_true _ _).1 henvelope
  obtain ⟨⟨op, answer⟩, hc, hop⟩ := (Option.any_eq_true _ _).1 hcall
  have hmem := mem_of_getElem? hp
  have hhistory : p.history = p.history.take 20 ++ ⟨op, answer⟩ :: p.history.drop 21 := by
    obtain ⟨hlt, hc⟩ := List.getElem?_eq_some_iff.1 hc
    rw [← hc, ← drop_eq_getElem_cons hlt, take_append_drop]
  have hsound : SoundInputs summedHost (recordAfter summedHost p.job (p.history.take 20)) e := by
    refine ⟨fun g hg => (settled_unconstrained hpermit g hg).1, fun policy hpolicy g hg => ?_, ?_⟩
    · exact (settled_unconstrained (all_eq_true.1 hpolicies policy hpolicy) g hg).1
    · rintro text ceiling' htext' hread'
      cases htext.symm.trans htext'
      cases hread.symm.trans hread'
      exact settled_unconstrained hgrants
  have hall : ∀ store events, ∀ p ∈ (runHost summedHost store events).procs, StaysUnder summedHost p :=
    fun store events => forall_iff_forall_mem.1 (runs_stay_under summedHost store events)
  have hunder := hall _ _ p hmem _ _ _ e recordedText ceiling hhistory he htext hread hsound
  cases op <;> cases hop
  exact ⟨p, hmem, _, _, _, _, _, _, _, _, ceiling, hhistory, htext, hread, hunder.1, hunder.2.1⟩
/-! ## Migrations -/

/-- The task was closed by its migration. -/
def Departed (store : Store) (taskId : String) : Prop :=
  ∃ row, store.checkpoints taskId = some row ∧ row.closed = true ∧ row.state.status = .ready

def KeepsMigration (row : OutboxRow) (row' : Option OutboxRow) : Prop :=
  (∃ kept, row' = some kept ∧ kept.destination = row.destination ∧ kept.sealedEnvelope = row.sealedEnvelope) ∨
    row' = none ∧ row.status = .delivered ∧ row.receipt.isSome = true

/-- One step of a task and its outbox row: the row is entered in the step that closes the task by its migration. -/
structure Leaves (store store' : Store) (taskId : String) : Prop where
  departs : Departed store' taskId → Departed store taskId ∨
    store.outbox taskId = none ∧ (store'.outbox taskId).isSome = true
  entered : store.outbox taskId = none → (store'.outbox taskId).isSome = true →
    ¬ Departed store taskId ∧ Departed store' taskId
  stays : Departed store taskId → Departed store' taskId
  kept : ∀ row, store.outbox taskId = some row → KeepsMigration row (store'.outbox taskId)

variable {store store' : Store} {taskId : String}

theorem KeepsMigration.refl (row : OutboxRow) : KeepsMigration row (some row) := .inl ⟨row, rfl, rfl, rfl⟩

/-- A step that leaves the checkpoint of the task and enters no row for it. -/
theorem Leaves.of_checkpoint (hrow : store'.checkpoints taskId = store.checkpoints taskId)
    (hnone : store.outbox taskId = none → store'.outbox taskId = none)
    (hkept : ∀ row, store.outbox taskId = some row → KeepsMigration row (store'.outbox taskId)) :
    Leaves store store' taskId where
  departs h := by
    unfold Departed at h
    rw [hrow] at h
    exact .inl h
  entered habsent h := by
    rw [hnone habsent] at h
    cases h
  stays h := by
    unfold Departed
    rw [hrow]
    exact h
  kept := hkept

theorem Leaves.of_same (hrow : store'.checkpoints taskId = store.checkpoints taskId)
    (houtbox : store'.outbox taskId = store.outbox taskId) : Leaves store store' taskId := by
  refine .of_checkpoint hrow (houtbox.trans ·) fun row h => ?_
  rw [houtbox, h]
  exact .refl row

theorem act_leaves (a : Act) (w : World) (taskId : String) : Leaves w.store (act a w).store taskId := by
  have hrow := congrFun (act_untouched a w).checkpoints taskId
  -- the dispatcher's calls change a row that is there, never what it carries
  have hchange : ∀ (key : String) (change : OutboxRow → Option OutboxRow),
      (∀ row row', change row = some row' → row'.destination = row.destination ∧
        row'.sealedEnvelope = row.sealedEnvelope) →
      Leaves w.store (w.store.changeOutbox key change) taskId := by
    intro key change hkeeps
    unfold Store.changeOutbox
    split
    · next row' h =>
      obtain ⟨row, hold, hnew⟩ := Option.bind_eq_some_iff.1 h
      by_cases hkey : taskId = key
      · subst hkey
        refine .of_checkpoint rfl (fun habsent => absurd (hold.symm.trans habsent) (by simp)) fun row₁ h₁ => ?_
        cases hold.symm.trans h₁
        exact .inl ⟨row', Function.update_self .., hkeeps row row' hnew⟩
      · exact .of_same rfl (Function.update_of_ne hkey ..)
    · exact .of_same rfl rfl
  cases a with
  | cancelTask | restart => exact .of_same rfl rfl
  | prune nonceCutoff migrationCutoff batch =>
    refine .of_checkpoint rfl (fun habsent => ?_) fun row h => ?_
    · show (w.store.outbox taskId).filter _ = none
      rw [habsent]
      rfl
    · show KeepsMigration row ((w.store.outbox taskId).filter _)
      rw [h, Option.filter_some]
      split
      · exact .refl row
      · next hpruned =>
        simp only [Store.outboxEligible, Bool.not_eq_true', Bool.not_eq_false, Bool.and_eq_true, beq_iff_eq] at hpruned
        exact .inr ⟨rfl, hpruned.2.1⟩
  | _ =>
    refine hchange _ _ fun row row' h => ?_
    repeat' split at h
    all_goals cases h
    all_goals exact ⟨rfl, rfl⟩

/-- A save of the task finds it not departed, and departs it exactly when it enters the outbox row. -/
theorem saved_leaves {s : Trail} {e : AgentEnvelope} {sv : Save} {signedAt generation : Int}
    (hsaved : Saved host store sv signedAt generation store') (hallowed : SaveAllowed host s e sv)
    (hin : (store.outbox taskId).isSome = true → Departed store taskId) : Leaves store store' taskId := by
  obtain ⟨row, hrow, hstore⟩ := hsaved.checkpoint
  have houtbox := hsaved.outbox
  by_cases htask : taskId = sv.taskId
  · subst htask
    have hopen : ¬ Departed store sv.taskId := by
      rintro ⟨old, hold, hclosed, -⟩
      cases hrow with
      | created habsent => exact absurd (hold.symm.trans habsent) (by simp)
      | replaced hrow hopen =>
        cases hold.symm.trans hrow
        rw [hopen] at hclosed
        cases hclosed
    have hnone : store.outbox sv.taskId = none := by
      rw [← Option.not_isSome_iff_eq_none]
      exact mt hin hopen
    have hdeparted : Departed store' sv.taskId ↔ sv.closed = true ∧ sv.state.status = .ready := by
      have hnew : row.closed = sv.closed ∧ row.state.status = sv.state.status := by
        cases hrow <;> exact ⟨rfl, rfl⟩
      unfold Departed
      rw [hstore, Function.update_self, ← hnew.1, ← hnew.2]
      exact ⟨fun ⟨_, h, h'⟩ => Option.some.inj h ▸ h', fun h => ⟨row, rfl, h⟩⟩
    have hentered : (store'.outbox sv.taskId).isSome = true ↔ sv.closed = true ∧ sv.state.status = .ready := by
      rw [← hallowed.outcome]
      generalize store'.outbox = outbox at houtbox
      cases houtbox with
      | kept hkept =>
        rw [hnone]
        refine iff_of_false (by simp) fun h => ?_
        rcases hkept with hkept | hkept
        · rw [hkept] at h
          cases h
        · exact absurd ((hallowed.outcome.1 h).1.symm.trans hkept) (by simp)
      | found _ _ _ hrow => exact absurd (hrow.symm.trans hnone) (by simp)
      | enqueued hmigration =>
        rw [hmigration, Function.update_self]
        exact iff_of_true rfl rfl
    refine ⟨fun h => .inr ⟨hnone, hentered.2 (hdeparted.1 h)⟩, fun _ h => ⟨hopen, hdeparted.2 (hentered.1 h)⟩,
      fun h => absurd h hopen, fun row h => absurd (h.symm.trans hnone) (by simp)⟩
  · refine .of_same (by rw [hstore, Function.update_of_ne htask]) ?_
    generalize store'.outbox = outbox at houtbox
    cases houtbox with
    | kept | found => rfl
    | enqueued => exact Function.update_of_ne htask ..

theorem step_leaves {pool : HostPool} (hkept : (runWatch host).AllKept pool) (event : HostEvent)
    (hin : (pool.world.store.outbox taskId).isSome = true → Departed pool.world.store taskId) :
    Leaves pool.world.store ((machine host).step pool event).world.store taskId := by
  refine step_world (R := fun w w' => Leaves w.store w'.store taskId) hkept (fun _ => .of_same rfl rfl)
    (act_leaves · _ taskId) (fun p _ op hint answer w' hallows hs => ?_) event
  by_cases hop : ∃ sv, op = .save sv
  · obtain ⟨sv, rfl⟩ := hop
    rcases answer with error | generation
    · rw [show w'.store = pool.world.store from (serve_wrote hs).error]
      exact .of_same rfl rfl
    · obtain ⟨e, -, hallowed⟩ := hallows
      exact saved_leaves (serve_save hs) hallowed hin
  · obtain ⟨hsame, houtbox, -⟩ := (serve_wrote hs).untouched fun sv heq => hop ⟨sv, heq⟩
    exact .of_same (congrFun hsame.checkpoints taskId) (congrFun houtbox taskId)

/-- A task has an outbox row only after its migration closed it. -/
theorem run_departed (hstart : ∀ taskId, (store.outbox taskId).isSome = true → Departed store taskId)
    (events : List HostEvent) (taskId : String)
    (h : ((runHost host store events).world.store.outbox taskId).isSome = true) :
    Departed (runHost host store events).world.store taskId := by
  induction events using reverseRecOn with
  | nil => exact hstart taskId h
  | append_singleton events event ih =>
    rw [runHost_concat] at h ⊢
    have hleaves := step_leaves (allKept_runHost host store events) event ih
    cases hrow : (runHost host store events).world.store.outbox taskId with
    | none => exact (hleaves.entered hrow h).2
    | some row => exact hleaves.stays (ih (by rw [hrow]; rfl))

theorem migrations_leave_once (host : AgentHost) (store : Store)
    (hstart : ∀ taskId, (store.outbox taskId).isSome = true → Departed store taskId) (events : List HostEvent)
    (event : HostEvent) (taskId : String) :
    Leaves (runHost host store events).world.store (runHost host store (events ++ [event])).world.store taskId := by
  rw [runHost_concat]
  exact step_leaves (allKept_runHost host store events) event (run_departed hstart events taskId)

def leavingHost : AgentHost := { summedHost with policy := { payPolicy with migration := ⟨true, ["other"]⟩ } }

def leavingHint : Hint :=
  { payHint "first" with
    decision := some ⟨some (.str "migrate"), some .null, some .null, some .null, some (.str "other")⟩ }

def leaving : List HostEvent :=
  .start (.run 0 { payEnvelope 0 with permit := { (payEnvelope 0).permit with delegationAllowed := true } }) ::
    replicate 14 (.step 0 leavingHint)

theorem migrations_leave_once_entered :
    ((runHost leavingHost .empty leaving).world.store.outbox "task").isNone = true ∧
    ((runHost leavingHost .empty (leaving ++ [.step 0 leavingHint])).world.store.outbox "task").isSome = true ∧
    Leaves (runHost leavingHost .empty leaving).world.store
      (runHost leavingHost .empty (leaving ++ [.step 0 leavingHint])).world.store "task" :=
  ⟨by decide +kernel, by decide +kernel,
    migrations_leave_once leavingHost .empty (fun _ h => by cases h) leaving (.step 0 leavingHint) "task"⟩

/-! ## Receipts -/

def attested (host : AgentHost) (store : Store) (taskId : String) : Option ReceiptBindings :=
  (store.receipts taskId).map fun receipt => { receipt.bindings with destinationHostId := host.hostId }

/-- What the receipts of the store say stays. -/
def KeepsReceipts (host : AgentHost) (store store' : Store) : Prop :=
  ∀ taskId, attested host store taskId = none ∨ attested host store' taskId = attested host store taskId

def FoundReceipt (host : AgentHost) (w : World) (s : Trail) : Prop :=
  ∀ e receipt, s.envelope = some e → s.receipt = some receipt →
    attested host w.store e.storedTaskId = some { receipt.bindings with destinationHostId := host.hostId }

theorem Wrote.receipts {op : Op} {answer : Answer op} (h : Wrote host store op answer store') :
    store'.receipts = store.receipts ∨
      (∃ sv generation signedAt, op = .save sv ∧ ReceiptSaved host store sv generation signedAt store'.receipts) ∨
      ∃ taskId receipt, op = .replaceMigrationReceipt taskId receipt ∧
        store'.receipts = Function.update store.receipts taskId (some receipt) := by
  cases h
  case saved h => exact .inr (.inl ⟨_, _, _, rfl, h.receipts⟩)
  case receipt => exact .inr (.inr ⟨_, _, rfl, rfl⟩)
  all_goals left
  case nothing | redeemed => rfl
  all_goals simp only [Store.recordEffectPrepared, Store.markEffectStarted, Store.settleEffect,
    Store.claimEffectForReconcile, Store.renewEffectClaim, Store.settleEffectFromClaim, Store.releaseEffectClaim]
  all_goals repeat' split
  all_goals rfl

variable {job : Job} {op : Op} {hint : Hint} {answer : Answer op} {s : Trail}

theorem serve_keepsReceipts (hfound : FoundReceipt host w s) (hallows : s.allows host op)
    (hs : serve host job op hint w = some (answer, w')) : KeepsReceipts host w.store w'.store := by
  intro taskId
  unfold attested
  obtain hsame | ⟨sv, generation, signedAt, rfl, hsaved⟩ | ⟨key, receipt, rfl, hstore⟩ := (serve_wrote hs).receipts
  · exact .inr (by rw [hsame])
  · generalize w'.store.receipts = receipts at hsaved
    cases hsaved with
    | kept => exact .inr rfl
    | issued _ habsent =>
      rcases eq_or_ne taskId sv.taskId with rfl | hne
      · exact .inl (by rw [habsent]; rfl)
      · exact .inr (by rw [Function.update_of_ne hne])
  · obtain ⟨e, existing, he, hexisting, rfl, hbindings⟩ := hallows
    rcases eq_or_ne taskId e.storedTaskId with rfl | hne
    · refine .inr (Eq.trans ?_ (hfound e existing he hexisting).symm)
      rw [hstore, Function.update_self, Option.map_some, hbindings]
    · exact .inr (by rw [hstore, Function.update_of_ne hne])

theorem act_receipts (a : Act) (w : World) : (act a w).store.receipts = w.store.receipts := by
  cases a with
  | cancelTask | prune | restart => rfl
  | _ =>
    show (Store.changeOutbox _ _ _).receipts = _
    unfold Store.changeOutbox
    split <;> rfl

theorem receipt_next {receipt : MigrationReceipt} (hallows : s.allows host op)
    (hs : serve host job op hint w = some (answer, w')) (h : (s.next op answer).receipt = some receipt) :
    s.receipt = some receipt ∨
      w' = w ∧ ∃ e, s.envelope = some e ∧ w.store.receipts e.storedTaskId = some receipt := by
  rcases answer with error | result
  · left
    cases op <;> exact h
  cases op
  case getMigrationReceipt taskId =>
    have h : (if s.loaded.isNone then { s with receipt := result } else s).receipt = some receipt := h
    obtain ⟨e, he, rfl⟩ := hallows
    cases serve_returned hs
    split at h
    · exact .inr ⟨rfl, e, he, h⟩
    · exact .inl h
  case redeem => cases result <;> exact .inl h
  all_goals exact .inl h

theorem KeepsReceipts.found (h : KeepsReceipts host w.store w'.store) (hfound : FoundReceipt host w s) :
    FoundReceipt host w' s := by
  intro e receipt he hreceipt
  have hold := hfound e receipt he hreceipt
  obtain hnone | hsame := h e.storedTaskId
  · exact absurd (hold.symm.trans hnone) (by simp)
  · exact hsame.trans hold

theorem act_keepsReceipts (a : Act) (w : World) : KeepsReceipts host w.store (act a w).store :=
  fun _ => .inr (by unfold attested; rw [act_receipts])

/-- Every run still has the receipt it found. -/
theorem run_foundReceipt (host : AgentHost) (store : Store) (events : List HostEvent) :
    ∀ p ∈ (runHost host store events).procs, FoundReceipt host (runHost host store events).world (trail host p) := by
  refine (Machine.Watch.pool_invariant (runWatch host) (I := fun _ => True) (P := FoundReceipt host)
    ?_ ?_ ?_ (.start store) events trivial).2
  · intro w job _ e receipt _ hreceipt
    cases job <;> cases hreceipt
  · intro w w' job op hint answer s _ hfound hallows hs
    have hkeeps := serve_keepsReceipts hfound hallows hs
    refine ⟨trivial, fun e receipt he hreceipt => ?_, fun s' => hkeeps.found⟩
    have he : Trail.envelope s = some e := (next_envelope (s : Trail) op answer).symm.trans he
    obtain hbefore | ⟨rfl, e', he', hrow⟩ := receipt_next hallows hs hreceipt
    · exact hkeeps.found hfound e receipt he hbefore
    · cases he.symm.trans he'
      unfold attested
      rw [hrow]
      rfl
  · exact fun a w _ => ⟨trivial, fun s => (act_keepsReceipts a w).found⟩

theorem receipts_kept (host : AgentHost) (store : Store) (events : List HostEvent) (event : HostEvent) :
    KeepsReceipts host (runHost host store events).world.store
      (runHost host store (events ++ [event])).world.store := by
  rw [runHost_concat]
  have hfound := run_foundReceipt host store events
  exact step_world (R := fun w w' => KeepsReceipts host w.store w'.store) (allKept_runHost host store events)
    (fun _ _ => .inr rfl) (act_keepsReceipts · _) (fun p hp _ _ _ _ => serve_keepsReceipts (hfound p hp)) event

end Portmark.Host
