/-
Admissions. An envelope asserts the generation of the checkpoint it continues, and the save that
admits it takes the task past that generation: so it is admitted once, fresh or as a resume. A
fresh admission consumes the permit nonce, and is refused for a task that has a chain.
-/
import Portmark.Host.Tables

namespace Portmark.Host

open Lib Lib.Json Security Option

/-! ## Chains and heads -/

variable {host : AgentHost}

theorem step_headed {pool : HostPool} (h : pool.world.store.Headed) (event : HostEvent) :
    ((machine host).step pool event).world.store.Headed := by
  obtain hsame | ⟨s, sv, signedAt, generation, hcommits⟩ := step_tables host pool event
  · intro taskId
    rw [hsame.auditEvents, hsame.auditHeads]
    exact h taskId
  · exact hcommits.saved.headed h

variable {store : Store}

theorem run_headed (h : store.Headed) (events : List HostEvent) : (runHost host store events).world.store.Headed :=
  (machine host).invariant (I := fun pool => pool.world.store.Headed) (fun _ event h => step_headed h event) _ events h

/-! ## Replays -/

section Replay

variable {host : AgentHost} {pool : HostPool} {event : HostEvent} {s : Trail} {e : AgentEnvelope} {sv : Save}
  {signedAt generation : Int}

section

variable (h : Admits host pool event s e sv signedAt generation) (hkept : (runWatch host).AllKept pool)

include h hkept

theorem Admits.past :
    ((machine host).step pool event).world.store.HasReached e.storedTaskId (e.state.checkpointGeneration + 1) := by
  obtain ⟨hallowed, hgeneration⟩ := h.allowed hkept
  have hreached := h.commits.saved.hasReached
  rw [hallowed.task, hgeneration] at hreached
  exact hreached

/-- An envelope whose task is past the generation it asserts is not admitted. -/
theorem Admits.not_past : ¬ pool.world.store.HasReached e.storedTaskId (e.state.checkpointGeneration + 1) := by
  rintro ⟨row, hrow, hpast⟩
  obtain ⟨hallowed, hgeneration⟩ := h.allowed hkept
  obtain ⟨row', hsaved, -⟩ := h.commits.saved.checkpoint
  rw [← hallowed.task] at hrow
  cases hsaved with
  | created habsent =>
    rw [hrow] at habsent
    cases habsent
  | replaced hrow' =>
    rw [hrow] at hrow'
    cases hrow'
    omega

theorem Admits.nonce (hfresh : s.loaded = some none) : pool.world.store.nonces e.permit.nonce = none ∧
      (((machine host).step pool event).world.store.nonces e.permit.nonce).isSome = true ∧
      (e.migrates = true ∨ Assoc.get? pool.world.store.auditHeads e.storedTaskId = none) := by
  obtain ⟨hallowed, -⟩ := h.allowed hkept
  have hnonce := hallowed.nonce h.first hfresh
  have hsaved := h.commits.saved.nonces
  generalize ((machine host).step pool event).world.store.nonces = nonces at hsaved
  cases hsaved with
  | kept hnone =>
    rw [hnonce] at hnone
    cases hnone
  | consumed hconsumed hhistory habsent =>
    rw [hnonce] at hconsumed
    cases hconsumed
    rw [hallowed.migrated, hallowed.task] at hhistory
    refine ⟨habsent, ?_, hhistory⟩
    rw [Function.update_self]
    rfl

end

end Replay

/-- Replay protection, over every run: an envelope is admitted at most once; a fresh admission finds no record of its
permit nonce and leaves one; and a fresh admission that is no migration finds no audit event of its task. -/
theorem replay_protection (host : AgentHost) (store : Store) (hheaded : store.Headed) :
    (∀ before event mid event' s s' e sv sv' signedAt signedAt' generation generation',
      Admits host (runHost host store before) event s e sv signedAt generation →
        ¬ Admits host (runHost host store (before ++ event :: mid)) event' s' e sv' signedAt' generation') ∧
    ∀ before event s e sv signedAt generation,
      Admits host (runHost host store before) event s e sv signedAt generation → s.loaded = some none →
        (runHost host store before).world.store.nonces e.permit.nonce = none ∧
        ((runHost host store (before ++ [event])).world.store.nonces e.permit.nonce).isSome = true ∧
        (e.migrates = false → (runHost host store before).world.store.auditEvents e.storedTaskId = []) := by
  refine ⟨?_, ?_⟩
  · intro before event mid event' s s' e sv sv' signedAt signedAt' generation generation' hfirst hsecond
    refine hsecond.not_past (allKept_runHost host store _) ?_
    rw [runHost_append, Machine.run_cons]
    exact run_hasReached (hfirst.past (allKept_runHost host store before)) mid
  · intro before event s e sv signedAt generation hadmits hfresh
    obtain ⟨habsent, hleft, hhistory⟩ := hadmits.nonce (allKept_runHost host store before) hfresh
    refine ⟨habsent, ?_, fun hmigrates => ?_⟩
    · rw [runHost_concat]
      exact hleft
    · by_contra hevents
      have hhead := @run_headed host store hheaded before e.storedTaskId hevents
      rcases hhistory with hmigrated | hnone
      · rw [hmigrates] at hmigrated
        cases hmigrated
      · rw [hnone] at hhead
        cases hhead

def entering : List HostEvent := .start (.run 0 (payEnvelope 0)) :: paySteps 0 6

def enters : HostEvent := .step 0 (payHint "first")

def redelivered : List HostEvent := .start (.run 1 (payEnvelope 0)) :: paySteps 1 6

/-- The run is admitted, and the envelope is not admitted again. -/
theorem replay_protection_paid :
    (∃ s sv signedAt generation, Admits payHost (runHost payHost .empty entering) enters s (payEnvelope 0) sv signedAt
        generation) ∧
      ¬ ∃ s sv signedAt generation, Admits payHost (runHost payHost .empty (entering ++ enters :: redelivered))
        (.step 1 (payHint "second")) s (payEnvelope 0) sv signedAt generation := by
  have hfirst : savesFirst payHost (runHost payHost .empty entering) 0 (payHint "first") = true := by decide +kernel
  obtain ⟨p, hp, hjob⟩ := @process_of_started payHost .empty (.run 0 (payEnvelope 0)) entering 0 rfl
  obtain ⟨sv, generation, hadmits⟩ := admits_of_savesFirst hp (congrArg Job.envelope hjob) hfirst
  refine ⟨⟨_, sv, _, generation, hadmits⟩, ?_⟩
  rintro ⟨s', sv', signedAt', generation', hadmits'⟩
  have hheaded : Store.empty.Headed := fun taskId hevents => absurd rfl hevents
  exact (replay_protection payHost .empty hheaded).1 entering enters redelivered _ _ s' (payEnvelope 0) sv sv' _
    signedAt'
    generation generation' hadmits hadmits'

/-! ## The checkpoint an admission replaces -/

/-- The state of a checkpoint carries the generation of its row. -/
def Store.Coherent (store : Store) : Prop :=
  ∀ taskId row, store.checkpoints taskId = some row → row.state.checkpointGeneration = row.generation

def Store.Followed (store : Store) (taskId : String) (stored : AgentState) : Prop :=
  ∃ row, store.checkpoints taskId = some row ∧ stored.checkpointGeneration ≤ row.generation ∧
    (stored.checkpointGeneration = row.generation → row.state = stored)

variable {store' : Store}

theorem Saved.coherent {sv : Save} {signedAt generation : Int}
    (h : Saved host store sv signedAt generation store') (hcoherent : store.Coherent) : store'.Coherent := by
  obtain ⟨row, hrow, hstore⟩ := h.checkpoint
  intro taskId row' hrow'
  rw [hstore] at hrow'
  by_cases htask : taskId = sv.taskId
  · subst htask
    rw [Function.update_self] at hrow'
    cases hrow'
    cases hrow <;> rfl
  · rw [Function.update_of_ne htask] at hrow'
    exact hcoherent taskId row' hrow'

variable {stored : AgentState}

theorem Saved.followed {sv : Save} {signedAt generation : Int} {taskId : String}
    (h : Saved host store sv signedAt generation store') (hfollowed : store.Followed taskId stored) :
    store'.Followed taskId stored := by
  obtain ⟨row, hrow, hle, hsame⟩ := hfollowed
  obtain ⟨row', hrow', hstore⟩ := h.checkpoint
  by_cases htask : taskId = sv.taskId
  · subst htask
    refine ⟨row', by rw [hstore, Function.update_self], ?_⟩
    cases hrow' with
    | created habsent =>
      rw [hrow] at habsent
      cases habsent
    | replaced hrow' =>
      rw [hrow] at hrow'
      cases hrow'
      dsimp only
      refine ⟨by omega, fun heq => by omega⟩
  · exact ⟨row, by rw [hstore, Function.update_of_ne htask, hrow], hle, hsame⟩

theorem Untouched.followed {taskId : String} (h : Untouched store store')
    (hfollowed : store.Followed taskId stored) : store'.Followed taskId stored := by
  obtain ⟨row, hrow, hrest⟩ := hfollowed
  exact ⟨row, by rw [h.checkpoints, hrow], hrest⟩

theorem Untouched.coherent (h : Untouched store store') (hcoherent : store.Coherent) : store'.Coherent := by
  intro taskId row
  rw [h.checkpoints]
  exact hcoherent taskId row

theorem loaded_next {job : Job} {s : Trail} {op : Op} {answer : Answer op} {hint : Hint} {w w' : World}
    {stored : Option AgentState} (hallows : s.allows host op) (hs : serve host job op hint w = some (answer, w'))
    (h : (s.next op answer).loaded = some stored) : s.loaded = some stored ∨
      w'.store = w.store ∧ ∃ e, s.envelope = some e ∧ stored = w.store.loadCheckpoint e.storedTaskId := by
  rcases answer with error | result
  · left
    cases op <;> exact h
  cases op
  case loadCheckpoint taskId =>
    cases h
    obtain ⟨e, he, rfl, -⟩ := hallows
    cases serve_returned hs
    exact .inr ⟨rfl, e, he, rfl⟩
  case getMigrationReceipt =>
    left
    have h : (if s.loaded.isNone then { s with receipt := result } else s).loaded = some stored := h
    split at h <;> exact h
  case redeem =>
    left
    cases result <;> exact h
  all_goals exact .inl h

/-- What every run has loaded is still there, or a later checkpoint is. -/
theorem run_followed (host : AgentHost) (store : Store) (hcoherent : store.Coherent) (events : List HostEvent) :
    (runHost host store events).world.store.Coherent ∧ ∀ p ∈ (runHost host store events).procs, ∀ e stored,
      (trail host p).envelope = some e → (trail host p).loaded = some (some stored) →
      (runHost host store events).world.store.Followed e.storedTaskId stored := by
  refine Machine.Watch.pool_invariant (runWatch host) (I := fun w => w.store.Coherent)
    (P := fun w (s : Trail) => ∀ e stored, s.envelope = some e → s.loaded = some (some stored) →
      w.store.Followed e.storedTaskId stored) ?_ ?_ ?_ (.start store) events hcoherent
  · intro w job _ e stored _ hloaded
    cases job <;> cases hloaded
  · intro w w' job op hint answer s hI hP hallows hs
    have hstable : w'.store.Coherent ∧ ∀ taskId stored, w.store.Followed taskId stored →
      w'.store.Followed taskId stored := by
      obtain hsame | ⟨sv, generation, -, hsaved⟩ := serve_tables hs
      · exact ⟨hsame.coherent hI, fun _ _ => hsame.followed⟩
      · exact ⟨hsaved.coherent hI, fun _ _ => hsaved.followed⟩
    refine ⟨hstable.1, ?_, fun s' hP' e stored he hloaded => hstable.2 _ _ (hP' e stored he hloaded)⟩
    intro e stored he hloaded
    have he : Trail.envelope s = some e := (next_envelope (s : Trail) op answer).symm.trans he
    obtain hbefore | ⟨hstore, e', he', hstored⟩ := loaded_next hallows hs hloaded
    · exact hstable.2 _ _ (hP e stored he hbefore)
    rw [he] at he'
    cases he'
    obtain ⟨row, hrow, hstate⟩ := map_eq_some_iff.1 hstored.symm
    rw [hstore]
    refine ⟨row, hrow, ?_, fun _ => hstate⟩
    rw [← hI _ _ hrow, hstate]
  · intro a w hI
    have hsame := act_untouched a w
    exact ⟨hsame.coherent hI, fun s hP e stored he hloaded => hsame.followed (hP e stored he hloaded)⟩

/-- A process that is about to launch a tool that needs an approval has redeemed one, and it was checked against the
generation. -/
def ChecksAgainst (host : AgentHost) (p : Proc Answer Job (Except Fault Outcome)) (generation : Int) : Prop :=
  ∀ permit tool arguments argumentsJson capability k policy,
    p.rest = .ask (.invoke permit tool arguments argumentsJson capability) k →
    (trail host p).policy = some policy → host.requiresApproval policy tool = true →
    ∃ e token now proposed, (trail host p).envelope = some e ∧ (trail host p).redeemed = some token ∧
      host.detachedJson proposed = .ok (.dict arguments) ∧
      Approves host policy.current token permit e.storedTaskId tool proposed generation now

/-- A run that has loaded a checkpoint does not load another. -/
theorem loaded_stays {stored : Option AgentState} (s : Trail) (op : Op) (answer : Answer op)
    (h : s.loaded = some stored) (hallows : s.allows host op) : (s.next op answer).loaded = some stored := by
  rcases answer with error | result
  · cases op <;> exact h
  cases op
  case loadCheckpoint taskId =>
    obtain ⟨e, -, -, hnone⟩ := hallows
    rw [h] at hnone
    cases hnone
  case getMigrationReceipt =>
    show (if s.loaded.isNone then _ else s).loaded = _
    split <;> exact h
  case redeem => cases result <;> exact h
  all_goals exact h

/-- A process checks its approvals against the generation of the checkpoint it loaded. -/
theorem checksAgainst_loaded {p : Proc Answer Job (Except Fault Outcome)}
    (hkept : (runWatch host).Kept p) (hloaded : (trail host p).loaded = some (some stored)) :
    ChecksAgainst host p stored.checkpointGeneration := by
  obtain ⟨job, rest, history, alive⟩ := p
  rintro permit tool arguments argumentsJson capability k policy rfl hpolicy hrequires
  obtain ⟨e, he, hallowed⟩ := hkept.rest.1
  obtain ⟨token, now, proposed, hredeemed, hproposed, happroves⟩ := hallowed.approved policy hpolicy hrequires
  refine ⟨e, token, now, proposed, he, hredeemed, hproposed, ?_⟩
  have hloaded : ((runWatch host).state _ : Trail).loaded = some (some stored) := hloaded
  rw [hloaded] at happroves
  exact happroves

/-- Whenever a resume is admitted, the generation its approvals are checked against from then on and the counters it
goes on from are those of the row it replaces, exactly if its envelope does not assert a generation ahead of the one it
loaded. -/
theorem resume_uses_replaced_iff (host : AgentHost) (store : Store) (hcoherent : store.Coherent)
    (before : List HostEvent)
    (pid : Nat) (hint : Hint) (s : Trail) (e : AgentEnvelope) (sv : Save) (signedAt generation : Int)
    (stored : AgentState)
    (hadmits : Admits host (runHost host store before) (.step pid hint) s e sv signedAt generation)
    (hresume : s.loaded = some (some stored)) :
    ∃ row, (runHost host store before).world.store.checkpoints e.storedTaskId = some row ∧
      (((runHost host store (before ++ [.step pid hint])).world.store.checkpoints e.storedTaskId).map (·.generation) =
        some (row.generation + 1)) ∧
      (∀ after p, (runHost host store (before ++ after)).procs[pid]? = some p →
        ChecksAgainst host p stored.checkpointGeneration) ∧
      (stored.checkpointGeneration = row.generation ∧ sv.state.step = row.state.step ∧
          sv.state.toolCalls = row.state.toolCalls ↔
        e.state.checkpointGeneration ≤ stored.checkpointGeneration) := by
  have hkept := allKept_runHost host store before
  obtain ⟨hallowed, hgeneration⟩ := hadmits.allowed hkept
  obtain ⟨pid', hint', job, k, history, hevent, hp, rfl⟩ := hadmits.commits.caller
  cases hevent
  obtain ⟨row, hrow, hle, hsame⟩ := (run_followed host store hcoherent before).2 _ (List.mem_of_getElem? hp) e stored
    hadmits.envelope hresume
  obtain ⟨hstep, htoolCalls⟩ := hallowed.counters hadmits.first stored hresume
  obtain ⟨row', hsaved, hstore⟩ := hadmits.commits.saved.checkpoint
  rw [← hallowed.task] at hrow ⊢
  cases hsaved with
  | created habsent =>
    rw [hrow] at habsent
    cases habsent
  | replaced hrow' _ hsameGeneration _ =>
    rw [hrow] at hrow'
    cases hrow'
    refine ⟨row, hrow, ?_, ?_, ?_⟩
    · rw [runHost_concat, hstore, Function.update_self, hsameGeneration]
      rfl
    · intro after p hp'
      obtain ⟨q, hq, hloaded⟩ := (runWatch host).kept_along (P := fun s : Trail => s.loaded = some (some stored))
        (fun s op answer h hallows => loaded_stays s op answer h hallows) hkept hp hresume after
      rw [runHost_append, hq] at hp'
      cases hp'
      refine checksAgainst_loaded (allKept_runHost host store (before ++ after) _ ?_) hloaded
      rw [runHost_append]
      exact List.mem_of_getElem? hq
    · constructor
      · rintro ⟨hloaded, -⟩
        omega
      · intro hnotAhead
        have heq : stored.checkpointGeneration = row.generation := by omega
        rw [hsame heq]
        exact ⟨heq, hstep, htoolCalls⟩

def generations (host : AgentHost) (pool : HostPool) (pid : Nat) (taskId : String) : Option (Int × Int) := do
  let p ← pool.procs[pid]?
  let stored ← (trail host p).loaded.join
  let row ← pool.world.store.checkpoints taskId
  return (stored.checkpointGeneration, row.generation)

theorem resumes_of_savesFirst {events : List HostEvent} {pid process : Nat} {hint : Hint}
    {e : AgentEnvelope} {taskId : String} {seen current : Int}
    (hjob : (events.filterMap Machine.started)[pid]? = some (.run process e))
    (hfirst : savesFirst host (runHost host store events) pid hint = true)
    (hgenerations : generations host (runHost host store events) pid taskId = some (seen, current)) :
    ∃ s sv generation stored row, Admits host (runHost host store events) (.step pid hint) s e sv hint.time generation ∧
      s.loaded = some (some stored) ∧ (runHost host store events).world.store.checkpoints taskId = some row ∧
      stored.checkpointGeneration = seen ∧ row.generation = current := by
  obtain ⟨p, hp, hp'⟩ := @process_of_started host store _ events pid hjob
  obtain ⟨sv, generation, hadmits⟩ := admits_of_savesFirst hp (congrArg Job.envelope hp') hfirst
  obtain ⟨q, hq, hgenerations⟩ := bind_eq_some_iff.1 hgenerations
  rw [hp] at hq
  cases hq
  obtain ⟨stored, hloaded, hgenerations⟩ := bind_eq_some_iff.1 hgenerations
  obtain ⟨row, hrow, hgenerations⟩ := bind_eq_some_iff.1 hgenerations
  cases hgenerations
  exact ⟨_, sv, generation, stored, row, hadmits, join_eq_some_iff.1 hloaded, hrow, rfl, rfl⟩

def overtaken : List HostEvent :=
  .start (.run 0 (payEnvelope 0)) :: paySteps 0 7 ++ .crash 0 ::
    .start (.run 1 (payEnvelope 1)) :: .start (.run 2 (payEnvelope 2)) ::
    resumeSteps 2 4 ++ resumeSteps 1 8 ++ resumeSteps 2 3

/-- The resume that was overtaken is admitted, on a row whose generation it has not loaded. -/
theorem resume_overtaken :
    ∃ s sv generation stored row,
      Admits summedHost (runHost summedHost .empty overtaken) (.step 2 (payHint "second")) s (payEnvelope 2) sv
        (payHint "second").time generation ∧
      s.loaded = some (some stored) ∧ (runHost summedHost .empty overtaken).world.store.checkpoints "task" = some row ∧
      stored.checkpointGeneration = 1 ∧ row.generation = 2 :=
  resumes_of_savesFirst rfl (by decide +kernel) (by decide +kernel)

def resuming : List HostEvent :=
  .start (.run 0 (payEnvelope 0)) :: paySteps 0 7 ++ .crash 0 :: .start (.run 1 (payEnvelope 1)) :: resumeSteps 1 7

/-- The resume is admitted on the row it has loaded. -/
theorem resume_uses_replaced_resuming :
    ∃ s sv generation stored row,
      Admits summedHost (runHost summedHost .empty resuming) (.step 1 (payHint "first")) s (payEnvelope 1) sv
        (payHint "first").time generation ∧
      s.loaded = some (some stored) ∧ (runHost summedHost .empty resuming).world.store.checkpoints "task" = some row ∧
      stored.checkpointGeneration = row.generation ∧ sv.state.step = row.state.step ∧
      sv.state.toolCalls = row.state.toolCalls := by
  obtain ⟨s, sv, generation, stored, row, hadmits, hloaded, hrow, hseen, -⟩ :=
    @resumes_of_savesFirst summedHost .empty resuming 1 1 (payHint "first") (payEnvelope 1) "task" 1 1 rfl
      (by decide +kernel)
      (by decide +kernel)
  have hcoherent : Store.empty.Coherent := nofun
  obtain ⟨row', hrow', -, -, hiff⟩ :=
    resume_uses_replaced_iff summedHost .empty hcoherent resuming 1 _ s _ sv _ generation stored hadmits hloaded
  rw [show (payEnvelope 1).storedTaskId = "task" from rfl, hrow] at hrow'
  cases hrow'
  refine ⟨s, sv, generation, stored, row, hadmits, hloaded, hrow, hiff.2 ?_⟩
  rw [hseen]
  exact le_refl _

end Portmark.Host
