/-
Checkpoints, audit chains, receipts and the outbox under interleaved runs. Only a save writes
checkpoints and chains; the record of the run that commits it says what it may be.
-/
import Portmark.Host.Serial

namespace Portmark.Host

open Lib Lib.Json Security List

/-! ## What a call leaves alone -/

structure Untouched (store store' : Store) : Prop where
  checkpoints : store'.checkpoints = store.checkpoints
  auditEvents : store'.auditEvents = store.auditEvents
  auditHeads : store'.auditHeads = store.auditHeads

theorem Untouched.refl (store : Store) : Untouched store store := ⟨rfl, rfl, rfl⟩

theorem untouched_setEffect (store : Store) (effectId : String) (row : EffectRow) :
    Untouched store (store.setEffect effectId row) := ⟨rfl, rfl, rfl⟩

variable {host : AgentHost} {store : Store}

theorem Wrote.untouched {store' : Store} {op : Op} {answer : Answer op} (h : Wrote host store op answer store')
    (hop : ∀ sv, op ≠ .save sv) :
    Untouched store store' ∧ store'.outbox = store.outbox ∧ store'.cancelled = store.cancelled := by
  have hset : ∀ effectId row, Untouched store (store.setEffect effectId row) ∧
      (store.setEffect effectId row).outbox = store.outbox ∧ (store.setEffect effectId row).cancelled =
        store.cancelled :=
    fun effectId row => ⟨untouched_setEffect store effectId row, rfl, rfl⟩
  have hsame : Untouched store store ∧ store.outbox = store.outbox ∧ store.cancelled = store.cancelled :=
    ⟨.refl store, rfl, rfl⟩
  cases h with
  | nothing => exact hsame
  | receipt | redeemed => exact ⟨⟨rfl, rfl, rfl⟩, rfl, rfl⟩
  | saved => exact absurd rfl (hop _)
  | prepared =>
    unfold Store.recordEffectPrepared
    split
    · exact hsame
    · exact hset _ _
  | started =>
    unfold Store.markEffectStarted
    split
    · split
      · exact hset _ _
      · exact hsame
    · exact hsame
  | settled =>
    unfold Store.settleEffect
    split
    · exact hset _ _
    · exact hsame
  | claimed =>
    unfold Store.claimEffectForReconcile
    split
    · exact hsame
    · split
      · exact hset _ _
      · exact hsame
  | renewed =>
    unfold Store.renewEffectClaim
    split
    · exact hsame
    · split
      · exact hset _ _
      · exact hsame
  | settledFromClaim =>
    unfold Store.settleEffectFromClaim
    split
    · exact hsame
    · split
      · exact hset _ _
      · exact hsame
  | released =>
    unfold Store.releaseEffectClaim
    split
    · exact hsame
    · split
      · exact hset _ _
      · exact hsame

theorem act_untouched (a : Act) (w : World) : Untouched w.store (act a w).store := by
  have hchange : ∀ (taskId : String) (change : OutboxRow → Option OutboxRow),
      Untouched w.store (w.store.changeOutbox taskId change) := by
    intro taskId change
    unfold Store.changeOutbox
    split
    · exact ⟨rfl, rfl, rfl⟩
    · exact .refl _
  cases a with
  | cancelTask | prune => exact ⟨rfl, rfl, rfl⟩
  | restart => exact .refl _
  | _ => exact hchange _ _

/-! ## Saves -/

variable {generation : Int} {hint : Hint} {job : Job} {sv : Save}

theorem serve_save {w w' : World} (h : serve host job (.save sv) hint w = some (.ok generation, w')) :
    Saved host w.store sv hint.time generation w'.store := by
  have h := Option.some.inj (serve_returned h)
  cases hsave : w.store.save host sv hint.time with
  | error =>
    rw [hsave] at h
    cases h
  | ok =>
    rw [hsave] at h
    cases h
    exact Store.save_ok hsave

/-- A call commits a save, or the tables are as they were. -/
theorem serve_tables {op : Op} {answer : Answer op} {w w' : World} (h : serve host job op hint w = some (answer, w')) :
    Untouched w.store w'.store ∨ ∃ sv generation, op = .save sv ∧
      Saved host w.store sv hint.time generation w'.store := by
  by_cases hop : ∃ sv, op = .save sv
  · obtain ⟨sv, rfl⟩ := hop
    rcases answer with error | generation
    · left
      rw [show w'.store = w.store from (serve_wrote h).error]
      exact .refl _
    · exact .inr ⟨sv, generation, rfl, serve_save h⟩
  · exact .inl ((serve_wrote h).untouched fun sv heq => hop ⟨sv, heq⟩).1

structure Commits (host : AgentHost) (pool : HostPool) (event : HostEvent) (s : Trail) (sv : Save)
    (signedAt generation : Int) : Prop where
  caller : ∃ pid hint job k history, event = .step pid hint ∧
    pool.procs[pid]? = some ⟨job, .ask (.save sv) k, history, true⟩ ∧
      s = trail host ⟨job, .ask (.save sv) k, history, true⟩
  saved : Saved host pool.world.store sv signedAt generation ((machine host).step pool event).world.store

variable {pool : HostPool} {signedAt : Int}

theorem Commits.allowed {event : HostEvent} {s : Trail} (h : Commits host pool event s sv signedAt generation)
    (hkept : (runWatch host).AllKept pool) : ∃ e, s.envelope = some e ∧ SaveAllowed host s e sv := by
  obtain ⟨pid, hint, job, k, history, -, hp, rfl⟩ := h.caller
  exact (hkept _ (mem_of_getElem? hp)).rest.1

/-- One event: a process commits a save, or the tables are as they were. -/
theorem step_tables (host : AgentHost) (pool : HostPool) (event : HostEvent) :
    Untouched pool.world.store ((machine host).step pool event).world.store ∨
      ∃ s sv signedAt generation, Commits host pool event s sv signedAt generation := by
  have hmoves := (machine host).step_moves pool event
  generalize hpool : (machine host).step pool event = pool' at hmoves
  cases hmoves with
  | idle | started | crashed => exact .inl (.refl _)
  | acted a => exact .inl (act_untouched a pool.world)
  | @served pid hint job op k history answer w hp hs =>
    obtain hsame | ⟨sv, generation, rfl, hsaved⟩ := serve_tables hs
    · exact .inl hsame
    · refine .inr ⟨_, sv, hint.time, generation, ⟨pid, hint, job, k, history, rfl, hp, rfl⟩, ?_⟩
      rw [hpool]
      exact hsaved

/-! ## Generations only grow -/

def Store.HasReached (store : Store) (taskId : String) (generation : Int) : Prop :=
  ∃ row, store.checkpoints taskId = some row ∧ generation ≤ row.generation

theorem Saved.hasReached {store' : Store} (h : Saved host store sv signedAt generation store') :
    store'.HasReached sv.taskId (sv.state.checkpointGeneration + 1) := by
  obtain ⟨row, hrow, hstore⟩ := h.checkpoint
  refine ⟨row, by rw [hstore, Function.update_self], ?_⟩
  cases hrow with
  | created _ hgeneration =>
    rw [hgeneration]
    exact le_refl _
  | replaced => exact le_refl _

theorem step_hasReached {taskId : String} (h : pool.world.store.HasReached taskId generation) (event : HostEvent) :
    ((machine host).step pool event).world.store.HasReached taskId generation := by
  obtain ⟨row, hrow, hle⟩ := h
  obtain hsame | ⟨s, sv, signedAt, generation', hcommits⟩ := step_tables host pool event
  · exact ⟨row, by rw [hsame.checkpoints, hrow], hle⟩
  obtain ⟨row', hrow', hstore⟩ := hcommits.saved.checkpoint
  by_cases htask : taskId = sv.taskId
  · subst htask
    refine ⟨row', by rw [hstore, Function.update_self], ?_⟩
    cases hrow' with
    | created habsent =>
      rw [hrow] at habsent
      cases habsent
    | replaced hrow' =>
      rw [hrow] at hrow'
      cases hrow'
      dsimp only
      omega
  · exact ⟨row, by rw [hstore, Function.update_of_ne htask, hrow], hle⟩

theorem run_hasReached {taskId : String} (h : pool.world.store.HasReached taskId generation) (events : List HostEvent) :
    ((machine host).run pool events).world.store.HasReached taskId generation :=
  (machine host).invariant (I := fun pool => pool.world.store.HasReached taskId generation)
    (fun _ event h => step_hasReached h event) pool events h

/-! ## Admissions -/

variable {e : AgentEnvelope}

/-- Until a run has saved, it goes by the generation its envelope asserts. -/
theorem unsaved_generation {p : Proc Answer Job (Except Fault Outcome)} (he : (trail host p).envelope = some e)
    (hunsaved : (trail host p).saved = false) : (trail host p).generation = e.state.checkpointGeneration := by
  have hnext : ∀ (s : Trail) (op : Op) (answer : Answer op), (s.next op answer).saved = false →
      s.saved = false ∧ (s.next op answer).generation = s.generation := by
    intro s op answer h
    rcases answer with error | result
    · cases op <;> exact ⟨h, rfl⟩
    cases op
    case save => cases h
    case getMigrationReceipt =>
      have h : (if s.loaded.isNone then { s with receipt := result } else s).saved = false := h
      refine ⟨by split at h <;> exact h, ?_⟩
      show (if s.loaded.isNone then { s with receipt := result } else s).generation = _
      split <;> rfl
    case redeem => cases result <;> exact ⟨h, rfl⟩
    all_goals exact ⟨h, rfl⟩
  have hafter : ∀ (history : List (Call Answer)) (s : Trail), ((watcher host).after s history).saved = false →
      s.saved = false ∧ ((watcher host).after s history).generation = s.generation := by
    intro history
    induction history with
    | nil => exact fun s h => ⟨h, rfl⟩
    | cons c history ih =>
      intro s h
      obtain ⟨hsaved, hgeneration⟩ := ih _ h
      obtain ⟨hsaved', hgeneration'⟩ := hnext s c.op c.answer hsaved
      exact ⟨hsaved', hgeneration.trans hgeneration'⟩
  rw [trail_envelope] at he
  refine (hafter p.history _ hunsaved).2.trans ?_
  obtain ⟨job, rest, history, alive⟩ := p
  cases job with
  | run =>
    cases he
    rfl
  | reconcile => cases he

structure Admits (host : AgentHost) (pool : HostPool) (event : HostEvent) (s : Trail) (e : AgentEnvelope) (sv : Save)
    (signedAt generation : Int) : Prop where
  commits : Commits host pool event s sv signedAt generation
  envelope : s.envelope = some e
  first : s.saved = false

theorem Admits.allowed {event : HostEvent} {s : Trail} (h : Admits host pool event s e sv signedAt generation)
    (hkept : (runWatch host).AllKept pool) :
    SaveAllowed host s e sv ∧ sv.state.checkpointGeneration = e.state.checkpointGeneration := by
  obtain ⟨e', he', hallowed⟩ := h.commits.allowed hkept
  rw [h.envelope] at he'
  cases he'
  refine ⟨hallowed, hallowed.generation.trans ?_⟩
  obtain ⟨pid, hint, job, k, history, -, -, rfl⟩ := h.commits.caller
  exact unsaved_generation h.envelope h.first

def savesFirst (host : AgentHost) (pool : HostPool) (pid : Nat) (hint : Hint) : Bool :=
  match pool.procs[pid]? with
  | some ⟨job, .ask (.save sv) k, history, true⟩ =>
    !(trail host ⟨job, .ask (.save sv) k, history, true⟩).saved &&
      (serve host job (.save sv) hint pool.world).any fun (answer, _) => (answer : Except Fault Int).isOk
  | _ => false

theorem admits_of_savesFirst {pid : Nat} {p : Proc Answer Job (Except Fault Outcome)} (hp : pool.procs[pid]? = some p)
    (he : p.job.envelope = some e) (h : savesFirst host pool pid hint = true) :
    ∃ sv generation, Admits host pool (.step pid hint) (trail host p) e sv hint.time generation := by
  unfold savesFirst at h
  rw [hp] at h
  split at h
  · rename_i job sv k history hproc
    cases hproc
    rw [Bool.and_eq_true, Bool.not_eq_true'] at h
    obtain ⟨hfirst, hserve⟩ := h
    rcases hs : serve host job (.save sv) hint pool.world with _ | result
    · rw [hs] at hserve
      cases hserve
    obtain ⟨answer, w⟩ := result
    rw [hs] at hserve
    rcases answer with error | generation
    · cases hserve
    refine ⟨sv, generation, ⟨⟨pid, hint, job, k, history, rfl, hp, rfl⟩, ?_⟩, ?_, hfirst⟩
    · have hstep : ((machine host).step pool (.step pid hint)).world = w := by
        simp only [Machine.step, hp]
        rw [show (machine host).serve job (.save sv) hint pool.world = _ from hs]
      rw [hstep]
      exact serve_save hs
    · rw [trail_envelope]
      exact he
  · cases h

theorem runHost_append (host : AgentHost) (store : Store) (before after : List HostEvent) :
    runHost host store (before ++ after) = (machine host).run (runHost host store before) after :=
  Machine.run_append _ before after

theorem runHost_concat (host : AgentHost) (store : Store) (before : List HostEvent) (event : HostEvent) :
    runHost host store (before ++ [event]) = (machine host).step (runHost host store before) event :=
  runHost_append host store before [event]

theorem process_of_started {events : List HostEvent} {pid : Nat}
    (h : (events.filterMap Machine.started)[pid]? = some job) :
    ∃ p, (runHost host store events).procs[pid]? = some p ∧ p.job = job := by
  have hjobs := Machine.run_jobs (M := machine host) ⟨.start store, []⟩ events
  rw [map_nil, nil_append] at hjobs
  rw [← hjobs, getElem?_map] at h
  exact Option.map_eq_some_iff.1 h

theorem allKept_runHost (host : AgentHost) (store : Store) (events : List HostEvent) :
    (runWatch host).AllKept (runHost host store events) := Machine.Watch.allKept_run _ events

end Portmark.Host
