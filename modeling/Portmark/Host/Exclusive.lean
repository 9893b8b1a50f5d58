/-
Reconciliation is exclusive. Over every interleaving of reconciliations, the journal of an effect
that no run touches is a valid one of a claimed resource, and its row stands as the journal has it
(`Tracks`): one call of one process is a lemma of `Host.Reconcile`, the others leave the row alone.
-/
import Portmark.Host.Reconcile

namespace Portmark.Host

open Lib Lib.Json Security List

/-! ## The calls of a pool -/

def stageOf (host : AgentHost) (p : HostProc) : Option (String × ReconcileStage) :=
  (stageWatch host).state p

def claimOf (host : AgentHost) (p : HostProc) : Option String :=
  (stageOf host p).bind (·.2.claim)

def drawsFresh (host : AgentHost) (first : Option EffectRow) (pool : HostPool) : HostEvent → Bool
  | .step pid hint =>
    match pool.procs[pid]? with
    | some ⟨.reconcile _ _ _, .ask .challenge _, _, true⟩ =>
      pool.procs.all (fun p => claimOf host p != some hint.token) && first.bind (·.claimId) != some hint.token
    | _ => true
  | _ => true

def runsApart (effectId : String) (pool : HostPool) : HostEvent → Bool
  | .step pid _ =>
    match pool.procs[pid]? with
    | some ⟨.run _ _, .ask op _, _, true⟩ => op.touches != some effectId
    | _ => true
  | _ => true

variable {job : Job} {op : Op} {event : HostEvent}

section Stages

variable {host : AgentHost} {effectId : String} {pool : HostPool}

theorem stageOf_call {k : Answer op → Prog Answer (Except Fault Outcome)} {history : List (Call Answer)}
    {alive : Bool} (answer : Answer op) : stageOf host ⟨job, k answer, history ++ [⟨op, answer⟩], alive⟩ =
      (stageOf host ⟨job, .ask op k, history, alive⟩).map fun (id, stage) => (id, stage.next host op answer) :=
  Machine.Watch.state_call answer

theorem stageOf_job (p : HostProc) : (stageOf host p).map Prod.fst = (startStage p.job).map Prod.fst := by
  have hafter : ∀ (history : List (Call Answer)) (s : Option (String × ReconcileStage)),
      ((stageMonitor host).after s history).map Prod.fst = s.map Prod.fst := by
    intro history
    induction history with
    | nil => exact fun _ => rfl
    | cons c history ih =>
      intro s
      refine (ih _).trans ?_
      cases s <;> rfl
  exact hafter p.history _

inductive Happens (host : AgentHost) (effectId : String) (pool : HostPool) : HostEvent → HostPool → Prop
  | called {pid : Nat} {hint : Hint} {job : Job} {op : Op} {k : Answer op → Prog Answer (Except Fault Outcome)}
      {history : List (Call Answer)} {answer : Answer op} {w' : World}
      (hp : pool.procs[pid]? = some ⟨job, .ask op k, history, true⟩)
      (hs : serve host job op hint pool.world = some (answer, w'))
      (hentry : entryOf host effectId pool (.step pid hint) = callEntry effectId pool.world pid hint op) :
      Happens host effectId pool (.step pid hint) ⟨w', pool.procs.set pid ⟨job, k answer, history ++ [⟨op, answer⟩],
        true⟩⟩
  | quiet {event : HostEvent} {pool' : HostPool} (hentry : entryOf host effectId pool event = none)
      (hrow : pool'.world.store.effects = pool.world.store.effects)
      (hold : ∀ (n : Nat) p, pool.procs[n]? = some p → ∃ p', pool'.procs[n]? = some p' ∧
      stageOf host p' = stageOf host p)
      (hnew : ∀ (n : Nat) p', pool'.procs[n]? = some p' → (∃ p, pool.procs[n]? = some p ∧
      stageOf host p' = stageOf host p) ∨
        (n = pool.procs.length ∧ stageOf host p' = startStage p'.job)) : Happens host effectId pool event pool'

theorem happens_idle (hentry : entryOf host effectId pool event = none) : Happens host effectId pool event pool :=
  .quiet hentry rfl (fun _ p hp => ⟨p, hp, rfl⟩) fun _ p hp => .inl ⟨p, hp, rfl⟩

theorem step_happens (host : AgentHost) (effectId : String) (pool : HostPool) (event : HostEvent) :
    Happens host effectId pool event ((machine host).step pool event) := by
  cases event with
  | start =>
    refine .quiet rfl rfl (fun n p hp => ⟨p, ?_, rfl⟩) fun n p' hp' => ?_
    · exact (getElem?_append_left (List.getElem?_eq_some_iff.1 hp).1).trans hp
    · have hlt := (List.getElem?_eq_some_iff.1 hp').1
      rw [Machine.step, length_append, length_singleton] at hlt
      rcases Nat.lt_or_ge n pool.procs.length with hn | hn
      · exact .inl ⟨p', (getElem?_append_left hn).symm.trans hp', rfl⟩
      obtain rfl : n = pool.procs.length := by omega
      refine .inr ⟨rfl, ?_⟩
      simp only [Machine.step, getElem?_concat_length, Option.some.injEq] at hp'
      subst hp'
      rfl
  | act a => exact .quiet rfl (act_effects a pool.world) (fun _ p hp => ⟨p, hp, rfl⟩) fun _ p hp => .inl ⟨p, hp, rfl⟩
  | crash pid =>
    simp only [Machine.step]
    split
    · rename_i q hq
      have hlt := (List.getElem?_eq_some_iff.1 hq).1
      refine .quiet rfl rfl (fun n p hp => ?_) fun n p' hp' => .inl ?_
      · by_cases hn : pid = n
        · subst hn
          rw [hq] at hp
          cases hp
          exact ⟨_, getElem?_set_self hlt, rfl⟩
        · exact ⟨p, (getElem?_set_ne hn).trans hp, rfl⟩
      · obtain ⟨rfl, rfl⟩ | ⟨-, hp'⟩ := Machine.getElem?_set_cases hp'
        · exact ⟨q, hq, rfl⟩
        · exact ⟨p', hp', rfl⟩
    · exact happens_idle rfl
  | step pid hint =>
    simp only [Machine.step]
    split
    · rename_i job op k history hp
      split
      · rename_i answer w' hs
        refine .called hp hs ?_
        have hsome : (serve host job op hint pool.world).isSome = true := by
          rw [show serve host job op hint pool.world = some (answer, w') from hs]
          rfl
        simp only [entryOf, hp, hsome, if_true]
      · rename_i hs
        refine happens_idle ?_
        have hnone : (serve host job op hint pool.world).isSome = false := by
          rw [show serve host job op hint pool.world = none from hs]
          rfl
        simp [entryOf, hp, hnone]
    · rename_i hp
      refine happens_idle ?_
      simp only [entryOf]

end Stages

/-! ## Claim ids -/

structure OwnClaims (host : AgentHost) (first : Option EffectRow) (pool : HostPool) : Prop where
  distinct : ∀ (m n : Nat) p q claim, pool.procs[m]? = some p → pool.procs[n]? = some q → claimOf host p = some claim →
    claimOf host q = some claim → m = n
  foreign : ∀ (n : Nat) p claim, pool.procs[n]? = some p → claimOf host p = some claim →
    first.bind (·.claimId) ≠ some claim

variable {p q : HostProc} {hint : Hint} {w w' : World} {n : Nat}

section Claims

variable {host : AgentHost} {first : Option EffectRow} {effectId : String} {pool : HostPool}

theorem claimOf_eq (h : stageOf host p = stageOf host q) : claimOf host p = claimOf host q := by
  unfold claimOf
  rw [h]

theorem next_claim {answer : Answer op} (stage : ReconcileStage) (hs : serve host job op hint w = some (answer, w')) :
    (stage.next host op answer).claim = stage.claim ∨
      (op = .challenge ∧ (stage.next host op answer).claim = some hint.token) := by
  cases op
  case challenge =>
    cases answer with
    | ok =>
      cases serve_returned hs
      exact .inr ⟨rfl, rfl⟩
    | error => exact .inl rfl
  all_goals exact .inl rfl

/-- A claim id after an event was there before, or is the fresh one that the event draws. -/
theorem step_claimOf (hfresh : drawsFresh host first pool event = true) {p' : HostProc} {claim : String}
    (hp' : ((machine host).step pool event).procs[n]? = some p') (hclaim : claimOf host p' = some claim) :
    (∃ p, pool.procs[n]? = some p ∧ claimOf host p = some claim) ∨
    (∃ hint, event = .step n hint) ∧ (∀ p ∈ pool.procs, claimOf host p ≠ some claim) ∧
      first.bind (·.claimId) ≠ some claim := by
  have hhappens := step_happens host "" pool event
  generalize (machine host).step pool event = pool' at hhappens hp'
  cases hhappens with
  | quiet hentry hrow hold hnew =>
    rcases hnew n p' hp' with ⟨p, hp, hstage⟩ | ⟨-, hstage⟩
    · exact .inl ⟨p, hp, (claimOf_eq hstage).symm.trans hclaim⟩
    · unfold claimOf at hclaim
      rw [hstage] at hclaim
      cases hjob : p'.job <;> rw [hjob] at hclaim <;> cases hclaim
  | @called pid hint job op k history answer w' hp hs hentry =>
    obtain ⟨rfl, rfl⟩ | ⟨-, hp'⟩ := Machine.getElem?_set_cases hp'
    · unfold claimOf at hclaim
      rw [stageOf_call] at hclaim
      rcases hstage : stageOf host ⟨job, .ask op k, history, true⟩ with _ | at_
      · rw [hstage] at hclaim
        cases hclaim
      obtain ⟨id, stage⟩ := at_
      rw [hstage] at hclaim
      have hclaim : (stage.next host op answer).claim = some claim := hclaim
      rcases next_claim stage hs with hsame | ⟨rfl, htoken⟩
      · refine .inl ⟨_, hp, ?_⟩
        unfold claimOf
        rw [hstage]
        exact hsame.symm.trans hclaim
      · rw [hclaim] at htoken
        cases htoken
        have hjob := @stageOf_job host ⟨job, .ask .challenge k, history, true⟩
        rw [hstage] at hjob
        cases job with
        | run => cases hjob
        | reconcile =>
          simp only [drawsFresh, hp, Bool.and_eq_true, all_eq_true, bne_iff_ne] at hfresh
          exact .inr ⟨⟨hint, rfl⟩, hfresh⟩
    · exact .inl ⟨p', hp', hclaim⟩

theorem OwnClaims.step (h : OwnClaims host first pool) (hfresh : drawsFresh host first pool event = true) :
    OwnClaims host first ((machine host).step pool event) := by
  constructor
  · intro m n p q claim hp hq hpc hqc
    rcases step_claimOf hfresh hp hpc with ⟨p₀, hp₀, hpc₀⟩ | ⟨⟨hint, hevent⟩, hnot, -⟩
    · rcases step_claimOf hfresh hq hqc with ⟨q₀, hq₀, hqc₀⟩ | ⟨-, hnot, -⟩
      · exact h.distinct m n p₀ q₀ claim hp₀ hq₀ hpc₀ hqc₀
      · exact absurd hpc₀ (hnot p₀ (mem_of_getElem? hp₀))
    · rcases step_claimOf hfresh hq hqc with ⟨q₀, hq₀, hqc₀⟩ | ⟨⟨hint', hevent'⟩, -, -⟩
      · exact absurd hqc₀ (hnot q₀ (mem_of_getElem? hq₀))
      · rw [hevent] at hevent'
        cases hevent'
        rfl
  · intro n p claim hp hpc
    rcases step_claimOf hfresh hp hpc with ⟨p₀, hp₀, hpc₀⟩ | ⟨-, -, hfirst⟩
    · exact h.foreign n p₀ claim hp₀ hpc₀
    · exact hfirst

end Claims

/-! ## The journal of a pool -/

theorem untouched {host : AgentHost} {answer : Answer op} {effectId : String} (pid : Nat)
    (hs : serve host job op hint w = some (answer, w')) (hop : op.touches ≠ some effectId) :
    w'.store.effects effectId = w.store.effects effectId ∧ callEntry effectId w pid hint op = none := by
  refine ⟨?_, ?_⟩
  · have hmove := (serve_wrote hs).rowMove effectId
    generalize w'.store.effects effectId = row' at hmove ⊢
    generalize w.store.effects effectId = row at hmove ⊢
    cases hmove with
    | kept => rfl
    | _ => exact absurd rfl hop
  · cases op
    case claimEffectForReconcile | renewEffectClaim | runReconcile | settleEffectFromClaim | releaseEffectClaim =>
      exact if_neg fun h => hop (congrArg some h.1)
    all_goals rfl

variable {stage : ReconcileStage}

theorem allows_touches {effectId id : String} (hallows : stage.allows id op) (hne : id ≠ effectId) :
    op.touches ≠ some effectId := by
  cases op
  case claimEffectForReconcile | renewEffectClaim | runReconcile | settleEffectFromClaim | releaseEffectClaim =>
    exact fun h => hne (hallows.1.symm.trans (Option.some.inj h))
  all_goals first | exact hallows.elim | exact fun h => by cases h

structure Tracks (host : AgentHost) (first : Option EffectRow) (effectId : String) (pool : HostPool)
    (entries : List (Claim.Entry Nat String)) : Prop where
  valid : Claim.Valid reconcileLeaseSeconds entries
  fits : Fits first (Claim.standing reconcileLeaseSeconds entries) (pool.world.store.effects effectId)
  placed : ∀ (n : Nat) p stage, pool.procs[n]? = some p → stageOf host p = some (effectId, stage) →
    Placed entries n stage
  callers : ∀ e ∈ entries, ∃ p stage, pool.procs[e.caller]? = some p ∧ stageOf host p = some (effectId, stage)

section Journal

variable {host : AgentHost} {first : Option EffectRow} {effectId : String} {pool : HostPool}
  {entries : List (Claim.Entry Nat String)}

section

variable (h : Tracks host first effectId pool entries)

include h

/-- An entry under the claim of a call is the call's own. -/
theorem Tracks.mine (hclaims : OwnClaims host first pool)
    (hp : pool.procs[n]? = some p) (hstage : stageOf host p = some (effectId, stage)) {e : Claim.Entry Nat String}
    (he : e ∈ entries) (hclaim : stage.claim = some e.claim) : e.caller = n := by
  obtain ⟨q, stage', hq, hstage'⟩ := h.callers e he
  have hown := (h.placed e.caller q stage' hq hstage').own e he rfl
  refine hclaims.distinct e.caller n q p e.claim hq hp ?_ ?_
  · rw [claimOf, hstage']
    exact hown
  · rw [claimOf, hstage]
    exact hclaim

theorem Tracks.own (hclaims : OwnClaims host first pool)
    (hp : pool.procs[n]? = some p) (hstage : stageOf host p = some (effectId, stage)) :
    Own first entries (pool.world.store.effects effectId) n stage := by
  refine ⟨h.valid, h.fits, h.placed n p stage hp hstage, fun e he => h.mine hclaims hp hstage he,
    fun claim hclaim => ?_⟩
  refine hclaims.foreign n p claim hp ?_
  rw [claimOf, hstage]
  exact hclaim

theorem Tracks.aside (hp : pool.procs[n]? = some p)
    (hrow : w'.store.effects effectId = pool.world.store.effects effectId)
    (hbefore : ∀ stage, stageOf host p ≠ some (effectId, stage))
    (hafter : ∀ stage, stageOf host q ≠ some (effectId, stage)) :
    Tracks host first effectId ⟨w', pool.procs.set n q⟩ entries := by
  refine ⟨h.valid, by rw [hrow]; exact h.fits, fun m r stage hr hstage => ?_, fun e he => ?_⟩
  · obtain ⟨-, rfl⟩ | ⟨-, hr⟩ := Machine.getElem?_set_cases hr
    · exact absurd hstage (hafter stage)
    · exact h.placed m r stage hr hstage
  · obtain ⟨r, stage, hr, hstage⟩ := h.callers e he
    by_cases hm : n = e.caller
    · rw [← hm, hp] at hr
      cases hr
      exact absurd hstage (hbefore stage)
    · exact ⟨r, stage, (getElem?_set_ne hm).trans hr, hstage⟩

/-- A call of a reconciliation of the effect, which has its place in the journal. -/
theorem Tracks.turned {pid : Nat} {stage' : ReconcileStage}
    {row : Option EffectRow} {entry : Option (Claim.Entry Nat String)} (hp : pool.procs[pid]? = some p)
    (hstage' : stageOf host q = some (effectId, stage')) (hcaller : ∀ e ∈ entry, e.caller = pid)
    (hturned : Turned first entries entry row (w'.store.effects effectId) pid stage') :
    Tracks host first effectId ⟨w', pool.procs.set pid q⟩ (entries ++ entry.toList) := by
  have hlt := (List.getElem?_eq_some_iff.1 hp).1
  refine ⟨hturned.valid, hturned.fits, fun m r s hr hs => ?_, fun e he => ?_⟩
  · obtain ⟨rfl, rfl⟩ | ⟨hm, hr⟩ := Machine.getElem?_set_cases hr
    · rw [hstage'] at hs
      cases hs
      exact hturned.placed
    · have hplaced := h.placed m r s hr hs
      rcases entry with _ | e
      · rw [Option.toList_none, append_nil]
        exact hplaced
      refine hplaced.other ?_
      rw [hcaller e rfl]
      exact hm
  · have hself : ∃ r s, (pool.procs.set pid q)[pid]? = some r ∧ stageOf host r = some (effectId, s) :=
      ⟨q, stage', getElem?_set_self hlt, hstage'⟩
    rcases mem_append.1 he with he | he
    · by_cases hm : pid = e.caller
      · rw [← hm]
        exact hself
      · obtain ⟨r, s, hr, hs⟩ := h.callers e he
        exact ⟨r, s, (getElem?_set_ne hm).trans hr, hs⟩
    · rw [hcaller e (Option.mem_toList.1 he)]
      exact hself

end

theorem callEntry_caller {pid : Nat} {e : Claim.Entry Nat String} (h : callEntry effectId w pid hint op = some e) :
    e.caller = pid := by
  have henter : ∀ {id claim deed done}, enter effectId pid hint id claim deed done = some e → e.caller = pid := by
    intro id claim deed done h
    unfold enter at h
    split at h <;> cases h
    rfl
  cases op
  case claimEffectForReconcile | renewEffectClaim | runReconcile | settleEffectFromClaim | releaseEffectClaim =>
    exact henter h
  all_goals cases h

/-- One event: the journal goes on tracking the row, which changes only by an entry that is no mere start. -/
theorem Tracks.step (h : Tracks host first effectId pool entries) (hkept : (stageWatch host).AllKept pool)
    (hclaims : OwnClaims host first pool) (hapart : runsApart effectId pool event = true) :
    Tracks host first effectId ((machine host).step pool event)
      (entries ++ (entryOf host effectId pool event).toList) ∧
    ((∀ e ∈ entryOf host effectId pool event, e.deed = .started) →
      ((machine host).step pool event).world.store.effects effectId = pool.world.store.effects effectId) := by
  have hhappens := step_happens host effectId pool event
  generalize (machine host).step pool event = pool' at hhappens
  cases hhappens with
  | quiet hentry hrow hold hnew =>
    rw [hentry, Option.toList_none, append_nil]
    refine ⟨⟨h.valid, by rw [hrow]; exact h.fits, fun n p' stage hp' hstage => ?_, fun e he => ?_⟩,
      fun _ => by rw [hrow]⟩
    · rcases hnew n p' hp' with ⟨p, hp, hsame⟩ | ⟨rfl, hstart⟩
      · exact h.placed n p stage hp (hsame.symm.trans hstage)
      -- a reconciliation that has just been started has no entry yet
      have hnone : ∀ e ∈ entries, e.caller ≠ pool.procs.length := by
        intro e he hcaller
        obtain ⟨p, -, hp, -⟩ := h.callers e he
        rw [hcaller, getElem?_eq_none le_rfl] at hp
        cases hp
      rw [hstart] at hstage
      cases hjob : p'.job <;> rw [hjob] at hstage <;> cases hstage
      exact ⟨fun _ => hnone, fun e he hcaller => absurd hcaller (hnone e he), by simp [ReconcilePhase.Ran], by simp⟩
    · obtain ⟨p, stage, hp, hstage⟩ := h.callers e he
      obtain ⟨p', hp', hsame⟩ := hold e.caller p hp
      exact ⟨p', stage, hp', hsame.trans hstage⟩
  | @called pid hint job op k history answer w' hp hs hentry =>
    rw [hentry]
    have hnext := @stageOf_call job op host k history true answer
    -- the process is on the effect, or its call does not touch it
    have hcases : (∃ stage, stageOf host ⟨job, .ask op k, history, true⟩ = some (effectId, stage) ∧
        stage.allows effectId op) ∨ (op.touches ≠ some effectId ∧
        ∀ stage, stageOf host ⟨job, .ask op k, history, true⟩ ≠ some (effectId, stage)) := by
      have hallows := (hkept _ (mem_of_getElem? hp)).rest.1
      have hjob := @stageOf_job host ⟨job, .ask op k, history, true⟩
      cases job with
      | run =>
        simp only [runsApart, hp, bne_iff_ne] at hapart
        exact .inr ⟨hapart, fun stage => by simp [Option.map_eq_none_iff.1 hjob]⟩
      | reconcile process id =>
        obtain ⟨⟨id', stage⟩, hstage, hid⟩ := Option.map_eq_some_iff.1 hjob
        cases hid
        have hallows : stage.allows id op := hallows id stage hstage
        by_cases hne : id = effectId
        · subst hne
          exact .inl ⟨stage, hstage, hallows⟩
        refine .inr ⟨allows_touches hallows hne, fun s hs => ?_⟩
        rw [hstage] at hs
        cases hs
        exact hne rfl
    rcases hcases with ⟨stage, hstage, hallows⟩ | ⟨hop, hother⟩
    · rw [hstage] at hnext
      have hturned := turn (h.own hclaims hp hstage) hallows hs
      exact ⟨h.turned hp hnext (fun e he => callEntry_caller he) hturned, hturned.silent⟩
    · obtain ⟨hrow, hno⟩ := untouched pid hs hop
      rw [hno, Option.toList_none, append_nil]
      refine ⟨h.aside hp hrow hother fun stage hstage => ?_, fun _ => hrow⟩
      rw [hnext] at hstage
      obtain ⟨⟨id, stage⟩, hbefore, hid⟩ := Option.map_eq_some_iff.1 hstage
      cases hid
      exact hother _ hbefore

end Journal

/-- Over every run: the claims are each call's own, and the journal tracks the row. -/
theorem tracks_run {host : AgentHost} {store : Store} {effectId : String} {events : List HostEvent}
    (hfresh : (machine host).Each (drawsFresh host (store.effects effectId) · ·) ⟨.start store, []⟩ events)
    (hapart : (machine host).Each (runsApart effectId · ·) ⟨.start store, []⟩ events) :
    OwnClaims host (store.effects effectId) (runHost host store events) ∧
      Tracks host (store.effects effectId) effectId (runHost host store events)
        (journal host effectId ⟨.start store, []⟩ events) := by
  induction events using List.reverseRecOn with
  | nil =>
    have hempty : ∀ (n : Nat) p, (runHost host store []).procs[n]? ≠ some p := by
      intro n p hp
      simp [runHost, Machine.run] at hp
    exact ⟨⟨fun m n p q claim hp => absurd hp (hempty m p), fun n p claim hp => absurd hp (hempty n p)⟩,
      Claim.valid_nil, rfl, fun n p stage hp => absurd hp (hempty n p), fun e he => absurd he not_mem_nil⟩
  | append_singleton events event ih =>
    obtain ⟨hfresh, hfresh', -⟩ := Machine.each_append.1 hfresh
    obtain ⟨hapart, hapart', -⟩ := Machine.each_append.1 hapart
    obtain ⟨hclaims, htracks⟩ := ih hfresh hapart
    unfold runHost at hclaims htracks ⊢
    rw [Machine.run_append, journal_concat]
    exact ⟨hclaims.step hfresh', (htracks.step (Machine.Watch.allKept_run _ _) hclaims hapart').1⟩

/-! ## Exclusion -/

structure ReconciledExclusively (host : AgentHost) (store : Store) (effectId : String) (events : List HostEvent) :
    Prop where
  stands : Fits (store.effects effectId) (Claim.standing reconcileLeaseSeconds
    (journal host effectId ⟨.start store, []⟩ events))
    ((runHost host store events).world.store.effects effectId)
  exclusive : ∀ before e after, journal host effectId ⟨.start store, []⟩ events = before ++ e :: after →
    Claim.Exclusive reconcileLeaseSeconds before e
  silent : ∀ before event after, events = before ++ event :: after →
    (∀ e ∈ entryOf host effectId (runHost host store before) event, e.deed = .started) →
    (runHost host store (before ++ [event])).world.store.effects effectId =
      (runHost host store before).world.store.effects effectId
  failed : ∀ p ∈ (runHost host store events).procs, ∀ stage, stageOf host p = some (effectId, stage) →
    stage.phase = .failed → ∃ claim k, stage.claim = some claim ∧ p.rest = .ask (.releaseEffectClaim effectId claim) k
  released : ∀ p ∈ (runHost host store events).procs, ∀ stage, stageOf host p = some (effectId, stage) →
    stage.phase = .released → ∃ claim row, stage.claim = some claim ∧
      (runHost host store events).world.store.effects effectId = some row ∧
      (row.state = .unknown ∨ (row.state = .reconciling ∧ ∃ other, row.claimId = some other ∧ other ≠ claim) ∨
        row.Final)

section Exclusion

variable {host : AgentHost} {first : Option EffectRow} {effectId : String} {pool : HostPool}
  {entries : List (Claim.Entry Nat String)}

/-- A call that has failed is about to release its claim. -/
theorem failed_releases (hkept : (stageWatch host).Kept p) (hstage : stageOf host p = some (effectId, stage))
    (hphase : stage.phase = .failed) :
    ∃ claim k, stage.claim = some claim ∧ p.rest = .ask (.releaseEffectClaim effectId claim) k := by
  have hrest := hkept.rest
  cases hp : p.rest with
  | ret =>
    rw [hp] at hrest
    exact absurd hphase (hrest effectId stage hstage)
  | ask op k =>
    rw [hp] at hrest
    have hallows : stage.allows effectId op := hrest.1 effectId stage hstage
    cases op
    case releaseEffectClaim id claimId =>
      obtain ⟨rfl, -, hclaim⟩ := hallows
      exact ⟨claimId, k, hclaim, rfl⟩
    case getEffect => exact absurd hphase hallows.2
    case challenge => exact absurd (hphase.symm.trans hallows) (by decide)
    case claimEffectForReconcile | renewEffectClaim | runReconcile | settleEffectFromClaim =>
      exact absurd (hphase.symm.trans hallows.2.1) (by decide)
    all_goals exact hallows.elim

/-- Where the row stands after a call has released its claim. -/
theorem Tracks.released (h : Tracks host first effectId pool entries) (hclaims : OwnClaims host first pool)
    (hp : pool.procs[n]? = some p) (hstage : stageOf host p = some (effectId, stage))
    (hphase : stage.phase = .released) :
    ∃ claim row, stage.claim = some claim ∧ pool.world.store.effects effectId = some row ∧
      (row.state = .unknown ∨ (row.state = .reconciling ∧ ∃ other, row.claimId = some other ∧ other ≠ claim) ∨
        row.Final) := by
  have hplaced := h.placed n p stage hp hstage
  obtain ⟨claim, time, hclaim, hrenewed⟩ := hplaced.renewed (by simp [ReconcilePhase.Ran, hphase])
  have hfits := h.fits
  cases hs : Claim.standing reconcileLeaseSeconds entries with
  | initial => cases Claim.standing_initial hs hrenewed
  | free =>
    rw [hs] at hfits
    obtain ⟨row, hrow, hunknown⟩ := hfits
    exact ⟨claim, row, hclaim, hrow, .inl hunknown⟩
  | closed =>
    rw [hs] at hfits
    obtain ⟨row, hrow, hfinal⟩ := hfits
    exact ⟨claim, row, hclaim, hrow, .inr (.inr hfinal)⟩
  | held caller other =>
    rw [hs] at hfits
    obtain ⟨row, hrow, hstate, hother, -⟩ := hfits
    refine ⟨claim, row, hclaim, hrow, .inr (.inl ⟨hstate, other, hother, ?_⟩)⟩
    rintro rfl
    obtain ⟨e, he, rfl, hec⟩ := Claim.standing_held_mem hs
    have hmine := h.mine hclaims hp hstage he (hclaim.trans (congrArg some hec.symm))
    rw [hmine] at hs
    exact hplaced.released hphase _ _ hs

end Exclusion

/-- Reconciliation is exclusive: over every interleaving of any number of reconciliations of an effect, with claim ids
that are drawn once, a clock that does not go back and no run that touches the effect. -/
theorem reconciliation_exclusive (host : AgentHost) (store : Store) (effectId : String) (events : List HostEvent)
    (hfresh : (machine host).Each (drawsFresh host (store.effects effectId) · ·) ⟨.start store, []⟩ events)
    (hapart : (machine host).Each (runsApart effectId · ·) ⟨.start store, []⟩ events)
    (hclock : ((journal host effectId ⟨.start store, []⟩ events).map (·.time)).Pairwise (· ≤ ·)) :
    ReconciledExclusively host store effectId events := by
  obtain ⟨hclaims, htracks⟩ := tracks_run hfresh hapart
  have hkept : (stageWatch host).AllKept (runHost host store events) := Machine.Watch.allKept_run _ _
  refine ⟨htracks.fits, fun before e after heq => htracks.valid.exclusive hclock heq, ?_, ?_, ?_⟩
  · rintro before event after rfl hno
    obtain ⟨hfresh, -⟩ := Machine.each_append.1 hfresh
    obtain ⟨hbefore, hevent, -⟩ := Machine.each_append.1 hapart
    obtain ⟨hclaims, htracks⟩ := tracks_run hfresh hbefore
    unfold runHost at hclaims htracks hno ⊢
    rw [Machine.run_append]
    exact (htracks.step (Machine.Watch.allKept_run _ _) hclaims hevent).2 hno
  · exact fun p hp stage hstage hphase => failed_releases (hkept p hp) hstage hphase
  · intro p hp stage hstage hphase
    obtain ⟨n, hn⟩ := List.mem_iff_getElem?.1 hp
    exact htracks.released hclaims hn hstage hphase

def unknownEffect : Store :=
  Store.empty.setEffect "effect" ⟨"task", "pay", .unknown, ['\x7b', '\x7d'], none, none, none, none⟩

def reconcileStep (pid : Nat) (time : Int) (token : String) (value : Value) : HostEvent :=
  .step pid { time, token, value }

def threeReconciliations : List HostEvent :=
  [.start (.reconcile 0 "effect" "task"), .start (.reconcile 0 "effect" "task"),
    .start (.reconcile 1 "effect" "task")] ++
    List.replicate 3 (reconcileStep 0 10 "first" .null) ++ List.replicate 3 (reconcileStep 1 500 "second" .null) ++
    List.replicate 2 (reconcileStep 0 501 "" .null) ++ List.replicate 3 (reconcileStep 1 502 "" .null) ++
    List.replicate 6 (reconcileStep 2 503 "third" (.dict [("landed", .bool true)]))

theorem reconciliation_exclusive_three :
    journal payHost "effect" ⟨.start unknownEffect, []⟩ threeReconciliations =
      [⟨0, "first", .granted, 10⟩, ⟨1, "second", .granted, 500⟩, ⟨1, "second", .renewed, 502⟩,
        ⟨1, "second", .started, 502⟩, ⟨1, "second", .released, 502⟩, ⟨2, "third", .granted, 503⟩,
        ⟨2, "third", .renewed, 503⟩, ⟨2, "third", .started, 503⟩, ⟨2, "third", .settled, 503⟩] ∧
    ReconciledExclusively payHost unknownEffect "effect" threeReconciliations :=
  ⟨by decide +kernel, reconciliation_exclusive payHost unknownEffect "effect" threeReconciliations (by decide +kernel)
    (by decide +kernel) (by decide +kernel)⟩

end Portmark.Host
