/-
Runs of a task one after the other. While no other run of its task is going on, the row of an effect
stays as a run has read or recorded it: runs of other tasks have other effect ids, and a
reconciliation touches only a row that is unknown or that it has claimed. So a run that marks an
effect finds its row `prepared`, and no effect is launched twice.
-/
import Portmark.Host.Launch
import Portmark.Lib.Json.Suffix

namespace Portmark.Host

open Lib Lib.Json Security List

/-! ## The envelope of a process -/

def Job.envelope : Job → Option AgentEnvelope
  | .run _ envelope => some envelope
  | .reconcile _ _ _ => none

theorem next_envelope (s : Trail) (op : Op) (answer : Answer op) : (s.next op answer).envelope = s.envelope := by
  rcases answer with error | result
  · cases op <;> rfl
  cases op
  case getMigrationReceipt =>
    show (if s.loaded.isNone then _ else s).envelope = _
    split <;> rfl
  case redeem => cases result <;> rfl
  all_goals rfl

theorem trail_envelope (host : AgentHost) (p : Proc Answer Job (Except Fault Outcome)) :
    (trail host p).envelope = p.job.envelope := by
  have hafter : ∀ (history : List (Call Answer)) (s : Trail),
    ((watcher host).after s history).envelope = s.envelope := by
    intro history
    induction history with
    | nil => exact fun _ => rfl
    | cons c history ih => exact fun s => (ih _).trans (next_envelope s c.op c.answer)
  refine (hafter p.history _).trans ?_
  cases p.job <;> rfl

/-! ## Runs that do not overlap -/

def Job.task (job : Job) : Option String := job.envelope.map (·.storedTaskId)

def running (p : Proc Answer Job (Except Fault Outcome)) : Bool :=
  match p with
  | ⟨_, .ask _ _, _, alive⟩ => alive
  | ⟨_, .ret _, _, _⟩ => false

def oneByOne (pool : HostPool) : HostEvent → Bool
  | .start job => pool.procs.all fun p => !(running p && job.task.isSome && p.job.task == job.task)
  | _ => true

/-! ## What a run counts on -/

def Prepared (row : Option EffectRow) : Prop := ∃ r, row = some r ∧ r.state = .prepared

def Phase.Fits (effectId : String) (row : Option EffectRow) : Phase → Prop
  | .looked id seen => id = effectId → (seen = none → row = none) ∧ (Prepared seen → Prepared row)
  | .bound id _ _ => id = effectId → Prepared row
  | _ => True

variable {effectId : String} {row : Option EffectRow}

theorem Phase.Fits.mono {row' : Option EffectRow} {phase : Phase} (h : phase.Fits effectId row)
    (hnone : row = none → row' = none) (hprepared : Prepared row → Prepared row') : phase.Fits effectId row' := by
  cases phase with
  | looked => exact fun hid => ⟨fun hseen => hnone ((h hid).1 hseen), fun hseen => hprepared ((h hid).2 hseen)⟩
  | bound => exact fun hid => hprepared (h hid)
  | _ => trivial

theorem Phase.Fits.launches {phase : Phase} (h : phase.Fits effectId row) :
    (Trail.launches phase).Fits effectId row := by
  cases phase with
  | armed => trivial
  | _ => exact h

def Op.ledgerEffect : Op → Option String
  | .recordEffectPrepared effectId _ _ _ => some effectId
  | .markEffectStarted effectId => some effectId
  | .settleEffect effectId _ _ _ => some effectId
  | _ => none

variable {host : AgentHost} {op : Op} {s : Trail}

theorem allows_ledgerEffect (hallows : s.allows host op) (h : op.ledgerEffect = some effectId) :
    ∃ e, s.envelope = some e ∧ OwnEffect host e effectId := by
  cases op
  case recordEffectPrepared | markEffectStarted | settleEffect =>
    cases h
    obtain ⟨e, he, hown, -⟩ := hallows
    exact ⟨e, he, hown⟩
  all_goals cases h

/-- No other call touches a row that is missing or `prepared`. -/
theorem RowMove.steady {row' : Option EffectRow} (h : RowMove effectId op row row')
    (hop : op.ledgerEffect ≠ some effectId) : (row = none → row' = none) ∧ (Prepared row → Prepared row') := by
  have hnot : ∀ {r : EffectRow} {row' : Option EffectRow}, r.state = .unknown ∨ r.state = .reconciling →
      (some r = none → row' = none) ∧ (Prepared (some r) → Prepared row') := by
    intro r row' hstate
    refine ⟨nofun, ?_⟩
    rintro ⟨r', hr', hprepared⟩
    cases hr'
    rcases hstate with hstate | hstate <;> rw [hstate] at hprepared <;> cases hprepared
  cases h with
  | kept => exact ⟨id, id⟩
  | recorded | marked | settled => exact absurd rfl hop
  | claimed _ _ hstate => exact hnot hstate
  | renewed _ _ hstate | reconciled _ _ _ _ hstate | released _ _ hstate => exact hnot (.inr hstate)

theorem marks_fits {id : String} (hallows : s.allows host (.markEffectStarted id)) :
    (Trail.marks s.effect).Fits effectId row := by
  obtain ⟨e, -, -, ⟨tool, argumentsJson, heffect⟩ | ⟨row, heffect, -⟩⟩ := hallows <;> rw [heffect] <;> trivial

/-- A run's own call leaves the row as the run goes on to expect it. -/
theorem fits_next {job : Job} {answer : Answer op} {hint : Hint} {w w' : World} (hallows : s.allows host op)
    (hs : serve host job op hint w = some (answer, w')) (h : s.effect.Fits effectId (w.store.effects effectId)) :
    (s.next op answer).effect.Fits effectId (w'.store.effects effectId) := by
  have hsteady := ((serve_wrote hs).rowMove effectId).steady
  rcases answer with error | result
  · have hstore : w'.store = w.store := (serve_wrote hs).error
    rw [hstore]
    cases op
    case invoke => exact h.launches
    all_goals exact h
  · cases op
    case getEffect id =>
      cases serve_returned hs
      rintro rfl
      exact ⟨fun h => h, fun h => h⟩
    case recordEffectPrepared id taskId tool argumentsJson =>
      obtain ⟨e, -, -, hlooked⟩ := hallows
      rw [hlooked] at h
      cases serve_returned hs
      rintro rfl
      have hrow := (h rfl).1 rfl
      show Prepared ((w.store.recordEffectPrepared id taskId tool argumentsJson).effects id)
      unfold Store.recordEffectPrepared
      rw [hrow]
      rw [setEffect_effects, if_pos rfl]
      exact ⟨_, rfl, rfl⟩
    case markEffectStarted id => exact marks_fits hallows
    case settleEffect | arm => trivial
    case invoke =>
      obtain ⟨hnone, hprepared⟩ := hsteady (by rintro ⟨⟩)
      exact h.launches.mono hnone hprepared
    case getMigrationReceipt =>
      obtain ⟨hnone, hprepared⟩ := hsteady (by rintro ⟨⟩)
      show (if s.loaded.isNone then _ else s).effect.Fits effectId _
      split <;> exact h.mono hnone hprepared
    case redeem =>
      obtain ⟨hnone, hprepared⟩ := hsteady (by rintro ⟨⟩)
      cases result <;> exact h.mono hnone hprepared
    all_goals
      obtain ⟨hnone, hprepared⟩ := hsteady (by rintro ⟨⟩)
      exact h.mono hnone hprepared

/-! ## One run of a task at a time -/

def EffectIdInjective (host : AgentHost) : Prop :=
  ∀ taskId sequence taskId' sequence', host.effectId taskId sequence = host.effectId taskId' sequence' →
    taskId = taskId' ∧ sequence = sequence'

variable {p : Proc Answer Job (Except Fault Outcome)}

section Alone

variable {procs : List (Proc Answer Job (Except Fault Outcome))}

def Alone (procs : List (Proc Answer Job (Except Fault Outcome))) : Prop :=
  ∀ (i j : Nat) p q, procs[i]? = some p → procs[j]? = some q → running p = true → running q = true →
    p.job.task.isSome = true → p.job.task = q.job.task → i = j

theorem Alone.append (h : Alone procs)
    (hp : ∀ q ∈ procs, running q = true → p.job.task.isSome = true → q.job.task ≠ p.job.task) :
    Alone (procs ++ [p]) := by
  have hcases : ∀ {i : Nat} {q}, (procs ++ [p])[i]? = some q → procs[i]? = some q ∨ i = procs.length ∧ q = p := by
    intro i q hq
    rw [getElem?_append] at hq
    split at hq
    · exact .inl hq
    cases hi : i - procs.length with
    | zero =>
      rw [hi] at hq
      exact .inr ⟨by omega, (Option.some.inj hq).symm⟩
    | succ =>
      rw [hi] at hq
      cases hq
  intro i j q r hq hr hrunning hrunning' htask heq
  rcases hcases hq with hold | ⟨rfl, rfl⟩ <;> rcases hcases hr with hold' | ⟨rfl, rfl⟩
  · exact h i j q r hold hold' hrunning hrunning' htask heq
  · exact absurd heq (hp q (mem_of_getElem? hold) hrunning (heq ▸ htask))
  · exact absurd heq.symm (hp r (mem_of_getElem? hold') hrunning' htask)
  · rfl

theorem Alone.set {pid : Nat} {p' : Proc Answer Job (Except Fault Outcome)} (h : Alone procs)
    (hp : procs[pid]? = some p) (hjob : p'.job = p.job) (hrunning : running p' = true → running p = true) :
    Alone (procs.set pid p') := by
  have hcases : ∀ {i : Nat} {q}, (procs.set pid p')[i]? = some q →
      ∃ q', procs[i]? = some q' ∧ q.job = q'.job ∧ (running q = true → running q' = true) := by
    intro i q hq
    obtain ⟨rfl, rfl⟩ | ⟨-, hq⟩ := Machine.getElem?_set_cases hq
    · exact ⟨p, hp, hjob, hrunning⟩
    · exact ⟨q, hq, rfl, id⟩
  intro i j q r hq hr hrunning hrunning' htask heq
  obtain ⟨q', hq', hqjob, hqrunning⟩ := hcases hq
  obtain ⟨r', hr', hrjob, hrrunning⟩ := hcases hr
  rw [hqjob] at htask heq
  rw [hrjob] at heq
  exact h i j q' r' hq' hr' (hqrunning hrunning) (hrrunning hrunning') htask heq

end Alone

structure Serial (host : AgentHost) (pool : HostPool) : Prop where
  claims : Claims host pool
  alone : Alone pool.procs
  fits : ∀ p ∈ pool.procs, running p = true → ∀ e effectId, p.job.envelope = some e → OwnEffect host e effectId →
    (trail host p).effect.Fits effectId (pool.world.store.effects effectId)

variable {pool : HostPool}

theorem Serial.marksPrepared (h : Serial host pool) (event : HostEvent) : marksPrepared pool event = true := by
  unfold Host.marksPrepared
  split
  · split
    · rename_i hp
      obtain ⟨e, he, hown, hseen⟩ := h.claims.armory.allows hp
      rw [trail_envelope] at he
      have hfits := h.fits _ (mem_of_getElem? hp) rfl e _ he hown
      rw [Option.any_eq_true]
      simp only [beq_iff_eq]
      rcases hseen with ⟨tool, argumentsJson, heffect⟩ | ⟨row, heffect, hprepared⟩
      · rw [heffect] at hfits
        exact hfits rfl
      · rw [heffect] at hfits
        exact (hfits rfl).2 ⟨row, rfl, hprepared⟩
    · rfl
  · rfl

/-- A call of another process leaves the rows a run counts on. -/
theorem Serial.others (hinj : EffectIdInjective host) {pid i : Nat} {hint : Hint} {job : Job}
    {k : Answer op → Prog Answer (Except Fault Outcome)} {history : List (Call Answer)} {answer : Answer op}
    {w : World} {e : AgentEnvelope} (h : Serial host pool)
    (hp : pool.procs[pid]? = some ⟨job, .ask op k, history, true⟩)
    (hs : serve host job op hint pool.world = some (answer, w)) (hq : pool.procs[i]? = some p) (hne : i ≠ pid)
    (hrunning : running p = true) (he : p.job.envelope = some e) (hown : OwnEffect host e effectId) :
    (trail host p).effect.Fits effectId (w.store.effects effectId) := by
  have hfits := h.fits p (mem_of_getElem? hq) hrunning e effectId he hown
  obtain ⟨hnone, hprepared⟩ := ((serve_wrote hs).rowMove effectId).steady fun hop => by
    -- the caller would be a run of the same task
    obtain ⟨e', he', ⟨n', heq'⟩⟩ := allows_ledgerEffect (h.claims.armory.allows hp) hop
    rw [trail_envelope] at he'
    obtain ⟨n, heq⟩ := hown
    have htask := (hinj _ _ _ _ (heq.symm.trans heq')).1
    refine hne (h.alone i pid p _ hq hp hrunning rfl ?_ ?_)
    · simp only [Job.task, he, Option.map_some, Option.isSome_some]
    · simp only [Job.task, he, Option.map_some]
      rw [show Job.envelope job = some e' from he', Option.map_some, htask]
  exact hfits.mono hnone hprepared

theorem Serial.step (hinj : EffectIdInjective host) {event : HostEvent} (hone : oneByOne pool event = true)
    (h : Serial host pool) : Serial host ((machine host).step pool event) := by
  have hclaims := h.claims.step (h.marksPrepared event)
  have hmoves := (machine host).step_moves pool event
  generalize (machine host).step pool event = pool' at hmoves hclaims
  cases hmoves with
  | idle => exact h
  | started job =>
    refine ⟨hclaims, h.alone.append ?_, ?_⟩
    · intro q hq hrunning htask heq
      have hnot := all_eq_true.1 hone q hq
      rw [hrunning, htask, heq] at hnot
      simp at hnot
    · intro p hmem hrunning e effectId he hown
      rcases mem_append.1 hmem with hold | hnew
      · exact h.fits p hold hrunning e effectId he hown
      · cases mem_singleton.1 hnew
        cases job <;> trivial
  | @served pid hint job op k history answer w hp hs =>
    refine ⟨hclaims, h.alone.set hp rfl fun _ => rfl, ?_⟩
    intro p hmem hrunning e effectId he hown
    obtain ⟨i, hi⟩ := mem_iff_getElem?.1 hmem
    obtain ⟨-, rfl⟩ | ⟨hne, hi⟩ := Machine.getElem?_set_cases hi
    · rw [trail_call]
      exact fits_next (h.claims.armory.allows hp) hs
        (h.fits _ (mem_of_getElem? hp) rfl e effectId he hown)
    · exact h.others hinj hp hs hi (Ne.symm hne) hrunning he hown
  | @crashed pid p hp =>
    refine ⟨hclaims, h.alone.set hp rfl fun hrunning => ?_, ?_⟩
    · obtain ⟨job, rest, history, alive⟩ := p
      cases rest <;> cases hrunning
    · intro q hmem hrunning e effectId he hown
      rcases mem_or_eq_of_mem_set hmem with hold | rfl
      · exact h.fits q hold hrunning e effectId he hown
      · obtain ⟨job, rest, history, alive⟩ := p
        cases rest <;> cases hrunning
  | acted a =>
    refine ⟨hclaims, h.alone, ?_⟩
    intro p hp hrunning e effectId he hown
    show Phase.Fits effectId ((act a pool.world).store.effects effectId) _
    rw [act_effects]
    exact h.fits p hp hrunning e effectId he hown

theorem serial_start (host : AgentHost) (store : Store) : Serial host ⟨.start store, []⟩ where
  claims := claims_start host store
  alone := fun i j p q hp => by cases hp
  fits := fun p hp => by cases hp

/-! ## At most one launch -/

theorem run_recordedAs {tool : String} {argumentsJson : Text} (events : List HostEvent)
    (h : RecordedAs (pool.world.store.effects effectId) tool argumentsJson) :
    RecordedAs (((machine host).run pool events).world.store.effects effectId) tool argumentsJson :=
  (machine host).invariant (I := fun pool => RecordedAs (pool.world.store.effects effectId) tool argumentsJson)
    (fun _ event h => step_recordedAs h event) pool events h

/-- Runs of a task that do not overlap launch an effect at most once, and only with the tool and the arguments its row
was first recorded for. -/
theorem serial_effect_launched_once (host : AgentHost) (hinj : EffectIdInjective host) (store : Store)
    (events : List HostEvent) (h : (machine host).Each (oneByOne · ·) ⟨.start store, []⟩ events) (effectId : String) :
    (runHost host store events).world.launchCount effectId ≤ 1 ∧
      ∀ launch ∈ (runHost host store events).world.launches, launch.effectId = some effectId →
        (∃ row, (runHost host store events).world.store.effects effectId = some row) ∧
        ∀ before after row, events = before ++ after → (runHost host store before).world.store.effects effectId =
          some row → launch.tool = row.tool ∧ launch.argumentsJson = row.argumentsJson := by
  have hserial : Serial host (runHost host store events) :=
    h.invariant (fun _ _ hone h => h.step hinj hone) (serial_start host store)
  refine ⟨(Nat.le_add_left _ _).trans (hserial.claims.once effectId), ?_⟩
  intro launch hlaunch hid
  obtain ⟨final, hfinal, htool, hargs⟩ := hserial.claims.armory.launched launch hlaunch effectId hid
  refine ⟨⟨final, hfinal⟩, ?_⟩
  rintro before after row rfl hrow
  obtain ⟨final', hfinal', htool', hargs'⟩ := @run_recordedAs effectId host _ _ _ after ⟨row, hrow, rfl, rfl⟩
  unfold runHost at hfinal hfinal'
  rw [Machine.run_append, hfinal'] at hfinal
  cases hfinal
  exact ⟨htool.symm.trans htool', hargs.symm.trans hargs'⟩

/-! ### Effect ids -/

theorem effectId_injective (hsha : Function.Injective host.sha256) : EffectIdInjective host := by
  have hdumps : ∀ (taskId : String) (sequence : Int),
      dumps host.floatText (.dict [("task_id", .str taskId), ("sequence", .int sequence)]) =
        '{' :: '"' :: (escape "sequence".toList ++ '"' :: ':' :: (intText sequence ++
          ',' :: '"' :: (escape "task_id".toList ++ ['"', ':']))) ++ '"' :: escape taskId.toList ++ ['"', '}'] := by
    intro taskId sequence
    have horder : sortKeys (.dict [("task_id", .str taskId), ("sequence", .int sequence)]) =
        .dict [("sequence", .int sequence), ("task_id", .str taskId)] := by
      rw [sortKeys_dict, sortEntries_eq]
      simp only [map_cons, map_nil, sortKeys]
      simp +decide only [inOrder, insertionSort_cons, insertionSort_nil, List.orderedInsert, if_false]
    unfold dumps
    rw [horder]
    simp only [text, textEntries, append_assoc, cons_append, nil_append]
  intro taskId sequence taskId' sequence' h
  have htext := hsha h
  rw [hdumps, hdumps] at htext
  have hfront := append_cancel_right htext
  have htask := last_string_unique (by simp [getLast?_append, getLast?_cons])
    (by simp [getLast?_append, getLast?_cons]) hfront
  rw [htask] at hfront
  have hnumber := append_cancel_right hfront
  simp only [List.cons.injEq, true_and, append_cancel_left_eq, append_cancel_right_eq] at hnumber
  exact ⟨String.toList_injective htask, intText_injective hnumber⟩

def lostAndResumed : List HostEvent :=
  .start (.run 0 (payEnvelope 0)) :: paySteps 0 19 ++ .crash 0 :: .start (.run 1 (payEnvelope 1)) :: paySteps 1 18

theorem serial_effect_launched_once_resumed :
    (machine payHost).Each (oneByOne · ·) ⟨.start .empty, []⟩ lostAndResumed ∧
      (runHost payHost .empty lostAndResumed).world.launchCount payEffect ≤ 1 := by
  have hone : (machine payHost).Each (oneByOne · ·) ⟨.start .empty, []⟩ lostAndResumed := by decide +kernel
  have hinj : EffectIdInjective payHost := effectId_injective fun _ _ h => String.ofList_injective h
  exact ⟨hone, (serial_effect_launched_once payHost hinj .empty lostAndResumed hone payEffect).1⟩

end Portmark.Host
