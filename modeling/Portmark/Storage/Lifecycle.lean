/-
The life cycle of a checkpoint, over any run of transactions on a store. What a task's saves may do
is said once, for any backend that shows its rows, its cancellations and its outbox; the in-memory
and the SQLite store are then two such backends.
-/
import Portmark.Storage.Memory
import Portmark.Storage.Sqlite

namespace Portmark.Storage

open Lib Lib.Json Host List Table Option

/-! ## The life of one task -/

structure TaskRow where
  generation : Int
  closed : Bool
  owner : Option String × Option String
  authorityCeiling : Option Text

structure Saved where
  save : SaveArguments
  generation : Int

/-- A save the row allows, and its generation. -/
def Allows : Option TaskRow → Saved → Prop
  | none, s => s.save.expectedGeneration = 0 ∧ s.generation = 1
  | some row, s => row.closed = false ∧ row.generation = s.save.expectedGeneration ∧
      row.owner = ownerColumns s.save.owner ∧ s.generation = s.save.expectedGeneration + 1

def rowAfter (row : Option TaskRow) (s : Saved) : TaskRow :=
  ⟨s.generation, s.save.closed, row.elim (ownerColumns s.save.owner) (·.owner),
    row.elim s.save.authorityCeiling (·.authorityCeiling)⟩

inductive Life : List Saved → Option TaskRow → Prop where
  | start : Life [] none
  | save {saves : List Saved} {row : Option TaskRow} {s : Saved} (life : Life saves row) (allows : Allows row s) :
      Life (saves ++ [s]) (some (rowAfter row s))

/-- A save replaces the generation of the row, and raises it by one. -/
theorem Allows.expected {row : Option TaskRow} {s : Saved} (h : Allows row s) :
    s.save.expectedGeneration = (row.map (·.generation)).getD 0 ∧ s.generation = s.save.expectedGeneration + 1 := by
  cases row with
  | none => exact ⟨h.1, by rw [h.1, h.2]; rfl⟩
  | some => exact ⟨h.2.1.symm, h.2.2.2⟩

namespace Life

variable {saves : List Saved} {row : Option TaskRow}

section

variable (h : Life saves row)

include h

theorem generation_eq : (row.map (·.generation)).getD 0 = saves.length := by
  induction h with
  | start => rfl
  | save life allows ih =>
    simp only [rowAfter, map_some, getD_some, length_append, length_singleton]
    rw [allows.expected.2, allows.expected.1, ih]
    rfl

theorem isSome_iff : row.isSome = true ↔ saves ≠ [] := by
  cases h with
  | start => simp
  | save => simp

theorem expected_eq {i : Nat} {s : Saved} (hs : saves[i]? = some s) :
    s.save.expectedGeneration = i ∧ s.generation = i + 1 := by
  induction h with
  | start => simp at hs
  | @save saves row last life allows ih =>
    by_cases hi : i < saves.length
    · rw [getElem?_append_left hi] at hs
      exact ih hs
    obtain ⟨hlt, rfl⟩ := List.getElem?_eq_some_iff.1 hs
    rw [length_append, length_singleton] at hlt
    obtain rfl : i = saves.length := by omega
    rw [getElem_concat_length rfl, allows.expected.2, allows.expected.1, life.generation_eq]
    exact ⟨rfl, rfl⟩

/-- Owner and ceiling of the row are those of the first save, and every save came from that owner. -/
theorem first {r : TaskRow} (hr : row = some r) : ∃ s, saves.head? = some s ∧
    r.owner = ownerColumns s.save.owner ∧ r.authorityCeiling = s.save.authorityCeiling ∧
      ∀ s' ∈ saves, ownerColumns s'.save.owner = r.owner := by
  induction h generalizing r with
  | start => cases hr
  | @save saves row last life allows ih =>
    cases hr
    cases row with
    | none =>
      have hnil : saves = [] := by
        by_contra hne
        exact absurd (life.isSome_iff.2 hne) (by simp)
      subst hnil
      exact ⟨last, rfl, rfl, rfl, by simp [rowAfter]⟩
    | some =>
      obtain ⟨s, hhead, howner, hceiling, hall⟩ := ih rfl
      refine ⟨s, ?_, howner, hceiling, ?_⟩
      · rw [head?_append, hhead]
        rfl
      · intro s' hs'
        rcases mem_append.1 hs' with hs' | hs'
        · exact hall s' hs'
        · rw [mem_singleton.1 hs']
          exact allows.2.2.1.symm

/-- Only the last save can have closed the task, and the row says whether it did. -/
theorem closed_eq : (row.map (·.closed)) = saves.getLast?.map (·.save.closed) ∧
    ∀ (i : Nat) (s : Saved), i + 1 < saves.length → saves[i]? = some s → s.save.closed = false := by
  induction h with
  | start => simp
  | @save saves row last life allows ih =>
    refine ⟨by simp [rowAfter], ?_⟩
    intro i s hi hs
    rw [length_append, length_singleton] at hi
    rw [getElem?_append_left (by omega)] at hs
    by_cases hlast : i + 1 < saves.length
    · exact ih.2 i s hlast hs
    -- the save before this one left the row this one was allowed on
    have hget : saves.getLast? = some s := by
      rw [getLast?_eq_getElem?, show saves.length - 1 = i by omega]
      exact hs
    rcases row with _ | _
    · rw [hget] at ih
      simp at ih
    have hclosed := ih.1
    rw [hget] at hclosed
    simp only [map_some, Option.some.injEq] at hclosed
    rw [← hclosed]
    exact allows.1

end

end Life

/-! ## Runs -/

def accepted : List Call → List Outcome → List Saved
  | .saveCheckpoint save :: calls, .ok (.generation n) :: outcomes => ⟨save, n⟩ :: accepted calls outcomes
  | _ :: calls, _ :: outcomes => accepted calls outcomes
  | _, _ => []

def committed : Step → List Outcome → List Saved
  | .transaction calls true, outcomes => accepted calls outcomes
  | _, _ => []

namespace Backend

variable (B : Backend)

def saves : List Step → B.Store → List Saved
  | [], _ => []
  | step :: steps, store => committed step (B.step step store).1 ++ saves steps (B.step step store).2

def savesOf (steps : List Step) (taskId : String) : List Saved :=
  (B.saves steps B.new).filter fun s => decide (s.save.taskId = taskId)

theorem run_append (before steps : List Step) (store : B.Store) :
    (B.run (before ++ steps) store).2 = (B.run steps (B.run before store).2).2 := by
  induction before generalizing store with
  | nil => rfl
  | cons step before ih => exact ih _

theorem saves_append (before steps : List Step) (store : B.Store) :
    B.saves (before ++ steps) store = B.saves before store ++ B.saves steps (B.run before store).2 := by
  induction before generalizing store with
  | nil => rfl
  | cons step before ih =>
    rw [cons_append, saves, saves, ih, append_assoc]
    rfl

end Backend

structure View (B : Backend) where
  task : B.Store → String → Option TaskRow
  cancelled : B.Store → String → Bool
  outbox : B.Store → String → Option OutboxRow
  Valid : B.Store → Prop

structure View.Lawful {B : Backend} (V : View B) : Prop where
  new_valid : V.Valid B.new
  new_task : ∀ taskId, V.task B.new taskId = none
  call_valid : ∀ {call store}, V.Valid store → V.Valid (B.call call store).2
  call_cancelled : ∀ {call store}, V.cancelled (B.call call store).2 = V.cancelled store
  call_save : ∀ {save store n}, V.Valid store → (B.call (.saveCheckpoint save) store).1 = .ok (.generation n) →
    Allows (V.task store save.taskId) ⟨save, n⟩ ∧ (save.closed = true ∨ V.cancelled store save.taskId = false) ∧
      V.task (B.call (.saveCheckpoint save) store).2 =
        Function.update (V.task store) save.taskId (some (rowAfter (V.task store save.taskId) ⟨save, n⟩))
  call_other : ∀ {call store}, V.Valid store → accepted [call] [(B.call call store).1] = [] →
    V.task (B.call call store).2 = V.task store
  call_outbox : ∀ {call store taskId}, V.Valid store → V.cancelled store taskId = true →
    V.outbox (B.call call store).2 taskId = V.outbox store taskId
  rollback_valid : ∀ {store after}, V.Valid store → V.Valid after → V.Valid (B.rollback store after)
  rollback_task : ∀ {store after}, V.task (B.rollback store after) = V.task store
  rollback_cancelled : ∀ {store after}, V.cancelled after = V.cancelled store →
    V.cancelled (B.rollback store after) = V.cancelled store
  rollback_outbox : ∀ {store after}, V.outbox (B.rollback store after) = V.outbox store
  cancel_valid : ∀ {taskId store}, V.Valid store → V.Valid (B.cancelTask taskId store)
  cancel_task : ∀ {taskId store}, V.task (B.cancelTask taskId store) = V.task store
  cancel_cancelled : ∀ {taskId store},
    V.cancelled (B.cancelTask taskId store) = Function.update (V.cancelled store) taskId true
  cancel_outbox : ∀ {taskId store}, V.outbox (B.cancelTask taskId store) = V.outbox store

structure View.Keeps {B : Backend} (V : View B) (store after : B.Store) : Prop where
  valid : V.Valid store → V.Valid after
  task : V.task after = V.task store
  cancelled : V.cancelled after = V.cancelled store
  outbox : ∀ taskId, V.cancelled store taskId = true → V.outbox after taskId = V.outbox store taskId

theorem View.Keeps.trans {B : Backend} {V : View B} {store mid after : B.Store} (h : V.Keeps store mid)
    (h' : V.Keeps mid after) : V.Keeps store after :=
  ⟨h'.valid ∘ h.valid, h'.task.trans h.task, h'.cancelled.trans h.cancelled, fun taskId hc =>
    (h'.outbox taskId (h.cancelled ▸ hc)).trans (h.outbox taskId hc)⟩

theorem accepted_cons (call : Call) (calls : List Call) (outcome : Outcome) (outcomes : List Outcome) :
    accepted (call :: calls) (outcome :: outcomes) = accepted [call] [outcome] ++ accepted calls outcomes := by
  cases call with
  | saveCheckpoint =>
    cases outcome with
    | error => rfl
    | ok reply => cases reply <;> rfl
  | _ => rfl

theorem accepted_single (call : Call) (outcome : Outcome) : accepted [call] [outcome] = [] ∨
    ∃ save n, call = .saveCheckpoint save ∧ outcome = .ok (.generation n) ∧
      accepted [call] [outcome] = [⟨save, n⟩] := by
  cases call with
  | saveCheckpoint save =>
    cases outcome with
    | error => exact .inl rfl
    | ok reply =>
      cases reply with
      | generation n => exact .inr ⟨save, n, rfl, rfl, rfl⟩
      | _ => exact .inl rfl
  | _ => exact .inl rfl

def ofTask (taskId : String) (saves : List Saved) : List Saved := saves.filter fun s => decide (s.save.taskId = taskId)

def View.Lives {B : Backend} (V : View B) (past : List Saved) (store : B.Store) : Prop :=
  ∀ taskId, Life (ofTask taskId past) (V.task store taskId)

variable {past : List Saved}

theorem View.Lives.congr {B : Backend} {V : View B} {store store' : B.Store}
    (h : V.Lives past store) (htask : V.task store' = V.task store) : V.Lives (past ++ []) store' := by
  intro taskId
  rw [append_nil, htask]
  exact h taskId

variable {taskId : String}

namespace View.Lawful

variable {B : Backend} {V : View B} (law : V.Lawful)

include law

variable {store : B.Store}

theorem lives_call (call : Call) (hvalid : V.Valid store)
    (h : V.Lives past store) : V.Lives (past ++ accepted [call] [(B.call call store).1]) (B.call call store).2 := by
  rcases accepted_single call (B.call call store).1 with hnone | ⟨save, n, rfl, hout, hone⟩
  · rw [hnone]
    exact h.congr (law.call_other hvalid hnone)
  obtain ⟨hallows, -, htask⟩ := law.call_save hvalid hout
  intro taskId
  rw [hone, ofTask, filter_append, htask]
  by_cases ht : save.taskId = taskId
  · subst ht
    simpa [ofTask] using (h save.taskId).save hallows
  · rw [Function.update_of_ne (fun e => ht e.symm)]
    simpa [ofTask, ht] using h taskId

theorem perform_facts (calls : List Call) (store : B.Store) (hvalid : V.Valid store) :
    V.Valid (B.perform calls store).2 ∧ V.cancelled (B.perform calls store).2 = V.cancelled store := by
  induction calls generalizing store with
  | nil => exact ⟨hvalid, rfl⟩
  | cons call calls ih =>
    obtain ⟨h1, h2⟩ := ih (B.call call store).2 (law.call_valid hvalid)
    exact ⟨h1, h2.trans law.call_cancelled⟩

theorem lives_perform (calls : List Call) (hvalid : V.Valid store) (h : V.Lives past store) :
    V.Lives (past ++ accepted calls (B.perform calls store).1) (B.perform calls store).2 := by
  induction calls generalizing store past with
  | nil => exact h.congr rfl
  | cons call calls ih =>
    have hrest := ih (law.call_valid hvalid) (law.lives_call call hvalid h)
    rw [Backend.perform, accepted_cons, ← append_assoc]
    exact hrest

theorem step_valid (step : Step) (hvalid : V.Valid store) : V.Valid (B.step step store).2 := by
  cases step with
  | cancelTask => exact law.cancel_valid hvalid
  | transaction calls commits =>
    obtain ⟨hafter, -⟩ := law.perform_facts calls store hvalid
    cases commits with
    | true => exact hafter
    | false => exact law.rollback_valid hvalid hafter

theorem lives_step (step : Step) (hvalid : V.Valid store)
    (h : V.Lives past store) : V.Lives (past ++ committed step (B.step step store).1) (B.step step store).2 := by
  cases step with
  | cancelTask => exact h.congr law.cancel_task
  | transaction calls commits =>
    cases commits with
    | true => exact law.lives_perform calls hvalid h
    | false => exact h.congr law.rollback_task

theorem run_valid (steps : List Step) (hvalid : V.Valid store) : V.Valid (B.run steps store).2 := by
  induction steps generalizing store with
  | nil => exact hvalid
  | cons step steps ih => exact ih (law.step_valid step hvalid)

theorem lives_run (steps : List Step) (hvalid : V.Valid store)
    (h : V.Lives past store) : V.Lives (past ++ B.saves steps store) (B.run steps store).2 := by
  induction steps generalizing store past with
  | nil => exact h.congr rfl
  | cons step steps ih =>
    have hrest := ih (law.step_valid step hvalid) (law.lives_step step hvalid h)
    rw [Backend.saves, ← append_assoc]
    exact hrest

/-! ## After a cancellation -/

/-- A cancelled task: what a call leaves of its outbox row, and which saves of it are accepted. -/
theorem cancelled_call (call : Call) (hvalid : V.Valid store) (hc : V.cancelled store taskId = true) :
    (∀ s ∈ ofTask taskId (accepted [call] [(B.call call store).1]), s.save.closed = true) ∧
      V.outbox (B.call call store).2 taskId = V.outbox store taskId := by
  refine ⟨?_, law.call_outbox hvalid hc⟩
  intro s hs
  rcases accepted_single call (B.call call store).1 with hnone | ⟨save, n, rfl, hout, hone⟩
  · rw [hnone] at hs
    simp [ofTask] at hs
  rw [hone] at hs
  obtain ⟨hmem, ht⟩ := mem_filter.1 hs
  obtain rfl := mem_singleton.1 hmem
  simp only [decide_eq_true_eq] at ht
  obtain ⟨-, hclosed | hopen, -⟩ := law.call_save hvalid hout
  · exact hclosed
  · rw [ht, hc] at hopen
    cases hopen

theorem cancelled_perform (calls : List Call) (hvalid : V.Valid store) (hc : V.cancelled store taskId = true) :
    (∀ s ∈ ofTask taskId (accepted calls (B.perform calls store).1), s.save.closed = true) ∧
      V.outbox (B.perform calls store).2 taskId = V.outbox store taskId := by
  induction calls generalizing store with
  | nil => exact ⟨by simp [ofTask, accepted], rfl⟩
  | cons call calls ih =>
    obtain ⟨h1, h2⟩ := law.cancelled_call call hvalid hc
    have hc' : V.cancelled (B.call call store).2 taskId = true := by
      rw [law.call_cancelled]
      exact hc
    obtain ⟨h3, h4⟩ := ih (law.call_valid hvalid) hc'
    refine ⟨?_, h4.trans h2⟩
    rw [Backend.perform, accepted_cons, ofTask, filter_append, forall_mem_append]
    exact ⟨h1, h3⟩

theorem cancelled_step (step : Step) (hvalid : V.Valid store) (hc : V.cancelled store taskId = true) :
    V.cancelled (B.step step store).2 taskId = true ∧
      (∀ s ∈ ofTask taskId (committed step (B.step step store).1), s.save.closed = true) ∧
      V.outbox (B.step step store).2 taskId = V.outbox store taskId := by
  cases step with
  | cancelTask cancelledId =>
    refine ⟨?_, by simp [ofTask, committed], congrFun law.cancel_outbox taskId⟩
    show V.cancelled (B.cancelTask cancelledId store) taskId = true
    rw [law.cancel_cancelled]
    by_cases h : taskId = cancelledId
    · rw [h, Function.update_self]
    · rw [Function.update_of_ne h]
      exact hc
  | transaction calls commits =>
    obtain ⟨-, hcancelled⟩ := law.perform_facts calls store hvalid
    obtain ⟨hclosed, houtbox⟩ := law.cancelled_perform calls hvalid hc
    cases commits with
    | true => exact ⟨(congrFun hcancelled taskId).trans hc, hclosed, houtbox⟩
    | false =>
      exact ⟨(congrFun (law.rollback_cancelled hcancelled) taskId).trans hc, by simp [ofTask, committed],
        congrFun law.rollback_outbox taskId⟩

theorem cancelled_run (steps : List Step) (hvalid : V.Valid store) (hc : V.cancelled store taskId = true) :
    (∀ s ∈ ofTask taskId (B.saves steps store), s.save.closed = true) ∧
      V.outbox (B.run steps store).2 taskId = V.outbox store taskId := by
  induction steps generalizing store with
  | nil => exact ⟨by simp [ofTask, Backend.saves], rfl⟩
  | cons step steps ih =>
    obtain ⟨h1, h2, h3⟩ := law.cancelled_step step hvalid hc
    obtain ⟨h4, h5⟩ := ih (law.step_valid step hvalid) h1
    refine ⟨?_, h5.trans h3⟩
    rw [Backend.saves, ofTask, filter_append, forall_mem_append]
    exact ⟨h2, h4⟩

end View.Lawful

/-! ## The life cycle -/

/-- The life cycle of the tasks of a store, over a run from a new store. -/
structure LifeCycle {B : Backend} (V : View B) (steps : List Step) : Prop where
  generation : ∀ taskId,
    ((V.task (B.after steps) taskId).map (·.generation)).getD 0 = ((B.savesOf steps taskId).length : Int)
  stored : ∀ taskId, (V.task (B.after steps) taskId).isSome = true ↔ B.savesOf steps taskId ≠ []
  asserted : ∀ (taskId : String) (i : Nat) (s : Saved), (B.savesOf steps taskId)[i]? = some s →
    s.save.expectedGeneration = i ∧ s.generation = i + 1
  owner : ∀ taskId row, V.task (B.after steps) taskId = some row →
    ∃ first, (B.savesOf steps taskId).head? = some first ∧
    row.owner = ownerColumns first.save.owner ∧ row.authorityCeiling = first.save.authorityCeiling ∧
      ∀ s ∈ B.savesOf steps taskId, ownerColumns s.save.owner = row.owner
  closed : ∀ taskId, (V.task (B.after steps) taskId).map (·.closed) =
      (B.savesOf steps taskId).getLast?.map (·.save.closed) ∧
    ∀ (i : Nat) (s : Saved), i + 1 < (B.savesOf steps taskId).length → (B.savesOf steps taskId)[i]? = some s →
      s.save.closed = false
  cancelled : ∀ taskId before later, steps = before ++ .cancelTask taskId :: later →
    (∀ s ∈ (B.savesOf steps taskId).drop (B.savesOf before taskId).length, s.save.closed = true) ∧
      V.outbox (B.after steps) taskId = V.outbox (B.after before) taskId

theorem View.Lawful.lifeCycle {B : Backend} {V : View B} (law : V.Lawful) (steps : List Step) : LifeCycle V steps := by
  have hlives : V.Lives (B.saves steps B.new) (B.after steps) := by
    have hnew : V.Lives [] B.new := by
      intro taskId
      rw [law.new_task]
      exact .start
    exact law.lives_run steps law.new_valid hnew
  refine ⟨fun taskId => (hlives taskId).generation_eq, fun taskId => (hlives taskId).isSome_iff,
    fun taskId i s hs => (hlives taskId).expected_eq hs, fun taskId row hrow => (hlives taskId).first hrow,
    fun taskId => (hlives taskId).closed_eq, ?_⟩
  rintro taskId before later rfl
  have hvalid := law.run_valid before law.new_valid
  have hcancelled : V.cancelled (B.cancelTask taskId (B.after before)) taskId = true := by
    rw [law.cancel_cancelled, Function.update_self]
  obtain ⟨hclosed, houtbox⟩ := law.cancelled_run later (law.cancel_valid hvalid) hcancelled
  refine ⟨?_, ?_⟩
  · intro s hs
    simp only [Backend.savesOf, B.saves_append, filter_append, drop_left] at hs
    exact hclosed s hs
  · rw [Backend.after, B.run_append]
    exact houtbox.trans (congrFun law.cancel_outbox taskId)

/-! ## The in-memory store -/

section Memory

open InMemoryRuntimeStore

variable (env : Security.Env)

def MemoryCheckpoint.taskRow (row : MemoryCheckpoint) : TaskRow :=
  ⟨row.generation, row.closed, row.owner, row.authorityCeiling⟩

def memoryView : View (memory env) where
  task store taskId := (Assoc.get? store.checkpoints taskId).map MemoryCheckpoint.taskRow
  cancelled store taskId := store.isTaskCancelled taskId
  outbox store taskId := Assoc.get? store.outbox taskId
  Valid _ := True

theorem memory_appendLoop (taskId hostId : String) (signHead : Option AuditHeadSigner) (events : List Event)
    (store : InMemoryRuntimeStore) :
    (memoryView env).Keeps store (appendLoop taskId hostId signHead events store).2 := by
  induction events generalizing store with
  | nil => exact ⟨id, rfl, rfl, fun _ _ => rfl⟩
  | cons event events ih =>
    rw [appendLoop]
    by_cases h : Continues ((Assoc.get? store.auditEvents taskId).getD []) event
    · rw [appendAuditEvent_continues h]
      obtain ⟨h1, h2, h3, h4⟩ := ih (withEvent taskId hostId signHead event _ store)
      exact ⟨h1, h2, h3, h4⟩
    · obtain ⟨message, hm⟩ := @appendAuditEvent_refused taskId hostId signHead event store h
      rw [hm]
      exact ⟨id, rfl, rfl, fun _ _ => rfl⟩

theorem closed_or_open {closed cancelled : Bool} (h : ¬ (!closed && cancelled) = true) :
    closed = true ∨ cancelled = false := by
  cases closed <;> simp_all

/-- What an accepted save was checked against. -/
theorem memory_checkSave {save : SaveArguments} {store : InMemoryRuntimeStore} {n : Int}
    (h : checkSave save store = .ok n) : Allows ((memoryView env).task store save.taskId) ⟨save, n⟩ ∧
      (save.closed = true ∨ store.isTaskCancelled save.taskId = false) := by
  unfold checkSave at h
  split at h
  · cases h
  refine ⟨?_, closed_or_open ‹_›⟩
  simp only [memoryView]
  cases hrow : Assoc.get? store.checkpoints save.taskId with
  | none =>
    simp only [hrow] at h
    split at h
    · cases h
    · rename_i hgen
      cases h
      exact ⟨not_not.1 hgen, rfl⟩
  | some row =>
    simp only [hrow] at h
    split at h
    · cases h
    rename_i hclosed
    split at h
    · cases h
    rename_i hgen
    split at h
    · rename_i howner
      cases h
      have hopen' : row.closed = false := by simpa using hclosed
      exact ⟨hopen', not_not.1 hgen, checkOwner_ok howner, rfl⟩
    · cases h

/-- Only an accepted save shows, and a cancelled task gets no outbox row. -/
theorem memory_call (call : Call) (store : InMemoryRuntimeStore) :
    (memoryView env).Keeps store (InMemoryRuntimeStore.call env call store).2 ∨
      ∃ save n, call = .saveCheckpoint save ∧ checkSave save store = .ok n := by
  have same : (memoryView env).Keeps store store := ⟨id, rfl, rfl, fun _ _ => rfl⟩
  cases call with
  | consumeNonce =>
    simp only [InMemoryRuntimeStore.call, consumeNonce]
    split <;> exact .inl ⟨id, rfl, rfl, fun _ _ => rfl⟩
  | advanceTimeFloor =>
    simp only [InMemoryRuntimeStore.call, advanceTimeFloor]
    split <;> exact .inl ⟨id, rfl, rfl, fun _ _ => rfl⟩
  | appendAuditEvents taskId hostId events =>
    refine .inl (View.Keeps.trans ?_ (memory_appendLoop env _ _ _ events _))
    exact ⟨id, rfl, rfl, fun _ _ => rfl⟩
  | saveCheckpoint save =>
    simp only [InMemoryRuntimeStore.call, saveCheckpoint]
    cases hs : checkSave save store with
    | error => exact .inl same
    | ok n => exact .inr ⟨save, n, rfl, hs⟩
  | enqueueMigration taskId =>
    simp only [InMemoryRuntimeStore.call, enqueueMigration]
    split
    · exact .inl same
    rename_i hopen
    split
    · split <;> exact .inl same
    · refine .inl ⟨id, rfl, rfl, fun other hc => ?_⟩
      have hne : other ≠ taskId := fun h => hopen (h ▸ hc)
      simp [memoryView, Assoc.get?_set, hne]
  | _ => exact .inl ⟨id, rfl, rfl, fun _ _ => rfl⟩

theorem memory_cancelTask (store : InMemoryRuntimeStore) (taskId other : String) :
    (cancelTask taskId store).isTaskCancelled other = if other = taskId then true else store.isTaskCancelled other := by
  unfold isTaskCancelled cancelTask
  by_cases h : other = taskId
  · subst h
    split <;> simp_all
  · split <;> simp [h]

theorem memory_lawful : (memoryView env).Lawful where
  new_valid := trivial
  new_task _ := rfl
  call_valid _ := trivial
  call_cancelled := by
    intro call store
    rcases memory_call env call store with hsame | ⟨save, n, rfl, hs⟩
    · exact hsame.cancelled
    · simp only [memory, InMemoryRuntimeStore.call, saveCheckpoint, hs]
      rfl
  call_save := by
    intro save store n _ h
    change (saveCheckpoint save store).1 = _ at h
    change _ ∧ _ ∧ (memoryView env).task (saveCheckpoint save store).2 = _
    unfold saveCheckpoint at h ⊢
    rcases hs : checkSave save store with _ | _
    · rw [hs] at h; cases h
    rw [hs] at h
    cases h
    obtain ⟨hallows, hcancelled⟩ := memory_checkSave env hs
    refine ⟨hallows, hcancelled, ?_⟩
    funext taskId
    simp only [memoryView, Assoc.get?_set, Function.update_apply]
    split
    · cases Assoc.get? store.checkpoints save.taskId <;> rfl
    · rfl
  call_other := by
    intro call store _ h
    rcases memory_call env call store with hsame | ⟨save, n, rfl, hs⟩
    · exact hsame.task
    · simp only [memory, InMemoryRuntimeStore.call, saveCheckpoint, hs] at h
      cases h
  call_outbox := by
    intro call store taskId _ hc
    rcases memory_call env call store with hsame | ⟨save, n, rfl, hs⟩
    · exact hsame.outbox taskId hc
    · simp only [memory, InMemoryRuntimeStore.call, saveCheckpoint, hs]
      rfl
  rollback_valid _ _ := trivial
  rollback_task := by
    intro store after
    funext taskId
    exact (congrArg (Option.map MemoryCheckpoint.taskRow)
      (get?_map MemoryCheckpoint.copy _ taskId)).trans (Option.map_map ..)
  rollback_cancelled h := h
  rollback_outbox := rfl
  cancel_valid _ := trivial
  cancel_task := rfl
  cancel_cancelled := by
    intro taskId store
    funext other
    exact (memory_cancelTask store taskId other).trans (Function.update_apply ..).symm
  cancel_outbox := rfl

end Memory

/-! ## The SQLite store -/

section Sqlite

open SQLiteRuntimeStore

variable (floatText : ℚ → Text) (env : Security.Env) (codec : Option CheckpointCodec)

def CheckpointRecord.taskRow (row : CheckpointRecord) : TaskRow :=
  ⟨row.generation, row.closed != 0, row.owner, row.authorityCeiling⟩

def sqliteView : View (sqlite floatText env codec) where
  task store taskId := (Table.rowOf CheckpointRecord.taskId store.checkpoints taskId).map CheckpointRecord.taskRow
  cancelled store taskId := store.isTaskCancelled taskId
  outbox store taskId := (Table.rowOf OutboxRecord.taskId store.migrationOutbox taskId).map (·.row)
  Valid store := Table.Unique CheckpointRecord.taskId store.checkpoints

theorem sqlite_appendAuditEvent (taskId hostId : String) (signHead : Option AuditHeadSigner) (event : Event)
    (store : SQLiteRuntimeStore) : (sqliteView floatText env codec).Keeps store
      (appendAuditEvent floatText taskId hostId signHead event store).2 := by
  unfold appendAuditEvent upsertHead
  simp only
  repeat' split
  all_goals exact ⟨id, rfl, rfl, fun _ _ => rfl⟩

theorem sqlite_appendAuditEvents (taskId hostId : String) (signHead : Option AuditHeadSigner) (events : List Event)
    (store : SQLiteRuntimeStore) : (sqliteView floatText env codec).Keeps store
      (appendAuditEvents floatText taskId hostId signHead events store).2 := by
  induction events generalizing store with
  | nil => exact ⟨id, rfl, rfl, fun _ _ => rfl⟩
  | cons event events ih =>
    have hone := sqlite_appendAuditEvent floatText env codec taskId hostId signHead event store
    rw [appendAuditEvents]
    split
    · rename_i store' heq
      rw [heq] at hone
      exact hone.trans (ih store')
    · rename_i store' heq
      rw [heq] at hone
      exact hone

/-- The two ways a save can go on, seen from the other tables. -/
theorem sqlite_save_frame (save : SaveArguments) (store : SQLiteRuntimeStore) :
    (saveCheckpoint floatText codec save store).2.taskCancellations = store.taskCancellations ∧
      (saveCheckpoint floatText codec save store).2.migrationOutbox = store.migrationOutbox := by
  unfold saveCheckpoint
  split
  · exact ⟨rfl, rfl⟩
  split
  · unfold createCheckpoint
    split <;> exact ⟨rfl, rfl⟩
  unfold updateCheckpoint
  split
  · exact ⟨rfl, rfl⟩
  · split <;> exact ⟨rfl, rfl⟩

variable {save : SaveArguments} {store : SQLiteRuntimeStore}

theorem closedColumn_ne_zero (closed : Bool) : (SQLiteRuntimeStore.closedColumn closed != 0) = closed := by
  cases closed <;> rfl

variable {row : CheckpointRecord}

theorem checkRow_ok {done : Unit} (h : checkRow codec save row = .ok done) :
    row.closed = 0 ∧ row.owner = ownerColumns save.owner := by
  unfold checkRow at h
  split at h
  · cases h
  split at h
  · cases h
  · rename_i hclosed
    exact ⟨not_not.1 hclosed, checkOwner_ok h⟩

theorem createCheckpoint_eq (hrow : rowOf CheckpointRecord.taskId store.checkpoints save.taskId = none) :
    createCheckpoint floatText codec save store =
      if save.expectedGeneration = 0 then
        (.ok (.generation 1), { store with checkpoints := store.checkpoints ++ [createdRecord floatText codec save] })
      else (.error (.security "stale checkpoint generation"), store) := by
  have hnew : insertOrNothing (sameKey CheckpointRecord.taskId) store.checkpoints
      (createdRecord floatText codec save) = (1, store.checkpoints ++ [createdRecord floatText codec save]) := by
    have hany : store.checkpoints.any (sameKey CheckpointRecord.taskId (createdRecord floatText codec save)) =
        false := by
      rw [any_sameKey]
      exact congrArg Option.isSome hrow
    simp [insertOrNothing, hany]
  unfold createCheckpoint
  by_cases hgen : save.expectedGeneration = 0
  · rw [if_neg (not_not.2 hgen), if_pos hgen, hnew]
    rfl
  · rw [if_pos hgen, if_neg hgen]

section

variable (hu : Table.Unique CheckpointRecord.taskId store.checkpoints)
  (hrow : rowOf CheckpointRecord.taskId store.checkpoints save.taskId = some row)

include hu hrow

theorem updatable_count (hclosed : row.closed = 0) :
    store.checkpoints.countP (updatable save) = if row.generation = save.expectedGeneration then 1 else 0 := by
  have hcount : store.checkpoints.countP (updatable save) = _ := countP_key hu save.taskId
    fun r => decide (r.generation = save.expectedGeneration) && decide (r.closed = 0)
  rw [hrow] at hcount
  simpa [hclosed] using hcount

/-- A later save: it is checked against the row, or refused with the store as it was. -/
theorem updateCheckpoint_cases : (∃ e, updateCheckpoint floatText codec save row store = (.error e, store)) ∨
    (row.closed = 0 ∧ row.owner = ownerColumns save.owner ∧ row.generation = save.expectedGeneration ∧
      updateCheckpoint floatText codec save row store = (.ok (.generation (save.expectedGeneration + 1)),
        { store with
          checkpoints :=
            (Table.update (updatable save) (updatedRecord floatText codec save row) store.checkpoints).2 })) := by
  unfold updateCheckpoint
  rcases hcheck : checkRow codec save row with e | done
  · exact .inl ⟨e, rfl⟩
  obtain ⟨hclosed, howner⟩ := checkRow_ok codec hcheck
  simp only
  rcases hbind : bindInts [save.expectedGeneration + 1, save.expectedGeneration] with e | _
  · exact .inl ⟨e, rfl⟩
  have hcount := updatable_count hu hrow hclosed
  by_cases hgen : row.generation = save.expectedGeneration
  · rw [if_pos hgen] at hcount
    have hone : (Table.update (updatable save) (updatedRecord floatText codec save row) store.checkpoints).1 = 1 :=
      hcount
    refine .inr ⟨hclosed, howner, hgen, ?_⟩
    rw [if_neg (not_not.2 hone)]
  · rw [if_neg hgen] at hcount
    rw [update_none _ hcount]
    exact .inl ⟨_, rfl⟩

end

theorem rowOf_updated (hrow : rowOf CheckpointRecord.taskId store.checkpoints save.taskId = some row)
    (hclosed : row.closed = 0) (hgen : row.generation = save.expectedGeneration) : rowOf CheckpointRecord.taskId
      (Table.update (updatable save) (updatedRecord floatText codec save row) store.checkpoints).2 =
      Function.update (rowOf CheckpointRecord.taskId store.checkpoints) save.taskId
        (some (updatedRecord floatText codec save row row)) := by
  have hkeep : ∀ r, (updatedRecord floatText codec save row r).taskId = r.taskId := fun _ => rfl
  have hwhich : ∀ r, updatable save r = true → r.taskId = save.taskId := by simp +contextual [updatable]
  rw [rowOf_update_key hkeep hwhich, hrow, map_some,
    if_pos (by simp [updatable, key_of_rowOf hrow, hclosed, hgen])]

/-- A save: accepted as its row allows, or refused with the store as it was. -/
theorem sqlite_save_cases (hu : Table.Unique CheckpointRecord.taskId store.checkpoints) :
    (∃ e, saveCheckpoint floatText codec save store = (.error e, store)) ∨
    ∃ n record, (saveCheckpoint floatText codec save store).1 = .ok (.generation n) ∧
      Allows ((sqliteView floatText env codec).task store save.taskId) ⟨save, n⟩ ∧
      (save.closed = true ∨ store.isTaskCancelled save.taskId = false) ∧
      Table.Unique CheckpointRecord.taskId (saveCheckpoint floatText codec save store).2.checkpoints ∧
      rowOf CheckpointRecord.taskId (saveCheckpoint floatText codec save store).2.checkpoints =
        Function.update (rowOf CheckpointRecord.taskId store.checkpoints) save.taskId (some record) ∧
      record.taskRow = rowAfter ((sqliteView floatText env codec).task store save.taskId) ⟨save, n⟩ := by
  unfold saveCheckpoint
  by_cases hcancelled : (!save.closed && store.isTaskCancelled save.taskId) = true
  · rw [if_pos hcancelled]
    exact .inl ⟨_, rfl⟩
  rw [if_neg hcancelled]
  have hopen := closed_or_open hcancelled
  simp only [sqliteView]
  cases hrow : rowOf CheckpointRecord.taskId store.checkpoints save.taskId with
  | none =>
    simp only [createCheckpoint_eq floatText codec hrow]
    by_cases hgen : save.expectedGeneration = 0
    · rw [if_pos hgen]
      refine .inr ⟨1, createdRecord floatText codec save, rfl, ⟨hgen, rfl⟩, hopen, ?_, ?_, ?_⟩
      · exact unique_append hu hrow
      · exact rowOf_append_new hrow
      · simp [CheckpointRecord.taskRow, createdRecord, rowAfter, closedColumn_ne_zero]
    · rw [if_neg hgen]
      exact .inl ⟨_, rfl⟩
  | some row =>
    simp only
    rcases updateCheckpoint_cases floatText codec hu hrow with ⟨e, he⟩ | ⟨hclosed, howner, hgen, hupdate⟩
    · rw [he]
      exact .inl ⟨e, rfl⟩
    rw [hupdate]
    refine .inr ⟨_, updatedRecord floatText codec save row row, rfl, ⟨?_, hgen, howner, rfl⟩, hopen, ?_, ?_, ?_⟩
    · simp [CheckpointRecord.taskRow, hclosed]
    · exact unique_update (fun _ => rfl) hu
    · exact rowOf_updated floatText codec hrow hclosed hgen
    · simp [CheckpointRecord.taskRow, updatedRecord, rowAfter, closedColumn_ne_zero]

theorem rowOf_upsert_other {which : OutboxRecord → Bool} {set : OutboxRecord → OutboxRecord} {record : OutboxRecord}
    {t : Table OutboxRecord} (hset : ∀ r, (set r).taskId = r.taskId) (hne : record.taskId ≠ taskId) :
    rowOf OutboxRecord.taskId (upsert (sameKey OutboxRecord.taskId) which set t record).2 taskId =
      rowOf OutboxRecord.taskId t taskId := by
  unfold upsert
  split
  · rw [rowOf_update_key hset fun _ => key_of_sameKey, Function.update_of_ne (Ne.symm hne)]
  · rw [rowOf_append, if_neg hne, or_none]

theorem sqlite_call (call : Call) (store : SQLiteRuntimeStore) :
    (sqliteView floatText env codec).Keeps store (SQLiteRuntimeStore.call floatText codec env call store).2 ∨
      ∃ save, call = .saveCheckpoint save := by
  cases call with
  | consumeNonce =>
    simp only [SQLiteRuntimeStore.call, consumeNonce]
    split
    · exact .inl ⟨id, rfl, rfl, fun _ _ => rfl⟩
    · split <;> exact .inl ⟨id, rfl, rfl, fun _ _ => rfl⟩
  | advanceTimeFloor =>
    simp only [SQLiteRuntimeStore.call, advanceTimeFloor]
    split <;> exact .inl ⟨id, rfl, rfl, fun _ _ => rfl⟩
  | appendAuditEvents taskId hostId events =>
    exact .inl (sqlite_appendAuditEvents floatText env codec _ _ _ events _)
  | saveCheckpoint save => exact .inr ⟨save, rfl⟩
  | enqueueMigration taskId destination =>
    simp only [SQLiteRuntimeStore.call, enqueueMigration]
    split
    · exact .inl ⟨id, rfl, rfl, fun _ _ => rfl⟩
    rename_i hopen
    refine .inl ⟨id, rfl, rfl, fun other hc => congrArg (Option.map OutboxRecord.row) ?_⟩
    have hkeep : ∀ r, (setDestination destination r).taskId = r.taskId := fun _ => rfl
    have hne : taskId ≠ other := fun h => hopen (h ▸ hc)
    exact rowOf_upsert_other hkeep hne
  | storeMigrationReceipt => exact .inl ⟨id, rfl, rfl, fun _ _ => rfl⟩
  | storeWitnessReceipt =>
    simp only [SQLiteRuntimeStore.call, storeWitnessReceipt]
    split <;> exact .inl ⟨id, rfl, rfl, fun _ _ => rfl⟩

theorem sqlite_cancelTask (store : SQLiteRuntimeStore) (taskId other : String) :
    (cancelTask taskId store).isTaskCancelled other = if other = taskId then true else store.isTaskCancelled other := by
  unfold isTaskCancelled cancelTask
  rw [rowOf_insertOrNothing]
  by_cases h : other = taskId
  · simp [h]
  · have h' : taskId ≠ other := fun e => h e.symm
    simp [h, h']

theorem sqlite_lawful : (sqliteView floatText env codec).Lawful where
  new_valid := nodup_nil
  new_task _ := rfl
  call_valid := by
    intro call store hu
    rcases sqlite_call floatText env codec call store with hsame | ⟨save, rfl⟩
    · exact hsame.valid hu
    change Table.Unique CheckpointRecord.taskId (saveCheckpoint floatText codec save store).2.checkpoints
    rcases @sqlite_save_cases floatText env codec save store hu with ⟨e, he⟩ | ⟨_, _, -, -, -, hu', -, -⟩
    · rw [he]
      exact hu
    · exact hu'
  call_cancelled := by
    intro call store
    rcases sqlite_call floatText env codec call store with hsame | ⟨save, rfl⟩
    · exact hsame.cancelled
    · funext taskId
      exact congrArg (fun t => (rowOf id t taskId).isSome) (sqlite_save_frame floatText codec save store).1
  call_save := by
    intro save store n hu h
    rcases @sqlite_save_cases floatText env codec save store hu with
      ⟨e, he⟩ | ⟨m, record, hm, hallows, hopen, -, hrows, hrecord⟩
    · change (saveCheckpoint floatText codec save store).1 = _ at h
      rw [he] at h
      cases h
    · change (saveCheckpoint floatText codec save store).1 = _ at h
      rw [hm] at h
      cases h
      refine ⟨hallows, hopen, ?_⟩
      funext taskId
      change (rowOf CheckpointRecord.taskId (saveCheckpoint floatText codec save store).2.checkpoints taskId).map
        CheckpointRecord.taskRow = _
      rw [hrows, Function.update_apply, Function.update_apply]
      split
      · rw [map_some, hrecord]
      · rfl
  call_other := by
    intro call store hu h
    rcases sqlite_call floatText env codec call store with hsame | ⟨save, rfl⟩
    · exact hsame.task
    change accepted [.saveCheckpoint save] [(saveCheckpoint floatText codec save store).1] = [] at h
    change (sqliteView floatText env codec).task (saveCheckpoint floatText codec save store).2 = _
    rcases @sqlite_save_cases floatText env codec save store hu with ⟨e, he⟩ | ⟨m, record, hm, -⟩
    · rw [he]
    · rw [hm] at h
      cases h
  call_outbox := by
    intro call store taskId _ hc
    rcases sqlite_call floatText env codec call store with hsame | ⟨save, rfl⟩
    · exact hsame.outbox taskId hc
    · exact congrArg (fun t => (rowOf OutboxRecord.taskId t taskId).map OutboxRecord.row)
        (sqlite_save_frame floatText codec save store).2
  rollback_valid h _ := h
  rollback_task := rfl
  rollback_cancelled _ := rfl
  rollback_outbox := rfl
  cancel_valid h := h
  cancel_task := rfl
  cancel_cancelled := by
    intro taskId store
    funext other
    exact (sqlite_cancelTask store taskId other).trans (Function.update_apply ..).symm
  cancel_outbox := rfl

/-- Both stores keep the life cycle of checkpoints, whatever the transactions: the in-memory one, and
the SQLite one with or without a keyring. -/
theorem checkpoint_life_cycle (steps : List Step) :
    LifeCycle (memoryView env) steps ∧ LifeCycle (sqliteView floatText env codec) steps :=
  ⟨(memory_lawful env).lifeCycle steps, (sqlite_lawful floatText env codec).lifeCycle steps⟩

end Sqlite

end Portmark.Storage
