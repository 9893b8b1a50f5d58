/-
The two outboxes keep the rules of `Effect`: what each call of the in-memory and of the SQLite store
does to the rows is what such a call may do, and the keys of the tables stay unique.
-/
import Portmark.Storage.Outbox

namespace Portmark.Storage

open Lib Lib.Json Host Table Assoc Option

variable {env : Security.Env}

variable {limit : Int}

theorem nodup_keys_firstOf {may : OutboxEntry → Bool} {rows : List (String × OutboxEntry)}
    (h : (rows.map Prod.fst).Nodup) : ((firstOf limit may rows).map Prod.fst).Nodup := by
  have hfilter : ((rows.filter fun e => may e.2).map Prod.fst).Nodup := h.sublist (List.filter_sublist.map _)
  have hsorted := ((List.perm_insertionSort (fun a b => earlier a b = true) (rows.filter fun e => may e.2)).map
    Prod.fst).nodup_iff.2 hfilter
  exact hsorted.sublist ((List.take_sublist _ _).map _)

variable {leaseSeconds : Int} {workerId : String}

theorem validateClaimArgs_pos {u : Unit} (h : validateClaimArgs workerId leaseSeconds limit = .ok u) :
    0 < leaseSeconds := by
  unfold validateClaimArgs at h
  split at h
  · cases h
  split at h
  · cases h
  · omega

/-! ## The in-memory store -/

variable {e : OutboxEntry} {moment : Int} {taskId : String}

section Memory

variable {call : OutboxCall} {outcome : OutboxOutcome} {outbox : Assoc OutboxEntry} (hvalid : (Assoc.keys outbox).Nodup)

include hvalid

theorem memory_same (h : ∀ claimed, outcome ≠ .ok (.claimed claimed)) :
    (keys outbox).Nodup ∧ Effect call moment outcome (get? outbox) (get? outbox) :=
  ⟨hvalid, .none h⟩

theorem memory_set {old : Option OutboxEntry} (h : ∀ claimed, outcome ≠ .ok (.claimed claimed))
    (hold : get? outbox taskId = old) (hone : Change call moment outcome taskId old (some e)) :
    (keys (Assoc.set outbox taskId e)).Nodup ∧
      Effect call moment outcome (get? outbox) (get? (Assoc.set outbox taskId e)) := by
  refine ⟨nodup_set hvalid _ _, .one taskId h ?_ ?_⟩
  · intro k hk
    rw [get?_set, if_neg hk]
  · rw [get?_set, if_pos rfl, hold]
    exact hone

theorem memory_claim : (keys (MemoryOutbox.claimMigrations workerId leaseSeconds limit moment outbox).2).Nodup ∧
    Effect (.claimMigrations workerId leaseSeconds limit) moment
      (MemoryOutbox.claimMigrations workerId leaseSeconds limit moment outbox).1 (get? outbox)
      (get? (MemoryOutbox.claimMigrations workerId leaseSeconds limit moment outbox).2) := by
  unfold MemoryOutbox.claimMigrations
  rcases hargs : validateClaimArgs workerId leaseSeconds limit with _ | _
  · exact memory_same hvalid (by simp)
  generalize hchosen : firstOf limit (·.claimable moment) outbox = chosen
  generalize hclaimed : (chosen.map fun e => (e.1, e.2.grant workerId (moment + leaseSeconds))) = claimed
  have hkeys : (keys claimed).Nodup := by
    rw [← hclaimed, ← hchosen]
    simpa [keys, Function.comp_def] using nodup_keys_firstOf hvalid
  have hfrom : ∀ p ∈ claimed, ∃ e, get? outbox p.1 = some e ∧ e.claimable moment = true ∧
      p.2 = e.grant workerId (moment + leaseSeconds) := by
    rintro p hp
    rw [← hclaimed] at hp
    obtain ⟨e, he, rfl⟩ := List.mem_map.1 hp
    rw [← hchosen] at he
    obtain ⟨hmem, hmay⟩ := mem_of_firstOf he
    exact ⟨e.2, get?_of_mem hvalid hmem, hmay, rfl⟩
  refine ⟨nodup_update _ hvalid, fun k => ?_, ?_⟩
  · rw [get?_update claimed hkeys]
    cases hk : get? claimed k with
    | none => exact .kept _
    | some e' =>
      obtain ⟨e, hold, hmay, he'⟩ := hfrom (k, e') (mem_of_get? hk)
      simp only at hold he'
      rw [hold, he']
      exact .claimed rfl hmay
  · intro rows hrows
    cases hrows
    refine ⟨workerId, leaseSeconds, limit, rfl, validateClaimArgs_pos hargs, fun p hp => ?_⟩
    obtain ⟨e, hold, hmay, he'⟩ := hfrom p hp
    refine ⟨e, hold, hmay, he', ?_⟩
    rw [get?_update claimed hkeys, get?_of_mem hkeys hp]
    rfl

theorem memory_prune {nonceCutoff migrationCutoff batchSize : Int} {apply : Bool} {cursorKey : String} :
    (keys (MemoryOutbox.prune nonceCutoff migrationCutoff batchSize apply outbox).2).Nodup ∧
    Effect (.prune nonceCutoff migrationCutoff batchSize apply cursorKey) moment
      (MemoryOutbox.prune nonceCutoff migrationCutoff batchSize apply outbox).1 (get? outbox)
      (get? (MemoryOutbox.prune nonceCutoff migrationCutoff batchSize apply outbox).2) := by
  unfold MemoryOutbox.prune
  rcases validatePruneArgs nonceCutoff migrationCutoff batchSize with _ | _
  · exact memory_same hvalid (by simp)
  cases apply
  · exact memory_same hvalid (by simp)
  refine ⟨hvalid.sublist (List.filter_sublist.map _), fun k => ?_, by simp⟩
  simp only [if_true]
  rw [get?_filter hvalid]
  cases hk : get? outbox k with
  | none => exact .kept _
  | some e =>
    by_cases he : Store.outboxEligible migrationCutoff e.row = true
    · simp only [filter_some, he, Bool.not_true, Bool.false_eq_true, if_false]
      exact .pruned rfl he
    · simp only [filter_some, he, Bool.not_false, if_true]
      exact .kept _

/-- Every call keeps the task ids unique, and does what such a call may do. -/
theorem memoryOutbox_call : (keys (MemoryOutbox.call env call moment outbox).2).Nodup ∧
    Effect call moment (MemoryOutbox.call env call moment outbox).1 (get? outbox)
      (get? (MemoryOutbox.call env call moment outbox).2) := by
  cases call with
  | claimMigrations => exact memory_claim hvalid
  | recordMigrationAttempt =>
    simp only [MemoryOutbox.call, MemoryOutbox.recordMigrationAttempt]
    split
    · exact memory_same hvalid (by simp)
    rename_i e he
    split
    · rename_i hall
      refine memory_set hvalid (by simp) he (.counted rfl ?_)
      rintro w rfl
      simpa using hall
    · exact memory_same hvalid (by simp)
  | releaseMigration =>
    simp only [MemoryOutbox.call, MemoryOutbox.releaseMigration]
    split
    · exact memory_same hvalid (by simp)
    rename_i e he
    split
    · rename_i hlive
      exact memory_set hvalid (by simp) he (.released rfl hlive rfl)
    · exact memory_same hvalid (by simp)
  | deadLetterMigration =>
    simp only [MemoryOutbox.call, MemoryOutbox.deadLetterMigration]
    split
    · exact memory_same hvalid (by simp)
    rename_i e he
    split
    · exact memory_same hvalid (by simp)
    rename_i hlive
    split
    · exact memory_same hvalid (by simp)
    · rename_i hpending
      exact memory_set hvalid (by simp) he (.buried rfl (by simpa using hlive) (not_not.1 hpending) rfl)
  | requeueMigration =>
    simp only [MemoryOutbox.call, MemoryOutbox.requeueMigration]
    split
    · exact memory_same hvalid (by simp)
    rename_i e he
    split
    · exact memory_same hvalid (by simp)
    · rename_i hdead
      exact memory_set hvalid (by simp) he (.requeued rfl (not_not.1 hdead))
  | markMigrationDelivered =>
    simp only [MemoryOutbox.call, MemoryOutbox.markMigrationDelivered]
    split
    · exact memory_same hvalid (by simp)
    · rename_i e he
      exact memory_set hvalid (by simp) he (.delivered rfl)
  | prune => exact memory_prune hvalid
  | enqueueMigration =>
    simp only [MemoryOutbox.call, MemoryOutbox.enqueueMigration]
    split
    · exact memory_same hvalid (by simp)
    split
    · split <;> exact memory_same hvalid (by simp)
    · rename_i hnone
      exact memory_set hvalid (by simp) hnone (.entered rfl)

end Memory

theorem memoryOutbox_lawful (env : Security.Env) : (memoryOutbox env).Lawful where
  valid_new := List.nodup_nil
  rows_new _ := rfl
  valid_call hvalid := (memoryOutbox_call hvalid).1
  effect hvalid := (memoryOutbox_call hvalid).2

/-! ## The SQLite store -/

namespace SQLiteOutbox

theorem rows_updateOne (taskId : String) (which : OutboxEntry → Bool) (set : OutboxEntry → OutboxEntry) (outbox : Rows)
    (k : String) : rows (updateOne taskId which set outbox).2 k =
      if k = taskId then (rows outbox k).map fun e => if which e then set e else e else rows outbox k := by
  have hset : ∀ r : String × OutboxEntry, (r.1, set r.2).1 = r.1 := fun _ => rfl
  unfold rows updateOne
  rw [rowOf_update hset]
  cases hrow : rowOf Prod.fst outbox k with
  | none => split <;> rfl
  | some r =>
    have hkey : r.1 = k := key_of_rowOf hrow
    by_cases hk : k = taskId
    · by_cases hw : which r.2 = true <;> simp [hkey, hk, hw]
    · simp [hkey, hk]

variable {outbox : Rows}

theorem unique_updateOne (taskId : String) (which : OutboxEntry → Bool) (set : OutboxEntry → OutboxEntry)
    (h : Table.Unique Prod.fst outbox) : Table.Unique Prod.fst (updateOne taskId which set outbox).2 := by
  have hset : ∀ r : String × OutboxEntry, (r.1, set r.2).1 = r.1 := fun _ => rfl
  exact unique_update hset h

theorem updateOne_count {which : OutboxEntry → Bool} {set : OutboxEntry → OutboxEntry}
    (h : Table.Unique Prod.fst outbox) :
    decide (0 < (updateOne taskId which set outbox).1) = (rows outbox taskId).any which := by
  have hcount : (updateOne taskId which set outbox).1 =
      if (rowOf Prod.fst outbox taskId).any fun r => which r.2 then 1 else 0 :=
    countP_key h taskId fun r => which r.2
  rw [hcount]
  unfold rows
  cases rowOf Prod.fst outbox taskId with
  | none => rfl
  | some r => by_cases hw : which r.2 = true <;> simp [hw]

theorem rows_grantAll (workerId : String) (expiry : Int) : ∀ (chosen : List (String × OutboxEntry)) (outbox : Rows)
    (k : String), rows (grantAll workerId expiry chosen outbox) k =
      if k ∈ chosen.map Prod.fst then (rows outbox k).map (·.grant workerId expiry) else rows outbox k
  | [], _, _ => rfl
  | c :: chosen, outbox, k => by
    have ih := rows_grantAll workerId expiry chosen
      (updateOne c.1 (fun _ => true) (·.grant workerId expiry) outbox).2 k
    unfold grantAll at ih ⊢
    rw [List.foldl_cons, ih, rows_updateOne]
    by_cases hc : k = c.1
    · subst hc
      simp only [if_true, List.map_cons, List.mem_cons, true_or]
      -- the row of a task that is chosen twice is granted twice, to the same worker
      split
      · cases rows outbox c.1 <;> rfl
      · rfl
    · simp only [hc, if_false, List.map_cons, List.mem_cons, false_or]

theorem unique_grantAll {expiry : Int} : ∀ (chosen : List (String × OutboxEntry)) {outbox : Rows},
    Table.Unique Prod.fst outbox → Table.Unique Prod.fst (grantAll workerId expiry chosen outbox)
  | [], _, h => h
  | c :: chosen, _, h => unique_grantAll chosen (unique_updateOne c.1 _ _ h)

theorem claimable_memory (h : claimable moment e = true) : e.claimable moment = true := by
  unfold claimable at h
  unfold OutboxEntry.claimable
  simp only [Bool.and_eq_true, Bool.or_eq_true] at h ⊢
  refine ⟨h.1, h.2.imp_right fun hlease => ?_⟩
  cases hl : e.row.leaseExpiresAt with
  | none => simp [hl] at hlease
  | some => simpa [hl] using hlease

theorem live_memory (h : isLiveHolder workerId moment e = true) : Store.isLiveHolder e.row workerId moment = true := by
  unfold isLiveHolder at h
  unfold Store.isLiveHolder
  simp only [Bool.and_eq_true] at h ⊢
  refine ⟨h.1, ?_⟩
  cases hl : e.row.leaseExpiresAt with
  | none => simp [hl] at h
  | some => simpa [hl] using h.2

section Calls

variable {call : OutboxCall} {outcome : OutboxOutcome} (hvalid : Table.Unique Prod.fst outbox)

include hvalid

theorem effect_same (h : ∀ claimed, outcome ≠ .ok (.claimed claimed)) :
    Table.Unique Prod.fst outbox ∧ Effect call moment outcome (rows outbox) (rows outbox) :=
  ⟨hvalid, .none h⟩

theorem effect_updateOne {which : OutboxEntry → Bool} {set : OutboxEntry → OutboxEntry}
    (h : ∀ claimed, outcome ≠ .ok (.claimed claimed)) (hone : ∀ e, rows outbox taskId = some e → which e = true →
    Change call moment outcome taskId (some e) (some (set e))) :
    Table.Unique Prod.fst (updateOne taskId which set outbox).2 ∧
      Effect call moment outcome (rows outbox) (rows (updateOne taskId which set outbox).2) := by
  refine ⟨unique_updateOne _ _ _ hvalid, .one taskId h ?_ ?_⟩
  · intro k hk
    rw [rows_updateOne, if_neg hk]
  · rw [rows_updateOne, if_pos rfl]
    cases hrow : rows outbox taskId with
    | none => exact .kept _
    | some e =>
      rw [map_some]
      split
      · rename_i hw
        exact hone e hrow hw
      · exact .kept _

theorem effect_claim : Table.Unique Prod.fst (claimMigrations workerId leaseSeconds limit moment outbox).2 ∧
    Effect (.claimMigrations workerId leaseSeconds limit) moment
      (claimMigrations workerId leaseSeconds limit moment outbox).1 (rows outbox)
      (rows (claimMigrations workerId leaseSeconds limit moment outbox).2) := by
  unfold claimMigrations
  rcases hargs : validateClaimArgs workerId leaseSeconds limit with _ | u
  · exact effect_same hvalid (by simp)
  simp only
  rcases bindInts [moment, limit] with _ | u
  · exact effect_same hvalid (by simp)
  generalize hchosen : firstOf limit (claimable moment) outbox = chosen
  rcases bindInts (if chosen.isEmpty then [] else [moment + leaseSeconds]) with _ | _
  · exact effect_same hvalid (by simp)
  simp only
  have hfrom : ∀ c ∈ chosen, rows outbox c.1 = some c.2 ∧ c.2.claimable moment = true := by
    intro c hc
    rw [← hchosen] at hc
    obtain ⟨hmem, hmay⟩ := mem_of_firstOf hc
    refine ⟨?_, claimable_memory hmay⟩
    rw [rows, rowOf_of_mem hvalid hmem]
    rfl
  refine ⟨unique_grantAll _ hvalid, fun k => ?_, ?_⟩
  · rw [rows_grantAll]
    split
    · rename_i hk
      obtain ⟨c, hc, rfl⟩ := List.mem_map.1 hk
      obtain ⟨hold, hmay⟩ := hfrom c hc
      rw [hold]
      exact .claimed rfl hmay
    · exact .kept _
  · intro answered hanswered
    cases hanswered
    refine ⟨workerId, leaseSeconds, limit, rfl, validateClaimArgs_pos hargs, fun p hp => ?_⟩
    obtain ⟨c, hc, rfl⟩ := List.mem_map.1 hp
    obtain ⟨hold, hmay⟩ := hfrom c hc
    refine ⟨c.2, hold, hmay, rfl, ?_⟩
    rw [rows_grantAll, if_pos (List.mem_map_of_mem hc), hold]
    rfl

theorem rows_filter (p : String × OutboxEntry → Bool) (k : String) :
    rows (outbox.filter p) k = (rows outbox k).filter fun e => p (k, e) := by
  have hget : ∀ t : Rows, rows t k = get? t k := by
    intro t
    induction t with
    | nil => rfl
    | cons r t ih =>
      obtain ⟨k₀, e₀⟩ := r
      rw [get?_cons, ← ih]
      by_cases hk : k = k₀
      · simp [rows, rowOf, fetchOne, hk]
      · have hk' : ¬ k₀ = k := fun h => hk h.symm
        simp [rows, rowOf, fetchOne, hk, hk']
  rw [hget, hget]
  exact get?_filter hvalid p k

theorem effect_prune {nonceCutoff migrationCutoff batchSize : Int} {apply : Bool} {cursorKey : String} :
    Table.Unique Prod.fst (prune nonceCutoff migrationCutoff batchSize apply cursorKey outbox).2 ∧
    Effect (.prune nonceCutoff migrationCutoff batchSize apply cursorKey) moment
      (prune nonceCutoff migrationCutoff batchSize apply cursorKey outbox).1 (rows outbox)
      (rows (prune nonceCutoff migrationCutoff batchSize apply cursorKey outbox).2) := by
  unfold prune
  rcases validatePruneArgs nonceCutoff migrationCutoff batchSize with _ | u
  · exact effect_same hvalid (by simp)
  rcases bindInts [migrationCutoff, batchSize] with _ | _
  · exact effect_same hvalid (by simp)
  cases apply
  · exact effect_same hvalid (by simp)
  refine ⟨hvalid.sublist (List.filter_sublist.map _), fun k => ?_, by simp⟩
  simp only [if_true]
  rw [rows_filter hvalid]
  cases hk : rows outbox k with
  | none => exact .kept _
  | some =>
    rw [filter_some]
    split
    · exact .kept _
    · rename_i hout
      exact .pruned rfl (by simp_all)

variable {destination : String} {sealedEnvelopeJson : Text}

omit hvalid in
/-- The conflict clause writes the destination that its guard has found there. -/
theorem setDestination_same (r : String × OutboxEntry) :
    (if sameEnvelope destination sealedEnvelopeJson r then setDestination destination r else r) = r := by
  split
  · rename_i hguard
    simp only [sameEnvelope, Bool.and_eq_true, decide_eq_true_eq] at hguard
    unfold setDestination
    rw [← hguard.2]
  · rfl

/-- An enqueue leaves a row that is there, and enters one that is not. -/
theorem upsert_spec {row : String × OutboxEntry} :
    Table.Unique Prod.fst (upsert (sameKey Prod.fst) (sameEnvelope destination sealedEnvelopeJson)
        (setDestination destination) outbox row).2 ∧
      ∀ k, rows (upsert (sameKey Prod.fst) (sameEnvelope destination sealedEnvelopeJson)
        (setDestination destination) outbox row).2 k = if k =
          row.1 then some ((rows outbox k).getD row.2) else rows outbox k := by
  cases hrow : rowOf Prod.fst outbox row.1 with
  | none =>
    rw [upsert_new hrow]
    refine ⟨unique_append hvalid hrow, fun k => ?_⟩
    simp only [rows, rowOf_append_new hrow]
    by_cases hk : k = row.1
    · simp [hk, hrow]
    · simp [hk]
  | some r =>
    have hset : ∀ r : String × OutboxEntry, (setDestination destination r).1 = r.1 := fun _ => rfl
    obtain ⟨-, hrows, hunique⟩ := upsert_old hset hvalid hrow
    refine ⟨hunique, fun k => ?_⟩
    rw [rows, hrows, setDestination_same]
    by_cases hk : k = row.1
    · simp [hk, rows, hrow]
    · simp [hk, rows]

theorem effect_enqueue {createdAt : Int} {cancelled : Bool} : Table.Unique Prod.fst
      (enqueueMigration env taskId destination sealedEnvelopeJson createdAt cancelled outbox).2 ∧
    Effect (.enqueueMigration taskId destination sealedEnvelopeJson createdAt cancelled) moment
      (enqueueMigration env taskId destination sealedEnvelopeJson createdAt cancelled outbox).1 (rows outbox)
      (rows (enqueueMigration env taskId destination sealedEnvelopeJson createdAt cancelled outbox).2) := by
  unfold enqueueMigration
  split
  · exact effect_same hvalid (by simp)
  cases bindInts [createdAt] with
  | error => exact effect_same hvalid (by simp)
  | ok =>
    dsimp only
    refine ⟨(upsert_spec hvalid).1, .one taskId (by split <;> simp) ?_ ?_⟩
    · intro k hk
      exact ((upsert_spec hvalid).2 k).trans (if_neg hk)
    · rw [(upsert_spec hvalid).2 taskId, if_pos rfl]
      cases rows outbox taskId with
      | none => exact .entered rfl
      | some => exact .kept _

theorem effect_call : Table.Unique Prod.fst (SQLiteOutbox.call env call moment outbox).2 ∧
    Effect call moment (SQLiteOutbox.call env call moment outbox).1 (rows outbox)
      (rows (SQLiteOutbox.call env call moment outbox).2) := by
  cases call with
  | claimMigrations => exact effect_claim hvalid
  | recordMigrationAttempt taskId workerId =>
    rcases workerId with _ | _
    · simp only [SQLiteOutbox.call, recordMigrationAttempt]
      exact effect_updateOne hvalid (by simp) fun e _ _ => .counted rfl (by simp)
    simp only [SQLiteOutbox.call, recordMigrationAttempt]
    split
    · exact effect_same hvalid (by simp)
    refine effect_updateOne hvalid (by simp) fun e _ hw => .counted rfl ?_
    rintro w' hw'
    cases hw'
    exact live_memory hw
  | releaseMigration =>
    simp only [SQLiteOutbox.call, releaseMigration]
    split
    · exact effect_same hvalid (by simp)
    · refine effect_updateOne hvalid (by simp) fun e he hw => .released rfl (live_memory hw) ?_
      rw [updateOne_count hvalid, he, any_some, hw]
  | deadLetterMigration =>
    simp only [SQLiteOutbox.call, deadLetterMigration]
    split
    · exact effect_same hvalid (by simp)
    dsimp only
    refine effect_updateOne hvalid (by simp) fun e he hw => ?_
    have hboth := hw
    simp only [Bool.and_eq_true, beq_iff_eq] at hboth
    refine .buried rfl (live_memory hboth.1) hboth.2 ?_
    rw [updateOne_count hvalid, he, any_some, hw]
  | requeueMigration =>
    simp only [SQLiteOutbox.call, requeueMigration]
    exact effect_updateOne hvalid (by simp) fun e _ hw => .requeued rfl (by simpa using hw)
  | markMigrationDelivered =>
    simp only [SQLiteOutbox.call, markMigrationDelivered]
    split
    · exact effect_same hvalid (by simp)
    · dsimp only
      exact effect_updateOne hvalid (by simp) fun e _ _ => .delivered rfl
  | prune => exact effect_prune hvalid
  | enqueueMigration => exact effect_enqueue hvalid

end Calls

end SQLiteOutbox

theorem sqliteOutbox_lawful (env : Security.Env) : (sqliteOutbox env).Lawful where
  valid_new := List.nodup_nil
  rows_new _ := rfl
  valid_call hvalid := (SQLiteOutbox.effect_call hvalid).1
  effect hvalid := (SQLiteOutbox.effect_call hvalid).2

end Portmark.Storage
