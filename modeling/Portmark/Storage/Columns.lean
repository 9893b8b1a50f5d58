/-
The two models of the SQL store's `save_checkpoint`: on columns that may hold anything, with the
encryption spelled out, and on typed columns with a codec that is given by what it seals and opens.
A row of typed columns is bound to the same data in both, and with a codec that seals and opens
alike a save succeeds in one just when it does in the other, and leaves the same rows.
-/
import Portmark.Storage.Sealed
import Portmark.Storage.Sqlite

namespace Portmark.Storage.Sealed

open Lib Lib.Json Audit Option
open SQLiteRuntimeStore (updatable checkSealed updateCheckpoint createdRecord updatedRecord createCheckpoint)

/-! ## Rows and saves -/

def column (o : Option String) : Cell := o.elim .null fun s => .text s.toList

def CheckpointRow.ofRecord (r : CheckpointRecord) : CheckpointRow :=
  ⟨r.taskId.toList, .text r.status.toList, .text r.checkpointJson, .int r.generation, .int r.closed,
    column r.owner.1, column r.owner.2, r.authorityCeiling.elim .null .text⟩

structure Save.Of (save : Save) (args : SaveArguments) : Prop where
  taskId : save.taskId = args.taskId.toList
  status : save.state.status = args.state.status
  expectedGeneration : save.expectedGeneration = args.expectedGeneration
  closed : save.closed = args.closed
  owner : save.owner = args.owner.map fun owner => (owner.1.toList, owner.2.toList)
  authorityCeiling : save.authorityCeiling = args.authorityCeiling

/-- Both succeed, with one generation and the same rows, or neither does. -/
def Alike (sealedSave : Except StoreError Int × World) (save : Outcome × SQLiteRuntimeStore) : Prop :=
  (∃ n, sealedSave.1 = .ok n ∧ save.1 = .ok (.generation n) ∧
    sealedSave.2.checkpoints.rows = save.2.checkpoints.map .ofRecord) ∨
  (∃ e, sealedSave.1 = .error e) ∧ ∃ e, save.1 = .error e

variable {save : Save} {args : SaveArguments}

/-! ## Columns and checks -/

theorem effectiveClosed_ofRecord (r : CheckpointRecord) :
    (CheckpointRow.ofRecord r).effectiveClosed = effectiveClosed (r.closed != 0) r.status := by
  have hstatus : ∀ s : String, (r.status.toList == s.toList) = (r.status == s) := by
    intro s
    rw [Bool.eq_iff_iff, beq_iff_eq, beq_iff_eq, String.toList_inj]
  rw [effectiveClosed, Bool.or_assoc, ← hstatus, ← hstatus]
  rfl

/-- A row is bound to the same data in both. -/
theorem rowBinding_ofRecord (r : CheckpointRecord) (taskId keyId : Text) (generation : Int) :
    .dict ((CheckpointRow.ofRecord r).associatedData taskId generation keyId).rowBinding =
      Data.ofValue (rowBinding (r.closed != 0) r.status r.owner r.authorityCeiling) := by
  have hcolumn : ∀ o, (column o).data = Data.ofValue (optionalString o) := by
    rintro (_ | s) <;> rfl
  have htext : ∀ t, (Cell.text t).data = .str (codes t) := fun _ => rfl
  unfold AssociatedData.rowBinding CheckpointRow.associatedData rowBinding
  rw [effectiveClosed_ofRecord]
  cases hceiling : r.authorityCeiling <;>
    simp [CheckpointRow.ofRecord, hceiling, hcolumn, htext, Data.ofValue, ofValueEntries, ofValueItems, key]

theorem eq_column {o o' : Option String} : (column o).eq (column o') = true ↔ o = o' := by
  rcases o with _ | s <;> rcases o' with _ | s' <;> simp [column, Cell.eq, String.toList_inj]

theorem Save.Of.ownerColumns (h : save.Of args) :
    save.ownerIssuer = column (ownerColumns args.owner).1 ∧ save.ownerSubject = column (ownerColumns args.owner).2 := by
  rw [Save.ownerIssuer, Save.ownerSubject, h.owner]
  cases args.owner <;> exact ⟨rfl, rfl⟩

theorem checkOwner_ofRecord (h : save.Of args) (r : CheckpointRecord) :
    checkOwner (.ofRecord r) save = Storage.checkOwner r.owner (ownerColumns args.owner) := by
  have hnull : Cell.null = column none := rfl
  unfold checkOwner Storage.checkOwner
  simp only [h.ownerColumns.1, h.ownerColumns.2, hnull, CheckpointRow.ofRecord, Bool.and_eq_true, eq_column,
    Prod.ext_iff]

theorem selects_ofRecord (h : save.Of args) (r : CheckpointRecord) :
    save.selects (.ofRecord r) = updatable args r := by
  simp [Save.selects, updatable, CheckpointRow.ofRecord, sqlEq, h.taskId, h.expectedGeneration,
    String.toList_inj, beq_eq_decide]

theorem rowOf_ofRecord (rows : Table CheckpointRecord) (taskId : String) :
    Table.rowOf CheckpointRow.taskId (rows.map .ofRecord) taskId.toList =
      (Table.rowOf CheckpointRecord.taskId rows taskId).map .ofRecord := by
  unfold Table.rowOf Table.fetchOne
  rw [List.find?_map]
  simp [Function.comp_def, CheckpointRow.ofRecord, String.toList_inj]

/-! ## One save -/

structure CheckpointCodec.Like (env : Env) (floatText : ℚ → Text) (codec : CheckpointCodec) (log : List Sealing)
    (save : Save) (args : SaveArguments) (other : Storage.CheckpointCodec) : Prop where
  opens : ∀ r : CheckpointRecord,
    (∃ state, decodeRow env log codec args.taskId.toList (.ofRecord r) = .ok state) ↔ Storage.openRow other r = .ok ()
  seals : ∀ generation owner ceiling, ∃ log', encodeCheckpoint env.depth codec save.bytes
    (save.sealedRow generation (column owner.1) (column owner.2) (ceiling.elim .null .text)) log =
      .ok (Storage.encodeCheckpoint floatText (some other) args.sealNonce args.taskId args.state generation args.closed
        owner ceiling, log')

variable {env : Env} {codec : CheckpointCodec} {floatText : ℚ → Text} {world : World} {store : SQLiteRuntimeStore}
  {other : Storage.CheckpointCodec}

/-- The checks of a later save, once the row has opened: the effective flag covers the column that is tested again. -/
theorem checkRow_opened (args : SaveArguments) {r : CheckpointRecord} (ho : Storage.openRow other r = .ok ()) :
    SQLiteRuntimeStore.checkRow (some other) args r =
      if effectiveClosed (r.closed != 0) r.status then .error (.security "task checkpoint is closed")
      else Storage.checkOwner r.owner (ownerColumns args.owner) := by
  unfold SQLiteRuntimeStore.checkRow
  simp only [checkSealed, ho]
  cases hclosed : effectiveClosed (r.closed != 0) r.status with
  | true => rfl
  | false =>
    have hzero : r.closed = 0 := by
      simp only [effectiveClosed, Bool.or_eq_false_iff, bne_eq_false_iff_eq] at hclosed
      exact hclosed.1.1
    exact if_neg (not_not.2 hzero)

section Saves

variable (h : save.Of args) (hlike : codec.Like env floatText world.log save args other)
  (hrows : world.checkpoints.rows = store.checkpoints.map .ofRecord)

include h hlike hrows

theorem create_ofRecord
    (hnone : Table.rowOf CheckpointRow.taskId world.checkpoints.rows save.taskId = none)
    (hnew : Table.rowOf CheckpointRecord.taskId store.checkpoints args.taskId = none) :
    Alike (create env codec save world hnone) (createCheckpoint floatText (some other) args store) := by
  unfold create SQLiteRuntimeStore.createCheckpoint
  rw [h.expectedGeneration]
  by_cases hexpected : args.expectedGeneration = 0
  on_goal 2 => rw [if_pos hexpected, if_pos hexpected]; exact .inr ⟨⟨_, rfl⟩, _, rfl⟩
  rw [if_neg (not_not.2 hexpected), if_neg (not_not.2 hexpected)]
  obtain ⟨log', hseal⟩ := hlike.seals 1 (ownerColumns args.owner) args.authorityCeiling
  have hceiling : save.ceiling = args.authorityCeiling.elim .null .text := by rw [Save.ceiling, h.authorityCeiling]
  rw [← h.ownerColumns.1, ← h.ownerColumns.2, ← hceiling] at hseal
  have hinserted : (store.checkpoints.any (Table.sameKey CheckpointRecord.taskId
      (createdRecord floatText (some other) args))) = false := by
    rw [Table.any_sameKey]
    exact Option.isSome_eq_false_iff.2 (Option.isNone_iff_eq_none.2 hnew)
  rw [hseal]
  refine .inl ⟨1, rfl, ?_, ?_⟩ <;> simp only [Table.insertOrNothing, hinserted]
  · rfl
  · simp [hrows, CheckpointRow.ofRecord, createdRecord, h.taskId, h.status, h.closed,
      hceiling, h.ownerColumns, closedColumn, SQLiteRuntimeStore.closedColumn]

theorem replace_ofRecord (r : CheckpointRecord)
    (hchecked : SQLiteRuntimeStore.checkRow (some other) args r = .ok ()) :
    Alike (replace env codec save (.ofRecord r) world)
      (updateCheckpoint floatText (some other) args r store) := by
  obtain ⟨log', hseal⟩ := hlike.seals (args.expectedGeneration + 1) r.owner r.authorityCeiling
  have hcount : world.checkpoints.rows.countP save.selects =
      store.checkpoints.countP (updatable args) := by
    rw [hrows, List.countP_map]
    exact List.countP_congr fun r _ => by rw [Function.comp_apply, selects_ofRecord h]
  unfold replace SQLiteRuntimeStore.updateCheckpoint
  rw [h.expectedGeneration, hchecked]
  simp only [CheckpointRow.ofRecord] at hseal ⊢
  rw [hseal]
  dsimp only
  by_cases hfits : (fitsInt64 (args.expectedGeneration + 1) && fitsInt64 args.expectedGeneration) = true
  on_goal 2 => simp [bindInts, hfits, Alike]
  have hbound : bindInts [args.expectedGeneration + 1, args.expectedGeneration] = .ok () := by
    simpa [bindInts] using hfits
  rw [hbound]
  dsimp only [Table.update]
  rw [hcount]
  by_cases hone : store.checkpoints.countP (updatable args) = 1
  on_goal 2 => simp [hfits, hone, Alike]
  simp only [hfits, hone, Alike]
  refine .inl ⟨_, rfl, rfl, ?_⟩
  simp only [hrows, List.map_map]
  refine List.map_congr_left fun r' _ => ?_
  simp only [Function.comp_apply, selects_ofRecord h]
  split
  · simp [CheckpointRow.ofRecord, Save.written, updatedRecord, h.expectedGeneration, h.status,
      h.closed, closedColumn, SQLiteRuntimeStore.closedColumn]
  · rfl

/-- A save under a keyring is the save of the typed columns with a codec that seals and opens alike. -/
theorem saveCheckpoint_ofRecord
    (hcancelled : world.cancellations.contains save.taskId = store.isTaskCancelled args.taskId) :
    Alike (saveCheckpoint env codec save world)
      (SQLiteRuntimeStore.saveCheckpoint floatText (some other) args store) := by
  have hrow := rowOf_ofRecord store.checkpoints args.taskId
  rw [← hrows, ← h.taskId] at hrow
  unfold saveCheckpoint SQLiteRuntimeStore.saveCheckpoint
  rw [h.closed, hcancelled]
  split
  · exact .inr ⟨⟨_, rfl⟩, _, rfl⟩
  cases hr : Table.rowOf CheckpointRecord.taskId store.checkpoints args.taskId with
  | none =>
    rw [hr] at hrow
    split
    · exact create_ofRecord h hlike hrows _ hr
    · rename_i hsome
      rw [hrow] at hsome
      cases hsome
  | some r =>
    rw [hr] at hrow
    split
    · rename_i hnone
      rw [hrow] at hnone
      cases hnone
    rename_i row hsome
    obtain rfl : CheckpointRow.ofRecord r = row := Option.some.inj (hrow.symm.trans hsome)
    rw [h.taskId]
    cases hd : decodeRow env world.log codec args.taskId.toList (.ofRecord r) with
    | error =>
      cases ho : Storage.openRow other r with
      | ok =>
        obtain ⟨_, hs⟩ := (hlike.opens r).2 ho
        rw [hd] at hs
        cases hs
      | error e =>
        exact .inr ⟨⟨_, rfl⟩, e, by simp only [updateCheckpoint, SQLiteRuntimeStore.checkRow, checkSealed, ho]⟩
    | ok state =>
      have ho := (hlike.opens r).1 ⟨state, hd⟩
      have hchecked := checkRow_opened args ho
      dsimp only
      rw [effectiveClosed_ofRecord, checkOwner_ofRecord h]
      split
      · rename_i hclosed
        rw [if_pos hclosed] at hchecked
        rw [updateCheckpoint, hchecked]
        exact .inr ⟨⟨_, rfl⟩, _, rfl⟩
      · rename_i hclosed
        rw [if_neg hclosed] at hchecked
        cases howner : Storage.checkOwner r.owner (ownerColumns args.owner) with
        | error =>
          rw [updateCheckpoint, hchecked, howner]
          exact .inr ⟨⟨_, rfl⟩, _, rfl⟩
        | ok => exact replace_ofRecord h hlike hrows r (hchecked.trans howner)

end Saves

end Portmark.Storage.Sealed
