/-
The effect ledger under interleaved runs and reconciliations: what any call can do to one row.
The first record of a row fixes its tool and its arguments; only a run marks or settles it, and a
reconciliation touches only a row that is unknown or that it has claimed.
-/
import Portmark.Host.Serve

namespace Portmark.Host

open Lib Lib.Json Security

inductive RowMove (effectId : String) : Op → Option EffectRow → Option EffectRow → Prop
  | kept (op : Op) (row : Option EffectRow) : RowMove effectId op row row
  | recorded (taskId tool : String) (argumentsJson : Text) :
      RowMove effectId (.recordEffectPrepared effectId taskId tool argumentsJson) none
        (some ⟨taskId, tool, .prepared, argumentsJson, none, none, none, none⟩)
  | marked {row : EffectRow} (hprepared : row.state = .prepared) :
      RowMove effectId (.markEffectStarted effectId) (some row) (some { row with state := .started })
  | settled (row : EffectRow) (state : EffectState) (resultJson : Option Text) (reason : Option String) :
      RowMove effectId (.settleEffect effectId state resultJson reason) (some row)
        (some { row with state, resultJson, reason })
  | claimed {row : EffectRow} (claimId : String) (lease : Int)
    (hstate : row.state = .unknown ∨ row.state = .reconciling) :
      RowMove effectId (.claimEffectForReconcile effectId claimId) (some row)
        (some { row with state := .reconciling, claimId := some claimId, leaseExpiresAt := some lease })
  | renewed {row : EffectRow} (claimId : String) (lease : Int) (hstate : row.state = .reconciling) :
      RowMove effectId (.renewEffectClaim effectId claimId) (some row) (some { row with leaseExpiresAt := some lease })
  | reconciled {row : EffectRow} (claimId : String) (state : EffectState) (resultJson : Option Text)
      (reason : Option String) (hstate : row.state = .reconciling) :
      RowMove effectId (.settleEffectFromClaim effectId claimId state resultJson reason) (some row)
        (some { row with state, resultJson, reason, claimId := none, leaseExpiresAt := none })
  | released {row : EffectRow} (claimId : String) (reason : Option String) (hstate : row.state = .reconciling) :
      RowMove effectId (.releaseEffectClaim effectId claimId) (some row)
        (some { row with state := .unknown, resultJson := none, reason, claimId := none, leaseExpiresAt := none })

section Moves

variable {host : AgentHost} {store store' : Store} {op : Op} {answer : Answer op}

theorem setEffect_effects (store : Store) (effectId id : String) (row : EffectRow) :
    (store.setEffect id row).effects effectId = if effectId = id then some row else store.effects effectId :=
  Function.update_apply _ _ _ _

theorem rowMove_setEffect {effectId id : String} {before : Option EffectRow} {row : EffectRow}
    (hrow : store.effects id = before) (h : RowMove id op before (some row)) :
    RowMove effectId op (store.effects effectId) ((store.setEffect id row).effects effectId) := by
  rw [setEffect_effects]
  split
  · rename_i hid
    rwa [hid, hrow]
  · exact .kept _ _

theorem ownedBy_reconciling {row : EffectRow} {claimId : String} (h : Store.ownedBy row claimId = true) :
    row.state = .reconciling := by
  unfold Store.ownedBy at h
  simp only [Bool.and_eq_true, beq_iff_eq] at h
  exact h.1

/-- What a call wrote, seen from one row of the ledger. -/
theorem Wrote.rowMove (h : Wrote host store op answer store') (effectId : String) :
    RowMove effectId op (store.effects effectId) (store'.effects effectId) := by
  cases h with
  | nothing | receipt | redeemed => exact .kept _ _
  | saved h =>
    rw [h.effects]
    exact .kept _ _
  | prepared id =>
    unfold Store.recordEffectPrepared
    cases hrow : store.effects id with
    | some => exact .kept _ _
    | none =>
      exact rowMove_setEffect hrow (.recorded _ _ _)
  | started id =>
    unfold Store.markEffectStarted
    cases hrow : store.effects id with
    | none => exact .kept _ _
    | some =>
      dsimp only
      split
      · exact rowMove_setEffect hrow (.marked ‹_›)
      · exact .kept _ _
  | settled id =>
    unfold Store.settleEffect
    cases hrow : store.effects id with
    | none => exact .kept _ _
    | some =>
      exact rowMove_setEffect hrow (.settled _ _ _ _)
  | claimed id =>
    unfold Store.claimEffectForReconcile
    cases hrow : store.effects id with
    | none => exact .kept _ _
    | some =>
      dsimp only
      split
      · rename_i hclaim
        exact rowMove_setEffect hrow (.claimed _ _ (hclaim.imp (fun h => h) And.left))
      · exact .kept _ _
  | renewed id =>
    unfold Store.renewEffectClaim
    cases hrow : store.effects id with
    | none => exact .kept _ _
    | some =>
      dsimp only
      split
      · rename_i howned
        exact rowMove_setEffect hrow (.renewed _ _ (ownedBy_reconciling howned))
      · exact .kept _ _
  | settledFromClaim id =>
    unfold Store.settleEffectFromClaim
    cases hrow : store.effects id with
    | none => exact .kept _ _
    | some =>
      dsimp only
      split
      · rename_i howned
        exact rowMove_setEffect hrow (.reconciled _ _ _ _ (ownedBy_reconciling (Bool.and_eq_true_iff.1 howned).1))
      · exact .kept _ _
  | released id =>
    unfold Store.releaseEffectClaim
    cases hrow : store.effects id with
    | none => exact .kept _ _
    | some =>
      dsimp only
      split
      · rename_i howned
        exact rowMove_setEffect hrow (.released _ _ (ownedBy_reconciling howned))
      · exact .kept _ _

theorem act_effects (a : Act) (w : World) : (act a w).store.effects = w.store.effects := by
  have hchange : ∀ (taskId : String) (change : OutboxRow → Option OutboxRow),
      (w.store.changeOutbox taskId change).effects = w.store.effects := by
    intro taskId change
    unfold Store.changeOutbox
    split <;> rfl
  cases a with
  | cancelTask => rfl
  | prune => rfl
  | restart => rfl
  | _ => exact hchange _ _

end Moves

/-! ## The pool -/

/-- One event, seen from one row of the ledger: nothing happens to it, or a process makes a call. -/
theorem step_rowMove (host : AgentHost) (pool : HostPool) (event : HostEvent) (effectId : String) :
    ((machine host).step pool event).world.store.effects effectId = pool.world.store.effects effectId ∨
    ∃ pid hint job op k history, event = .step pid hint ∧ pool.procs[pid]? = some ⟨job, .ask op k, history, true⟩ ∧
      RowMove effectId op (pool.world.store.effects effectId)
        (((machine host).step pool event).world.store.effects effectId) := by
  have hmoves := (machine host).step_moves pool event
  generalize (machine host).step pool event = pool' at hmoves
  cases hmoves with
  | idle | started | crashed => exact .inl rfl
  | acted a => exact .inl (by rw [← act_effects a pool.world]; rfl)
  | served hp hs => exact .inr ⟨_, _, _, _, _, _, rfl, hp, (serve_wrote hs).rowMove effectId⟩

end Portmark.Host
