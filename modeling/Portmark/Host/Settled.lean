/-
A settled row of the effect ledger stays as it is, as long as every run that settles an effect
finds its row `started`. `settle_effect` writes whatever state the row is in, so a run that decided
on a stale reading can overwrite what another run or a reconciliation settled meanwhile.
-/
import Portmark.Host.Ledger

namespace Portmark.Host

open Lib Lib.Json Security

def EffectRow.Final (row : EffectRow) : Prop := row.state = .confirmed ∨ row.state = .reconciled

/-- A process that is about to settle an effect finds its row `started`. -/
def settlesStarted (pool : HostPool) : HostEvent → Bool
  | .step pid _ =>
    match pool.procs[pid]? with
    | some ⟨_, .ask (.settleEffect effectId _ _ _) _, _, true⟩ =>
      (pool.world.store.effects effectId).all fun row => row.state == .started
    | _ => true
  | _ => true

theorem RowMove.final {effectId : String} {op : Op} {row : EffectRow} {row' : Option EffectRow}
    (h : RowMove effectId op (some row) row') (hfinal : row.Final) :
    row' = some row ∨ ∃ state resultJson reason, op = .settleEffect effectId state resultJson reason := by
  have hnot : ∀ state, state ≠ .confirmed → state ≠ .reconciled → row.state ≠ state := by
    intro state hconfirmed hreconciled hstate
    rcases hfinal with hf | hf
    · exact hconfirmed (hstate.symm.trans hf)
    · exact hreconciled (hstate.symm.trans hf)
  cases h with
  | kept => exact .inl rfl
  | marked hprepared => exact absurd hprepared (hnot _ (by decide) (by decide))
  | settled => exact .inr ⟨_, _, _, rfl⟩
  | claimed claimId lease hstate =>
    rcases hstate with hstate | hstate <;> exact absurd hstate (hnot _ (by decide) (by decide))
  | renewed claimId lease hstate | reconciled claimId state resultJson reason hstate
  | released claimId reason hstate => exact absurd hstate (hnot _ (by decide) (by decide))

theorem step_final {host : AgentHost} {effectId : String} {row : EffectRow} (hfinal : row.Final) (pool : HostPool)
    (event : HostEvent) (hcond : settlesStarted pool event = true)
    (hrow : pool.world.store.effects effectId = some row) :
    ((machine host).step pool event).world.store.effects effectId = some row := by
  obtain hsame | ⟨pid, hint, job, op, k, history, rfl, hp, hmove⟩ := step_rowMove host pool event effectId
  · rw [hsame, hrow]
  rw [hrow] at hmove
  obtain hkept | ⟨state, resultJson, reason, rfl⟩ := hmove.final hfinal
  · exact hkept
  · simp only [settlesStarted, hp, hrow, Option.all_some, beq_iff_eq] at hcond
    rcases hfinal with hf | hf <;> rw [hf] at hcond <;> cases hcond

/-- In every run in which no effect is settled but from `started`, a row that has become confirmed
or reconciled stays as it is: its state, its result and all else. -/
theorem effect_stays_settled (host : AgentHost) (store : Store) (before after : List HostEvent) (effectId : String)
    (row : EffectRow) (hcond : (machine host).Each (settlesStarted · ·) ⟨.start store, []⟩ (before ++ after))
    (hrow : (runHost host store before).world.store.effects effectId = some row)
    (hsettled : row.state = .confirmed ∨ row.state = .reconciled) :
    (runHost host store (before ++ after)).world.store.effects effectId = some row := by
  unfold runHost at hrow ⊢
  rw [Machine.run_append]
  exact (Machine.each_append.1 hcond).2.invariant (I := fun pool => pool.world.store.effects effectId = some row)
    (fun pool event hc h => step_final hsettled pool event hc h) hrow

/-! ## A small deployment -/

def payPolicy : HostPolicy :=
  { audience := "host", declared := [⟨"pay", [], some ["*"]⟩], budget := ⟨5, 2, 4096⟩, policyVersion := "v1",
    policyHash := "h1", toolImpacts := [], approvalAuthorities := [], approvalRequiredImpacts := [],
    migration := ⟨false, []⟩, implicitImpacts := [] }

def payHost : AgentHost where
  hostId := "host"
  env := { repr := id, lower := id, urlparse := fun _ => .error (.value ""), fullmatch := fun _ _ => .unmatched }
  order := .insertion
  floatText := fun _ => []
  sha256 := String.ofList
  blake2b := String.ofList
  keyId := "key"
  signAuditHead := fun _ _ _ _ => "signature"
  sealSignature := fun _ => "signature"
  signMigrationReceipt := fun _ _ => "signature"
  verifySignature := fun _ _ _ => true
  policy := payPolicy
  reloadPolicy := false
  tools := ⟨["pay"], ["pay"], [], ["pay"], some (.null, true)⟩
  providers := [("model", none)]
  hasMigrationAttester := false
  hasMigrationPreflight := false
  requireMigrationChallenge := false

def payEnvelope (generation : Int) : AgentEnvelope :=
  { manifest := ⟨"agent", "1", "model", ["pay"], "python:reference-agent-v1"⟩
    permit := ⟨"issuer", "agent", "host", 100, "n1", [⟨"pay", [], some ["*"]⟩], ⟨5, 2, 4096⟩, false, .null⟩
    state := ⟨"task", "pay", generation, 0, 0, .dict [], .list [], .running, .null⟩
    previousAuditHash := "", previousAuditSequence := 0, previousAuditHostId := "", previousAuditSignatureKeyId := ""
    previousAuditSignature := "", signatureKeyId := "key", signature := "signature" }

def payHint (token : String) : Hint :=
  { time := 10, decision := some ⟨some (.str "tool"), some (.str "pay"), some (.dict []), some .null, some .null⟩,
    value := .dict [], token }

def paySteps (pid calls : Nat) : List HostEvent :=
  List.replicate calls (.step pid (payHint (if pid = 0 then "first" else "second")))

/-- The first run has launched its tool; the second, a resume, has read the `started` row. -/
def staleReading : List HostEvent :=
  .start (.run 0 (payEnvelope 0)) :: paySteps 0 19 ++ .start (.run 1 (payEnvelope 1)) :: paySteps 1 15

def confirmed : List HostEvent := staleReading ++ paySteps 0 2

def payEffect : String := payHost.effectId "task" 0

/-- The confirmed row becomes unknown when the second run acts on what it had read. -/
theorem effect_unsettled :
    let pool := runHost payHost .empty confirmed
    (pool.world.store.effects payEffect).map (·.state) = some .confirmed ∧
    (((machine payHost).run pool (paySteps 1 1)).world.store.effects payEffect).map (·.state) = some .unknown := by
  decide +kernel

/-- The first run alone: it settles its effect from `started`, and the row stays. -/
def paid : List HostEvent := .start (.run 0 (payEnvelope 0)) :: paySteps 0 21

def paidRow : EffectRow := ⟨"task", "pay", .confirmed, ['{', '}'], some ['{', '}'], none, none, none⟩

def resumedLater : List HostEvent := .start (.run 1 (payEnvelope 1)) :: paySteps 1 17

theorem effect_stays_settled_resumed :
    (runHost payHost .empty paid).world.store.effects payEffect = some paidRow ∧
    (runHost payHost .empty (paid ++ resumedLater)).world.store.effects payEffect = some paidRow := by
  have hcond : (machine payHost).Each (settlesStarted · ·) ⟨.start .empty, []⟩ (paid ++ resumedLater) := by
    decide +kernel
  have hrow : (runHost payHost .empty paid).world.store.effects payEffect = some paidRow := by decide +kernel
  exact ⟨hrow, effect_stays_settled payHost .empty paid resumedLater payEffect paidRow hcond hrow (.inl rfl)⟩

end Portmark.Host
