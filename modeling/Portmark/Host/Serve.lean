/-
What a call does to the world, said once: which rows of the store it wrote (`Wrote`), and what it
did to the launch capabilities (`Fired`). The invariants of runs read a call through these.
-/
import Portmark.Host.Commit
import Portmark.Host.Trail

namespace Portmark.Host

open Lib Lib.Json Security Option

variable {host : AgentHost} {job : Job} {op : Op} {hint : Hint} {w w' : World}

/-! ## Calls that return -/

theorem serve_returned {a : Result op} (h : serve host job op hint w = some (.ok a, w')) :
    serveCall host job.process hint w op = some (.ok a, w') := by
  unfold serve at h
  split at h
  · exact h
  cases op
  case invoke permit tool arguments argumentsJson capability =>
    simp only [serveFault] at h
    split at h
    · cases h
    have h := congrArg Prod.fst (Option.some.inj h)
    unfold World.invoke at h
    split at h
    · split at h <;> cases h
    · cases h
  case disarm => cases h
  all_goals
    simp only [serveFault] at h
    split at h <;> cases h

variable {effectId : String}

/-! ## Writes to the store -/

inductive Wrote (host : AgentHost) (store : Store) : (op : Op) → Answer op → Store → Prop
  | nothing (op : Op) (answer : Answer op) : Wrote host store op answer store
  | receipt (taskId : String) (receipt : MigrationReceipt) :
      Wrote host store (.replaceMigrationReceipt taskId receipt) (.ok ()) (store.replaceMigrationReceipt taskId receipt)
  | redeemed {token : ApprovalToken} {permit : Permit} {taskId : String} (timeFloor : Int)
      (habsent : store.nonces (approvalNonce taskId token.approvalId) = none) :
      Wrote host store (.redeem token permit taskId) (.ok .redeemed)
        { store with
          nonces := Function.update store.nonces (approvalNonce taskId token.approvalId)
            (some ⟨permit.subject, permit.audience, taskId, some token.expiresAt⟩)
          timeFloor }
  | prepared (effectId taskId tool : String) (argumentsJson : Text) :
      Wrote host store (.recordEffectPrepared effectId taskId tool argumentsJson) (.ok ())
        (store.recordEffectPrepared effectId taskId tool argumentsJson)
  | started (effectId : String) :
      Wrote host store (.markEffectStarted effectId) (.ok ()) (store.markEffectStarted effectId)
  | settled (effectId : String) (state : EffectState) (resultJson : Option Text) (reason : Option String) :
      Wrote host store (.settleEffect effectId state resultJson reason) (.ok ())
        (store.settleEffect effectId state resultJson reason)
  | saved {sv : Save} {signedAt generation : Int} {store' : Store}
    (h : Saved host store sv signedAt generation store') : Wrote host store (.save sv) (.ok generation) store'
  | claimed (effectId claimId : String) (now : Int) :
      Wrote host store (.claimEffectForReconcile effectId claimId)
        (.ok (store.claimEffectForReconcile effectId claimId reconcileLeaseSeconds now).1)
        (store.claimEffectForReconcile effectId claimId reconcileLeaseSeconds now).2
  | renewed (effectId claimId : String) (now : Int) :
      Wrote host store (.renewEffectClaim effectId claimId)
        (.ok (store.renewEffectClaim effectId claimId reconcileLeaseSeconds now).1)
        (store.renewEffectClaim effectId claimId reconcileLeaseSeconds now).2
  | settledFromClaim (effectId claimId : String) (state : EffectState) (resultJson : Option Text)
      (reason : Option String) (now : Int) :
      Wrote host store (.settleEffectFromClaim effectId claimId state resultJson reason)
        (.ok (store.settleEffectFromClaim effectId claimId state resultJson reason now).1)
        (store.settleEffectFromClaim effectId claimId state resultJson reason now).2
  | released (effectId claimId : String) :
      Wrote host store (.releaseEffectClaim effectId claimId) (.ok (store.releaseEffectClaim effectId claimId).1)
        (store.releaseEffectClaim effectId claimId).2

theorem Wrote.error {store store' : Store} {op : Op} {error : Fault} (h : Wrote host store op (.error error) store') :
    store' = store := by
  cases h
  rfl

variable {argumentsJson : Text} {capability : Option String} {given : Except Fault Value} {process : Nat}
  {tool : String}

theorem invoke_store {answer : Except Fault Value}
    (h : w.invoke host process tool argumentsJson capability given = (answer, w')) : w'.store = w.store := by
  unfold World.invoke at h
  split at h
  · split at h <;>
      · cases h
        rfl
  · cases h
    rfl

variable {answer : Answer op}

theorem serveCall_wrote (h : serveCall host process hint w op = some (answer, w')) :
    Wrote host w.store op answer w'.store := by
  cases op
  case replaceMigrationReceipt =>
    cases h
    exact .receipt _ _
  case redeem token permit taskId =>
    have h := Option.some.inj h
    have hcases := Store.redeem_cases w.store (approvalNonce taskId token.approvalId)
      ⟨permit.subject, permit.audience, taskId, some token.expiresAt⟩ taskId hint.time
    unfold World.redeem at h
    revert h
    generalize w.store.redeem _ _ taskId hint.time = outcome at hcases
    intro h
    cases hcases with
    | refused | cancelled =>
      cases h
      exact .nothing _ _
    | redeemed timeFloor habsent =>
      cases h
      exact .redeemed timeFloor habsent
  case recordEffectPrepared =>
    cases h
    exact .prepared _ _ _ _
  case markEffectStarted =>
    cases h
    exact .started _
  case settleEffect =>
    cases h
    exact .settled _ _ _ _
  case save sv =>
    have h := Option.some.inj h
    cases hsave : w.store.save host sv hint.time with
    | error =>
      rw [hsave] at h
      cases h
      exact .nothing _ _
    | ok =>
      rw [hsave] at h
      cases h
      exact .saved (Store.save_ok hsave)
  case claimEffectForReconcile =>
    cases h
    exact .claimed _ _ _
  case renewEffectClaim =>
    cases h
    exact .renewed _ _ _
  case settleEffectFromClaim =>
    cases h
    exact .settledFromClaim _ _ _ _ _ _
  case releaseEffectClaim =>
    cases h
    exact .released _ _
  case loadPolicy | decide =>
    obtain ⟨_, -, h⟩ := map_eq_some_iff.1 h
    cases h
    exact .nothing _ _
  case arm =>
    simp only [serveCall, World.arm] at h
    split_ifs at h <;>
      · cases h
        exact .nothing _ _
  case invoke =>
    rw [invoke_store (Option.some.inj h)]
    exact .nothing _ _
  case runReconcile =>
    simp only [serveCall] at h
    split at h <;>
      · cases h
        exact .nothing _ _
  all_goals
    cases h
    exact .nothing _ _

theorem serve_wrote (h : serve host job op hint w = some (answer, w')) : Wrote host w.store op answer w'.store := by
  unfold serve at h
  split at h
  · exact serveCall_wrote h
  cases op
  case disarm => cases h
  case invoke =>
    simp only [serveFault] at h
    split at h
    · cases h
    · rw [invoke_store (Option.some.inj h)]
      exact .nothing _ _
  all_goals
    simp only [serveFault] at h
    split at h
    · cases h
    · cases h
      exact .nothing _ _

/-! ## Launches -/

def hands : (op : Op) → Answer op → Bool
  | .arm _ _ _, .ok _ => true
  | _, _ => false

inductive Fired (host : AgentHost) (process : Nat) (w : World) : (op : Op) → Answer op → World → Prop
  | nothing (op : Op) (answer : Answer op) {w' : World} (hhands : hands op answer = false) (harmed : w'.armed = w.armed)
    (hminted : w'.minted = w.minted) (hlaunches : w'.launches = w.launches) : Fired host process w op answer w'
  | armed {effectId tool token : String} {argumentsJson : Text} (hrow : w.startedRow effectId tool argumentsJson = true)
      (hfresh : ∀ armed ∈ w.minted, armed.capability ≠ token) :
      Fired host process w (.arm effectId tool argumentsJson) (.ok token)
        { w with
          armed := w.armed ++ [⟨process, token, effectId, tool, argumentsJson⟩]
          minted := w.minted ++ [⟨process, token, effectId, tool, argumentsJson⟩] }
  | disarmed (capability : String) :
      Fired host process w (.disarm capability) (.ok ()) (w.disarm process capability)
  | launched {permit : Permit} {tool : String} {arguments : Dict} {argumentsJson : Text} {token effectId : String}
      (answer : Except Fault Value) (hside : host.tools.isSideEffecting tool = true)
      (harmed : ⟨process, token, effectId, tool, argumentsJson⟩ ∈ w.armed) :
      Fired host process w (.invoke permit tool arguments argumentsJson (some token)) answer
        { w.disarm process token with launches := w.launches ++ [⟨some effectId, tool, argumentsJson⟩] }
  | plain {permit : Permit} {tool : String} {arguments : Dict} {argumentsJson : Text} {capability : Option String}
      (answer : Except Fault Value) :
      Fired host process w (.invoke permit tool arguments argumentsJson capability) answer
        { w with launches := w.launches ++ [⟨none, tool, argumentsJson⟩] }

variable {permit : Permit}

theorem invoke_fired {arguments : Dict} {answer : Except Fault Value}
    (h : w.invoke host process tool argumentsJson capability given = (answer, w')) :
    Fired host process w (.invoke permit tool arguments argumentsJson capability) answer w' := by
  unfold World.invoke at h
  split at h
  · rename_i hside
    split at h
    · cases h
      exact .nothing _ _ rfl rfl rfl rfl
    rename_i armed hfind
    have hmem := List.mem_of_find?_eq_some hfind
    have hmatch := List.find?_some hfind
    simp only [Bool.and_eq_true, beq_iff_eq] at hmatch
    obtain ⟨⟨⟨rfl, rfl⟩, rfl⟩, rfl⟩ := hmatch
    cases h
    exact .launched _ hside hmem
  · cases h
    exact .plain _

theorem arm_fired {token : String} {answer : Except Fault String}
    (h : w.arm host process effectId tool argumentsJson token = some (answer, w')) :
    Fired host process w (.arm effectId tool argumentsJson) answer w' := by
  unfold World.arm at h
  split_ifs at h with hrow hout hminted
  · cases h
    exact .nothing _ _ rfl rfl rfl rfl
  · cases h
    exact .nothing _ _ rfl rfl rfl rfl
  · cases h
    refine .armed (by simpa using hrow) fun armed ha htoken => hminted ?_
    exact List.any_eq_true.2 ⟨armed, ha, by simpa using htoken⟩

theorem commit_fired {α : Type} (hhands : hands op answer = false) (outcome : Except Fault (α × Store))
    (h : (w.commit outcome).2 = w') : Fired host process w op answer w' := by
  subst h
  cases outcome with
  | _ => exact .nothing _ _ hhands rfl rfl rfl

theorem serveCall_fired (h : serveCall host process hint w op = some (answer, w')) :
    Fired host process w op answer w' := by
  cases op
  case arm => exact arm_fired h
  case invoke => exact invoke_fired (Option.some.inj h)
  case disarm =>
    cases h
    exact .disarmed _
  case loadPolicy | decide =>
    obtain ⟨_, -, h⟩ := map_eq_some_iff.1 h
    cases h
    exact .nothing _ _ rfl rfl rfl rfl
  case redeem | save => exact commit_fired rfl _ (congrArg Prod.snd (Option.some.inj h))
  case runReconcile =>
    simp only [serveCall] at h
    split at h <;>
      · cases h
        exact .nothing _ _ rfl rfl rfl rfl
  all_goals
    cases h
    exact .nothing _ _ rfl rfl rfl rfl

theorem serve_fired (h : serve host job op hint w = some (answer, w')) : Fired host job.process w op answer w' := by
  unfold serve at h
  split at h
  · exact serveCall_fired h
  cases op
  case disarm => cases h
  case invoke =>
    simp only [serveFault] at h
    split at h
    · cases h
    · exact invoke_fired (Option.some.inj h)
  all_goals
    simp only [serveFault] at h
    split at h
    · cases h
    · cases h
      exact .nothing _ _ rfl rfl rfl rfl

/-! ## What is not answered -/

theorem requireUnexpired_error {boundary : String} {now : Int} :
    requireUnexpired permit boundary now ≠ .error .taskCancelled := by
  unfold requireUnexpired
  split <;> exact fun hc => by cases hc

theorem redeem_error {token : ApprovalToken} {taskId : String} {now : Int} {answer : Except Fault Store.Redemption}
    (h : w.redeem token permit taskId now = (answer, w')) : answer ≠ .error .taskCancelled := by
  have hcases := Store.redeem_cases w.store (approvalNonce taskId token.approvalId)
    ⟨permit.subject, permit.audience, taskId, some token.expiresAt⟩ taskId now
  unfold World.redeem at h
  revert h
  generalize w.store.redeem _ _ taskId now = outcome at hcases
  intro h
  cases hcases <;>
    · cases h
      exact fun hc => by cases hc

theorem arm_error {token : String} {answer : Except Fault String}
    (h : w.arm host process effectId tool argumentsJson token = some (answer, w')) :
    answer ≠ .error .taskCancelled := by
  unfold World.arm at h
  split_ifs at h <;>
    · cases h
      exact fun hc => by cases hc

theorem invoke_error {answer : Except Fault Value} (hgiven : given ≠ .error .taskCancelled)
    (h : w.invoke host process tool argumentsJson capability given = (answer, w')) :
    answer ≠ .error .taskCancelled := by
  unfold World.invoke at h
  split at h
  · split at h
    · cases h
      exact fun hc => by cases hc
    · cases h
      exact hgiven
  · cases h
    exact hgiven

theorem serveCall_answers (h : serveCall host process hint w op = some (answer, w')) : answersOf op answer := by
  cases op
  case save => exact trivial
  case disarm =>
    cases h
    rfl
  case loadPolicy =>
    obtain ⟨policy, -, h⟩ := map_eq_some_iff.1 h
    cases h
    exact fun hc => by cases hc
  case decide =>
    obtain ⟨decision, -, h⟩ := map_eq_some_iff.1 h
    cases h
    exact fun hc => by cases hc
  case unexpired =>
    cases h
    exact requireUnexpired_error
  case redeem => exact redeem_error (Option.some.inj h)
  case arm => exact arm_error h
  case invoke => exact invoke_error (fun hc => by cases hc) (Option.some.inj h)
  case runReconcile =>
    simp only [serveCall] at h
    split at h <;>
      · cases h
        exact fun hc => by cases hc
  all_goals
    cases h
    exact fun hc => by cases hc

/-- Only a save reports a cancellation, and a capability is always given back. -/
theorem serve_answers (h : serve host job op hint w = some (answer, w')) : answersOf op answer := by
  unfold serve at h
  split at h
  · exact serveCall_answers h
  rename_i fault hfault
  have hraise : ∀ {α : Type}, fault ≠ .taskCancelled → (.error fault : Except Fault α) ≠ .error .taskCancelled :=
    fun hne hc => hne (by injection hc)
  cases op
  case save => exact trivial
  case disarm => cases h
  case invoke =>
    simp only [serveFault] at h
    split at h
    · cases h
    · exact invoke_error (hraise ‹_›) (Option.some.inj h)
  all_goals
    simp only [serveFault] at h
    split at h
    · cases h
    · cases h
      exact hraise ‹_›

end Portmark.Host
