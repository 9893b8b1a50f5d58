/-
Code that leaves the record of a run as it is: it makes only calls that the record does not
follow, and of the agent's state it changes at most the status, the result, the memory and the
messages. Such code composes.
-/
import Portmark.Host.Trail

namespace Portmark.Host

open Lib Lib.Json Security Code

variable {host : AgentHost}

/-- The record allows each call of the code, and ends with it as `Q` says. -/
abbrev Walks (host : AgentHost) {σ α : Type} (c : Code Answer σ Fault α) (Q : Except Fault α → σ → Trail → Prop)
    (l : σ) (s : Trail) : Prop := Code.Meets (watcher host) c Q l s

/-! ## Calls -/

theorem meets_call {σ : Type} {op : Op} {Q : Except Fault (Result op) → σ → Trail → Prop} {l : σ} {s : Trail} :
    Walks host (call op) Q l s ↔
      s.allows host op ∧ ∀ answer, answersOf op answer → Q answer l (s.next op answer) :=
  meets_call_iff

def Unseen (host : AgentHost) (op : Op) : Prop :=
  ∀ s : Trail, s.allows host op ∧ ∀ answer, s.next op answer = s

def Op.unseen : Op → Bool
  | .now | .unexpired _ _ | .begin _ | .isTaskCancelled _ | .challenge | .preflight _ _ | .verifyEnvelope _
  | .verifyExecution _ | .produceChallengeEvidence _ | .verifyAuditHead _ _ => true
  | _ => false

theorem unseen_of {op : Op} (h : op.unseen = true) : Unseen host op := by
  intro s
  cases op <;> first | (refine ⟨trivial, fun answer => ?_⟩; cases answer <;> rfl) | cases h

theorem meets_unseen {σ : Type} {op : Op} {Q : Except Fault (Result op) → σ → Trail → Prop} {l : σ} {s : Trail}
    (h : op.unseen = true) (hQ : ∀ answer, Q answer l s) : Walks host (call op) Q l s := by
  obtain ⟨hallows, hnext⟩ := unseen_of h s
  exact meets_call.2 ⟨hallows, fun answer _ => by rw [hnext answer]; exact hQ answer⟩

theorem meets_unseen_bind {σ β : Type} {op : Op} {f : Result op → Code Answer σ Fault β}
    {Q : Except Fault β → σ → Trail → Prop} {l : σ} {s : Trail} (h : op.unseen = true)
    (hok : ∀ a, Walks host (f a) Q l s) (herror : ∀ error, Q (.error error) l s) :
    Walks host (call op >>= f) Q l s := by
  refine meets_bind.2 (meets_unseen h fun answer => ?_)
  cases answer with
  | ok a => exact hok a
  | error error => exact herror error

/-! ## Quiet code -/

structure Same (l l' : Local) : Prop where
  taskId : l'.state.taskId = l.state.taskId
  generation : l'.state.checkpointGeneration = l.state.checkpointGeneration
  step : l'.state.step = l.state.step
  toolCalls : l'.state.toolCalls = l.state.toolCalls
  authority : l'.authority = l.authority
  status : l.state.status ≠ .ready → l'.state.status ≠ .ready

theorem Same.refl (l : Local) : Same l l := ⟨rfl, rfl, rfl, rfl, rfl, id⟩

theorem Same.trans {l l' l'' : Local} (h : Same l l') (h' : Same l' l'') : Same l l'' :=
  ⟨h'.taskId.trans h.taskId, h'.generation.trans h.generation, h'.step.trans h.step, h'.toolCalls.trans h.toolCalls,
    h'.authority.trans h.authority, fun hl => h'.status (h.status hl)⟩

def Quiet {α : Type} (host : AgentHost) (c : Run α) : Prop :=
  ∀ l s, Walks host c (fun _ l' s' => s' = s ∧ Same l l') l s

section Rules

variable {α β : Type}

theorem quiet_pure (a : α) : Quiet host (pure a : Run α) := fun l _ => ⟨rfl, Same.refl l⟩

theorem quiet_throw (error : Fault) : Quiet host (throw error : Run α) := fun l _ => ⟨rfl, Same.refl l⟩

theorem quiet_get : Quiet host (get : Run Local) := fun l _ => ⟨rfl, Same.refl l⟩

theorem quiet_lift (x : Except Fault α) : Quiet host (Code.lift x : Run α) :=
  fun l _ => meets_lift.2 ⟨rfl, Same.refl l⟩

theorem quiet_call {op : Op} (h : op.unseen = true) : Quiet host (call op : Run (Result op)) := fun l _ =>
  meets_unseen h fun _ => ⟨rfl, Same.refl l⟩

theorem Quiet.bind {c : Run α} {f : α → Run β} (hc : Quiet host c) (hf : ∀ a, Quiet host (f a)) :
    Quiet host (c >>= f) := by
  intro l s
  refine (hc l s).bind (fun a l' s' h => ?_) fun _ _ _ h => h
  obtain ⟨rfl, hsame⟩ := h
  exact (hf a l' s').mono fun _ _ _ h => ⟨h.1, hsame.trans h.2⟩

theorem Quiet.ite {c d : Run α} {P : Prop} [Decidable P] (hc : Quiet host c) (hd : Quiet host d) :
    Quiet host (if P then c else d) := by
  split
  · exact hc
  · exact hd

end Rules

/-! ## The quiet parts of a run -/

theorem quiet_setState {change : AgentState → AgentState}
    (h : ∀ state, (change state).taskId = state.taskId ∧
      (change state).checkpointGeneration = state.checkpointGeneration ∧ (change state).step = state.step ∧
      (change state).toolCalls = state.toolCalls ∧ (state.status ≠ .ready → (change state).status ≠ .ready)) :
    Quiet host (setState change) := by
  intro l s
  obtain ⟨htask, hgeneration, hstep, hcalls, hstatus⟩ := h l.state
  exact ⟨rfl, htask, hgeneration, hstep, hcalls, rfl, hstatus⟩

theorem quiet_setFailed (message : String) : Quiet host (setFailed message) :=
  quiet_setState fun _ => ⟨rfl, rfl, rfl, rfl, fun _ => nofun⟩

theorem meets_record (event : String) (details : Dict) (l : Local) (s : Trail) : Walks host (host.record event details)
      (fun _ l' s' => s' = s ∧ l'.state = l.state ∧ l'.authority = l.authority) l s := by
  refine meets_bind.2 (meets_get.2 (meets_bind.2 (meets_lift.2 ?_)))
  cases host.appendEvent l.audit event details with
  | _ => exact ⟨rfl, rfl, rfl⟩

theorem quiet_record (event : String) (details : Dict) : Quiet host (host.record event details) := by
  intro l s
  refine (meets_record event details l s).mono fun _ l' s' h => ⟨h.1, ?_⟩
  obtain ⟨-, hstate, hauthority⟩ := h
  exact ⟨by rw [hstate], by rw [hstate], by rw [hstate], by rw [hstate], hauthority, by rw [hstate]; exact id⟩

theorem quiet_setMemory (key : String) (value : Value) : Quiet host (AgentHost.setMemory key value) := by
  refine quiet_get.bind fun l => ?_
  split
  · exact quiet_setState fun _ => ⟨rfl, rfl, rfl, rfl, id⟩
  · exact quiet_throw _

theorem quiet_approvalFailure (event reason : String) : Quiet host (host.approvalFailure event reason) :=
  (quiet_setFailed _).bind fun _ => (quiet_record _ _).bind fun _ => quiet_record _ _

theorem quiet_requestApproval (tool : String) (arguments : Value) :
    Quiet host (host.requestApproval tool arguments) := by
  refine quiet_get.bind fun l => Quiet.bind (quiet_setState ?_) fun _ => (quiet_lift _).bind fun hash =>
    Quiet.bind (quiet_setState ?_) fun _ => quiet_record _ _
  · exact fun _ => ⟨rfl, rfl, rfl, rfl, fun _ => nofun⟩
  · exact fun _ => ⟨rfl, rfl, rfl, rfl, id⟩

theorem quiet_failUnserializable (source : String) (tool : Option String) (isolationProfile : Option Value) :
    Quiet host (host.failUnserializable source tool isolationProfile) := by
  refine Quiet.bind (quiet_setState ?_) fun _ => (quiet_record _ _).bind fun _ => quiet_record _ _
  exact fun _ => ⟨rfl, rfl, rfl, rfl, fun _ => nofun⟩

theorem quiet_effectRefused (tool : String) (arguments : Value) (reason : String) :
    Quiet host (host.effectRefused tool arguments reason) :=
  (quiet_setFailed _).bind fun _ => (quiet_record _ _).bind fun _ => quiet_record _ _

theorem quiet_applyContent (source event key : String) {status : Status} (hstatus : status ≠ .ready) (content : Value) :
    Quiet host (host.applyContent source event key status content) := by
  unfold AgentHost.applyContent
  split
  · refine Quiet.bind (quiet_setState ?_) fun _ => (quiet_record _ _).bind fun _ => quiet_pure _
    exact fun _ => ⟨rfl, rfl, rfl, rfl, fun _ => hstatus⟩
  · exact (quiet_failUnserializable _ _ _).bind fun _ => quiet_pure _

theorem quiet_cancelledBeforeLaunch (tool : String) : Quiet host (host.cancelledBeforeLaunch tool) := by
  refine quiet_get.bind fun l => Quiet.ite ?_ ?_
  · exact quiet_call rfl
  · exact quiet_pure _

end Portmark.Host
