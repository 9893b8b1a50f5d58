/-
The walk through a run, second part: the policy of a step and the approval gate. A re-check ends
with the authority of the policy in force; a pass of the gate leaves a redeemed approval of the
very call in the record.
-/
import Portmark.Host.Walk.Save

namespace Portmark.Host

open Lib Lib.Json Security Code

variable {host : AgentHost} {e : AgentEnvelope} {v : Visit} {l l' : Local} {s s' : Trail}

/-! ## The policy of a step -/

def Trail.loads (s : Trail) (fresh : HostPolicy) : Trail :=
  { s with policies := s.policies ++ [fresh], policy := some (Trail.adopt s.policy fresh), redeemed := none }

theorem steady_loads (s : Trail) (fresh : HostPolicy) : Steady s (s.loads fresh) :=
  ⟨rfl, rfl, rfl, rfl, rfl, rfl, rfl, List.subset_append_left _ _⟩

theorem meets_activePolicy {σ : Type} {l : σ} (hreload : host.reloadPolicy = true) :
    Walks host (host.activePolicy : Code Answer σ Fault HostPolicy)
      (fun r l' s' => l' = l ∧ match r with
        | .ok fresh => s' = s.loads fresh
        | .error _ => s' = s ∨ ∃ fresh, s' = s.loads fresh) l s := by
  unfold AgentHost.activePolicy
  rw [if_pos hreload]
  refine meets_bind.2 (meets_call.2 ⟨trivial, fun answer _ => ?_⟩)
  cases answer with
  | error => exact ⟨rfl, .inl rfl⟩
  | ok fresh =>
    dsimp only
    split
    · exact ⟨rfl, .inr ⟨fresh, rfl⟩⟩
    · exact ⟨rfl, rfl⟩

theorem Below.over {env : Env} {a b : Permit} {ceiling : AuthorityCeiling} (h : Below env a b)
    (hb : Below env b (ceiling.over b)) : Below env a (ceiling.over a) := by
  obtain ⟨haccepts, hreleases, hbudget, hexpires⟩ := h.trans hb
  exact ⟨haccepts, hreleases, hbudget, hexpires⟩

variable {fresh : HostPolicy}

theorem Capped.narrowed {effective given narrowed : Permit} {now : Int}
    (h : Capped host s e effective) (hv : Visiting e v s) (hs : Steady s s') (hfresh : fresh ∈ s'.policies)
    (hgiven : fresh.effectivePermit host.order v.envelope.manifest v.envelope.permit now = .ok given)
    (hnarrow : narrowPermit host.order effective given = .ok narrowed) : Capped host s' e narrowed := by
  obtain ⟨allowed, hpermit⟩ := hv.permit
  have hdown : SoundInputs host s' e → Settled host.env narrowed.grants ∧ Below host.env narrowed effective := by
    intro hsound
    have hgrants : ∀ g ∈ v.envelope.permit.grants, WellFormed host.env g := by
      rw [hpermit]
      exact hsound.permit
    have hsettled := effectivePermit_settled hgrants (hsound.policies fresh hfresh) hgiven
    obtain ⟨hn, hbelow, -⟩ := narrowPermit_below hnarrow (h.settled (hsound.steady hs)) hsettled
    exact ⟨hn, hbelow⟩
  refine ⟨fun hsound => (hdown hsound).1, (h.steady hs).component, fun hsound text ceiling htext hread => ?_⟩
  exact (hdown hsound).2.over ((h.steady hs).below hsound text ceiling htext hread)

theorem adopt_current {policy : ActivePolicy} (h : policy.isCurrent fresh = true) :
    Trail.adopt (some policy) fresh = policy := by
  unfold Trail.adopt
  dsimp only
  rw [if_pos h]

theorem adopt_fresh {policy : ActivePolicy} (h : ¬ policy.isCurrent fresh = true) :
    Trail.adopt (some policy) fresh = .reloaded policy fresh := by
  unfold Trail.adopt
  dsimp only
  rw [if_neg h]

/-- A re-check ends with the authority of the policy in force. -/
theorem meets_recheckReloadedPolicy {authority : Authority} (hv : Visiting e v s)
    (hpolicy : s.policy = some authority.policy) (hcapped : Capped host s e authority.effective) :
    Walks host (host.recheckReloadedPolicy v authority)
      (fun r l' s' => Same l l' ∧ Steady s s' ∧ ∀ authority', r = .ok authority' →
        s'.policy = some authority'.policy ∧ Capped host s' e authority'.effective) l s := by
  unfold AgentHost.recheckReloadedPolicy
  split
  · rename_i hreload
    refine (meets_activePolicy hreload).bind ?_ ?_
    · rintro fresh _ _ ⟨rfl, rfl⟩
      have hsteady := steady_loads s fresh
      split
      · rename_i hcurrent
        refine ⟨Same.refl _, hsteady, ?_⟩
        rintro _ ⟨⟩
        refine ⟨?_, hcapped.steady hsteady⟩
        rw [Trail.loads, hpolicy, adopt_current hcurrent]
      · rename_i hcurrent
        refine meets_unseen_bind rfl (fun now => ?_) fun _ => ⟨Same.refl _, hsteady, fun _ h => by cases h⟩
        refine meets_lift_bind (fun narrowed hnarrowed => ?_) fun _ => ⟨Same.refl _, hsteady, fun _ h => by cases h⟩
        unfold Authority.narrowed at hnarrowed
        rw [if_neg hcurrent] at hnarrowed
        obtain ⟨given, hgiven, hnarrowed⟩ := bind_ok_iff.1 hnarrowed
        obtain ⟨permit, hpermit, hnarrowed⟩ := bind_ok_iff.1 hnarrowed
        cases hnarrowed
        have hcapped' : Capped host (s.loads fresh) e permit :=
          hcapped.narrowed hv hsteady (List.mem_append_right _ (List.mem_singleton_self _)) hgiven hpermit
        refine (quiet_record _ _ _ _).bind ?_ ?_
        · rintro _ l' _ ⟨rfl, hsame⟩
          refine meets_get_bind (meets_lift_bind (fun _ _ => ?_) fun _ => ⟨hsame, hsteady, fun _ h => by cases h⟩)
          refine ⟨hsame, hsteady, ?_⟩
          rintro _ ⟨⟩
          refine ⟨?_, hcapped'⟩
          rw [Trail.loads, hpolicy, adopt_fresh hcurrent]
        · rintro _ l' _ ⟨rfl, hsame⟩
          exact ⟨hsame, hsteady, fun _ h => by cases h⟩
    · rintro _ _ _ ⟨rfl, rfl | ⟨fresh, rfl⟩⟩
      · exact ⟨Same.refl _, Steady.refl _, fun _ h => by cases h⟩
      · exact ⟨Same.refl _, steady_loads s fresh, fun _ h => by cases h⟩
  · refine ⟨Same.refl _, Steady.refl _, ?_⟩
    rintro _ ⟨⟩
    exact ⟨hpolicy, hcapped⟩

def Goes {α : Type} (host : AgentHost) (e : AgentEnvelope) (v : Visit) : Except Fault α → Local → Trail → Prop
  | .ok _, l, s => Active host e v l s
  | .error _, l, s => Open host e v l s

theorem meets_recheckStep (h : Active host e v l s) : Walks host (host.recheckStep v) (Goes host e v) l s := by
  refine (meets_recheckReloadedPolicy h.toVisiting h.policy h.capped).bind ?_ ?_
  · rintro authority l' s' ⟨hsame, hsteady, hauthority⟩
    obtain ⟨hpolicy, hcapped⟩ := hauthority authority rfl
    have hsave := h.toCanSave.steady hsame.near hsteady
    exact { toVisiting := hsave.toVisiting, task := hsave.task, generation := hsave.generation, capped := hcapped,
            policy := hpolicy, saved := hsteady.saved.trans h.saved, stays := hsame.status h.stays }
  · rintro error l' s' ⟨hsame, hsteady, -⟩
    exact h.open_.steady hsame hsteady

/-! ## The approval gate -/

def Trail.redeems (s : Trail) (token : ApprovalToken) : Trail := { s with redeemed := some token }

structure Gated (l l' : Local) (s s' : Trail) : Prop where
  same : Same l l'
  record : s' = s ∨ ∃ token, s' = s.redeems token

theorem Gated.refl (l : Local) (s : Trail) : Gated l l s s := ⟨Same.refl l, .inl rfl⟩

theorem Gated.steady (h : Gated l l' s s') : Steady s s' := by
  obtain rfl | ⟨token, rfl⟩ := h.record
  · exact Steady.refl _
  · exact ⟨rfl, rfl, rfl, rfl, rfl, rfl, rfl, List.Subset.refl _⟩

theorem Gated.policy (h : Gated l l' s s') : s'.policy = s.policy := by
  obtain rfl | ⟨token, rfl⟩ := h.record <;> rfl

theorem Gated.active (hg : Gated l l' s s') (h : Active host e v l s) : Active host e v l' s' :=
  h.steady hg.same.going hg.steady hg.policy

theorem Quiet.gated {α β : Type} {c : Run α} {f : α → Run β} {P : Except Fault β → Local → Trail → Prop}
    (hc : Quiet host c)
    (hok : ∀ a l', Same l l' → Walks host (f a) (fun r l'' s' => Gated l l'' s s' ∧ P r l'' s') l' s)
    (herror : ∀ error l', P (.error error) l' s) :
    Walks host (c >>= f) (fun r l'' s' => Gated l l'' s s' ∧ P r l'' s') l s := by
  refine (hc l s).bind ?_ ?_
  · rintro a l' _ ⟨rfl, hsame⟩
    exact hok a l' hsame
  · rintro error l' _ ⟨rfl, hsame⟩
    exact ⟨⟨hsame, .inl rfl⟩, herror error l'⟩

def Passed (P : Local → Trail → Prop) (r : Except Fault Bool) (l : Local) (s : Trail) : Prop := r = .ok true → P l s

theorem Quiet.gated_false {c : Run Unit} {P : Local → Trail → Prop} (hc : Quiet host c) :
    Walks host (do c; return false) (fun r l' s' => Gated l l' s s' ∧ Passed P r l' s') l s := by
  refine hc.gated (fun _ l' hsame => ?_) fun _ _ h => by cases h
  exact ⟨⟨hsame, .inl rfl⟩, fun h => by cases h⟩

def Trail.redeemedBy (s : Trail) (token : ApprovalToken) : Except Fault (Option Store.Redemption) → Trail
  | .ok (some .redeemed) => s.redeems token
  | _ => s

theorem meets_redeemToken (h : Active host e v l s) (token : ApprovalToken) (tool : String) (used : List String) :
    Walks host (host.redeemToken token tool used)
      (fun r l' s' => Gated l l' s s' ∧ Passed (fun _ s' => s'.redeemed = some token) r l' s') l s := by
  have hraise : ∀ error : Fault, Gated l l s s ∧ Passed (fun _ s' => s'.redeemed = some token) (.error error) l s :=
    fun _ => ⟨Gated.refl l s, fun h => by cases h⟩
  refine meets_get_bind (meets_unseen_bind rfl (fun _ => ?_) hraise)
  refine meets_unseen_bind rfl (fun _ => ?_) hraise
  have hredeem : Walks host
      (exceptSecurity (some <$> call (.redeem token l.authority.effective l.state.taskId)) fun _ => pure none)
      (fun r l' s' => l' = l ∧ s' = s.redeemedBy token r) l s := by
    refine Code.Meets.tryCatch (R := fun r l' s' => l' = l ∧ s' = s.redeemedBy token r) ?_ (fun _ _ _ h => h) ?_
    · refine meets_bind.2 (meets_call.2 ⟨⟨e, h.envelope, h.task, h.working⟩, fun answer _ => ?_⟩)
      rcases answer with error | redemption
      · exact ⟨rfl, rfl⟩
      · cases redemption <;> exact ⟨rfl, rfl⟩
    · rintro error _ _ ⟨rfl, rfl⟩
      split <;> exact ⟨rfl, rfl⟩
  refine hredeem.bind ?_ ?_
  · rintro redemption _ s' ⟨rfl, hs'⟩
    rcases redemption with _ | redemption
    · cases hs'
      exact (quiet_approvalFailure _ _).gated_false
    cases redemption with
    | cancelled =>
      cases hs'
      exact (quiet_approvalFailure _ _).gated_false
    | redeemed =>
      cases hs'
      have hquiet : Quiet host (do
          host.record "approval.approved" [("approval_id", .str token.approvalId), ("tool", .str tool),
            ("approved_by", .str token.approvedBy)]
          AgentHost.setMemory "used_approval_ids" (.list ((used ++ [token.approvalId]).map .str))
          host.record "approval.used" [("approval_id", .str token.approvalId), ("tool", .str tool)]
          return true) :=
        (quiet_record _ _).bind fun _ => (quiet_setMemory _ _).bind fun _ => (quiet_record _ _).bind fun _ =>
          quiet_pure _
      refine (hquiet _ _).mono ?_
      rintro r l' _ ⟨rfl, hsame⟩
      exact ⟨⟨hsame, .inr ⟨token, rfl⟩⟩, fun _ => rfl⟩
  · rintro error _ _ ⟨rfl, rfl⟩
    exact hraise error

def Approved (host : AgentHost) (v : Visit) (l : Local) (tool : String) (arguments : Value) (s : Trail) : Prop :=
  ∃ token now, s.redeemed = some token ∧ Approves host l.authority.policy.current token l.authority.effective
    l.state.taskId tool arguments v.admissionGeneration now

theorem meets_verifyToken (token : ApprovalToken) (tool : String) (arguments : Value) :
    Walks host (host.verifyToken v token tool arguments)
      (fun r l' s' => l' = l ∧ s' = s ∧ (r = .ok () → ∃ now, Approves host l.authority.policy.current token
        l.authority.effective l.state.taskId tool arguments v.admissionGeneration now)) l s := by
  refine meets_get_bind ?_
  dsimp only
  split
  · refine meets_unseen_bind rfl (fun now => ?_) fun _ => ⟨rfl, rfl, fun h => by cases h⟩
    exact meets_lift.2 ⟨rfl, rfl, fun hr => ⟨now, verifyApproval_ok hr⟩⟩
  · exact meets_lift.2 ⟨rfl, rfl, fun hr => ⟨0, verifyApproval_ok hr⟩⟩

theorem meets_approvalGateToken (h : Active host e v l s) (token : ApprovalToken) (tool : String) (arguments : Value) :
    Walks host (host.approvalGateToken v token tool arguments)
      (fun r l' s' => Gated l l' s s' ∧ Passed (fun _ s' => Approved host v l tool arguments s') r l' s') l s := by
  refine meets_get_bind ?_
  split
  · exact (quiet_approvalFailure _ _).gated_false
  split
  · exact (quiet_approvalFailure _ _).gated_false
  have hverify : Walks host
      (exceptSecurity (do host.verifyToken v token tool arguments; pure none) fun error => pure (some error))
      (fun r l' s' => l' = l ∧ s' = s ∧ (r = .ok none → ∃ now, Approves host l.authority.policy.current token
        l.authority.effective l.state.taskId tool arguments v.admissionGeneration now)) l s := by
    refine Code.Meets.tryCatch ((meets_verifyToken token tool arguments).bind
      (Q := fun r l' s' => l' = l ∧ s' = s ∧ (r = .ok none → ∃ now, Approves host l.authority.policy.current token
        l.authority.effective l.state.taskId tool arguments v.admissionGeneration now)) ?_ ?_) (fun _ _ _ h => h) ?_
    · rintro _ _ _ ⟨rfl, rfl, happroves⟩
      exact ⟨rfl, rfl, fun _ => happroves rfl⟩
    · rintro _ _ _ ⟨rfl, rfl, -⟩
      exact ⟨rfl, rfl, fun h => by cases h⟩
    · rintro error _ _ ⟨rfl, rfl, -⟩
      split <;> exact ⟨rfl, rfl, fun h => by cases h⟩
  refine hverify.bind ?_ ?_
  · rintro refusal _ _ ⟨rfl, rfl, happroves⟩
    cases refusal with
    | some => exact (quiet_approvalFailure _ _).gated_false
    | none =>
      obtain ⟨now, happroves⟩ := happroves rfl
      refine (meets_redeemToken h token tool _).mono fun r l' s' hr => ⟨hr.1, fun hpass => ?_⟩
      exact ⟨token, now, hr.2 hpass, happroves⟩
  · rintro error _ _ ⟨rfl, rfl, -⟩
    exact ⟨Gated.refl _ _, fun h => by cases h⟩

theorem meets_approvalGate (h : Active host e v l s) (tool : String) (arguments : Value) :
    Walks host (host.approvalGate v tool arguments)
      (fun r l' s' => Gated l l' s s' ∧ Passed (fun _ s' => host.requiresApproval l.authority.policy tool = true →
        Approved host v l tool arguments s') r l' s') l s := by
  refine meets_get_bind ?_
  split
  · split
    · split
      · exact (quiet_approvalFailure _ _).gated_false
      · exact ⟨Gated.refl l s, fun h => by cases h⟩
    · exact (quiet_requestApproval _ _).gated_false
    · exact (meets_approvalGateToken h _ tool arguments).mono fun r l' s' hr => ⟨hr.1, fun hpass _ => hr.2 hpass⟩
  · rename_i hrequires
    exact ⟨Gated.refl l s, fun _ hr => absurd hr hrequires⟩

end Portmark.Host
