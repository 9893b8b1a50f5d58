/-
The host policy is a ceiling. What a grant of a merged set accepts, a grant of each input accepts
under the same name (`mem_intersectGrants` and the constraint merge), and what it releases of a
tool's output both release; so an effective permit gives no more than the manifest, the permit and
the policy each give.
-/
import Portmark.Security.Narrow
import Portmark.Security.Permit

namespace Portmark.Security

open Lib Lib.Json Assoc

/-! ## Merged grant sets -/

variable {g : ToolGrant}

theorem get?_byName {name : String} (grants : List ToolGrant)
    (h : get? (byName grants) name = some g) : g ∈ grants ∧ g.name = name := by
  have hfold : ∀ (grants : List ToolGrant) (d : Assoc ToolGrant),
      get? (grants.foldl (fun d g => Assoc.set d g.name g) d) name = some g →
      (g ∈ grants ∧ g.name = name) ∨ get? d name = some g := by
    intro grants
    induction grants with
    | nil => exact fun d h => .inr h
    | cons g₀ grants ih =>
      intro d h
      rcases ih _ h with ⟨hm, hn⟩ | hd
      · exact .inl ⟨List.mem_cons_of_mem _ hm, hn⟩
      rw [get?_set] at hd
      split at hd
      · rename_i hk
        cases hd
        exact .inl ⟨List.mem_cons_self .., hk.symm⟩
      · exact .inr hd
  rcases hfold grants [] h with h | h
  · exact h
  · simp at h

section Merged

variable {order : SetOrder}

structure FromBoth (order : SetOrder) (g l r : ToolGrant) : Prop where
  left : l.name = g.name
  right : r.name = g.name
  constraints : constraintIntersection order l.constraints r.constraints = .ok g.constraints
  projection : g.outputProjection = projectionIntersection l.outputProjection r.outputProjection

theorem mergeGrant_ok {current incoming : Assoc ToolGrant} {name : String}
    (hc : ∀ l, get? current name = some l → l.name = name)
    (hi : ∀ r, get? incoming name = some r → r.name = name)
    (h : mergeGrant order current incoming name = .ok (some g)) :
    ∃ l r, get? current name = some l ∧ get? incoming name = some r ∧ g.name = name ∧
      FromBoth order g l r := by
  unfold mergeGrant at h
  split at h
  · rename_i l r hl hr
    split at h
    · rename_i constraints hm
      cases h
      exact ⟨l, r, hl, hr, rfl, hc l hl, hi r hr, hm, rfl⟩
    · cases h
    · cases h
  · cases h

/-- Every grant of an intersection of two sets comes from one grant of each, and is an allowed name. -/
theorem mem_intersectGrants {a b grants : List ToolGrant} {allow : Option (List String)}
    (h : intersectGrants order [a, b] allow = .ok grants) (hg : g ∈ grants) :
    (∃ l ∈ a, ∃ r ∈ b, FromBoth order g l r) ∧ ∀ names, allow = some names → g.name ∈ names := by
  simp only [intersectGrants, List.foldlM_cons, List.foldlM_nil, bind_pure] at h
  obtain ⟨current, hcurrent, h⟩ := bind_ok_iff.1 h
  cases h
  obtain ⟨⟨name, g'⟩, hentry, rfl⟩ := List.mem_map.1 hg
  have hentry := (inOrder_perm _).mem_iff.1 hentry
  have hmem : (name, g') ∈ current ∧ ∀ names, allow = some names → name ∈ names := by
    cases allow with
    | none => exact ⟨hentry, fun _ h => by cases h⟩
    | some =>
      obtain ⟨hm, hn⟩ := List.mem_filter.1 hentry
      refine ⟨hm, fun _ h => ?_⟩
      cases h
      simpa using hn
  have hnodup : (keys current).Nodup := (order.nodup_visit _).sublist (keys_build_sublist hcurrent)
  have hget := get?_of_mem hnodup hmem.1
  obtain ⟨-, hmerge⟩ := (get?_build hcurrent).1 hget
  obtain ⟨l, r, hl, hr, hname, hboth⟩ := mergeGrant_ok (fun l hl => (get?_byName a hl).2)
    (fun r hr => (get?_byName b hr).2) hmerge
  exact ⟨⟨l, (get?_byName a hl).1, r, (get?_byName b hr).1, hboth⟩, fun names hn => hname ▸ hmem.2 names hn⟩

end Merged

/-! ## What a grant accepts and releases -/

/-- A grant whose constraints a loader accepts and the checker does not find malformed. -/
structure WellFormed (env : Env) (g : ToolGrant) : Prop where
  valid : validateConstraints env (.dict g.constraints) = .ok ()
  limits : wellFormedLimits g.constraints = true

def Accepts (env : Env) (grants : List ToolGrant) (tool : String) (arguments : Dict) : Prop :=
  ∃ g ∈ grants, g.name = tool ∧ checkConstraints env arguments g.constraints = .ok ()

/-- A projection releases an output field: it names the field, or everything. -/
def Releases (projection : Option (List String)) (field : String) : Prop :=
  "*" ∈ projection.getD [] ∨ field ∈ projection.getD []

theorem FromBoth.accepts {env : Env} {order : SetOrder} {l r : ToolGrant} {arguments : Dict}
    (h : FromBoth order g l r) (hl : WellFormed env l) (hr : WellFormed env r)
    (hg : checkConstraints env arguments g.constraints = .ok ()) :
    checkConstraints env arguments l.constraints = .ok () ∧ checkConstraints env arguments r.constraints = .ok () := by
  obtain ⟨hkl, hkr⟩ := constraintIntersection_keeps hl.limits hr.limits h.constraints
  exact ⟨checkConstraints_of_narrows hl.valid hl.limits hkl hg, checkConstraints_of_narrows hr.valid hr.limits hkr hg⟩

/-- What an intersection of two projections releases, each of them that is given releases. -/
theorem projectionIntersection_releases {left right : Option (List String)} {field : String}
    (h : Releases (projectionIntersection left right) field) :
    (left.isSome → Releases left field) ∧ (right.isSome → Releases right field) := by
  rcases left with _ | _
  · exact ⟨fun hs => by simp at hs, fun _ => h⟩
  rcases right with _ | _
  · exact ⟨fun _ => h, fun hs => by simp at hs⟩
  simp only [projectionIntersection] at h
  unfold Releases at h ⊢
  split at h
  · simp at h
  split at h
  · rename_i hstar
    exact ⟨fun _ => .inl (by simpa using hstar), fun _ => h⟩
  split at h
  · rename_i hstar
    exact ⟨fun _ => h, fun _ => .inl (by simpa using hstar)⟩
  · simp only [Option.getD_some, List.mem_filter, List.contains_iff_mem] at h
    exact ⟨fun _ => h.imp And.left And.left, fun _ => h.imp And.right And.right⟩

/-! ## The effective permit -/

theorem WellFormed.deniesUnnamed {env : Env} (h : WellFormed env g) :
    WellFormed env (policyGrantDeniesUnnamedArguments g) := by
  unfold policyGrantDeniesUnnamedArguments
  split
  · exact h
  rename_i hnone
  have hget : ∀ key, key ≠ "additional_arguments" →
      get? (Assoc.set g.constraints "additional_arguments" (.bool false)) key = get? g.constraints key := by
    intro key hk
    rw [get?_set, if_neg hk]
  have hgiven : ∀ key, key ≠ "additional_arguments" →
      given? (Assoc.set g.constraints "additional_arguments" (.bool false)) key = given? g.constraints key := by
    intro key hk
    unfold given?
    rw [hget key hk]
  constructor
  · have hv := h.valid
    simp only [validateConstraints, seq_ok_iff, refuseIf_ok_iff] at hv ⊢
    rw [hgiven "required" (by decide), hgiven "arguments" (by decide), get?_set, if_pos rfl]
    exact ⟨hv.1, rfl, hv.2.2⟩
  · have hl := h.limits
    simp only [wellFormedLimits, Bool.and_eq_true] at hl ⊢
    rw [hget "arguments" (by decide)]
    refine ⟨List.all_eq_true.2 ?_, hl.2⟩
    rintro ⟨key, v⟩ hmem
    have hv := Assoc.mem_items_iff.1 hmem
    by_cases hk : key = "additional_arguments"
    · subst hk
      simp [reservedKeys]
    · rw [hget key hk] at hv
      exact List.all_eq_true.1 hl.1 (key, v) (Assoc.mem_items_iff.2 hv)

theorem effectivePermit_ok {order : SetOrder} {policy : HostPolicy} {manifest : AgentManifest} {permit eff : Permit}
    {now : Int} (h : policy.effectivePermit order manifest permit now = .ok eff) :
    ∃ grants, intersectGrants order [permit.grants, policy.grants.map HostPolicy.projectionDenied]
        (some manifest.requestedTools) = .ok grants ∧
      eff = { permit with grants, budget := permit.budget.intersect policy.budget, delegationAllowed := false } := by
  obtain ⟨-, -, h⟩ := bind_ok_iff.1 h
  obtain ⟨-, -, h⟩ := bind_ok_iff.1 h
  obtain ⟨-, -, h⟩ := bind_ok_iff.1 h
  obtain ⟨grants, hgrants, h⟩ := bind_ok_iff.1 h
  cases h
  exact ⟨grants, hgrants, rfl⟩

structure ResourceBudget.Le (a b : ResourceBudget) : Prop where
  steps : a.maxSteps ≤ b.maxSteps
  toolCalls : a.maxToolCalls ≤ b.maxToolCalls
  outputBytes : a.maxOutputBytes ≤ b.maxOutputBytes

theorem ResourceBudget.intersect_le (a b : ResourceBudget) : (a.intersect b).Le a ∧ (a.intersect b).Le b :=
  ⟨⟨min_le_left _ _, min_le_left _ _, min_le_left _ _⟩, ⟨min_le_right _ _, min_le_right _ _, min_le_right _ _⟩⟩

theorem projectionDenied_constraints (g : ToolGrant) :
    (HostPolicy.projectionDenied g).constraints = g.constraints ∧ (HostPolicy.projectionDenied g).name = g.name ∧
    (HostPolicy.projectionDenied g).outputProjection = some (g.outputProjection.getD []) := by
  unfold HostPolicy.projectionDenied
  split
  · rename_i h
    simp [h]
  · rename_i h
    simp [h]

theorem deniesUnnamed_name (g : ToolGrant) : (policyGrantDeniesUnnamedArguments g).name = g.name ∧
    (policyGrantDeniesUnnamedArguments g).outputProjection = g.outputProjection := by
  unfold policyGrantDeniesUnnamedArguments
  split <;> exact ⟨rfl, rfl⟩

/-- The effective permit stays under its three sources: a call that one of its grants accepts is of
a tool the manifest requests, accepted by a permit grant and by a policy grant of that name, whose
projection releases every field the effective grant releases; budgets are minima, and the rest is
the permit's, without delegation. -/
theorem effectivePermit_ceiling (env : Env) (order : SetOrder) (policy : HostPolicy) (manifest : AgentManifest)
    (permit eff : Permit) (now : Int) (hpermit : ∀ g ∈ permit.grants, WellFormed env g)
    (hpolicy : ∀ g ∈ policy.declared, WellFormed env g)
    (h : policy.effectivePermit order manifest permit now = .ok eff) :
    (∀ g ∈ eff.grants, ∀ arguments, checkConstraints env arguments g.constraints = .ok () →
      g.name ∈ manifest.requestedTools ∧ Accepts env permit.grants g.name arguments ∧
      ∃ q ∈ policy.declared, q.name = g.name ∧
        checkConstraints env arguments (policyGrantDeniesUnnamedArguments q).constraints = .ok () ∧
        ∀ field, Releases g.outputProjection field → Releases q.outputProjection field) ∧
    eff.budget.Le permit.budget ∧ eff.budget.Le policy.budget ∧ eff.expiresAt = permit.expiresAt ∧
    eff.nonce = permit.nonce ∧ eff.subject = permit.subject ∧ eff.audience = permit.audience ∧
    eff.delegationAllowed = false := by
  obtain ⟨grants, hgrants, rfl⟩ := effectivePermit_ok h
  refine ⟨fun g hg arguments hcheck => ?_, (permit.budget.intersect_le policy.budget).1,
    (permit.budget.intersect_le policy.budget).2, rfl, rfl, rfl, rfl, rfl⟩
  obtain ⟨⟨l, hl, r, hr, hboth⟩, hallow⟩ := mem_intersectGrants hgrants hg
  obtain ⟨r', hr', rfl⟩ := List.mem_map.1 hr
  obtain ⟨q, hq, rfl⟩ := List.mem_map.1 hr'
  obtain ⟨hconstraints, hname, hprojection⟩ := projectionDenied_constraints (policyGrantDeniesUnnamedArguments q)
  have hwell : WellFormed env (HostPolicy.projectionDenied (policyGrantDeniesUnnamedArguments q)) := by
    have hq' := (hpolicy q hq).deniesUnnamed
    exact ⟨hconstraints ▸ hq'.valid, hconstraints ▸ hq'.limits⟩
  obtain ⟨haccl, haccr⟩ := hboth.accepts (hpermit l hl) hwell hcheck
  refine ⟨hallow _ rfl, ⟨l, hl, hboth.left, haccl⟩, q, hq, ?_, hconstraints ▸ haccr, fun field hrel => ?_⟩
  · rw [← (deniesUnnamed_name q).1, ← hname]
    exact hboth.right
  · rw [hboth.projection] at hrel
    have hright := (projectionIntersection_releases hrel).2 (by rw [hprojection]; rfl)
    rw [hprojection, (deniesUnnamed_name q).2] at hright
    exact hright

def paymentManifest : AgentManifest := ⟨"agent", "1", "model", ["pay"], "python:reference-agent-v1"⟩

def paymentPermit : Permit :=
  ⟨"issuer", "agent", "host", 100, "n1", [⟨"pay", permitGrant, some ["*"]⟩], ⟨12, 8, 65536⟩, true, .null⟩

def paymentPolicy : HostPolicy :=
  { audience := "host", declared := [⟨"pay", hostGrant, some ["id"]⟩], budget := ⟨5, 2, 4096⟩, policyVersion := "v1",
    policyHash := "h1", toolImpacts := [], approvalAuthorities := [], approvalRequiredImpacts := ["high"],
    migration := ⟨false, []⟩, implicitImpacts := [] }

def paymentEffective : Permit :=
  { paymentPermit with
    grants := [⟨"pay", mergedGrant, some ["id"]⟩], budget := ⟨5, 2, 4096⟩, delegationAllowed := false }

theorem effectivePermit_ceiling_payment :
    paymentPolicy.effectivePermit .insertion paymentManifest paymentPermit 10 = .ok paymentEffective ∧
    "pay" ∈ paymentManifest.requestedTools ∧ Accepts plainEnv paymentPermit.grants "pay" payment ∧
    paymentEffective.budget.Le paymentPolicy.budget := by
  have heff : paymentPolicy.effectivePermit .insertion paymentManifest paymentPermit 10 = .ok paymentEffective := rfl
  have hcheck : checkConstraints plainEnv payment mergedGrant = .ok () := by decide +kernel
  have hceiling := effectivePermit_ceiling plainEnv .insertion paymentPolicy paymentManifest paymentPermit
    paymentEffective 10
    (fun g hg => by cases List.mem_singleton.1 hg; exact ⟨by decide, by decide +kernel⟩)
    (fun g hg => by cases List.mem_singleton.1 hg; exact ⟨by decide, by decide +kernel⟩) heff
  obtain ⟨hrequested, haccepts, -⟩ := hceiling.1 _ (List.mem_singleton.2 rfl) payment hcheck
  exact ⟨heff, hrequested, haccepts, hceiling.2.2.1⟩

end Portmark.Security
