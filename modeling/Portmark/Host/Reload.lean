/-
Policy reloads in the middle of a run only narrow it. `Below` is the order on permits; a grant
intersection is below both of its sides, so each re-check that adopts a policy goes down, and a
re-check that keeps the authority saw the policy already in force. `Bounded` is what a run keeps:
its authority is under every policy it has seen.
-/
import Portmark.Host.Authority
import Portmark.Security.Closed

namespace Portmark.Host

open Lib Lib.Json Security List

/-! ## The order on permits -/

def ReleasedBy (grants : List ToolGrant) (tool field : String) : Prop :=
  ∃ g ∈ grants, g.name = tool ∧ Releases g.outputProjection field

structure Below (env : Env) (a b : Permit) : Prop where
  accepts : ∀ tool arguments, Accepts env a.grants tool arguments → Accepts env b.grants tool arguments
  releases : ∀ tool field, ReleasedBy a.grants tool field → ReleasedBy b.grants tool field
  budget : a.budget.Le b.budget
  expiresAt : a.expiresAt ≤ b.expiresAt

theorem Below.refl (env : Env) (a : Permit) : Below env a a :=
  ⟨fun _ _ h => h, fun _ _ h => h, ⟨le_refl _, le_refl _, le_refl _⟩, le_refl _⟩

theorem Below.trans {env : Env} {a b c : Permit} (h : Below env a b) (h' : Below env b c) : Below env a c where
  accepts tool arguments hacc := h'.accepts tool arguments (h.accepts tool arguments hacc)
  releases tool field hrel := h'.releases tool field (h.releases tool field hrel)
  budget := ⟨h.budget.steps.trans h'.budget.steps, h.budget.toolCalls.trans h'.budget.toolCalls,
    h.budget.outputBytes.trans h'.budget.outputBytes⟩
  expiresAt := h.expiresAt.trans h'.expiresAt

def Settled (env : Env) (grants : List ToolGrant) : Prop :=
  ∀ g ∈ grants, WellFormed env g ∧ g.outputProjection.isSome = true

section Intersection

variable {env : Env} {order : SetOrder} {a b grants : List ToolGrant} {allow : Option (List String)}

/-- What an intersection accepts and releases, both sides do; a side without a projection of a
grant says nothing about its fields. -/
theorem intersectGrants_below (h : intersectGrants order [a, b] allow = .ok grants) (ha : Settled env a)
    (hb : ∀ g ∈ b, WellFormed env g) : Settled env grants ∧
    (∀ tool arguments, Accepts env grants tool arguments → Accepts env a tool arguments ∧
      Accepts env b tool arguments) ∧ (∀ tool field, ReleasedBy grants tool field → ReleasedBy a tool field) ∧
    ∀ tool field, (∀ g ∈ b, g.outputProjection.isSome = true) → ReleasedBy grants tool field →
      ReleasedBy b tool field := by
  refine ⟨fun g hg => ?_, ?_, ?_, ?_⟩
  · obtain ⟨⟨l, hl, r, hr, hboth⟩, -⟩ := mem_intersectGrants h hg
    refine ⟨hboth.wellFormed (ha l hl).1 (hb r hr), ?_⟩
    obtain ⟨fields, hfields⟩ := Option.isSome_iff_exists.1 (ha l hl).2
    rw [hboth.projection, hfields]
    unfold projectionIntersection
    cases r.outputProjection with
    | none => rfl
    | some => dsimp only; split_ifs <;> rfl
  · rintro tool arguments ⟨g, hg, hname, hcheck⟩
    obtain ⟨⟨l, hl, r, hr, hboth⟩, -⟩ := mem_intersectGrants h hg
    obtain ⟨hcl, hcr⟩ := hboth.accepts (ha l hl).1 (hb r hr) hcheck
    exact ⟨⟨l, hl, hboth.left.trans hname, hcl⟩, ⟨r, hr, hboth.right.trans hname, hcr⟩⟩
  · rintro tool field ⟨g, hg, hname, hrel⟩
    obtain ⟨⟨l, hl, r, hr, hboth⟩, -⟩ := mem_intersectGrants h hg
    rw [hboth.projection] at hrel
    exact ⟨l, hl, hboth.left.trans hname, (projectionIntersection_releases hrel).1 (ha l hl).2⟩
  · rintro tool field hproj ⟨g, hg, hname, hrel⟩
    obtain ⟨⟨l, hl, r, hr, hboth⟩, -⟩ := mem_intersectGrants h hg
    rw [hboth.projection] at hrel
    exact ⟨r, hr, hboth.right.trans hname, (projectionIntersection_releases hrel).2 (hproj r hr)⟩

end Intersection

/-! ## One re-check -/

variable {policy : HostPolicy}

section Steps

variable {env : Env} {order : SetOrder} {manifest : AgentManifest} {permit : Permit}

theorem effectivePermit_unique {now now' : Int} {given given' : Permit}
    (h : policy.effectivePermit order manifest permit now = .ok given)
    (h' : policy.effectivePermit order manifest permit now' = .ok given') : given = given' := by
  obtain ⟨grants, hg, rfl⟩ := effectivePermit_ok h
  obtain ⟨grants', hg', rfl⟩ := effectivePermit_ok h'
  rw [hg] at hg'
  cases hg'
  rfl

theorem effectivePermit_settled {now : Int} {given : Permit}
    (hpermit : ∀ g ∈ permit.grants, WellFormed env g) (hpolicy : ∀ g ∈ policy.declared, WellFormed env g)
    (h : policy.effectivePermit order manifest permit now = .ok given) : Settled env given.grants := by
  obtain ⟨grants, hgrants, rfl⟩ := effectivePermit_ok h
  intro g hg
  obtain ⟨⟨l, hl, r, hr, hboth⟩, -⟩ := mem_intersectGrants hgrants hg
  obtain ⟨r', hr', rfl⟩ := mem_map.1 hr
  obtain ⟨q, hq, rfl⟩ := mem_map.1 hr'
  obtain ⟨hconstraints, -, hprojection⟩ := projectionDenied_constraints (policyGrantDeniesUnnamedArguments q)
  have hq' := (hpolicy q hq).deniesUnnamed
  refine ⟨hboth.wellFormed (hpermit l hl) ⟨hconstraints ▸ hq'.valid, hconstraints ▸ hq'.limits⟩, ?_⟩
  rw [hboth.projection, hprojection]
  cases l.outputProjection with
  | none => rfl
  | some => unfold projectionIntersection; dsimp only; split_ifs <;> rfl

variable {effective : Permit}

theorem narrowPermit_below {fresh narrowed : Permit} (h : narrowPermit order effective fresh = .ok narrowed)
    (he : Settled env effective.grants) (hf : Settled env fresh.grants) :
    Settled env narrowed.grants ∧ Below env narrowed effective ∧ Below env narrowed fresh := by
  obtain ⟨grants, hgrants, h⟩ := bind_ok_iff.1 h
  cases h
  obtain ⟨hsettled, haccepts, hleft, hright⟩ := intersectGrants_below hgrants he fun g hg => (hf g hg).1
  obtain ⟨hbl, hbr⟩ := effective.budget.intersect_le fresh.budget
  exact ⟨hsettled,
    ⟨fun tool arguments hacc => (haccepts tool arguments hacc).1, hleft, hbl, min_le_left _ _⟩,
    ⟨fun tool arguments hacc => (haccepts tool arguments hacc).2,
      fun tool field => hright tool field fun g hg => (hf g hg).2, hbr, min_le_right _ _⟩⟩

theorem capToCeiling_ok {capped : Permit} {text : Text}
    (h : capToCeiling order effective text manifest = .ok capped) : ∃ ceiling grants,
    readCeiling text = .ok ceiling ∧ manifest.provider = ceiling.provider ∧
    manifest.componentDigest = ceiling.componentDigest ∧
    intersectGrants order [effective.grants, ceiling.grants] none = .ok grants ∧
    capped = { effective with grants, budget := effective.budget.intersect ceiling.budget,
                              expiresAt := min effective.expiresAt ceiling.expiresAt } := by
  obtain ⟨ceiling, hread, h⟩ := bind_ok_iff.1 h
  obtain ⟨_, hcomponent, h⟩ := bind_ok_iff.1 h
  obtain ⟨grants, hgrants, h⟩ := bind_ok_iff.1 h
  cases h
  simp only [require_ok_iff, Bool.and_eq_true, beq_iff_eq] at hcomponent
  exact ⟨ceiling, grants, hread, hcomponent.1, hcomponent.2, hgrants, rfl⟩

theorem capToCeiling_below {capped : Permit} {text : Text} {ceiling : AuthorityCeiling}
    (hread : readCeiling text = .ok ceiling) (hceiling : ∀ g ∈ ceiling.grants, WellFormed env g)
    (he : Settled env effective.grants) (h : capToCeiling order effective text manifest = .ok capped) :
    Settled env capped.grants ∧ Below env capped effective := by
  obtain ⟨ceiling', grants, hread', -, -, hgrants, rfl⟩ := capToCeiling_ok h
  rw [hread] at hread'
  cases hread'
  obtain ⟨hsettled, haccepts, hleft, -⟩ := intersectGrants_below hgrants he hceiling
  exact ⟨hsettled, fun tool arguments hacc => (haccepts tool arguments hacc).1, hleft,
    (effective.budget.intersect_le ceiling.budget).1, min_le_left _ _⟩

end Steps

/-- What a re-check does: nothing for the policy already in force, else it adopts the narrowed permit. -/
theorem recheck_ok {host : AgentHost} {manifest : AgentManifest} {permit : Permit} {a a' : Authority}
    {fresh : HostPolicy} {now : Int} {state : AgentState}
    (h : a.recheck host manifest permit fresh now state = .ok a') : (a.policy.isCurrent fresh = true ∧ a' = a) ∨
    ∃ given narrowed, fresh.effectivePermit host.order manifest permit now = .ok given ∧
      narrowPermit host.order a.effective given = .ok narrowed ∧ a' = ⟨.reloaded a.policy fresh, narrowed⟩ := by
  obtain ⟨narrowed, hn, h⟩ := bind_ok_iff.1 h
  unfold Authority.narrowed at hn
  split at hn
  · cases hn
    cases h
    exact .inl ⟨‹_›, rfl⟩
  · obtain ⟨given, hgiven, hn⟩ := bind_ok_iff.1 hn
    obtain ⟨p, hp, hn⟩ := bind_ok_iff.1 hn
    cases hn
    obtain ⟨-, -, h⟩ := bind_ok_iff.1 h
    cases h
    exact .inr ⟨given, p, hgiven, hp, rfl⟩

/-! ## All the re-checks of a run -/

structure Reload where
  fresh : HostPolicy
  now : Int
  state : AgentState

def Authority.recheckAll (host : AgentHost) (manifest : AgentManifest) (permit : Permit) (a : Authority)
    (reloads : List Reload) : Except Fault Authority :=
  reloads.foldlM (fun a reload => a.recheck host manifest permit reload.fresh reload.now reload.state) a

structure Admitted (host : AgentHost) (manifest : AgentManifest) (permit : Permit) (policy : HostPolicy)
    (a : Authority) : Prop where
  plain : a.policy = .plain policy
  given : ∃ now given, policy.effectivePermit host.order manifest permit now = .ok given ∧
    (a.effective = given ∨ ∃ text ceiling, readCeiling text = .ok ceiling ∧
      (∀ g ∈ ceiling.grants, WellFormed host.env g) ∧
      capToCeiling host.order given text manifest = .ok a.effective)

structure Bounded (host : AgentHost) (manifest : AgentManifest) (permit : Permit) (seen : List HostPolicy)
    (a : Authority) : Prop where
  settled : Settled host.env a.effective.grants
  current : a.policy.current ∈ seen
  below : ∀ p ∈ seen, ∀ now given, p.effectivePermit host.order manifest permit now = .ok given →
    Below host.env a.effective given
  approval : ∀ p ∈ seen, ∀ tool sideEffecting, p.requiresApprovalFor tool sideEffecting = true →
    a.policy.requiresApprovalFor tool sideEffecting = true
  migration : ∀ p ∈ seen, ∀ permit' destination, a.policy.authorizeMigration host.env permit' destination = .ok () →
    p.authorizeMigration host.env permit' destination = .ok ()

section Runs

variable {host : AgentHost} {manifest : AgentManifest} {permit : Permit}

section

variable (hpermit : ∀ g ∈ permit.grants, WellFormed host.env g)

include hpermit

theorem Admitted.bounded {a : Authority}
    (hpolicy : ∀ g ∈ policy.declared, WellFormed host.env g) (h : Admitted host manifest permit policy a) :
    Bounded host manifest permit [policy] a := by
  obtain ⟨now, given, hgiven, heff⟩ := h.given
  have hsettled := effectivePermit_settled hpermit hpolicy hgiven
  have hbelow : Settled host.env a.effective.grants ∧ Below host.env a.effective given := by
    rcases heff with heff | ⟨text, ceiling, hread, hceiling, hcap⟩
    · rw [heff]
      exact ⟨hsettled, Below.refl _ _⟩
    · exact capToCeiling_below hread hceiling hsettled hcap
  refine ⟨hbelow.1, by simp [h.plain, ActivePolicy.current], ?_, ?_, ?_⟩
  · intro p hp now' given' hgiven'
    cases mem_singleton.1 hp
    exact effectivePermit_unique hgiven hgiven' ▸ hbelow.2
  · intro p hp tool sideEffecting hreq
    cases mem_singleton.1 hp
    rw [h.plain]
    exact hreq
  · intro p hp permit' destination hauth
    cases mem_singleton.1 hp
    rw [h.plain] at hauth
    exact hauth

/-- One re-check: the run stays under all it has seen and what it sees now, and goes down. -/
theorem Bounded.recheck {seen : List HostPolicy} {a a' : Authority} {fresh : HostPolicy} {now : Int}
    {state : AgentState} (hfresh : ∀ g ∈ fresh.declared, WellFormed host.env g)
    (hident : ∀ p ∈ seen, fresh.policyVersion = p.policyVersion → fresh.policyHash = p.policyHash → fresh = p)
    (hb : Bounded host manifest permit seen a) (h : a.recheck host manifest permit fresh now state = .ok a') :
    Bounded host manifest permit (fresh :: seen) a' ∧ Below host.env a'.effective a.effective ∧
    ∀ tool sideEffecting, a.policy.requiresApprovalFor tool sideEffecting = true →
      a'.policy.requiresApprovalFor tool sideEffecting = true := by
  rcases recheck_ok h with ⟨hcurrent, rfl⟩ | ⟨given, narrowed, hgiven, hnarrow, rfl⟩
  · -- the loader returned the policy in force, so it is one the run has seen
    have hseen : fresh ∈ seen := by
      simp only [ActivePolicy.isCurrent, Bool.and_eq_true, beq_iff_eq] at hcurrent
      exact hident _ hb.current hcurrent.1 hcurrent.2 ▸ hb.current
    have hsub : ∀ p ∈ fresh :: seen, p ∈ seen := by
      rintro p hp
      rcases mem_cons.1 hp with rfl | hp
      · exact hseen
      · exact hp
    exact ⟨⟨hb.settled, mem_cons_of_mem _ hb.current, fun p hp => hb.below p (hsub p hp),
      fun p hp => hb.approval p (hsub p hp), fun p hp => hb.migration p (hsub p hp)⟩, Below.refl _ _, fun _ _ h => h⟩
  · have hsettled := effectivePermit_settled hpermit hfresh hgiven
    obtain ⟨hset, hdown, hunder⟩ := narrowPermit_below hnarrow hb.settled hsettled
    refine ⟨⟨hset, mem_cons_self .., ?_, ?_, ?_⟩, hdown, ?_⟩
    · intro p hp now' given' hgiven'
      rcases mem_cons.1 hp with rfl | hp
      · exact effectivePermit_unique hgiven hgiven' ▸ hunder
      · exact hdown.trans (hb.below p hp now' given' hgiven')
    · intro p hp tool sideEffecting hreq
      simp only [ActivePolicy.requiresApprovalFor, Bool.or_eq_true]
      rcases mem_cons.1 hp with rfl | hp
      · exact .inr hreq
      · exact .inl (hb.approval p hp tool sideEffecting hreq)
    · intro p hp permit' destination hauth
      obtain ⟨hprevious, hnew⟩ := seq_ok_iff.1 hauth
      rcases mem_cons.1 hp with rfl | hp
      · exact hnew
      · exact hb.migration p hp permit' destination hprevious
    · intro tool sideEffecting hreq
      simp only [ActivePolicy.requiresApprovalFor, Bool.or_eq_true]
      exact .inl hreq

/-- A run's authority after any number of re-checks. -/
theorem Bounded.recheckAll : ∀ (reloads : List Reload) {seen : List HostPolicy} {a a' : Authority},
      (∀ p ∈ reloads.map Reload.fresh, ∀ g ∈ p.declared, WellFormed host.env g) →
      (∀ p ∈ reloads.map Reload.fresh ++ seen, ∀ q ∈ reloads.map Reload.fresh ++ seen,
        p.policyVersion = q.policyVersion → p.policyHash = q.policyHash → p = q) →
      Bounded host manifest permit seen a → a.recheckAll host manifest permit reloads = .ok a' →
      Bounded host manifest permit ((reloads.map Reload.fresh).reverse ++ seen) a' ∧
      Below host.env a'.effective a.effective ∧
      ∀ tool sideEffecting, a.policy.requiresApprovalFor tool sideEffecting = true →
        a'.policy.requiresApprovalFor tool sideEffecting = true
  | [], seen, a, a', _, _, hb, h => by
    cases h
    exact ⟨hb, Below.refl _ _, fun _ _ h => h⟩
  | reload :: reloads, seen, a, a', hw, hident, hb, h => by
    simp only [Authority.recheckAll, foldlM_cons] at h
    obtain ⟨a₁, h₁, h⟩ := bind_ok_iff.1 h
    obtain ⟨hb₁, hdown₁, happ₁⟩ := hb.recheck hpermit (hw reload.fresh (by simp))
      (fun p hp => hident reload.fresh (by simp) p (by simp [hp])) h₁
    have hmem : ∀ p, p ∈ reloads.map Reload.fresh ++ reload.fresh :: seen →
        p ∈ (reload :: reloads).map Reload.fresh ++ seen := by
      intro p hp
      simp only [map_cons, cons_append, mem_cons, mem_append] at hp ⊢
      tauto
    obtain ⟨hb₂, hdown₂, happ₂⟩ := Bounded.recheckAll reloads
      (fun p hp => hw p (by simp only [map_cons, mem_cons]; exact .inr hp))
      (fun p hp q hq => hident p (hmem p hp) q (hmem q hq)) hb₁ h
    refine ⟨?_, hdown₂.trans hdown₁, fun tool se hreq => happ₂ tool se (happ₁ tool se hreq)⟩
    simpa using hb₂

end

end Runs

/-- Reloads only narrow: take an admitted run, any answers of the loader up to some re-check and any
more after it. What the run's permit gives at the end, it gave at that re-check, and each policy
seen so far would have given it; a tool that needed approval still needs it; and a migration is
authorised only if every policy seen authorises it. -/
theorem recheckAll_narrows (host : AgentHost) (manifest : AgentManifest) (permit : Permit) (policy : HostPolicy)
    (a₀ a₁ a₂ : Authority) (before after : List Reload)
    (hpermit : ∀ g ∈ permit.grants, WellFormed host.env g)
    (hpolicies : ∀ p ∈ policy :: (before ++ after).map Reload.fresh, ∀ g ∈ p.declared, WellFormed host.env g)
    (hident : ∀ p ∈ policy :: (before ++ after).map Reload.fresh, ∀ q ∈ policy :: (before ++ after).map Reload.fresh,
      p.policyVersion = q.policyVersion → p.policyHash = q.policyHash → p = q)
    (hadmitted : Admitted host manifest permit policy a₀)
    (h₁ : a₀.recheckAll host manifest permit before = .ok a₁)
    (h₂ : a₁.recheckAll host manifest permit after = .ok a₂) :
    Below host.env a₂.effective a₁.effective ∧
    (∀ p ∈ policy :: (before ++ after).map Reload.fresh, ∀ now given,
      p.effectivePermit host.order manifest permit now = .ok given → Below host.env a₂.effective given) ∧
    (∀ tool sideEffecting, a₁.policy.requiresApprovalFor tool sideEffecting = true →
      a₂.policy.requiresApprovalFor tool sideEffecting = true) ∧
    (∀ p ∈ policy :: (before ++ after).map Reload.fresh, ∀ tool sideEffecting,
      p.requiresApprovalFor tool sideEffecting = true → a₂.policy.requiresApprovalFor tool sideEffecting = true) ∧
    ∀ p ∈ policy :: (before ++ after).map Reload.fresh, ∀ permit' destination,
      a₂.policy.authorizeMigration host.env permit' destination = .ok () →
      p.authorizeMigration host.env permit' destination = .ok () := by
  have hb₀ := hadmitted.bounded hpermit (hpolicies policy (by simp))
  obtain ⟨hb₁, -, -⟩ := Bounded.recheckAll hpermit before
    (fun p hp => hpolicies p (by
      simp only [map_append, mem_cons, mem_append]; exact .inr (.inl hp)))
    (fun p hp q hq => hident p (by
      simp only [map_append, mem_cons, mem_append, not_mem_nil, or_false] at hp ⊢; tauto) q (by
      simp only [map_append, mem_cons, mem_append, not_mem_nil, or_false] at hq ⊢; tauto)) hb₀ h₁
  have hseen : ∀ p, p ∈ after.map Reload.fresh ++ ((before.map Reload.fresh).reverse ++ [policy]) ↔
      p ∈ policy :: (before ++ after).map Reload.fresh := by
    simp only [map_append, mem_cons, mem_append, mem_reverse, not_mem_nil, or_false]
    tauto
  obtain ⟨hb₂, hdown, happ⟩ := Bounded.recheckAll hpermit after
    (fun p hp => hpolicies p (by
      simp only [map_append, mem_cons, mem_append]; exact .inr (.inr hp)))
    (fun p hp q hq => hident p ((hseen p).1 hp) q ((hseen q).1 hq)) hb₁ h₂
  have hmem : ∀ p ∈ policy :: (before ++ after).map Reload.fresh,
      p ∈ (after.map Reload.fresh).reverse ++ ((before.map Reload.fresh).reverse ++ [policy]) := by
    intro p hp
    have := (hseen p).2 hp
    simp only [mem_append, mem_reverse] at this ⊢
    exact this
  exact ⟨hdown, fun p hp => hb₂.below p (hmem p hp), happ, fun p hp => hb₂.approval p (hmem p hp),
    fun p hp => hb₂.migration p (hmem p hp)⟩

def reloadingHost : AgentHost where
  hostId := "host"
  env := plainEnv
  order := .insertion
  floatText := fun _ => []
  sha256 := fun _ => "digest"
  blake2b := fun _ => "digest"
  keyId := "key"
  signAuditHead := fun _ _ _ _ => "signature"
  sealSignature := fun _ => "signature"
  signMigrationReceipt := fun _ _ => "signature"
  verifySignature := fun _ _ _ => true
  policy := paymentPolicy
  reloadPolicy := true
  tools := ⟨[], [], ["pay"], [], none⟩
  providers := [("model", none)]
  hasMigrationAttester := false
  hasMigrationPreflight := false
  requireMigrationChallenge := false

def strictPolicy : HostPolicy :=
  { paymentPolicy with
    budget := ⟨4, 1, 2048⟩, policyVersion := "v2", policyHash := "h2", approvalRequiredImpacts := ["low", "high"] }

def firstState : AgentState := ⟨"task", "pay", 1, 0, 0, .dict [], .list [], .running, .null⟩

def paymentAuthority : Authority := ⟨.plain paymentPolicy, paymentEffective⟩

def strictAuthority : Authority :=
  ⟨.reloaded (.plain paymentPolicy) strictPolicy, { paymentEffective with budget := ⟨4, 1, 2048⟩ }⟩

def backAuthority : Authority := ⟨.reloaded strictAuthority.policy paymentPolicy, strictAuthority.effective⟩

set_option maxRecDepth 4000 in
theorem recheckAll_narrows_there_and_back :
    paymentAuthority.recheckAll reloadingHost paymentManifest paymentPermit [⟨strictPolicy, 20, firstState⟩] =
      .ok strictAuthority ∧
    strictAuthority.recheckAll reloadingHost paymentManifest paymentPermit [⟨paymentPolicy, 30, firstState⟩] =
      .ok backAuthority ∧
    Below plainEnv backAuthority.effective strictAuthority.effective ∧
    backAuthority.policy.requiresApprovalFor "pay" false = true := by
  have h₁ : paymentAuthority.recheckAll reloadingHost paymentManifest paymentPermit [⟨strictPolicy, 20, firstState⟩] =
      .ok strictAuthority := rfl
  have h₂ : strictAuthority.recheckAll reloadingHost paymentManifest paymentPermit [⟨paymentPolicy, 30, firstState⟩] =
      .ok backAuthority := rfl
  have hnarrows := recheckAll_narrows reloadingHost paymentManifest paymentPermit paymentPolicy paymentAuthority
    strictAuthority backAuthority [⟨strictPolicy, 20, firstState⟩] [⟨paymentPolicy, 30, firstState⟩]
    (fun g hg => by cases List.mem_singleton.1 hg; exact ⟨by decide, by decide +kernel⟩)
    (fun p hp g hg => by
      simp only [cons_append, nil_append, map_cons, map_nil, mem_cons, not_mem_nil,
        or_false] at hp
      rcases hp with rfl | rfl | rfl <;> cases List.mem_singleton.1 hg <;> exact ⟨by decide, by decide +kernel⟩)
    (fun p hp q hq hversion _ => by
      simp only [cons_append, nil_append, map_cons, map_nil, mem_cons, not_mem_nil,
        or_false] at hp hq
      rcases hp with rfl | rfl | rfl <;> rcases hq with rfl | rfl | rfl <;>
        first | rfl | exact absurd hversion (by decide))
    ⟨rfl, 10, paymentEffective, rfl, .inl rfl⟩ h₁ h₂
  exact ⟨h₁, h₂, hnarrows.1, hnarrows.2.2.1 "pay" false (by decide)⟩

end Portmark.Host
