/-
The walk through a run, third part: a tool decision. The effect ledger is asked first; a launch
happens with the capability armed for the row this run marked, and what the ledger is told
afterwards follows from how far the launch came.
-/
import Portmark.Host.Walk.Gate

namespace Portmark.Host

open Lib Lib.Json Security Code

variable {host : AgentHost} {e : AgentEnvelope} {v : Visit} {l l' : Local} {s s' : Trail}

/-! ## The record during a tool call -/

def Calling (s s' : Trail) : Prop := ∃ effect redeemed, s' = { s with effect, redeemed }

theorem Calling.refl (s : Trail) : Calling s s := ⟨s.effect, s.redeemed, rfl⟩

theorem Calling.active (hs : Calling s s') (h : Active host e v l s) (hl : Going l l') : Active host e v l' s' := by
  obtain ⟨effect, redeemed, rfl⟩ := hs
  exact h.steady hl ⟨rfl, rfl, rfl, rfl, rfl, rfl, rfl, List.Subset.refl _⟩ rfl

theorem Quiet.goes {α : Type} {c : Run α} (hc : Quiet host c) (h : Active host e v l s) :
    Walks host c (Goes host e v) l s := by
  refine (hc l s).mono ?_
  rintro r l' _ ⟨rfl, hsame⟩
  have hactive := h.steady hsame.going (Steady.refl _) rfl
  cases r with
  | ok => exact hactive
  | error => exact hactive.open_

theorem goes_bind {α β : Type} {c : Run α} {f : α → Run β} (hc : Walks host c (Goes host e v) l s)
    (hf : ∀ a l' s', Active host e v l' s' → Walks host (f a) (Goes host e v) l' s') :
    Walks host (c >>= f) (Goes host e v) l s :=
  hc.bind hf fun _ _ _ h => h

/-! ## Before the launch -/

variable {tool : String}

theorem driftRefusal_none {row : EffectRow} {argumentsJson : Text}
    (h : host.driftRefusal row tool argumentsJson = none) : row.tool = tool ∧ row.argumentsJson = argumentsJson := by
  unfold AgentHost.driftRefusal at h
  dsimp only at h
  split at h
  · cases h
  · rename_i hdrift
    simpa [not_or] using hdrift

def Marked (host : AgentHost) (effectId tool : String) (arguments : Value) (s : Trail) : Prop :=
  ∃ argumentsJson, host.canonical arguments = .ok argumentsJson ∧ s.effect = .marked effectId tool argumentsJson

def Asked (host : AgentHost) (effectId tool : String) (arguments : Value) (l : Local) (s : Trail)
    (r : Except Fault AgentHost.PreLaunch) (l' : Local) (s' : Trail) : Prop :=
  l' = l ∧ (∃ effect, s' = { s with effect }) ∧ (r = .ok .run → Marked host effectId tool arguments s')

variable {effectId : String} {arguments : Value}

theorem asked_refl {r : Except Fault AgentHost.PreLaunch}
    (hr : r ≠ .ok .run) : Asked host effectId tool arguments l s r l s :=
  ⟨rfl, ⟨s.effect, rfl⟩, fun h => absurd h hr⟩

theorem Asked.after {effect : Phase} {r : Except Fault AgentHost.PreLaunch}
    (h : Asked host effectId tool arguments l { s with effect } r l' s') :
    Asked host effectId tool arguments l s r l' s' := by
  obtain ⟨hl, ⟨effect, rfl⟩, hmarked⟩ := h
  exact ⟨hl, ⟨effect, rfl⟩, hmarked⟩

theorem meets_resumeEffect {row : EffectRow} (henvelope : s.envelope = some e)
    (hown : OwnEffect host e effectId) (hlooked : s.effect = .looked effectId (some row))
    (hstate : row.state = .prepared ∨ row.state = .confirmed) :
    Walks host (host.resumeEffect row effectId tool arguments)
      (Asked host effectId tool arguments l s) l s := by
  refine meets_lift_bind (fun argumentsJson hjson => ?_) fun _ => asked_refl (by rintro ⟨⟩)
  split
  · exact asked_refl (by rintro ⟨⟩)
  rename_i hdrift
  obtain ⟨htool, hargs⟩ := driftRefusal_none hdrift
  split
  · split
    · exact asked_refl (by rintro ⟨⟩)
    · refine meets_lift_bind (fun _ _ => ?_) fun _ => asked_refl (by rintro ⟨⟩)
      exact asked_refl (by rintro ⟨⟩)
  · rename_i hconfirmed
    have hprepared : row.state = .prepared := hstate.resolve_right hconfirmed
    refine meets_bind.2 (meets_call.2 ⟨⟨e, henvelope, hown, .inr ⟨row, hlooked, hprepared⟩⟩, fun answer _ => ?_⟩)
    cases answer with
    | error => exact asked_refl (by rintro ⟨⟩)
    | ok _ =>
      refine ⟨rfl, ⟨Trail.marks s.effect, rfl⟩, fun _ => ⟨argumentsJson, hjson, ?_⟩⟩
      show Trail.marks s.effect = _
      rw [hlooked, ← htool, ← hargs]
      rfl

theorem meets_effectPreLaunch (taskId : String) (henvelope : s.envelope = some e) (hown : OwnEffect host e effectId) :
    Walks host (host.effectPreLaunch effectId taskId tool arguments)
      (Asked host effectId tool arguments l s) l s := by
  refine meets_bind.2 (meets_call.2 ⟨trivial, fun answer _ => ?_⟩)
  rcases answer with error | row
  · exact asked_refl (by rintro ⟨⟩)
  -- from here on the record shows the row that was read
  suffices h : Walks host _
      (Asked host effectId tool arguments l { s with effect := .looked effectId row }) l
      { s with effect := .looked effectId row } from h.mono fun _ _ _ h => h.after
  cases row with
  | none =>
    refine meets_lift_bind (fun argumentsJson hjson => ?_) fun _ => asked_refl (by rintro ⟨⟩)
    refine meets_bind.2 (meets_call.2 ⟨⟨e, henvelope, hown, rfl⟩, fun answer _ => ?_⟩)
    rcases answer with error | _
    · exact asked_refl (by rintro ⟨⟩)
    refine meets_bind.2 (meets_call.2 ⟨⟨e, henvelope, hown, .inl ⟨tool, argumentsJson, rfl⟩⟩, fun answer _ => ?_⟩)
    rcases answer with error | _
    · exact ⟨rfl, ⟨_, rfl⟩, by rintro ⟨⟩⟩
    · exact ⟨rfl, ⟨_, rfl⟩, fun _ => ⟨argumentsJson, hjson, rfl⟩⟩
  | some row =>
    dsimp only
    split
    · rename_i hstarted
      refine meets_bind.2 (meets_call.2 ⟨⟨e, henvelope, hown, .inl ⟨rfl, row, rfl, hstarted⟩⟩, fun answer _ => ?_⟩)
      rcases answer with error | _
      · exact asked_refl (by rintro ⟨⟩)
      · exact ⟨rfl, ⟨_, rfl⟩, by rintro ⟨⟩⟩
    · rename_i hprepared
      exact meets_resumeEffect henvelope hown rfl (.inl hprepared)
    · rename_i hconfirmed
      exact meets_resumeEffect henvelope hown rfl (.inr hconfirmed)
    · exact asked_refl (by rintro ⟨⟩)

/-! ## The launch -/

structure Launchable (host : AgentHost) (e : AgentEnvelope) (v : Visit) (effectId : Option String) (tool : String)
    (arguments : Value) (l : Local) (s : Trail) : Prop where
  active : Active host e v l s
  approved : host.requiresApproval l.authority.policy tool = true → Approved host v l tool arguments s
  own : ∀ id, effectId = some id → OwnEffect host e id
  marked : ∀ id, effectId = some id → Marked host id tool arguments s

structure Armable (host : AgentHost) (e : AgentEnvelope) (v : Visit) (effectId : Option String) (tool : String)
    (arguments : Value) (capability : Option String) (l : Local) (s : Trail) : Prop where
  active : Active host e v l s
  approved : host.requiresApproval l.authority.policy tool = true → Approved host v l tool arguments s
  own : ∀ id, effectId = some id → OwnEffect host e id
  armed : ∀ id, effectId = some id → ∃ argumentsJson token, s.effect = .armed id tool argumentsJson token ∧
    capability = some token
  bare : effectId = none → capability = none

def Tried (effectId : Option String) (s : Trail) (r : Except Fault Value) : Prop :=
  ∀ id, effectId = some id →
    s.effect = .launched id ∨
    (∃ error tool argumentsJson token, r = .error error ∧ s.effect = .armed id tool argumentsJson token) ∨
    ∃ message, r = .error (.permitExpired message)

variable {effectId : Option String} {tool : String} {arguments : Value} {capability : Option String}

theorem meets_armLaunch (h : Launchable host e v effectId tool arguments l s) :
    Walks host (host.armLaunch effectId tool arguments)
      (fun r l' s' => l' = l ∧ match r with
        | .ok capability => Armable host e v effectId tool arguments capability l s'
        | .error _ => s' = s) l s := by
  rcases effectId with _ | id
  · refine meets_unseen_bind rfl (fun _ => ?_) fun _ => ⟨rfl, rfl⟩
    exact ⟨rfl, h.active, h.approved, h.own, nofun, fun _ => rfl⟩
  obtain ⟨argumentsJson, hjson, hmarked⟩ := h.marked id rfl
  refine meets_lift_bind (fun argumentsJson' hjson' => ?_) fun _ => ⟨rfl, rfl⟩
  rw [hjson] at hjson'
  cases hjson'
  refine meets_bind.2 (meets_call.2 ⟨⟨e, h.active.envelope, h.own id rfl, hmarked⟩, fun answer _ => ?_⟩)
  rcases answer with error | token
  · exact ⟨rfl, rfl⟩
  · refine ⟨rfl, Calling.active ⟨_, _, rfl⟩ h.active (Going.refl l), h.approved, h.own, ?_, by rintro ⟨⟩⟩
    rintro _ ⟨⟩
    exact ⟨argumentsJson, token, rfl, rfl⟩

theorem Armable.tried_error (h : Armable host e v effectId tool arguments capability l s) (error : Fault) :
    Tried effectId s (.error error) := by
  intro id hid
  obtain ⟨argumentsJson, token, harmed, -⟩ := h.armed id hid
  exact .inr (.inl ⟨error, tool, argumentsJson, token, rfl, harmed⟩)

theorem meets_settleIf {state : EffectState} {resultJson : Option Text} {reason : Option String}
    (h : ∀ id, effectId = some id → s.allows host (.settleEffect id state resultJson reason)) :
    Walks host (AgentHost.settleIf effectId state resultJson reason)
      (fun r l' s' => l' = l ∧ Calling s s' ∧ ∀ error, r = .error error → s' = s) l s := by
  cases effectId with
  | none => exact ⟨rfl, Calling.refl s, nofun⟩
  | some id =>
    refine meets_call.2 ⟨h id rfl, fun answer _ => ?_⟩
    rcases answer with error | _
    · exact ⟨rfl, Calling.refl s, fun _ _ => rfl⟩
    · exact ⟨rfl, ⟨_, _, rfl⟩, nofun⟩

/-- The last check of the permit: it passes, or the launch is given up. -/
theorem meets_requireUnexpiredAtLaunch (h : Armable host e v effectId tool arguments capability l s) :
    Walks host (AgentHost.requireUnexpiredAtLaunch effectId)
      (fun r l' s' => l' = l ∧ Calling s s' ∧ (r = .ok () → s' = s) ∧
        ∀ error, r = .error error → Tried effectId s' (.error error)) l s := by
  refine meets_get_bind ?_
  refine Code.Meets.tryCatch (meets_unseen rfl (Q := fun r l' s' => l' = l ∧ s' = s)
    fun _ => ⟨rfl, rfl⟩) ?_ ?_
  · rintro _ l s ⟨rfl, rfl⟩
    exact ⟨rfl, Calling.refl s, fun _ => rfl, nofun⟩
  · rintro error l s ⟨rfl, rfl⟩
    split
    · rename_i message
      have hallows : ∀ id, effectId = some id → s.allows host
          (.settleEffect id .prepared none (some "permit expired before the launch; nothing ran")) := by
        intro id hid
        obtain ⟨argumentsJson, token, harmed, -⟩ := h.armed id hid
        exact ⟨e, h.active.envelope, h.own id hid, .inr (.inl ⟨.inl rfl, tool, argumentsJson, token, harmed⟩)⟩
      refine (meets_settleIf hallows).bind ?_ ?_
      · rintro _ l s' ⟨rfl, hcalling, -⟩
        refine ⟨rfl, hcalling, nofun, ?_⟩
        rintro _ ⟨⟩ id -
        exact .inr (.inr ⟨message, rfl⟩)
      · rintro error l s' ⟨rfl, hcalling, hs'⟩
        refine ⟨rfl, hcalling, nofun, ?_⟩
        rintro _ ⟨⟩
        rw [hs' error rfl]
        exact h.tried_error error
    · refine ⟨rfl, Calling.refl s, nofun, ?_⟩
      rintro _ ⟨⟩
      exact h.tried_error _

/-- The checks of `invoke`: the grants accept the copy, and a side-effecting tool has a capability. -/
theorem checkInvoke_ok {permit : Permit} {checked : Dict}
    (h : host.checkInvoke permit tool arguments capability = .ok checked) :
    host.detachedJson arguments = .ok (.dict checked) ∧ Accepts host.env permit.grants tool checked ∧
      (host.tools.isSideEffecting tool = true → capability.isSome = true) := by
  unfold AgentHost.checkInvoke at h
  cases arguments with
  | dict =>
    dsimp only at h
    split at h
    · rename_i copy hcopy
      split at h
      · cases h
      rename_i grant hgrant
      obtain ⟨-, -, h⟩ := bind_ok_iff.1 h
      obtain ⟨_, hcheck, h⟩ := bind_ok_iff.1 h
      have haccepts : Accepts host.env permit.grants tool copy := by
        refine ⟨grant, List.mem_of_find?_eq_some hgrant, by simpa using List.find?_some hgrant, ?_⟩
        cases hc : checkConstraints host.env copy grant.constraints with
        | ok => rfl
        | error =>
          rw [hc] at hcheck
          cases hcheck
      split at h
      · obtain ⟨-, -, h⟩ := bind_ok_iff.1 h
        split at h
        · cases h
        · rename_i hcapability
          cases h
          exact ⟨hcopy, haccepts, fun _ => Option.isSome_iff_ne_none.2 (by simpa using hcapability)⟩
      · rename_i hside
        cases h
        exact ⟨hcopy, haccepts, fun hs => absurd hs hside⟩
    · cases h
  | _ => cases h

theorem Armable.invokeAllowed {checked : Dict} {argumentsJson : Text}
    (h : Armable host e v effectId tool arguments capability l s)
    (hchecked : host.checkInvoke l.authority.effective tool arguments capability = .ok checked)
    (hjson : host.canonical (.dict checked) = .ok argumentsJson) :
    InvokeAllowed host s e l.authority.effective tool checked argumentsJson capability := by
  obtain ⟨hcopy, haccepts, hside⟩ := checkInvoke_ok hchecked
  refine ⟨h.active.working, h.active.capped, haccepts, hjson, ?_, ?_, by rw [h.active.policy]; rfl⟩
  · intro hs
    cases effectId with
    | none =>
      have := hside hs
      rw [h.bare rfl] at this
      cases this
    | some id =>
      obtain ⟨recorded, token, harmed, hcapability⟩ := h.armed id rfl
      exact ⟨id, recorded, token, harmed, hcapability, h.own id rfl⟩
  · intro policy hpolicy hrequires
    rw [h.active.policy] at hpolicy
    cases hpolicy
    obtain ⟨token, now, hredeemed, happroves⟩ := h.approved hrequires
    rw [h.active.task, h.active.admission] at happroves
    exact ⟨token, now, arguments, hredeemed, hcopy, happroves⟩

theorem meets_invokeTool (h : Armable host e v effectId tool arguments capability l s) :
    Walks host (host.invokeTool tool arguments capability)
      (fun r l' s' => l' = l ∧ Calling s s' ∧ Tried effectId s' r) l s := by
  refine meets_get_bind (meets_lift_bind (fun checked hchecked => ?_)
    fun error => ⟨rfl, Calling.refl s, h.tried_error error⟩)
  refine meets_lift_bind (fun argumentsJson hjson => ?_) fun error => ⟨rfl, Calling.refl s, h.tried_error error⟩
  refine meets_call.2 ⟨⟨e, h.active.envelope, h.invokeAllowed hchecked hjson⟩, fun answer _ => ?_⟩
  have hnext : s.next (.invoke l.authority.effective tool checked argumentsJson capability) answer =
      { s with effect := Trail.launches s.effect, redeemed := none } := by
    cases answer <;> rfl
  rw [hnext]
  refine ⟨rfl, ⟨_, _, rfl⟩, fun id hid => .inl ?_⟩
  obtain ⟨recorded, token, harmed, -⟩ := h.armed id hid
  rw [harmed]
  rfl

theorem meets_disarmLaunch :
    Walks host (AgentHost.disarmLaunch capability) (fun r l' s' => r = .ok () ∧ l' = l ∧ s' = s) l s := by
  cases capability with
  | none => exact ⟨rfl, rfl, rfl⟩
  | some =>
    refine meets_call.2 ⟨trivial, fun answer hanswer => ?_⟩
    cases (show answer = .ok () from hanswer)
    exact ⟨rfl, rfl, rfl⟩

theorem meets_launch (h : Armable host e v effectId tool arguments capability l s) : Walks host
      (Code.finally_ (do AgentHost.requireUnexpiredAtLaunch effectId; host.invokeTool tool arguments capability)
        (AgentHost.disarmLaunch capability))
      (fun r l' s' => l' = l ∧ Calling s s' ∧ Tried effectId s' r) l s := by
  refine Code.Meets.finally (R := fun r l' s' => l' = l ∧ Calling s s' ∧ Tried effectId s' r) ?_ ?_
  rotate_left
  · intro r l' s' hr
    refine meets_disarmLaunch.mono ?_
    rintro _ l' s' ⟨rfl, rfl, rfl⟩
    exact ⟨fun _ => hr, nofun⟩
  refine (meets_requireUnexpiredAtLaunch h).bind ?_ ?_
  · rintro _ l s' ⟨rfl, -, hs', -⟩
    rw [hs' rfl]
    exact meets_invokeTool h
  · rintro error l s' ⟨rfl, hcalling, -, htried⟩
    exact ⟨rfl, hcalling, htried error rfl⟩

theorem meets_toolFailure {error : Fault} (h : Active host e v l s)
    (hown : ∀ id, effectId = some id → OwnEffect host e id) (htried : Tried effectId s (.error error)) :
    Walks host (host.toolFailure effectId tool arguments error) (Goes host e v) l s := by
  have hsettle : (∀ message, error ≠ .permitExpired message) → ∀ reason,
      Walks host (AgentHost.settleIf effectId .unknown none reason) (Goes host e v) l s := by
    intro hexpired reason
    refine (meets_settleIf fun id hid => ?_).mono ?_
    · obtain hlaunched | ⟨_, tool, argumentsJson, token, -, harmed⟩ | ⟨message, hr⟩ := htried id hid
      · exact ⟨e, h.envelope, hown id hid, .inr (.inr ⟨.inl rfl, hlaunched⟩)⟩
      · exact ⟨e, h.envelope, hown id hid, .inr (.inl ⟨.inr rfl, tool, argumentsJson, token, harmed⟩)⟩
      · cases hr
        exact absurd rfl (hexpired message)
    · rintro r l s' ⟨rfl, hcalling, -⟩
      have hactive := hcalling.active h (Going.refl l)
      cases r with
      | ok => exact hactive
      | error => exact hactive.open_
  unfold AgentHost.toolFailure
  split
  · refine goes_bind (hsettle (by rintro _ ⟨⟩) _) fun _ l' s' h' => Quiet.goes ?_ h'
    exact (quiet_setFailed _).bind fun _ => (quiet_record _ _).bind fun _ => quiet_record _ _
  · refine goes_bind (hsettle (by rintro _ ⟨⟩) _) fun _ l' s' h' => Quiet.goes ?_ h'
    exact (quiet_setFailed _).bind fun _ => (quiet_record _ _).bind fun _ => quiet_record _ _
  · exact h.open_

/-- The launch with its failures: a result comes with a launched effect. -/
theorem meets_launch_tryCatch (h : Armable host e v effectId tool arguments capability l s) : Walks host
      (tryCatch (some <$> Code.finally_
          (do AgentHost.requireUnexpiredAtLaunch effectId; host.invokeTool tool arguments capability)
          (AgentHost.disarmLaunch capability)) fun error => do
        host.toolFailure effectId tool arguments error
        return none)
      (fun r l' s' => Goes host e v r l' s' ∧ ∀ result, r = .ok (some result) →
        ∀ id, effectId = some id → s'.effect = .launched id) l s := by
  have hsome : Walks host
      (some <$> Code.finally_
        (do AgentHost.requireUnexpiredAtLaunch effectId; host.invokeTool tool arguments capability)
        (AgentHost.disarmLaunch capability))
      (fun r l' s' => l' = l ∧ Calling s s' ∧ match r with
        | .ok _ => ∀ id, effectId = some id → s'.effect = .launched id
        | .error error => Tried effectId s' (.error error)) l s := by
    refine (meets_launch h).bind ?_ ?_
    · rintro result l s' ⟨rfl, hcalling, htried⟩
      refine ⟨rfl, hcalling, fun id hid => ?_⟩
      obtain hlaunched | ⟨_, _, _, _, hr, -⟩ | ⟨_, hr⟩ := htried id hid
      · exact hlaunched
      · cases hr
      · cases hr
    · rintro error l s' ⟨rfl, hcalling, htried⟩
      exact ⟨rfl, hcalling, htried⟩
  refine hsome.tryCatch ?_ ?_
  · rintro outcome l s' ⟨rfl, hcalling, hlaunched⟩
    exact ⟨hcalling.active h.active (Going.refl l), fun _ _ => hlaunched⟩
  · rintro error l s' ⟨rfl, hcalling, htried⟩
    have hactive := hcalling.active h.active (Going.refl l)
    refine (meets_toolFailure hactive h.own htried).bind ?_ ?_
    · intro _ l' s' h'
      exact ⟨h', by rintro _ ⟨⟩⟩
    · intro error l' s' h'
      exact ⟨h', nofun⟩

theorem meets_launchTool (h : Launchable host e v effectId tool arguments l s) :
    Walks host (host.launchTool effectId tool arguments) (Goes host e v) l s := by
  refine (meets_armLaunch h).bind ?_ ?_
  · rintro capability l s' ⟨rfl, harm⟩
    refine (meets_launch_tryCatch harm).bind ?_ ?_
    · rintro outcome l' s' ⟨hactive, hlaunched⟩
      rcases outcome with _ | result
      · exact hactive
      have hsettles : ∀ state resultJson reason, state = .unknown ∨ state = .confirmed → ∀ id, effectId = some id →
          s'.allows host (.settleEffect id state resultJson reason) := by
        intro state resultJson reason hstate id hid
        exact ⟨e, hactive.envelope, harm.own id hid, .inr (.inr ⟨hstate, hlaunched result rfl id hid⟩)⟩
      dsimp only
      split
      · cases effectId with
        | none => exact hactive
        | some id =>
          refine meets_lift_bind (fun resultJson _ => ?_) fun _ => hactive.open_
          refine meets_bind.2 (meets_call.2 ⟨hsettles _ _ _ (.inr rfl) id rfl, fun answer _ => ?_⟩)
          rcases answer with error | _
          · exact hactive.open_
          · exact Calling.active ⟨_, _, rfl⟩ hactive (Going.refl l')
      · refine (meets_settleIf (hsettles _ _ _ (.inl rfl))).bind ?_ ?_
        · rintro _ l' s'' ⟨rfl, hcalling, -⟩
          refine Quiet.goes ?_ (hcalling.active hactive (Going.refl l'))
          exact (quiet_failUnserializable _ _ _).bind fun _ => quiet_pure _
        · rintro _ l' s'' ⟨rfl, hcalling, -⟩
          exact (hcalling.active hactive (Going.refl l')).open_
    · rintro error l' s' ⟨hopen, -⟩
      exact hopen
  · rintro error l s' ⟨rfl, rfl⟩
    exact h.active.open_

/-! ## A tool decision -/

theorem meets_recordToolResult (tool : String) (result : Value) :
    Walks host (AgentHost.recordToolResult tool result) (fun _ l' s' => s' = s ∧ Going l l') l s := by
  refine meets_bind.2 (meets_setState (meets_get_bind ?_))
  split
  · split
    · refine meets_bind.2 (meets_setState ?_)
      dsimp only
      split
      · exact meets_setState ⟨rfl, ⟨rfl, rfl, rfl⟩, id⟩
      · exact ⟨rfl, ⟨rfl, rfl, rfl⟩, id⟩
    · exact ⟨rfl, ⟨rfl, rfl, rfl⟩, id⟩
  · exact ⟨rfl, ⟨rfl, rfl, rfl⟩, id⟩

theorem meets_recordToolResult_goes {α : Type} {rest : Run α} (h : Active host e v l s) (hrest : Quiet host rest)
    (tool : String) (result : Value) :
    Walks host (do AgentHost.recordToolResult tool result; rest) (Goes host e v) l s := by
  refine (meets_recordToolResult tool result).bind ?_ ?_
  · rintro _ l' s ⟨rfl, hgoing⟩
    exact hrest.goes (h.steady hgoing (Steady.refl s) rfl)
  · rintro _ l' s ⟨rfl, hgoing⟩
    exact (h.steady hgoing (Steady.refl s) rfl).open_

theorem meets_replayTool (h : Active host e v l s) (effectId tool : String) (arguments result : Value) :
    Walks host (host.replayTool effectId tool arguments result) (Goes host e v) l s := by
  refine meets_get_bind ?_
  dsimp only
  split
  · split
    · exact meets_recordToolResult_goes h ((quiet_record _ _).bind fun _ => quiet_pure _) _ _
    · exact Quiet.goes ((quiet_failUnserializable _ _ _).bind fun _ => quiet_pure _) h
  · exact Quiet.goes ((quiet_failUnserializable _ _ _).bind fun _ => quiet_pure _) h

theorem meets_executeTool (h : Launchable host e v effectId tool arguments l s) :
    Walks host (host.executeTool effectId tool arguments) (Goes host e v) l s := by
  refine goes_bind (meets_launchTool h) fun result l' s' h' => ?_
  cases result with
  | none => exact h'
  | some => exact meets_recordToolResult_goes h' ((quiet_record _ _).bind fun _ => quiet_pure _) _ _

theorem meets_ledgerTool (h : Active host e v l s)
    (happroved : host.requiresApproval l.authority.policy tool = true → Approved host v l tool arguments s) :
    Walks host (host.ledgerTool tool arguments) (Goes host e v) l s := by
  refine meets_get_bind ?_
  split
  · refine meets_unseen_bind rfl (fun _ => ?_) fun _ => h.open_
    have hown : OwnEffect host e (host.effectId l.state.taskId l.state.toolCalls) := ⟨l.state.toolCalls, by rw [h.task]⟩
    refine (meets_effectPreLaunch l.state.taskId h.envelope hown).bind ?_ ?_
    · rintro before l s' ⟨rfl, ⟨effect, rfl⟩, hmarked⟩
      have hactive : Active host e v l { s with effect } := Calling.active ⟨effect, s.redeemed, rfl⟩ h (Going.refl l)
      cases before with
      | refuse => exact Quiet.goes ((quiet_effectRefused _ _ _).bind fun _ => quiet_pure _) hactive
      | replay => exact meets_replayTool hactive _ _ _ _
      | run =>
        refine meets_executeTool ⟨hactive, happroved, ?_, ?_⟩
        · rintro _ ⟨⟩
          exact hown
        · rintro _ ⟨⟩
          exact hmarked rfl
    · rintro error l s' ⟨rfl, ⟨effect, rfl⟩, -⟩
      exact (Calling.active ⟨effect, s.redeemed, rfl⟩ h (Going.refl l)).open_
  · exact meets_executeTool ⟨h, happroved, nofun, nofun⟩

theorem Approved.same (h : Approved host v l tool arguments s) (hl : Same l l') :
    Approved host v l' tool arguments s := by
  unfold Approved
  rw [hl.authority, hl.taskId]
  exact h

theorem meets_applyTool (h : Active host e v l s) (decision : ProviderDecision) :
    Walks host (host.applyTool v decision) (Goes host e v) l s := by
  refine meets_get_bind (meets_lift_bind (fun tool _ => ?_) fun _ => h.open_)
  refine (meets_approvalGate h tool decision.arguments).bind ?_ ?_
  · rintro passed l₁ s₁ ⟨hgated, hpassed⟩
    have h₁ := hgated.active h
    split
    · rename_i hpass
      -- nothing between the gate and the ledger touches the record
      refine (quiet_cancelledBeforeLaunch tool l₁ s₁).bind ?_ ?_
      · rintro cancelled l₂ s₁ ⟨rfl, hsame⟩
        have h₂ := h₁.steady hsame.going (Steady.refl s₁) rfl
        split
        · exact Quiet.goes ((quiet_approvalFailure _ _).bind fun _ => quiet_pure _) h₂
        refine meets_unseen_bind rfl (fun _ => ?_) fun _ => h₂.open_
        refine meets_ledgerTool h₂ fun hrequires => ?_
        have hall := hgated.same.trans hsame
        rw [hall.authority] at hrequires
        exact (hpassed (by rw [hpass]) hrequires).same hall
      · rintro error l₂ s₁ ⟨rfl, hsame⟩
        exact (h₁.steady hsame.going (Steady.refl s₁) rfl).open_
    · exact h₁
  · rintro error l₁ s₁ ⟨hgated, -⟩
    exact (hgated.active h).open_

end Portmark.Host
