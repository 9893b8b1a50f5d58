/-
What can be read off the calls of one run: which policy is in force, what the checkpoint load
found, how far the effect ledger has come, whether an approval was redeemed, what was saved. A
`Trail` is that record; `Trail.allows` says which call a run may make next. The claims about
interleaved runs rest on this one description of a single run.
-/
import Portmark.Host.Reload
import Portmark.Host.System

namespace Portmark.Host

open Lib Lib.Json Security

/-! ## The record of a run -/

inductive Phase where
  | idle
  | looked (effectId : String) (row : Option EffectRow)
  | bound (effectId tool : String) (argumentsJson : Text)
  | marked (effectId tool : String) (argumentsJson : Text)
  | armed (effectId tool : String) (argumentsJson : Text) (capability : String)
  | launched (effectId : String)

structure Trail where
  envelope : Option AgentEnvelope
  policies : List HostPolicy
  policy : Option ActivePolicy
  receipt : Option MigrationReceipt
  loaded : Option (Option AgentState)
  ceiling : Option Text
  asked : Bool
  head : Option (Option (String × Int))
  generation : Int
  saved : Bool
  effect : Phase
  redeemed : Option ApprovalToken

namespace Trail

/-- The policy in force after the loader returned `fresh`. -/
def adopt (policy : Option ActivePolicy) (fresh : HostPolicy) : ActivePolicy :=
  match policy with
  | none => .plain fresh
  | some policy => if policy.isCurrent fresh then policy else .reloaded policy fresh

/-- The phase after `mark_effect_started`. -/
def marks : Phase → Phase
  | .bound effectId tool argumentsJson => .marked effectId tool argumentsJson
  | .looked effectId (some row) => .marked effectId row.tool row.argumentsJson
  | phase => phase

/-- The phase after `invoke`, whatever the tool did. -/
def launches : Phase → Phase
  | .armed effectId _ _ _ => .launched effectId
  | phase => phase

def returned (s : Trail) : (op : Op) → Result op → Trail
  | .loadPolicy, fresh =>
    let fresh : HostPolicy := fresh
    { s with policies := s.policies ++ [fresh], policy := some (adopt s.policy fresh), redeemed := none }
  | .getMigrationReceipt _, receipt => if s.loaded.isNone then { s with receipt } else s
  | .loadCheckpoint _, stored => { s with loaded := some stored }
  | .loadAuthorityCeiling _, ceiling => { s with ceiling, asked := true }
  | .auditHead _, head => { s with head := some head }
  | .redeem token _ _, .redeemed => { s with redeemed := some token }
  | .getEffect effectId, row => { s with effect := .looked effectId row }
  | .recordEffectPrepared effectId _ tool argumentsJson, _ => { s with effect := .bound effectId tool argumentsJson }
  | .markEffectStarted _, _ => { s with effect := marks s.effect }
  | .settleEffect _ _ _ _, _ => { s with effect := .idle }
  | .arm effectId tool argumentsJson, capability => { s with effect := .armed effectId tool argumentsJson capability }
  | .invoke _ _ _ _ _, _ => { s with effect := launches s.effect, redeemed := none }
  | .save _, generation => { s with generation, saved := true }
  | _, _ => s

def raised (s : Trail) : Op → Trail
  | .invoke _ _ _ _ _ => { s with effect := launches s.effect, redeemed := none }
  | _ => s

def next (s : Trail) (op : Op) : Answer op → Trail
  | .ok result => s.returned op result
  | .error _ => s.raised op

def start (host : AgentHost) : Job → Trail
  | .run _ envelope =>
    { envelope := some envelope, policies := if host.reloadPolicy then [] else [host.policy],
      policy := if host.reloadPolicy then none else some (.plain host.policy), receipt := none, loaded := none,
      ceiling := none, asked := false, head := none, generation := envelope.state.checkpointGeneration, saved := false,
      effect := .idle, redeemed := none }
  | .reconcile _ _ _ =>
    { envelope := none, policies := [], policy := none, receipt := none, loaded := none, ceiling := none,
      asked := false, head := none, generation := 0, saved := false, effect := .idle, redeemed := none }

end Trail

/-! ## Authority -/

def AuthorityCeiling.over (ceiling : AuthorityCeiling) (permit : Permit) : Permit :=
  { permit with grants := ceiling.grants, budget := ceiling.budget, expiresAt := ceiling.expiresAt }

structure SoundInputs (host : AgentHost) (s : Trail) (e : AgentEnvelope) : Prop where
  permit : ∀ g ∈ e.permit.grants, WellFormed host.env g
  policies : ∀ p ∈ s.policies, ∀ g ∈ p.declared, WellFormed host.env g
  ceiling : ∀ text ceiling, s.ceiling = some text → readCeiling text = .ok ceiling → Settled host.env ceiling.grants

structure Capped (host : AgentHost) (s : Trail) (e : AgentEnvelope) (effective : Permit) : Prop where
  settled : SoundInputs host s e → Settled host.env effective.grants
  component : ∀ text, s.ceiling = some text → ∃ ceiling, readCeiling text = .ok ceiling ∧
    e.manifest.provider = ceiling.provider ∧ e.manifest.componentDigest = ceiling.componentDigest
  below : SoundInputs host s e → ∀ text ceiling, s.ceiling = some text → readCeiling text = .ok ceiling →
    Below host.env effective (ceiling.over effective)

/-! ## What a run may do -/

def OwnEffect (host : AgentHost) (e : AgentEnvelope) (effectId : String) : Prop :=
  ∃ toolCalls, effectId = host.effectId e.storedTaskId toolCalls

structure Working (s : Trail) : Prop where
  saved : s.saved = true
  receipt : s.receipt = none

structure SaveAllowed (host : AgentHost) (s : Trail) (e : AgentEnvelope) (sv : Save) : Prop where
  receipt : s.receipt = none
  loaded : s.loaded.isSome = true
  asked : ∀ stored, s.loaded = some (some stored) → s.asked = true
  task : sv.taskId = e.storedTaskId
  generation : sv.state.checkpointGeneration = s.generation
  owner : sv.owner = some (e.permit.issuer, e.permit.subject)
  migrated : sv.migrated = e.migrates
  nonce : s.saved = false → s.loaded = some none → sv.nonce = some (AgentHost.permitNonceRow e)
  noNonce : s.saved = true ∨ (∃ stored, s.loaded = some (some stored)) → sv.nonce = none
  counters : s.saved = false → ∀ stored, s.loaded = some (some stored) →
    sv.state.step = stored.step ∧ sv.state.toolCalls = stored.toolCalls
  fresh : s.saved = false → s.loaded = some none → AgentHost.checkFresh e = .ok ()
  capped : Capped host s e sv.effective
  column : if e.migrates then ∃ text, host.authorityCeilingJson sv.effective e.manifest = .ok text ∧
      sv.authorityCeiling = some text
    else sv.authorityCeiling = none
  outcome : sv.migration.isSome = true ↔ sv.closed = true ∧ sv.state.status = .ready
  stays : sv.migration.isSome = true → s.ceiling = none
  sealedFresh : ∀ destination text, sv.migration = some (destination, text) →
    ∃ migrated : AgentEnvelope, host.canonical migrated.asdict = .ok text ∧ migrated.permit.audience = destination ∧
      migrated.state.checkpointGeneration = 0
  issues : s.saved = false → s.loaded = some none → s.head = some none → e.migrates = true → sv.binding.isSome = true
  binding : ∀ binding, sv.binding = some binding → s.saved = false ∧ e.migrates = true ∧
    binding.originalTaskId = e.state.taskId ∧ binding.sourceHostId = e.previousAuditHostId ∧
    binding.permitNonce = e.permit.nonce ∧ host.migrationEnvelopeDigest e = .ok binding.envelopeDigest

structure InvokeAllowed (host : AgentHost) (s : Trail) (e : AgentEnvelope) (permit : Permit) (tool : String)
    (arguments : Dict) (argumentsJson : Text) (capability : Option String) : Prop where
  working : Working s
  capped : Capped host s e permit
  accepted : Accepts host.env permit.grants tool arguments
  canonical : host.canonical (.dict arguments) = .ok argumentsJson
  armed : host.tools.isSideEffecting tool = true → ∃ effectId recorded token,
    s.effect = .armed effectId tool recorded token ∧ capability = some token ∧ OwnEffect host e effectId
  approved : ∀ policy, s.policy = some policy → host.requiresApproval policy tool = true →
    ∃ token now proposed, s.redeemed = some token ∧ host.detachedJson proposed = .ok (.dict arguments) ∧
      Approves host policy.current token permit e.storedTaskId tool proposed
        ((s.loaded.bind id).elim 0 (·.checkpointGeneration)) now
  policy : s.policy.isSome = true

def Trail.allows (host : AgentHost) (s : Trail) : Op → Prop
  | .save sv => ∃ e, s.envelope = some e ∧ SaveAllowed host s e sv
  | .decide provider effective _ => ∃ e, s.envelope = some e ∧ Working s ∧ Capped host s e effective ∧
      provider = e.manifest.provider
  | .invoke permit tool arguments argumentsJson capability => ∃ e, s.envelope = some e ∧
      InvokeAllowed host s e permit tool arguments argumentsJson capability
  | .redeem _ _ taskId => ∃ e, s.envelope = some e ∧ taskId = e.storedTaskId ∧ Working s
  | .replaceMigrationReceipt taskId receipt => ∃ e existing, s.envelope = some e ∧ s.receipt = some existing ∧
      taskId = e.storedTaskId ∧ receipt.bindings = { existing.bindings with destinationHostId := host.hostId }
  | .loadCheckpoint taskId => ∃ e, s.envelope = some e ∧ taskId = e.storedTaskId ∧ s.loaded = none
  | .loadAuthorityCeiling taskId => ∃ e, s.envelope = some e ∧ taskId = e.storedTaskId ∧
    ∃ stored, s.loaded = some (some stored)
  | .auditHead taskId => ∃ e, s.envelope = some e ∧ taskId = e.storedTaskId ∧ s.saved = false
  | .getMigrationReceipt taskId => ∃ e, s.envelope = some e ∧ taskId = e.storedTaskId
  | .recordEffectPrepared effectId _ _ _ => ∃ e, s.envelope = some e ∧ OwnEffect host e effectId ∧
      s.effect = .looked effectId none
  | .markEffectStarted effectId => ∃ e, s.envelope = some e ∧ OwnEffect host e effectId ∧
      ((∃ tool argumentsJson, s.effect = .bound effectId tool argumentsJson) ∨
        ∃ row, s.effect = .looked effectId (some row) ∧ row.state = .prepared)
  | .settleEffect effectId state _ _ => ∃ e, s.envelope = some e ∧ OwnEffect host e effectId ∧
      ((state = .unknown ∧ ∃ row, s.effect = .looked effectId (some row) ∧ row.state = .started) ∨
        ((state = .prepared ∨ state = .unknown) ∧
          ∃ tool argumentsJson token, s.effect = .armed effectId tool argumentsJson token) ∨
        ((state = .unknown ∨ state = .confirmed) ∧ s.effect = .launched effectId))
  | .arm effectId tool argumentsJson => ∃ e, s.envelope = some e ∧ OwnEffect host e effectId ∧
      s.effect = .marked effectId tool argumentsJson
  | .settleEffectFromClaim _ _ state _ _ => state = .confirmed ∨ state = .reconciled
  | .verifyMigration _ _ _ => s.ceiling = none
  | _ => True

/-- Only a save raises the cancellation of a task, and `disarm` does not raise. -/
def answersOf : (op : Op) → Answer op → Prop
  | .save _, _ => True
  | .disarm _, answer => answer = .ok ()
  | _, answer => answer ≠ .error .taskCancelled

def watcher (host : AgentHost) : Monitor Answer where
  State := Trail
  next := Trail.next
  allows := Trail.allows host
  answers := answersOf

end Portmark.Host
