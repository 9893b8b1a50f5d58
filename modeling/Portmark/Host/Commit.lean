/-
What a committed save has done: one record of every table it checked and changed. The proofs
about runs read a save through it and never unfold the transaction.
-/
import Portmark.Host.Chain

namespace Portmark.Host

open Lib Lib.Json Security Bool

inductive RowSaved (store : Store) (s : Save) : Int → CheckpointRow → Prop
  | created (habsent : store.checkpoints s.taskId = none) (hgeneration : s.state.checkpointGeneration = 0) :
      RowSaved store s 1 ⟨1, s.closed, { s.state with checkpointGeneration := 1 }, s.owner, s.authorityCeiling⟩
  | replaced {row : CheckpointRow} (hrow : store.checkpoints s.taskId = some row) (hopen : row.closed = false)
      (hgeneration : row.generation = s.state.checkpointGeneration) (howner : row.owner = s.owner) :
      RowSaved store s (s.state.checkpointGeneration + 1)
        ⟨s.state.checkpointGeneration + 1, s.closed,
          { s.state with checkpointGeneration := s.state.checkpointGeneration + 1 }, row.owner, row.authorityCeiling⟩

inductive NonceSaved (store : Store) (s : Save) : (String → Option NonceRow) → Prop
  | kept (hnone : s.nonce = none) : NonceSaved store s store.nonces
  | consumed {nonce : String} {row : NonceRow} (hnonce : s.nonce = some (nonce, row))
      (hhistory : s.migrated = true ∨ Assoc.get? store.auditHeads s.taskId = none)
      (habsent : store.nonces nonce = none) : NonceSaved store s (Function.update store.nonces nonce (some row))

inductive OutboxSaved (store : Store) (s : Save) : (String → Option OutboxRow) → Prop
  | kept (hnone : s.migration = none ∨ s.closed = false) : OutboxSaved store s store.outbox
  | found {destination : String} {sealedEnvelope : Text} {row : OutboxRow}
      (hmigration : s.migration = some (destination, sealedEnvelope)) (hclosed : s.closed = true)
      (hcancelled : store.cancelled s.taskId = false) (hrow : store.outbox s.taskId = some row)
      (hsealed : row.sealedEnvelope = sealedEnvelope) (hdestination : row.destination = destination) :
      OutboxSaved store s store.outbox
  | enqueued {destination : String} {sealedEnvelope : Text}
      (hmigration : s.migration = some (destination, sealedEnvelope)) (hclosed : s.closed = true)
      (hcancelled : store.cancelled s.taskId = false) (habsent : store.outbox s.taskId = none) :
      OutboxSaved store s (Function.update store.outbox s.taskId
        (some ⟨destination, sealedEnvelope, .pending, 0, none, none, none, none, none⟩))

def ReceiptBinding.bindings (binding : ReceiptBinding) (host : AgentHost) (auditHead : String)
    (generation signedAt : Int) : ReceiptBindings :=
  { taskId := binding.originalTaskId, sourceHostId := binding.sourceHostId, destinationHostId := host.hostId,
    permitNonce := binding.permitNonce, envelopeDigest := binding.envelopeDigest,
    destinationCheckpointGeneration := generation, destinationAuditHead := auditHead, acceptedAt := signedAt }

inductive ReceiptSaved (host : AgentHost) (store : Store) (s : Save) (generation signedAt : Int) :
    (String → Option MigrationReceipt) → Prop
  | kept (hnone : s.binding = none ∨ (store.receipts s.taskId).isSome) :
      ReceiptSaved host store s generation signedAt store.receipts
  | issued {binding : ReceiptBinding} (hbinding : s.binding = some binding) (habsent : store.receipts s.taskId = none) :
      ReceiptSaved host store s generation signedAt (Function.update store.receipts s.taskId
        (some ⟨binding.bindings host s.auditHead generation signedAt, binding.destinationAttestation,
          host.signMigrationReceipt (binding.bindings host s.auditHead generation signedAt)
            binding.destinationAttestation⟩))

structure Saved (host : AgentHost) (store : Store) (s : Save) (signedAt generation : Int) (store' : Store) : Prop where
  live : s.closed = false → store.cancelled s.taskId = false
  checkpoint : ∃ row, RowSaved store s generation row ∧
    store'.checkpoints = Function.update store.checkpoints s.taskId (some row)
  nonces : NonceSaved store s store'.nonces
  outbox : OutboxSaved store s store'.outbox
  receipts : ReceiptSaved host store s generation signedAt store'.receipts
  chain : Extends s.taskId s.events store store'
  headed : store.Headed → store'.Headed
  cancelled : store'.cancelled = store.cancelled
  effects : store'.effects = store.effects
  floorMarkers : store'.floorMarkers = store.floorMarkers

namespace Store

variable {store store' : Store} {s : Save}

theorem saveNonce_ok (h : store.saveNonce s = .ok store') :
    NonceSaved store s store'.nonces ∧ ∃ nonces, store' = { store with nonces := nonces } := by
  unfold saveNonce at h
  split at h
  · next hnone =>
    obtain rfl := Except.ok.inj h
    exact ⟨.kept hnone, _, rfl⟩
  · next nonce row hnonce =>
    obtain ⟨_, hrequire, h⟩ := bind_ok_iff.1 h
    have hhistory := or_eq_true_iff.1 (require_ok_iff.1 hrequire)
    rw [not_eq_true', Assoc.contains, Option.isSome_eq_false_iff, Option.isNone_iff_eq_none] at hhistory
    unfold consumeNonce at h
    split at h
    · cases h
    · next habsent =>
      obtain rfl := Except.ok.inj h
      exact ⟨.consumed hnonce hhistory habsent, _, rfl⟩

theorem checkOwner_ok {stored asserted : Option (String × String)} (h : checkOwner stored asserted = .ok ()) :
    stored = asserted := by
  unfold checkOwner at h
  split_ifs at h with heq
  · exact heq

theorem saveCheckpoint_ok {generation : Int}
    (h : store.saveCheckpoint s.taskId s.state s.state.checkpointGeneration s.closed s.owner s.authorityCeiling =
      .ok (generation, store')) : (s.closed = false → store.cancelled s.taskId = false) ∧
    ∃ row, RowSaved store s generation row ∧
      store' = { store with checkpoints := Function.update store.checkpoints s.taskId (some row) } := by
  unfold saveCheckpoint at h
  split at h
  · cases h
  next hlive =>
  have hopen : s.closed = false → store.cancelled s.taskId = false := by
    intro hclosed
    simpa [hclosed] using hlive
  split at h
  · next habsent =>
    obtain ⟨_, hgeneration, h⟩ := bind_ok_iff.1 h
    have hgeneration := of_decide_eq_true (require_ok_iff.1 hgeneration)
    obtain ⟨rfl, rfl⟩ := Prod.mk.inj (Except.ok.inj h)
    exact ⟨hopen, _, .created habsent hgeneration, rfl⟩
  · next row hrow =>
    obtain ⟨_, hclosed, h⟩ := bind_ok_iff.1 h
    obtain ⟨_, hgeneration, h⟩ := bind_ok_iff.1 h
    obtain ⟨_, howner, h⟩ := bind_ok_iff.1 h
    have hclosed := not_eq_true' _ ▸ require_ok_iff.1 hclosed
    have hgeneration := of_decide_eq_true (require_ok_iff.1 hgeneration)
    obtain ⟨rfl, rfl⟩ := Prod.mk.inj (Except.ok.inj h)
    exact ⟨hopen, _, .replaced hrow hclosed hgeneration (checkOwner_ok howner), rfl⟩

theorem saveReceipt_eq (host : AgentHost) (store : Store) (s : Save) (generation signedAt : Int) :
    ReceiptSaved host store s generation signedAt (store.saveReceipt host s generation signedAt).receipts ∧
    ∃ receipts, store.saveReceipt host s generation signedAt = { store with receipts := receipts } := by
  unfold saveReceipt
  split
  · next hnone => exact ⟨.kept (.inl hnone), _, rfl⟩
  next binding hbinding =>
  unfold storeMigrationReceipt
  split
  · next receipt hreceipt => exact ⟨.kept (.inr (by rw [hreceipt]; rfl)), _, rfl⟩
  · next habsent => exact ⟨.issued hbinding habsent, _, rfl⟩

theorem saveMigration_ok {env : Env} (h : store.saveMigration env s = .ok store') :
    OutboxSaved store s store'.outbox ∧ ∃ outbox, store' = { store with outbox := outbox } := by
  unfold saveMigration at h
  split at h
  · next destination sealedEnvelope hmigration =>
    split at h
    · next hclosed =>
      unfold enqueueMigration at h
      split at h
      · cases h
      next hcancelled =>
      have hcancelled := eq_false_iff.2 hcancelled
      split at h
      · next row hrow =>
        split_ifs at h with hsame
        obtain rfl := Except.ok.inj h
        exact ⟨.found hmigration hclosed hcancelled hrow hsame.1 hsame.2, _, rfl⟩
      · next habsent =>
        obtain rfl := Except.ok.inj h
        exact ⟨.enqueued hmigration hclosed hcancelled habsent, _, rfl⟩
    · next hopen =>
      obtain rfl := Except.ok.inj h
      exact ⟨.kept (.inr (eq_false_iff.2 hopen)), _, rfl⟩
  · next hnone =>
    obtain rfl := Except.ok.inj h
    exact ⟨.kept (.inl hnone), _, rfl⟩

theorem advanceTimeFloor_eq (store : Store) (now : Int) :
    ∃ timeFloor, store.advanceTimeFloor now = { store with timeFloor := timeFloor } := by
  unfold advanceTimeFloor
  split
  · exact ⟨_, rfl⟩
  · exact ⟨_, rfl⟩

inductive Redeems (store : Store) (nonce : String) (row : NonceRow) (taskId : String) :
    Except Fault (Redemption × Store) → Prop
  | refused (message : String) (hused : (store.nonces nonce).isSome = true) :
      Redeems store nonce row taskId (.error (.security message))
  | cancelled (habsent : store.nonces nonce = none) (hcancelled : store.cancelled taskId = true) :
      Redeems store nonce row taskId (.ok (.cancelled, store))
  | redeemed (timeFloor : Int) (habsent : store.nonces nonce = none) (hlive : store.cancelled taskId = false) :
      Redeems store nonce row taskId
        (.ok (.redeemed, { store with nonces := Function.update store.nonces nonce (some row), timeFloor }))

theorem redeem_cases (store : Store) (nonce : String) (row : NonceRow) (taskId : String) (now : Int) :
    Redeems store nonce row taskId (store.redeem nonce row taskId now) := by
  unfold redeem consumeNonce
  cases hnonce : store.nonces nonce with
  | some => exact .refused _ (by rw [hnonce]; rfl)
  | none =>
    obtain ⟨timeFloor, htime⟩ :=
      advanceTimeFloor_eq { store with nonces := Function.update store.nonces nonce (some row) } now
    show Redeems store nonce row taskId (if (advanceTimeFloor _ now).cancelled taskId = true then _ else _)
    rw [htime]
    cases hcancelled : store.cancelled taskId with
    | true =>
      exact .cancelled hnonce hcancelled
    | false =>
      exact .redeemed timeFloor hnonce hcancelled

/-- The one inversion lemma of the transaction. -/
theorem save_ok {host : AgentHost} {signedAt generation : Int}
    (h : store.save host s signedAt = .ok (generation, store')) : Saved host store s signedAt generation store' := by
  obtain ⟨store1, h1, h⟩ := bind_ok_iff.1 h
  obtain ⟨store2, h2, h⟩ := bind_ok_iff.1 h
  obtain ⟨⟨generation3, store3⟩, h3, h⟩ := bind_ok_iff.1 h
  obtain ⟨store4, h4, h⟩ := bind_ok_iff.1 h
  obtain ⟨rfl, rfl⟩ := Prod.mk.inj (Except.ok.inj h)
  obtain ⟨hnonces, nonces, rfl⟩ := saveNonce_ok h1
  obtain ⟨timeFloor, htime⟩ := advanceTimeFloor_eq { store with nonces := nonces } signedAt
  rw [htime] at h2
  have hheaded : store.Headed → store2.Headed := by
    intro hh
    refine appendAuditEvents_headed ?_ h2
    exact hh
  obtain ⟨hchain, chains, heads, rfl⟩ := appendAuditEvents_ok h2
  obtain ⟨hlive, row, hrow, rfl⟩ := saveCheckpoint_ok h3
  obtain ⟨hreceipts, receipts, hreceipt⟩ := saveReceipt_eq host
    { store with
      nonces, timeFloor, auditEvents := chains, auditHeads := heads
      checkpoints := Function.update store.checkpoints s.taskId (some row) } s generation3 signedAt
  rw [hreceipt] at hreceipts h4
  obtain ⟨houtbox, outbox, rfl⟩ := saveMigration_ok h4
  -- each part read only tables that the parts before it had not written
  refine ⟨hlive, ⟨row, ?_, rfl⟩, hnonces, ?_, ?_, ⟨hchain.own, hchain.others⟩, hheaded, rfl, rfl, rfl⟩
  · cases hrow with
    | created habsent hgeneration => exact .created habsent hgeneration
    | replaced hrow hopen hgeneration howner => exact .replaced hrow hopen hgeneration howner
  · cases houtbox with
    | kept hnone => exact .kept hnone
    | found hmigration hclosed hcancelled hrow hsealed hdestination =>
      exact .found hmigration hclosed hcancelled hrow hsealed hdestination
    | enqueued hmigration hclosed hcancelled habsent => exact .enqueued hmigration hclosed hcancelled habsent
  · cases hreceipts with
    | kept hnone => exact .kept hnone
    | issued hbinding habsent => exact .issued hbinding habsent

/-- A save of hashed events keeps every chain linked. -/
theorem save_chained {host : AgentHost} {signedAt generation : Int}
    (hc : Chained host store) (he : ∀ e ∈ s.events, Hashed host e)
    (h : store.save host s signedAt = .ok (generation, store')) : Chained host store' := by
  obtain ⟨store1, h1, h⟩ := bind_ok_iff.1 h
  obtain ⟨store2, h2, h⟩ := bind_ok_iff.1 h
  obtain ⟨⟨generation3, store3⟩, h3, h⟩ := bind_ok_iff.1 h
  obtain ⟨store4, h4, h⟩ := bind_ok_iff.1 h
  obtain ⟨-, rfl⟩ := Prod.mk.inj (Except.ok.inj h)
  obtain ⟨-, nonces, rfl⟩ := saveNonce_ok h1
  obtain ⟨timeFloor, htime⟩ := advanceTimeFloor_eq { store with nonces := nonces } signedAt
  rw [htime] at h2
  have hc1 : Chained host { store with nonces := nonces, timeFloor := timeFloor } := chained_congr hc rfl rfl
  have hc2 := appendAuditEvents_chained hc1 he h2
  obtain ⟨-, row, -, rfl⟩ := saveCheckpoint_ok h3
  obtain ⟨-, receipts, hreceipt⟩ := saveReceipt_eq host
    { store2 with checkpoints := Function.update store2.checkpoints s.taskId (some row) } s generation3 signedAt
  rw [hreceipt] at h4
  obtain ⟨-, outbox, rfl⟩ := saveMigration_ok h4
  exact chained_congr hc2 rfl rfl

end Store

end Portmark.Host
