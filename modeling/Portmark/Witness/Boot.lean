/-
The check at start against the check of a save. A database whose last receipt the witness no longer
names is refused at start, and every advance built on that receipt is refused, then and ever after;
`classify_boot` and the chain rules of `decide_advance` agree on every receipt.
-/
import Portmark.Witness.History

namespace Portmark.Witness

open Lib Lib.Json Security Option

/-! ## The published state -/

def Service.published (svc : Service) (db : Db) (hostId : String) (request : Request) : Option Dict :=
  match svc.admit request, (svc.handle db request).2 with
  | .ok (_, _, .state b), .answer _ document => if b.hostId = hostId then some (answerBody document) else none
  | _, _ => none

section Published

variable {svc : Service} {db : Db} {hostId : String} {request : Request} {state : Dict} {s : HostState}

theorem published_eq (h : svc.published db hostId request = some state) (hs : db.hostState hostId = .ok s) :
    ∃ b sha task at_, state = stateBody s b sha task svc.world.keyId at_ := by
  unfold Service.published at h
  split at h
  · rename_i signer raw b status document hadmitted hreply
    split at h
    · rename_i hhost
      cases h
      subst hhost
      have hdispatch : svc.handle db request = (db, .answer 200 (signAnswer svc.world (stateBody s b
          (digest svc.world (.dict raw)) (b.taskId.bind (db.heads b.hostId)) svc.world.keyId request.now))) := by
        simp [Service.handle, hadmitted, Service.dispatch, Body.hostId, hs, bind, Except.bind, pure, Except.pure]
      rw [hdispatch] at hreply
      cases hreply
      exact ⟨_, _, _, _, answerBody_signAnswer ..⟩
    · cases h
  · cases h

theorem receiptAt_stateBody (s : HostState) (b : StateBody) (sha : String) (task : Option Head) (keyId : String)
    (at_ : Int) : receiptAt (stateBody s b sha task keyId at_) "confirmed" = s.confirmedView ∧
      receiptAt (stateBody s b sha task keyId at_) "pending" = s.pendingView := by
  constructor
  · cases h : s.confirmedView with
    | _ => simp [receiptAt, stateBody, receiptView, Assoc.get?_cons, h]
  · cases h : s.pendingView with
    | _ => simp [receiptAt, stateBody, receiptView, Assoc.get?_cons, h]

/-- The check at start passes exactly on the receipts an advance may be built on. -/
theorem classifyBoot_eq_none (h : svc.published db hostId request = some state) (hs : db.hostState hostId = .ok s)
    (receipt : Option (Int × String)) : classifyBoot receipt state = none ↔ s.Allows (receipt.map Prod.snd) := by
  obtain ⟨b, sha, task, at_, rfl⟩ := published_eq h hs
  obtain ⟨hconfirmed, hpending⟩ := receiptAt_stateBody s b sha task svc.world.keyId at_
  unfold classifyBoot HostState.Allows
  rw [hconfirmed, hpending, HostState.confirmedView, HostState.pendingView]
  cases receipt with
  | none => cases s.confirmedHash <;> cases s.pending <;> simp
  | some => cases s.confirmedHash <;> cases s.pending <;> simp [eq_comm, or_iff_not_imp_left]

end Published

/-! ## The chain rules -/

/-- The database receipt is none, or one that the witness issued to the host. -/
def Db.Issued (db : Db) (hostId : String) (receipt : Option (Int × String)) : Prop :=
  ∀ seq hash, receipt = some (seq, hash) → ∃ r ∈ db.receipts hostId, r.seq = seq ∧ r.id = hash

section Chain

variable {w : World} {texts : Set Text} {db : Db} {hostId : String} {s : HostState} {c : Lineage String}
  {receipt : Option (Int × String)}

theorem chainPart_confirm {p : Pending} (hp : s.pending = some p) (known : String → Option KnownEntry) :
    chainPart s (some p.receiptHash) (p.hostSeq + 1) known = .ok (some p, none) := by
  simp [chainPart, sequenced, hp]

theorem chainPart_discard {prev : Option String} (hne : ∀ p, s.pending = some p → prev ≠ some p.receiptHash)
    (hprev : prev = s.confirmedHash) (known : String → Option KnownEntry) :
    chainPart s prev (s.confirmedSeq + 1) known = .ok (none, s.pending) := by
  unfold chainPart
  cases hp : s.pending with
  | none => simp [sequenced, hprev]
  | some p => exact (if_neg (hne p hp)).trans ((if_pos hprev).trans (if_pos rfl))

section

variable (h : Tracks w texts db hostId s c) (hr : db.Issued hostId receipt)

include h hr

theorem Tracks.receipt_mem {seq : Int} {hash : String}
    (he : receipt = some (seq, hash)) {n : Receipt} (hn : n ∈ c.issued) (hid : n.id = hash) : n.seq = seq := by
  obtain ⟨r, hr, rfl, rfl⟩ := hr seq hash he
  rw [h.receipts, List.mem_reverse] at hr
  rw [h.valid.node_eq hn hr hid]

theorem Tracks.seq_of_confirmed
    (he : receipt.map Prod.snd = s.confirmedHash) : (receipt.map Prod.fst).getD 0 = s.confirmedSeq := by
  rw [h.confirmedSeq]
  rw [h.confirmedHash, Lineage.baseId] at he
  unfold Lineage.baseSeq
  cases hl : c.settled with
  | nil =>
    rw [hl, endId_nil] at he
    rw [map_eq_none_iff.1 he]
    rfl
  | cons n =>
    rw [hl, endId_cons] at he
    obtain ⟨⟨seq, hash⟩, rfl, hid⟩ := map_eq_some_iff.1 he
    have hn : n ∈ c.issued := h.valid.issued_of_kept (Lineage.mem_kept.2 (.inr (hl ▸ List.mem_cons_self ..)))
    exact (h.receipt_mem hr rfl hn hid.symm).symm

/-- What the host sends next on a receipt is accepted exactly when the receipt is still named. -/
theorem Tracks.chainPart_iff (known : String → Option KnownEntry) :
    (∃ accepted, chainPart s (receipt.map Prod.snd) ((receipt.map Prod.fst).getD 0 + 1) known = .ok accepted) ↔
      s.Allows (receipt.map Prod.snd) := by
  constructor
  · rintro ⟨⟨confirm, discard⟩, hok⟩
    rcases chainPart_ok hok with ⟨p, hp, hprev, -⟩ | ⟨-, hprev, -⟩
    · exact .inr ⟨p, hp, hprev⟩
    · exact .inl hprev
  · intro ha
    by_cases hpend : ∃ p, s.pending = some p ∧ receipt.map Prod.snd = some p.receiptHash
    · obtain ⟨p, hp, hprev⟩ := hpend
      obtain ⟨⟨seq, hash⟩, rfl, rfl⟩ := map_eq_some_iff.1 hprev
      obtain ⟨n, hn, hid, hseq⟩ := h.waiting_of_pending hp
      have hmem := h.receipt_mem hr rfl (h.valid.issued_of_kept (Lineage.mem_kept.2 (.inl hn))) hid
      have : seq = p.hostSeq := hmem.symm.trans hseq
      exact ⟨_, this ▸ chainPart_confirm hp known⟩
    · have hprev := ha.resolve_right hpend
      rw [h.seq_of_confirmed hr hprev]
      exact ⟨_, chainPart_discard (fun p hp he => hpend ⟨p, hp, he⟩) hprev known⟩

end

end Chain

/-- The check at start passes on a receipt exactly when the next advance on it passes the chain rules. -/
theorem classifyBoot_iff_chainPart (svc : Service) (requests : List Request) (hinj : svc.CollisionFree requests)
    (hostId : String) (request : Request) {state : Dict} {s : HostState}
    (hstate : svc.published (svc.run .empty requests) hostId request = some state)
    (hs : (svc.run .empty requests).hostState hostId = .ok s) (receipt : Option (Int × String))
    (hreceipt : (svc.run .empty requests).Issued hostId receipt) (heads : Assoc Head) (registry : Option Registry)
    (timeFloor : Int) :
    classifyBoot receipt state = none ↔
      ∃ accepted, chainPart s (nextAdvance hostId receipt heads registry timeFloor).prev
        (nextAdvance hostId receipt heads registry timeFloor).hostSeq ((svc.run .empty requests).known hostId) =
          .ok accepted := by
  obtain ⟨f, h⟩ := svc.traced hinj hostId
  rw [classifyBoot_eq_none hstate hs]
  rw [svc.run_eq_after] at hs hreceipt
  exact ((h.tracks hs).chainPart_iff hreceipt _).symm

theorem classifyBoot_iff_chainPart_small : ∃ state s,
    smallService.published (smallService.run .empty [smallAdvance none 0]) "a" smallState = some state ∧
    (smallService.run .empty [smallAdvance none 0]).hostState "a" = .ok s ∧
    (classifyBoot (some smallReceipt) state = none ↔
      ∃ accepted, chainPart s (nextAdvance "a" (some smallReceipt) [] none 0).prev
        (nextAdvance "a" (some smallReceipt) [] none 0).hostSeq
        ((smallService.run .empty [smallAdvance none 0]).known "a") = .ok accepted) := by
  have hrun : (smallService.published (smallService.run .empty [smallAdvance none 0]) "a" smallState).isSome = true ∧
      (smallService.run .empty [smallAdvance none 0]).receipts "a" = [⟨smallReceipt.2, none, 1, 1, false⟩] ∧
      ((smallService.hashedIn .empty [smallAdvance none 0]).map smallService.world.sha256).Nodup := by
    decide +kernel
  obtain ⟨hpublished, hreceipts, hnodup⟩ := hrun
  have hinj := Service.collisionFree_of_nodup hnodup
  obtain ⟨state, hstate⟩ := Option.isSome_iff_exists.1 hpublished
  obtain ⟨f, h⟩ := smallService.traced hinj "a"
  obtain ⟨s, hs⟩ := h.state 1
  refine ⟨state, s, hstate, hs, classifyBoot_iff_chainPart smallService _ hinj "a" smallState hstate hs _ ?_ ..⟩
  rintro seq hash ⟨⟩
  exact ⟨_, hreceipts ▸ List.mem_cons_self .., rfl, rfl⟩

/-! ## An older copy -/

structure ShutOut (svc : Service) (requests : List Request) (hostId : String) (receipt : Option (Int × String))
    (j : Nat) : Prop where
  boot : ∀ k, j ≤ k → ∀ request state, svc.published (svc.after requests k) hostId request = some state →
    ∃ refusal, classifyBoot receipt state = some refusal
  save : ∀ k, j ≤ k → ∀ request signer raw b, requests[k]? = some request →
    svc.admit request = .ok (signer, raw, .advance b) → b.hostId = hostId → b.prev = receipt.map Prod.snd →
    Refused svc (svc.after requests k) request

theorem Traced.shutOut {svc : Service} {requests : List Request} {hostId : String} {f : Nat → Lineage String}
    (hinj : svc.CollisionFree requests) (h : Traced svc requests hostId f) {receipt : Option (Int × String)} {j : Nat}
    (hissued : (svc.after requests j).Issued hostId receipt) (hnot : ¬ (f j).Allows (receipt.map Prod.snd)) :
    ShutOut svc requests hostId receipt j := by
  have hnever : ∀ k, j ≤ k → ¬ (f k).Allows (receipt.map Prod.snd) := by
    intro k hk
    refine h.run.not_allows hk (fun hash hh => ?_) hnot
    obtain ⟨⟨seq, hash⟩, rfl, rfl⟩ := map_eq_some_iff.1 hh
    obtain ⟨r, hr, -, hid⟩ := hissued seq hash rfl
    exact ⟨r, h.mem_receipts.1 hr, hid⟩
  constructor
  · intro k hk request state hstate
    obtain ⟨s, hs⟩ := h.state k
    rw [← ne_none_iff_exists']
    intro hnone
    exact hnever k hk ((h.tracks hs).allows_iff.1 ((classifyBoot_eq_none hstate hs receipt).1 hnone))
  · intro k hk request signer raw b hreq hadmitted hhost hprev
    exact h.refused hinj hreq hadmitted hhost (hprev ▸ hnever k hk)

theorem Traced.issued_mono {svc : Service} {requests : List Request} {hostId : String} {f : Nat → Lineage String}
    (h : Traced svc requests hostId f) {receipt : Option (Int × String)} {i j : Nat} (hij : i ≤ j)
    (hi : (svc.after requests i).Issued hostId receipt) : (svc.after requests j).Issued hostId receipt := by
  intro seq hash he
  obtain ⟨r, hr, hrest⟩ := hi seq hash he
  exact ⟨r, h.mem_receipts.2 ((h.run.extends_ hij).issued.subset (h.mem_receipts.1 hr)), hrest⟩

/-- A copy made at some point of the run, whose receipt the witness no longer names, is shut out; so
is every copy that is two saves old. -/
theorem rollback_detected (svc : Service) (requests : List Request) (hinj : svc.CollisionFree requests)
    (hostId : String)
    (i j : Nat) (hij : i ≤ j) (receipt : Option (Int × String)) (hcopy : (svc.after requests i).Issued hostId receipt) :
    (∀ s, (svc.after requests j).hostState hostId = .ok s → ¬ s.Allows (receipt.map Prod.snd) →
      ShutOut svc requests hostId receipt j) ∧
    (∀ b ∈ (svc.after requests j).receipts hostId, ∀ n ∈ (svc.after requests j).receipts hostId,
      b.parent = receipt.map Prod.snd → n.root = false → n.parent = some b.id →
        ShutOut svc requests hostId receipt j) := by
  obtain ⟨f, h⟩ := svc.traced hinj hostId
  have hissued := h.issued_mono hij hcopy
  constructor
  · intro s hs hnot
    exact h.shutOut hinj hissued fun ha => hnot ((h.tracks hs).allows_iff.2 ha)
  · intro b hb n hn hparent hroot hnb
    have hnot := (h.run.valid j).not_allows_of_grandchild (h.mem_receipts.1 hb) (h.mem_receipts.1 hn) hroot hnb
    exact h.shutOut hinj hissued (hparent ▸ hnot)

theorem rollback_detected_small : ShutOut smallService smallRun "a" none 2 := by
  obtain ⟨hreceipts, -, hnodup⟩ := smallRun_run
  have hfirst : ⟨smallReceipt.2, none, 1, 1, false⟩ ∈ (smallService.after smallRun 2).receipts "a" :=
    hreceipts ▸ List.mem_cons_self ..
  have hsecond : ⟨smallReceipt'.2, some smallReceipt.2, 1, 2, false⟩ ∈ (smallService.after smallRun 2).receipts "a" :=
    hreceipts ▸ List.mem_cons_of_mem _ (List.mem_cons_self ..)
  exact (rollback_detected smallService smallRun (Service.collisionFree_of_nodup hnodup) "a" 0 2 (by decide) none
    (fun _ _ h => by cases h)).2 _ hfirst _ hsecond rfl rfl rfl

end Portmark.Witness
