/-
A host and its witness stay in step as long as every request comes in time: the witness names the
receipt the host committed last, has witnessed nothing newer than the host has committed, and so
takes every advance the host sends. A request that comes late may discard what the host has committed.
-/
import Portmark.Witness.Saves

namespace Portmark.Witness

open Lib Lib.Json Security List

/-! ## A host in step with the witness -/

structure Save.Next (hostId : String) (receipt : Option (Int × String)) (heads : String → Option Head)
    (registry : Option Registry) (save : Save) : Prop where
  hostId : save.body.hostId = hostId
  prev : save.body.prev = receipt.map Prod.snd
  hostSeq : save.body.hostSeq = (receipt.map Prod.fst).getD 0 + 1
  heads : ∀ e ∈ save.body.heads, ∀ h, heads e.1 = some h → h.Le e.2
  registry : registryLe registry save.body.registry

section Steady

variable (svc : Service) (c : Client) (hostId : String) (texts : Set Text)

structure Save.Sent (save : Save) : Prop where
  payload : c.payload svc.world (c.advanceBody save.body) = .ok save.payload
  ok : save.body.Ok

structure Answers (s : HostState) (receipt : Option (Int × String)) (save : Save) (stored : Int × String)
    (p : Pending) : Prop where
  pending : s.pending = some p
  stored : stored = (p.hostSeq, p.receiptHash)
  heads : p.heads = inOrder save.body.heads
  registry : p.registry = save.body.registry
  confirmed : receipt.map Prod.snd = s.confirmedHash

structure Agrees (db : Db) (receipt : Option (Int × String)) (heads : String → Option Head) (registry : Option Registry)
    (s : HostState) (l : Lineage String) : Prop where
  all : ∀ h, ∃ s, db.Holds h s
  tracks : Tracks svc.world texts db hostId s l
  allows : s.Allows (receipt.map Prod.snd)
  issued : db.Issued hostId receipt
  seq : ∀ seq hash, receipt = some (seq, hash) → fitsInt64 seq = true
  heads : ∀ task h, witnessedHead (confirmedBy s (receipt.map Prod.snd)) (db.heads hostId) task = some h →
    ∃ h', heads task = some h' ∧ h.Le h'
  registry :
    registryLe (higherRegistry s.registry ((confirmedBy s (receipt.map Prod.snd)).bind Pending.registry)) registry

structure InFlight (site : Site) (s : HostState) : Prop where
  sent : ∀ save ∈ site.network, save.Sent svc c ∧ save.id < site.begun ∧ save.id ∉ site.reached ∧
    save.base ≤ site.commits
  next : ∀ save ∈ site.network, save.base = site.commits →
    save.Next hostId site.receipt site.heads site.registry
  ids : (site.network.map Save.id).Nodup
  reached : ∀ id ∈ site.reached, id < site.begun
  saving : ∀ save ∈ site.saving, save.Next hostId site.receipt site.heads site.registry ∧
    ∀ other ∈ site.network, other.id = save.id → other = save
  replied : ∀ id status text, (id, status, text) ∈ site.answers → id ∈ site.reached
  answered : ∀ save ∈ site.saving, ∀ status text, (save.id, status, text) ∈ site.answers → ∀ stored,
    c.storedReceipt svc.world save.body status text = .ok stored → ∃ p, Answers s site.receipt save stored p

structure Steady (site : Site) (s : HostState) (l : Lineage String) : Prop where
  agrees : Agrees svc hostId texts site.db site.receipt site.heads site.registry s l
  flight : InFlight svc c hostId site s

end Steady

/-! ## What the rules let pass -/

section Rules

variable {env : Env} {s : HostState} {taskHead : String → Option Head} {known : String → Option KnownEntry}

variable {confirm : Option Pending}

theorem checkWitnessed_ok {entry : String × Head}
    (h : ∀ w, witnessedHead confirm taskHead entry.1 = some w → w.Le entry.2) :
    checkWitnessed env taskHead confirm entry = .ok () := by
  unfold checkWitnessed
  cases hw : witnessedHead confirm taskHead entry.1 with
  | none => rfl
  | some w =>
    rcases h w hw with hlt | rfl
    · have hnot : ¬ entry.2.sequence < w.sequence := by omega
      have hne : ¬ (entry.2.sequence = w.sequence ∧ entry.2.headHash ≠ w.headHash) := by omega
      simp only [if_neg hnot, if_neg hne]
    · simp

theorem checkOffered_ok {witnessed offered : Option Registry} (h : registryLe witnessed offered) :
    checkOffered witnessed offered = .ok () := by
  cases witnessed with
  | none => rfl
  | some w =>
    cases offered with
    | none => exact h.elim
    | some o =>
      rcases h with hlt | rfl
      · have hnot : ¬ o.version < w.version := by omega
        have hne : ¬ (o.version = w.version ∧ o.digest ≠ w.digest) := by omega
        simp only [checkOffered, if_neg hnot, if_neg hne]
      · simp [checkOffered]

/-- An advance passes once it passes the chain rules and offers nothing older than what is witnessed. -/
theorem judgeAdvance_of {b : AdvanceBody} {discard : Option Pending}
    (hchain : chainPart s b.prev b.hostSeq known = .ok (confirm, discard))
    (hheads : ∀ e ∈ b.heads, ∀ h, witnessedHead confirm taskHead e.1 = some h → h.Le e.2)
    (hregistry : registryLe (higherRegistry s.registry (confirm.bind Pending.registry)) b.registry) :
    judgeAdvance env s b taskHead known = .ok (confirm, discard) := by
  have hforM : b.heads.forM (checkWitnessed env taskHead confirm) = .ok () :=
    (forM_ok_iff _ _).2 fun e he => checkWitnessed_ok (hheads e he)
  unfold judgeAdvance
  rw [hchain]
  simp only [bind, Except.bind, hforM, checkOffered_ok hregistry]
  rfl

end Rules

/-! ## A delivery -/

variable {stored : Int × String}

section Delivery

variable {svc : Service} {c : Client} {hostId : String} {texts : Set Text} {site : Site} {s : HostState}
  {l : Lineage String} {save : Save} {request : Request} {db : Db} {receipt : Option (Int × String)}
  {heads : String → Option Head} {registry : Option Registry}

section

variable (h : Agrees svc hostId texts db receipt heads registry s l) (hn : save.Next hostId receipt heads registry)

include h hn

theorem Agrees.judged : ∃ discard, judgeAdvance svc.world.env s save.body.norm (db.heads hostId) (db.known hostId) =
      .ok (confirmedBy s save.body.prev, discard) := by
  obtain ⟨⟨confirm, discard⟩, hchain⟩ := (h.tracks.chainPart_iff h.issued (db.known hostId)).2 h.allows
  obtain rfl := confirmedBy_of_chainPart hchain
  rw [← hn.prev, ← hn.hostSeq] at hchain
  refine ⟨discard, judgeAdvance_of hchain (fun e he w hw => ?_) ?_⟩
  · rw [hn.prev] at hw
    obtain ⟨h', hh', hle⟩ := h.heads e.1 w hw
    exact hle.trans (hn.heads e ((inOrder_perm _).mem_iff.1 he) h' hh')
  · rw [hn.prev]
    exact h.registry.trans hn.registry

theorem Agrees.not_refused (sha : String) (refusal : Refusal) :
    decideAdvance svc.world.env s save.body.norm sha (db.heads hostId) (db.known hostId) ≠
      .refuse refusal := by
  obtain ⟨discard, hjudge⟩ := h.judged hn
  unfold decideAdvance
  rw [hjudge]
  split <;> simp

theorem Agrees.delivered (hsent : save.Sent svc c) (hraw : request.raw = some save.payload) :
    ((svc.handle db request).1 = db ∧ ((∃ e, (svc.handle db request).2 = .raised e) ∨
      ∃ refusal sha host, refusal.Early ∧ (svc.handle db request).2 = svc.refusal refusal sha host request.now)) ∨
    (∃ p, s.pending = some p ∧ p.requestSha256 = digest svc.world (.dict (normalDict (c.advanceBody save.body))) ∧
      dumps svc.world.floatText (.dict (normalDict (c.advanceBody save.body))) ∈ svc.hashed db request ∧
      CheckedAdvance (normalDict (c.advanceBody save.body)) save.body.norm ∧
      svc.handle db request = (db, .answer 200 p.answer)) ∨
    ∃ a, a.body = save.body.norm ∧ Advanced svc db request s a := by
  have hhost : save.body.norm.hostId = hostId := hn.hostId
  rcases hadmitted : svc.admit request with refusal | admitted
  · exact .inl ⟨by simp [Service.handle, hadmitted], .inr ⟨refusal, (svc.bodyDigest request.raw).1,
      (svc.bodyDigest request.raw).2, early_admit svc request refusal hadmitted, by simp [Service.handle, hadmitted]⟩⟩
  obtain ⟨signer, raw, body⟩ := admitted
  obtain ⟨hlogged, hchecked, -⟩ := admit_ok hadmitted
  obtain ⟨rfl, rfl⟩ := admit_payload hsent.payload hsent.ok hraw hadmitted
  have hs : db.Holds save.body.norm.hostId s := hhost ▸ h.tracks.holds
  have hmem : dumps svc.world.floatText (.dict (normalDict (c.advanceBody save.body))) ∈ svc.hashed db request := by
    simp [Service.hashed, hadmitted]
  cases hdispatch : svc.dispatch db signer (normalDict (c.advanceBody save.body)) (.advance save.body.norm)
      (request.raw.getD []) request.now with
  | error e =>
    exact .inl ⟨by simp [Service.handle, hadmitted, hdispatch],
      .inl ⟨e, by simp [Service.handle, hadmitted, hdispatch]⟩⟩
  | ok result =>
    obtain ⟨db', reply⟩ := result
    have hhandle : svc.handle db request = (db', reply) := by simp [Service.handle, hadmitted, hdispatch]
    obtain ⟨t, hstate, hadvance⟩ := bind_ok_iff.1 hdispatch
    obtain rfl : s = t := Except.ok.inj (hs.state.symm.trans hstate)
    rcases advance_cases hs hadvance with ⟨refusal, hdecide, -⟩ | ⟨p, hp, hsha, rfl, rfl⟩ |
      ⟨confirm, discard, hunseen, hjudge, hat, rfl, rfl⟩
    · rw [hhost] at hdecide
      exact absurd hdecide (h.not_refused hn _ refusal)
    · exact .inr (.inl ⟨p, hp, hsha, hmem, hchecked, hhandle⟩)
    · exact .inr (.inr ⟨⟨_, save.body.norm, _, _, confirm, discard⟩, rfl, ⟨signer, hadmitted⟩, hs, hchecked, hlogged,
        hunseen, hjudge, hat, hhandle⟩)

theorem Agrees.welcome (hsent : save.Sent svc c) (hraw : request.raw = some save.payload) : Welcome svc db request := by
  constructor
  · intro signer raw b t hadmitted ht refusal
    obtain ⟨-, hb⟩ := admit_payload hsent.payload hsent.ok hraw hadmitted
    cases hb
    have hhost : save.body.norm.hostId = hostId := hn.hostId
    rw [hhost] at ht ⊢
    obtain rfl : s = t := Except.ok.inj (h.tracks.holds.state.symm.trans ht)
    exact h.not_refused hn _ refusal
  · intro status refusal document hreply
    rcases h.delivered hn hsent hraw with ⟨-, ⟨e, he⟩ | ⟨refusal', sha, host, hearly, he⟩⟩ | ⟨p, -, -, -, -, he⟩ |
      ⟨a, -, ha⟩
    · rw [he] at hreply
      cases hreply
    · rw [he] at hreply
      cases hreply
      exact hearly.code_ne
    · rw [he] at hreply
      cases hreply
    · rw [ha.handled] at hreply
      cases hreply

end

theorem Tracks.confirmedBy_confirmed {w : World} (h : Tracks w texts db hostId s l) :
    confirmedBy s s.confirmedHash = none := by
  unfold confirmedBy
  cases hp : s.pending with
  | none => rfl
  | some =>
    refine if_neg fun hc => ?_
    obtain ⟨n, hn, hid, -⟩ := h.waiting_of_pending hp
    rw [h.confirmedHash] at hc
    obtain ⟨m, hm, hmid⟩ := Option.map_eq_some_iff.1 hc
    exact h.valid.waiting_ne_settled hn (mem_of_mem_head? hm) (hmid.trans hid.symm)

theorem higherRegistry_none (r : Option Registry) : higherRegistry r none = r := by
  cases r <;> rfl

theorem confirm_registry (s : HostState) (p : Option Pending) :
    (s.confirm p).registry = higherRegistry s.registry (p.bind Pending.registry) := by
  cases p with
  | none => exact (higherRegistry_none _).symm
  | some => rfl

theorem Advanced.confirmedHash {a : Advance} (h : Advanced svc db request s a) :
    (s.confirm a.confirm).confirmedHash = a.body.prev := by
  rcases chainPart_ok (judgeAdvance_ok h.judged) with ⟨p, -, hprev, -, hc, -⟩ | ⟨-, hprev, -, hc, -⟩
  · rw [hc, hprev]
    rfl
  · rw [hc, hprev]
    rfl

/-- The witness and the host still agree after an advance of the host was accepted. -/
theorem Agrees.accepted (hinj : Set.InjOn svc.world.sha256 texts)
    (h : Agrees svc hostId texts db receipt heads registry s l)
    (hn : save.Next hostId receipt heads registry) {a : Advance} (hbody : a.body = save.body.norm)
    (ha : Advanced svc db request s a) (ht : ∀ text ∈ svc.hashed db request, text ∈ texts) :
    ∃ l', Agrees svc hostId texts (db.afterAdvance svc.world s a) receipt heads registry
      (a.after svc.world s).norm l' := by
  have hhost : a.body.hostId = hostId := by rw [hbody]; exact hn.hostId
  have hprev : a.body.prev = receipt.map Prod.snd := by rw [hbody]; exact hn.prev
  subst hhost
  obtain ⟨l', -, htracks⟩ := h.tracks.advanced hinj ha ht
  have hconfirmed : (a.after svc.world s).norm.confirmedHash = receipt.map Prod.snd := ha.confirmedHash.trans hprev
  have hnone : confirmedBy (a.after svc.world s).norm (receipt.map Prod.snd) = none := by
    rw [← hconfirmed]
    exact htracks.confirmedBy_confirmed
  have hconfirm : a.confirm = confirmedBy s (receipt.map Prod.snd) := by
    rw [← hprev]
    exact (confirmedBy_of_chainPart (judgeAdvance_ok ha.judged)).symm
  refine ⟨l', ?_, htracks, .inl hconfirmed.symm, ?_, h.seq, ?_, ?_⟩
  · have hall : ∀ h, ∃ t, (svc.handle db request).1.Holds h t := handle_holds h.all
    rwa [ha.handled] at hall
  · intro seq hash he
    obtain ⟨r, hr, hrest⟩ := h.issued seq hash he
    obtain ⟨hreceipts, -⟩ := log_of_accepted db (db.afterAdvance svc.world s a) rfl rfl (by simp [Advance.row])
      (Advance.receiptOf?_row ha.receipt_plain)
    exact ⟨r, hreceipts ▸ mem_append_left _ hr, hrest⟩
  · intro task w hw
    refine h.heads task w ?_
    rw [hnone] at hw
    rw [← hconfirm]
    have hsame : witnessedHead none ((db.afterAdvance svc.world s a).heads a.body.hostId) task =
        witnessedHead a.confirm (db.heads a.body.hostId) task := by
      cases hc : a.confirm <;> simp [witnessedHead, Db.afterAdvance, hc]
    exact hsame ▸ hw
  · rw [hnone]
    show registryLe (higherRegistry (s.confirm a.confirm).registry none) registry
    rw [higherRegistry_none, confirm_registry, hconfirm]
    exact h.registry

/-- What comes in time leaves what is on its way in order: no answer to the waiting save is older. -/
theorem InFlight.deliver (h : InFlight svc c hostId site s) {i : Nat} (hi : site.network[i]? = some save)
    (hin : InTime site save) {db : Db} {s' : HostState} {new : Option (Nat × Text)}
    (hnew : ∀ status text, new = some (status, text) → ∀ stored,
      c.storedReceipt svc.world save.body status text = .ok stored → ∃ p, Answers s' site.receipt save stored p) :
    InFlight svc c hostId
      { site with
        db
        network := site.network.eraseIdx i
        reached := save.id :: site.reached
        answers := site.answers ++ (new.map fun (status, text) => (save.id, status, text)).toList } s' := by
  have hmem : save ∈ site.network := mem_of_getElem? hi
  have hsub : (site.network.eraseIdx i).Sublist site.network := eraseIdx_sublist _ _
  have hother : ∀ other ∈ site.network.eraseIdx i, other.id ≠ save.id := by
    intro other ho hid
    obtain ⟨j, hj, hget⟩ := mem_eraseIdx_iff_getElem?.1 ho
    have hlt : j < (site.network.map Save.id).length := by
      rw [length_map]
      exact (List.getElem?_eq_some_iff.1 hget).1
    refine hj ((getElem?_inj hlt h.ids).1 ?_)
    rw [getElem?_map, getElem?_map, hget, hi, Option.map_some, Option.map_some, hid]
  obtain ⟨-, hbegun, hunreached, -⟩ := h.sent save hmem
  -- an answer to the waiting save would mean that it has reached the witness
  have hold : ∀ waiting ∈ site.saving, ∀ status text, (waiting.id, status, text) ∉ site.answers := by
    intro waiting hw status text hm
    have hreached := h.replied _ _ _ hm
    rcases hin.2 waiting hw with hid | hnot
    · exact hunreached (hid ▸ hreached)
    · exact hnot hreached
  refine ⟨?_, ?_, h.ids.sublist (hsub.map _), ?_, ?_, ?_, ?_⟩
  · intro other ho
    obtain ⟨hs, hb, hr, hc⟩ := h.sent other (hsub.subset ho)
    exact ⟨hs, hb, fun hm => (mem_cons.1 hm).elim (hother other ho) hr, hc⟩
  · intro other ho hbase
    exact h.next other (hsub.subset ho) hbase
  · intro id hid
    rcases mem_cons.1 hid with rfl | hid
    · exact hbegun
    · exact h.reached id hid
  · intro waiting hw
    exact ⟨(h.saving waiting hw).1, fun other ho => (h.saving waiting hw).2 other (hsub.subset ho)⟩
  · intro id status text hm
    rcases mem_append.1 hm with hm | hm
    · exact mem_cons_of_mem _ (h.replied id status text hm)
    · obtain ⟨_, -, heq⟩ := Option.map_eq_some_iff.1 (Option.mem_toList.1 hm)
      cases heq
      exact mem_cons_self ..
  · intro waiting hw status text hm
    rcases mem_append.1 hm with hm | hm
    · exact absurd hm (hold waiting hw status text)
    obtain ⟨⟨status', text'⟩, hnew', heq⟩ := Option.map_eq_some_iff.1 (Option.mem_toList.1 hm)
    simp only [Prod.mk.injEq] at heq
    obtain ⟨hid, rfl, rfl⟩ := heq
    obtain rfl : save = waiting := (h.saving waiting hw).2 save hmem hid
    exact hnew _ _ hnew'

/-- The answer to a repeated request is the answer to the save: the requests are one. -/
theorem Agrees.answers_replay (hinj : Set.InjOn svc.world.sha256 texts)
    (h : Agrees svc hostId texts db receipt heads registry s l) (hn : save.Next hostId receipt heads registry)
    {p : Pending} (hp : s.pending = some p)
    (hsha : p.requestSha256 = digest svc.world (.dict (normalDict (c.advanceBody save.body))))
    (hmem : dumps svc.world.floatText (.dict (normalDict (c.advanceBody save.body))) ∈ texts)
    (hchecked : CheckedAdvance (normalDict (c.advanceBody save.body)) save.body.norm) {status : Nat}
    (hstored : c.storedReceipt svc.world save.body status (dumps svc.world.floatText (.dict p.answer)) = .ok stored) :
    Answers s receipt save stored p := by
  obtain ⟨raw, b, body, hr, hprev⟩ := h.tracks.request p hp
  have hsame : save.body.norm.norm = b.norm :=
    advance_eq_of_digest hinj hchecked hr.checked hmem hr.text (hsha.symm.trans hr.sha)
  simp only [AdvanceBody.norm, inOrder_idem, AdvanceBody.mk.injEq] at hsame
  obtain ⟨-, hseq, hsprev, hheads, hregistry, -⟩ := hsame
  rw [hr.answer, ← sortKeys_dict_normal, dumps_sortKeys] at hstored
  refine ⟨hp, ?_, ?_, ?_, ?_⟩
  · rw [storedReceipt_ok hr.plain hstored, hr.hostSeq, hr.hash, hseq]
  · rw [hr.heads, hheads]
  · rw [hr.registry, hregistry]
  · rw [← hn.prev, hsprev, hprev]

theorem Advanced.answers {a : Advance} (hn : save.Next hostId receipt heads registry) (hbody : a.body = save.body.norm)
    (ha : Advanced svc db request s a) {status : Nat} (hstored : c.storedReceipt svc.world save.body status
      (dumps svc.world.floatText (.dict (signAnswer svc.world (a.receipt svc.world s)))) = .ok stored) :
    ∃ p, Answers (a.after svc.world s).norm receipt save stored p := by
  refine ⟨_, rfl, ?_, ?_, ?_, ?_⟩
  · rw [storedReceipt_ok ha.receipt_plain hstored]
    rw [hbody]
    rfl
  · show inOrder a.body.heads = _
    rw [hbody]
    exact inOrder_idem _
  · show a.body.registry = _
    rw [hbody]
    rfl
  · show _ = (s.confirm a.confirm).confirmedHash
    rw [ha.confirmedHash, hbody]
    exact hn.prev.symm

/-- A request that comes in time is welcome, and leaves host and witness in step. -/
theorem Steady.deliver (hinj : Set.InjOn svc.world.sha256 texts) (h : Steady svc c hostId texts site s l) {i : Nat}
    (hi : site.network[i]? = some save) (hin : InTime site save) (hraw : request.raw = some save.payload)
    (hnow : fitsInt64 request.now = true) (ht : ∀ text ∈ svc.hashed site.db request, text ∈ texts) :
    Welcome svc site.db request ∧ ∃ s' l', Steady svc c hostId texts
      { site with
        db := (svc.handle site.db request).1
        network := site.network.eraseIdx i
        reached := save.id :: site.reached
        answers := site.answers ++ (((svc.handle site.db request).2.wire svc.world).map fun (status, text) =>
          (save.id, status, text)).toList } s' l' := by
  have hmem : save ∈ site.network := mem_of_getElem? hi
  have hsent := (h.flight.sent save hmem).1
  have hn := h.flight.next save hmem hin.1
  refine ⟨h.agrees.welcome hn hsent hraw, ?_⟩
  rcases h.agrees.delivered hn hsent hraw with ⟨hdb, hreply⟩ | ⟨p, hp, hsha, hmem', hchecked, hhandle⟩ | ⟨a, hbody, ha⟩
  · -- not admitted, or an exception: nothing the host could store
    rw [hdb]
    refine ⟨s, l, h.agrees, h.flight.deliver hi hin fun status text hw stored hstored => ?_⟩
    rcases hreply with ⟨e, he⟩ | ⟨refusal, sha, host, -, he⟩
    · rw [he] at hw
      cases hw
    · rw [he] at hw
      cases hw
      exact (storedReceipt_refusal (readable_of_fitsInt64 hnow) hstored).elim
  · rw [hhandle]
    refine ⟨s, l, h.agrees, h.flight.deliver hi hin fun status text hw stored hstored => ?_⟩
    cases hw
    exact ⟨p, h.agrees.answers_replay hinj hn hp hsha (ht _ hmem') hchecked hstored⟩
  · obtain ⟨l', hagrees⟩ := h.agrees.accepted hinj hn hbody ha ht
    rw [ha.handled]
    refine ⟨_, l', hagrees, h.flight.deliver hi hin fun status text hw stored hstored => ?_⟩
    cases hw
    exact ha.answers hn hbody hstored

end Delivery

/-! ## The other events -/

section Events

variable {svc : Service} {c : Client} {hostId : String} {texts : Set Text} {site : Site} {s : HostState}
  {l : Lineage String}

theorem readable_succ {n : Int} (h : fitsInt64 n = true) : Readable (n + 1) := by
  have hn : -2 ^ 63 ≤ n ∧ n < 2 ^ 63 := of_decide_eq_true h
  exact readable_of_lt (by omega)

variable {registry : Option Registry}

/-- What an honest host may offer is well formed and the next thing to send. -/
theorem mayOffer_ok (hostId : String) {heads : Assoc Head} {timeFloor : Int}
    (hseq : ∀ seq hash, site.receipt = some (seq, hash) → fitsInt64 seq = true)
    (h : site.mayOffer heads registry timeFloor = true) :
    (nextAdvance hostId site.receipt heads registry timeFloor).Ok ∧
    (∀ e ∈ heads, ∀ h, site.heads e.1 = some h → h.Le e.2) ∧ registryLe site.registry registry := by
  simp only [Site.mayOffer, Bool.and_eq_true, decide_eq_true_eq, all_eq_true] at h
  obtain ⟨⟨⟨⟨hnodup, hheads⟩, hreg⟩, hle⟩, htime⟩ := h
  refine ⟨⟨?_, ⟨hnodup, fun e he => readable_of_fitsInt64 (hheads e he).1⟩, fun r hr => ?_,
    readable_of_fitsInt64 htime⟩, ?_, hle⟩
  · show Readable ((site.receipt.map Prod.fst).getD 0 + 1)
    cases hr : site.receipt with
    | none => exact readable_succ (by decide)
    | some r => exact readable_succ (hseq r.1 r.2 hr)
  · obtain rfl : registry = some r := hr
    exact readable_of_fitsInt64 hreg
  · intro e he h hh
    have := (hheads e he).2
    rw [hh] at this
    simpa using this

theorem Steady.save (h : Steady svc c hostId texts site s l) {heads : Assoc Head} {timeFloor : Int}
    (hoffer : site.mayOffer heads registry timeFloor = true) {payload : Text}
    (hpayload : c.payload svc.world (c.advanceBody (nextAdvance hostId site.receipt heads registry timeFloor)) =
    .ok payload) : Steady svc c hostId texts
      { site with
        begun := site.begun + 1
        saving := some ⟨site.begun, site.commits, nextAdvance hostId site.receipt heads registry timeFloor, payload⟩
        network := site.network ++
          [⟨site.begun, site.commits, nextAdvance hostId site.receipt heads registry timeFloor, payload⟩] } s l := by
  obtain ⟨hok, hheads, hreg⟩ := mayOffer_ok hostId h.agrees.seq hoffer
  have hnext : Save.Next hostId site.receipt site.heads site.registry
      ⟨site.begun, site.commits, nextAdvance hostId site.receipt heads registry timeFloor, payload⟩ :=
    ⟨rfl, rfl, rfl, hheads, hreg⟩
  have hunreached : site.begun ∉ site.reached := fun hm => Nat.lt_irrefl _ (h.flight.reached _ hm)
  refine ⟨h.agrees, ?_, ?_, ?_, ?_, ?_, h.flight.replied, ?_⟩
  · intro save hm
    rcases mem_append.1 hm with hm | hm
    · obtain ⟨hs, hb, hr, hc⟩ := h.flight.sent save hm
      exact ⟨hs, Nat.lt_succ_of_lt hb, hr, hc⟩
    · obtain rfl := mem_singleton.1 hm
      exact ⟨⟨hpayload, hok⟩, Nat.lt_succ_self _, hunreached, Nat.le_refl _⟩
  · intro save hm hbase
    rcases mem_append.1 hm with hm | hm
    · exact h.flight.next save hm hbase
    · obtain rfl := mem_singleton.1 hm
      exact hnext
  · show ((site.network ++ [_]).map Save.id).Nodup
    rw [map_append, nodup_append]
    refine ⟨h.flight.ids, by simp, fun id hid id' hid' => ?_⟩
    obtain ⟨save, hm, rfl⟩ := mem_map.1 hid
    obtain rfl := mem_singleton.1 hid'
    exact Nat.ne_of_lt (h.flight.sent save hm).2.1
  · intro id hid
    exact Nat.lt_succ_of_lt (h.flight.reached id hid)
  · intro save hm
    obtain rfl := Option.some.inj hm
    refine ⟨hnext, fun other ho hid => ?_⟩
    rcases mem_append.1 ho with ho | ho
    · exact absurd hid (Nat.ne_of_lt (h.flight.sent other ho).2.1)
    · exact mem_singleton.1 ho
  · intro save hm status text ha
    obtain rfl := Option.some.inj hm
    exact absurd (h.flight.replied _ _ _ ha) hunreached

variable {heads : String → Option Head}

theorem Agrees.commit {db : Db} {receipt : Option (Int × String)}
    {save : Save} {p : Pending} (h : Agrees svc hostId texts db receipt heads registry s l)
    (hn : save.Next hostId receipt heads registry) (ha : Answers s receipt save stored p)
    (hfits : fitsInt64 stored.1 = true) :
    Agrees svc hostId texts db (some stored) (fun task => (Assoc.get? save.body.heads task).or (heads task))
      save.body.registry s l := by
  obtain ⟨hp, rfl, hheads, hregistry, hconfirmed⟩ := ha
  obtain ⟨n, hwait, hid, hseq⟩ := h.tracks.waiting_of_pending hp
  have hby : confirmedBy s (some p.receiptHash) = some p := by simp [confirmedBy, hp]
  have hbefore : confirmedBy s (receipt.map Prod.snd) = none := by
    rw [hconfirmed]
    exact h.tracks.confirmedBy_confirmed
  have hnodup : (Assoc.keys save.body.heads).Nodup := by
    have := (h.tracks.holds.ok.pending p hp).heads.nodup
    rw [hheads] at this
    exact ((inOrder_perm _).map Prod.fst).nodup_iff.1 this
  refine ⟨h.all, h.tracks, .inr ⟨p, hp, rfl⟩, ?_, ?_, ?_, ?_⟩
  · rintro seq hash ⟨⟩
    refine ⟨n, ?_, hseq, hid⟩
    rw [h.tracks.receipts, mem_reverse]
    exact h.tracks.valid.issued_of_kept (Lineage.mem_kept.2 (.inl hwait))
  · rintro seq hash ⟨⟩
    exact hfits
  · intro task w hw
    rw [show (some (p.hostSeq, p.receiptHash)).map Prod.snd = some p.receiptHash from rfl, hby, witnessedHead,
      Option.bind_some, hheads, get?_inOrder hnodup] at hw
    cases hget : Assoc.get? save.body.heads task with
    | some head =>
      rw [hget] at hw
      exact ⟨head, rfl, .inr (Option.some.inj hw).symm⟩
    | none =>
      rw [hget] at hw
      refine h.heads task w ?_
      rw [hbefore]
      exact hw
  · rw [show (some (p.hostSeq, p.receiptHash)).map Prod.snd = some p.receiptHash from rfl, hby, Option.bind_some,
      hregistry]
    have hold : registryLe s.registry registry := by
      have := h.registry
      rw [hbefore] at this
      exact higherRegistry_none s.registry ▸ this
    exact registryLe_higher (hold.trans hn.registry) (.refl _)

theorem InFlight.commit (h : InFlight svc c hostId site s) (i : Nat) : InFlight svc c hostId
      { site with
        receipt := some stored, heads, registry
        commits := site.commits + 1
        saving := none
        answers := site.answers.eraseIdx i } s := by
  refine ⟨?_, ?_, h.ids, h.reached, ?_, ?_, ?_⟩
  · intro save hm
    obtain ⟨hs, hb, hr, hc⟩ := h.sent save hm
    exact ⟨hs, hb, hr, Nat.le_succ_of_le hc⟩
  · intro save hm hbase
    -- a save begun before this commit is no longer the next
    have hc : save.base ≤ site.commits := (h.sent save hm).2.2.2
    have hbase : save.base = site.commits + 1 := hbase
    omega
  · intro save hm
    cases hm
  · intro id status text hm
    exact h.replied id status text ((eraseIdx_sublist _ _).subset hm)
  · intro save hm
    cases hm

theorem InFlight.drop (h : InFlight svc c hostId site s) {db : Db} {saving : Option Save} {network : List Save}
    {answers : List (Nat × Nat × Text)} (hsaving : saving = site.saving ∨ saving = none)
    (hnetwork : network.Sublist site.network) (hanswers : answers.Sublist site.answers) :
    InFlight svc c hostId { site with db, saving, network, answers } s := by
  have hwait : ∀ save ∈ saving, save ∈ site.saving := by
    rcases hsaving with rfl | rfl
    · exact fun _ hm => hm
    · exact fun _ hm => by cases hm
  refine ⟨fun save hm => h.sent save (hnetwork.subset hm), fun save hm => h.next save (hnetwork.subset hm),
    h.ids.sublist (hnetwork.map _), h.reached, fun save hm => ?_, fun id status text hm =>
      ?_, fun save hm status text ha => ?_⟩
  · obtain ⟨hn, hother⟩ := h.saving save (hwait save hm)
    exact ⟨hn, fun other ho => hother other (hnetwork.subset ho)⟩
  · exact h.replied id status text (hanswers.subset hm)
  · exact h.answered save (hwait save hm) status text (hanswers.subset ha)

theorem Agrees.foreign {db : Db} {receipt : Option (Int × String)}
    {request : Request} (h : Agrees svc hostId texts db receipt heads registry s l)
    (hleaves : svc.leaves hostId request = true) :
    Agrees svc hostId texts (svc.handle db request).1 receipt heads registry s l := by
  rcases handle_host svc h.all h.tracks.holds request with hsame | ⟨a, hh, ha⟩ | ⟨r, hh, hr⟩
  · refine ⟨handle_holds h.all, h.tracks.of_same hsame, h.allows, ?_, h.seq, ?_, h.registry⟩
    · unfold Db.Issued Db.receipts
      rw [hsame.logRows]
      exact h.issued
    · rw [hsame.heads]
      exact h.heads
  · obtain ⟨signer, hadmitted⟩ := ha.admitted
    simp only [Service.leaves, hadmitted, bne_iff_ne] at hleaves
    exact absurd hh.symm hleaves
  · simp only [Service.leaves, hr.admitted, bne_iff_ne] at hleaves
    exact absurd hh.symm hleaves

theorem delivers_eq_some {i : Nat} {globalToken signerToken : Bool} {now : Int} {save : Save} {request : Request}
    (h : site.delivers (.deliver i globalToken signerToken now) = some (save, request)) :
    site.network[i]? = some save ∧ request.raw = some save.payload ∧ fitsInt64 request.now = true := by
  simp only [Site.delivers] at h
  split at h
  · rename_i hnow
    obtain ⟨save', hi, heq⟩ := Option.map_eq_some_iff.1 h
    cases heq
    exact ⟨hi, rfl, hnow⟩
  · cases h

/-- An event that brings its request in time leaves host and witness in step. -/
theorem Steady.step (hinj : Set.InjOn svc.world.sha256 texts) (h : Steady svc c hostId texts site s l) {event : Event}
    {site' : Site} (hstep : site.step svc c hostId event = some site')
    (hin : ∀ delivery ∈ site.delivers event, InTime site delivery.1)
    (ht : ∀ text ∈ site.hashed svc event, text ∈ texts) : ∃ s' l', Steady svc c hostId texts site' s' l' := by
  cases event with
  | save =>
    simp only [Site.step] at hstep
    split at hstep
    · rename_i hguard
      obtain ⟨-, hoffer⟩ := Bool.and_eq_true_iff.1 hguard
      split at hstep
      · cases hstep
        exact ⟨s, l, h⟩
      · rename_i payload hpayload
        cases hstep
        exact ⟨s, l, h.save hoffer hpayload⟩
    · cases hstep
  | deliver =>
    obtain ⟨⟨save, request⟩, hdelivers, rfl⟩ := Option.map_eq_some_iff.1 hstep
    have htexts : ∀ text ∈ svc.hashed site.db request, text ∈ texts := by
      simpa only [Site.hashed, hdelivers] using ht
    obtain ⟨hi, hraw, hnow⟩ := delivers_eq_some hdelivers
    exact (h.deliver hinj hi (hin _ hdelivers) hraw hnow htexts).2
  | receive i =>
    simp only [Site.step] at hstep
    split at hstep
    · rename_i save id status text hsaving hanswer
      split at hstep
      · rename_i hid
        subst hid
        have hdrop : InFlight svc c hostId { site with saving := none, answers := site.answers.eraseIdx i } s :=
          h.flight.drop (.inr rfl) (List.Sublist.refl _) (eraseIdx_sublist _ i)
        split at hstep
        · cases hstep
          exact ⟨s, l, h.agrees, hdrop⟩
        rename_i stored hstored
        split at hstep
        · rename_i hfits
          cases hstep
          obtain ⟨p, hp⟩ := h.flight.answered save hsaving status text (mem_of_getElem? hanswer) stored hstored
          exact ⟨s, l, h.agrees.commit (h.flight.saving save hsaving).1 hp hfits, h.flight.commit i⟩
        · cases hstep
          exact ⟨s, l, h.agrees, hdrop⟩
      · cases hstep
    · cases hstep
  | rollBack =>
    cases hstep
    exact ⟨s, l, h.agrees, h.flight.drop (.inr rfl) (List.Sublist.refl _) (List.Sublist.refl _)⟩
  | loseRequest i =>
    cases hstep
    exact ⟨s, l, h.agrees, h.flight.drop (.inl rfl) (eraseIdx_sublist _ i) (List.Sublist.refl _)⟩
  | loseAnswer i =>
    cases hstep
    exact ⟨s, l, h.agrees, h.flight.drop (.inl rfl) (List.Sublist.refl _) (eraseIdx_sublist _ i)⟩
  | foreign =>
    simp only [Site.step] at hstep
    split at hstep
    · rename_i hleaves
      cases hstep
      exact ⟨s, l, h.agrees.foreign hleaves, h.flight.drop (.inl rfl) (List.Sublist.refl _) (List.Sublist.refl _)⟩
    · cases hstep

theorem Steady.each (hinj : Set.InjOn svc.world.sha256 texts) : ∀ (events : List Event) {site : Site} {s : HostState}
    {l : Lineage String}, Steady svc c hostId texts site s l →
    (∀ text ∈ site.hashedIn svc c hostId events, text ∈ texts) →
    EachDelivery svc c hostId (fun site save _ => InTime site save) site events →
    EachDelivery svc c hostId (fun site _ request => Welcome svc site.db request) site events
  | [], _, _, _, _, _, _ => trivial
  | event :: events, site, s, l, h, ht, hin => by
    have hhere : ∀ text ∈ site.hashed svc event, text ∈ texts := fun text hx => ht text (mem_append_left _ hx)
    constructor
    · intro ⟨save, request⟩ hdelivers
      cases event with
      | deliver i globalToken signerToken now =>
        have htexts : ∀ text ∈ svc.hashed site.db request, text ∈ texts := by
          rw [Option.mem_def] at hdelivers
          simpa only [Site.hashed, hdelivers] using hhere
        obtain ⟨hi, hraw, hnow⟩ := delivers_eq_some hdelivers
        exact (h.deliver hinj hi (hin.1 _ hdelivers) hraw hnow htexts).1
      | _ => cases hdelivers
    · intro site' hstep
      obtain ⟨s', l', h'⟩ := h.step hinj hstep hin.1 hhere
      refine Steady.each hinj events h' (fun text hx => ht text (mem_append_right _ ?_)) (hin.2 site' hstep)
      rw [hstep]
      exact hx

theorem Steady.start : Steady svc c hostId texts .start (.fresh hostId) .empty where
  agrees :=
    { all := fun h => ⟨_, empty_holds h⟩
      tracks := .empty hostId
      allows := .inl rfl
      issued := fun _ _ h => by cases h
      seq := fun _ _ h => by cases h
      heads := fun _ _ h => by cases h
      registry := trivial }
  flight :=
    { sent := fun _ h => by cases h
      next := fun _ h => by cases h
      ids := nodup_nil
      reached := fun _ h => by cases h
      saving := fun _ h => by cases h
      replied := fun _ _ _ h => by cases h
      answered := fun _ h => by cases h }

end Events

/-- In every run of saves whose requests all come in time, the witness takes every advance. -/
theorem inTime_welcome (svc : Service) (c : Client) (hostId : String) (events : List Event)
    (hinj : SavesCollisionFree svc c hostId events)
    (hin : EachDelivery svc c hostId (fun site save _ => InTime site save) .start events) :
    EachDelivery svc c hostId (fun site _ request => Welcome svc site.db request) .start events :=
  Steady.each hinj events .start (fun _ h => h) hin

/-- A request that arrives after its save gave up may still be in time. -/
theorem inTime_welcome_small : EachDelivery smallService (smallClient "a") "a"
    (fun site _ request => Welcome smallService site.db request) .start
    [.save [] none 0, .rollBack, .save [] none 1, .deliver 0 true true 7, .deliver 0 true true 7] := by
  have heval : ((Site.hashedIn smallService (smallClient "a") "a" .start
        [.save [] none 0, .rollBack, .save [] none 1, .deliver 0 true true 7, .deliver 0 true true 7]).map
        smallService.world.sha256).Nodup ∧
      EachDelivery smallService (smallClient "a") "a" (fun site save _ => InTime site save) .start
        [.save [] none 0, .rollBack, .save [] none 1, .deliver 0 true true 7, .deliver 0 true true 7] := by
    decide +kernel
  exact inTime_welcome smallService (smallClient "a") "a" _ (savesCollisionFree_of_nodup heval.1) heval.2

end Portmark.Witness
