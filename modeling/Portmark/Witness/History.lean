/-
The history of one host at the witness, over every run of the service. The receipts the log holds
and the stored state track a lineage: a confirmed receipt is a settled node, the pending one waits,
a discarded one is dropped, a rebaseline is a root. Receipts are told apart by their hashes, so a
run must not hash two different texts to one digest.
-/
import Portmark.Lib.Lineage
import Portmark.Witness.Client
import Portmark.Witness.Step

namespace Portmark.Witness

open Lib Lib.Json Security Option Assoc

/-! ## Runs -/

section Runs

variable (svc : Service)

def Service.run (db : Db) (requests : List Request) : Db :=
  requests.foldl (fun db request => (svc.handle db request).1) db

def Service.after (requests : List Request) (i : Nat) : Db := svc.run .empty (requests.take i)

def Service.hashed (db : Db) (request : Request) : List Text :=
  match svc.admit request with
  | .error _ => []
  | .ok (_, raw, _) =>
    dumps svc.world.floatText (.dict raw) ::
      match (svc.handle db request).2 with
      | .answer _ document => [dumps svc.world.floatText (.dict (answerBody document))]
      | _ => []

def Service.hashedIn : Db → List Request → List Text
  | _, [] => []
  | db, request :: requests => svc.hashed db request ++ Service.hashedIn (svc.handle db request).1 requests

/-- No two texts of the run have one digest. -/
def Service.CollisionFree (requests : List Request) : Prop :=
  Set.InjOn svc.world.sha256 {text | text ∈ svc.hashedIn .empty requests}

variable {svc} in
theorem Service.collisionFree_of_nodup {requests : List Request}
    (h : ((svc.hashedIn .empty requests).map svc.world.sha256).Nodup) : svc.CollisionFree requests :=
  fun _ hx _ hy hxy => List.inj_on_of_nodup_map h hx hy hxy

end Runs

/-! ## Receipts of the log -/

abbrev Receipt := Node String

def strAt (body : Dict) (key : String) : Option String := ((Assoc.get? body key).bind optStr?).join

def receiptOf? (row : LogRow) : Option Receipt :=
  match row.kind, loggedAnswer row.answerJson with
  | .discard, _ => none
  | kind, .ok answer =>
    some { id := row.receiptHash, parent := strAt (answerBody answer) "prev"
           epoch := intAt (answerBody answer) "epoch"
           seq := intAt (answerBody answer) "host_seq", root := kind = .rebaseline }
  | _, .error _ => none

theorem receiptOf?_discard {row : LogRow} (h : row.kind = .discard) : receiptOf? row = none := by
  simp [receiptOf?, h]

def Db.receipts (db : Db) (hostId : String) : List Receipt := (db.logRows hostId).filterMap receiptOf?

def Db.discarded (db : Db) (hostId : String) : List String :=
  ((db.logRows hostId).filter (·.kind = .discard)).map LogRow.receiptHash

theorem optStr?_normal (v : Value) : optStr? (sortKeys v) = optStr? v := by
  cases v <;> simp [sortKeys, optStr?]

theorem strAt_normal {body : Dict} (hn : (Assoc.keys body).Nodup) (key : String) :
    strAt (normalDict body) key = strAt body key := by
  unfold strAt
  rw [get?_normalDict hn, bind_map]
  congr 1
  exact Option.bind_congr fun v _ => optStr?_normal v

theorem intAt_normal {body : Dict} (hn : (Assoc.keys body).Nodup) (key : String) :
    intAt (normalDict body) key = intAt body key := by
  unfold intAt
  rw [get?_normalDict hn]
  cases Assoc.get? body key with
  | none => rfl
  | some v => cases v <;> simp [sortKeys]

/-- A logged answer reads back with its body in normal form. -/
theorem loggedAnswer_signAnswer (w : World) {body : Dict} (h : Plain NoFloat false (.dict body)) :
    loggedAnswer (dumps w.floatText (.dict (signAnswer w body))) = .ok (normalDict (signAnswer w body)) ∧
      answerBody (normalDict (signAnswer w body)) = normalDict body := by
  constructor
  · simp only [loggedAnswer, loads_dumps w.floatText (signAnswer_plain w h), sortKeys_dict_normal]
  · have hn : (Assoc.keys (signAnswer w body)).Nodup := by simp [signAnswer, Assoc.keys]
    unfold answerBody
    rw [get?_normalDict hn]
    simp [signAnswer, get?_cons, sortKeys_dict_normal, Value.dict?]

variable {a : Advance} {r : Rebaseline}

section Rows

variable (w : World) (s : HostState)

def Advance.node (a : Advance) : Receipt :=
  ⟨digest w (.dict (a.receipt w s)), a.body.prev, s.epoch, a.body.hostSeq, false⟩

def Rebaseline.node (r : Rebaseline) : Receipt :=
  ⟨digest w (.dict (r.receipt w s)), s.lastHash, s.epoch + 1, s.lastSeq + 1, true⟩

theorem optStr_join (o : Option String) : ((some (optStr o)).bind optStr?).join = o := by
  cases o <;> rfl

variable {w s}

theorem Advance.receiptOf?_row (h : Plain NoFloat false (.dict (a.receipt w s))) :
    receiptOf? (a.row w s) = some (a.node w s) := by
  obtain ⟨hload, hbody⟩ := loggedAnswer_signAnswer w h
  have hn : (Assoc.keys (a.receipt w s)).Nodup := h.nodup
  simp only [receiptOf?, Advance.row, hload, hbody, strAt_normal hn, intAt_normal hn]
  simp [Advance.receipt, receiptBody, strAt, intAt, get?_cons, optStr_join, Advance.node, -bind_some]

theorem Rebaseline.receiptOf?_row (h : Plain NoFloat false (.dict (r.receipt w s))) :
    receiptOf? (r.row w s) = some (r.node w s) := by
  obtain ⟨hload, hbody⟩ := loggedAnswer_signAnswer w h
  have hn : (Assoc.keys (r.receipt w s)).Nodup := h.nodup
  simp only [receiptOf?, Rebaseline.row, hload, hbody, strAt_normal hn, intAt_normal hn]
  simp [Rebaseline.receipt, rebaselineBody, strAt, intAt, get?_cons, optStr_join, Rebaseline.node,
    -bind_some]

end Rows

/-! ## What a request adds to the log -/

section Log

variable {db db' : Db} {rows : List LogRow} (h : db'.log = db.log ++ rows) (hostId : String)
include h

theorem receipts_append : db'.receipts hostId =
    db.receipts hostId ++ (rows.filter (·.hostId == hostId)).filterMap receiptOf? := by
  simp [Db.receipts, Db.logRows, h]

theorem discarded_append : db'.discarded hostId =
    db.discarded hostId ++ ((rows.filter (·.hostId == hostId)).filter (·.kind = .discard)).map LogRow.receiptHash := by
  simp [Db.discarded, Db.logRows, h]

end Log

/-- The rows of an accepted request: perhaps a discard, then the receipt. -/
theorem log_of_accepted (db db' : Db) {hostId : String} {epoch at_ : Int} {discard : Option Pending} {row : LogRow}
    {n : Receipt} (h : db'.log = db.log ++ (discardRows hostId epoch discard at_ ++ [row])) (hrow : row.hostId = hostId)
    (hkind : row.kind ≠ .discard) (hn : receiptOf? row = some n) : db'.receipts hostId = db.receipts hostId ++ [n] ∧
    db'.discarded hostId = db.discarded hostId ++ (discard.map Pending.receiptHash).toList := by
  constructor
  · rw [receipts_append h]
    cases discard <;> simp [discardRows, hrow, hn, receiptOf?_discard]
  · rw [discarded_append h]
    cases discard <;> simp [discardRows, hrow, hkind]

/-! ## Hashes -/

def issuedBefore (body : Dict) : Option String := (strAt body "discarded").or (strAt body "prev")

def Names (w : World) (texts : Set Text) (hash : String) (earlier : Option String) : Prop :=
  ∃ body : Dict, Plain NoFloat false (.dict body) ∧ dumps w.floatText (.dict body) ∈ texts ∧
    digest w (.dict body) = hash ∧ issuedBefore body = earlier

/-- Two bodies of the run with one digest are one body, up to the order of its fields. -/
theorem normalDict_eq_of_digest {w : World} {texts : Set Text} (hinj : Set.InjOn w.sha256 texts) {b c : Dict}
    (hb : Plain NoFloat false (.dict b)) (hc : Plain NoFloat false (.dict c))
    (hbt : dumps w.floatText (.dict b) ∈ texts)
    (hct : dumps w.floatText (.dict c) ∈ texts) (h : digest w (.dict b) = digest w (.dict c)) :
    normalDict b = normalDict c := by
  have hsort := sortKeys_eq_of_text w.floatText hb hc (hinj hbt hct h)
  exact Value.dict.inj hsort

theorem Names.unique {w : World} {texts : Set Text} (hinj : Set.InjOn w.sha256 texts) (hash : String)
    (x y : Option String) (hx : Names w texts hash x) (hy : Names w texts hash y) : x = y := by
  obtain ⟨b, hb, hbt, hbh, rfl⟩ := hx
  obtain ⟨c, hc, hct, hch, rfl⟩ := hy
  have hn := normalDict_eq_of_digest hinj hb hc hbt hct (hbh.trans hch.symm)
  unfold issuedBefore
  rw [← strAt_normal hb.nodup, ← strAt_normal hb.nodup, ← strAt_normal hc.nodup, ← strAt_normal hc.nodup, hn]

/-- Two advances of the run with one digest are one advance, up to the order of their heads. -/
theorem advance_eq_of_digest {w : World} {texts : Set Text} (hinj : Set.InjOn w.sha256 texts) {raw raw' : Dict}
    {b b' : AdvanceBody} (hb : CheckedAdvance raw b) (hb' : CheckedAdvance raw' b')
    (ht : dumps w.floatText (.dict raw) ∈ texts) (ht' : dumps w.floatText (.dict raw') ∈ texts)
    (h : digest w (.dict raw) = digest w (.dict raw')) : b.norm = b'.norm := by
  have hn := normalDict_eq_of_digest hinj hb.plain hb'.plain ht ht' h
  exact Option.some.inj (hb.decodes_normal.symm.trans (hn ▸ hb'.decodes_normal))

/-! ## The lineage of a host -/

/-- What an advance may name as its earlier receipt. -/
def HostState.Allows (s : HostState) (prev : Option String) : Prop :=
  prev = s.confirmedHash ∨ ∃ p, s.pending = some p ∧ prev = some p.receiptHash

structure Recorded (w : World) (texts : Set Text) (p : Pending) (raw : Dict) (b : AdvanceBody) (receipt : Dict) :
    Prop where
  checked : CheckedAdvance raw b
  text : dumps w.floatText (.dict raw) ∈ texts
  sha : p.requestSha256 = digest w (.dict raw)
  hostSeq : p.hostSeq = b.hostSeq
  heads : p.heads = inOrder b.heads
  registry : p.registry = b.registry
  plain : Plain NoFloat false (.dict receipt)
  hash : p.receiptHash = digest w (.dict receipt)
  answer : p.answer = normalDict (signAnswer w receipt)

structure Tracks (w : World) (texts : Set Text) (db : Db) (hostId : String) (s : HostState) (c : Lineage String) : Prop
    where
  holds : db.Holds hostId s
  epoch : s.epoch = c.epoch
  confirmedHash : s.confirmedHash = c.baseId
  confirmedSeq : s.confirmedSeq = c.baseSeq
  pending : s.pendingView = c.waiting.map fun n => (n.seq, n.id)
  receipts : db.receipts hostId = c.issued.reverse
  discarded : db.discarded hostId = c.dropped.reverse
  hashes : Follows (Names w texts) (c.issued.map Node.id)
  -- the request that is answered again when it comes again
  request : ∀ p, s.pending = some p → ∃ raw b receipt, Recorded w texts p raw b receipt ∧ b.prev = s.confirmedHash
  valid : c.Valid

section Tracks

variable {w : World} {texts : Set Text} {db : Db} {hostId : String} {s : HostState} {c : Lineage String}

section

variable (h : Tracks w texts db hostId s c)

include h

theorem Tracks.waiting_of_pending {p : Pending} (hp : s.pending = some p) :
    ∃ n, c.waiting = some n ∧ n.id = p.receiptHash ∧ n.seq = p.hostSeq := by
  have hv := h.pending
  simp only [HostState.pendingView, hp, map_some] at hv
  obtain ⟨n, hn, hp⟩ := map_eq_some_iff.1 hv.symm
  exact ⟨n, hn, congrArg Prod.snd hp, congrArg Prod.fst hp⟩

theorem Tracks.waitingId : c.waiting.map Node.id = s.pending.map Pending.receiptHash := by
  have hv := congrArg (Option.map Prod.snd) h.pending
  simp only [HostState.pendingView, map_map] at hv
  exact hv.symm

theorem Tracks.lastHash : s.lastHash = c.tipId := by
  unfold HostState.lastHash Lineage.tipId
  rw [h.waitingId, ← h.confirmedHash]
  cases s.pending <;> rfl

theorem Tracks.lastSeq : s.lastSeq = c.tipSeq := by
  unfold HostState.lastSeq Lineage.tipSeq
  rw [← h.confirmedSeq]
  have hv := congrArg (Option.map Prod.fst) h.pending
  simp only [HostState.pendingView, map_map] at hv
  rw [show c.waiting.map Node.seq = _ from hv.symm]
  cases s.pending <;> rfl

theorem Tracks.allows_iff {prev : Option String} : s.Allows prev ↔ c.Allows prev := by
  unfold HostState.Allows Lineage.Allows
  rw [h.confirmedHash]
  refine or_congr_right ⟨?_, ?_⟩
  · rintro ⟨p, hp, hprev⟩
    obtain ⟨n, hn, hid, -⟩ := h.waiting_of_pending hp
    exact ⟨n, hn, hid ▸ hprev⟩
  · rintro ⟨n, hn, hprev⟩
    have hid := h.waitingId
    rw [hn, map_some] at hid
    obtain ⟨p, hp, hpid⟩ := map_eq_some_iff.1 hid.symm
    exact ⟨p, hp, hpid ▸ hprev⟩

end

/-- The next receipt has a hash of its own: it names the newest one. -/
theorem Tracks.fresh (hinj : Set.InjOn w.sha256 texts) (h : Tracks w texts db hostId s c) {hash : String}
    (hn : Names w texts hash s.lastHash) :
    Follows (Names w texts) (hash :: c.issued.map Node.id) ∧ ∀ m ∈ c.issued, m.id ≠ hash := by
  have hf : Follows (Names w texts) (hash :: c.issued.map Node.id) := by
    refine ⟨?_, h.hashes⟩
    rw [List.head?_map, show c.issued.head?.map Node.id = c.tipId from h.valid.newest, ← h.lastHash]
    exact hn
  have hnd := hf.nodup (Names.unique hinj)
  exact ⟨hf, fun m hm hid => (List.nodup_cons.1 hnd).1 (hid ▸ List.mem_map_of_mem hm)⟩

variable {svc : Service} {request : Request}

theorem Advanced.hashed (h : Advanced svc db request s a) : svc.hashed db request =
    [dumps svc.world.floatText (.dict a.raw), dumps svc.world.floatText (.dict (a.receipt svc.world s))] := by
  obtain ⟨signer, hadmitted⟩ := h.admitted
  simp [Service.hashed, hadmitted, h.handled]

theorem Rebaselined.hashed (h : Rebaselined svc db request s r) : svc.hashed db request =
    [dumps svc.world.floatText (.dict r.raw), dumps svc.world.floatText (.dict (r.receipt svc.world s))] := by
  simp [Service.hashed, h.admitted, h.handled]

/-- The receipt of an advance names the receipt issued before it: the one it discards, or else the
one it is built on. -/
theorem Advanced.names (h : Advanced svc db request s a)
    (ht : ∀ text ∈ svc.hashed db request, text ∈ texts) :
    Names svc.world texts (digest svc.world (.dict (a.receipt svc.world s))) s.lastHash := by
  refine ⟨_, h.receipt_plain, ht _ (by simp [h.hashed]), rfl, ?_⟩
  have hbefore : issuedBefore (a.receipt svc.world s) = (a.discard.map Pending.receiptHash).or a.body.prev := by
    simp [issuedBefore, strAt, Advance.receipt, receiptBody, get?_cons, optStr_join, -bind_some]
  rw [hbefore]
  unfold HostState.lastHash
  rcases chainPart_ok (judgeAdvance_ok h.judged) with ⟨p, hp, hprev, -, -, hd⟩ | ⟨-, hprev, -, -, hd⟩
  · simp [hp, hd, hprev]
  rw [hd]
  cases s.pending with
  | none => simp [hprev]
  | some => simp

theorem Rebaselined.names (h : Rebaselined svc db request s r)
    (ht : ∀ text ∈ svc.hashed db request, text ∈ texts) :
    Names svc.world texts (digest svc.world (.dict (r.receipt svc.world s))) s.lastHash := by
  refine ⟨_, h.receipt_plain, ht _ (by simp [h.hashed]), rfl, ?_⟩
  simp [issuedBefore, strAt, Rebaseline.receipt, rebaselineBody, get?_cons, optStr_join, -bind_some]

theorem Tracks.advanced (hinj : Set.InjOn svc.world.sha256 texts)
    (h : Tracks svc.world texts db a.body.hostId s c) (ha : Advanced svc db request s a)
    (ht : ∀ text ∈ svc.hashed db request, text ∈ texts) : ∃ c', c.Step c' ∧
      Tracks svc.world texts (db.afterAdvance svc.world s a) a.body.hostId (a.after svc.world s).norm c' := by
  obtain ⟨hfollows, hfresh⟩ := h.fresh hinj (ha.names ht)
  obtain ⟨hreceipts, hdiscarded⟩ := log_of_accepted db (db.afterAdvance svc.world s a) rfl rfl
    (by simp [Advance.row]) (Advance.receiptOf?_row ha.receipt_plain)
  have hraw : dumps svc.world.floatText (.dict a.raw) ∈ texts := ht _ (by simp [ha.hashed])
  rcases chainPart_ok (judgeAdvance_ok ha.judged) with ⟨p, hp, hprev, hseq, hc, hd⟩ | ⟨-, hprev, hseq, hc, hd⟩
  · -- built on the pending receipt: it is confirmed
    obtain ⟨n, hn, hid, hnseq⟩ := h.waiting_of_pending hp
    have hstep : c.Step (c.build n (a.node svc.world s)) :=
      .build hn ⟨by rw [hid]; exact hprev, by rw [hnseq]; exact hseq, h.epoch, rfl, hfresh⟩
    refine ⟨_, hstep, ha.holds_after, ?_, ?_, ?_, rfl, ?_, ?_, hfollows, ?_, h.valid.step hstep⟩
    · show (s.confirm a.confirm).epoch = n.epoch
      rw [s.confirm_epoch, h.epoch, (h.valid.waiting_next n hn).2.2.2]
    · show (s.confirm a.confirm).confirmedHash = some n.id
      rw [hc, hid]
      rfl
    · show (s.confirm a.confirm).confirmedSeq = n.seq
      rw [hc, hnseq]
      rfl
    · rw [hreceipts, h.receipts]
      simp [Lineage.build]
    · rw [hdiscarded, h.discarded, hd]
      simp [Lineage.build]
    · intro q hq
      cases hq
      refine ⟨a.raw, a.body, a.receipt svc.world s, ⟨ha.checked, hraw, rfl, rfl, rfl, rfl, ha.receipt_plain, rfl, rfl⟩,
        ?_⟩
      show a.body.prev = (s.confirm a.confirm).confirmedHash
      rw [hc, hprev]
      rfl
  · -- built on the confirmed receipt: the pending one is discarded
    have hstep : c.Step (c.replace (a.node svc.world s)) :=
      .replace ⟨hprev.trans h.confirmedHash, by rw [← h.confirmedSeq]; exact hseq, h.epoch, rfl, hfresh⟩
    have hafter : s.confirm a.confirm = s := by rw [hc]; rfl
    refine ⟨_, hstep, ha.holds_after, ?_, ?_, ?_, rfl, ?_, ?_, hfollows, ?_, h.valid.step hstep⟩
    · show (s.confirm a.confirm).epoch = c.epoch
      rw [hafter, h.epoch]
    · show (s.confirm a.confirm).confirmedHash = c.baseId
      rw [hafter, h.confirmedHash]
    · show (s.confirm a.confirm).confirmedSeq = c.baseSeq
      rw [hafter, h.confirmedSeq]
    · rw [hreceipts, h.receipts]
      simp [Lineage.replace]
    · rw [hdiscarded, h.discarded, hd, ← h.waitingId]
      cases hw : c.waiting <;> simp [Lineage.replace, hw]
    · intro q hq
      cases hq
      refine ⟨a.raw, a.body, a.receipt svc.world s, ⟨ha.checked, hraw, rfl, rfl, rfl, rfl, ha.receipt_plain, rfl, rfl⟩,
        ?_⟩
      show a.body.prev = (s.confirm a.confirm).confirmedHash
      rw [hafter, hprev]

theorem Tracks.rebaselined (hinj : Set.InjOn svc.world.sha256 texts)
    (h : Tracks svc.world texts db r.body.hostId s c) (hr : Rebaselined svc db request s r)
    (ht : ∀ text ∈ svc.hashed db request, text ∈ texts) : ∃ c', c.Step c' ∧
      Tracks svc.world texts (db.afterRebaseline svc.world s r) r.body.hostId (r.after svc.world s).norm c' := by
  obtain ⟨hfollows, hfresh⟩ := h.fresh hinj (hr.names ht)
  obtain ⟨hreceipts, hdiscarded⟩ := log_of_accepted db (db.afterRebaseline svc.world s r) rfl rfl
    (by simp [Rebaseline.row]) (Rebaseline.receiptOf?_row hr.receipt_plain)
  have hstep : c.Step (c.restart (r.node svc.world s)) :=
    .restart ⟨h.lastHash, by rw [← h.lastSeq]; rfl, by rw [← h.epoch]; rfl, rfl, hfresh⟩
  refine ⟨_, hstep, hr.holds_after, rfl, rfl, rfl, rfl, ?_, ?_, hfollows, fun q hq => (by cases hq), h.valid.step hstep⟩
  · rw [hreceipts, h.receipts]
    simp [Lineage.restart]
  · rw [hdiscarded, h.discarded, ← h.waitingId]
    cases hw : c.waiting <;> simp [Lineage.restart, hw]

theorem Tracks.of_same {db' : Db} (h : Tracks w texts db hostId s c) (hsame : db.SameFor db' hostId) :
    Tracks w texts db' hostId s c where
  __ := h
  holds := hsame.holds h.holds
  receipts := by rw [← h.receipts, Db.receipts, Db.receipts, hsame.logRows]
  discarded := by rw [← h.discarded, Db.discarded, Db.discarded, hsame.logRows]

/-- Every request leaves the lineage of a host as it is, or takes it one step. -/
theorem Tracks.handle (hinj : Set.InjOn svc.world.sha256 texts) (hdb : ∀ hostId, ∃ s, db.Holds hostId s)
    (h : Tracks svc.world texts db hostId s c) (ht : ∀ text ∈ svc.hashed db request, text ∈ texts) :
    ∃ s' c', (c' = c ∨ c.Step c') ∧ Tracks svc.world texts (svc.handle db request).1 hostId s' c' := by
  rcases handle_host svc hdb h.holds request with hsame | ⟨a, hh, ha⟩ | ⟨r, hh, hr⟩
  · exact ⟨s, c, .inl rfl, h.of_same hsame⟩
  · subst hh
    rw [ha.handled]
    obtain ⟨c', hstep, htracks⟩ := h.advanced hinj ha ht
    exact ⟨_, c', .inr hstep, htracks⟩
  · subst hh
    rw [hr.handled]
    obtain ⟨c', hstep, htracks⟩ := h.rebaselined hinj hr ht
    exact ⟨_, c', .inr hstep, htracks⟩

theorem Tracks.run (hinj : Set.InjOn svc.world.sha256 texts) : ∀ (requests : List Request) {db : Db} {s : HostState}
    {c : Lineage String}, (∀ hostId, ∃ s, db.Holds hostId s) → Tracks svc.world texts db hostId s c →
    (∀ text ∈ svc.hashedIn db requests, text ∈ texts) →
    ∃ f : Nat → Lineage String, f 0 = c ∧ (∀ i, f (i + 1) = f i ∨ (f i).Step (f (i + 1))) ∧
      ∀ i, ∃ t, Tracks svc.world texts (svc.run db (requests.take i)) hostId t (f i) := by
  intro requests
  induction requests with
  | nil =>
    intro db s c _ h _
    exact ⟨fun _ => c, rfl, fun _ => .inl rfl, fun i => ⟨s, by simpa [Service.run] using h⟩⟩
  | cons request requests ih =>
    intro db s c hdb h ht
    have hhere : ∀ text ∈ svc.hashed db request, text ∈ texts := fun text hx => ht text (List.mem_append_left _ hx)
    have hrest : ∀ text ∈ svc.hashedIn (svc.handle db request).1 requests, text ∈ texts :=
      fun text hx => ht text (List.mem_append_right _ hx)
    obtain ⟨s', c', hstep, h'⟩ := h.handle hinj hdb hhere
    obtain ⟨f, hf0, hnext, htracks⟩ := ih (handle_holds hdb) h' hrest
    refine ⟨fun i => i.casesOn c f, rfl, ?_, ?_⟩
    · rintro (_ | i)
      · show f 0 = c ∨ c.Step (f 0)
        rw [hf0]; exact hstep
      · exact hnext i
    · rintro (_ | i)
      · exact ⟨s, h⟩
      · exact htracks i

theorem Tracks.empty (hostId : String) : Tracks w texts Db.empty hostId (.fresh hostId) Lineage.empty where
  holds := empty_holds hostId
  epoch := rfl
  confirmedHash := rfl
  confirmedSeq := rfl
  pending := rfl
  receipts := rfl
  discarded := rfl
  hashes := trivial
  request p hp := by cases hp
  valid := .empty

/-- The request was refused, and the file is as it was. -/
def Refused (svc : Service) (db : Db) (request : Request) : Prop :=
  ∃ status refusal document, svc.handle db request = (db, .refused status refusal document)

/-- An advance on a receipt that is neither the confirmed nor the pending one is refused. -/
theorem Tracks.refused (hinj : Set.InjOn svc.world.sha256 texts) (h : Tracks svc.world texts db hostId s c)
    (ht : ∀ text ∈ svc.hashed db request, text ∈ texts) {signer : String} {raw : Dict} {b : AdvanceBody}
    (hadmitted : svc.admit request = .ok (signer, raw, .advance b)) (hhost : b.hostId = hostId)
    (hnot : ¬ s.Allows b.prev) : Refused svc db request := by
  obtain ⟨hconfirmed, hpending⟩ := not_or.1 hnot
  obtain ⟨-, hchecked, -⟩ := admit_ok hadmitted
  have htext : dumps svc.world.floatText (.dict raw) ∈ texts := ht _ (by simp [Service.hashed, hadmitted])
  -- no replay: the pending request is built on the confirmed receipt, so it is another request
  have hunseen : s.pending.map Pending.requestSha256 ≠ some (digest svc.world (.dict raw)) := by
    intro hsame
    obtain ⟨p, hp, hsha⟩ := map_eq_some_iff.1 hsame
    obtain ⟨raw', b', _, hr, hprev⟩ := h.request p hp
    have hsame : b.norm = b'.norm :=
      advance_eq_of_digest hinj hchecked hr.checked htext hr.text (hsha.symm.trans hr.sha)
    have : b.prev = b'.prev := show b.norm.prev = b'.norm.prev by rw [hsame]
    exact hconfirmed (this.trans hprev)
  have hchain : ∀ known, ∃ refusal, chainPart s b.prev b.hostSeq known = .error refusal := by
    intro known
    unfold chainPart
    cases hp : s.pending with
    | none => exact ⟨_, if_neg hconfirmed⟩
    | some p => exact ⟨_, (if_neg fun hprev => hpending ⟨p, hp, hprev⟩).trans (if_neg hconfirmed)⟩
  obtain ⟨refusal, hrefusal⟩ := hchain (db.known b.hostId)
  have hdecide :
    decideAdvance svc.world.env s b (digest svc.world (.dict raw)) (db.heads b.hostId) (db.known b.hostId) =
      .refuse refusal := by
    unfold decideAdvance judgeAdvance
    rw [if_neg hunseen, hrefusal]
    rfl
  have hdispatch : svc.dispatch db signer raw (.advance b) (request.raw.getD []) request.now =
      .ok (db, svc.refusal refusal (some (digest svc.world (.dict raw))) (some b.hostId) request.now) := by
    simp only [Service.dispatch, Body.hostId, hhost, h.holds.state]
    rw [hhost] at hdecide
    simp [bind, Except.bind, Service.advance, hhost, hdecide]
  exact ⟨_, _, _, by simp only [Service.handle, hadmitted, hdispatch]; rfl⟩

end Tracks

theorem hashed_subset (svc : Service) : ∀ (requests : List Request) (db : Db) (j : Nat) {request : Request},
    requests[j]? = some request → ∀ text ∈ svc.hashed (svc.run db (requests.take j)) request,
      text ∈ svc.hashedIn db requests
  | request :: requests, db, 0, _, h, text, ht => by
    cases h
    exact List.mem_append_left _ ht
  | request :: requests, db, j + 1, _, h, text, ht =>
    List.mem_append_right _ (hashed_subset svc requests (svc.handle db request).1 j h text ht)

/-! ## One linear history -/

section Linear

variable (svc : Service) (requests : List Request) (hostId : String)

def Service.EverConfirmed (hash : String) : Prop :=
  ∃ i s, (svc.after requests i).hostState hostId = .ok s ∧ s.confirmedHash = some hash

structure LinearHistory : Prop where
  state : ∀ i, ∃ s, (svc.after requests i).hostState hostId = .ok s
  issued : ∀ hash, svc.EverConfirmed requests hostId hash →
    ∃ r ∈ (svc.run .empty requests).receipts hostId, r.id = hash
  chain : ∀ epoch, ∃ receipts : List Receipt, EpochChain epoch receipts ∧ ∀ r, r ∈ receipts ↔
    r ∈ (svc.run .empty requests).receipts hostId ∧ r.epoch = epoch ∧ svc.EverConfirmed requests hostId r.id
  children : ∀ r ∈ (svc.run .empty requests).receipts hostId, ∀ r' ∈ (svc.run .empty requests).receipts hostId,
    svc.EverConfirmed requests hostId r.id → svc.EverConfirmed requests hostId r'.id →
    ∀ hash, r.parent = some hash → r'.parent = some hash → r = r'
  monotone : ∀ i j, i ≤ j → ∀ s s', (svc.after requests i).hostState hostId = .ok s →
    (svc.after requests j).hostState hostId = .ok s' → s.confirmedSeq ≤ s'.confirmedSeq ∧ s.epoch ≤ s'.epoch
  discarded : ∀ i j, i ≤ j → ∀ hash ∈ (svc.after requests i).discarded hostId,
    (∀ s, (svc.after requests j).hostState hostId = .ok s →
      s.confirmedHash ≠ some hash ∧ s.pending.map Pending.receiptHash ≠ some hash) ∧
    ∀ request signer raw b, requests[j]? = some request → svc.admit request = .ok (signer, raw, .advance b) →
      b.hostId = hostId → b.prev = some hash → Refused svc (svc.after requests j) request

structure Traced (f : Nat → Lineage String) : Prop where
  run : Lineage.Run f
  state : ∀ i, ∃ s, (svc.after requests i).hostState hostId = .ok s
  tracks : ∀ {i s}, (svc.after requests i).hostState hostId = .ok s →
    Tracks svc.world {text | text ∈ svc.hashedIn .empty requests} (svc.after requests i) hostId s (f i)

end Linear

section Traced

variable {svc : Service} {requests : List Request} {hostId : String} {f : Nat → Lineage String}

theorem Service.traced (hinj : svc.CollisionFree requests) (hostId : String) : ∃ f, Traced svc requests hostId f := by
  obtain ⟨f, hf0, hnext, htracks⟩ := Tracks.run hinj requests (fun h => ⟨_, empty_holds h⟩) (Tracks.empty hostId)
    fun _ h => h
  refine ⟨f, ⟨hf0, hnext⟩, fun i => ?_, fun {i s} hs => ?_⟩
  · obtain ⟨t, ht⟩ := htracks i
    exact ⟨t, ht.holds.state⟩
  · obtain ⟨t, ht⟩ := htracks i
    exact (Except.ok.inj (hs.symm.trans ht.holds.state)) ▸ ht

theorem Traced.mem_receipts (h : Traced svc requests hostId f) {i : Nat} {r : Receipt} :
    r ∈ (svc.after requests i).receipts hostId ↔ r ∈ (f i).issued := by
  obtain ⟨s, hs⟩ := h.state i
  rw [(h.tracks hs).receipts, List.mem_reverse]

theorem Traced.mem_discarded (h : Traced svc requests hostId f) {i : Nat} {hash : String} :
    hash ∈ (svc.after requests i).discarded hostId ↔ hash ∈ (f i).dropped := by
  obtain ⟨s, hs⟩ := h.state i
  rw [(h.tracks hs).discarded, List.mem_reverse]

theorem Service.run_eq_after (svc : Service) (requests : List Request) :
    svc.run .empty requests = svc.after requests requests.length := by
  simp [Service.after]

/-- A receipt is confirmed at some time exactly when it ends up settled. -/
theorem Traced.everConfirmed_iff (h : Traced svc requests hostId f) {hash : String} :
    svc.EverConfirmed requests hostId hash ↔ ∃ n ∈ (f requests.length).settled, n.id = hash := by
  constructor
  · rintro ⟨i, s, hs, hc⟩
    -- after the last request nothing changes any more
    have hmin : svc.after requests i = svc.after requests (min i requests.length) := by
      unfold Service.after
      rw [List.take_eq_take_min]
    rw [hmin] at hs
    exact h.run.settled_of_base (Nat.min_le_right _ _) ((h.tracks hs).confirmedHash.symm.trans hc)
  · rintro ⟨n, hn, rfl⟩
    obtain ⟨j, -, hj⟩ := h.run.settled_once hn
    obtain ⟨s, hs⟩ := h.state j
    exact ⟨j, s, hs, (h.tracks hs).confirmedHash.trans hj⟩

theorem Traced.settled_iff (h : Traced svc requests hostId f) {r : Receipt} : r ∈ (f requests.length).settled ↔
      r ∈ (svc.run .empty requests).receipts hostId ∧ svc.EverConfirmed requests hostId r.id := by
  have hv := h.run.valid requests.length
  rw [svc.run_eq_after, h.mem_receipts, h.everConfirmed_iff]
  constructor
  · intro hr
    exact ⟨hv.issued_of_kept (Lineage.mem_kept.2 (.inr hr)), r, hr, rfl⟩
  · rintro ⟨hr, n, hn, hid⟩
    exact hv.node_eq (hv.issued_of_kept (Lineage.mem_kept.2 (.inr hn))) hr hid ▸ hn

/-- No advance may be built on a receipt that the lineage does not allow. -/
theorem Traced.refused (hinj : svc.CollisionFree requests) (h : Traced svc requests hostId f) {j : Nat}
    {request : Request} {signer : String} {raw : Dict} {b : AdvanceBody} (hj : requests[j]? = some request)
    (hadmitted : svc.admit request = .ok (signer, raw, .advance b)) (hhost : b.hostId = hostId)
    (hnot : ¬ (f j).Allows b.prev) : Refused svc (svc.after requests j) request := by
  obtain ⟨s, hs⟩ := h.state j
  have ht := h.tracks hs
  exact ht.refused hinj (hashed_subset svc requests _ j hj) hadmitted hhost fun ha => hnot (ht.allows_iff.1 ha)

end Traced

/-- The witness keeps one linear history for each host, whatever requests come and in whatever order. -/
theorem history_linear (svc : Service) (requests : List Request) (hinj : svc.CollisionFree requests) (hostId : String) :
    LinearHistory svc requests hostId := by
  obtain ⟨f, h⟩ := svc.traced hinj hostId
  have hv := h.run.valid requests.length
  refine ⟨h.state, ?_, ?_, ?_, ?_, ?_⟩
  · intro hash hc
    obtain ⟨n, hn, hid⟩ := h.everConfirmed_iff.1 hc
    exact ⟨n, (h.settled_iff.1 hn).1, hid⟩
  · intro epoch
    refine ⟨_, hv.linked.epochChain epoch, fun r => ?_⟩
    rw [List.mem_reverse, List.mem_filter, h.settled_iff, decide_eq_true_eq]
    tauto
  · intro r hr r' hr' hc hc' hash hp hp'
    exact hv.children r (h.settled_iff.2 ⟨hr, hc⟩) r' (h.settled_iff.2 ⟨hr', hc'⟩) hash hp hp'
  · intro i j hij s s' hs hs'
    have hext := h.run.extends_ hij
    rw [(h.tracks hs).confirmedSeq, (h.tracks hs').confirmedSeq, (h.tracks hs).epoch, (h.tracks hs').epoch]
    exact ⟨hext.baseSeq, hext.epoch⟩
  · intro i j hij hash hd
    have hlive : ¬ (f j).Live hash :=
      (h.run.valid j).not_live_of_dropped ((h.run.extends_ hij).dropped.subset (h.mem_discarded.1 hd))
    refine ⟨fun s hs => ⟨fun hc => ?_, fun hp => ?_⟩, fun request signer raw b hj hadmitted hhost hprev => ?_⟩
    · exact hlive (.inl ((h.tracks hs).confirmedHash.symm.trans hc))
    · exact hlive (.inr ((h.tracks hs).waitingId.trans hp))
    · exact h.refused hinj hj hadmitted hhost fun ha => hlive (hprev ▸ ha).live

theorem smallRun_run : (smallService.after smallRun 2).receipts "a" =
      [⟨smallReceipt.2, none, 1, 1, false⟩, ⟨smallReceipt'.2, some smallReceipt.2, 1, 2, false⟩] ∧
    (smallService.run .empty smallRun).receipts "a" = (smallService.after smallRun 2).receipts "a" ∧
    ((smallService.hashedIn .empty smallRun).map smallService.world.sha256).Nodup := by
  decide +kernel

theorem history_linear_small : ((smallService.run .empty smallRun).receipts "a").map Node.seq = [1, 2] ∧
    LinearHistory smallService smallRun "a" := by
  obtain ⟨hreceipts, hsame, hnodup⟩ := smallRun_run
  exact ⟨by rw [hsame, hreceipts]; rfl, history_linear smallService smallRun
    (Service.collisionFree_of_nodup hnodup) "a"⟩

end Portmark.Witness
