/-
What one request can do to the witness's file: nothing, an advance, or a rebaseline. Each is given
with everything that was checked before it and everything that was written.
-/
import Portmark.Witness.Codec

namespace Portmark.Witness

open Lib Lib.Json Security List

/-! ## Admission -/

section Admission

variable {svc : Service}

theorem openRequest_ok {raw : Option Text} {signer : String} {body : Dict}
    (h : svc.openRequest raw = .ok (signer, body)) : loggedBody (raw.getD []) = .ok body ∧ Parsed (.dict body) := by
  unfold Service.openRequest at h
  split at h
  · cases h
  · rename_i envelope hload
    obtain ⟨text, rfl, hloads, hplain⟩ := strictJsonLoads_ok hload
    split at h
    · cases h
    split at h
    · rename_i hbody _ _
      split at h
      · cases h
      split at h
      · cases h
      split at h
      · split at h
        · cases h
          exact ⟨by simp [loggedBody, hloads, hbody], hplain.get hbody⟩
        · cases h
      · cases h
    · cases h
  · cases h

/-- An admitted request: the logged text gives back its body, and the body was checked. -/
theorem admit_ok {request : Request} {signer : String} {raw : Dict} {body : Body}
    (h : svc.admit request = .ok (signer, raw, body)) :
    loggedBody (request.raw.getD []) = .ok raw ∧ Checked raw body ∧
      checkBody svc.world.env svc.world.keyId raw = .ok body := by
  unfold Service.admit at h
  split at h
  · cases h
  obtain ⟨_, -, h⟩ := bind_ok_iff.1 h
  obtain ⟨opened, hopen, h⟩ := bind_ok_iff.1 h
  obtain ⟨_, -, h⟩ := bind_ok_iff.1 h
  obtain ⟨body', hbody, h⟩ := bind_ok_iff.1 h
  obtain ⟨_, -, h⟩ := bind_ok_iff.1 h
  obtain ⟨_, -, h⟩ := bind_ok_iff.1 h
  cases h
  obtain ⟨hlogged, hparsed⟩ := openRequest_ok hopen
  exact ⟨hlogged, checkBody_ok hparsed hbody, hbody⟩

end Admission

/-! ## Writes -/

theorem readable_of_bindInt {n : Int} {u : Unit} (h : bindInt n = .ok u) : Readable n := by
  unfold bindInt at h
  split at h
  · exact readable_of_fitsInt64 ‹_›
  · cases h

variable {db db' : Db}

theorem append_ok {row : LogRow} (h : db.append row = .ok db') :
    db' = { db with log := db.log ++ [row] } ∧ Readable row.epoch ∧ Readable row.hostSeq ∧ Readable row.createdAt := by
  obtain ⟨_, he, h⟩ := bind_ok_iff.1 h
  obtain ⟨_, hs, h⟩ := bind_ok_iff.1 h
  obtain ⟨_, hc, h⟩ := bind_ok_iff.1 h
  cases h
  exact ⟨rfl, readable_of_bindInt he, readable_of_bindInt hs, readable_of_bindInt hc⟩

theorem appendAll_ok : ∀ {rows : List LogRow} {db db' : Db}, db.appendAll rows = .ok db' →
    db' = { db with log := db.log ++ rows }
  | [], db, db', h => by
    cases h
    simp
  | row :: rows, db, db', h => by
    obtain ⟨db₁, h₁, h⟩ := bind_ok_iff.1 h
    obtain ⟨rfl, -⟩ := append_ok h₁
    have hrest := appendAll_ok h
    rw [hrest]
    simp

def Db.withHeads (db : Db) (hostId : String) (heads : String → Option Head) : Db :=
  { db with heads := Function.update db.heads hostId heads }

variable {hostId : String}

theorem setHead_ok {entry : String × Head} (h : db.setHead hostId entry = .ok db') :
    db' = db.withHeads hostId (Function.update (db.heads hostId) entry.1 (some entry.2)) := by
  obtain ⟨_, -, h⟩ := bind_ok_iff.1 h
  cases h
  rfl

theorem confirmHeads_ok : ∀ {heads : Assoc Head} {db db' : Db}, (Assoc.keys heads).Nodup →
    db.confirmHeads hostId heads = .ok db' →
    db' = db.withHeads hostId fun task => (Assoc.get? heads task).or (db.heads hostId task)
  | [], db, db', _, h => by
    cases h
    simp [Db.withHeads]
  | entry :: heads, db, db', hn, h => by
    obtain ⟨db₁, h₁, h⟩ := bind_ok_iff.1 h
    obtain ⟨hnot, hn⟩ := nodup_cons.1 hn
    rw [confirmHeads_ok hn h, setHead_ok h₁]
    unfold Db.withHeads
    simp only [Function.update_self, Function.update_idem]
    congr 2
    funext task
    by_cases ht : entry.1 = task
    · subst ht
      rw [Assoc.get?_eq_none_iff.2 hnot, Assoc.get?_cons]
      simp
    · rw [Assoc.get?_cons, if_neg (Ne.symm ht), Function.update_of_ne (Ne.symm ht)]

theorem replaceHeads_ok {heads : Assoc Head} (hn : (Assoc.keys heads).Nodup)
    (h : db.replaceHeads hostId heads = .ok db') : db' = db.withHeads hostId (Assoc.get? heads) := by
  rw [confirmHeads_ok hn h]
  simp [Db.withHeads]

/-! ## The chain part -/

theorem sequenced_ok {hostSeq base : Int} {c d : Option Pending} {r : Option Pending × Option Pending}
    (h : sequenced hostSeq base c d = .ok r) : hostSeq = base + 1 ∧ r = (c, d) := by
  unfold sequenced at h
  split at h
  · rename_i hseq
    cases h
    exact ⟨hseq, rfl⟩
  · cases h

variable {s : HostState} {known : String → Option KnownEntry} {discard : Option Pending}

/-- An accepted advance is built on the pending receipt, which it confirms, or else on the confirmed
one, and then it discards the pending one. -/
theorem chainPart_ok {prev : Option String} {hostSeq : Int}
    {confirm : Option Pending} (h : chainPart s prev hostSeq known = .ok (confirm, discard)) :
    (∃ p, s.pending = some p ∧ prev = some p.receiptHash ∧ hostSeq = p.hostSeq + 1 ∧ confirm = some p ∧
      discard = none) ∨
    ((∀ p, s.pending = some p → prev ≠ some p.receiptHash) ∧ prev = s.confirmedHash ∧ hostSeq = s.confirmedSeq + 1 ∧
      confirm = none ∧ discard = s.pending) := by
  unfold chainPart at h
  split at h
  · rename_i p hp
    split at h
    · rename_i hprev
      obtain ⟨hseq, hcd⟩ := sequenced_ok h
      cases hcd
      exact .inl ⟨p, hp, hprev, hseq, rfl, rfl⟩
    · rename_i hnot
      split at h
      · rename_i hprev
        obtain ⟨hseq, hcd⟩ := sequenced_ok h
        cases hcd
        exact .inr ⟨fun q hq => by rw [hp] at hq; cases hq; exact hnot, hprev, hseq, rfl, hp.symm⟩
      · cases h
  · rename_i hp
    split at h
    · rename_i hprev
      obtain ⟨hseq, hcd⟩ := sequenced_ok h
      cases hcd
      exact .inr ⟨fun q hq => (by rw [hp] at hq; cases hq), hprev, hseq, rfl, hp.symm⟩
    · cases h

variable {b : AdvanceBody} {taskHead : String → Option Head}

theorem judgeAdvance_ok {env : Env} {confirm : Option Pending}
    (h : judgeAdvance env s b taskHead known = .ok (confirm, discard)) :
    chainPart s b.prev b.hostSeq known = .ok (confirm, discard) := by
  obtain ⟨⟨c, d⟩, hchain, h⟩ := bind_ok_iff.1 h
  obtain ⟨_, -, h⟩ := bind_ok_iff.1 h
  obtain ⟨_, -, h⟩ := bind_ok_iff.1 h
  cases h
  exact hchain

/-- What an accepted advance confirms, it finds pending. -/
theorem confirm_pending {env : Env} {confirm : Option Pending}
    (h : judgeAdvance env s b taskHead known = .ok (confirm, discard)) {p : Pending} (hp : confirm = some p) :
    s.pending = some p := by
  rcases chainPart_ok (judgeAdvance_ok h) with ⟨q, hq, -, -, rfl, -⟩ | ⟨-, -, -, rfl, -⟩
  · rw [hq, hp]
  · cases hp

theorem confirmedBy_of_chainPart {prev : Option String} {hostSeq : Int} {confirm : Option Pending}
    (h : chainPart s prev hostSeq known = .ok (confirm, discard)) : confirmedBy s prev = confirm := by
  unfold confirmedBy
  rcases chainPart_ok h with ⟨q, hq, hprev, -, rfl, -⟩ | ⟨hnot, -, -, rfl, -⟩
  · simp [hq, hprev]
  · cases hp : s.pending with
    | none => rfl
    | some p => simp [hnot p hp]

/-! ## What a request does -/

@[simp] theorem HostState.confirm_hostId (s : HostState) (p : Option Pending) : (s.confirm p).hostId = s.hostId := by
  cases p <;> rfl

@[simp] theorem HostState.confirm_epoch (s : HostState) (p : Option Pending) : (s.confirm p).epoch = s.epoch := by
  cases p <;> rfl

@[simp] theorem applyAdvance_hostId (w : World) (s : HostState) (b : AdvanceBody) (sha : String) (p : Option Pending)
    (answer : Dict) : (applyAdvance w s b sha p answer).hostId = s.hostId := s.confirm_hostId p

@[simp] theorem answerBody_signAnswer (w : World) (body : Dict) : answerBody (signAnswer w body) = body := rfl

structure Advance where
  raw : Dict
  body : AdvanceBody
  text : Text
  at_ : Int
  confirm : Option Pending
  discard : Option Pending

structure Rebaseline where
  signer : String
  raw : Dict
  body : RebaselineBody
  text : Text
  at_ : Int

section Steps

variable (w : World)

def Advance.receipt (s : HostState) (a : Advance) : Dict :=
  receiptBody s a.body (digest w (.dict a.raw)) a.confirm a.discard w.keyId a.at_

def Advance.after (s : HostState) (a : Advance) : HostState :=
  applyAdvance w s a.body (digest w (.dict a.raw)) a.confirm (signAnswer w (a.receipt w s))

def Advance.row (s : HostState) (a : Advance) : LogRow :=
  ⟨a.body.hostId, .advance, s.epoch, a.body.hostSeq, digest w (.dict (a.receipt w s)), a.text,
    dumps w.floatText (.dict (signAnswer w (a.receipt w s))), a.at_⟩

def Rebaseline.receipt (s : HostState) (r : Rebaseline) : Dict :=
  rebaselineBody s r.body (digest w (.dict r.raw)) r.signer w.keyId r.at_

def Rebaseline.after (s : HostState) (r : Rebaseline) : HostState :=
  applyRebaseline w s r.body (signAnswer w (r.receipt w s))

def Rebaseline.row (s : HostState) (r : Rebaseline) : LogRow :=
  ⟨r.body.hostId, .rebaseline, s.epoch + 1, s.lastSeq + 1, digest w (.dict (r.receipt w s)), r.text,
    dumps w.floatText (.dict (signAnswer w (r.receipt w s))), r.at_⟩

def Db.afterAdvance (db : Db) (s : HostState) (a : Advance) : Db where
  log := db.log ++ (discardRows a.body.hostId s.epoch a.discard a.at_ ++ [a.row w s])
  hosts := Function.update db.hosts s.hostId (some (stateToJson w (a.after w s)))
  heads := Function.update db.heads a.body.hostId fun task =>
    (Assoc.get? ((a.confirm.map Pending.heads).getD []) task).or (db.heads a.body.hostId task)

def Db.afterRebaseline (db : Db) (s : HostState) (r : Rebaseline) : Db where
  log := db.log ++ (discardRows r.body.hostId s.epoch s.pending r.at_ ++ [r.row w s])
  hosts := Function.update db.hosts s.hostId (some (stateToJson w (r.after w s)))
  heads := Function.update db.heads r.body.hostId (Assoc.get? r.body.heads)

end Steps

structure Db.Holds (db : Db) (hostId : String) (s : HostState) : Prop where
  state : db.hostState hostId = .ok s
  ok : s.Ok
  hostId : s.hostId = hostId

section Cases

variable (svc : Service) (db : Db) (request : Request) (s : HostState)

structure Advanced (a : Advance) : Prop where
  admitted : ∃ signer, svc.admit request = .ok (signer, a.raw, .advance a.body)
  holds : db.Holds a.body.hostId s
  checked : CheckedAdvance a.raw a.body
  logged : loggedBody a.text = .ok a.raw
  unseen : s.pending.map Pending.requestSha256 ≠ some (digest svc.world (.dict a.raw))
  judged : judgeAdvance svc.world.env s a.body (db.heads a.body.hostId) (db.known a.body.hostId) =
    .ok (a.confirm, a.discard)
  at_ : Readable a.at_
  handled : svc.handle db request =
    (db.afterAdvance svc.world s a, .answer 200 (signAnswer svc.world (a.receipt svc.world s)))

structure Rebaselined (r : Rebaseline) : Prop where
  admitted : svc.admit request = .ok (r.signer, r.raw, .rebaseline r.body)
  holds : db.Holds r.body.hostId s
  checked : CheckedRebaseline r.raw r.body
  logged : loggedBody r.text = .ok r.raw
  last : r.body.expectedLast = s.lastHash
  epoch : Readable (s.epoch + 1)
  hostSeq : Readable (s.lastSeq + 1)
  at_ : Readable r.at_
  handled : svc.handle db request =
    (db.afterRebaseline svc.world s r, .answer 200 (signAnswer svc.world (r.receipt svc.world s)))

end Cases

/-- What an advance comes to: a refusal, the answer to the pending request again, or a receipt. -/
theorem advance_cases {svc : Service} {raw : Dict} {text : Text}
    {at_ : Int} {reply : Reply} (hs : db.Holds b.hostId s) (h : svc.advance db s raw b text at_ = .ok (db', reply)) :
    (∃ refusal, decideAdvance svc.world.env s b (digest svc.world (.dict raw)) (db.heads b.hostId) (db.known b.hostId) =
        .refuse refusal ∧ db' = db) ∨
    (∃ p, s.pending = some p ∧ p.requestSha256 = digest svc.world (.dict raw) ∧ db' = db ∧
      reply = .answer 200 p.answer) ∨
    ∃ confirm discard,
      s.pending.map Pending.requestSha256 ≠ some (digest svc.world (.dict raw)) ∧
      judgeAdvance svc.world.env s b (db.heads b.hostId) (db.known b.hostId) = .ok (confirm, discard) ∧ Readable at_ ∧
      db' = db.afterAdvance svc.world s ⟨raw, b, text, at_, confirm, discard⟩ ∧
      reply = .answer 200
        (signAnswer svc.world (Advance.receipt svc.world s ⟨raw, b, text, at_, confirm, discard⟩)) := by
  unfold Service.advance at h
  simp only at h
  split at h
  · rename_i hdecide
    cases h
    unfold decideAdvance at hdecide
    split at hdecide
    · rename_i hseen
      obtain ⟨p, hp, hsha⟩ := Option.map_eq_some_iff.1 hseen
      exact .inr (.inl ⟨p, hp, hsha, rfl, by rw [hp]; rfl⟩)
    · split at hdecide <;> cases hdecide
  · rename_i refusal hdecide
    cases h
    exact .inl ⟨refusal, hdecide, rfl⟩
  · rename_i confirm discard hdecide
    unfold decideAdvance at hdecide
    split at hdecide
    · cases hdecide
    rename_i hunseen
    split at hdecide
    · rename_i c d hjudge
      cases hdecide
      have hn : (Assoc.keys ((confirm.map Pending.heads).getD [])).Nodup := by
        cases hc : confirm with
        | none => exact nodup_nil
        | some p => exact (hs.ok.pending p (confirm_pending hjudge hc)).heads.nodup
      obtain ⟨db₁, h₁, h⟩ := bind_ok_iff.1 h
      obtain ⟨db₂, h₂, h⟩ := bind_ok_iff.1 h
      obtain ⟨db₃, h₃, h⟩ := bind_ok_iff.1 h
      cases h
      obtain ⟨rfl, -, -, hat⟩ := append_ok h₃
      rw [appendAll_ok h₂, confirmHeads_ok hn h₁]
      refine .inr (.inr ⟨confirm, discard, hunseen, hjudge, hat, ?_, rfl⟩)
      simp only [Db.saveState, Db.withHeads, Db.afterAdvance, append_assoc, applyAdvance_hostId]
      rfl
    · cases hdecide

theorem rebaseline_cases {svc : Service} {signer : String} {raw : Dict}
    {b : RebaselineBody} {text : Text} {at_ : Int} {reply : Reply} (hheads : (Assoc.keys b.heads).Nodup)
    (h : svc.rebaseline db s signer raw b text at_ = .ok (db', reply)) : db' = db ∨
      b.expectedLast = s.lastHash ∧ Readable (s.epoch + 1) ∧ Readable (s.lastSeq + 1) ∧ Readable at_ ∧
      db' = db.afterRebaseline svc.world s ⟨signer, raw, b, text, at_⟩ ∧
      reply = .answer 200 (signAnswer svc.world (Rebaseline.receipt svc.world s ⟨signer, raw, b, text, at_⟩)) := by
  obtain ⟨replay, -, h⟩ := bind_ok_iff.1 h
  split at h
  · cases h
    exact .inl rfl
  split at h
  · cases h
    exact .inl rfl
  rename_i discard hdecide
  unfold decideRebaseline at hdecide
  split at hdecide
  · rename_i hlast
    cases hdecide
    obtain ⟨db₁, h₁, h⟩ := bind_ok_iff.1 h
    obtain ⟨db₂, h₂, h⟩ := bind_ok_iff.1 h
    obtain ⟨db₃, h₃, h⟩ := bind_ok_iff.1 h
    cases h
    obtain ⟨rfl, hepoch, hseq, hat⟩ := append_ok h₃
    rw [replaceHeads_ok hheads h₂, appendAll_ok h₁]
    refine .inr ⟨hlast, hepoch, hseq, hat, ?_, rfl⟩
    simp only [Db.saveState, Db.withHeads, Db.afterRebaseline, append_assoc]
    rfl
  · cases hdecide

theorem handle_cases {svc : Service} (hdb : ∀ hostId, ∃ s, db.Holds hostId s) (request : Request) :
    (svc.handle db request).1 = db ∨ (∃ s a, Advanced svc db request s a) ∨ ∃ s r, Rebaselined svc db request s r := by
  rcases hadmitted : svc.admit request with _ | admitted
  · exact .inl (by simp [Service.handle, hadmitted])
  obtain ⟨signer, raw, body⟩ := admitted
  obtain ⟨hlogged, hchecked, -⟩ := admit_ok hadmitted
  rcases hdispatch : svc.dispatch db signer raw body (request.raw.getD []) request.now with _ | result
  · exact .inl (by simp [Service.handle, hadmitted, hdispatch])
  obtain ⟨db', reply⟩ := result
  have hhandle : svc.handle db request = (db', reply) := by simp [Service.handle, hadmitted, hdispatch]
  obtain ⟨s', hstate, h⟩ := bind_ok_iff.1 hdispatch
  obtain ⟨s, hs⟩ := hdb body.hostId
  obtain rfl : s = s' := Except.ok.inj (hs.state.symm.trans hstate)
  cases body with
  | state =>
    cases h
    exact .inl (by rw [hhandle])
  | advance b =>
    rcases advance_cases hs h with ⟨_, -, rfl⟩ | ⟨_, -, -, rfl, -⟩ | ⟨confirm, discard, hunseen, hjudge, hat, rfl, rfl⟩
    · exact .inl (by rw [hhandle])
    · exact .inl (by rw [hhandle])
    · exact .inr (.inl ⟨s, ⟨raw, b, _, _, confirm, discard⟩, ⟨signer, hadmitted⟩, hs, hchecked, hlogged, hunseen,
        hjudge, hat, hhandle⟩)
  | rebaseline b =>
    rcases rebaseline_cases (CheckedRebaseline.heads hchecked).nodup h with
      rfl | ⟨hlast, hepoch, hseq, hat, rfl, rfl⟩
    · exact .inl (by rw [hhandle])
    · exact .inr (.inr ⟨s, ⟨signer, raw, b, _, _⟩, hadmitted, hs, hchecked, hlogged, hlast, hepoch, hseq, hat, hhandle⟩)

/-! ## The state after a request -/

theorem signAnswer_plain (w : World) {body : Dict} (h : Plain NoFloat false (.dict body)) :
    Plain NoFloat false (.dict (signAnswer w body)) := by
  simp only [signAnswer, Plain, PlainEntries, and_true, true_and] at h ⊢
  exact ⟨by simp [Assoc.keys], h⟩

theorem confirmedValue_plain {p : Option Pending} (h : ∀ q, p = some q → Readable q.hostSeq) :
    Plain NoFloat false (confirmedValue p) := by
  cases p with
  | none => simp [confirmedValue, Plain]
  | some q =>
    simp only [confirmedValue, Plain, PlainEntries, and_true]
    exact ⟨by simp [Assoc.keys], h q rfl⟩

theorem higherRegistry_ok {a b : Option Registry} (ha : RegistryOk a) (hb : RegistryOk b) :
    RegistryOk (higherRegistry a b) := by
  unfold higherRegistry
  split
  · exact hb
  · exact ha
  · split
    · exact hb
    · exact ha

theorem HostState.Ok.confirm (h : s.Ok) {p : Option Pending} (hp : ∀ q, p = some q → q.Ok) : (s.confirm p).Ok := by
  cases p with
  | none => exact h
  | some q =>
    have hq := hp q rfl
    refine ⟨h.epoch, hq.hostSeq, h.pending, higherRegistry_ok h.registry hq.registry, ?_⟩
    show Readable (max s.timeFloor q.timeFloor)
    rcases max_choice s.timeFloor q.timeFloor with hm | hm
    · rw [hm]; exact h.timeFloor
    · rw [hm]; exact hq.timeFloor

section After

variable {svc : Service} {db : Db} {request : Request} {s : HostState}

namespace Advanced

variable {a : Advance} (h : Advanced svc db request s a)
include h

theorem confirm_ok : ∀ q, a.confirm = some q → q.Ok := fun q hq =>
  h.holds.ok.pending q (confirm_pending h.judged hq)

theorem receipt_plain : Plain NoFloat false (.dict (a.receipt svc.world s)) := by
  simp only [Advance.receipt, receiptBody, Plain, PlainEntries, and_true, true_and]
  exact ⟨by simp [Assoc.keys], h.holds.ok.epoch, h.checked.hostSeq, optStr_plain _, h.at_,
    confirmedValue_plain fun q hq => (h.confirm_ok q hq).hostSeq, optStr_plain _⟩

theorem after_ok : (a.after svc.world s).Ok := by
  have hc := h.holds.ok.confirm h.confirm_ok
  refine ⟨hc.epoch, hc.confirmedSeq, fun p hp => ?_, hc.registry, hc.timeFloor⟩
  cases hp
  exact ⟨h.checked.hostSeq, h.checked.heads, h.checked.registry, h.checked.timeFloor,
    signAnswer_plain _ h.receipt_plain⟩

theorem holds_after : (db.afterAdvance svc.world s a).Holds a.body.hostId (a.after svc.world s).norm := by
  refine ⟨?_, h.after_ok.norm, ?_⟩
  · simp only [Db.hostState, Db.afterAdvance, h.holds.hostId, Function.update_self]
    exact stateFromJson_stateToJson _ h.after_ok
  · show (s.confirm a.confirm).hostId = _
    rw [s.confirm_hostId, h.holds.hostId]

end Advanced

namespace Rebaselined

variable {r : Rebaseline} (h : Rebaselined svc db request s r)
include h

theorem receipt_plain : Plain NoFloat false (.dict (r.receipt svc.world s)) := by
  simp only [Rebaseline.receipt, rebaselineBody, Plain, PlainEntries, and_true, true_and]
  exact ⟨by simp [Assoc.keys], h.epoch, h.hostSeq, optStr_plain _, h.at_⟩

omit h in
theorem after_eq : r.after svc.world s =
    { hostId := s.hostId, epoch := s.epoch + 1, confirmedSeq := s.lastSeq + 1,
      confirmedHash := some (digest svc.world (.dict (r.receipt svc.world s))), pending := none,
      registry := r.body.registry, timeFloor := r.body.timeFloor } := rfl

theorem after_ok : (r.after svc.world s).Ok := by
  rw [after_eq]
  exact ⟨h.epoch, h.hostSeq, fun p hp => (by cases hp), h.checked.registry, h.checked.timeFloor⟩

theorem holds_after : (db.afterRebaseline svc.world s r).Holds r.body.hostId (r.after svc.world s).norm := by
  refine ⟨?_, h.after_ok.norm, h.holds.hostId⟩
  simp only [Db.hostState, Db.afterRebaseline, h.holds.hostId, Function.update_self]
  exact stateFromJson_stateToJson _ h.after_ok

end Rebaselined

structure Db.SameFor (db db' : Db) (hostId : String) : Prop where
  hosts : db'.hosts hostId = db.hosts hostId
  heads : db'.heads hostId = db.heads hostId
  logRows : db'.logRows hostId = db.logRows hostId

theorem Db.SameFor.holds {db' : Db} (h : db.SameFor db' hostId) (hs : db.Holds hostId s) : db'.Holds hostId s := by
  have hstate : db'.hostState hostId = db.hostState hostId := by simp only [Db.hostState, h.hosts]
  exact ⟨hstate ▸ hs.state, hs.ok, hs.hostId⟩

theorem logRows_other {db' : Db} {epoch at_ : Int} {discard : Option Pending} (row : LogRow)
    (hlog : db'.log = db.log ++ (discardRows row.hostId epoch discard at_ ++ [row])) (hne : hostId ≠ row.hostId) :
    db'.logRows hostId = db.logRows hostId := by
  unfold Db.logRows
  rw [hlog, filter_append, filter_append]
  cases discard <;> simp [discardRows, Ne.symm hne]

theorem handle_host (svc : Service) (hdb : ∀ hostId, ∃ s, db.Holds hostId s) (hs : db.Holds hostId s)
    (request : Request) :
    db.SameFor (svc.handle db request).1 hostId ∨ (∃ a, hostId = a.body.hostId ∧ Advanced svc db request s a) ∨
      ∃ r, hostId = r.body.hostId ∧ Rebaselined svc db request s r := by
  rcases handle_cases hdb request with hsame | ⟨t, a, ha⟩ | ⟨t, r, hr⟩
  · rw [hsame]
    exact .inl ⟨rfl, rfl, rfl⟩
  · by_cases hh : hostId = a.body.hostId
    · obtain rfl : s = t := Except.ok.inj (hs.state.symm.trans (hh ▸ ha.holds.state))
      exact .inr (.inl ⟨a, hh, ha⟩)
    · rw [ha.handled]
      refine .inl ⟨?_, Function.update_of_ne hh _ _, logRows_other (a.row svc.world t) rfl hh⟩
      simp only [Db.afterAdvance, ha.holds.hostId, Function.update_of_ne hh]
  · by_cases hh : hostId = r.body.hostId
    · obtain rfl : s = t := Except.ok.inj (hs.state.symm.trans (hh ▸ hr.holds.state))
      exact .inr (.inr ⟨r, hh, hr⟩)
    · rw [hr.handled]
      refine .inl ⟨?_, Function.update_of_ne hh _ _, logRows_other (r.row svc.world t) rfl hh⟩
      simp only [Db.afterRebaseline, hr.holds.hostId, Function.update_of_ne hh]

/-- Every host has a state that reads back, after every request. -/
theorem handle_holds (hdb : ∀ hostId, ∃ s, db.Holds hostId s) (hostId : String) :
    ∃ s, (svc.handle db request).1.Holds hostId s := by
  obtain ⟨s, hs⟩ := hdb hostId
  rcases handle_host svc hdb hs request with h | ⟨a, rfl, h⟩ | ⟨r, rfl, h⟩
  · exact ⟨s, h.holds hs⟩
  · exact ⟨_, by rw [h.handled]; exact h.holds_after⟩
  · exact ⟨_, by rw [h.handled]; exact h.holds_after⟩

end After

theorem empty_holds (hostId : String) : Db.empty.Holds hostId (.fresh hostId) := by
  have hr : ∀ n : Int, n.natAbs < 2 → Readable n := by
    intro n hn
    have hlen : (Nat.toDigits 10 n.natAbs).length ≤ 1 := (Nat.length_toDigits_le_iff (by omega) (by omega)).2 (by omega)
    unfold Readable maxIntDigits
    omega
  exact ⟨rfl, ⟨hr 1 (by decide), hr 0 (by decide), fun p hp => (by cases hp), fun x hx => (by cases hx),
    hr 0 (by decide)⟩, rfl⟩

end Portmark.Witness
