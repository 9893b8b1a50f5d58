/-
The audit chain of a task. Every stored event carries the hash of its own record, its position,
and the hash of the event before it. So two chains with the same head are the same chain, and a
save only ever extends the chain of its own task.
-/
import Portmark.Host.Store
import Portmark.Lib.Json.Order
import Portmark.Lib.Json.Suffix

namespace Portmark.Host

open Lib Lib.Json Security List

/-! ## One event -/

def Hashed (host : AgentHost) (e : AuditEvent) : Prop :=
  ∃ text, host.canonical (auditEventRecord e.sequence e.event e.details e.previous e.hostId) = .ok text ∧
    e.hash = host.sha256 text

variable {host : AgentHost}

theorem canonical_ok {v : Value} {text : Text} (h : host.canonical v = .ok text) : text = dumps host.floatText v := by
  unfold AgentHost.canonical Security.canonicalJson at h
  split at h
  · cases h
  · exact (Except.ok.inj h).symm

/-- The record ends with the previous hash and the sequence: its keys are printed in order. -/
theorem dumps_auditEventRecord (floatText : ℚ → Text) (sequence : Int) (event : String) (details : Dict)
    (previous hostId : String) :
    ∃ before, before.getLast? = some ':' ∧ dumps floatText (auditEventRecord sequence event details previous hostId) =
      (before ++ '"' :: escape previous.toList) ++
        ['"', ',', '"', 's', 'e', 'q', 'u', 'e', 'n', 'c', 'e', '"'] ++ ':' :: (intText sequence ++ ['}']) := by
  have horder : sortKeys (auditEventRecord sequence event details previous hostId) =
      .dict [("details", sortKeys (.dict details)), ("event", .str event), ("hash_version", .int 2),
        ("host_id", .str hostId), ("previous", .str previous), ("sequence", .int sequence)] := by
    unfold auditEventRecord
    rw [sortKeys_dict, sortEntries_eq]
    simp only [map_cons, map_nil, sortKeys]
    simp +decide only [inOrder, insertionSort_cons, insertionSort_nil, orderedInsert, if_true, if_false]
  refine ⟨'{' :: '"' :: (escape "details".toList ++ '"' :: ':' :: text floatText (sortKeys (.dict details)) ++
    ',' :: '"' :: (escape "event".toList ++ '"' :: ':' :: text floatText (.str event) ++
    ',' :: '"' :: (escape "hash_version".toList ++ '"' :: ':' :: text floatText (.int 2) ++
    ',' :: '"' :: (escape "host_id".toList ++ '"' :: ':' :: text floatText (.str hostId) ++
    ',' :: '"' :: (escape "previous".toList ++ ['"', ':']))))), ?_, ?_⟩
  · simp [getLast?_append, getLast?_cons]
  · unfold dumps
    rw [horder]
    simp only [text, textEntries, append_assoc, cons_append, nil_append]
    rfl

variable {e : AuditEvent}

/-- With an injective hash function the hash of an event determines the hash before it. -/
theorem Hashed.previous_eq (hsha : Function.Injective host.sha256) {e' : AuditEvent} (he : Hashed host e)
    (he' : Hashed host e') (h : e.hash = e'.hash) : e.previous = e'.previous := by
  obtain ⟨text, htext, hhash⟩ := he
  obtain ⟨text', htext', hhash'⟩ := he'
  have hsame : text = text' := hsha (by rw [← hhash, ← hhash', h])
  obtain ⟨before, hbefore, hdump⟩ :=
    dumps_auditEventRecord host.floatText e.sequence e.event e.details e.previous e.hostId
  obtain ⟨before', hbefore', hdump'⟩ :=
    dumps_auditEventRecord host.floatText e'.sequence e'.event e'.details e'.previous e'.hostId
  rw [canonical_ok htext, canonical_ok htext', hdump, hdump'] at hsame
  have hcolon : ∀ n : Int, ':' ∉ intText n ++ ['}'] := by
    intro n hm
    rcases mem_append.1 hm with hm | hm
    · exact colon_notMem_intText n hm
    · exact absurd hm (by decide)
  have hfront := append_cancel_right (append_cons_inj_of_notMem (hcolon _) (hcolon _) hsame)
  have hlist := last_string_unique (by rw [hbefore]; decide) (by rw [hbefore']; decide) hfront
  exact String.toList_injective hlist

/-! ## Chains -/

structure Linked (host : AgentHost) (es : List AuditEvent) : Prop where
  hashed : ∀ e ∈ es, Hashed host e
  sequence : ∀ (i : Nat) (e : AuditEvent), es[i]? = some e → e.sequence = i
  previous : ∀ (i : Nat) (e e' : AuditEvent), es[i]? = some e → es[i + 1]? = some e' → e'.previous = e.hash

def chainHead (es : List AuditEvent) : Option (String × Int) := es.getLast?.map fun e => (e.hash, (es.length : Int))

theorem chainHead_concat (es : List AuditEvent) (e : AuditEvent) :
    chainHead (es ++ [e]) = some (e.hash, (es.length : Int) + 1) := by
  simp [chainHead]

variable {es : List AuditEvent}

theorem chainHead_eq_none (h : chainHead es = none) : es = [] := by
  simpa [chainHead] using h

theorem chainHead_length {head : String × Int} (h : chainHead es = some head) : head.2 = es.length := by
  obtain ⟨e, -, rfl⟩ := Option.map_eq_some_iff.1 h
  rfl

theorem chainHead_take {n : Nat} (hn : n < es.length) (he : es[n]? = some e) :
    chainHead (es.take (n + 1)) = some (e.hash, (n : Int) + 1) := by
  rw [take_add_one, he]
  show chainHead (es.take n ++ [e]) = _
  rw [chainHead_concat, length_take, Nat.min_eq_left (Nat.le_of_lt hn)]

theorem linked_nil (host : AgentHost) : Linked host [] :=
  ⟨fun _ h => absurd h not_mem_nil, fun i e h => by simp at h, fun i e e' h => by simp at h⟩

theorem Linked.initial {es' : List AuditEvent} (h : Linked host es') (hp : es <+: es') : Linked host es := by
  obtain ⟨rest, rfl⟩ := hp
  have hget : ∀ (i : Nat) (e : AuditEvent), es[i]? = some e → (es ++ rest)[i]? = some e := by
    intro i e hi
    rw [getElem?_append_left (List.getElem?_eq_some_iff.1 hi).1, hi]
  refine ⟨?_, ?_, ?_⟩
  · intro e he
    exact h.hashed e (mem_append_left rest he)
  · intro i e hi
    exact h.sequence i e (hget i e hi)
  · intro i e e' hi hi'
    exact h.previous i e e' (hget i e hi) (hget (i + 1) e' hi')

theorem Linked.concat (h : Linked host es) (he : Hashed host e) (hseq : e.sequence = es.length)
    (hprev : ∀ last, es.getLast? = some last → e.previous = last.hash) : Linked host (es ++ [e]) := by
  refine ⟨?_, ?_, ?_⟩
  · intro x hx
    rcases mem_append.1 hx with hx | hx
    · exact h.hashed x hx
    · exact mem_singleton.1 hx ▸ he
  · intro i x hi
    rw [getElem?_append] at hi
    split at hi
    · exact h.sequence i x hi
    rw [getElem?_singleton] at hi
    split at hi
    · have hlen : i = es.length := by omega
      rw [← Option.some.inj hi, hseq, hlen]
    · cases hi
  · intro i x x' hi hi'
    rw [getElem?_append] at hi hi'
    split at hi'
    · rw [if_pos (by omega)] at hi
      exact h.previous i x x' hi hi'
    · rw [getElem?_singleton] at hi'
      split at hi'
      · rw [if_pos (by omega)] at hi
        rw [← Option.some.inj hi']
        apply hprev
        rw [getLast?_eq_getElem?, ← hi]
        congr 1
        omega
      · cases hi'

/-- Two chains with the same head have the same hashes. The induction removes the last event of
both: its hash determines the hash it names. -/
theorem Linked.hashes_unique (hsha : Function.Injective host.sha256) :
    ∀ (n : Nat) {es es' : List AuditEvent}, es.length = n → Linked host es → Linked host es' →
      chainHead es = chainHead es' → es.map (·.hash) = es'.map (·.hash)
  | 0, es, es', hn, _, _, hhead => by
    obtain rfl := length_eq_zero_iff.1 hn
    rw [chainHead_eq_none hhead.symm]
  | n + 1, es, es', hn, hes, hes', hhead => by
    rcases eq_nil_or_concat es with rfl | ⟨init, e, rfl⟩
    · cases hn
    rcases eq_nil_or_concat es' with rfl | ⟨init', e', rfl⟩
    · rw [concat_eq_append, chainHead_concat] at hhead
      cases hhead
    rw [concat_eq_append] at hn hes hhead ⊢
    rw [concat_eq_append] at hes' hhead ⊢
    rw [chainHead_concat, chainHead_concat, Option.some.injEq, Prod.mk.injEq] at hhead
    obtain ⟨hhash, hlength⟩ := hhead
    have hlen : init.length = init'.length := by omega
    have hprevious := (hes.hashed e (by simp)).previous_eq hsha (hes'.hashed e' (by simp)) hhash
    have hinit : chainHead init = chainHead init' := by
      rcases eq_nil_or_concat init with rfl | ⟨rest, d, rfl⟩
      · rw [length_eq_zero_iff.1 hlen.symm]
      rcases eq_nil_or_concat init' with rfl | ⟨rest', d', rfl⟩
      · simp at hlen
      rw [concat_eq_append] at hlen hes ⊢
      rw [concat_eq_append] at hlen hes' ⊢
      have hd := hes.previous rest.length d e (by simp) (by simp)
      have hd' := hes'.previous rest'.length d' e' (by simp) (by simp)
      simp only [length_append, length_singleton, Nat.add_right_cancel_iff] at hlen
      rw [chainHead_concat, chainHead_concat, ← hd, ← hd', hprevious, hlen]
    have ih := Linked.hashes_unique hsha n (by simpa using hn) (hes.initial (prefix_append _ _))
      (hes'.initial (prefix_append _ _)) hinit
    rw [map_append, map_append, ih, map_singleton, map_singleton, hhash]

/-! ## A store whose heads are the heads of its chains -/

/-- `audit_head`, inside a transaction. -/
def Store.transactionAuditHead (store : Store) (taskId : String) : Option (String × Int) :=
  (Assoc.get? store.auditHeads taskId).map fun head => (head.headHash, head.sequence)

structure Chained (host : AgentHost) (store : Store) : Prop where
  linked : ∀ taskId, Linked host (store.auditEvents taskId)
  heads : ∀ taskId, store.transactionAuditHead taskId = chainHead (store.auditEvents taskId)

variable {store : Store}

theorem Chained.auditHead (h : Chained host store) (taskId : String) :
    store.auditHead taskId = chainHead (store.auditEvents taskId) := by
  unfold Store.auditHead
  split
  · next hnil => rw [List.isEmpty_iff.1 hnil]; rfl
  · exact h.heads taskId

variable {store' : Store}

theorem chained_congr (h : Chained host store) (hevents : store'.auditEvents = store.auditEvents)
    (hheads : store'.auditHeads = store.auditHeads) : Chained host store' := by
  refine ⟨fun taskId => ?_, fun taskId => ?_⟩
  · rw [hevents]
    exact h.linked taskId
  · unfold Store.transactionAuditHead
    rw [hevents, hheads]
    exact h.heads taskId

/-- `store` extends the chain of `taskId` by `events` and leaves the other chains. -/
structure Extends (taskId : String) (events : List AuditEvent) (store store' : Store) : Prop where
  own : store'.auditEvents taskId = store.auditEvents taskId ++ events
  others : ∀ other, other ≠ taskId → store'.auditEvents other = store.auditEvents other

variable {event : AuditEvent} {signedAt : Int} {taskId : String}

/-- The position, the previous hash and the freshness that `append_audit_events` requires of an event. -/
theorem appendAuditEvent_ok (h : store.appendAuditEvent host taskId signedAt event = .ok store') :
    event.sequence = (store.auditEvents taskId).length ∧
    (∀ last, (store.auditEvents taskId).getLast? = some last → event.previous = last.hash) ∧
    ∃ head : AuditHead, head.headHash = event.hash ∧ head.sequence = event.sequence + 1 ∧
      store' = { store with
        auditEvents := Function.update store.auditEvents taskId (store.auditEvents taskId ++ [event])
        auditHeads := Assoc.set store.auditHeads taskId head } := by
  obtain ⟨_, hseq, h⟩ := bind_ok_iff.1 h
  obtain ⟨_, hprev, h⟩ := bind_ok_iff.1 h
  obtain ⟨_, -, h⟩ := bind_ok_iff.1 h
  have hprev := beq_iff_eq.1 (require_ok_iff.1 hprev)
  refine ⟨of_decide_eq_true (require_ok_iff.1 hseq), fun last hlast => ?_, _, ?_, ?_, (Except.ok.inj h).symm⟩
  · rw [hprev, hlast]
  · rfl
  · rfl

theorem appendAuditEvent_extends (h : store.appendAuditEvent host taskId signedAt event = .ok store') :
    Extends taskId [event] store store' := by
  obtain ⟨-, -, head, -, -, rfl⟩ := appendAuditEvent_ok h
  refine ⟨?_, fun other ho => ?_⟩
  · simp
  · simp [ho]

theorem appendAuditEvent_chained (hc : Chained host store) (he : Hashed host event)
    (h : store.appendAuditEvent host taskId signedAt event = .ok store') : Chained host store' := by
  obtain ⟨hseq, hprev, head, hhash, hnext, rfl⟩ := appendAuditEvent_ok h
  have hown : Linked host (store.auditEvents taskId ++ [event]) := (hc.linked taskId).concat he hseq hprev
  refine ⟨fun t => ?_, fun t => ?_⟩
  · by_cases ht : t = taskId
    · rw [ht]
      simpa using hown
    · simpa [ht] using hc.linked t
  · by_cases ht : t = taskId
    · rw [ht]
      simp [Store.transactionAuditHead, Assoc.get?_set, chainHead_concat, hhash, hnext, hseq]
    have hother := hc.heads t
    unfold Store.transactionAuditHead at hother ⊢
    simp only [Assoc.get?_set, Function.update_of_ne ht]
    rw [if_neg ht]
    exact hother

theorem appendAuditEvents_ok : ∀ {events : List AuditEvent} {store store' : Store},
      store.appendAuditEvents host taskId signedAt events = .ok store' →
      Extends taskId events store store' ∧
      ∃ chains heads, store' = { store with auditEvents := chains, auditHeads := heads }
  | [], store, store', h => by
    obtain rfl := Except.ok.inj h
    exact ⟨⟨by simp, fun _ _ => rfl⟩, _, _, rfl⟩
  | event :: events, store, store', h => by
    unfold Store.appendAuditEvents at h
    rw [foldlM_cons] at h
    obtain ⟨mid, hmid, h⟩ := bind_ok_iff.1 h
    have h1 := appendAuditEvent_extends hmid
    obtain ⟨h2, chains, heads, rfl⟩ := appendAuditEvents_ok h
    refine ⟨⟨?_, fun other ho => ?_⟩, chains, heads, ?_⟩
    · rw [h2.own, h1.own, append_assoc]
      rfl
    · rw [h2.others other ho, h1.others other ho]
    · obtain ⟨-, -, head, -, -, rfl⟩ := appendAuditEvent_ok hmid
      rfl

/-- Every chain that has an event has a head. -/
def Store.Headed (store : Store) : Prop :=
  ∀ taskId, store.auditEvents taskId ≠ [] → (Assoc.get? store.auditHeads taskId).isSome = true

theorem appendAuditEvents_headed {events : List AuditEvent} {store store' : Store} (hh : store.Headed)
    (h : store.appendAuditEvents host taskId signedAt events = .ok store') : store'.Headed := by
  refine foldlM_ok hh (fun event _ store store' hh h => ?_) h
  obtain ⟨-, -, head, -, -, rfl⟩ := appendAuditEvent_ok h
  intro t hevents
  simp only [Assoc.get?_set]
  split
  · rfl
  · rename_i ht
    simp only [Function.update_of_ne ht] at hevents
    exact hh t hevents

theorem appendAuditEvents_chained {events : List AuditEvent} {store store' : Store} (hc : Chained host store)
    (he : ∀ e ∈ events, Hashed host e) (h : store.appendAuditEvents host taskId signedAt events = .ok store') :
    Chained host store' :=
  foldlM_ok hc (fun e hm _ _ hc h => appendAuditEvent_chained hc (he e hm) h) h

end Portmark.Host
