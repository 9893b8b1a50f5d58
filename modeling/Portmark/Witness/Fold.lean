/-
The log against the tables. `fold_log` rebuilds the state and the confirmed heads of a host from the
log alone; the tables hold the same after every request. The two sides differ in the order of keys:
the fold keeps the heads as they were sent, the table has been through a JSON round trip.
-/
import Portmark.Witness.History

namespace Portmark.Witness

open Lib Lib.Json Security Option

/-! ## Up to the order of keys -/

theorem sortKeys_dict_congr {d e : Dict} (h : sortEntries d = sortEntries e) :
    sortKeys (.dict d) = sortKeys (.dict e) := by
  rw [sortKeys_dict, sortKeys_dict, h]

theorem Pending.sortKeys_norm (p : Pending) : sortKeys p.norm.toValue = sortKeys p.toValue := by
  have hheads : sortKeys (headsValue (inOrder p.heads)) = sortKeys (headsValue p.heads) := by
    unfold headsValue
    rw [map_inOrder, sortKeys_dict, sortKeys_dict, sortEntries_eq, sortEntries_eq, map_inOrder, inOrder_idem]
  have hanswer : sortKeys (.dict (normalDict p.answer)) = sortKeys (.dict p.answer) := by
    rw [← sortKeys_dict_normal, sortKeys_idem]
  refine sortKeys_dict_congr ?_
  simp only [Pending.norm, sortEntries, hheads, hanswer]

theorem HostState.sortKeys_norm (s : HostState) : sortKeys s.norm.toValue = sortKeys s.toValue := by
  have hpending : sortKeys (pendingValue (s.pending.map Pending.norm)) = sortKeys (pendingValue s.pending) := by
    cases s.pending with
    | none => rfl
    | some p => exact p.sortKeys_norm
  refine sortKeys_dict_congr ?_
  simp only [HostState.norm, sortEntries, hpending]

theorem pyEqual_of_norm {s t : HostState} (hs : s.Ok) (ht : t.Ok) (h : s.norm = t.norm) :
    Value.pyEqual s.toValue t.toValue = true := by
  refine pyEqual_of_sortKeys (F := NoFloat) (fun _ hx => absurd hx id) _ _ hs.toValue_plain ht.toValue_plain ?_
  rw [← s.sortKeys_norm, h, t.sortKeys_norm]

theorem Pending.norm_idem (p : Pending) : p.norm.norm = p.norm := by
  simp [Pending.norm, inOrder_idem, normalDict_idem]

theorem HostState.norm_idem (s : HostState) : s.norm.norm = s.norm := by
  simp only [HostState.norm, map_map]
  congr 1
  exact Option.map_congr fun p _ => p.norm_idem

theorem Pending.norm_eq_iff {p q : Pending} : p.norm = q.norm ↔
    p.hostSeq = q.hostSeq ∧ p.receiptHash = q.receiptHash ∧ p.requestSha256 = q.requestSha256 ∧
      inOrder p.heads = inOrder q.heads ∧ p.registry = q.registry ∧ p.timeFloor = q.timeFloor ∧
      normalDict p.answer = normalDict q.answer := by
  simp [Pending.norm]

theorem confirmedBy_norm {s t : HostState} (h : s.norm = t.norm) (prev : Option String) :
    (confirmedBy s prev).map Pending.norm = (confirmedBy t prev).map Pending.norm := by
  have hp : s.pending.map Pending.norm = t.pending.map Pending.norm := congrArg HostState.pending h
  unfold confirmedBy
  cases hs : s.pending <;> cases ht : t.pending <;> simp only [hs, ht, map_some, map_none] at hp
  · rfl
  · cases hp
  · cases hp
  · rename_i p q
    have hpq := Option.some.inj hp
    have hhash : p.receiptHash = q.receiptHash := (Pending.norm_eq_iff.1 hpq).2.1
    simp only [bind_some, hhash]
    split
    · simp [hpq]
    · rfl

theorem confirm_norm {s t : HostState} (h : s.norm = t.norm) {p q : Option Pending}
    (hpq : p.map Pending.norm = q.map Pending.norm) : (s.confirm p).norm = (t.confirm q).norm := by
  cases p <;> cases q <;> simp only [map_some, map_none] at hpq
  · exact h
  · cases hpq
  · cases hpq
  · rename_i p q
    obtain ⟨hseq, hhash, -, -, hregistry, htime, -⟩ := Pending.norm_eq_iff.1 (Option.some.inj hpq)
    simp only [HostState.norm, HostState.mk.injEq] at h
    obtain ⟨hhost, hepoch, -, -, hpending, hregistry', htime'⟩ := h
    simp only [HostState.confirm, HostState.norm, hhost, hepoch, hpending, hregistry', htime', hseq, hhash, hregistry,
      htime]

theorem get?_of_inOrder {d e : Assoc Head} (hd : (Assoc.keys d).Nodup) (he : (Assoc.keys e).Nodup)
    (h : inOrder d = inOrder e) (task : String) : Assoc.get? d task = Assoc.get? e task := by
  rw [← get?_inOrder hd, h, get?_inOrder he]

/-! ## One row -/

def Folds (w : World) (db : Db) (hostId : String) (s : HostState) : Prop :=
  ∃ t heads, db.foldLog w hostId = .ok (t, heads) ∧ t.Ok ∧ t.norm = s.norm ∧
    ∀ task, Assoc.get? heads task = db.heads hostId task

theorem foldlM_discardRows (w : World) (hostId : String) (epoch : Int) (discard : Option Pending) (at_ : Int)
    (acc : HostState × Assoc Head) : (discardRows hostId epoch discard at_).foldlM (foldRow w) acc = .ok acc := by
  cases discard <;> rfl

/-- The fold goes on over the rows an accepted request adds. -/
theorem foldLog_accepted {w : World} {db db' : Db} {hostId : String} {epoch at_ : Int} {discard : Option Pending}
    {row : LogRow} {acc : HostState × Assoc Head} (h : db.foldLog w hostId = .ok acc)
    (hlog : db'.log = db.log ++ (discardRows hostId epoch discard at_ ++ [row])) (hrow : row.hostId = hostId) :
    db'.foldLog w hostId = foldRow w acc row := by
  have hrows : db'.logRows hostId = db.logRows hostId ++ (discardRows hostId epoch discard at_ ++ [row]) := by
    unfold Db.logRows
    rw [hlog, List.filter_append, List.filter_append]
    cases discard <;> simp [discardRows, hrow]
  unfold Db.foldLog at h ⊢
  rw [hrows, List.foldlM_append, h]
  show (discardRows hostId epoch discard at_ ++ [row]).foldlM (foldRow w) acc = _
  rw [List.foldlM_append, foldlM_discardRows]
  show [row].foldlM (foldRow w) acc = _
  simp

section Rows

variable {svc : Service} {db : Db} {request : Request} {s : HostState}

theorem Folds.advanced {a : Advance} (h : Folds svc.world db a.body.hostId s) (ha : Advanced svc db request s a) :
    Folds svc.world (db.afterAdvance svc.world s a) a.body.hostId (a.after svc.world s).norm := by
  obtain ⟨t, heads, hfold, hok, hnorm, hheads⟩ := h
  obtain ⟨hload, hbody⟩ := loggedAnswer_signAnswer svc.world ha.receipt_plain
  have hsigned := ha.after_ok.norm.pending _ rfl
  -- the fold finds what the rules decided
  have hconfirm : (confirmedBy t a.body.prev).map Pending.norm = a.confirm.map Pending.norm := by
    rw [confirmedBy_norm hnorm, confirmedBy_of_chainPart (judgeAdvance_ok ha.judged)]
  have hconfirmed : ∀ p, confirmedBy t a.body.prev = some p → p.Ok := by
    intro p hp
    obtain ⟨q, hq, hif⟩ := bind_eq_some_iff.1 hp
    split at hif
    · cases hif
      exact hok.pending _ hq
    · cases hif
  have hrow : foldRow svc.world (t, heads) (a.row svc.world s) = .ok (applyAdvance svc.world t a.body
      (digest svc.world (.dict a.raw)) (confirmedBy t a.body.prev)
      (normalDict (signAnswer svc.world (a.receipt svc.world s))),
      Assoc.update heads (((confirmedBy t a.body.prev).map Pending.heads).getD [])) := by
    simp only [foldRow, Advance.row, ha.logged, hload, bind, Except.bind, ha.checked.decodes, orKeyError, pure,
      Except.pure]
  refine ⟨_, _, (foldLog_accepted hfold rfl rfl).trans hrow, ?_, ?_, fun task => ?_⟩
  · have hc := hok.confirm hconfirmed
    refine ⟨hc.epoch, hc.confirmedSeq, fun p hp => ?_, hc.registry, hc.timeFloor⟩
    cases hp
    exact ⟨ha.checked.hostSeq, ha.checked.heads, ha.checked.registry, ha.checked.timeFloor, hsigned.answer⟩
  · have hcn := confirm_norm hnorm hconfirm
    simp only [HostState.norm, HostState.mk.injEq] at hcn
    obtain ⟨h1, h2, h3, h4, -, h6, h7⟩ := hcn
    simp only [Advance.after, HostState.norm, applyAdvance, h1, h2, h3, h4, h6, h7, map_some, Pending.norm, hbody,
      digest_normalDict, answerBody_signAnswer, inOrder_idem, normalDict_idem]
  · have hget : ∀ {p q : Option Pending}, p.map Pending.norm = q.map Pending.norm → (∀ x, p = some x → x.Ok) →
        (∀ x, q = some x → x.Ok) →
        Assoc.get? ((p.map Pending.heads).getD []) task = Assoc.get? ((q.map Pending.heads).getD []) task := by
      rintro (_ | p) (_ | q) hpq hp hq
      · rfl
      · cases hpq
      · cases hpq
      · exact get?_of_inOrder (hp p rfl).heads.nodup (hq q rfl).heads.nodup
          (Pending.norm_eq_iff.1 (Option.some.inj hpq)).2.2.2.1 task
    have hnodup : (Assoc.keys (((confirmedBy t a.body.prev).map Pending.heads).getD [])).Nodup := by
      cases hc : confirmedBy t a.body.prev with
      | none => simp [Assoc.keys]
      | some p => exact (hconfirmed p hc).heads.nodup
    rw [Assoc.get?_update _ hnodup, hheads, hget hconfirm hconfirmed ha.confirm_ok]
    simp [Db.afterAdvance]

theorem Folds.rebaselined {r : Rebaseline} (h : Folds svc.world db r.body.hostId s)
    (hr : Rebaselined svc db request s r) :
    Folds svc.world (db.afterRebaseline svc.world s r) r.body.hostId (r.after svc.world s).norm := by
  obtain ⟨t, heads, hfold, hok, hnorm, -⟩ := h
  obtain ⟨hload, hbody⟩ := loggedAnswer_signAnswer svc.world hr.receipt_plain
  have hrow : foldRow svc.world (t, heads) (r.row svc.world s) = .ok (applyRebaseline svc.world t r.body
      (normalDict (signAnswer svc.world (r.receipt svc.world s))), r.body.heads) := by
    simp only [foldRow, Rebaseline.row, hr.logged, hload, bind, Except.bind, hr.checked.decodes, orKeyError, pure,
      Except.pure]
  have hsame : applyRebaseline svc.world t r.body (normalDict (signAnswer svc.world (r.receipt svc.world s))) =
      r.after svc.world s := by
    have hhost : t.hostId = s.hostId := show t.norm.hostId = s.norm.hostId by rw [hnorm]
    have hn : (Assoc.keys (r.receipt svc.world s)).Nodup := hr.receipt_plain.nodup
    simp only [applyRebaseline, Rebaseline.after, hbody, digest_normalDict, intAt_normal hn, answerBody_signAnswer,
      hhost]
  refine ⟨_, _, (foldLog_accepted hfold rfl rfl).trans hrow, ?_, ?_, fun task => ?_⟩
  · rw [hsame]
    exact hr.after_ok
  · rw [hsame, HostState.norm_idem]
  · simp [Db.afterRebaseline]

end Rows

theorem Folds.handle {svc : Service} {db : Db} {hostId : String} {s : HostState} (h : Folds svc.world db hostId s)
    (hdb : ∀ hostId, ∃ s, db.Holds hostId s) (hs : db.Holds hostId s) (request : Request) :
    ∃ s', (svc.handle db request).1.Holds hostId s' ∧ Folds svc.world (svc.handle db request).1 hostId s' := by
  rcases handle_host svc hdb hs request with hsame | ⟨a, rfl, ha⟩ | ⟨r, rfl, hr⟩
  · obtain ⟨t, heads, hfold, hok, hnorm, hheads⟩ := h
    refine ⟨s, hsame.holds hs, t, heads, ?_, hok, hnorm, fun task => ?_⟩
    · rw [← hfold, Db.foldLog, Db.foldLog, hsame.logRows]
    · rw [hheads, hsame.heads]
  · rw [ha.handled]
    exact ⟨_, ha.holds_after, h.advanced ha⟩
  · rw [hr.handled]
    exact ⟨_, hr.holds_after, h.rebaselined hr⟩

theorem Folds.run (svc : Service) {hostId : String} : ∀ (requests : List Request) {db : Db} {s : HostState},
    (∀ hostId, ∃ s, db.Holds hostId s) → db.Holds hostId s → Folds svc.world db hostId s →
    ∃ s', (svc.run db requests).Holds hostId s' ∧ Folds svc.world (svc.run db requests) hostId s'
  | [], _, s, _, hs, h => ⟨s, hs, h⟩
  | request :: requests, db, s, hdb, hs, h => by
    obtain ⟨s', hs', h'⟩ := h.handle hdb hs request
    exact Folds.run svc requests (handle_holds hdb) hs' h'

/-- After every run, whatever the requests were, the log folds to the stored state and to the heads
of the table. -/
theorem foldLog_eq_tables (svc : Service) (requests : List Request) (hostId : String) :
    ∃ state heads stored, (svc.run .empty requests).foldLog svc.world hostId = .ok (state, heads) ∧
      (svc.run .empty requests).hostState hostId = .ok stored ∧
      Value.pyEqual state.toValue stored.toValue = true ∧
      ∀ task, Assoc.get? heads task = (svc.run .empty requests).heads hostId task := by
  have hempty : Folds svc.world .empty hostId (.fresh hostId) :=
    ⟨.fresh hostId, [], rfl, (empty_holds hostId).ok, rfl, fun _ => rfl⟩
  obtain ⟨s, hs, t, heads, hfold, hok, hnorm, hheads⟩ :=
    Folds.run svc requests (fun h => ⟨_, empty_holds h⟩) (empty_holds hostId) hempty
  exact ⟨t, heads, s, hfold, hs.state, pyEqual_of_norm hok hs.ok hnorm, hheads⟩

end Portmark.Witness
