/-
A signed rebaseline that is sent again. It names the newest receipt of the chain; once it took
effect that receipt is not the newest any more and never is again, so the same request cannot take
effect twice. While the rebaseline is still the newest thing on the chain, sending it again is
answered with the answer it was given, read from the log.
-/
import Portmark.Witness.Saves

namespace Portmark.Witness

open Lib Lib.Json Security List Option

/-! ## The same request again -/

variable {request : Request}

theorem admit_again {svc : Service} {again : Request} (hpath : again.path = request.path)
    (hraw : again.raw = request.raw) {x y : String × Dict × Body} (hx : svc.admit request = .ok x)
    (hy : svc.admit again = .ok y) : y = x := by
  unfold Service.admit at hx hy
  rw [hpath, hraw] at hy
  rcases hformat : pathFormat request.path with _ | _
  · rw [hformat] at hx
    cases hx
  rw [hformat] at hx hy
  obtain ⟨_, -, hx⟩ := bind_ok_iff.1 hx
  obtain ⟨opened, hopen, hx⟩ := bind_ok_iff.1 hx
  obtain ⟨_, -, hx⟩ := bind_ok_iff.1 hx
  obtain ⟨body, hbody, hx⟩ := bind_ok_iff.1 hx
  obtain ⟨_, -, hx⟩ := bind_ok_iff.1 hx
  obtain ⟨_, -, hx⟩ := bind_ok_iff.1 hx
  obtain ⟨_, -, hy⟩ := bind_ok_iff.1 hy
  obtain ⟨opened', hopen', hy⟩ := bind_ok_iff.1 hy
  obtain rfl := Except.ok.inj (hopen.symm.trans hopen')
  obtain ⟨_, -, hy⟩ := bind_ok_iff.1 hy
  obtain ⟨body', hbody', hy⟩ := bind_ok_iff.1 hy
  obtain rfl := Except.ok.inj (hbody.symm.trans hbody')
  obtain ⟨_, -, hy⟩ := bind_ok_iff.1 hy
  obtain ⟨_, -, hy⟩ := bind_ok_iff.1 hy
  exact (Except.ok.inj hy).symm.trans (Except.ok.inj hx)

/-- With a token in each bucket a request that was admitted once is admitted again. -/
theorem admit_tokens {svc : Service} {again : Request} (hpath : again.path = request.path)
    (hraw : again.raw = request.raw) (hglobal : again.globalToken = true) (hsigner : again.signerToken = true)
    {x : String × Dict × Body} (hx : svc.admit request = .ok x) : svc.admit again = .ok x := by
  unfold Service.admit at hx ⊢
  rw [hpath, hraw, hglobal, hsigner]
  split at hx
  · cases hx
  obtain ⟨_, -, hx⟩ := bind_ok_iff.1 hx
  obtain ⟨opened, hopen, hx⟩ := bind_ok_iff.1 hx
  obtain ⟨_, hformat, hx⟩ := bind_ok_iff.1 hx
  obtain ⟨body, hbody, hx⟩ := bind_ok_iff.1 hx
  obtain ⟨_, hauthorize, hx⟩ := bind_ok_iff.1 hx
  obtain ⟨_, -, hx⟩ := bind_ok_iff.1 hx
  refine bind_ok_iff.2 ⟨(), rfl, bind_ok_iff.2 ⟨opened, hopen, bind_ok_iff.2 ⟨(), hformat, ?_⟩⟩⟩
  exact bind_ok_iff.2 ⟨body, hbody, bind_ok_iff.2 ⟨(), hauthorize, bind_ok_iff.2 ⟨(), rfl, hx⟩⟩⟩

theorem CheckedRebaseline.expectedLast_eq {raw : Dict} {b : RebaselineBody} (h : CheckedRebaseline raw b) :
    b.expectedLast = strAt raw "expected_last" := by
  have hd := h.decodes
  simp only [rebaselineOf?, bind_eq_bind, bind_eq_some_iff, Option.pure_def, Option.some.injEq] at hd
  obtain ⟨hostId, -, expectedLast, ⟨v, hget, hv⟩, _, -, _, -, _, -, _, -, _, -, rfl⟩ := hd
  unfold strAt
  rw [hget, bind_some, hv]
  rfl

theorem rebaseline_last_of_digest {w : World} {texts : Set Text} (hinj : Set.InjOn w.sha256 texts) {raw raw' : Dict}
    {b b' : RebaselineBody} (hb : CheckedRebaseline raw b) (hb' : CheckedRebaseline raw' b')
    (ht : dumps w.floatText (.dict raw) ∈ texts) (ht' : dumps w.floatText (.dict raw') ∈ texts)
    (h : digest w (.dict raw) = digest w (.dict raw')) : b.expectedLast = b'.expectedLast := by
  have hn := normalDict_eq_of_digest hinj hb.plain hb'.plain ht ht' h
  rw [hb.expectedLast_eq, hb'.expectedLast_eq, ← strAt_normal hb.plain.nodup, ← strAt_normal hb'.plain.nodup, hn]

/-! ## Rebaselines of a run -/

section Effects

variable (svc : Service) (requests : List Request)

structure Effect (i : Nat) (s : HostState) (r : Rebaseline) : Prop where
  accepted : ∃ request, requests[i]? = some request ∧ Rebaselined svc (svc.after requests i) request s r

variable {svc requests} {i j : Nat} {s s' : HostState} {r r' : Rebaseline} {f : Nat → Lineage String}

theorem Effect.after (h : Effect svc requests i s r) :
    svc.after requests (i + 1) = (svc.after requests i).afterRebaseline svc.world s r := by
  obtain ⟨request, hi, hr⟩ := h.accepted
  rw [svc.after_succ hi, hr.handled]

theorem Effect.texts (h : Effect svc requests i s r) :
    dumps svc.world.floatText (.dict r.raw) ∈ {text | text ∈ svc.hashedIn .empty requests} := by
  obtain ⟨request, hi, hr⟩ := h.accepted
  refine hashed_subset svc requests .empty i hi _ ?_
  show _ ∈ svc.hashed (svc.after requests i) request
  rw [hr.hashed]
  exact mem_cons_self

theorem effect_of_row : ∀ (j : Nat) {row : LogRow}, row ∈ (svc.after requests j).log → row.kind = .rebaseline →
    ∃ i s r, i < j ∧ Effect svc requests i s r ∧ row = r.row svc.world s := by
  intro j
  induction j with
  | zero => exact fun hrow => by cases hrow
  | succ j ih =>
    intro row hrow hkind
    have hold : row ∈ (svc.after requests j).log → ∃ i s r, i < j + 1 ∧ Effect svc requests i s r ∧
        row = r.row svc.world s := by
      intro hmem
      obtain ⟨i, s, r, hlt, heffect, heq⟩ := ih hmem hkind
      exact ⟨i, s, r, by omega, heffect, heq⟩
    rcases hj : requests[j]? with _ | request
    · exact hold (svc.after_none hj ▸ hrow)
    rw [svc.after_succ hj] at hrow
    rcases handle_cases (svc.after_holds requests j) request with hsame | ⟨t, a, ha⟩ | ⟨t, r, hr⟩
    · exact hold (hsame ▸ hrow)
    · rw [ha.handled] at hrow
      rcases mem_append.1 hrow with hmem | hnew
      · exact hold hmem
      rcases mem_append.1 hnew with hdiscard | hadvance
      · unfold discardRows at hdiscard
        split at hdiscard
        · cases hdiscard
        · rw [mem_singleton.1 hdiscard] at hkind
          cases hkind
      · rw [mem_singleton.1 hadvance] at hkind
        cases hkind
    · rw [hr.handled] at hrow
      rcases mem_append.1 hrow with hmem | hnew
      · exact hold hmem
      rcases mem_append.1 hnew with hdiscard | hrebaseline
      · unfold discardRows at hdiscard
        split at hdiscard
        · cases hdiscard
        · rw [mem_singleton.1 hdiscard] at hkind
          cases hkind
      · exact ⟨j, t, r, by omega, ⟨request, hj, hr⟩, mem_singleton.1 hrebaseline⟩

theorem log_grows (svc : Service) (requests : List Request) {i j : Nat} (hij : i ≤ j) :
    (svc.after requests i).log <+: (svc.after requests j).log := by
  induction hij with
  | refl => exact prefix_refl _
  | @step j _ ih =>
    cases hj : requests[j]? with
    | none => rw [svc.after_none hj]; exact ih
    | some request =>
      rw [svc.after_succ hj]
      refine ih.trans ?_
      rcases handle_cases (svc.after_holds requests j) request with hsame | ⟨t, a, ha⟩ | ⟨t, r, hr⟩
      · exact hsame.symm ▸ prefix_refl _
      · rw [ha.handled]; exact prefix_append _ _
      · rw [hr.handled]; exact prefix_append _ _

end Effects

section Once

variable {svc : Service} {requests : List Request} {i j : Nat} {s s' : HostState} {r r' : Rebaseline}
  {f : Nat → Lineage String}

section

variable (h : Traced svc requests r.body.hostId f) (he : Effect svc requests i s r)

include h he

theorem Traced.issued_effect : (f (i + 1)).issued = r.node svc.world s :: (f i).issued := by
  obtain ⟨request, hi, hr⟩ := he.accepted
  obtain ⟨hreceipts, -⟩ := log_of_accepted (svc.after requests i) (svc.after requests (i + 1))
    (congrArg Db.log he.after) rfl (by simp [Rebaseline.row]) (Rebaseline.receiptOf?_row hr.receipt_plain)
  obtain ⟨t, ht⟩ := h.state i
  obtain ⟨t', ht'⟩ := h.state (i + 1)
  rw [(h.tracks ht).receipts, (h.tracks ht').receipts] at hreceipts
  simpa using congrArg List.reverse hreceipts

theorem Traced.expectedLast_effect : r.body.expectedLast = (f i).tipId := by
  obtain ⟨request, hi, hr⟩ := he.accepted
  exact hr.last.trans (h.tracks hr.holds.state).lastHash

/-- That receipt is never the newest again. -/
theorem Traced.expectedLast_stale (hij : i < j) : r.body.expectedLast ≠ (f j).tipId := by
  rw [h.expectedLast_effect he]
  refine (h.run.tip_ne (Nat.le_of_lt hij) fun hsame => ?_).symm
  have hlength := (h.run.extends_ (show i + 1 ≤ j from hij)).issued.length_le
  rw [h.issued_effect he, hsame, length_cons] at hlength
  omega

theorem Traced.effect_unique (he' : Effect svc requests j s' r') (hhost : r'.body.hostId = r.body.hostId)
    (hlast : r'.body.expectedLast = r.body.expectedLast) : j = i := by
  rcases Nat.lt_trichotomy i j with hlt | rfl | hgt
  · have := h.expectedLast_stale he hlt
    rw [← hlast, (hhost ▸ h : Traced svc requests r'.body.hostId f).expectedLast_effect he'] at this
    exact absurd rfl this
  · rfl
  · have := (hhost ▸ h : Traced svc requests r'.body.hostId f).expectedLast_stale he' hgt
    rw [hlast, h.expectedLast_effect he] at this
    exact absurd rfl this

end

theorem Effect.row_unique (he : Effect svc requests i s r) (he' : Effect svc requests i s' r') :
    r'.row svc.world s' = r.row svc.world s := by
  have hlog := congrArg Db.log (he'.after.symm.trans he.after)
  have hlast := congrArg List.getLast? hlog
  simpa [Db.afterRebaseline] using hlast

/-- The state a rebaseline leaves has nothing pending, and its receipt is the newest. -/
theorem Traced.effect_newest (h : Traced svc requests r.body.hostId f) (he : Effect svc requests i s r) :
    (f (i + 1)).waiting = none ∧ (f (i + 1)).tipId = some (digest svc.world (.dict (r.receipt svc.world s))) := by
  obtain ⟨request, hi, hr⟩ := he.accepted
  have htracks := h.tracks (he.after ▸ hr.holds_after.state)
  constructor
  · have hpending := htracks.pending
    exact map_eq_none_iff.1 hpending.symm
  · exact htracks.lastHash.symm

theorem rebaselineRow_some {db : Db} {hostId hash : String} {found : Text × Text}
    (h : db.rebaselineRow hostId hash = some found) : ∃ row ∈ db.log, row.kind = .rebaseline ∧ row.hostId = hostId ∧
      row.receiptHash = hash ∧ found = (row.requestJson, row.answerJson) := by
  unfold Db.rebaselineRow at h
  split at h
  · cases h
  rename_i row rows hrows
  have hmem : row ∈ (db.receiptRows hostId hash).filter (·.kind = .rebaseline) := hrows ▸ mem_cons_self
  simp only [Db.receiptRows, mem_filter, Bool.and_eq_true, beq_iff_eq, decide_eq_true_eq] at hmem
  obtain ⟨⟨hlog, hhost, hhash⟩, hkind⟩ := hmem
  exact ⟨row, hlog, hkind, hhost, hhash, (Option.some.inj h).symm⟩

theorem rebaselineRow_isSome {db : Db} {row : LogRow} (hrow : row ∈ db.log) (hkind : row.kind = .rebaseline) :
    ∃ found, db.rebaselineRow row.hostId row.receiptHash = some found := by
  unfold Db.rebaselineRow
  split
  · rename_i hnone
    have hmem : row ∈ (db.receiptRows row.hostId row.receiptHash).filter (·.kind = .rebaseline) := by
      simp [Db.receiptRows, hrow, hkind]
    rw [hnone] at hmem
    cases hmem
  · exact ⟨_, rfl⟩

section

variable (h : Traced svc requests r.body.hostId f) (he : Effect svc requests i s r)

include h he

/-- What is found for the receipt of an accepted rebaseline is its own row. -/
theorem Traced.row_of_hash (he' : Effect svc requests j s' r') (hhost : r'.body.hostId = r.body.hostId)
    (hhash : digest svc.world (.dict (r'.receipt svc.world s')) = digest svc.world (.dict (r.receipt svc.world s))) :
    j = i := by
  have h' : Traced svc requests r'.body.hostId f := hhost ▸ h
  have htip := (h.effect_newest he).2
  have htip' := (h'.effect_newest he').2
  rw [hhash, ← htip] at htip'
  by_contra hne
  rcases Nat.lt_or_gt_of_ne hne with hlt | hgt
  · refine h.run.tip_ne (show j + 1 ≤ i + 1 by omega) (fun hsame => ?_) htip'.symm
    have hlength := (h.run.extends_ (show j + 1 ≤ i by omega)).issued.length_le
    rw [h.issued_effect he] at hsame
    rw [← hsame, length_cons] at hlength
    omega
  · refine h.run.tip_ne (show i + 1 ≤ j + 1 by omega) (fun hsame => ?_) htip'
    have hlength := (h.run.extends_ (show i + 1 ≤ j by omega)).issued.length_le
    rw [h'.issued_effect he'] at hsame
    rw [← hsame, length_cons] at hlength
    omega

/-- While a rebaseline is the newest thing on the chain, its answer is found again. -/
theorem Traced.replay_newest (hij : i < j) (hsame : (f j).issued = (f (i + 1)).issued) {t : HostState}
    (ht : (svc.after requests j).hostState r.body.hostId = .ok t) :
    svc.rebaselineReplay (svc.after requests j) t r.body.hostId (digest svc.world (.dict r.raw)) =
      .ok (some (normalDict (signAnswer svc.world (r.receipt svc.world s)))) := by
  obtain ⟨request, hi, hr⟩ := he.accepted
  have hlineage : f j = f (i + 1) := h.run.eq_of_issued hij hsame
  obtain ⟨hwaiting, htip⟩ := h.effect_newest he
  have htracks := h.tracks ht
  rw [hlineage] at htracks
  have hpending : t.pending = none := by
    have hview := htracks.pending
    rw [hwaiting] at hview
    exact map_eq_none_iff.1 hview
  have hconfirmed : t.confirmedHash = some (digest svc.world (.dict (r.receipt svc.world s))) := by
    have hlast := htracks.lastHash
    unfold HostState.lastHash at hlast
    rw [hpending, htip] at hlast
    exact hlast
  -- the row that is found is the row of this rebaseline
  have hmem : r.row svc.world s ∈ (svc.after requests j).log := by
    refine (log_grows svc requests (show i + 1 ≤ j from hij)).subset ?_
    rw [he.after]
    simp [Db.afterRebaseline]
  obtain ⟨found, hfound⟩ := rebaselineRow_isSome hmem rfl
  have hfound : (svc.after requests j).rebaselineRow r.body.hostId (digest svc.world (.dict (r.receipt svc.world s))) =
      some found := hfound
  obtain ⟨row, hrow, hkind, hhost, hhash, rfl⟩ := rebaselineRow_some hfound
  obtain ⟨k, s', r', -, he', rfl⟩ := effect_of_row j hrow hkind
  obtain rfl : k = i := h.row_of_hash he he' hhost hhash
  rw [he.row_unique he'] at hfound
  obtain ⟨hload, -⟩ := loggedAnswer_signAnswer svc.world hr.receipt_plain
  unfold Service.rebaselineReplay
  rw [hpending, hconfirmed]
  dsimp only
  rw [hfound]
  dsimp only [Rebaseline.row]
  rw [hr.logged]
  simp only [bind, Except.bind, if_pos, hload]
  rfl

end

section

variable (hinj : svc.CollisionFree requests) (h : Traced svc requests r.body.hostId f) (he : Effect svc requests i s r)

include hinj h he

/-- Once something newer is on the chain, no answer is found. -/
theorem Traced.replay_stale (hij : i < j) (hne : (f j).issued ≠ (f (i + 1)).issued) {t : HostState}
    (ht : (svc.after requests j).hostState r.body.hostId = .ok t) :
    svc.rebaselineReplay (svc.after requests j) t r.body.hostId (digest svc.world (.dict r.raw)) = .ok none := by
  obtain ⟨request, hi, hr⟩ := he.accepted
  have htracks := h.tracks ht
  unfold Service.rebaselineReplay
  split
  · rename_i hash hpending hconfirmed
    split
    · rfl
    rename_i requestJson answerJson hfound
    obtain ⟨row, hrow, hkind, hhost, hhash, heq⟩ := rebaselineRow_some hfound
    cases heq
    obtain ⟨k, s', r', -, he', rfl⟩ := effect_of_row j hrow hkind
    obtain ⟨request', hi', hr'⟩ := he'.accepted
    have hdigest : digest svc.world (.dict r'.raw) ≠ digest svc.world (.dict r.raw) := by
      intro hdigest
      have hlast := rebaseline_last_of_digest hinj hr'.checked hr.checked he'.texts he.texts hdigest
      obtain rfl : k = i := h.effect_unique he he' hhost hlast
      -- then the receipt of this rebaseline would be the newest still
      refine h.run.tip_ne (show k + 1 ≤ j from hij) hne ?_
      rw [(h.effect_newest he).2, ← htracks.lastHash]
      unfold HostState.lastHash
      rw [hpending, hconfirmed, ← hhash, he.row_unique he']
      rfl
    have hlogged : loggedBody (r'.row svc.world s').requestJson = .ok r'.raw := hr'.logged
    rw [hlogged]
    simp only [bind, Except.bind, if_neg hdigest]
    rfl
  · rfl

/-- What sending an accepted rebaseline again comes to, where it is admitted. -/
theorem Traced.handle_again (hij : i < j) {again : Request} {signer : String}
    (hadmitted : svc.admit again = .ok (signer, r.raw, .rebaseline r.body)) :
    (f j).issued = (f (i + 1)).issued ∧ svc.handle (svc.after requests j) again =
        (svc.after requests j, .answer 200 (normalDict (signAnswer svc.world (r.receipt svc.world s)))) ∨
      (f j).issued ≠ (f (i + 1)).issued ∧ Refused svc (svc.after requests j) again := by
  obtain ⟨t, ht⟩ := h.state j
  by_cases hsame : (f j).issued = (f (i + 1)).issued
  · left
    have hdispatch :
      svc.dispatch (svc.after requests j) signer r.raw (.rebaseline r.body) (again.raw.getD []) again.now =
        .ok (svc.after requests j, .answer 200 (normalDict (signAnswer svc.world (r.receipt svc.world s)))) := by
      simp only [Service.dispatch, Body.hostId, ht, bind, Except.bind, Service.rebaseline,
        h.replay_newest he hij hsame ht]
      rfl
    exact ⟨hsame, by simp only [Service.handle, hadmitted, hdispatch]⟩
  · right
    have hstale : r.body.expectedLast ≠ t.lastHash := by
      rw [(h.tracks ht).lastHash]
      exact h.expectedLast_stale he hij
    refine ⟨hsame, ?_⟩
    have hdispatch : ∃ refusal sha host, svc.dispatch (svc.after requests j) signer r.raw (.rebaseline r.body)
        (again.raw.getD []) again.now = .ok (svc.after requests j, svc.refusal refusal sha host again.now) := by
      simp only [Service.dispatch, Body.hostId, ht, bind, Except.bind, Service.rebaseline,
        h.replay_stale hinj he hij hsame ht, decideRebaseline, if_neg hstale]
      exact ⟨_, _, _, rfl⟩
    obtain ⟨refusal, sha, host, hdispatch⟩ := hdispatch
    exact ⟨_, _, _, by simp only [Service.handle, hadmitted, hdispatch]; rfl⟩

end

theorem effect_of_change (hi : requests[i]? = some request) {signer : String} {raw : Dict}
    {body : RebaselineBody} (hadmitted : svc.admit request = .ok (signer, raw, .rebaseline body))
    (hchange : svc.after requests (i + 1) ≠ svc.after requests i) :
    ∃ s r, Rebaselined svc (svc.after requests i) request s r ∧ r.raw = raw ∧ r.body = body := by
  rw [svc.after_succ hi] at hchange
  rcases handle_cases (svc.after_holds requests i) request with hsame | ⟨t, a, ha⟩ | ⟨t, r, hr⟩
  · exact absurd hsame hchange
  · obtain ⟨signer', hadmitted'⟩ := ha.admitted
    cases hadmitted.symm.trans hadmitted'
  · have heq := hadmitted.symm.trans hr.admitted
    cases heq
    exact ⟨t, r, hr, rfl, rfl⟩

end Once

/-- A signed rebaseline takes effect at most once. Where it took effect the epoch went up by one and
it was answered; sent again at any later place of the run it changes nothing, and it is answered with
the same bytes or refused. With tokens for it, it is answered exactly while no newer receipt was
issued to the host. -/
theorem rebaseline_once (svc : Service) (requests : List Request) (hinj : svc.CollisionFree requests) (i j : Nat)
    (hij : i < j) (request again : Request) (hi : requests[i]? = some request) (hj : requests[j]? = some again)
    (hpath : again.path = request.path) (hraw : again.raw = request.raw) (signer : String) (raw : Dict)
    (body : RebaselineBody) (hadmitted : svc.admit request = .ok (signer, raw, .rebaseline body))
    (hchange : svc.after requests (i + 1) ≠ svc.after requests i) :
    ∃ first, (svc.handle (svc.after requests i) request).2 = .answer 200 first ∧
      (∃ s s', (svc.after requests i).hostState body.hostId = .ok s ∧
        (svc.after requests (i + 1)).hostState body.hostId = .ok s' ∧ s'.epoch = s.epoch + 1) ∧
      svc.after requests (j + 1) = svc.after requests j ∧
      ((∃ document, (svc.handle (svc.after requests j) again).2 = .answer 200 document ∧
          dumps svc.world.floatText (.dict document) = dumps svc.world.floatText (.dict first)) ∨
        Refused svc (svc.after requests j) again) ∧
      (again.globalToken = true → again.signerToken = true →
        ((∃ document, (svc.handle (svc.after requests j) again).2 = .answer 200 document) ↔
          (svc.after requests j).receipts body.hostId = (svc.after requests (i + 1)).receipts body.hostId)) := by
  obtain ⟨s, r, hr, rfl, rfl⟩ := effect_of_change hi hadmitted hchange
  have he : Effect svc requests i s r := ⟨request, hi, hr⟩
  obtain ⟨f, h⟩ := svc.traced hinj r.body.hostId
  have hbytes : dumps svc.world.floatText (.dict (normalDict (signAnswer svc.world (r.receipt svc.world s)))) =
      dumps svc.world.floatText (.dict (signAnswer svc.world (r.receipt svc.world s))) := by
    rw [← sortKeys_dict_normal, dumps_sortKeys]
  have hissued : (svc.after requests j).receipts r.body.hostId = (svc.after requests (i + 1)).receipts r.body.hostId ↔
      (f j).issued = (f (i + 1)).issued := by
    obtain ⟨t, ht⟩ := h.state j
    obtain ⟨t', ht'⟩ := h.state (i + 1)
    rw [(h.tracks ht).receipts, (h.tracks ht').receipts, List.reverse_inj]
  refine ⟨_, by rw [hr.handled], ⟨s, _, hr.holds.state, he.after ▸ hr.holds_after.state, rfl⟩, ?_⟩
  rw [svc.after_succ hj]
  cases hagain : svc.admit again with
  | error refusal =>
    have hrefused : Refused svc (svc.after requests j) again := by
      refine ⟨statusOf refusal.code, refusal, ?_⟩
      simp only [Service.handle, hagain, Service.refusal]
      exact ⟨_, rfl⟩
    obtain ⟨_, _, _, hhandle⟩ := hrefused
    refine ⟨by rw [hhandle], .inr ⟨_, _, _, hhandle⟩, fun hglobal hsigner => ?_⟩
    rw [admit_tokens hpath hraw hglobal hsigner hadmitted] at hagain
    cases hagain
  | ok =>
    obtain rfl := admit_again hpath hraw hadmitted hagain
    rcases h.handle_again hinj he hij hagain with ⟨hsame, hhandle⟩ | ⟨hne, status, refusal, document, hhandle⟩
    · rw [hhandle]
      exact ⟨rfl, .inl ⟨_, rfl, hbytes⟩, fun _ _ => ⟨fun _ => hissued.2 hsame, fun _ => ⟨_, rfl⟩⟩⟩
    refine ⟨by rw [hhandle], .inr ⟨_, _, _, hhandle⟩, fun _ _ => ⟨fun hanswer => ?_, fun hreceipts => ?_⟩⟩
    · rw [hhandle] at hanswer
      obtain ⟨document, hanswer⟩ := hanswer
      cases hanswer
    · exact absurd (hissued.1 hreceipts) hne

def smallResent : List Request := [smallRebaseline none, smallRebaseline none]

/-- The digests of a run tell its texts apart. -/
theorem Service.collisionFree_of_list {svc : Service} {requests : List Request}
    (h : ∀ x ∈ svc.hashedIn .empty requests, ∀ y ∈ svc.hashedIn .empty requests,
      svc.world.sha256 x = svc.world.sha256 y → x = y) : svc.CollisionFree requests :=
  fun x hx y hy => h x hx y hy

def admitsRebaseline (service : Service) (request : Request) : Bool :=
  match service.admit request with
  | .ok (_, _, .rebaseline _) => true
  | _ => false

theorem rebaseline_once_small : smallService.after smallResent (0 + 1) ≠ smallService.after smallResent 0 ∧
    smallService.after smallResent (1 + 1) = smallService.after smallResent 1 := by
  have hrun : admitsRebaseline smallService (smallRebaseline none) = true ∧
      (smallService.after smallResent (0 + 1)).log.length = 1 ∧
      ∀ x ∈ smallService.hashedIn .empty smallResent, ∀ y ∈ smallService.hashedIn .empty smallResent,
        smallService.world.sha256 x = smallService.world.sha256 y → x = y := by
    decide +kernel
  obtain ⟨hbody, hlength, hinj⟩ := hrun
  have hchange : smallService.after smallResent (0 + 1) ≠ smallService.after smallResent 0 := by
    intro hsame
    rw [hsame] at hlength
    cases hlength
  unfold admitsRebaseline at hbody
  split at hbody
  · rename_i signer raw body hadmitted
    obtain ⟨_, -, -, hsame, -⟩ := rebaseline_once smallService smallResent (Service.collisionFree_of_list hinj) 0 1
      (by decide) (smallRebaseline none) (smallRebaseline none) rfl rfl rfl rfl signer raw body hadmitted hchange
    exact ⟨hchange, hsame⟩
  · cases hbody

end Portmark.Witness
