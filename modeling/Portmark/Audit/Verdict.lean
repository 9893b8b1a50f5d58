/-
When chain verification gives a verdict. The verifier prints again what it has just read, so a row
raises where its details or columns can be read but not printed: a constant that is no JSON, a
surrogate, a blob. It catches a malformed head sequence but not an infinite one, and an unprintable
payload but not a blob in it. The main theorem says that nothing else raises.
-/
import Portmark.Audit.Verify

namespace Portmark.Audit

open Lib Lib.Json List

/-! ## What printing raises -/

theorem returns_both {α β γ ε : Type} {x : Except ε α} {y : Except ε β} {f : α → β → γ} :
    (∃ r, (do let a ← x; let b ← y; return f a b) = .ok r) ↔ (∃ a, x = .ok a) ∧ ∃ b, y = .ok b := by
  cases x <;> cases y <;> simp [bind, Except.bind, pure, Except.pure]

theorem mapM_error {α β ε : Type} {f : α → Except ε β} {e : ε} {xs : List α} (h : xs.mapM f = .error e) :
    ∃ x ∈ xs, f x = .error e := by
  induction xs with
  | nil => cases h
  | cons x xs ih =>
    rw [mapM_cons] at h
    rcases bind_error_iff.1 h with hx | ⟨_, -, h⟩
    · exact ⟨x, mem_cons_self, hx⟩
    rcases bind_error_iff.1 h with hxs | ⟨_, -, h⟩
    · obtain ⟨x', hmem, hx'⟩ := ih hxs
      exact ⟨x', mem_cons_of_mem _ hmem, hx'⟩
    · cases h

theorem mapM_ok_mem {α β ε : Type} {f : α → Except ε β} : ∀ {xs : List α} {ys : List β}, xs.mapM f = .ok ys →
    ∀ x ∈ xs, ∃ y, f x = .ok y
  | [], _, _, x, hx => by cases hx
  | x :: xs, ys, h, z, hz => by
    rw [mapM_cons] at h
    obtain ⟨y, hy, h⟩ := bind_ok_iff.1 h
    obtain ⟨ys', hys, -⟩ := bind_ok_iff.1 h
    rcases mem_cons.1 hz with rfl | hz
    · exact ⟨y, hy⟩
    · exact mapM_ok_mem hys z hz

variable {depth : Nat} {e : EncodeError}

theorem encode_dict_error {d : List (Key × Data)} (hkeys : ∀ x ∈ d, x.1.isStr = true) (hdepth : depth ≠ 0)
    (h : encode false depth (.dict d) = .error e) : ∃ x ∈ d, encode false (depth - 1) x.2 = .error e := by
  rw [encode, if_neg hdepth] at h
  have hsort : sortable ((encodeEntries false (depth - 1) d).map Prod.fst) = true := by
    have hall : (((encodeEntries false (depth - 1) d).map Prod.fst).all Key.isStr) = true := by
      rw [encodeEntries_eq, map_map, all_eq_true]
      intro k hk
      obtain ⟨x, hx, rfl⟩ := mem_map.1 hk
      exact hkeys x hx
    simp only [sortable, hall, Bool.or_true, Bool.true_or]
  cases hparts : entriesText false (encodeEntries false (depth - 1) d) with
  | ok => rw [hparts] at h; cases h
  | error e' =>
    obtain rfl : e' = e := by
      rw [hparts] at h
      cases h
      rfl
    rw [entriesText, sortByKey, if_pos hsort] at hparts
    obtain ⟨entry, hentry, herror⟩ := mapM_error hparts
    rw [mem_insertionSort, encodeEntries_eq] at hentry
    obtain ⟨x, hx, rfl⟩ := mem_map.1 hentry
    refine ⟨x, hx, ?_⟩
    obtain ⟨k, value⟩ := x
    have hk := hkeys _ hx
    cases k with
    | str =>
      cases hvalue : encode false (depth - 1) value with
      | ok => rw [hvalue] at herror; cases herror
      | error => rw [hvalue] at herror; cases herror; rfl
    | _ => exact absurd hk Bool.false_ne_true

theorem encode_dict_ok {d : List (Key × Data)} {s : Codes} (h : encode false depth (.dict d) = .ok s) :
    ∀ x ∈ d, ∃ t, encode false (depth - 1) x.2 = .ok t := by
  intro x hx
  rw [encode] at h
  split at h
  · cases h
  obtain ⟨parts, hparts, -⟩ := bind_ok_iff.1 h
  obtain ⟨sorted, hsorted, hmap⟩ := bind_ok_iff.1 hparts
  rw [sortByKey] at hsorted
  split at hsorted
  · cases hsorted
    have hmem : (x.1, encode false (depth - 1) x.2) ∈ (encodeEntries false (depth - 1) d).insertionSort
        fun a b => a.1.le b.1 = true := by
      rw [mem_insertionSort, encodeEntries_eq]
      exact mem_map_of_mem hx
    obtain ⟨part, hpart⟩ := mapM_ok_mem hmap _ hmem
    obtain ⟨name, -, hpart⟩ := bind_ok_iff.1 hpart
    obtain ⟨text, htext, -⟩ := bind_ok_iff.1 hpart
    exact ⟨text, htext⟩
  · cases hsorted

/-- Values that print, or are refused with a `ValueError`. -/
def Scalar : Data → Prop
  | .null => True
  | .bool _ => True
  | .int _ => True
  | .float _ => True
  | .str _ => True
  | _ => False

variable {d : Data}

theorem Scalar.encode_error (h : Scalar d) (he : encode false depth d = .error e) : e = .valueError := by
  cases d with
  | null => cases he
  | bool b => cases b <;> cases he
  | int =>
    rw [encode, intRepr] at he
    split at he
    · cases he
    · cases he
      rfl
  | float x =>
    cases x <;> cases he <;> rfl
  | str => cases he
  | _ => exact h.elim

theorem canonicalJson_error (h : canonicalJson depth d = .error e) :
    e = .valueError ∨ encode false depth d = .error e := by
  unfold canonicalJson at h
  cases hs : encode false depth d with
  | error => rw [hs] at h; cases h; exact .inr rfl
  | ok s =>
    rw [hs] at h
    cases hu : utf8? s with
    | some => simp only [bind, Except.bind, hu] at h; cases h
    | none => simp only [bind, Except.bind, hu] at h; cases h; exact .inl rfl

theorem HeadPayload.data_eq (p : HeadPayload) : ∃ d : List (Key × Data), p.data = .dict d ∧
    (∀ x ∈ d, x.1.isStr = true) ∧
    (∀ x ∈ d, (∃ t, x.2 = .ofText t) ∨ x.2 = p.taskId ∨ x.2 = p.hostId ∨ x.2 = p.headHash ∨ x.2 = .int p.sequence ∨
      x.2 = p.signedAt) ∧ (p.signedAt ≠ .null → ∃ x ∈ d, x.2 = p.signedAt) := by
  unfold HeadPayload.data
  split
  · refine ⟨_, rfl, ?_, ?_, fun h => absurd ‹_› h⟩
    · intro x hx
      simp only [mem_cons, not_mem_nil, or_false] at hx
      rcases hx with rfl | rfl | rfl | rfl | rfl <;> rfl
    · intro x hx
      simp only [mem_cons, not_mem_nil, or_false] at hx
      rcases hx with rfl | rfl | rfl | rfl | rfl
      · exact .inl ⟨_, rfl⟩
      all_goals simp
  · refine ⟨_, rfl, ?_, ?_, fun _ => ⟨(key "signed_at", p.signedAt), by simp, rfl⟩⟩
    · intro x hx
      simp only [mem_cons, not_mem_nil, or_false] at hx
      rcases hx with rfl | rfl | rfl | rfl | rfl | rfl <;> rfl
    · intro x hx
      simp only [mem_cons, not_mem_nil, or_false] at hx
      rcases hx with rfl | rfl | rfl | rfl | rfl | rfl
      · exact .inl ⟨_, rfl⟩
      all_goals simp

variable {p : HeadPayload}

/-- A payload of strings and numbers raises nothing but a `ValueError`. -/
theorem payload_error (hdepth : depth ≠ 0) (ht : Scalar p.taskId) (hh : Scalar p.hostId) (hd : Scalar p.headHash)
    (hs : Scalar p.signedAt) (h : canonicalJson depth p.data = .error e) : e = .valueError := by
  rcases canonicalJson_error h with h | h
  · exact h
  obtain ⟨d, hdata, hkeys, hvalues, -⟩ := p.data_eq
  rw [hdata] at h
  obtain ⟨x, hx, he⟩ := encode_dict_error hkeys hdepth h
  rcases hvalues x hx with ⟨t, hv⟩ | hv | hv | hv | hv | hv <;> rw [hv] at he
  · exact Scalar.encode_error (d := .ofText t) trivial he
  · exact ht.encode_error he
  · exact hh.encode_error he
  · exact hd.encode_error he
  · exact Scalar.encode_error (d := .int p.sequence) trivial he
  · exact hs.encode_error he

/-- A blob for a signing time raises a `TypeError`. -/
theorem payload_blob {t h g : Codes} {b : List Nat} (hdepth : depth ≠ 0) (ht : p.taskId = .str t)
    (hh : p.hostId = .str h) (hg : p.headHash = .str g) (hs : p.signedAt = .bytes b) (hn : Readable p.sequence) :
    canonicalJson depth p.data = .error .typeError := by
  obtain ⟨d, hdata, hkeys, hvalues, hsigned⟩ := p.data_eq
  obtain ⟨x, hx, hxs⟩ := hsigned (by rw [hs]; exact fun hnull => by cases hnull)
  cases henc : encode false depth p.data with
  | ok =>
    rw [hdata] at henc
    obtain ⟨text, htext⟩ := encode_dict_ok henc x hx
    rw [hxs, hs] at htext
    cases htext
  | error e =>
    have hcanonical : canonicalJson depth p.data = .error e := by
      unfold canonicalJson
      rw [henc]
      rfl
    rw [hcanonical]
    rw [hdata] at henc
    obtain ⟨y, hy, he⟩ := encode_dict_error hkeys hdepth henc
    rcases hvalues y hy with ⟨t', hv⟩ | hv | hv | hv | hv | hv <;> rw [hv] at he
    · cases he
    · rw [ht] at he; cases he
    · rw [hh] at he; cases he
    · rw [hg] at he; cases he
    · obtain ⟨text, htext, -⟩ := encodes_intRepr.2 hn
      rw [encode, htext] at he
      cases he
    · rw [hs] at he
      cases he
      rfl

theorem sortByKey_payload (a b c d e f : Except EncodeError Codes) :
    sortByKey [(key "type", a), (key "task_id", b), (key "host_id", c), (key "head_hash", d), (key "sequence", e),
      (key "signed_at", f)] =
      .ok [(key "head_hash", d), (key "host_id", c), (key "sequence", e), (key "signed_at", f), (key "task_id", b),
        (key "type", a)] := rfl

/-- A count of rows that does not print stops before the blob. -/
theorem payload_unreadable {h g : Codes} {b : List Nat} (hdepth : depth ≠ 0) (hh : p.hostId = .str h)
    (hg : p.headHash = .str g) (hs : p.signedAt = .bytes b) (hn : ¬ Readable p.sequence) :
    canonicalJson depth p.data = .error .valueError := by
  have hint : intRepr p.sequence = .error .valueError := if_neg hn
  have hencode : encode false depth p.data = .error .valueError := by
    unfold HeadPayload.data
    rw [hs]
    rw [encode, if_neg hdepth, hh, hg]
    simp only [encodeEntries, entriesText, sortByKey_payload]
    simp only [encode, hint, entryText, Key.name, key, bind, Except.bind, mapM_cons, pure, Except.pure]
  unfold canonicalJson
  rw [hencode]
  rfl

/-! ## The rows -/

/-- The details are no JSON, or they and the columns can be printed. -/
def Row.Writable (env : Env) (row : Row) : Prop :=
  match row.details.read env with
  | .error _ => False
  | .ok none => True
  | .ok (some details) => Printable env.depth (row.record details)

variable {env : Env} {row : Row}

theorem auditEventHashMatches_ok_iff {details : Data} :
    (∃ b, auditEventHashMatches env row details = .ok b) ↔ Printable env.depth (row.record details) := by
  rw [← canonicalJson_ok_iff]
  unfold auditEventHashMatches
  cases canonicalJson env.depth (row.record details) with
  | error => simp
  | ok => simp

variable {n : Nat} {previous : Cell}

/-- A row raises just where it is linked and cannot be printed. -/
theorem checkRow_ok_iff :
    (∃ r, checkRow env n previous row = .ok r) ↔ (row.linked n previous = true → row.Writable env) := by
  unfold checkRow Row.Writable
  cases hlinked : row.linked n previous
  · simp
  cases row.details.read env with
  | error => simp
  | ok read =>
    cases read with
    | none => simp
    | some details =>
      simp only
      rw [← auditEventHashMatches_ok_iff]
      cases auditEventHashMatches env row details with
      | error => simp
      | ok b => cases b <;> simp

/-- A row that passes is linked, its details are read, and its hash is that of its text. -/
theorem checkRow_passed {details : Data} (h : checkRow env n previous row = .ok (.ok details)) :
    row.linked n previous = true ∧ row.details.read env = .ok (some details) ∧
      ∃ text, canonicalJson env.depth (row.record details) = .ok text ∧ row.hash = .text (env.sha256 text) := by
  unfold checkRow at h
  cases hlinked : row.linked n previous
  · rw [hlinked] at h; cases h
  simp only [hlinked, Bool.not_true, Bool.false_eq_true, if_false] at h
  rcases hread : row.details.read env with _ | _ | d
  · rw [hread] at h; cases h
  · rw [hread] at h; cases h
  simp only [hread, auditEventHashMatches] at h
  rcases htext : canonicalJson env.depth (row.record d) with _ | text
  · rw [htext] at h; cases h
  rw [htext] at h
  split at h
  · cases h
  · cases h
  · rename_i heq
    cases h
    exact ⟨rfl, rfl, text, htext, by simpa using heq⟩

theorem lastHash_cons (previous : Cell) (row : Row) (rows : List Row) :
    lastHash previous (row :: rows) = lastHash row.hash rows := by
  cases rows with
  | nil => rfl
  | cons row' rows =>
    unfold lastHash
    rw [getLast?_cons_cons]
    cases h : (row' :: rows).getLast? with
    | none => simp at h
    | some => rfl

theorem checkRows_cons_passed {rows : List Row} {ds : List Data} :
    checkRows env n previous (row :: rows) = .ok (.ok ds) ↔ ∃ d rest, ds = d :: rest ∧
      checkRow env n previous row = .ok (.ok d) ∧ checkRows env (n + 1) row.hash rows = .ok (.ok rest) := by
  rw [checkRows]
  constructor
  · intro h
    split at h
    · cases h
    · cases h
    · rename_i d hrow
      split at h
      · rename_i rest hrest
        cases h
        exact ⟨d, rest, rfl, hrow, hrest⟩
      · rename_i hnot
        exact (hnot _ h).elim
  · rintro ⟨d, rest, rfl, hrow, hrest⟩
    rw [hrow, hrest]

theorem checkRows_ok_iff : ∀ {rows : List Row} {n : Nat} {previous : Cell},
    (∃ r, checkRows env n previous rows = .ok r) ↔ ∀ i row, rows[i]? = some row →
      (∃ ds, checkRows env n previous (rows.take i) = .ok (.ok ds)) →
        row.linked (n + i) (lastHash previous (rows.take i)) = true → row.Writable env := by
  intro rows
  induction rows with
  | nil =>
    exact iff_of_true ⟨_, rfl⟩ (by simp)
  | cons row rows ih =>
    intro n previous
    constructor
    · rintro ⟨r, h⟩ i row' hrow' ⟨ds, hds⟩ hlinked
      have hrow : ∃ r, checkRow env n previous row = .ok r := by
        rw [checkRows] at h
        cases hrow : checkRow env n previous row with
        | error => rw [hrow] at h; cases h
        | ok r => exact ⟨r, rfl⟩
      cases i with
      | zero =>
        obtain rfl : row = row' := by simpa using hrow'
        exact checkRow_ok_iff.1 hrow hlinked
      | succ i =>
        rw [take_succ_cons] at hds hlinked
        obtain ⟨d, rest, -, hpassed, hrest⟩ := checkRows_cons_passed.1 hds
        rw [lastHash_cons] at hlinked
        refine ih.1 ?_ i row' (by simpa using hrow') ⟨rest, hrest⟩ (by rwa [Nat.add_right_comm, Nat.add_assoc] )
        rw [checkRows, hpassed] at h
        cases hrows : checkRows env (n + 1) row.hash rows with
        | error => rw [hrows] at h; cases h
        | ok r' => exact ⟨r', rfl⟩
    · intro h
      have hrow : ∃ r, checkRow env n previous row = .ok r := by
        refine checkRow_ok_iff.2 fun hlinked => ?_
        exact h 0 row rfl ⟨[], rfl⟩ hlinked
      obtain ⟨r, hrow⟩ := hrow
      rw [checkRows, hrow]
      rcases r with _ | d
      · exact ⟨_, rfl⟩
      have hrest : ∃ r, checkRows env (n + 1) row.hash rows = .ok r := by
        refine ih.2 fun i row' hrow' ⟨rest, hrest⟩ hlinked => ?_
        refine h (i + 1) row' (by simpa using hrow') ⟨d :: rest, ?_⟩ ?_
        · rw [take_succ_cons]
          exact checkRows_cons_passed.2 ⟨d, rest, rfl, hrow, hrest⟩
        · rw [take_succ_cons, lastHash_cons]
          rwa [Nat.add_right_comm, Nat.add_assoc] at hlinked
      obtain ⟨r', hrest⟩ := hrest
      simp only [hrest]
      cases r' <;> exact ⟨_, rfl⟩

/-! ## The head -/

theorem isText_iff {s : Codes} : isText d s = true ↔ d = .str s := by
  cases d <;> simp [isText]

variable {t : Text}

theorem eq_text_iff {c : Cell} : c.eq (.text t) = true ↔ c = .text t := by
  cases c <;> simp [Cell.eq]

def Cell.Infinite : Cell → Prop
  | .real x => x.value = .inf ∨ x.value = .negInf
  | _ => False

/-- The checks of a head's signature that come before its payload is printed. -/
def Head.ReachesPayload (env : Env) (verifier : Option AuditHeadVerifier) (head : Head) : Prop :=
  head.signatureKeyId.truthy = true ∧ head.signature.truthy = true ∧ head.hostId.truthy = true ∧
    ∃ registry now identity, verifier = some (.ok registry) ∧ env.clock = .ok now ∧
      identityOf registry head.signatureKeyId.data = some identity ∧ identity.permits "audit" = true ∧
      isText head.hostId.data identity.issuer = true ∧ env.isPublicKey identity.publicKey = true ∧
      (b64urlDecode? head.signature.data).isSome = true

theorem evaluateAuditHead_raises {registry : TrustRegistry} {keyId : Data} {payload : HeadPayload} {signature : Data}
    {usage : String} {e : PyException}
    (h : evaluateAuditHead env registry keyId payload signature usage = .error (.python e)) :
    ∃ now identity e', env.clock = .ok now ∧ identityOf registry keyId = some identity ∧ identity.permits usage = true ∧
      isText payload.hostId identity.issuer = true ∧ env.isPublicKey identity.publicKey = true ∧
      (b64urlDecode? signature).isSome = true ∧ canonicalJson env.depth payload.data = .error e' ∧
        e' ≠ .valueError := by
  unfold evaluateAuditHead at h
  rcases hclock : env.clock with _ | now
  · rw [hclock] at h; cases h
  rcases hid : identityOf registry keyId with _ | identity
  · rw [hclock, hid] at h; cases h
  simp only [hclock, hid] at h
  cases hp : identity.permits usage
  · simp only [hp, Bool.not_false, if_true] at h; cases h
  cases hi : isText payload.hostId identity.issuer
  · simp only [hp, hi, Bool.not_true, Bool.not_false, Bool.false_eq_true, if_false, if_true] at h
    cases h
  simp only [hp, hi, Bool.not_true, Bool.false_eq_true, if_false, authentic] at h
  cases hk : env.isPublicKey identity.publicKey
  · simp only [hk, Bool.not_false, if_true] at h; cases h
  simp only [hk, Bool.not_true, Bool.false_eq_true, if_false] at h
  rcases hb : b64urlDecode? signature with _ | bytes
  · rw [hb] at h; cases h
  rw [hb] at h
  rcases hj : canonicalJson env.depth payload.data with e' | text
  · refine ⟨now, identity, e', rfl, rfl, hp, hi, hk, rfl, rfl, ?_⟩
    rintro rfl
    rw [hj] at h
    cases h
  · simp only [hj] at h
    cases hv : env.verify identity.publicKey bytes text <;> rw [hv] at h <;> cases h

theorem scalar_text (t : Text) : Scalar (.ofText t) := trivial

variable {taskId : Text} {verifier : Option AuditHeadVerifier}

/-- Verifying the signature raises just where the payload is reached and holds a blob. -/
theorem verifyHeadSignature_ok_iff {head : Head} (hdepth : env.depth ≠ 0) (hhash : head.headHash = .text t) :
    (∃ r, verifyHeadSignature env verifier taskId head n = .ok r) ↔
      ¬ (head.ReachesPayload env verifier ∧ Readable n ∧ ∃ b, head.signedAt = .blob b) := by
  constructor
  · rintro ⟨r, h⟩ ⟨⟨hk, hs, hh, registry, now, identity, rfl, hclock, hid, hp, hi, hpub, hb⟩, hn, b, hblob⟩
    obtain ⟨bytes, hb⟩ := Option.isSome_iff_exists.1 hb
    have hpayload : canonicalJson env.depth (HeadPayload.data ⟨.ofText taskId, head.hostId.data, head.headHash.data, n,
        head.signedAt.data⟩) = .error .typeError := by
      refine payload_blob (g := codes t) (b := b) hdepth rfl (isText_iff.1 hi) ?_ ?_ hn
      · show head.headHash.data = _
        rw [hhash]
        rfl
      · show head.signedAt.data = _
        rw [hblob]
        rfl
    simp only [verifyHeadSignature, hk, hs, hh, Bool.not_true, Bool.or_self, Bool.false_eq_true, if_false, evaluate,
      evaluateAuditHead, hclock, hid, hp, hi, authentic, hpub, hb, hpayload] at h
    cases h
  · intro hnot
    unfold verifyHeadSignature
    rcases verifier with _ | verifier
    · exact ⟨_, rfl⟩
    simp only
    split
    · exact ⟨_, rfl⟩
    rename_i htruthy
    simp only [Bool.or_eq_true, Bool.not_eq_true', not_or, Bool.not_eq_false] at htruthy
    split
    · exact ⟨_, rfl⟩
    · rename_i e he
      exfalso
      rcases verifier with _ | registry
      · cases he
      obtain ⟨now, identity, e', hclock, hid, hp, hi, hpub, hb, hj, hne⟩ := evaluateAuditHead_raises he
      have hreaches : head.ReachesPayload env (some (.ok registry)) :=
        ⟨htruthy.1.1, htruthy.1.2, htruthy.2, registry, now, identity, rfl, hclock, hid, hp, hi, hpub, hb⟩
      have hscalar : ¬ Scalar head.signedAt.data := by
        intro hs
        refine hne (payload_error hdepth (scalar_text taskId) ?_ ?_ hs hj)
        · show Scalar head.hostId.data
          rw [show head.hostId.data = _ from isText_iff.1 hi]
          trivial
        · show Scalar head.headHash.data
          rw [hhash]
          trivial
      obtain ⟨b, hblob⟩ : ∃ b, head.signedAt = .blob b := by
        cases hcell : head.signedAt with
        | blob b => exact ⟨b, rfl⟩
        | _ => exact absurd (by rw [hcell]; trivial) hscalar
      refine hnot ⟨hreaches, ?_, b, hblob⟩
      by_contra hn
      have hvalue := payload_unreadable (p := ⟨.ofText taskId, head.hostId.data, head.headHash.data, n,
        head.signedAt.data⟩) (g := codes t) (b := b) hdepth (isText_iff.1 hi) (by rw [hhash]; rfl)
          (by rw [hblob]; rfl) hn
      rw [hvalue] at hj
      cases hj
      exact hne rfl
    · exact ⟨_, rfl⟩

variable {allow : Bool}

/-- The anchor's payload holds strings and a number, so checking it raises nothing. -/
theorem checkMigrationAnchor_ok {headResult : AuditVerificationResult} {first : Option Data} (hdepth : env.depth ≠ 0) :
    ∃ r, checkMigrationAnchor env verifier headResult first allow = .ok r := by
  unfold checkMigrationAnchor
  split
  · exact ⟨_, rfl⟩
  simp only
  split
  · exact ⟨_, rfl⟩
  · rename_i d _
    split
    · exact ⟨_, rfl⟩
    split
    · rename_i sequence hfields _
      split
      · split <;> exact ⟨_, rfl⟩
      rename_i hlegacy
      split
      · exact ⟨_, rfl⟩
      rename_i verifier
      split
      · exact ⟨_, rfl⟩
      · rename_i e he
        exfalso
        have htext : ∀ field ∈ legacyAnchorFields ++ anchorProofFields, field ≠ "previous_audit_sequence" →
            Scalar (getData d field) := by
          intro field hmem hne
          rw [if_neg hlegacy, all_eq_true] at hfields
          have hfield := hfields field (mem_filter.2 ⟨hmem, by simpa using hne⟩)
          cases hdata : getData d field with
          | str => trivial
          | _ => rw [hdata] at hfield; cases hfield
        cases verifier with
        | error => cases he
        | ok =>
          obtain ⟨now, identity, e', -, -, -, -, -, -, hj, hne⟩ := evaluateAuditHead_raises he
          exact hne (payload_error (p := ⟨getData d "previous_audit_task_id", getData d "previous_audit_host_id",
            getData d "previous_audit_hash", sequence, .null⟩) hdepth (htext _ (by decide) (by decide))
            (htext _ (by decide) (by decide)) (htext _ (by decide) (by decide)) trivial hj)
      · split <;> exact ⟨_, rfl⟩
    · exact ⟨_, rfl⟩
  · exact ⟨_, rfl⟩

/-- The head's own checks raise just on an infinite sequence, or on a blob in the payload. -/
theorem checkHead_ok_iff {head : Head} {first : Option Data} (hdepth : env.depth ≠ 0) :
    (∃ r, checkHead env verifier taskId n (.text t) head first allow = .ok r) ↔
      ¬ head.sequence.Infinite ∧
        (head.headHash.eq (.text t) = true → head.sequence.toInt env = .ok n →
          ¬ (head.ReachesPayload env verifier ∧ Readable n ∧ ∃ b, head.signedAt = .blob b)) := by
  have hinfinite : ¬ head.sequence.Infinite ↔
      ∀ e, head.sequence.toInt env = .error e → e = .typeError ∨ e = .valueError := by
    cases hcell : head.sequence with
    | null | int => simp [Cell.toInt, Cell.Infinite]
    | real x => cases hx : x.value <;> simp [Cell.toInt, Double.toInt, Cell.Infinite, hx]
    | text s => cases hs : env.intOfText s <;> simp [Cell.toInt, Cell.Infinite, hs]
    | blob b => cases hb : env.intOfBytes b <;> simp [Cell.toInt, Cell.Infinite, hb]
  rw [hinfinite]
  unfold checkHead
  rcases hint : head.sequence.toInt env with e | m
  · cases e <;> simp
  simp only [reduceCtorEq, false_implies, implies_true, true_and, Except.ok.injEq]
  cases hhash : head.headHash.eq (.text t)
  · simp
  by_cases hm : m = n
  · subst hm
    simp only [Bool.not_true, bne_self_eq_false, Bool.or_self, Bool.false_eq_true, if_false, forall_const]
    rw [← verifyHeadSignature_ok_iff hdepth (eq_text_iff.1 hhash)]
    constructor
    · rintro ⟨r, h⟩
      cases hv : verifyHeadSignature env verifier taskId head n with
      | error => rw [hv] at h; cases h
      | ok result => exact ⟨result, rfl⟩
    · rintro ⟨result, hv⟩
      rw [hv]
      exact checkMigrationAnchor_ok hdepth
  · simp [hm]

theorem checkRows_passed_text : ∀ {rows : List Row} {n : Nat} {previous : Cell} {ds : List Data}, rows ≠ [] →
    checkRows env n previous rows = .ok (.ok ds) → env.depth ≠ 0 ∧ ∃ t, lastHash previous rows = .text t := by
  intro rows
  induction rows with
  | nil => exact fun hne _ => absurd rfl hne
  | cons row rows ih =>
    intro n previous ds _ h
    obtain ⟨d, rest, -, hrow, hrest⟩ := checkRows_cons_passed.1 h
    obtain ⟨-, -, text, htext, hhash⟩ := checkRow_passed hrow
    have hprintable := canonicalJson_ok_iff.1 ⟨text, htext⟩
    rw [lastHash_cons]
    cases rows with
    | nil => exact ⟨hprintable.1, _, hhash⟩
    | cons => exact ih (by simp) hrest

/-! ## The replay flag -/

theorem replayedAfterFinish_ok_iff : ∀ {rows : List Row} {finished : Bool},
    (∃ r, replayedAfterFinish env finished rows = .ok r) ↔
      ∀ (j : Nat) (row : Row), rows[j]? = some row → row.isEvent "agent.accepted" = true →
        (finished = true ∨ ∃ i < j, ∃ row' : Row, rows[i]? = some row' ∧ row'.finishes = true) →
          ∃ n, row.sequence.toInt env = .ok n := by
  intro rows
  induction rows with
  | nil =>
    exact iff_of_true ⟨_, rfl⟩ (by simp)
  | cons row rows ih =>
    intro finished
    -- what is left of the condition once the first row is behind
    have hstep : (∀ (j : Nat) (row' : Row), (row :: rows)[j]? = some row' → row'.isEvent "agent.accepted" = true →
        (finished = true ∨ ∃ i < j, ∃ row'' : Row, (row :: rows)[i]? = some row'' ∧ row''.finishes = true) →
          ∃ n, row'.sequence.toInt env = .ok n) ↔
        (row.isEvent "agent.accepted" = true → finished = true → ∃ n, row.sequence.toInt env = .ok n) ∧
          ∃ r, replayedAfterFinish env (finished || row.finishes) rows = .ok r := by
      rw [ih]
      constructor
      · intro h
        refine ⟨fun ha hf => h 0 row rfl ha (.inl hf), fun j row' hrow' ha hbefore => ?_⟩
        refine h (j + 1) row' (by simpa using hrow') ha ?_
        rw [Bool.or_eq_true] at hbefore
        rcases hbefore with (hf | hf) | ⟨i, hi, row'', hrow'', hf⟩
        · exact .inl hf
        · exact .inr ⟨0, Nat.succ_pos j, row, rfl, hf⟩
        · exact .inr ⟨i + 1, Nat.succ_lt_succ hi, row'', by simpa using hrow'', hf⟩
      · rintro ⟨hfirst, hrest⟩ j row' hrow' ha hbefore
        cases j with
        | zero =>
          obtain rfl : row = row' := by simpa using hrow'
          rcases hbefore with hf | ⟨i, hi, -⟩
          · exact hfirst ha hf
          · omega
        | succ j =>
          refine hrest j row' (by simpa using hrow') ha ?_
          rw [Bool.or_eq_true]
          rcases hbefore with hf | ⟨i, hi, row'', hrow'', hf⟩
          · exact .inl (.inl hf)
          cases i with
          | zero =>
            obtain rfl : row = row'' := by simpa using hrow''
            exact .inl (.inr hf)
          | succ i => exact .inr ⟨i, Nat.lt_of_succ_lt_succ hi, row'', by simpa using hrow'', hf⟩
    rw [hstep, replayedAfterFinish]
    cases ha : row.isEvent "agent.accepted"
    · simp
    have hfinishes : row.finishes = false := by
      have hevent : row.event = .text "agent.accepted".toList := by simpa [Row.isEvent] using ha
      have hname : row.isEvent = fun name => (.text "agent.accepted".toList : Cell) == .text name.toList := by
        funext name
        rw [Row.isEvent, hevent]
      rw [Row.finishes, hname]
      decide
    cases finished with
    | false => simp
    | true =>
      simp only [Bool.and_self, if_true, hfinishes, Bool.or_false, forall_const]
      exact returns_both

/-! ## The verdict -/

/-- The first `i` rows pass. -/
def Passes (env : Env) (rows : List Row) (i : Nat) : Prop :=
  ∃ ds, checkRows env 0 ((rows.head?.map Row.previousHash).getD .null) (rows.take i) = .ok (.ok ds)

/-- The row goes on where the rows before it end. -/
def LinkedAt (rows : List Row) (i : Nat) (row : Row) : Prop :=
  row.linked i (lastHash ((rows.head?.map Row.previousHash).getD .null) (rows.take i)) = true

def Head.Matches (env : Env) (rows : List Row) (head : Head) : Prop :=
  head.headHash.eq (lastHash .null rows) = true ∧ head.sequence.toInt env = .ok rows.length

/-- The chain check returns just when the rows and the head it reaches can be printed. -/
theorem verifyAuditChainRows_ok_iff {rows : List Row} {head : Option Head} :
    (∃ result, verifyAuditChainRows env verifier taskId rows head allow = .ok result) ↔
      ∀ h, head = some h →
        (∀ i row, rows[i]? = some row → Passes env rows i → LinkedAt rows i row → row.Writable env) ∧
        (rows ≠ [] → Passes env rows rows.length →
          ¬ h.sequence.Infinite ∧
            (h.Matches env rows →
              ¬ (h.ReachesPayload env verifier ∧ Readable rows.length ∧ ∃ b, h.signedAt = .blob b))) := by
  rcases head with _ | _
  · cases rows <;> exact iff_of_true ⟨_, rfl⟩ (by simp)
  simp only [Option.some.injEq, forall_eq']
  rcases rows with _ | ⟨first, rest⟩
  · exact iff_of_true ⟨_, rfl⟩ ⟨by simp, fun hne => absurd rfl hne⟩
  have hrows : (∃ r, checkRows env 0 first.previousHash (first :: rest) = .ok r) ↔ _ := checkRows_ok_iff
  simp only [Nat.zero_add] at hrows
  rw [verifyAuditChainRows]
  cases hcheck : checkRows env 0 first.previousHash (first :: rest) with
  | error =>
    refine iff_of_false (by simp) ?_
    rintro ⟨hwritable, -⟩
    obtain ⟨r, hr⟩ := hrows.2 hwritable
    rw [hcheck] at hr
    cases hr
  | ok outcome =>
    have hwritable := hrows.1 ⟨outcome, hcheck⟩
    have hall : Passes env (first :: rest) (first :: rest).length ↔ ∃ ds, outcome = .ok ds := by
      rw [Passes, take_length]
      show (∃ ds, checkRows env 0 first.previousHash (first :: rest) = .ok (.ok ds)) ↔ _
      rw [hcheck]
      simp
    rcases outcome with _ | ds
    · refine iff_of_true ⟨_, rfl⟩ ⟨hwritable, fun _ hpasses => ?_⟩
      obtain ⟨ds, hds⟩ := hall.1 hpasses
      cases hds
    obtain ⟨hdepth, t, ht⟩ := checkRows_passed_text (by simp) hcheck
    have hlast : lastHash .null (first :: rest) = .text t := by
      exact ht
    simp only [ht]
    rw [checkHead_ok_iff hdepth]
    constructor
    · rintro ⟨hsequence, hblob⟩
      refine ⟨hwritable, fun _ _ => ⟨hsequence, fun hm => ?_⟩⟩
      exact hblob (hlast ▸ hm.1) hm.2
    · rintro ⟨-, hhead⟩
      obtain ⟨hsequence, hblob⟩ := hhead (by simp) (hall.2 ⟨ds, rfl⟩)
      exact ⟨hsequence, fun hh hs => hblob ⟨hlast ▸ hh, hs⟩⟩

/-- Chain verification gives a verdict just when every row it reaches can be printed, the sequence of a head that it
reaches is not infinite and the payload of a head that it evaluates holds no blob, and every `agent.accepted` after a
finish has a number for a sequence. -/
theorem verification_returns_iff (env : Env) (verifier : Option AuditHeadVerifier) (taskId : Text) (rows : List Row)
    (head : Option Head) (allowLegacyAnchor : Bool) :
    (∃ result, verifyAuditRows env verifier taskId rows head allowLegacyAnchor = .ok result) ↔
      (∀ h, head = some h →
        (∀ i row, rows[i]? = some row → Passes env rows i → LinkedAt rows i row → row.Writable env) ∧
        (rows ≠ [] → Passes env rows rows.length →
          ¬ h.sequence.Infinite ∧
            (h.Matches env rows →
              ¬ (h.ReachesPayload env verifier ∧ Readable rows.length ∧ ∃ b, h.signedAt = .blob b)))) ∧
      ∀ (i j : Nat) (row row' : Row), i < j → rows[i]? = some row → row.finishes = true → rows[j]? = some row' →
        row'.isEvent "agent.accepted" = true → ∃ n, row'.sequence.toInt env = .ok n := by
  have hsplit : (∃ result, verifyAuditRows env verifier taskId rows head allowLegacyAnchor = .ok result) ↔
      (∃ result, verifyAuditChainRows env verifier taskId rows head allowLegacyAnchor = .ok result) ∧
        ∃ replayed, replayedAfterFinish env false rows = .ok replayed := returns_both
  rw [hsplit, replayedAfterFinish_ok_iff]
  refine and_congr ?_ ?_
  · exact verifyAuditChainRows_ok_iff
  · constructor
    · intro h i j row row' hij hrow hf hrow' ha
      exact h j row' hrow' ha (.inr ⟨i, hij, row, hrow, hf⟩)
    · rintro h j row' hrow' ha (hf | ⟨i, hij, row, hrow, hf⟩)
      · cases hf
      · exact h i j row row' hij hrow hf hrow' ha

def nanRow : Row where
  sequence := .int 0
  event := .text "agent.accepted".toList
  details := .stored "NaN".toList
  previousHash := .text []
  hash := .text []
  hostId := .text "host".toList

def nanHead : Head := ⟨.text [], .int 1, .text "host".toList, .text [], .text [], .null⟩

def plainEnv : Env where
  sha256 := id
  depth := 100
  intOfText _ := none
  intOfBytes _ := none
  isPublicKey _ := true
  verify _ _ _ := true
  clock := .ok 0

/-- `json.loads` reads `NaN`, and `canonical_json` raises on it. -/
theorem nan_details_raise : verifyAuditRows plainEnv none "task".toList [nanRow] (some nanHead) false =
    .error .valueError := by
  rfl

end Portmark.Audit
