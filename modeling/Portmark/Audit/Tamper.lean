/-
Tamper evidence. The text a row's hash is over determines the row: its columns, and its details up to
the order of the entries of objects. So with a hash that tells the texts apart, a head determines the
last row, that row the hash of the one before it, and so on down to the first: two chains that the
verifier accepts under one head are the same rows.
-/
import Portmark.Audit.Verdict

namespace Portmark.Audit

open Lib Lib.Json List

/-- A row of the `audit_events` table. -/
structure StoredRow where
  sequence : Cell
  event : Cell
  detailsJson : Text
  previousHash : Cell
  hash : Cell
  hostId : Cell

def StoredRow.row (r : StoredRow) : Row :=
    ⟨r.sequence, r.event, .stored r.detailsJson, r.previousHash, r.hash, r.hostId⟩

/-! ## A text determines its row -/

def Cell.value : Cell → Value
  | .null => .null
  | .int n => .int n
  | .real x => .float x.value
  | .text t => .str (String.ofList t)
  | .blob _ => .null

variable {depth : Nat}

theorem Cell.data_eq {c : Cell} (h : Printable depth c.data) :
    c.data = .ofValue c.value ∧ Plain IsDouble false c.value ∧ Nested depth c.value := by
  cases c with
  | null => exact ⟨rfl, trivial, trivial⟩
  | int => exact ⟨rfl, h, trivial⟩
  | real x =>
    obtain ⟨q, hq⟩ := h
    refine ⟨rfl, ⟨q, hq, x.rounded q hq⟩, trivial⟩
  | text => exact ⟨by simp [Cell.data, Cell.value, Data.ofText, Data.ofValue], trivial, trivial⟩
  | blob => exact h.elim

theorem Cell.sortKeys_value (c : Cell) : sortKeys c.value = c.value := by cases c <;> rfl

theorem Cell.value_inj {c c' : Cell} (h : Printable depth c.data) (h' : Printable depth c'.data)
    (heq : c.value = c'.value) : c = c' := by
  cases c <;> cases c'
  case null.null => rfl
  case int.int => exact congrArg Cell.int (Value.int.inj heq)
  case text.text => exact congrArg Cell.text (String.ofList_injective (Value.str.inj heq))
  case real.real x y =>
    obtain ⟨x, hx⟩ := x
    obtain ⟨y, hy⟩ := y
    obtain rfl : x = y := Value.float.inj heq
    rfl
  all_goals first | exact h.elim | exact h'.elim | cases heq

def recordValue (row : Row) (details : Value) : Dict :=
  [("sequence", row.sequence.value), ("event", row.event.value), ("details", details),
    ("previous", row.previousHash.value), ("host_id", row.hostId.value), ("hash_version", .int auditHashVersion)]

structure PrintableRow (depth : Nat) (row : Row) : Prop where
  sequence : Printable depth row.sequence.data
  event : Printable depth row.event.data
  previousHash : Printable depth row.previousHash.data
  hostId : Printable depth row.hostId.data

variable {row : Row}

theorem printable_record {d : Data} (h : Printable depth (row.record d)) :
    depth ≠ 0 ∧ PrintableRow (depth - 1) row ∧ Printable (depth - 1) d := by
  obtain ⟨hdepth, -, hentries⟩ := h
  rw [printableEntries_iff] at hentries
  simp only [forall_mem_cons] at hentries
  obtain ⟨⟨-, h1⟩, ⟨-, h2⟩, ⟨-, h3⟩, ⟨-, h4⟩, ⟨-, h5⟩, -⟩ := hentries
  exact ⟨hdepth, ⟨h1, h2, h4, h5⟩, h3⟩

/-- A record that can be printed is the value it stands for, and is printed as it. -/
theorem canonicalJson_record {v : Value} (hdepth : depth ≠ 0)
    (hrow : PrintableRow (depth - 1) row) (hv : Plain IsDouble false v) (hn : Nested (depth - 1) v) :
    canonicalJson depth (row.record (.ofValue v)) = .ok (dumps floatRepr (.dict (recordValue row v))) ∧
      Plain IsDouble false (.dict (recordValue row v)) := by
  obtain ⟨e1, p1, n1⟩ := Cell.data_eq hrow.sequence
  obtain ⟨e2, p2, n2⟩ := Cell.data_eq hrow.event
  obtain ⟨e4, p4, n4⟩ := Cell.data_eq hrow.previousHash
  obtain ⟨e5, p5, n5⟩ := Cell.data_eq hrow.hostId
  have hdata : row.record (.ofValue v) = .ofValue (.dict (recordValue row v)) := by
    rw [Row.record, e1, e2, e4, e5]
    rfl
  have hversion : Readable auditHashVersion := readable_of_lt (by decide)
  have hplain : Plain IsDouble false (.dict (recordValue row v)) :=
    ⟨by simp [recordValue, Assoc.keys], p1, p2, hv, p4, p5, hversion, trivial⟩
  refine ⟨?_, hplain⟩
  rw [hdata]
  exact canonicalJson_ofValue hplain ⟨hdepth, n1, n2, hn, n4, n5, trivial, trivial⟩

structure Row.Agrees (env : Env) (row row' : Row) : Prop where
  sequence : row.sequence = row'.sequence
  event : row.event = row'.event
  details : ∃ v v', row.details.read env = .ok (some (.ofValue v)) ∧ row'.details.read env = .ok (some (.ofValue v')) ∧
    sortKeys v = sortKeys v'
  previousHash : row.previousHash = row'.previousHash
  hash : row.hash = row'.hash
  hostId : row.hostId = row'.hostId

variable {env : Env}

theorem decoded_read {json : Text} {d : Data} (h : (Details.stored json).read env = .ok (some d)) : Decoded d := by
  rw [Details.read] at h
  cases hd : decode env.depth json with
  | error e => rw [hd] at h; cases e <;> cases h
  | ok =>
    rw [hd] at h
    cases h
    exact decode_decoded hd

theorem agrees_of_text {r r' : StoredRow} {d d' : Data} {t : Text}
    (hread : r.row.details.read env = .ok (some d)) (hread' : r'.row.details.read env = .ok (some d'))
    (ht : canonicalJson env.depth (r.row.record d) = .ok t) (ht' : canonicalJson env.depth (r'.row.record d') = .ok t)
    (hhash : r.hash = r'.hash) : r.row.Agrees env r'.row := by
  obtain ⟨hdepth, hrow, hp⟩ := printable_record (canonicalJson_ok_iff.1 ⟨t, ht⟩)
  obtain ⟨-, hrow', hp'⟩ := printable_record (canonicalJson_ok_iff.1 ⟨t, ht'⟩)
  obtain ⟨v, rfl, hv, hn⟩ := exists_value d _ (decoded_read hread) hp
  obtain ⟨v', rfl, hv', hn'⟩ := exists_value d' _ (decoded_read hread') hp'
  obtain ⟨htext, hplain⟩ := canonicalJson_record hdepth hrow hv hn
  obtain ⟨htext', hplain'⟩ := canonicalJson_record hdepth hrow' hv' hn'
  rw [ht] at htext
  rw [ht'] at htext'
  have hsorted := sortKeys_eq_of_dumps plainHooks floatRepr
    (plain_mono (fun _ => IsDouble.reads) (fun _ => rfl) _ hplain)
    (plain_mono (fun _ => IsDouble.reads) (fun _ => rfl) _ hplain')
      ((Except.ok.inj htext).symm.trans (Except.ok.inj htext'))
  have hget : ∀ k, (Assoc.get? (recordValue r.row v) k).map sortKeys =
    (Assoc.get? (recordValue r'.row v') k).map sortKeys := by
    intro k
    rw [← get?_sortKeys hplain.1, ← get?_sortKeys hplain'.1, Value.dict.inj hsorted]
  have hcell : ∀ {c c' : Cell}, Printable (env.depth - 1) c.data → Printable (env.depth - 1) c'.data →
      sortKeys c.value = sortKeys c'.value → c = c' := by
    intro c c' hc hc' heq
    rw [Cell.sortKeys_value, Cell.sortKeys_value] at heq
    exact Cell.value_inj hc hc' heq
  exact {
    sequence := hcell hrow.sequence hrow'.sequence (Option.some.inj (hget "sequence"))
    event := hcell hrow.event hrow'.event (Option.some.inj (hget "event"))
    details := ⟨v, v', hread, hread', Option.some.inj (hget "details")⟩
    previousHash := hcell hrow.previousHash hrow'.previousHash (Option.some.inj (hget "previous"))
    hash := hhash
    hostId := hcell hrow.hostId hrow'.hostId (Option.some.inj (hget "host_id")) }

/-! ## A head determines its rows -/

/-- The hash tells the texts of records apart. -/
def HashInjective (env : Env) : Prop :=
  ∀ (row row' : Row) (d d' : Data) (t t' : Text), canonicalJson env.depth (row.record d) = .ok t →
    canonicalJson env.depth (row'.record d') = .ok t' → env.sha256 t = env.sha256 t' → t = t'

theorem checkRows_passed_at : ∀ {rows : List Row} {n : Nat} {previous : Cell} {ds : List Data},
    checkRows env n previous rows = .ok (.ok ds) → ∀ (i : Nat) (row : Row), rows[i]? = some row →
      row.linked (n + i) (lastHash previous (rows.take i)) = true ∧
        ∃ d text, row.details.read env = .ok (some d) ∧ canonicalJson env.depth (row.record d) = .ok text ∧
          row.hash = .text (env.sha256 text) := by
  intro rows
  induction rows with
  | nil => intro n previous ds _ i row hrow; simp at hrow
  | cons first rows ih =>
    intro n previous ds h i row hrow
    obtain ⟨d, rest, -, hpassed, hrest⟩ := checkRows_cons_passed.1 h
    cases i with
    | zero =>
      obtain rfl : first = row := by simpa using hrow
      obtain ⟨hlinked, hread, text, htext, hhash⟩ := checkRow_passed hpassed
      exact ⟨hlinked, d, text, hread, htext, hhash⟩
    | succ i =>
      have hat := ih hrest i row (by simpa using hrow)
      rw [take_succ_cons, lastHash_cons]
      rwa [Nat.add_right_comm, Nat.add_assoc] at hat

theorem lastHash_take {rows : List Row} {i : Nat} (previous : Cell) (h : rows[i]? = some row) :
    lastHash previous (rows.take (i + 1)) = row.hash := by
  rw [take_add_one, h]
  simp [lastHash]

theorem lastHash_eq {rows : List Row} {i : Nat} {previous : Cell} (hi : i + 1 = rows.length)
    (h : rows[i]? = some row) : lastHash previous rows = row.hash := by
  rw [← lastHash_take previous h, hi, take_length]

theorem linked_previous {rows : List Row} {n : Nat} {previous : Cell} {ds : List Data} {i : Nat} {next : Row}
    (h : checkRows env n previous rows = .ok (.ok ds)) (hrow : rows[i]? = some row) (hnext : rows[i + 1]? = some next) :
    next.previousHash = row.hash := by
  obtain ⟨hlinked, -⟩ := checkRows_passed_at h (i + 1) next hnext
  obtain ⟨-, -, text, -, -, hhash⟩ := checkRows_passed_at h i row hrow
  rw [lastHash_take previous hrow, hhash, Row.linked, Bool.and_eq_true] at hlinked
  rw [hhash]
  exact eq_text_iff.1 hlinked.2

def Accepts (env : Env) (verifier : Option AuditHeadVerifier) (taskId : Text) (allowLegacyAnchor : Bool)
    (rows : List StoredRow) (head : Head) : Prop :=
  ∃ result, verifyAuditChainRows env verifier taskId (rows.map StoredRow.row) (some head) allowLegacyAnchor =
    .ok result ∧ result.status = .valid

theorem Accepts.passed {verifier : Option AuditHeadVerifier} {taskId : Text} {allow : Bool}
    {rows : List StoredRow} {head : Head} (h : Accepts env verifier taskId allow rows head) :
    ∃ first ds, rows ≠ [] ∧ checkRows env 0 first (rows.map StoredRow.row) = .ok (.ok ds) ∧
      head.headHash.eq (lastHash first (rows.map StoredRow.row)) = true ∧
        head.sequence.toInt env = .ok rows.length := by
  obtain ⟨result, hresult, hvalid⟩ := h
  rcases rows with _ | ⟨r, rows⟩
  · cases hresult
    cases hvalid
  rw [map_cons, verifyAuditChainRows] at hresult
  rcases hcheck : checkRows env 0 r.row.previousHash (r.row :: rows.map StoredRow.row) with _ | _ | ds
  · rw [hcheck] at hresult; cases hresult
  · rw [hcheck] at hresult; cases hresult; cases hvalid
  refine ⟨r.row.previousHash, ds, by simp, hcheck, ?_⟩
  simp only [hcheck, checkHead] at hresult
  rcases hint : head.sequence.toInt env with e | count
  · rw [hint] at hresult
    cases e <;> cases hresult <;> cases hvalid
  simp only [hint] at hresult
  split at hresult
  · cases hresult
    cases hvalid
  rename_i hmatches
  simp only [Bool.or_eq_true, Bool.not_eq_true', bne_iff_ne, not_or, Bool.not_eq_false, not_not] at hmatches
  refine ⟨hmatches.1, ?_⟩
  rw [hmatches.2]
  simp

/-- Two accepted chains under heads with one hash and one sequence are the same rows: as many, and alike in every
column, with the details compared as decoded. -/
theorem accepted_chains_agree (env : Env) (hinj : HashInjective env) (verifier verifier' : Option AuditHeadVerifier)
    (taskId taskId' : Text) (allow allow' : Bool) (rows rows' : List StoredRow) (head head' : Head)
    (h : Accepts env verifier taskId allow rows head) (h' : Accepts env verifier' taskId' allow' rows' head')
    (hhash : head.headHash = head'.headHash) (hsequence : head.sequence = head'.sequence) :
    rows.length = rows'.length ∧
      ∀ (i : Nat) (r r' : StoredRow), rows[i]? = some r → rows'[i]? = some r' → r.row.Agrees env r'.row := by
  obtain ⟨first, ds, hne, hcheck, hlast, hcount⟩ := h.passed
  obtain ⟨first', ds', hne', hcheck', hlast', hcount'⟩ := h'.passed
  have hlength : rows.length = rows'.length := by
    rw [hsequence, hcount'] at hcount
    have := Except.ok.inj hcount
    omega
  refine ⟨hlength, ?_⟩
  have hget : ∀ {rows : List StoredRow} {i : Nat} {r : StoredRow}, rows[i]? = some r →
      (rows.map StoredRow.row)[i]? = some r.row := by
    intro rows i r hr
    rw [List.getElem?_map, hr]
    rfl
  have hagrees : ∀ (i : Nat) (r r' : StoredRow), rows[i]? = some r → rows'[i]? = some r' → r.hash = r'.hash →
      r.row.Agrees env r'.row := by
    intro i r r' hr hr' heq
    obtain ⟨-, d, text, hread, htext, hrow⟩ := checkRows_passed_at hcheck i r.row (hget hr)
    obtain ⟨-, d', text', hread', htext', hrow'⟩ := checkRows_passed_at hcheck' i r'.row (hget hr')
    have hsha : env.sha256 text = env.sha256 text' := by
      rw [show r.row.hash = r'.row.hash from heq, hrow'] at hrow
      exact (Cell.text.inj hrow).symm
    obtain rfl := hinj _ _ _ _ _ _ htext htext' hsha
    exact agrees_of_text hread hread' htext htext' heq
  -- the hashes agree from the last row down
  have hhashes : ∀ (k i : Nat) (r r' : StoredRow), i + k + 1 = rows.length → rows[i]? = some r → rows'[i]? = some r' →
      r.hash = r'.hash := by
    intro k
    induction k with
    | zero =>
      intro i r r' hi hr hr'
      rw [lastHash_eq (by simpa using hi) (hget hr)] at hlast
      rw [lastHash_eq (by simpa [← hlength] using hi) (hget hr')] at hlast'
      obtain ⟨-, -, text, -, -, hrow⟩ := checkRows_passed_at hcheck i r.row (hget hr)
      obtain ⟨-, -, text', -, -, hrow'⟩ := checkRows_passed_at hcheck' i r'.row (hget hr')
      rw [hrow] at hlast
      rw [hrow', ← hhash] at hlast'
      exact hrow.trans ((eq_text_iff.1 hlast).symm.trans (eq_text_iff.1 hlast')) |>.trans hrow'.symm
    | succ k ih =>
      intro i r r' hi hr hr'
      obtain ⟨s, hs⟩ : ∃ s, rows[i + 1]? = some s := ⟨_, List.getElem?_eq_getElem (by omega)⟩
      obtain ⟨s', hs'⟩ : ∃ s', rows'[i + 1]? = some s' := ⟨_, List.getElem?_eq_getElem (by omega)⟩
      have hnext := hagrees (i + 1) s s' hs hs' (ih (i + 1) s s' (by omega) hs hs')
      have hprevious := linked_previous hcheck (hget hr) (hget hs)
      have hprevious' := linked_previous hcheck' (hget hr') (hget hs')
      exact hprevious.symm.trans (hnext.previousHash.trans hprevious')
  intro i r r' hr hr'
  have hi : i < rows.length := (List.getElem?_eq_some_iff.1 hr).1
  exact hagrees i r r' hr hr' (hhashes (rows.length - i - 1) i r r' (by omega) hr hr')

def hashedRow (sequence : Int) (event : String) (detailsJson : String) (previous : Cell) : StoredRow :=
  let row : StoredRow := ⟨.int sequence, .text event.toList, detailsJson.toList, previous, .null, .text "host".toList⟩
  let text := match decode plainEnv.depth row.detailsJson with
    | .ok d => (canonicalJson plainEnv.depth (row.row.record d)).toOption.getD []
    | .error _ => []
  { row with hash := .text text }

def shortChain : List StoredRow :=
  let first := hashedRow 0 "agent.accepted" "\x7b\"task\":1\x7d" (.text [])
  [first, hashedRow 1 "agent.completed" "[true]" first.hash]

def spacedChain : List StoredRow :=
  let first := hashedRow 0 "agent.accepted" " \x7b \"task\" : 1 \x7d " (.text [])
  [first, hashedRow 1 "agent.completed" "[ true ]" first.hash]

def shortHead : Head :=
  ⟨lastHash .null (shortChain.map StoredRow.row), .int 2, .text "host".toList, .text "key".toList, .text "AA".toList,
    .null⟩

def hostRegistry : TrustRegistry := [(codes "key".toList, ⟨codes "host".toList, [], 0, none, false, [], none⟩)]

theorem accepted_chains_agree_spaced :
    Accepts plainEnv (some (.ok hostRegistry)) "task".toList false shortChain shortHead ∧
      Accepts plainEnv (some (.ok hostRegistry)) "task".toList false spacedChain shortHead ∧
      ∀ (i : Nat) (r r' : StoredRow), shortChain[i]? = some r → spacedChain[i]? = some r' →
        r.row.Agrees plainEnv r'.row := by
  have haccepts : ∀ rows, (verifyAuditChainRows plainEnv (some (.ok hostRegistry)) "task".toList
      (rows.map StoredRow.row) (some shortHead) false).toOption.map (·.status) = some .valid →
      Accepts plainEnv (some (.ok hostRegistry)) "task".toList false rows shortHead := by
    intro rows h
    obtain ⟨result, hresult, hvalid⟩ := Option.map_eq_some_iff.1 h
    refine ⟨result, ?_, hvalid⟩
    revert hresult
    cases verifyAuditChainRows plainEnv _ _ _ _ _ <;> simp [Except.toOption]
  have hshort := haccepts shortChain (by decide +kernel)
  have hspaced := haccepts spacedChain (by decide +kernel)
  exact ⟨hshort, hspaced,
    (accepted_chains_agree plainEnv (fun _ _ _ _ _ _ _ _ h => h) _ _ _ _ _ _ _ _ _ _ hshort hspaced
    rfl rfl).2⟩

end Portmark.Audit
