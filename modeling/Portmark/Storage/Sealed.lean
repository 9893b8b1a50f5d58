/-
Checkpoints sealed under a keyring: `CheckpointCodec` of checkpoint_crypto.py and the SQL store's
`save_checkpoint` and `_decode_row` of storage.py with one configured. The encryption is ideal: a
sealing is entered in a log with its key, its bytes and its associated data, and bytes open just when
the log has them. Between saves, someone without the keys may put anything in the columns.
-/
import Portmark.Audit.Signing
import Portmark.Audit.Tamper
import Portmark.Lib.Json.Reread
import Portmark.Lib.Table
import Portmark.Storage.Basic

namespace Portmark.Storage.Sealed

open Lib Lib.Json Audit Option

/-! ## The associated data -/

structure AssociatedData where
  taskId : Text
  generation : Int
  keyId : Text
  closed : Bool
  ownerIssuer : Cell
  ownerSubject : Cell
  authorityCeiling : Cell

namespace AssociatedData

/-- `_row_binding`: the ceiling is bound when there is one. -/
def rowBinding (a : AssociatedData) : List (Key × Data) :=
  [(key "closed", .bool a.closed), (key "owner", .list [a.ownerIssuer.data, a.ownerSubject.data])] ++
    if a.authorityCeiling = .null then [] else [(key "authority_ceiling", a.authorityCeiling.data)]

/-- `_associated_data`, before it is printed. -/
def data (a : AssociatedData) : Data :=
  .dict [(key "format", .ofText "portmark.checkpoint.v1".toList), (key "task_id", .ofText a.taskId),
    (key "generation", .int a.generation), (key "key_id", .ofText a.keyId), (key "row", .dict a.rowBinding)]

end AssociatedData

/-! ## The codec -/

/-- `_KEY_ID`. -/
def isKeyId (s : Text) : Bool :=
  decide (1 ≤ s.length ∧ s.length ≤ 64) &&
    s.all fun c => (c.isAlphanum && decide (c.toNat < 128)) || c == '.' || c == '_' || c == '-'

structure CheckpointCodec where
  first : Text × Text
  others : List (Text × Text)
  keyIds : ∀ k ∈ first :: others, isKeyId k.1 = true
  distinct : ((first :: others).map Prod.fst).Nodup

def CheckpointCodec.keyOf (codec : CheckpointCodec) (keyId : Text) : Option Text :=
  ((codec.first :: codec.others).find? fun k => k.1 = keyId).map Prod.snd

structure State where
  taskId : Codes
  goal : Codes
  step : Int
  toolCalls : Int
  memory : Data
  messages : Data
  status : Host.Status
  result : Data
  typed : Typed (.list [.str taskId, .str goal, memory, messages, result])

/-- `asdict(state)` with the generation it is saved at. -/
def State.blob (state : State) (generation : Int) : List (Key × Data) :=
  [(key "task_id", .str state.taskId), (key "goal", .str state.goal), (key "checkpoint_generation", .int generation),
    (key "step", .int state.step), (key "tool_calls", .int state.toolCalls), (key "memory", state.memory),
    (key "messages", state.messages), (key "status", .ofText state.status.text.toList), (key "result", state.result)]

structure SealedRow where
  taskId : Text
  generation : Int
  closed : Bool
  ownerIssuer : Cell
  ownerSubject : Cell
  authorityCeiling : Cell
  state : State

def SealedRow.associatedData (row : SealedRow) (keyId : Text) : AssociatedData :=
  ⟨row.taskId, row.generation, keyId, row.closed, row.ownerIssuer, row.ownerSubject, row.authorityCeiling⟩

/-- One encryption: the nonce and the ciphertext are its bytes. Opening does not look at `row`, which says what was
sealed. -/
structure Sealing where
  aesKey : Text
  bytes : List Nat
  associatedData : Text
  plaintext : Text
  row : SealedRow

def decrypt (log : List Sealing) (aesKey : Text) (bytes : List Nat) (associatedData : Text) : Option Text :=
  (log.find? fun s => s.aesKey == aesKey && s.bytes == bytes && s.associatedData == associatedData).map (·.plaintext)

def sealedHeader : Text := "pmc1:".toList

def isSealed (stored : Text) : Bool := sealedHeader.isPrefixOf stored

def raised : EncodeError → StoreError
  | .typeError => .python "TypeError"
  | .valueError => .python "ValueError"
  | .recursionError => .python "RecursionError"

def storedText (keyId : Text) (bytes : List Nat) : Text :=
  sealedHeader ++ keyId ++ ':' :: charsOf (b64urlEncode bytes)

def keyIdOf (stored : Text) : Except StoreError Text :=
  if !isSealed stored then .error (.checkpointCrypto "checkpoint is not encrypted")
  else
    let rest := stored.drop sealedHeader.length
    let keyId := rest.takeWhile (· != ':')
    if !rest.contains ':' || !isKeyId keyId then
      .error (.checkpointCrypto "encrypted checkpoint has a malformed header")
    else .ok keyId

/-- `CheckpointCodec.open`; `bound` is the associated data under the key id the text names. -/
def openSealed (depth : Nat) (log : List Sealing) (codec : CheckpointCodec) (stored : Text)
    (bound : Text → AssociatedData) : Except StoreError Text := do
  let keyId ← keyIdOf stored
  match codec.keyOf keyId with
  | none =>
    .error (.checkpointCrypto
      ("checkpoint is encrypted with key '" ++ String.ofList keyId ++ "', which is not in the keyring"))
  | some aesKey =>
    let body := stored.drop (sealedHeader.length + keyId.length + 1)
    match urlsafeB64decode (body ++ List.replicate ((4 - body.length % 4) % 4) '=') with
    | none => .error (.checkpointCrypto "encrypted checkpoint is not valid base64")
    | some bytes =>
      if bytes.length < 12 + 16 then .error (.checkpointCrypto "encrypted checkpoint is too short")
      else
        match canonicalJson depth (bound keyId).data with
        | .error e => .error (raised e)
        | .ok associatedData =>
          match decrypt log aesKey bytes associatedData with
          | none =>
            .error (.checkpointCrypto "checkpoint failed authentication (wrong key, changed bytes, or moved row)")
          | some plaintext => .ok plaintext

/-- `open_stored`. -/
def openStored (depth : Nat) (log : List Sealing) (codec : CheckpointCodec) (stored : Text)
    (bound : Text → AssociatedData) : Except StoreError Text :=
  if !isSealed stored then
    .error (.checkpointCrypto ("checkpoint is not encrypted but a checkpoint keyring is configured; " ++
      "run `portmark store encrypt-checkpoints --apply` with the host stopped"))
  else openSealed depth log codec stored bound

/-! ## Stored rows -/

/-- A row of the `checkpoints` table. -/
structure CheckpointRow where
  taskId : Text
  status : Cell
  checkpointJson : Cell
  generation : Cell
  closed : Cell
  ownerIssuer : Cell
  ownerSubject : Cell
  authorityCeiling : Cell
deriving DecidableEq

/-- `status in ("completed", "failed")`. -/
def isTerminal : Cell → Bool
  | .text t => t == "completed".toList || t == "failed".toList
  | _ => false

/-- `_effective_closed` of a row. -/
def CheckpointRow.effectiveClosed (row : CheckpointRow) : Bool := row.closed.truthy || isTerminal row.status

def CheckpointRow.associatedData (row : CheckpointRow) (taskId : Text) (generation : Int) (keyId : Text) :
    AssociatedData :=
  ⟨taskId, generation, keyId, row.effectiveClosed, row.ownerIssuer, row.ownerSubject, row.authorityCeiling⟩

def number? : Data → Option PyFloat
  | .int n => some (.finite n)
  | .bool b => some (.finite (if b then 1 else 0))
  | .float x => some x
  | _ => none

/-- `==` between decoded data and a column. -/
def dataEq : Data → Cell → Bool
  | .null, .null => true
  | .str s, .text t => s == codes t
  | .bytes b, .blob b' => b == b'
  | d, c =>
    match number? d, number? c.data with
    | some x, some y => PyFloat.eq x y
    | _, _ => false

/-- `_check_sealed_status`. -/
def checkSealedStatus (taskId : Text) (blob : Data) (row : CheckpointRow) : Except StoreError Unit :=
  match blob with
  | .dict d =>
    if dataEq (getData d "status") row.status then .ok ()
    else .error (.checkpointCrypto
      ("checkpoint '" ++ String.ofList taskId ++ "' status column does not match the sealed state"))
  | _ => .error (.python "AttributeError")

/-- `_open_row`. -/
def openRow (env : Env) (log : List Sealing) (codec : CheckpointCodec) (taskId : Text) (row : CheckpointRow) :
    Except StoreError Text :=
  match row.generation.toInt env with
  | .error _ => .error (.python "int()")
  | .ok generation =>
    match row.checkpointJson with
    | .text stored => openStored env.depth log codec stored (row.associatedData taskId generation)
    | _ => .error (.python "AttributeError")

/-- `_decode_row`. -/
def decodeRow (env : Env) (log : List Sealing) (codec : CheckpointCodec) (taskId : Text) (row : CheckpointRow) :
    Except StoreError Data := do
  let text ← openRow env log codec taskId row
  match decode env.depth text with
  | .error _ => .error (.python "json.loads")
  | .ok blob =>
    checkSealedStatus taskId blob row
    return blob

/-! ## Saves and edits -/

structure Checkpoints where
  rows : Table CheckpointRow
  unique : Table.Unique CheckpointRow.taskId rows

structure World where
  checkpoints : Checkpoints
  cancellations : List Text
  log : List Sealing

/-- The arguments of `save_checkpoint`, with the nonce and the ciphertext of this save. -/
structure Save where
  taskId : Text
  state : State
  expectedGeneration : Int
  closed : Bool
  owner : Option (Text × Text)
  authorityCeiling : Option Text
  bytes : List Nat

def Save.ownerIssuer (save : Save) : Cell := save.owner.elim .null fun owner => .text owner.1
def Save.ownerSubject (save : Save) : Cell := save.owner.elim .null fun owner => .text owner.2
def Save.ceiling (save : Save) : Cell := save.authorityCeiling.elim .null .text

/-- `_effective_closed` of what is saved. -/
def Save.effectiveClosed (save : Save) : Bool := save.closed || isTerminal (.text save.state.status.text.toList)

/-- `_encode_checkpoint`: the stored text, and the log with this encryption. -/
def encodeCheckpoint (depth : Nat) (codec : CheckpointCodec) (bytes : List Nat) (row : SealedRow) (log : List Sealing) :
    Except StoreError (Text × List Sealing) :=
  match asciiJson depth (.dict (row.state.blob row.generation)) with
  | .error e => .error (raised e)
  | .ok plaintext =>
    match canonicalJson depth (row.associatedData codec.first.1).data with
    | .error e => .error (raised e)
    | .ok associatedData =>
      .ok (storedText codec.first.1 bytes, log ++ [⟨codec.first.2, bytes, associatedData, plaintext, row⟩])

/-- `column = ?` for an integer. -/
def sqlEq : Cell → Int → Bool
  | .int m, n => m == n
  | .real x, n => PyFloat.eq x.value (.finite n)
  | _, _ => false

def closedColumn (closed : Bool) : Cell := .int (if closed then 1 else 0)

def Save.sealedRow (save : Save) (generation : Int) (ownerIssuer ownerSubject authorityCeiling : Cell) : SealedRow :=
  ⟨save.taskId, generation, save.effectiveClosed, ownerIssuer, ownerSubject, authorityCeiling, save.state⟩

def create (env : Env) (codec : CheckpointCodec) (save : Save) (world : World)
    (hnone : Table.rowOf CheckpointRow.taskId world.checkpoints.rows save.taskId = none) :
    Except StoreError Int × World :=
  if save.expectedGeneration ≠ 0 then (.error (.security "stale checkpoint generation"), world)
  else
    match encodeCheckpoint env.depth codec save.bytes
        (save.sealedRow 1 save.ownerIssuer save.ownerSubject save.ceiling) world.log with
    | .error e => (.error e, world)
    | .ok (stored, log) =>
      (.ok 1, { world with
        checkpoints :=
          ⟨world.checkpoints.rows ++ [⟨save.taskId, .text save.state.status.text.toList, .text stored, .int 1,
          closedColumn save.closed, save.ownerIssuer, save.ownerSubject, save.ceiling⟩],
          Table.unique_append world.checkpoints.unique hnone⟩
        log })

/-- `_check_owner` on the columns. -/
def checkOwner (row : CheckpointRow) (save : Save) : Except StoreError Unit :=
  if row.ownerIssuer.eq save.ownerIssuer && row.ownerSubject.eq save.ownerSubject then .ok ()
  else if row.ownerIssuer.eq .null && row.ownerSubject.eq .null then
    .error (.security ("legacy checkpoint has no stored owner and cannot be resumed safely after upgrade. " ++
      "Submit it as a new task."))
  else .error (.security "checkpoint belongs to a different owner")

def Save.selects (save : Save) (row : CheckpointRow) : Bool :=
  decide (row.taskId = save.taskId) && (sqlEq row.generation save.expectedGeneration && sqlEq row.closed 0)

def Save.written (save : Save) (stored : Text) (row : CheckpointRow) : CheckpointRow :=
  { row with
    generation := .int (save.expectedGeneration + 1), status := .text save.state.status.text.toList,
    checkpointJson := .text stored, closed := closedColumn save.closed }

theorem Save.written_taskId (save : Save) (stored : Text) (row : CheckpointRow) :
    (save.written stored row).taskId = row.taskId := rfl

def replace (env : Env) (codec : CheckpointCodec) (save : Save) (row : CheckpointRow) (world : World) :
    Except StoreError Int × World :=
  match encodeCheckpoint env.depth codec save.bytes (save.sealedRow (save.expectedGeneration + 1) row.ownerIssuer
      row.ownerSubject row.authorityCeiling) world.log with
  | .error e => (.error e, world)
  | .ok (stored, log) =>
    if !(fitsInt64 (save.expectedGeneration + 1) && fitsInt64 save.expectedGeneration) then
      (.error .overflow, { world with log })
    else if world.checkpoints.rows.countP save.selects ≠ 1 then
      (.error (.security "stale checkpoint generation"), { world with log })
    else
      (.ok (save.expectedGeneration + 1), { world with
        checkpoints := ⟨(Table.update save.selects (save.written stored) world.checkpoints.rows).2,
          Table.unique_update (save.written_taskId stored) world.checkpoints.unique⟩
        log })

/-- `save_checkpoint`. -/
def saveCheckpoint (env : Env) (codec : CheckpointCodec) (save : Save) (world : World) :
    Except StoreError Int × World :=
  if !save.closed && world.cancellations.contains save.taskId then (.error .taskCancelled, world)
  else
    match hrow : Table.rowOf CheckpointRow.taskId world.checkpoints.rows save.taskId with
    | none => create env codec save world hrow
    | some row =>
      match decodeRow env world.log codec save.taskId row with
      | .error e => (.error e, world)
      | .ok _ =>
        if row.effectiveClosed then (.error (.security "task checkpoint is closed"), world)
        else
          match checkOwner row save with
          | .error e => (.error e, world)
          | .ok _ => replace env codec save row world

inductive Step where
  | save (codec : CheckpointCodec) (save : Save)
  | edit (checkpoints : Checkpoints) (cancellations : List Text)

def step (env : Env) : Step → World → World
  | .save codec save, world => (saveCheckpoint env codec save world).2
  | .edit checkpoints cancellations, world => { world with checkpoints, cancellations }

def World.new : World := ⟨⟨[], List.nodup_nil⟩, [], []⟩

def after (env : Env) (steps : List Step) : World := steps.foldl (fun world s => step env s world) World.new

/-! ## The associated data tells rows apart -/

variable {c : Cell} {depth : Nat}

namespace AssociatedData

def rowValue (a : AssociatedData) : Dict :=
  [("closed", .bool a.closed), ("owner", .list [a.ownerIssuer.value, a.ownerSubject.value])] ++
    if a.authorityCeiling = .null then [] else [("authority_ceiling", a.authorityCeiling.value)]

def value (a : AssociatedData) : Dict :=
  [("format", .str "portmark.checkpoint.v1"), ("task_id", .str (String.ofList a.taskId)),
    ("generation", .int a.generation), ("key_id", .str (String.ofList a.keyId)), ("row", .dict a.rowValue)]

structure Columns (a : AssociatedData) : Prop where
  issuer : Printable 0 a.ownerIssuer.data
  subject : Printable 0 a.ownerSubject.data
  ceiling : Printable 0 a.authorityCeiling.data

theorem printable_cell (h : Printable depth c.data) (depth' : Nat) : Printable depth' c.data := by
  cases c <;> exact h

variable {a : AssociatedData}

theorem ceiling_entry (h : ∀ e ∈ a.rowBinding, Printable depth e.2) : Printable 0 a.authorityCeiling.data := by
  by_cases hnull : a.authorityCeiling = .null
  · rw [hnull]
    trivial
  · have hmem : (key "authority_ceiling", a.authorityCeiling.data) ∈ a.rowBinding := by simp [rowBinding, hnull]
    exact printable_cell (h _ hmem) 0

variable {t : Text}

theorem columns_of_printed (h : canonicalJson depth a.data = .ok t) :
    a.Columns ∧ Readable a.generation ∧ 3 ≤ depth := by
  have hp := canonicalJson_ok_iff.1 ⟨t, h⟩
  rw [data, Printable, printableEntries_iff] at hp
  obtain ⟨hdepth, -, hentries⟩ := hp
  simp only [List.forall_mem_cons] at hentries
  obtain ⟨-, -, ⟨-, hgeneration⟩, -, ⟨-, hrow⟩, -⟩ := hentries
  rw [Printable, printableEntries_iff] at hrow
  obtain ⟨hdepth', -, hrow⟩ := hrow
  have howner : Printable (depth - 1 - 1) (.list [a.ownerIssuer.data, a.ownerSubject.data]) :=
    (hrow (key "owner", _) (by simp [rowBinding])).2
  rw [Printable, printableItems_iff] at howner
  simp only [List.forall_mem_cons] at howner
  obtain ⟨hdepth'', hissuer, hsubject, -⟩ := howner
  exact ⟨⟨printable_cell hissuer 0, printable_cell hsubject 0, ceiling_entry fun e he => (hrow e he).2⟩, hgeneration,
    by omega⟩

theorem Columns.ofValue (h : a.Columns) : Data.ofValue (.dict a.value) = a.data := by
  have howner : Data.ofValue (.list [a.ownerIssuer.value, a.ownerSubject.value]) =
      .list [a.ownerIssuer.data, a.ownerSubject.data] := by
    rw [(Cell.data_eq h.issuer).1, (Cell.data_eq h.subject).1]
    rfl
  have hrow : Data.ofValue (.dict a.rowValue) = .dict a.rowBinding := by
    unfold rowValue rowBinding
    split
    · simp only [Data.ofValue, ofValueEntries, List.append_nil] at howner ⊢
      rw [howner]
      rfl
    · rw [(Cell.data_eq h.ceiling).1]
      simp only [Data.ofValue, ofValueEntries, List.cons_append, List.nil_append] at howner ⊢
      rw [howner]
      rfl
  rw [Data.ofValue] at hrow
  simp only [value, data, Data.ofValue, ofValueEntries, String.toList_ofList, hrow]
  rfl

theorem Columns.plain_row (h : a.Columns) :
    Plain IsDouble false (.dict a.rowValue) ∧ ∀ depth, 2 ≤ depth → Nested depth (.dict a.rowValue) := by
  obtain ⟨-, h1, n1⟩ := Cell.data_eq h.issuer
  obtain ⟨-, h2, n2⟩ := Cell.data_eq h.subject
  obtain ⟨-, h3, -⟩ := Cell.data_eq h.ceiling
  have hnest : ∀ {c : Cell} (depth : Nat), Nested depth c.value := by
    intro c depth
    cases c <;> trivial
  unfold rowValue
  split
  · refine ⟨⟨by simp [Assoc.keys], trivial, ⟨h1, h2, trivial⟩, trivial⟩, fun depth hd => ?_⟩
    exact ⟨by omega, trivial, ⟨by omega, hnest _, hnest _, trivial⟩, trivial⟩
  · refine ⟨⟨by simp [Assoc.keys], trivial, ⟨h1, h2, trivial⟩, h3, trivial⟩, fun depth hd => ?_⟩
    exact ⟨by omega, trivial, ⟨by omega, hnest _, hnest _, trivial⟩, hnest _, trivial⟩

/-- The printed text, and that its value has no key twice. -/
theorem printed (h : canonicalJson depth a.data = .ok t) :
    a.Columns ∧ t = dumps floatRepr (.dict a.value) ∧ Plain IsDouble false (.dict a.value) := by
  obtain ⟨hcolumns, hgeneration, hdepth⟩ := columns_of_printed h
  obtain ⟨hrow, hnested⟩ := hcolumns.plain_row
  have hplain : Plain IsDouble false (.dict a.value) :=
    ⟨by simp [value, Assoc.keys], trivial, trivial, hgeneration, trivial, hrow, trivial⟩
  have htext := canonicalJson_ofValue hplain
    (show Nested depth (.dict a.value) from ⟨by omega, trivial, trivial, trivial, trivial, hnested _ (by omega),
      trivial⟩)
  rw [hcolumns.ofValue, h] at htext
  exact ⟨hcolumns, Except.ok.inj htext, hplain⟩

/-- Values of one normal form have the same entries, up to the order of keys. -/
theorem get?_of_sorted {d d' : Dict} (hd : (Assoc.keys d).Nodup) (hd' : (Assoc.keys d').Nodup)
    (h : sortKeys (.dict d) = sortKeys (.dict d')) (k : String) :
    (Assoc.get? d k).map sortKeys = (Assoc.get? d' k).map sortKeys := by
  rw [← get?_sortKeys hd, ← get?_sortKeys hd', Value.dict.inj h]

theorem ceiling_get? (a : AssociatedData) : Assoc.get? a.rowValue "authority_ceiling" =
    if a.authorityCeiling = .null then none else some a.authorityCeiling.value := by
  unfold rowValue
  split <;> rfl

theorem eq_of_text {b : AssociatedData} (ha : canonicalJson depth a.data = .ok t)
    (hb : canonicalJson depth b.data = .ok t) : a = b := by
  obtain ⟨hca, hta, hpa⟩ := printed ha
  obtain ⟨hcb, htb, hpb⟩ := printed hb
  have hsorted := sortKeys_eq_of_dumps plainHooks floatRepr
    (plain_mono (fun _ => IsDouble.reads) (fun _ => rfl) _ hpa)
    (plain_mono (fun _ => IsDouble.reads) (fun _ => rfl) _ hpb) (hta.symm.trans htb)
  have hget := get?_of_sorted hpa.1 hpb.1 hsorted
  have hrow : sortKeys (.dict a.rowValue) = sortKeys (.dict b.rowValue) := Option.some.inj (hget "row")
  have hgetRow := get?_of_sorted hca.plain_row.1.1 hcb.plain_row.1.1 hrow
  have hcell : ∀ {c c' : Cell}, Printable 0 c.data → Printable 0 c'.data → sortKeys c.value = sortKeys c'.value →
    c = c' := by
    intro c c' hc hc' heq
    rw [Cell.sortKeys_value, Cell.sortKeys_value] at heq
    exact Cell.value_inj hc hc' heq
  have htask : a.taskId = b.taskId := String.ofList_injective (Value.str.inj (Option.some.inj (hget "task_id")))
  have hgeneration : a.generation = b.generation := Value.int.inj (Option.some.inj (hget "generation"))
  have hkey : a.keyId = b.keyId := String.ofList_injective (Value.str.inj (Option.some.inj (hget "key_id")))
  have hclosed : a.closed = b.closed := Value.bool.inj (Option.some.inj (hgetRow "closed"))
  have howner : [sortKeys a.ownerIssuer.value, sortKeys a.ownerSubject.value] =
      [sortKeys b.ownerIssuer.value, sortKeys b.ownerSubject.value] :=
    Value.list.inj (Option.some.inj (hgetRow "owner"))
  have hceiling : a.authorityCeiling = b.authorityCeiling := by
    have h := hgetRow "authority_ceiling"
    rw [ceiling_get?, ceiling_get?] at h
    split at h
    · split at h
      · rename_i h1 h2
        rw [h1, h2]
      · cases h
    · split at h
      · cases h
      · exact hcell hca.ceiling hcb.ceiling (Option.some.inj h)
  cases b
  obtain rfl := hcell hca.issuer hcb.issuer (List.cons.inj howner).1
  obtain rfl := hcell hca.subject hcb.subject (List.cons.inj (List.cons.inj howner).2).1
  subst htask hgeneration hkey hclosed hceiling
  rfl

end AssociatedData

/-! ## What opens was sealed -/

def Faithful (depth : Nat) (log : List Sealing) : Prop :=
  ∀ s ∈ log, (∃ keyId, canonicalJson depth (s.row.associatedData keyId).data = .ok s.associatedData) ∧
    asciiJson depth (.dict (s.row.state.blob s.row.generation)) = .ok s.plaintext

variable {codec : CheckpointCodec} {log : List Sealing}

theorem Faithful.encodeCheckpoint {bytes : List Nat} {row : SealedRow} {log' : List Sealing} {stored : Text}
    (h : Faithful depth log) (he : encodeCheckpoint depth codec bytes row log = .ok (stored, log')) :
    Faithful depth log' := by
  unfold Sealed.encodeCheckpoint at he
  split at he
  · cases he
  rename_i plaintext hplain
  split at he
  · cases he
  rename_i associatedData hassociated
  cases he
  intro s hs
  rcases List.mem_append.1 hs with hs | hs
  · exact h s hs
  · obtain rfl := List.mem_singleton.1 hs
    exact ⟨⟨_, hassociated⟩, hplain⟩

variable {env : Env} {save : Save}

theorem Faithful.saveCheckpoint {world : World} (h : Faithful env.depth world.log) :
    Faithful env.depth (saveCheckpoint env codec save world).2.log := by
  unfold Sealed.saveCheckpoint
  split
  · exact h
  split
  · unfold create
    split
    · exact h
    split
    · exact h
    · rename_i he
      exact h.encodeCheckpoint he
  split
  · exact h
  split
  · exact h
  split
  · exact h
  unfold replace
  split
  · exact h
  rename_i he
  split
  · exact h.encodeCheckpoint he
  split
  · exact h.encodeCheckpoint he
  · exact h.encodeCheckpoint he

/-- After any saves and edits, every encryption is of the row it says. -/
theorem faithful_after (env : Env) (steps : List Step) : Faithful env.depth (after env steps).log := by
  have hrun : ∀ (steps : List Step) (world : World), Faithful env.depth world.log →
      Faithful env.depth (steps.foldl (fun world s => step env s world) world).log := by
    intro steps
    induction steps with
    | nil => exact fun _ h => h
    | cons s steps ih =>
      intro world h
      apply ih
      cases s with
      | save => exact h.saveCheckpoint
      | edit => exact h
  exact hrun steps World.new (by simp [World.new, Faithful])

theorem decrypt_logged {aesKey associatedData plaintext : Text} {bytes : List Nat}
    (h : decrypt log aesKey bytes associatedData = some plaintext) :
    ∃ s ∈ log, s.associatedData = associatedData ∧ s.plaintext = plaintext := by
  obtain ⟨s, hs, rfl⟩ := map_eq_some_iff.1 h
  have hfound := List.find?_some hs
  simp only [Bool.and_eq_true, beq_iff_eq] at hfound
  exact ⟨s, List.mem_of_find?_eq_some hs, hfound.2, rfl⟩

theorem openStored_logged {stored text : Text} {bound : Text → AssociatedData}
    (h : openStored depth log codec stored bound = .ok text) :
    ∃ s ∈ log, s.plaintext = text ∧ ∃ keyId, canonicalJson depth (bound keyId).data = .ok s.associatedData := by
  unfold openStored at h
  split at h
  · cases h
  obtain ⟨keyId, -, h⟩ := bind_ok_iff.1 h
  split at h
  · cases h
  dsimp only at h
  split at h
  · cases h
  split at h
  · cases h
  split at h
  · cases h
  rename_i associatedData hassociated
  split at h
  · cases h
  rename_i plaintext hplain
  cases h
  obtain ⟨s, hs, hbound, htext⟩ := decrypt_logged hplain
  exact ⟨s, hs, htext, keyId, by rw [hassociated, hbound]⟩

/-! ## The sealed state -/

theorem getData_of_mem {d : List (Key × Data)} {name : String} {x : Data} (hn : (d.map Prod.fst).Nodup)
    (h : (key name, x) ∈ d) : getData d name = x := by
  unfold getData
  cases hf : d.find? fun e => e.1 = key name with
  | none => simpa using List.find?_eq_none.1 hf _ h
  | some e =>
    have hkey : e.1 = key name := by simpa using List.find?_some hf
    have := List.inj_on_of_nodup_map hn (List.mem_of_find?_eq_some hf) h hkey
    rw [this]

theorem State.keys_blob (state : State) (generation : Int) :
    ((state.blob generation).map Prod.fst).Nodup ∧ ∀ e ∈ state.blob generation, ∃ s, e.1 = .str s ∧ Clean s := by
  constructor
  · show [key "task_id", key "goal", key "checkpoint_generation", key "step", key "tool_calls", key "memory",
      key "messages", key "status", key "result"].Nodup
    decide
  · simp only [State.blob, List.forall_mem_cons]
    refine ⟨⟨_, rfl, ?_⟩, ⟨_, rfl, ?_⟩, ⟨_, rfl, ?_⟩, ⟨_, rfl, ?_⟩, ⟨_, rfl, ?_⟩, ⟨_, rfl, ?_⟩, ⟨_, rfl, ?_⟩,
      ⟨_, rfl, ?_⟩, ⟨_, rfl, ?_⟩, by simp⟩ <;> exact clean_codes _

theorem State.typed_blob (state : State) (generation : Int) : Typed (.dict (state.blob generation)) := by
  have h := state.typed
  obtain ⟨h1, h2, h3, h4, h5, -⟩ := h
  rw [Typed, typedEntries_iff]
  simp only [State.blob, List.forall_mem_cons, key, Key.Typed, Typed, Data.ofText, List.not_mem_nil, false_implies,
    implies_true, and_true]
  exact ⟨⟨typedCodes_codes _, h1⟩, ⟨typedCodes_codes _, h2⟩, typedCodes_codes _, typedCodes_codes _, typedCodes_codes _,
    ⟨typedCodes_codes _, h3⟩, ⟨typedCodes_codes _, h4⟩, ⟨typedCodes_codes _, typedCodes_codes _⟩, typedCodes_codes _,
      h5⟩

theorem State.reread_blob (state : State) (generation : Int) : ∃ d, reread (.dict (state.blob generation)) = .dict d ∧
      getData d "status" = .ofText state.status.text.toList := by
  obtain ⟨hn, hstr⟩ := state.keys_blob generation
  refine ⟨_, reread_object hstr hn, ?_⟩
  have hperm :=
    List.perm_insertionSort (fun a b : Key × Data => a.1.le b.1 = true) (rereadEntries (state.blob generation))
  apply getData_of_mem
  · rw [(hperm.map Prod.fst).nodup_iff, rereadEntries_eq, List.map_map]
    exact hn
  · rw [hperm.mem_iff, rereadEntries_eq, List.mem_map]
    refine ⟨(key "status", .ofText state.status.text.toList), by simp [State.blob], ?_⟩
    simp only [Data.ofText, reread, mergePairs_clean (clean_codes _)]

theorem dataEq_str {s : Text} (h : dataEq (.ofText s) c = true) : c = .text s := by
  cases c with
  | text =>
    simp only [dataEq, Data.ofText, beq_iff_eq] at h
    rw [codes_injective h]
  | _ => cases h

/-! ## No row is altered unnoticed -/

/-- A row, under its task id and with the state it decodes to, is the one that was sealed. -/
structure Matches (env : Env) (taskId : Text) (row : CheckpointRow) (state : Data) (s : SealedRow) : Prop where
  taskId : taskId = s.taskId
  generation : row.generation.toInt env = .ok s.generation
  closed : row.effectiveClosed = s.closed
  ownerIssuer : row.ownerIssuer = s.ownerIssuer
  ownerSubject : row.ownerSubject = s.ownerSubject
  authorityCeiling : row.authorityCeiling = s.authorityCeiling
  status : row.status = .text s.state.status.text.toList
  state : state = reread (.dict (s.state.blob s.generation))

variable {row : CheckpointRow}

/-- A row that decodes is one that was sealed. -/
theorem Faithful.decodeRow {taskId : Text} {state : Data} (h : Faithful env.depth log)
    (hd : decodeRow env log codec taskId row = .ok state) : ∃ s ∈ log, Matches env taskId row state s.row := by
  obtain ⟨text, hopen, hd⟩ := bind_ok_iff.1 hd
  unfold openRow at hopen
  split at hopen
  · cases hopen
  rename_i generation hgeneration
  split at hopen
  on_goal 2 => cases hopen
  obtain ⟨s, hs, rfl, keyId, hbound⟩ := openStored_logged hopen
  obtain ⟨⟨keyId', hsealed⟩, hplain⟩ := h s hs
  have hsame := AssociatedData.eq_of_text hbound hsealed
  simp only [CheckpointRow.associatedData, SealedRow.associatedData, AssociatedData.mk.injEq] at hsame
  obtain ⟨htask, hgen, -, hclosed, hissuer, hsubject, hceiling⟩ := hsame
  rw [decode_asciiJson (s.row.state.typed_blob s.row.generation) hplain] at hd
  dsimp only at hd
  obtain ⟨_, hstatus, hd⟩ := bind_ok_iff.1 hd
  cases hd
  -- the sealed status comes back as it was, so the column has it
  obtain ⟨d, hobject, hget⟩ := s.row.state.reread_blob s.row.generation
  simp only [checkSealedStatus, hobject] at hstatus
  split at hstatus
  on_goal 2 => cases hstatus
  rename_i heq
  rw [hget] at heq
  exact ⟨s, hs, htask, by rw [hgeneration, hgen], hclosed, hissuer, hsubject, hceiling, dataEq_str heq, rfl⟩

theorem eq_null_or_text {o : Option Text} (h : c.eq (o.elim .null .text) = true) : c = o.elim .null .text := by
  cases o with
  | none => cases c <;> first | rfl | cases h
  | some =>
    cases c with
    | text =>
      simp only [elim_some, Cell.eq, beq_iff_eq] at h
      rw [h, elim_some]
    | _ => cases h

theorem checkOwner_owner {done : Unit} (h : checkOwner row save = .ok done) :
    row.ownerIssuer = save.ownerIssuer ∧ row.ownerSubject = save.ownerSubject := by
  unfold checkOwner at h
  split at h
  · rename_i heq
    rw [Bool.and_eq_true] at heq
    obtain ⟨hissuer, hsubject⟩ := heq
    cases howner : save.owner with
    | none =>
      simp only [Save.ownerIssuer, Save.ownerSubject, howner] at hissuer hsubject ⊢
      exact ⟨eq_null_or_text (o := none) hissuer, eq_null_or_text (o := none) hsubject⟩
    | some owner =>
      simp only [Save.ownerIssuer, Save.ownerSubject, howner] at hissuer hsubject ⊢
      exact ⟨eq_null_or_text (o := some owner.1) hissuer, eq_null_or_text (o := some owner.2) hsubject⟩
  · split at h <;> cases h

theorem toInt_of_sqlEq {n : Int} (h : sqlEq c n = true) : c.toInt env = .ok n := by
  cases c with
  | int =>
    rw [sqlEq, beq_iff_eq] at h
    rw [h]
    rfl
  | real x =>
    obtain ⟨x, hx⟩ := x
    cases x with
    | finite q =>
      have hq : q = n := by simpa [sqlEq, PyFloat.eq] using h
      simp only [Cell.toInt, Double.toInt, hq, Int.floor_intCast, Int.ceil_intCast, ite_self]
    | _ => cases h
  | _ => cases h

/-- A save of a task that has a row succeeds when the row decodes, is open and the caller's, and the update finds it. -/
theorem saveCheckpoint_ok {world : World} {generation : Int}
    (hrow : Table.rowOf CheckpointRow.taskId world.checkpoints.rows save.taskId = some row)
    (h : (saveCheckpoint env codec save world).1 = .ok generation) :
    (∃ state, decodeRow env world.log codec save.taskId row = .ok state) ∧ row.effectiveClosed = false ∧
      row.ownerIssuer = save.ownerIssuer ∧ row.ownerSubject = save.ownerSubject ∧
        sqlEq row.generation save.expectedGeneration = true := by
  unfold saveCheckpoint at h
  split at h
  · cases h
  split at h
  · rename_i hnone
    rw [hrow] at hnone
    cases hnone
  rename_i row' hrow'
  obtain rfl : row' = row := Option.some.inj (hrow'.symm.trans hrow)
  split at h
  · cases h
  rename_i state hdecode
  split at h
  · cases h
  rename_i hopen
  split at h
  · cases h
  rename_i hchecked
  obtain ⟨hissuer, hsubject⟩ := checkOwner_owner hchecked
  refine ⟨⟨state, hdecode⟩, by simpa using hopen, hissuer, hsubject, ?_⟩
  unfold replace at h
  split at h
  · cases h
  split at h
  · cases h
  split at h
  · cases h
  -- the primary key leaves the update one row at most, which is the one that was read
  rename_i hcount
  have hone : world.checkpoints.rows.countP save.selects = 1 := by simpa using hcount
  have hkey := Table.countP_key world.checkpoints.unique save.taskId
    (fun r => sqlEq r.generation save.expectedGeneration && sqlEq r.closed 0)
  rw [hrow] at hkey
  have hcount' := hkey.symm.trans hone
  split at hcount'
  · rename_i hany
    simp only [any_some, Bool.and_eq_true] at hany
    exact hany.1
  · cases hcount'

/-- Whatever is saved and whatever is put in the columns between: a row that decodes is, column for column and with its
state, one the host sealed, and a save over it is accepted just as that sealed row allows. -/
theorem sealed_rows_unaltered (env : Env) (steps : List Step) (codec : CheckpointCodec) (taskId : Text)
    (row : CheckpointRow)
    (hrow : Table.rowOf CheckpointRow.taskId (after env steps).checkpoints.rows taskId = some row) :
    (∀ state, decodeRow env (after env steps).log codec taskId row = .ok state →
      ∃ s ∈ (after env steps).log, Matches env taskId row state s.row) ∧
    ∀ save generation, save.taskId = taskId → (saveCheckpoint env codec save (after env steps)).1 = .ok generation →
      ∃ state, ∃ s ∈ (after env steps).log, Matches env taskId row state s.row ∧ s.row.closed = false ∧
        s.row.generation = save.expectedGeneration ∧ s.row.ownerIssuer = save.ownerIssuer ∧
        s.row.ownerSubject = save.ownerSubject := by
  have hfaithful := faithful_after env steps
  refine ⟨fun state hd => hfaithful.decodeRow hd, ?_⟩
  rintro save generation rfl hsave
  obtain ⟨⟨state, hdecode⟩, hopen, hissuer, hsubject, hgeneration⟩ := saveCheckpoint_ok hrow hsave
  obtain ⟨s, hs, hmatch⟩ := hfaithful.decodeRow hdecode
  refine ⟨state, s, hs, hmatch, ?_, ?_, ?_, ?_⟩
  · rw [← hmatch.closed, hopen]
  · exact Except.ok.inj (hmatch.generation.symm.trans (toInt_of_sqlEq hgeneration))
  · rw [← hmatch.ownerIssuer, hissuer]
  · rw [← hmatch.ownerSubject, hsubject]

def oneKey : CheckpointCodec where
  first := ("k1".toList, "key".toList)
  others := []
  keyIds := by decide
  distinct := by simp

def firstState : State :=
  ⟨codes "task".toList, [], 0, 0, .dict [], .list [], .running, .null, by
    simp [Typed, TypedItems, TypedEntries, TypedCodes, codes]⟩

def firstSave : Save :=
  ⟨"task".toList, firstState, 0, false, some ("issuer".toList, "subject".toList), none, List.replicate 28 7⟩

def secondSave : Save := { firstSave with expectedGeneration := 1, bytes := List.replicate 28 8 }

def realZero : Double := ⟨.finite 0, fun _ h => PyFloat.finite.inj h ▸ toDouble_zero⟩

def copied : Checkpoints where
  rows := (after trustingEnv [.save oneKey firstSave]).checkpoints.rows.flatMap fun row =>
    [{ row with closed := .real realZero }, { row with taskId := "other".toList }]
  unique := by
    unfold Table.Unique
    decide +kernel

def edited : List Step := [.save oneKey firstSave, .edit copied ["other".toList]]

theorem sealed_rows_unaltered_edited : ∃ row state,
    Table.rowOf CheckpointRow.taskId (after trustingEnv edited).checkpoints.rows "task".toList = some row ∧
    decodeRow trustingEnv (after trustingEnv edited).log oneKey "task".toList row = .ok state ∧
    (∃ s ∈ (after trustingEnv edited).log, Matches trustingEnv "task".toList row state s.row) ∧
    (∃ state, ∃ s ∈ (after trustingEnv edited).log, Matches trustingEnv "task".toList row state s.row ∧
      s.row.closed = false ∧ s.row.generation = 1 ∧ s.row.ownerIssuer = secondSave.ownerIssuer ∧
      s.row.ownerSubject = secondSave.ownerSubject) ∧
    (decodeRow trustingEnv (after trustingEnv edited).log oneKey "other".toList
      { row with taskId := "other".toList }).isOk = false := by
  have hdecodes : (Table.rowOf CheckpointRow.taskId (after trustingEnv edited).checkpoints.rows "task".toList).any
      (fun row => (decodeRow trustingEnv (after trustingEnv edited).log oneKey "task".toList row).isOk &&
        !(decodeRow trustingEnv (after trustingEnv edited).log oneKey "other".toList
          { row with taskId := "other".toList }).isOk) = true := by
    decide +kernel
  have hsave : (saveCheckpoint trustingEnv oneKey secondSave (after trustingEnv edited)).1 = .ok 2 := by decide +kernel
  obtain ⟨row, hrow, hdecode⟩ := (Option.any_eq_true _ _).1 hdecodes
  rw [Bool.and_eq_true, Bool.not_eq_true'] at hdecode
  cases hd : decodeRow trustingEnv (after trustingEnv edited).log oneKey "task".toList row with
  | error => rw [hd] at hdecode; cases hdecode.1
  | ok state =>
    obtain ⟨h, h'⟩ := sealed_rows_unaltered trustingEnv edited oneKey "task".toList row hrow
    exact ⟨row, state, hrow, hd, h state hd, h' secondSave 2 rfl hsave, hdecode.2⟩

end Portmark.Storage.Sealed
