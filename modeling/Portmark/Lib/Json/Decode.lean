/-
`json.loads` into Python data, with everything it raises: a `JSONDecodeError` for text that is no
JSON, a plain `ValueError` for an integer with too many digits, and a `RecursionError` for too many
nested containers. A surrogate escape that is not half of a pair stays in the string.
-/
import Mathlib.Data.List.Induction
import Portmark.Lib.Json.Named
import Portmark.Lib.Json.Round

namespace Portmark.Lib.Json

open List

/-! ## Values -/

/-- `d[key] = value`. -/
def setEntry (key : Codes) (value : Data) : List (Codes × Data) → List (Codes × Data)
  | [] => [(key, value)]
  | (k, v) :: es => if k = key then (key, value) :: es else (k, v) :: setEntry key value es

def objectEntries (pairs : List (Codes × Data)) : List (Codes × Data) :=
  pairs.foldl (fun d e => setEntry e.1 e.2 d) []

def Data.object (pairs : List (Codes × Data)) : Data := .dict ((objectEntries pairs).map fun e => (.str e.1, e.2))

def dataLiterals : Literals DecodeError Data where
  malformed := .jsonDecodeError
  tooLong := .valueError
  null := .null
  bool := .bool
  int := .int
  float t := .ok (.float (toDouble t.value))
  constant x := .ok (.float x)

/-- `json.loads` as a reader, with the containers that may still be entered. -/
def dataReader : Reader Nat DecodeError Codes Data where
  malformed := .jsonDecodeError
  string := scanCodes
  str := .str
  atom := dataLiterals.atom
  list := .list
  object ps := .ok (.object ps)
  enter depth := if depth = 0 then .error .recursionError else .ok (depth - 1)

/-- `json.loads`. -/
def decode (depth : Nat) (cs : Text) : Except DecodeError Data := dataReader.document depth cs

/-! ## What is read -/

mutual

/-- Data that was read: lists and string-keyed objects, doubles, and integers `int` reads. -/
def Decoded : Data → Prop
  | .int n => Readable n
  | .float (.finite q) => toDouble q = .finite q
  | .bytes _ => False
  | .tuple _ => False
  | .list xs => DecodedItems xs
  | .dict d => (∀ e ∈ d, e.1.isStr = true) ∧ (d.map Prod.fst).Nodup ∧ DecodedEntries d
  | _ => True

def DecodedItems : List Data → Prop
  | [] => True
  | x :: xs => Decoded x ∧ DecodedItems xs

def DecodedEntries : List (Key × Data) → Prop
  | [] => True
  | (_, x) :: es => Decoded x ∧ DecodedEntries es

end

theorem decodedItems_iff {xs : List Data} : DecodedItems xs ↔ ∀ x ∈ xs, Decoded x := by
  induction xs with
  | nil => simp [DecodedItems]
  | cons x xs ih => rw [DecodedItems, ih, forall_mem_cons]

theorem decodedEntries_iff {d : List (Key × Data)} : DecodedEntries d ↔ ∀ e ∈ d, Decoded e.2 := by
  induction d with
  | nil => simp [DecodedEntries]
  | cons e d ih => rw [DecodedEntries, ih, forall_mem_cons]

theorem keys_setEntry (key : Codes) (value : Data) (d : List (Codes × Data)) : (setEntry key value d).map Prod.fst =
      if key ∈ d.map Prod.fst then d.map Prod.fst else d.map Prod.fst ++ [key] := by
  induction d with
  | nil => rfl
  | cons e d ih =>
    obtain ⟨k, v⟩ := e
    rw [setEntry]
    by_cases hk : k = key
    · simp [hk]
    · rw [if_neg hk, map_cons, ih]
      simp only [map_cons, mem_cons, Ne.symm hk, false_or]
      split <;> rfl

theorem mem_setEntry {key : Codes} {value : Data} {d : List (Codes × Data)} {e : Codes × Data}
    (h : e ∈ setEntry key value d) : e = (key, value) ∨ e ∈ d := by
  induction d with
  | nil => exact .inl (mem_singleton.1 h)
  | cons e' d ih =>
    rw [setEntry] at h
    split at h
    · rcases mem_cons.1 h with rfl | h
      · exact .inl rfl
      · exact .inr (mem_cons_of_mem _ h)
    · rcases mem_cons.1 h with rfl | h
      · exact .inr mem_cons_self
      · exact (ih h).imp_right (mem_cons_of_mem _)

theorem objectEntries_spec (pairs : List (Codes × Data)) :
    ((objectEntries pairs).map Prod.fst).Nodup ∧ ∀ e ∈ objectEntries pairs, e ∈ pairs := by
  unfold objectEntries
  induction pairs using reverseRecOn with
  | nil => simp
  | append_singleton pairs e ih =>
    obtain ⟨hnodup, hmem⟩ := ih
    rw [foldl_append, foldl_cons, foldl_nil, keys_setEntry]
    constructor
    · split
      · exact hnodup
      · rename_i hnew
        exact nodup_append.2 ⟨hnodup, nodup_singleton _, fun a ha b hb heq =>
          hnew (mem_singleton.1 hb ▸ heq ▸ ha)⟩
    · intro x hx
      rcases mem_setEntry hx with rfl | hx
      · exact mem_append_right _ (mem_singleton.2 rfl)
      · exact mem_append_left _ (hmem x hx)

theorem decoded_object {pairs : List (Codes × Data)} (h : ∀ e ∈ pairs, Decoded e.2) : Decoded (.object pairs) := by
  obtain ⟨hnodup, hmem⟩ := objectEntries_spec pairs
  rw [Data.object, Decoded, forall_mem_map, map_map, decodedEntries_iff, forall_mem_map]
  refine ⟨fun _ _ => rfl, ?_, fun e he => h e (hmem e he)⟩
  have hkeys : (objectEntries pairs).map (Prod.fst ∘ fun e => (Key.str e.1, e.2)) =
      ((objectEntries pairs).map Prod.fst).map Key.str := by
    rw [map_map]
    rfl
  rw [hkeys]
  exact hnodup.map fun _ _ heq => Key.str.inj heq

theorem decode_decoded {depth : Nat} {cs : Text} {d : Data} (h : decode depth cs = .ok d) : Decoded d := by
  refine Reader.document_all (fun _ => trivial) (fun ha => ?_) decodedItems_iff.2 (fun hp h => ?_) h
  · refine Literals.atom_all trivial (fun _ => trivial) (fun _ hn => hn) (fun t x hx => ?_) (fun c x hne hx => ?_) ha
    · cases hx
      generalize hx : toDouble _ = x
      cases x with
      | finite => exact toDouble_idem hx
      | _ => trivial
    · cases hx
      cases c with
      | finite q => exact absurd rfl (hne q)
      | _ => trivial
  · cases h
    exact decoded_object hp

/-! ## What is read and can be printed is a value -/

mutual

theorem exists_value : ∀ (d : Data) (depth : Nat), Decoded d → Printable depth d →
    ∃ v, d = Data.ofValue v ∧ Plain IsDouble false v ∧ Nested depth v
  | .null, _, _, _ => ⟨.null, rfl, trivial, trivial⟩
  | .bool b, _, _, _ => ⟨.bool b, rfl, trivial, trivial⟩
  | .int n, _, h, _ => ⟨.int n, rfl, h, trivial⟩
  | .float x, _, h, hp => by
    obtain ⟨q, rfl⟩ := hp
    exact ⟨.float (.finite q), rfl, ⟨q, rfl, h⟩, trivial⟩
  | .str s, _, _, hp => by
    refine ⟨.str (String.ofList (charsOf s)), ?_, trivial, trivial⟩
    rw [Data.ofValue, String.toList_ofList, codes_charsOf hp]
  | .bytes _, _, h, _ => False.elim h
  | .tuple _, _, h, _ => False.elim h
  | .list xs, depth, h, hp => by
    rw [Decoded] at h
    rw [Printable] at hp
    obtain ⟨vs, rfl, hplain, hnested⟩ := exists_items xs _ h hp.2
    exact ⟨.list vs, rfl, hplain, hp.1, hnested⟩
  | .dict d, depth, h, hp => by
    rw [Decoded] at h
    rw [Printable] at hp
    obtain ⟨es, rfl, hplain, hnested⟩ := exists_entries d _ h.2.2 h.1 hp.2.2
    refine ⟨.dict es, rfl, ⟨?_, hplain⟩, hp.1, hnested⟩
    have hkeys : (ofValueEntries es).map Prod.fst = (Assoc.keys es).map fun k => Key.str (codes k.toList) := by
      rw [ofValueEntries_eq, Assoc.keys, map_map, map_map]
      rfl
    rw [hkeys] at h
    exact List.Nodup.of_map _ h.2.1

theorem exists_items : ∀ (xs : List Data) (depth : Nat), DecodedItems xs → PrintableItems depth xs →
    ∃ vs, xs = ofValueItems vs ∧ PlainItems IsDouble false vs ∧ NestedItems depth vs
  | [], _, _, _ => ⟨[], rfl, trivial, trivial⟩
  | x :: xs, depth, h, hp => by
    obtain ⟨v, rfl, hplain, hnested⟩ := exists_value x depth h.1 hp.1
    obtain ⟨vs, rfl, hplains, hnesteds⟩ := exists_items xs depth h.2 hp.2
    exact ⟨v :: vs, rfl, ⟨hplain, hplains⟩, hnested, hnesteds⟩

theorem exists_entries : ∀ (d : List (Key × Data)) (depth : Nat), DecodedEntries d → (∀ e ∈ d, e.1.isStr = true) →
    PrintableEntries depth d →
    ∃ es, d = ofValueEntries es ∧ PlainEntries IsDouble false es ∧ NestedEntries depth es
  | [], _, _, _, _ => ⟨[], rfl, trivial, trivial⟩
  | (k, x) :: d, depth, h, hk, hp => by
    obtain ⟨v, rfl, hplain, hnested⟩ := exists_value x depth h.1 hp.1.2
    obtain ⟨es, rfl, hplains, hnesteds⟩ := exists_entries d depth h.2 (fun e he => hk e (mem_cons_of_mem _ he)) hp.2
    cases k with
    | str s =>
      refine ⟨(String.ofList (charsOf s), v) :: es, ?_, ⟨hplain, hplains⟩, hnested, hnesteds⟩
      rw [ofValueEntries, String.toList_ofList, codes_charsOf hp.1.1]
    | _ => exact absurd (hk _ mem_cons_self) Bool.false_ne_true

end

/-! ## What the parser for values reads -/

/-- A literal is read as data as it is read as a value. -/
theorem dataLiterals_atom {cs r : Text} {v : Value} (h : plainHooks.literals.atom cs = .ok (v, r)) :
    dataLiterals.atom cs = .ok (Data.ofValue v, r) := by
  have hrelated : plainHooks.literals.Related dataLiterals fun v d => d = Data.ofValue v := by
    refine ⟨rfl, fun _ => rfl, fun _ _ => rfl, fun t v hv => ?_, fun x _ v hv => ?_⟩
    · cases hv
      exact ⟨_, rfl, rfl⟩
    · cases hv
      exact ⟨_, rfl, rfl⟩
  obtain ⟨⟨_, _⟩, ha, rfl, rfl⟩ := hrelated.atom cs _ h
  exact ha

theorem setEntry_new {key : Codes} {value : Data} {d : List (Codes × Data)} (h : key ∉ d.map Prod.fst) :
    setEntry key value d = d ++ [(key, value)] := by
  induction d with
  | nil => rfl
  | cons e d ih =>
    simp only [map_cons, mem_cons, not_or] at h
    rw [setEntry, if_neg (Ne.symm h.1), ih h.2]
    rfl

theorem objectEntries_nodup {pairs : List (Codes × Data)} (h : (pairs.map Prod.fst).Nodup) :
    objectEntries pairs = pairs := by
  unfold objectEntries
  induction pairs using reverseRecOn with
  | nil => rfl
  | append_singleton pairs e ih =>
    rw [map_append, nodup_append] at h
    rw [foldl_append, ih h.1, foldl_cons, foldl_nil, setEntry_new]
    intro hmem
    exact h.2.2 e.1 hmem e.1 (by simp) rfl

end Portmark.Lib.Json
