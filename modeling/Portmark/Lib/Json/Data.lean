/-
Python data and its JSON text. A string is its code points, lone surrogates included, and a key may
be a number, a boolean or `None`: `sort_keys` puts the entries in the order Python gives their keys,
which then appear under their JSON names. Printing raises on what is no JSON, on more nested
containers than the interpreter enters, and, once the text is encoded, on a surrogate.
-/
import Portmark.Lib.Json.Float

namespace Portmark.Lib.Json

open List

/-! ## Strings -/

def isSurrogate (n : Nat) : Bool := decide (0xD800 ≤ n ∧ n < 0xE000 ∨ 0x110000 ≤ n)

/-- `str.encode()`, as the characters it encodes: a surrogate has no UTF-8. -/
def utf8? (s : Codes) : Option Text := if s.any isSurrogate then none else some (s.map Char.ofNat)

theorem isSurrogate_toNat (c : Char) : isSurrogate c.toNat = false := by
  have h := not_surrogate c
  rw [isSurrogate, decide_eq_false_iff_not]
  omega

theorem any_isSurrogate_codes (t : Text) : (codes t).any isSurrogate = false := by
  rw [any_eq_false]
  intro n hn
  obtain ⟨c, -, rfl⟩ := List.mem_map.1 hn
  simp [isSurrogate_toNat]

theorem ofNat_codes (t : Text) : (codes t).map Char.ofNat = t := by
  rw [codes, map_map]
  exact (map_congr_left fun c _ => Char.ofNat_toNat c).trans (map_id t)

@[simp] theorem utf8?_codes (t : Text) : utf8? (codes t) = some t := by
  rw [utf8?, if_neg (by simp [any_isSurrogate_codes]), ofNat_codes]

theorem codes_injective {t t' : Text} (h : codes t = codes t') : t = t' := by
  rw [← ofNat_codes t, h, ofNat_codes]

theorem codes_append (t t' : Text) : codes (t ++ t') = codes t ++ codes t' := map_append

/-! ## Data -/

inductive Key where
  | str (s : Codes)
  | int (n : Int)
  | float (x : PyFloat)
  | bool (b : Bool)
  | null
deriving DecidableEq

/-- Python data; `bytes` stands for everything `json` does not print. -/
inductive Data where
  | null
  | bool (b : Bool)
  | int (n : Int)
  | float (x : PyFloat)
  | str (s : Codes)
  | bytes (b : List Nat)
  | list (xs : List Data)
  | tuple (xs : List Data)
  | dict (d : List (Key × Data))

def Data.ofText (t : Text) : Data := .str (codes t)

/-- What `json.dumps` and `encode` raise. -/
inductive EncodeError where
  | typeError
  | valueError
  | recursionError
deriving DecidableEq

/-! ## Keys -/

def Key.number : Key → ℚ
  | .int n => n
  | .bool b => if b then 1 else 0
  | .float (.finite q) => q
  | _ => 0

/-- `a <= b` for keys that Python compares. -/
def Key.le : Key → Key → Bool
  | .str a, .str b => !decide (b < a)
  | a, b => decide (a.number ≤ b.number)

def Key.isStr : Key → Bool
  | .str _ => true
  | _ => false

def Key.isNumber : Key → Bool
  | .int _ => true
  | .float _ => true
  | .bool _ => true
  | _ => false

def sortable (keys : List Key) : Bool := decide (keys.length ≤ 1) || keys.all Key.isStr || keys.all Key.isNumber

/-- `sorted(items)`. -/
def sortByKey {α : Type} (items : List (Key × α)) : Except EncodeError (List (Key × α)) :=
  if sortable (items.map Prod.fst) then .ok (items.insertionSort fun a b => a.1.le b.1 = true) else .error .typeError

/-! ## Printing -/

/-- `int.__repr__`, which refuses more digits than `int` reads. -/
def intRepr (n : Int) : Except EncodeError Codes :=
  if (Nat.toDigits 10 n.natAbs).length ≤ maxIntDigits then .ok (codes (intText n)) else .error .valueError

def constantText : PyFloat → Text
  | .inf => ['I', 'n', 'f', 'i', 'n', 'i', 't', 'y']
  | .negInf => ['-', 'I', 'n', 'f', 'i', 'n', 'i', 't', 'y']
  | _ => ['N', 'a', 'N']

def floatCodes (allowNan : Bool) : PyFloat → Except EncodeError Codes
  | .finite q => .ok (codes (floatRepr q))
  | x => if allowNan then .ok (codes (constantText x)) else .error .valueError

def Key.name (allowNan : Bool) : Key → Except EncodeError Codes
  | .str s => .ok s
  | .int n => intRepr n
  | .float x => floatCodes allowNan x
  | .bool true => .ok (codes ['t', 'r', 'u', 'e'])
  | .bool false => .ok (codes ['f', 'a', 'l', 's', 'e'])
  | .null => .ok (codes ['n', 'u', 'l', 'l'])

def escapeCode (n : Nat) : Codes := if isSurrogate n then [n] else codes (escapeChar (Char.ofNat n))

def quote (s : Codes) : Codes := 0x22 :: (s.flatMap escapeCode ++ [0x22])

def commas : List Codes → Codes
  | [] => []
  | [p] => p
  | p :: q :: ps => p ++ 0x2c :: commas (q :: ps)

def entryText (allowNan : Bool) (entry : Key × Except EncodeError Codes) : Except EncodeError Codes := do
  let name ← entry.1.name allowNan
  let value ← entry.2
  return quote name ++ 0x3a :: value

def entriesText (allowNan : Bool) (entries : List (Key × Except EncodeError Codes)) :
    Except EncodeError (List Codes) := do
  let sorted ← sortByKey entries
  sorted.mapM (entryText allowNan)

mutual

/-- `json.dumps(d, sort_keys=True, separators=(",", ":"), ensure_ascii=False, allow_nan=allowNan)`, with the
containers that may still be entered. -/
def encode (allowNan : Bool) (depth : Nat) : Data → Except EncodeError Codes
  | .null => .ok (codes ['n', 'u', 'l', 'l'])
  | .bool true => .ok (codes ['t', 'r', 'u', 'e'])
  | .bool false => .ok (codes ['f', 'a', 'l', 's', 'e'])
  | .int n => intRepr n
  | .float x => floatCodes allowNan x
  | .str s => .ok (quote s)
  | .bytes _ => .error .typeError
  | .list xs =>
    if depth = 0 then .error .recursionError
    else do
      let parts ← encodeItems allowNan (depth - 1) xs
      return 0x5b :: (commas parts ++ [0x5d])
  | .tuple xs =>
    if depth = 0 then .error .recursionError
    else do
      let parts ← encodeItems allowNan (depth - 1) xs
      return 0x5b :: (commas parts ++ [0x5d])
  | .dict d =>
    if depth = 0 then .error .recursionError
    else do
      let parts ← entriesText allowNan (encodeEntries allowNan (depth - 1) d)
      return 0x7b :: (commas parts ++ [0x7d])

def encodeItems (allowNan : Bool) (depth : Nat) : List Data → Except EncodeError (List Codes)
  | [] => .ok []
  | x :: xs => do
    let part ← encode allowNan depth x
    let parts ← encodeItems allowNan depth xs
    return part :: parts

def encodeEntries (allowNan : Bool) (depth : Nat) : List (Key × Data) → List (Key × Except EncodeError Codes)
  | [] => []
  | (k, x) :: es => (k, encode allowNan depth x) :: encodeEntries allowNan depth es

end

/-- `canonical_json`, as the characters it encodes. -/
def canonicalJson (depth : Nat) (d : Data) : Except EncodeError Text := do
  let s ← encode false depth d
  match utf8? s with
  | some text => return text
  | none => .error .valueError

/-- One code point of the text `ensure_ascii` gives. -/
def asciiCode (n : Nat) : Text := if isSurrogate n then unicodeEscape n else asciiChar (Char.ofNat n)

/-- `json.dumps(d, sort_keys=True, separators=(",", ":"))`. -/
def asciiJson (depth : Nat) (d : Data) : Except EncodeError Text := do
  let s ← encode true depth d
  return s.flatMap asciiCode

/-! ## What can be printed -/

def Clean (s : Codes) : Prop := s.any isSurrogate = false

theorem clean_codes (t : Text) : Clean (codes t) := any_isSurrogate_codes t

variable {s : Codes}

@[simp] theorem clean_append {s' : Codes} : Clean (s ++ s') ↔ Clean s ∧ Clean s' := by
  simp only [Clean, any_append, Bool.or_eq_false_iff]

@[simp] theorem clean_cons {n : Nat} : Clean (n :: s) ↔ isSurrogate n = false ∧ Clean s := by
  simp only [Clean, any_cons, Bool.or_eq_false_iff]

@[simp] theorem clean_nil : Clean [] := rfl

theorem clean_escapeCode (n : Nat) : Clean (escapeCode n) ↔ isSurrogate n = false := by
  unfold escapeCode
  split
  · simp
  · rename_i h
    exact iff_of_true (clean_codes _) (by simpa using h)

@[simp] theorem clean_quote : Clean (quote s) ↔ Clean s := by
  have hflat : Clean (s.flatMap escapeCode) ↔ Clean s := by
    induction s with
    | nil => simp
    | cons n s ih => rw [flatMap_cons, clean_append, clean_escapeCode, ih, clean_cons]
  have hquote : isSurrogate 0x22 = false := by decide
  rw [quote, clean_cons, clean_append, hflat, clean_cons]
  simp [hquote]

theorem clean_commas {parts : List Codes} : Clean (commas parts) ↔ ∀ p ∈ parts, Clean p := by
  have hcomma : isSurrogate 0x2c = false := by decide
  induction parts with
  | nil => simp [commas]
  | cons p ps ih =>
    cases ps with
    | nil => simp [commas]
    | cons =>
      simp only [commas, clean_append, clean_cons, ih, hcomma, true_and, forall_mem_cons]

theorem utf8?_eq_some {t : Text} : utf8? s = some t ↔ Clean s ∧ s.map Char.ofNat = t := by
  unfold utf8? Clean
  split
  · rename_i h
    simp [h]
  · rename_i h
    simp [h]

def Key.Printable : Key → Prop
  | .str s => Clean s
  | .int n => Readable n
  | .float x => ∃ q, x = .finite q
  | .bool _ => True
  | .null => True

mutual

/-- What `canonical_json` prints: finite floats, no surrogates, keys Python can sort, and no more nested containers than
may be entered. -/
def Printable (depth : Nat) : Data → Prop
  | .null => True
  | .bool _ => True
  | .int n => Readable n
  | .float x => ∃ q, x = .finite q
  | .str s => Clean s
  | .bytes _ => False
  | .list xs => depth ≠ 0 ∧ PrintableItems (depth - 1) xs
  | .tuple xs => depth ≠ 0 ∧ PrintableItems (depth - 1) xs
  | .dict d => depth ≠ 0 ∧ sortable (d.map Prod.fst) = true ∧ PrintableEntries (depth - 1) d

def PrintableItems (depth : Nat) : List Data → Prop
  | [] => True
  | x :: xs => Printable depth x ∧ PrintableItems depth xs

def PrintableEntries (depth : Nat) : List (Key × Data) → Prop
  | [] => True
  | (k, x) :: es => (k.Printable ∧ Printable depth x) ∧ PrintableEntries depth es

end

def Encodes (x : Except EncodeError Codes) : Prop := ∃ s, x = .ok s ∧ Clean s

theorem encodes_ok : Encodes (.ok s) ↔ Clean s := by simp [Encodes]

theorem not_encodes_error {e : EncodeError} : ¬ Encodes (.error e) := by simp [Encodes]

variable {depth : Nat}

theorem canonicalJson_ok_iff_encodes {d : Data} :
    (∃ t, canonicalJson depth d = .ok t) ↔ Encodes (encode false depth d) := by
  constructor
  · rintro ⟨t, h⟩
    obtain ⟨s, hs, h⟩ := bind_ok_iff.1 h
    refine ⟨s, hs, ?_⟩
    cases hu : utf8? s with
    | none => rw [hu] at h; cases h
    | some => exact (utf8?_eq_some.1 hu).1
  · rintro ⟨s, hs, hclean⟩
    refine ⟨s.map Char.ofNat, bind_ok_iff.2 ⟨s, hs, ?_⟩⟩
    rw [utf8?_eq_some.2 ⟨hclean, rfl⟩]
    rfl

theorem encodes_intRepr {n : Int} : Encodes (intRepr n) ↔ Readable n := by
  unfold intRepr Readable
  split
  · rename_i h
    exact iff_of_true ⟨_, rfl, clean_codes _⟩ h
  · rename_i h
    exact iff_of_false not_encodes_error h

theorem encodes_floatCodes {x : PyFloat} : Encodes (floatCodes false x) ↔ ∃ q, x = .finite q := by
  cases x with
  | finite q => exact iff_of_true ⟨_, rfl, clean_codes _⟩ ⟨q, rfl⟩
  | _ => exact iff_of_false not_encodes_error (by simp)

theorem encodes_name {k : Key} : Encodes (k.name false) ↔ k.Printable := by
  cases k with
  | str => exact encodes_ok
  | int => exact encodes_intRepr
  | float => exact encodes_floatCodes
  | bool b => cases b <;> exact iff_of_true ⟨_, rfl, clean_codes _⟩ trivial
  | null => exact iff_of_true ⟨_, rfl, clean_codes _⟩ trivial

theorem encodes_bind {x : Except EncodeError (List Codes)} {opening closing : Nat} (ho : isSurrogate opening = false)
    (hc : isSurrogate closing = false) : Encodes (do let parts ← x; return opening :: (commas parts ++ [closing])) ↔
      ∃ parts, x = .ok parts ∧ ∀ p ∈ parts, Clean p := by
  constructor
  · rintro ⟨s, h, hs⟩
    obtain ⟨parts, hx, h⟩ := bind_ok_iff.1 h
    cases h
    simp only [clean_cons, clean_append, clean_commas] at hs
    exact ⟨parts, hx, hs.2.1⟩
  · rintro ⟨parts, hx, hparts⟩
    refine ⟨_, bind_ok_iff.2 ⟨parts, hx, rfl⟩, ?_⟩
    simp only [clean_cons, clean_append, clean_commas, clean_nil]
    exact ⟨ho, hparts, hc, trivial⟩

theorem encodes_entryText {entry : Key × Except EncodeError Codes} :
    Encodes (entryText false entry) ↔ entry.1.Printable ∧ Encodes entry.2 := by
  have hcolon : isSurrogate 0x3a = false := by decide
  rw [← encodes_name]
  constructor
  · rintro ⟨s, h, hs⟩
    obtain ⟨name, hname, h⟩ := bind_ok_iff.1 h
    obtain ⟨value, hvalue, h⟩ := bind_ok_iff.1 h
    cases h
    rw [clean_append, clean_quote, clean_cons] at hs
    exact ⟨⟨name, hname, hs.1⟩, value, hvalue, hs.2.2⟩
  · rintro ⟨⟨name, hname, hn⟩, value, hvalue, hv⟩
    refine ⟨_, bind_ok_iff.2 ⟨name, hname, bind_ok_iff.2 ⟨value, hvalue, rfl⟩⟩, ?_⟩
    rw [clean_append, clean_quote, clean_cons]
    exact ⟨hn, hcolon, hv⟩

theorem mapM_encodes {α : Type} {f : α → Except EncodeError Codes} (xs : List α) :
    (∃ parts, xs.mapM f = .ok parts ∧ ∀ p ∈ parts, Clean p) ↔ ∀ x ∈ xs, Encodes (f x) := by
  induction xs with
  | nil => exact iff_of_true ⟨[], rfl, by simp⟩ (by simp)
  | cons x xs ih =>
    rw [forall_mem_cons, ← ih, mapM_cons]
    constructor
    · rintro ⟨parts, h, hparts⟩
      obtain ⟨p, hp, h⟩ := bind_ok_iff.1 h
      obtain ⟨ps, hps, h⟩ := bind_ok_iff.1 h
      cases h
      rw [forall_mem_cons] at hparts
      exact ⟨⟨p, hp, hparts.1⟩, ps, hps, hparts.2⟩
    · rintro ⟨⟨p, hp, hclean⟩, ps, hps, hcleans⟩
      exact ⟨p :: ps, bind_ok_iff.2 ⟨p, hp, bind_ok_iff.2 ⟨ps, hps, rfl⟩⟩, List.forall_mem_cons.2 ⟨hclean, hcleans⟩⟩

theorem encodes_entriesText {entries : List (Key × Except EncodeError Codes)} :
    (∃ parts, entriesText false entries = .ok parts ∧ ∀ p ∈ parts, Clean p) ↔
      sortable (entries.map Prod.fst) = true ∧ ∀ e ∈ entries, e.1.Printable ∧ Encodes e.2 := by
  have hsorted : (∃ parts, (entries.insertionSort fun a b => a.1.le b.1 = true).mapM (entryText false) = .ok parts ∧
      ∀ p ∈ parts, Clean p) ↔ ∀ e ∈ entries, e.1.Printable ∧ Encodes e.2 := by
    rw [mapM_encodes]
    simp only [mem_insertionSort, encodes_entryText]
  unfold entriesText sortByKey
  by_cases h : sortable (entries.map Prod.fst) = true
  · simp only [h, if_true, true_and]
    exact hsorted
  rw [if_neg h]
  refine iff_of_false ?_ fun hp => h hp.1
  rintro ⟨parts, hparts, -⟩
  cases hparts

theorem encodeEntries_eq (allowNan : Bool) (depth : Nat) (d : List (Key × Data)) :
    encodeEntries allowNan depth d = d.map fun e => (e.1, encode allowNan depth e.2) := by
  induction d with
  | nil => rw [encodeEntries]; rfl
  | cons e d ih => rw [encodeEntries, ih]; rfl

theorem encodeItems_eq (allowNan : Bool) (depth : Nat) (xs : List Data) :
    encodeItems allowNan depth xs = xs.mapM (encode allowNan depth) := by
  induction xs with
  | nil => rw [encodeItems]; rfl
  | cons x xs ih => rw [encodeItems, ih, mapM_cons]

theorem printableEntries_iff {d : List (Key × Data)} :
    PrintableEntries depth d ↔ ∀ e ∈ d, e.1.Printable ∧ Printable depth e.2 := by
  induction d with
  | nil => simp [PrintableEntries]
  | cons e d ih => rw [PrintableEntries, ih, forall_mem_cons]

theorem printableItems_iff {xs : List Data} : PrintableItems depth xs ↔ ∀ x ∈ xs, Printable depth x := by
  induction xs with
  | nil => simp [PrintableItems]
  | cons x xs ih => rw [PrintableItems, ih, forall_mem_cons]

mutual

theorem encodes_iff : ∀ (d : Data) (depth : Nat), Encodes (encode false depth d) ↔ Printable depth d
  | .null, _ | .bool true, _ | .bool false, _ =>
    iff_of_true ⟨_, by rw [encode], clean_codes _⟩ (by rw [Printable]; trivial)
  | .int n, _ => by rw [encode, Printable]; exact encodes_intRepr
  | .float x, _ => by rw [encode, Printable]; exact encodes_floatCodes
  | .str s, _ => by rw [encode, Printable, encodes_ok, clean_quote]
  | .bytes b, _ => by rw [encode, Printable, iff_false]; exact not_encodes_error
  | .list xs, depth | .tuple xs, depth => by
    rw [encode, Printable]
    by_cases h : depth = 0
    · simp [h, not_encodes_error]
    · rw [if_neg h, encodes_bind (by decide) (by decide), encodesItems_iff xs]
      exact (and_iff_right h).symm
  | .dict d, depth => by
    rw [encode, Printable]
    by_cases h : depth = 0
    · simp [h, not_encodes_error]
    · rw [if_neg h, encodes_bind (by decide) (by decide), encodes_entriesText, encodeEntries_eq, map_map,
        forall_mem_map, ← encodesEntries_iff d]
      exact (and_iff_right h).symm

theorem encodesItems_iff : ∀ (xs : List Data) (depth : Nat),
    (∃ parts, encodeItems false depth xs = .ok parts ∧ ∀ p ∈ parts, Clean p) ↔ PrintableItems depth xs
  | [], depth => by rw [encodeItems_eq, mapM_encodes]; simp [PrintableItems]
  | x :: xs, depth => by
    have hrest := encodesItems_iff xs depth
    rw [encodeItems_eq, mapM_encodes] at hrest
    rw [encodeItems_eq, mapM_encodes, forall_mem_cons, PrintableItems, encodes_iff x depth, hrest]

theorem encodesEntries_iff : ∀ (d : List (Key × Data)) (depth : Nat),
    (∀ e ∈ d, e.1.Printable ∧ Encodes (encode false depth e.2)) ↔ PrintableEntries depth d
  | [], _ => by simp [PrintableEntries]
  | (k, x) :: es, depth => by
    rw [forall_mem_cons, PrintableEntries, encodesEntries_iff es depth, encodes_iff x depth]

end

theorem canonicalJson_ok_iff {d : Data} : (∃ t, canonicalJson depth d = .ok t) ↔ Printable depth d :=
  canonicalJson_ok_iff_encodes.trans (encodes_iff d depth)

end Portmark.Lib.Json
