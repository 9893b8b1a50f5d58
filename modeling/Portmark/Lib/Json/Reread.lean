/-
What `json.loads` gives for the text that `json.dumps` prints of Python data, whatever the data is:
tuples come back as lists, keys as the strings they are named by, in the order they are sorted in and
the last of a name counting, and a high surrogate with a low one after it as the character of the
pair. Everything else comes back as it was.
-/
import Portmark.Lib.Json.Decode

namespace Portmark.Lib.Json

open List

/-! ## Typed data -/

def Key.Typed : Key → Prop
  | .str s => TypedCodes s
  | _ => True

mutual

def Typed : Data → Prop
  | .float (.finite q) => toDouble q = .finite q
  | .str s => TypedCodes s
  | .list xs => TypedItems xs
  | .tuple xs => TypedItems xs
  | .dict d => TypedEntries d
  | _ => True

def TypedItems : List Data → Prop
  | [] => True
  | x :: xs => Typed x ∧ TypedItems xs

def TypedEntries : List (Key × Data) → Prop
  | [] => True
  | (k, x) :: es => (k.Typed ∧ Typed x) ∧ TypedEntries es

end

/-! ## ASCII text -/

/-- The characters that `ensure_ascii` gives. -/
def asciiText (s : Codes) : Text := s.flatMap asciiCode

@[simp] theorem asciiText_append (s s' : Codes) : asciiText (s ++ s') = asciiText s ++ asciiText s' := by
  simp [asciiText]

theorem asciiText_cons (n : Nat) (s : Codes) : asciiText (n :: s) = asciiCode n ++ asciiText s := by
  simp [asciiText]

theorem asciiText_codes (t : Text) : asciiText (codes t) = ensureAscii t := flatMap_asciiCode t

/-! ## Strings -/

theorem mergePairs_clean : ∀ {s : Codes}, Clean s → mergePairs s = s
  | [], _ => rfl
  | n :: s, h => by
    rw [clean_cons] at h
    have hn : ¬ (0xD800 ≤ n ∧ n < 0xDC00) := by
      have := h.1
      simp only [isSurrogate, decide_eq_false_iff_not] at this
      omega
    rw [mergePairs_cons hn, mergePairs_clean h.2]

def piece (n : Nat) : Text := asciiText (escapeCode n)

theorem piece_surrogate {n : Nat} (h : isSurrogate n = true) : piece n = unicodeEscape n := by
  rw [piece, escapeCode, if_pos h, asciiText_cons, asciiCode, if_pos h]
  simp [asciiText]

theorem piece_char (c : Char) : piece c.toNat = ensureAscii (escapeChar c) := by
  rw [piece, escapeCode, if_neg (by simp [isSurrogate_toNat]), Char.ofNat_toNat, asciiText_codes]

theorem asciiText_quote (s : Codes) : asciiText (quote s) = '"' :: (s.flatMap piece ++ ['"']) := by
  have hquote : asciiCode 0x22 = ['"'] := rfl
  rw [quote, asciiText_cons, asciiText_append, hquote]
  have hpieces : asciiText (s.flatMap escapeCode) = s.flatMap piece := by
    induction s with
    | nil => rfl
    | cons n s ih =>
      rw [flatMap_cons, flatMap_cons, asciiText_append, ih]
      rfl
  rw [hpieces]
  rfl

theorem spells_piece {n : Nat} (h : n < 0x110000) : Spells (piece n) (units n) := by
  by_cases hn : 0xD800 ≤ n ∧ n < 0xE000
  · rw [piece_surrogate (by simp [isSurrogate, hn]), units, if_pos (by omega)]
    exact spells_unicodeEscape (by omega)
  · have hc := toNat_ofNat (show n < 0xD800 ∨ 0xE000 ≤ n ∧ n < 0x110000 by omega)
    rw [← hc, piece_char]
    exact spells_asciiEscape _

theorem scanCodes_pieces (rest : Text) {s : Codes} (hs : TypedCodes s) :
    scanCodes (s.flatMap piece ++ '"' :: rest) = .ok (mergePairs s, rest) := by
  have h : Spells (s.flatMap piece) (s.flatMap units) := .flatMap fun n hn => spells_piece (hs n hn)
  rw [h.scanCodes, mergePairs_units hs]

/-! ## What is read back -/

def Key.printed (k : Key) : Codes := (k.name true).toOption.getD []

mutual

/-- What `json.loads` gives for printed data. -/
def reread : Data → Data
  | .str s => .str (mergePairs s)
  | .list xs => .list (rereadItems xs)
  | .tuple xs => .list (rereadItems xs)
  | .dict d =>
    .object (((rereadEntries d).insertionSort fun a b => a.1.le b.1 = true).map fun e => (mergePairs e.1.printed, e.2))
  | d => d

def rereadItems : List Data → List Data
  | [] => []
  | x :: xs => reread x :: rereadItems xs

def rereadEntries : List (Key × Data) → List (Key × Data)
  | [] => []
  | (k, x) :: es => (k, reread x) :: rereadEntries es

end

theorem rereadEntries_eq (d : List (Key × Data)) : rereadEntries d = d.map fun e => (e.1, reread e.2) := by
  induction d with
  | nil => rw [rereadEntries]; rfl
  | cons e d ih => rw [rereadEntries, ih]; rfl

variable {d : List (Key × Data)}

theorem typedEntries_iff : TypedEntries d ↔ ∀ e ∈ d, e.1.Typed ∧ Typed e.2 := by
  induction d with
  | nil => simp [TypedEntries]
  | cons e d ih => rw [TypedEntries, ih, forall_mem_cons]

/-- A text that is read as `x` when nothing that could belong to a number follows it. -/
def ReadAs (depth : Nat) (x : Data) (t : Text) : Prop :=
  ∀ rest, NoNumber rest → dataReader.Derives depth (t ++ rest) (.value x) rest

variable {depth : Nat}

theorem readAs_atom {x : Data} {c : Char} {cs : Text} (hb : isBlank c = false)
    (hc : c ∉ ['"', '[', '{', ']', '}']) (h : ∀ rest, dataLiterals.atom (c :: cs ++ rest) = .ok (x, rest)) :
    ReadAs depth x (c :: cs) := by
  intro rest _
  exact .atom hb hc (h rest) (by simp)

variable {parts : List Codes}

theorem derives_parts (rest : Text) {xs : List Data}
    (h : List.Forall₂ (fun x p => ReadAs depth x (asciiText p)) xs parts) (hne : xs ≠ []) :
    dataReader.Derives depth (asciiText (commas parts) ++ ']' :: rest) (.elements xs) rest := by
  induction h with
  | nil => exact absurd rfl hne
  | cons hx hxs ih =>
    cases hxs with
    | nil => exact .last (hx _ (.cons (by decide) rest)) (skipBlanks_cons (by decide) _)
    | cons =>
      rw [commas, asciiText_append, asciiText_cons, append_assoc]
      exact .comma (hx _ (.cons (by decide) _)) (ih (cons_ne_nil _ _))

def MemberReads (depth : Nat) (e : Codes × Data) (p : Codes) : Prop :=
  ∃ name value, TypedCodes name ∧ e.1 = mergePairs name ∧ ReadAs depth e.2 (asciiText value) ∧
    p = quote name ++ 0x3a :: value

theorem asciiText_member (name value : Codes) : asciiText (quote name ++ 0x3a :: value) =
    '"' :: (name.flatMap piece ++ '"' :: ':' :: asciiText value) := by
  have hcolon : asciiCode 0x3a = [':'] := rfl
  rw [asciiText_append, asciiText_quote, asciiText_cons, hcolon]
  simp

theorem derives_memberParts (rest : Text) {es : List (Codes × Data)}
    (h : List.Forall₂ (MemberReads depth) es parts) (hne : es ≠ []) :
    dataReader.Derives depth (asciiText (commas parts) ++ '}' :: rest) (.members es) rest := by
  induction h with
  | nil => exact absurd rfl hne
  | @cons e _ _ _ he hes ih =>
    obtain ⟨key, x⟩ := e
    obtain ⟨name, value, hname, rfl, hx, rfl⟩ := he
    cases hes with
    | nil =>
      rw [commas, asciiText_member, cons_append, append_assoc]
      exact .entry (scanCodes_pieces _ hname) (by simp; omega) (hx _ (.cons (by decide) rest))
    | cons =>
      rw [commas, asciiText_append, asciiText_member, asciiText_cons]
      simp only [cons_append, append_assoc]
      exact .entries (scanCodes_pieces _ hname) (by simp; omega) (hx _ (.cons (by decide) _)) (ih (cons_ne_nil _ _))

/-! ## Every text is read back -/

theorem readAs_int {n : Int} {cs : Codes} (h : intRepr n = .ok cs) : ReadAs depth (.int n) (asciiText cs) := by
  unfold intRepr at h
  split at h
  · rename_i hn
    cases h
    rw [asciiText_codes, ensureAscii_same (ascii_intText n)]
    intro rest hr
    exact .number (intText_head n) (atom_intText dataLiterals hn hr)
  · cases h

theorem readAs_float {x : PyFloat} {cs : Codes} (hx : Typed (.float x)) (h : floatCodes true x = .ok cs) :
    ReadAs depth (.float x) (asciiText cs) := by
  cases x with
  | finite q =>
    cases h
    have hq := floatReads_floatRepr plainHooks plainHooks_readsFloats hx
    rw [asciiText_codes, ensureAscii_same (ascii_floatRepr q)]
    intro rest hr
    exact .number hq.head (dataLiterals_atom (hq.scan rest hr))
  | inf | negInf | nan =>
    cases h
    exact readAs_atom (by decide) (by decide) fun _ => rfl

theorem readAs_str {s : Codes} (hs : TypedCodes s) : ReadAs depth (.str (mergePairs s)) (asciiText (quote s)) := by
  intro rest _
  rw [asciiText_quote, cons_append, append_assoc]
  exact .str (scanCodes_pieces rest hs) (by simp; omega)

theorem readAs_list {xs : List Data} (hd : depth ≠ 0)
    (h : List.Forall₂ (fun x p => ReadAs (depth - 1) x (asciiText p)) xs parts) :
    ReadAs depth (.list xs) (asciiText (0x5b :: (commas parts ++ [0x5d]))) := by
  intro rest _
  rw [asciiText_cons, asciiText_append, append_assoc, append_assoc]
  cases h with
  | nil => exact .nil (if_neg hd) (skipBlanks_cons (by decide) _)
  | cons hx hxs => exact .array (if_neg hd) (derives_parts rest (.cons hx hxs) (cons_ne_nil _ _))

theorem readAs_object {es : List (Codes × Data)} (hd : depth ≠ 0)
    (h : List.Forall₂ (MemberReads (depth - 1)) es parts) :
    ReadAs depth (.object es) (asciiText (0x7b :: (commas parts ++ [0x7d]))) := by
  intro rest _
  rw [asciiText_cons, asciiText_append, append_assoc, append_assoc]
  cases h with
  | nil => exact .empty (if_neg hd) (skipBlanks_cons (by decide) _) rfl
  | cons he hes => exact .braces (if_neg hd) (derives_memberParts rest (.cons he hes) (cons_ne_nil _ _)) rfl

theorem typedCodes_name {k : Key} {name : Codes} (hk : k.Typed) (h : k.name true = .ok name) : TypedCodes name := by
  cases k with
  | str =>
    cases h
    exact hk
  | int =>
    simp only [Key.name, intRepr] at h
    split at h
    · cases h
      exact typedCodes_codes _
    · cases h
  | float x =>
    cases x <;> cases h <;> exact typedCodes_codes _
  | bool b =>
    cases b <;> cases h <;> exact typedCodes_codes _
  | null =>
    cases h
    exact typedCodes_codes _

theorem insertionSort_values {α β : Type} (f : α → β) (d : List (Key × α)) :
    (d.map fun e => (e.1, f e.2)).insertionSort (fun a b => a.1.le b.1 = true) =
      (d.insertionSort fun a b => a.1.le b.1 = true).map fun e => (e.1, f e.2) :=
  (map_insertionSort (fun a b : Key × α => a.1.le b.1 = true) (fun a b : Key × β => a.1.le b.1 = true) _ d
    fun _ _ _ _ => Iff.rfl).symm

theorem members_read
    (hd : ∀ e ∈ d, e.1.Typed ∧ ∀ cs, encode true depth e.2 = .ok cs → ReadAs depth (reread e.2) (asciiText cs))
    (h : d.mapM (fun e => entryText true (e.1, encode true depth e.2)) = .ok parts) :
    List.Forall₂ (MemberReads depth) (d.map fun e => (mergePairs e.1.printed, reread e.2)) parts := by
  rw [forall₂_map_left_iff]
  refine List.Forall₂.imp ?_ ((forall₂_and_left _ _).2 ⟨fun _ he => he, mapM_ok_forall₂ h⟩)
  rintro e p ⟨he, hp⟩
  obtain ⟨name, hname, hp⟩ := bind_ok_iff.1 hp
  obtain ⟨value, hvalue, hp⟩ := bind_ok_iff.1 hp
  cases hp
  refine ⟨name, value, typedCodes_name (hd e he).1 hname, ?_, (hd e he).2 value hvalue, rfl⟩
  simp [Key.printed, hname, Except.toOption]

mutual

/-- Whatever is printed is read back. -/
theorem readAs_encode : ∀ (d : Data) (depth : Nat) (cs : Codes), Typed d → encode true depth d = .ok cs →
    ReadAs depth (reread d) (asciiText cs)
  | .null, _, _, _, h | .bool true, _, _, _, h | .bool false, _, _, _, h => by
    rw [encode] at h
    cases h
    exact readAs_atom (by decide) (by decide) fun _ => rfl
  | .int n, _, _, _, h => by
    rw [encode] at h
    exact readAs_int h
  | .float x, _, _, hx, h => by
    rw [encode] at h
    exact readAs_float hx h
  | .str s, _, _, hs, h => by
    rw [encode] at h
    rw [Typed] at hs
    cases h
    rw [reread]
    exact readAs_str hs
  | .bytes _, _, _, _, h => by
    rw [encode] at h
    cases h
  | .list xs, depth, _, hx, h | .tuple xs, depth, _, hx, h => by
    rw [Typed] at hx
    rw [encode] at h
    rw [reread]
    split at h
    · cases h
    rename_i hd
    obtain ⟨parts, hparts, h⟩ := bind_ok_iff.1 h
    cases h
    exact readAs_list hd (readAs_items xs (depth - 1) parts hx hparts)
  | .dict d, depth, _, hx, h => by
    rw [Typed] at hx
    rw [encode] at h
    rw [reread]
    split at h
    · cases h
    rename_i hd
    obtain ⟨parts, hparts, h⟩ := bind_ok_iff.1 h
    cases h
    rw [encodeEntries_eq, entriesText, sortByKey] at hparts
    split at hparts
    · rw [insertionSort_values, bind_ok_iff] at hparts
      obtain ⟨sorted, hs, hparts⟩ := hparts
      cases hs
      rw [mapM_map] at hparts
      rw [rereadEntries_eq, insertionSort_values, map_map]
      refine readAs_object hd (members_read ?_ hparts)
      intro e he
      exact readAs_entries d (depth - 1) hx e ((mem_insertionSort _).1 he)
    · cases hparts

theorem readAs_items : ∀ (xs : List Data) (depth : Nat) (parts : List Codes), TypedItems xs →
    encodeItems true depth xs = .ok parts →
    List.Forall₂ (fun x p => ReadAs depth x (asciiText p)) (rereadItems xs) parts
  | [], _, _, _, h => by
    rw [encodeItems] at h
    cases h
    rw [rereadItems]
    exact .nil
  | x :: xs, depth, _, hx, h => by
    rw [TypedItems] at hx
    rw [encodeItems] at h
    obtain ⟨part, hpart, h⟩ := bind_ok_iff.1 h
    obtain ⟨parts, hparts, h⟩ := bind_ok_iff.1 h
    cases h
    rw [rereadItems]
    exact .cons (readAs_encode x depth part hx.1 hpart) (readAs_items xs depth parts hx.2 hparts)

theorem readAs_entries : ∀ (d : List (Key × Data)) (depth : Nat), TypedEntries d → ∀ e ∈ d,
    e.1.Typed ∧ ∀ cs, encode true depth e.2 = .ok cs → ReadAs depth (reread e.2) (asciiText cs)
  | [], _, _, _, he => by cases he
  | (k, x) :: es, depth, h, e, he => by
    rw [TypedEntries] at h
    rcases List.mem_cons.1 he with rfl | he
    · exact ⟨h.1.1, fun cs hcs => readAs_encode x depth cs h.1.2 hcs⟩
    · exact readAs_entries es depth h.2 e he

end

/-- An object with distinct string keys that have no surrogates keeps its keys. -/
theorem reread_object (hstr : ∀ e ∈ d, ∃ s, e.1 = .str s ∧ Clean s) (hn : (d.map Prod.fst).Nodup) :
    reread (.dict d) = .dict ((rereadEntries d).insertionSort fun a b => a.1.le b.1 = true) := by
  have hperm := perm_insertionSort (fun a b : Key × Data => a.1.le b.1 = true) (rereadEntries d)
  have hname : ∀ e ∈ (rereadEntries d).insertionSort (fun a b => a.1.le b.1 = true),
      Key.str (mergePairs e.1.printed) = e.1 := by
    intro e he
    rw [hperm.mem_iff, rereadEntries_eq, mem_map] at he
    obtain ⟨e, he, rfl⟩ := he
    obtain ⟨s, hs, hclean⟩ := hstr e he
    simp [hs, Key.printed, Key.name, Except.toOption, mergePairs_clean hclean]
  have hkeys : ((rereadEntries d).map Prod.fst).Nodup := by
    rw [rereadEntries_eq, map_map]
    exact hn
  rw [reread, Data.object, objectEntries_nodup, map_map]
  · congr 1
    conv_rhs => rw [← map_id ((rereadEntries d).insertionSort _)]
    exact map_congr_left fun e he => Prod.ext (hname e he) rfl
  · rw [map_map]
    refine List.Nodup.of_map Key.str ?_
    rw [map_map]
    have : ((rereadEntries d).insertionSort fun a b => a.1.le b.1 = true).map
        (Key.str ∘ Prod.fst ∘ fun e : Key × Data => (mergePairs e.1.printed, e.2)) =
        ((rereadEntries d).insertionSort fun a b => a.1.le b.1 = true).map Prod.fst :=
      map_congr_left hname
    rw [this]
    exact (hperm.map Prod.fst).nodup_iff.2 hkeys

/-- `json.loads` of what `json.dumps` prints. -/
theorem decode_asciiJson {d : Data} {t : Text} (hd : Typed d) (h : asciiJson depth d = .ok t) :
    decode depth t = .ok (reread d) := by
  obtain ⟨cs, hcs, h⟩ := bind_ok_iff.1 h
  cases h
  have hread := readAs_encode d depth cs hd hcs [] .nil
  rw [append_nil] at hread
  exact hread.document

end Portmark.Lib.Json
