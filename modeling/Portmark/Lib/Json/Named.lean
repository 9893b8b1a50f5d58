/-
JSON values as Python data: the keys of their objects are strings, named as they are. Printing such
data sorts the names as strings are sorted, and gives the text of the value.
-/
import Portmark.Lib.Json.Data

namespace Portmark.Lib.Json

open List

/-! ## Data that is a value -/

mutual

def Nested (depth : Nat) : Value → Prop
  | .list xs => depth ≠ 0 ∧ NestedItems (depth - 1) xs
  | .tuple xs => depth ≠ 0 ∧ NestedItems (depth - 1) xs
  | .dict d => depth ≠ 0 ∧ NestedEntries (depth - 1) d
  | _ => True

def NestedItems (depth : Nat) : List Value → Prop
  | [] => True
  | v :: vs => Nested depth v ∧ NestedItems depth vs

def NestedEntries (depth : Nat) : List (String × Value) → Prop
  | [] => True
  | (_, v) :: es => Nested depth v ∧ NestedEntries depth es

end

mutual

def Data.ofValue : Value → Data
  | .null => .null
  | .bool b => .bool b
  | .int n => .int n
  | .float x => .float x
  | .str s => .str (codes s.toList)
  | .list xs => .list (ofValueItems xs)
  | .tuple xs => .tuple (ofValueItems xs)
  | .dict d => .dict (ofValueEntries d)

def ofValueItems : List Value → List Data
  | [] => []
  | v :: vs => Data.ofValue v :: ofValueItems vs

def ofValueEntries : List (String × Value) → List (Key × Data)
  | [] => []
  | (k, v) :: es => (.str (codes k.toList), Data.ofValue v) :: ofValueEntries es

end

theorem ofValueEntries_eq (d : List (String × Value)) :
    ofValueEntries d = d.map fun e => (Key.str (codes e.1.toList), Data.ofValue e.2) := by
  induction d with
  | nil => rw [ofValueEntries]; rfl
  | cons e d ih => rw [ofValueEntries, ih]; rfl

def charsOf (s : Codes) : Text := s.map Char.ofNat

/-! ## Parts of the text -/

theorem codes_charsOf {s : Codes} (h : Clean s) : codes (charsOf s) = s := by
  rw [codes, charsOf, map_map]
  refine (map_congr_left fun n hn => ?_).trans (map_id s)
  have hn' : isSurrogate n = false := by
    have := List.any_eq_false.1 h n hn
    simpa using this
  rw [isSurrogate, decide_eq_false_iff_not] at hn'
  have hvalid : n.isValidChar := by
    omega
  show (Char.ofNat n).toNat = n
  rw [Char.ofNat, dif_pos hvalid]
  rfl

theorem codes_between (opening closing : Char) (t : Text) :
    codes (opening :: (t ++ [closing])) = opening.toNat :: (codes t ++ [closing.toNat]) := by
  simp [codes]

theorem quote_codes (s : Text) : quote (codes s) = codes ('"' :: (escape s ++ ['"'])) := by
  have hescape : (codes s).flatMap escapeCode = codes (escape s) := by
    induction s with
    | nil => rfl
    | cons c s ih =>
      have hc : escapeCode c.toNat = codes (escapeChar c) := by
        rw [escapeCode, if_neg (by simp [isSurrogate_toNat]), Char.ofNat_toNat]
      show escapeCode c.toNat ++ (codes s).flatMap escapeCode = codes (escapeChar c ++ escape s)
      rw [hc, ih, codes_append]
  rw [quote, hescape, codes_between]
  rfl

theorem commas_codes_items (floatText : ℚ → Text) (vs : List Value) :
    commas (vs.map fun v => codes (text floatText v)) = codes (textItems floatText vs) := by
  induction vs with
  | nil => rw [textItems]; rfl
  | cons v vs ih =>
    cases vs with
    | nil => rw [textItems]; rfl
    | cons =>
      rw [map_cons, map_cons, commas, ← map_cons (f := fun v => codes (text floatText v)), ih, textItems,
        codes_append]
      rfl

def entryChars (floatText : ℚ → Text) (e : String × Value) : Text :=
  '"' :: (escape e.1.toList ++ '"' :: ':' :: text floatText e.2)

theorem commas_codes_entries (floatText : ℚ → Text) (d : List (String × Value)) :
    commas (d.map fun e => codes (entryChars floatText e)) = codes (textEntries floatText d) := by
  induction d with
  | nil => rw [textEntries]; rfl
  | cons e d ih =>
    cases d with
    | nil => rw [textEntries]; rfl
    | cons =>
      rw [map_cons, map_cons, commas, ← map_cons (f := fun e => codes (entryChars floatText e)), ih,
        textEntries, codes_append]
      rfl

theorem mapM_ok_map {α β ε : Type} {f : α → Except ε β} {g : α → β} {xs : List α} (h : ∀ x ∈ xs, f x = .ok (g x)) :
    xs.mapM f = .ok (xs.map g) := by
  induction xs with
  | nil => rfl
  | cons x xs ih =>
    rw [mapM_cons, h x mem_cons_self, ih fun y hy => h y (mem_cons_of_mem _ hy)]
    rfl

theorem flatMap_asciiCode (t : Text) : (codes t).flatMap asciiCode = ensureAscii t := by
  rw [codes, flatMap_map, ensureAscii]
  refine flatMap_congr fun c _ => ?_
  rw [asciiCode, if_neg (by simp [isSurrogate_toNat]), Char.ofNat_toNat]

/-! ## One text -/

theorem codes_lt_iff : ∀ {s t : Text}, codes s < codes t ↔ s < t
  | [], [] | [], _ :: _ | _ :: _, [] => by simp [codes]
  | c :: s, c' :: t => by
    have hhead : c.toNat < c'.toNat ↔ c < c' := UInt32.lt_iff_toNat_lt.symm
    have heq : c.toNat = c'.toNat ↔ c = c' := ⟨Char.toNat_inj.1, congrArg _⟩
    show c.toNat :: codes s < c'.toNat :: codes t ↔ _
    rw [cons_lt_cons_iff, cons_lt_cons_iff, hhead, heq, codes_lt_iff]

theorem le_str {s t : String} : (Key.str (codes s.toList)).le (.str (codes t.toList)) = true ↔ s ≤ t := by
  show (!decide (codes t.toList < codes s.toList)) = true ↔ _
  rw [Bool.not_eq_true', decide_eq_false_iff_not, codes_lt_iff]
  exact String.not_lt

theorem sortByKey_str {α β : Type} (f : α → β) (d : Assoc α) :
    sortByKey (d.map fun e => (Key.str (codes e.1.toList), f e.2)) =
      .ok ((inOrder d).map fun e => (Key.str (codes e.1.toList), f e.2)) := by
  have hall : (((d.map fun e => (Key.str (codes e.1.toList), f e.2)).map Prod.fst).all Key.isStr) = true := by
    simp [Key.isStr]
  rw [sortByKey, if_pos (by simp only [sortable, hall, Bool.or_true, Bool.true_or])]
  exact congrArg Except.ok (map_insertionSort (fun a b : String × α => a.1 ≤ b.1)
    (fun a b : Key × β => a.1.le b.1 = true) (fun e => (Key.str (codes e.1.toList), f e.2)) d
    fun _ _ _ _ => le_str.symm).symm

theorem entryText_str (e : String × Value) :
    entryText false (Key.str (codes e.1.toList), .ok (codes (text floatRepr e.2))) =
      .ok (codes (entryChars floatRepr e)) := by
  have hsplit : entryChars floatRepr e = ('"' :: (escape e.1.toList ++ ['"'])) ++ ':' :: text floatRepr e.2 := by
    simp [entryChars]
  show Except.ok (quote (codes e.1.toList) ++ 0x3a :: codes (text floatRepr e.2)) = _
  rw [quote_codes, hsplit, codes_append]
  rfl

theorem entriesText_str (d : Dict) :
    entriesText false (d.map fun e => (Key.str (codes e.1.toList), .ok (codes (text floatRepr e.2)))) =
      .ok ((inOrder d).map fun e => codes (entryChars floatRepr e)) := by
  unfold entriesText
  rw [sortByKey_str (fun v => (.ok (codes (text floatRepr v)) : Except EncodeError Codes)) d]
  show mapM _ _ = _
  rw [mapM_map]
  exact mapM_ok_map fun e _ => entryText_str e

theorem IsDouble.finite {x : PyFloat} (h : IsDouble x) : ∃ q, x = .finite q := by
  obtain ⟨q, hq, -⟩ := h
  exact ⟨q, hq⟩

variable {tuples : Bool}

mutual

theorem encode_ofValue : ∀ (v : Value) (depth : Nat), Plain IsDouble tuples v → Nested depth v →
    encode false depth (Data.ofValue v) = .ok (codes (text floatRepr (sortKeys v)))
  | .null, _, _, _ => rfl
  | .bool true, _, _, _ => rfl
  | .bool false, _, _, _ => rfl
  | .int _, _, h, _ => if_pos h
  | .float x, _, h, _ => by
    obtain ⟨q, rfl⟩ := IsDouble.finite h
    rfl
  | .str s, _, _, _ => congrArg Except.ok (quote_codes s.toList)
  | .list xs, depth, h, hn => by
    rw [Plain] at h
    rw [Nested] at hn
    rw [Data.ofValue, encode, if_neg hn.1, encodeItems_ofValue xs _ h hn.2, sortKeys, text]
    show Except.ok (0x5b :: (commas _ ++ [0x5d])) = _
    rw [commas_codes_items]
    exact congrArg Except.ok (codes_between '[' ']' _).symm
  | .tuple xs, depth, h, hn => by
    rw [Plain] at h
    rw [Nested] at hn
    rw [Data.ofValue, encode, if_neg hn.1, encodeItems_ofValue xs _ h.2 hn.2, sortKeys, text]
    show Except.ok (0x5b :: (commas _ ++ [0x5d])) = _
    rw [commas_codes_items]
    exact congrArg Except.ok (codes_between '[' ']' _).symm
  | .dict d, depth, h, hn => by
    rw [Plain] at h
    rw [Nested] at hn
    rw [Data.ofValue, encode, if_neg hn.1, encodeEntries_ofValue d _ h.2 hn.2, entriesText_str, sortKeys, text]
    show Except.ok (0x7b :: (commas _ ++ [0x7d])) = _
    rw [commas_codes_entries]
    exact congrArg Except.ok (codes_between '{' '}' _).symm

theorem encodeItems_ofValue : ∀ (xs : List Value) (depth : Nat), PlainItems IsDouble tuples xs → NestedItems depth xs →
    encodeItems false depth (ofValueItems xs) = .ok ((sortItems xs).map fun v => codes (text floatRepr v))
  | [], _, _, _ => rfl
  | v :: vs, depth, h, hn => by
    rw [PlainItems] at h
    rw [NestedItems] at hn
    rw [ofValueItems, encodeItems, encode_ofValue v depth h.1 hn.1, encodeItems_ofValue vs depth h.2 hn.2, sortItems]
    rfl

theorem encodeEntries_ofValue : ∀ (d : List (String × Value)) (depth : Nat), PlainEntries IsDouble tuples d →
    NestedEntries depth d → encodeEntries false depth (ofValueEntries d) =
      (sortEntries d).map fun e => (Key.str (codes e.1.toList), .ok (codes (text floatRepr e.2)))
  | [], _, _, _ => rfl
  | (k, v) :: es, depth, h, hn => by
    rw [PlainEntries] at h
    rw [NestedEntries] at hn
    rw [ofValueEntries, encodeEntries, encode_ofValue v depth h.1 hn.1, encodeEntries_ofValue es depth h.2 hn.2,
      sortEntries]
    rfl

end

theorem canonicalJson_ofValue {v : Value} {depth : Nat} (h : Plain IsDouble tuples v)
    (hn : Nested depth v) : canonicalJson depth (Data.ofValue v) = .ok (dumps floatRepr v) := by
  unfold canonicalJson
  rw [encode_ofValue v depth h hn]
  refine bind_ok_iff.2 ⟨_, rfl, ?_⟩
  rw [utf8?_codes]
  rfl

end Portmark.Lib.Json
