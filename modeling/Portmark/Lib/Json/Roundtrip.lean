/-
Parsing what was printed gives the value back: the grammar derives the value from its text, whatever
follows, so `loads (dumps v)` is `v` with its objects in key order. The printed form of floats is a
parameter, and a value is `Plain` when its floats read back.
-/
import Portmark.Lib.Json.Reader
import Portmark.Lib.Json.Strings

namespace Portmark.Lib.Json

open List

/-! ## Strings -/

structure Transcribes (enc : Char → Text) : Prop where
  ascii : ∀ c : Char, c.toNat ≤ 0x7e → enc c = [c]
  scanString_escape : ∀ rest s : Text, scanString ((escape s).flatMap enc ++ '"' :: rest) = .ok (s, rest)

theorem transcribes_self : Transcribes fun c => [c] where
  ascii _ _ := rfl
  scanString_escape rest s := by
    have h : Spells (escape s) (codes s) := by
      rw [codes, ← flatMap_pure_eq_map]
      exact .flatMap fun c _ => spells_escapeChar c
    apply scanString_of_scanCodes
    rw [flatMap_singleton', h.scanCodes, mergePairs_codes]

variable {c : Char}

namespace Transcribes

variable {enc : Char → Text} (h : Transcribes enc)

include h

theorem cons (hc : c.toNat ≤ 0x7e) (cs : Text) : (c :: cs).flatMap enc = c :: cs.flatMap enc := by
  rw [flatMap_cons, h.ascii c hc]
  rfl

theorem same {t : Text} (ht : ∀ c ∈ t, c.toNat ≤ 0x7e) : t.flatMap enc = t := by
  induction t with
  | nil => rfl
  | cons c t ih => rw [h.cons (ht c mem_cons_self), ih fun d hd => ht d (mem_cons_of_mem _ hd)]

end Transcribes

/-! ## Integers -/

def NoNumber (rest : Text) : Prop :=
  ∀ c r, rest = c :: r → c.isDigit = false ∧ c ≠ '.' ∧ c ≠ 'e' ∧ c ≠ 'E'

theorem NoNumber.cons (h : c.isDigit = false ∧ c ≠ '.' ∧ c ≠ 'e' ∧ c ≠ 'E') (r : Text) : NoNumber (c :: r) := by
  intro c' r' he
  cases he
  exact h

theorem NoNumber.nil : NoNumber [] := by
  intro c r h; cases h

theorem digitChar_pos : ∀ n < 10, 0 < n → n.digitChar ≠ '0' ∧ n.digitChar.isDigit = true := by decide

theorem toDigits_head {n : Nat} (h : 0 < n) : ∃ c cs, Nat.toDigits 10 n = c :: cs ∧ c ≠ '0' ∧ c.isDigit = true := by
  induction n using Nat.strong_induction_on with
  | _ n ih =>
    by_cases hn : n < 10
    · exact ⟨n.digitChar, [], Nat.toDigits_of_lt_base hn, digitChar_pos n hn h⟩
    obtain ⟨c, cs, he, hc⟩ := ih (n / 10) (by omega) (by omega)
    refine ⟨c, cs ++ [(n % 10).digitChar], ?_, hc⟩
    rw [Nat.toDigits_of_base_le (by omega) (by omega), he]
    rfl

variable {rest : Text}

theorem digits_append {ds : Text} (hd : ∀ c ∈ ds, c.isDigit = true) (hr : ∀ c r, rest = c :: r → c.isDigit = false) :
    (ds ++ rest).takeWhile Char.isDigit = ds ∧ (ds ++ rest).dropWhile Char.isDigit = rest := by
  rw [takeWhile_append_of_pos hd, dropWhile_append_of_pos hd]
  cases rest with
  | nil => simp
  | cons c r =>
    simp [hr c r rfl]

theorem isDigit_toDigits (n : Nat) : ∀ c ∈ Nat.toDigits 10 n, c.isDigit = true :=
  fun _ hc => Nat.isDigit_of_mem_toDigits (by decide) (by decide) hc

theorem ascii_of_isDigit (h : c.isDigit = true) : c.toNat ≤ 0x7e := by
  simp only [Char.isDigit, Bool.and_eq_true, decide_eq_true_eq] at h
  exact le_trans (UInt32.le_iff_toNat_le.1 h.2) (by decide)

theorem ascii_toDigits (n : Nat) : ∀ c ∈ Nat.toDigits 10 n, c.toNat ≤ 0x7e :=
  fun c hc => ascii_of_isDigit (isDigit_toDigits n c hc)

theorem ascii_intText (n : Int) : ∀ c ∈ intText n, c.toNat ≤ 0x7e := by
  unfold intText
  split
  · rw [forall_mem_cons]
    exact ⟨by decide, ascii_toDigits _⟩
  · exact ascii_toDigits _

theorem scanWhole_toDigits (n : Nat) (hr : NoNumber rest) :
    scanWhole (Nat.toDigits 10 n ++ rest) = some (Nat.toDigits 10 n, rest) := by
  rcases Nat.eq_zero_or_pos n with rfl | hn
  · rfl
  obtain ⟨c, cs, he, hc, hdig⟩ := toDigits_head hn
  obtain ⟨h1, h2⟩ := digits_append (isDigit_toDigits n) fun c r h => (hr c r h).1
  rw [he] at h1 h2 ⊢
  unfold scanWhole
  split
  · rename_i heq; cases heq; exact absurd rfl hc
  · rename_i c' r' _ heq
    cases heq
    rw [if_pos hdig]
    exact congrArg some (Prod.ext h1 h2)
  · rename_i heq; cases heq

theorem scanFraction_none (hr : NoNumber rest) : scanFraction rest = none := by
  unfold scanFraction
  split
  · rename_i r
    exact absurd rfl (hr '.' r rfl).2.1
  · rfl

theorem scanExponent_none (hr : NoNumber rest) : scanExponent rest = none := by
  unfold scanExponent
  split
  · rename_i c r
    obtain ⟨-, -, h1, h2⟩ := hr c r rfl
    rw [if_neg (by simp [h1, h2])]
  · rfl

section Numbers

variable {ε α : Type} (L : Literals ε α)

theorem unsigned_toDigits (negative : Bool) {n : Nat} (hn : (Nat.toDigits 10 n).length ≤ maxIntDigits)
    (hr : NoNumber rest) : L.unsigned negative (Nat.toDigits 10 n ++ rest) =
      .ok (L.int (if negative then -(n : Int) else n), rest) := by
  unfold Literals.unsigned
  simp only [scanWhole_toDigits n hr, scanFraction_none hr, Option.elim_none, scanExponent_none hr, if_pos hn,
    Nat.ofDigitChars_ten_toDigits]

theorem atom_digit (hc : c.isDigit = true) (cs : Text) :
    L.atom (c :: cs) = L.unsigned false (c :: cs) := by
  have hne : ∀ (d : Char) {ds : Text}, d.isDigit = false → c :: cs ≠ d :: ds := by
    rintro d ds hd ⟨⟩
    rw [hc] at hd; cases hd
  unfold Literals.atom
  split <;> try rename_i heq
  · exact absurd heq (hne 'n' (by decide))
  · exact absurd heq (hne 't' (by decide))
  · exact absurd heq (hne 'f' (by decide))
  · exact absurd heq (hne 'N' (by decide))
  · exact absurd heq (hne 'I' (by decide))
  · exact absurd heq (hne '-' (by decide))
  · unfold Literals.number
    split
    · rename_i heq
      exact absurd heq (hne '-' (by decide))
    · rfl

theorem atom_minus (hc : c.isDigit = true) (cs : Text) :
    L.atom ('-' :: c :: cs) = L.unsigned true (c :: cs) := by
  unfold Literals.atom
  split
  case h_6 =>
    rename_i heq
    obtain rfl : c = 'I' := (List.cons.inj (List.cons.inj heq).2).1
    exact absurd hc (by decide)
  case h_7 => rfl
  -- the other atoms do not start with a minus
  all_goals
    rename_i heq
    exact absurd (List.cons.inj heq).1 (by decide)

/-- An integer with no more digits than `int` reads. -/
def Readable (n : Int) : Prop := (Nat.toDigits 10 n.natAbs).length ≤ maxIntDigits

theorem atom_intText {n : Int} (hn : Readable n)
    (hr : NoNumber rest) : L.atom (intText n ++ rest) = .ok (L.int n, rest) := by
  obtain ⟨c, cs, he⟩ : ∃ c cs, Nat.toDigits 10 n.natAbs = c :: cs :=
    exists_cons_of_ne_nil Nat.toDigits_ne_nil
  have hc : c.isDigit = true := isDigit_toDigits n.natAbs c (by rw [he]; exact mem_cons_self ..)
  unfold intText
  split
  · rename_i hneg
    rw [he, cons_append, cons_append, atom_minus L hc, ← cons_append, ← he,
      unsigned_toDigits L true hn hr]
    simp only [if_true]
    rw [show (-(n.natAbs : Int)) = n by omega]
  · rename_i hneg
    rw [he, cons_append, atom_digit L hc, ← cons_append, ← he,
      unsigned_toDigits L false hn hr]
    simp only [Bool.false_eq_true, if_false]
    rw [show (n.natAbs : Int) = n by omega]

end Numbers

/-! ## Values -/

section Values

variable (hooks : Hooks) (floatText : ℚ → Text)

structure FloatReads (q : ℚ) : Prop where
  head : ∃ c cs, floatText q = c :: cs ∧ (c = '-' ∨ c.isDigit = true)
  scan : ∀ rest, NoNumber rest → hooks.literals.atom (floatText q ++ rest) = .ok (.float (.finite q), rest)

def Reads (x : PyFloat) : Prop := ∃ q, x = .finite q ∧ FloatReads hooks floatText q

mutual

def Plain (F : PyFloat → Prop) (tuples : Bool) : Value → Prop
  | .null => True
  | .bool _ => True
  | .int n => Readable n
  | .float x => F x
  | .str _ => True
  | .list xs => PlainItems F tuples xs
  | .tuple xs => tuples = true ∧ PlainItems F tuples xs
  | .dict d => (Assoc.keys d).Nodup ∧ PlainEntries F tuples d

def PlainItems (F : PyFloat → Prop) (tuples : Bool) : List Value → Prop
  | [] => True
  | v :: vs => Plain F tuples v ∧ PlainItems F tuples vs

def PlainEntries (F : PyFloat → Prop) (tuples : Bool) : List (String × Value) → Prop
  | [] => True
  | (_, v) :: es => Plain F tuples v ∧ PlainEntries F tuples es

end

/-! ## The grammar derives the text -/

theorem intText_head (n : Int) : ∃ c cs, intText n = c :: cs ∧ (c = '-' ∨ c.isDigit = true) := by
  obtain ⟨c, cs, he⟩ : ∃ c cs, Nat.toDigits 10 n.natAbs = c :: cs :=
    exists_cons_of_ne_nil Nat.toDigits_ne_nil
  unfold intText
  split
  · exact ⟨'-', _, rfl, .inl rfl⟩
  · exact ⟨c, cs, he, .inr (isDigit_toDigits n.natAbs c (by rw [he]; exact mem_cons_self ..))⟩

theorem Reader.Derives.number {δ ε S α : Type} {R : Reader δ ε S α} {d : δ} {x : α} {t : Text}
    (ht : ∃ c cs, t = c :: cs ∧ (c = '-' ∨ c.isDigit = true)) (h : R.atom (t ++ rest) = .ok (x, rest)) :
    R.Derives d (t ++ rest) (.value x) rest := by
  obtain ⟨c, cs, rfl, hc⟩ := ht
  have hne : ∀ d : Char, d ≠ '-' ∧ d.isDigit = false → c ≠ d := by
    rintro d ⟨hd, hd'⟩ rfl
    rcases hc with hc | hc
    · exact hd hc
    · rw [hc] at hd'
      cases hd'
  refine .atom ?_ ?_ h (by simp)
  · simp only [isBlank, Bool.or_eq_false_iff, beq_eq_false_iff_ne]
    exact ⟨⟨⟨hne _ (by decide), hne _ (by decide)⟩, hne _ (by decide)⟩, hne _ (by decide)⟩
  · simp only [mem_cons, not_mem_nil, or_false, not_or]
    exact ⟨hne _ (by decide), hne _ (by decide), hne _ (by decide), hne _ (by decide), hne _ (by decide)⟩

theorem object_nodup {d : Dict} (hd : (Assoc.keys d).Nodup) : (valueReader hooks).object d = .ok (.dict d) := by
  show Value.dict <$> hooks.object d = _
  rw [hooks.object_nodup d hd]
  rfl

variable {enc : Char → Text} (henc : Transcribes enc)

include henc

theorem string_escape (s : String) (rest : Text) :
    (valueReader hooks).string ((escape s.toList).flatMap enc ++ '"' :: rest) = .ok (s, rest) := by
  show (scanString _ >>= fun p => pure (String.ofList p.1, p.2)) = _
  rw [henc.scanString_escape, ← String.ofList_toList (s := s)]
  simp [bind, Except.bind, pure, Except.pure]

mutual

/-- The text of a value is derived as the value, and what follows it is left. -/
theorem derives_text : ∀ (v : Value), Plain (Reads hooks fun q => (floatText q).flatMap enc) false v →
    ∀ rest : Text, NoNumber rest →
    (valueReader hooks).Derives () ((text floatText v).flatMap enc ++ rest) (.value v) rest
  | .null, _, rest, _ | .bool true, _, rest, _ | .bool false, _, rest, _ => by
    rw [text, henc.same (by simp)]
    exact .atom (by decide) (by decide) rfl (by simp; omega)
  | .int i, h, rest, hr => by
    rw [text, henc.same (ascii_intText i)]
    exact .number (intText_head i) (atom_intText hooks.literals h hr)
  | .float x, h, rest, hr => by
    rw [Plain] at h
    obtain ⟨q, rfl, hq⟩ := h
    rw [text]
    exact .number hq.head (hq.scan rest hr)
  | .str s, _, rest, _ => by
    simp (disch := decide) only [text, henc.cons, flatMap_append, flatMap_nil, cons_append,
      append_assoc, nil_append]
    exact .str (string_escape hooks henc s rest) (by simp; omega)
  | .tuple xs, h, _, _ => by simp [Plain] at h
  | .list [], _, rest, _ => by
    rw [text, textItems, henc.same (by simp)]
    exact .nil rfl (skipBlanks_cons (by decide) _)
  | .list (v :: vs), h, rest, _ => by
    rw [Plain] at h
    have ih := derives_items (v :: vs) h (cons_ne_nil v vs) rest
    simp (disch := decide) only [text, henc.cons, flatMap_append, flatMap_nil, cons_append,
      append_assoc, nil_append]
    exact .array rfl ih
  | .dict [], _, rest, _ => by
    rw [text, textEntries, henc.same (by simp)]
    exact .empty rfl (skipBlanks_cons (by decide) _) (object_nodup hooks nodup_nil)
  | .dict (e :: es), h, rest, _ => by
    rw [Plain] at h
    have ih := derives_entries (e :: es) h.2 (cons_ne_nil e es) rest
    simp (disch := decide) only [text, henc.cons, flatMap_append, flatMap_nil, cons_append,
      append_assoc, nil_append]
    exact .braces rfl ih (object_nodup hooks h.1)

theorem derives_items : ∀ vs : List Value, PlainItems (Reads hooks fun q => (floatText q).flatMap enc) false vs →
    vs ≠ [] → ∀ rest : Text,
    (valueReader hooks).Derives () ((textItems floatText vs).flatMap enc ++ ']' :: rest) (.elements vs) rest
  | [], _, hne, _ => absurd rfl hne
  | [v], h, _, rest => by
    rw [textItems]
    exact .last (derives_text v h.1 _ (.cons (by decide) rest)) (skipBlanks_cons (by decide) _)
  | v :: w :: ws, h, _, rest => by
    have hv := derives_text v h.1 (',' :: ((textItems floatText (w :: ws)).flatMap enc ++ ']' :: rest))
      (.cons (by decide) _)
    simp (disch := decide) only [textItems, henc.cons, flatMap_append, cons_append, append_assoc]
    exact .comma hv (derives_items (w :: ws) h.2 (cons_ne_nil w ws) rest)

theorem derives_entries : ∀ es : List (String × Value),
    PlainEntries (Reads hooks fun q => (floatText q).flatMap enc) false es → es ≠ [] → ∀ rest : Text,
    (valueReader hooks).Derives () ((textEntries floatText es).flatMap enc ++ '}' :: rest) (.members es) rest
  | [], _, hne, _ => absurd rfl hne
  | [(key, v)], h, _, rest => by
    simp (disch := decide) only [textEntries, henc.cons, flatMap_append, cons_append, append_assoc]
    exact .entry (string_escape hooks henc key _) (by simp; omega) (derives_text v h.1 _ (.cons (by decide) rest))
  | (key, v) :: e :: es, h, _, rest => by
    have hv := derives_text v h.1 (',' :: ((textEntries floatText (e :: es)).flatMap enc ++ '}' :: rest))
      (.cons (by decide) _)
    simp (disch := decide) only [textEntries, henc.cons, flatMap_append, cons_append, append_assoc]
    exact .entries (string_escape hooks henc key _) (by simp; omega) hv
      (derives_entries (e :: es) h.2 (cons_ne_nil e es) rest)

end

/-- `json.loads` of the text of a value, however its characters are written. -/
theorem loadsWith_written {v : Value} (h : Plain (Reads hooks fun q => (floatText q).flatMap enc) false v) :
    loadsWith hooks ((text floatText v).flatMap enc) = .ok v := by
  have hderives := derives_text hooks floatText henc v h [] .nil
  rw [append_nil] at hderives
  exact hderives.document

omit henc in
theorem loadsWith_text {v : Value} (h : Plain (Reads hooks floatText) false v) :
    loadsWith hooks (text floatText v) = .ok v := by
  have hsame := loadsWith_written hooks floatText transcribes_self (v := v)
  simp only [flatMap_singleton'] at hsame
  exact hsame h

end Values

end Portmark.Lib.Json
