/-
JSON text in ASCII: `ensure_ascii` writes every character past the tilde as its UTF-16 escapes.
Outside of string literals JSON text is ASCII already, so escaping the characters of a text escapes
those of its strings, and a parser reads them back.
-/
import Portmark.Lib.Json.Order

namespace Portmark.Lib.Json

open List

/-! ## Escapes -/

def asciiChar (c : Char) : Text :=
  if c.toNat ≤ 0x7e then [c]
  else if c.toNat < 0x10000 then unicodeEscape c.toNat
  else unicodeEscape (0xD800 + (c.toNat - 0x10000) / 0x400) ++ unicodeEscape (0xDC00 + (c.toNat - 0x10000) % 0x400)

def ensureAscii (text : Text) : Text := text.flatMap asciiChar

/-- `json.dumps(v, sort_keys=True, separators=(",", ":"))`. -/
def asciiDumps (floatText : ℚ → Text) (v : Value) : Text := ensureAscii (dumps floatText v)

@[simp] theorem ensureAscii_nil : ensureAscii [] = [] := rfl

theorem ensureAscii_cons (c : Char) (cs : Text) : ensureAscii (c :: cs) = asciiChar c ++ ensureAscii cs := by
  simp [ensureAscii]

theorem ensureAscii_ascii {c : Char} (h : c.toNat ≤ 0x7e) (cs : Text) :
    ensureAscii (c :: cs) = c :: ensureAscii cs := by
  rw [ensureAscii_cons, asciiChar, if_pos h]
  rfl

/-! ## Strings -/

theorem ensureAscii_same {t : Text} (h : ∀ c ∈ t, c.toNat ≤ 0x7e) : ensureAscii t = t := by
  induction t with
  | nil => rfl
  | cons c t ih =>
    rw [ensureAscii_ascii (h c mem_cons_self), ih fun d hd => h d (mem_cons_of_mem _ hd)]

theorem ascii_hexDigit : ∀ n < 16, (hexDigit n).toNat ≤ 0x7e := by decide

theorem ensureAscii_control {n : Nat} (h : n < 0x20) :
    ensureAscii ['\\', 'u', '0', '0', hexDigit (n / 16), hexDigit (n % 16)] =
      ['\\', 'u', '0', '0', hexDigit (n / 16), hexDigit (n % 16)] := by
  apply ensureAscii_same
  simp only [forall_mem_cons]
  exact ⟨by decide, by decide, by decide, by decide, ascii_hexDigit _ (by omega), ascii_hexDigit _ (by omega), by simp⟩

/-- What is escaped is ASCII, and what is not ASCII is not escaped. -/
theorem spells_asciiEscape (c : Char) : Spells (ensureAscii (escapeChar c)) (units c.toNat) := by
  by_cases ha : c.toNat ≤ 0x7e
  · have hsame : ensureAscii (escapeChar c) = escapeChar c := by
      unfold escapeChar
      repeat' split
      all_goals first | rfl | exact ensureAscii_control ‹_› | exact ensureAscii_same (by simpa using ha)
    rw [hsame, units, if_pos (by omega)]
    exact spells_escapeChar c
  · have hone : escapeChar c = [c] := by
      have hne : ∀ d : Char, d.toNat ≤ 0x7e → c ≠ d := by
        rintro d hd rfl
        exact ha hd
      simp [escapeChar, hne, show ¬ c.toNat < 0x20 by omega]
    have hc := not_surrogate c
    rw [hone, ensureAscii_cons, ensureAscii_nil, append_nil, asciiChar, if_neg ha, units]
    split
    · exact spells_unicodeEscape ‹_›
    · exact (spells_unicodeEscape (by omega)).append (spells_unicodeEscape (by omega))

theorem transcribes_ascii : Transcribes asciiChar where
  ascii _ h := if_pos h
  scanString_escape rest s := by
    have h : Spells (ensureAscii (escape s)) ((codes s).flatMap units) := by
      rw [codes, flatMap_map, ensureAscii, escape, flatMap_assoc]
      exact .flatMap fun c _ => spells_asciiEscape c
    apply scanString_of_scanCodes
    rw [← ensureAscii, h.scanCodes, mergePairs_units (typedCodes_codes s), mergePairs_codes]

theorem loadsWith_asciiDumps (hooks : Hooks) (floatText : ℚ → Text) {v : Value}
    (h : Plain (Reads hooks fun q => ensureAscii (floatText q)) true v) :
    loadsWith hooks (asciiDumps floatText v) = .ok (sortKeys v) :=
  loadsWith_written hooks floatText transcribes_ascii (sortKeys_plain v h)

end Portmark.Lib.Json
