/-
String literals. What stands between the quotes is a list of pieces: a character, a short escape or a
`\u` escape, where a high surrogate with a low one after it is the character of the pair. What
is printed of a string is such a list, so it is read back.
-/
import Portmark.Lib.Json.Basic

namespace Portmark.Lib.Json

open List

/-! ## Code points -/

abbrev Codes := List Nat

def codes (t : Text) : Codes := t.map Char.toNat

theorem not_surrogate (c : Char) : c.toNat < 0xD800 ∨ 0xE000 ≤ c.toNat ∧ c.toNat < 0x110000 := by
  have h := c.valid
  change c.toNat < 0xD800 ∨ 0xDFFF < c.toNat ∧ c.toNat < 0x110000 at h
  omega

variable {n : Nat}

theorem toNat_ofNat (h : n < 0xD800 ∨ 0xE000 ≤ n ∧ n < 0x110000) : (Char.ofNat n).toNat = n := by
  have hvalid : n.isValidChar := by
    omega
  rw [Char.ofNat, dif_pos hvalid]
  rfl

def TypedCodes (s : Codes) : Prop := ∀ n ∈ s, n < 0x110000

theorem typedCodes_codes (t : Text) : TypedCodes (codes t) := by
  intro n hn
  obtain ⟨c, -, rfl⟩ := mem_map.1 hn
  have := not_surrogate c
  omega

def mergePairs : Codes → Codes
  | [] => []
  | [n] => [n]
  | n :: m :: s =>
    if 0xD800 ≤ n ∧ n < 0xDC00 ∧ 0xDC00 ≤ m ∧ m < 0xE000 then
      (0x10000 + (n - 0xD800) * 0x400 + (m - 0xDC00)) :: mergePairs s
    else n :: mergePairs (m :: s)

theorem mergePairs_cons (h : ¬ (0xD800 ≤ n ∧ n < 0xDC00)) (s : Codes) : mergePairs (n :: s) = n :: mergePairs s := by
  cases s with
  | nil => rfl
  | cons => rw [mergePairs, if_neg (by omega)]

theorem mergePairs_codes (t : Text) : mergePairs (codes t) = codes t := by
  induction t with
  | nil => rfl
  | cons c t ih =>
    have := not_surrogate c
    rw [codes, map_cons, mergePairs_cons (by omega)]
    exact congrArg _ ih

def units (n : Nat) : Codes :=
  if n < 0x10000 then [n] else [0xD800 + (n - 0x10000) / 0x400, 0xDC00 + (n - 0x10000) % 0x400]

theorem mergePairs_units {s : Codes} (h : TypedCodes s) : mergePairs (s.flatMap units) = mergePairs s := by
  have hastral : ∀ n t, n < 0x110000 → ¬ n < 0x10000 → mergePairs (units n ++ t) = n :: mergePairs t := by
    intro n t hn hb
    have hvalue : 0x10000 + (0xD800 + (n - 0x10000) / 0x400 - 0xD800) * 0x400 +
        (0xDC00 + (n - 0x10000) % 0x400 - 0xDC00) = n := by omega
    rw [units, if_neg hb, cons_append, cons_append, mergePairs, if_pos (by omega), hvalue]
    rfl
  induction s using mergePairs.induct with
  | case1 => rfl
  | case2 n =>
    by_cases hb : n < 0x10000
    · simp [units, hb]
    · simpa [mergePairs] using hastral n [] (h n mem_cons_self) hb
  | case3 n m s hpair ih =>
    rw [flatMap_cons, flatMap_cons, units, if_pos (by omega), units, if_pos (by omega)]
    simp only [cons_append, nil_append, mergePairs, if_pos hpair]
    rw [ih fun k hk => h k (mem_cons_of_mem _ (mem_cons_of_mem _ hk))]
  | case4 n m s hpair ih =>
    have ih' := ih fun k hk => h k (mem_cons_of_mem _ hk)
    have hm := h m (mem_cons_of_mem _ mem_cons_self)
    rw [flatMap_cons, mergePairs, if_neg hpair, ← ih']
    by_cases hb : n < 0x10000
    · -- a high surrogate stays alone: the unit after it is not low
      obtain ⟨k, t, hk, hlow⟩ : ∃ k t, (m :: s).flatMap units = k :: t ∧ (k = m ∨ k < 0xDC00) := by
        rw [flatMap_cons, units]
        split
        · exact ⟨m, _, rfl, .inl rfl⟩
        · exact ⟨_, _, rfl, .inr (by omega)⟩
      rw [hk, units, if_pos hb, cons_append, nil_append, mergePairs, if_neg (by omega)]
    · exact hastral n _ (h n mem_cons_self) hb

/-! ## Literals -/

/-- What `json.loads` raises. -/
inductive DecodeError where
  | jsonDecodeError
  | valueError
  | recursionError
deriving DecidableEq

def prependCode (n : Nat) : Except DecodeError (Codes × Text) → Except DecodeError (Codes × Text)
  | .ok (s, r) => .ok (n :: s, r)
  | .error e => .error e

def scanCodes : Text → Except DecodeError (Codes × Text)
  | [] => .error .jsonDecodeError
  | c :: cs =>
    if c = '"' then .ok ([], cs)
    else if c = '\\' then
      match cs with
      | 'u' :: x :: y :: z :: w :: r =>
        match hex4? x y z w with
        | none => .error .jsonDecodeError
        | some n =>
          if n < 0xD800 ∨ 0xE000 ≤ n then prependCode n (scanCodes r)
          else
            match r with
            | '\\' :: 'u' :: x' :: y' :: z' :: w' :: r' =>
              match surrogatePair? n (hex4? x' y' z' w') with
              | some c => prependCode c.toNat (scanCodes r')
              | none => prependCode n (scanCodes ('\\' :: 'u' :: x' :: y' :: z' :: w' :: r'))
            | r => prependCode n (scanCodes r)
      | e :: r =>
        match unescape? e with
        | some c => prependCode c.toNat (scanCodes r)
        | none => .error .jsonDecodeError
      | [] => .error .jsonDecodeError
    else if c.toNat < 0x20 then .error .jsonDecodeError
    else prependCode c.toNat (scanCodes cs)

inductive Piece where
  | raw (c : Char)
  | short (e c : Char)
  | unicode (x y z w : Char) (n : Nat)

variable {p : Piece}

namespace Piece

def text : Piece → Text
  | raw c => [c]
  | short e _ => ['\\', e]
  | unicode x y z w _ => ['\\', 'u', x, y, z, w]

def code : Piece → Nat
  | raw c => c.toNat
  | short _ c => c.toNat
  | unicode _ _ _ _ n => n

def Valid : Piece → Prop
  | raw c => c ≠ '"' ∧ c ≠ '\\' ∧ ¬ c.toNat < 0x20
  | short e c => unescape? e = some c
  | unicode x y z w n => hex4? x y z w = some n

theorem Valid.hex (hp : p.Valid) {t r : Text} {x y z w : Char}
    (h : p.text ++ t = '\\' :: 'u' :: x :: y :: z :: w :: r) : hex4? x y z w = some p.code := by
  cases p with
  | raw c => exact absurd (List.cons.inj h).1 hp.2.1
  | short e c =>
    cases h
    cases hp
  | unicode x' y' z' w' n =>
    cases h
    exact hp

theorem Valid.scanCodes (hp : p.Valid) {cs : Text}
    (h : ∀ x y z w r, cs = '\\' :: 'u' :: x :: y :: z :: w :: r → 0xD800 ≤ p.code →
      surrogatePair? p.code (hex4? x y z w) = none) :
    scanCodes (p.text ++ cs) = prependCode p.code (Json.scanCodes cs) := by
  cases p with
  | raw c =>
    rw [text, cons_append, Json.scanCodes.eq_def]
    simp only [if_neg hp.1, if_neg hp.2.1, if_neg hp.2.2]
    rfl
  | short e c =>
    have hu : e ≠ 'u' := by
      rintro rfl
      cases hp
    rw [text, cons_append, cons_append, Json.scanCodes.eq_def]
    simp only [if_neg (show ¬ '\\' = '"' by decide), if_true]
    split
    · rename_i heq
      exact absurd (List.cons.inj heq).1 hu
    · rename_i heq
      cases heq
      rw [show unescape? e = some c from hp]
      rfl
    · rename_i heq
      cases heq
  | unicode x y z w n =>
    simp only [text, cons_append, nil_append]
    rw [Json.scanCodes.eq_def]
    simp only [show hex4? x y z w = some n from hp]
    rw [if_neg (by decide), if_pos trivial]
    split
    · rfl
    rename_i hn
    split
    · rename_i x' y' z' w' r
      rw [show surrogatePair? n _ = none from h x' y' z' w' r rfl (by simp only [code]; omega)]
      rfl
    · rfl

theorem Valid.surrogate (hp : p.Valid) (h : 0xD800 ≤ p.code ∧ p.code < 0xE000) :
    ∃ x y z w, p.text = ['\\', 'u', x, y, z, w] ∧ hex4? x y z w = some p.code := by
  cases p with
  | raw c | short e c => have := not_surrogate c; simp only [code] at h; omega
  | unicode x y z w n => exact ⟨x, y, z, w, rfl, hp⟩

/-- A high surrogate and a low one are read as the character of the pair. -/
theorem Valid.pair {q : Piece} (hp : p.Valid) (hq : q.Valid) (h : 0xD800 ≤ p.code ∧ p.code < 0xDC00)
    (h' : 0xDC00 ≤ q.code ∧ q.code < 0xE000) (cs : Text) : Json.scanCodes (p.text ++ (q.text ++ cs)) =
      prependCode (0x10000 + (p.code - 0xD800) * 0x400 + (q.code - 0xDC00)) (Json.scanCodes cs) := by
  obtain ⟨x, y, z, w, hpt, hpn⟩ := hp.surrogate (by omega)
  obtain ⟨x', y', z', w', hqt, hqn⟩ := hq.surrogate (by omega)
  rw [hpt, hqt]
  simp only [cons_append, nil_append]
  rw [Json.scanCodes.eq_def]
  simp only [hpn, hqn]
  rw [if_neg (by decide), if_pos trivial, if_neg (by omega), surrogatePair?, if_pos ⟨h.2, h'⟩]
  simp only [toNat_ofNat (show 0x10000 + (p.code - 0xD800) * 0x400 + (q.code - 0xDC00) < 0xD800 ∨
    0xE000 ≤ 0x10000 + (p.code - 0xD800) * 0x400 + (q.code - 0xDC00) ∧
      0x10000 + (p.code - 0xD800) * 0x400 + (q.code - 0xDC00) < 0x110000 by omega)]

end Piece

def Spells (t : Text) (s : Codes) : Prop :=
  ∃ ps : List Piece, (∀ p ∈ ps, p.Valid) ∧ ps.flatMap Piece.text = t ∧ ps.map Piece.code = s

/-- A literal is read as its codes, with the pairs put together. -/
theorem Spells.scanCodes {t : Text} {s : Codes} (h : Spells t s) (rest : Text) :
    scanCodes (t ++ '"' :: rest) = .ok (mergePairs s, rest) := by
  obtain ⟨ps, hps, rfl, rfl⟩ := h
  have hend : Json.scanCodes ('"' :: rest) = .ok ([], rest) := by
    rw [Json.scanCodes.eq_def]
    simp
  generalize hs : ps.map Piece.code = s
  induction s using mergePairs.induct generalizing ps with
  | case1 => rw [map_eq_nil_iff.1 hs]; exact hend
  | case2 n =>
    obtain ⟨p, ps, rfl, rfl, hs'⟩ := map_eq_cons_iff.1 hs
    rw [map_eq_nil_iff.1 hs', flatMap_cons, flatMap_nil, append_nil,
      (hps p mem_cons_self).scanCodes (fun _ _ _ _ _ h => by cases h), hend]
    rfl
  | case3 n m s hpair ih =>
    obtain ⟨p, qs, rfl, rfl, hqs⟩ := map_eq_cons_iff.1 hs
    obtain ⟨q, ps, rfl, rfl, hs'⟩ := map_eq_cons_iff.1 hqs
    rw [forall_mem_cons, forall_mem_cons] at hps
    rw [flatMap_cons, flatMap_cons, append_assoc, append_assoc,
      hps.1.pair hps.2.1 ⟨hpair.1, hpair.2.1⟩ hpair.2.2, ih ps hps.2.2 hs', mergePairs, if_pos hpair, prependCode]
  | case4 n m s hpair ih =>
    obtain ⟨p, qs, rfl, rfl, hqs⟩ := map_eq_cons_iff.1 hs
    rw [forall_mem_cons] at hps
    rw [flatMap_cons, append_assoc, hps.1.scanCodes, ih qs hps.2 hqs, mergePairs, if_neg hpair, prependCode]
    intro x y z w r h hp
    obtain ⟨q, ps, rfl, rfl, -⟩ := map_eq_cons_iff.1 hqs
    rw [flatMap_cons, append_assoc] at h
    rw [(hps.2 q mem_cons_self).hex h, surrogatePair?, if_neg fun hn => hpair ⟨hp, hn⟩]

theorem Spells.append {t t' : Text} {s s' : Codes} (h : Spells t s) (h' : Spells t' s') :
    Spells (t ++ t') (s ++ s') := by
  obtain ⟨ps, hps, rfl, rfl⟩ := h
  obtain ⟨ps', hps', rfl, rfl⟩ := h'
  exact ⟨ps ++ ps', forall_mem_append.2 ⟨hps, hps'⟩, flatMap_append, map_append⟩

theorem Spells.flatMap {α : Type} {f : α → Text} {g : α → Codes} : ∀ {xs : List α},
    (∀ x ∈ xs, Spells (f x) (g x)) → Spells (xs.flatMap f) (xs.flatMap g) := by
  intro xs h
  induction xs with
  | nil => exact ⟨[], by simp, rfl, rfl⟩
  | cons x xs ih =>
    rw [forall_mem_cons] at h
    exact h.1.append (ih h.2)

theorem Spells.piece (h : p.Valid) : Spells p.text [p.code] :=
  ⟨[p], by simpa using h, by simp, rfl⟩

/-! ## Escapes -/

theorem hexValue?_hexDigit : ∀ n < 16, hexValue? (hexDigit n) = some n := by decide

/-- `\uXXXX`. -/
def unicodeEscape (n : Nat) : Text :=
  ['\\', 'u', hexDigit (n / 4096), hexDigit (n / 256 % 16), hexDigit (n / 16 % 16), hexDigit (n % 16)]

theorem spells_unicodeEscape (h : n < 0x10000) : Spells (unicodeEscape n) [n] := by
  refine Spells.piece (p := .unicode _ _ _ _ n) ?_
  have h1 := hexValue?_hexDigit (n / 4096) (by omega)
  have h2 := hexValue?_hexDigit (n / 256 % 16) (by omega)
  have h3 := hexValue?_hexDigit (n / 16 % 16) (by omega)
  have h4 := hexValue?_hexDigit (n % 16) (by omega)
  simp only [Piece.Valid, hex4?, h1, h2, h3, h4, Option.bind_eq_bind, Option.bind_some, Option.pure_def,
    Option.some.injEq]
  omega

theorem unicodeEscape_control (h : n < 0x20) :
    unicodeEscape n = ['\\', 'u', '0', '0', hexDigit (n / 16), hexDigit (n % 16)] := by
  rw [unicodeEscape, show n / 4096 = 0 by omega, show n / 256 % 16 = 0 by omega, Nat.mod_eq_of_lt
    (by omega : n / 16 < 16)]
  rfl

theorem spells_escapeChar (c : Char) : Spells (escapeChar c) [c.toNat] := by
  unfold escapeChar
  split
  · subst c; exact .piece (p := .short '"' '"') rfl
  split
  · subst c; exact .piece (p := .short '\\' '\\') rfl
  split
  · subst c; exact .piece (p := .short 'n' '\n') rfl
  split
  · subst c; exact .piece (p := .short 'r' '\r') rfl
  split
  · subst c; exact .piece (p := .short 't' '\t') rfl
  split
  · subst c; exact .piece (p := .short 'b' '\x08') rfl
  split
  · subst c; exact .piece (p := .short 'f' '\x0c') rfl
  split
  · rename_i h
    rw [← unicodeEscape_control h]
    exact spells_unicodeEscape (by omega)
  · rename_i hq hb _ _ _ _ _ hlow
    exact .piece (p := .raw c) ⟨hq, hb, hlow⟩

/-! ## Strings without surrogates -/

theorem prepend_of_prependCode {x : Except DecodeError (Codes × Text)} {y : Except String (Text × Text)}
    {s r : Text} (h : prependCode n x = .ok (codes s, r)) (ih : ∀ {s r}, x = .ok (codes s, r) → y = .ok (s, r)) :
    prepend (Char.ofNat n) y = .ok (s, r) := by
  cases x with
  | error => cases h
  | ok p =>
    cases s with
    | nil => cases h
    | cons c s =>
      simp only [prependCode, Except.ok.injEq, Prod.mk.injEq, codes, map_cons, List.cons.injEq] at h
      obtain ⟨⟨rfl, hs⟩, rfl⟩ := h
      rw [Char.ofNat_toNat, ih (s := s) (r := p.2) (by rw [codes, ← hs])]
      rfl

theorem prependCode_surrogate (hn : ¬ (n < 0xD800 ∨ 0xE000 ≤ n)) {x : Except DecodeError (Codes × Text)}
    {s r : Text} : prependCode n x ≠ .ok (codes s, r) := by
  intro h
  cases x with
  | error => cases h
  | ok p =>
    have hmem : n ∈ codes s := by
      rw [← show n :: p.1 = codes s from congrArg Prod.fst (Except.ok.inj h)]
      exact mem_cons_self
    obtain ⟨c, -, rfl⟩ := mem_map.1 hmem
    have := not_surrogate c
    omega

/-- A string of characters is read by both scanners. -/
theorem scanString_of_scanCodes {cs s r : Text} (h : scanCodes cs = .ok (codes s, r)) : scanString cs = .ok (s, r) := by
  fun_induction scanString cs generalizing s r with
    (rw [scanCodes.eq_def] at h; simp only [*, if_true, if_false] at h)
  | case1 | case3 | case9 | case10 | case11 => cases h
  | case2 =>
    obtain ⟨hs, rfl⟩ := Prod.mk.inj (Except.ok.inj h)
    rw [map_eq_nil_iff.1 hs.symm]
  | case4 _ _ _ _ _ _ _ _ _ ih => exact prepend_of_prependCode h ih
  | case5 _ _ _ _ _ _ _ _ _ _ _ _ _ _ _ ih | case8 _ _ _ _ _ _ ih | case12 _ _ _ _ _ ih =>
    simpa using prepend_of_prependCode h ih
  | case6 _ _ _ _ _ _ hn | case7 _ _ _ _ _ _ _ hn => exact (prependCode_surrogate hn h).elim

end Portmark.Lib.Json
