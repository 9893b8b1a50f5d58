/-
`repr` of a float: the shortest decimal that reads back as the float, laid out with a point or, for
large and small numbers, with an exponent. Whatever decimal is laid out is read as the double
nearest to it, so the text of a double reads back.
-/
import Portmark.Lib.Json.Ascii
import Portmark.Lib.Json.Shape

namespace Portmark.Lib.Json

open List Option

/-! ## The text of a float -/

def exponentText (x : Int) : Text :=
  let ds := Nat.toDigits 10 x.natAbs
  'e' :: (if x < 0 then '-' else '+') :: (if ds.length < 2 then '0' :: ds else ds)

/-- The text of `m * 10 ^ e`, where `point` is the place of the decimal point among the digits. -/
def layout (m : Nat) (e : Int) : Text :=
  let ds := Nat.toDigits 10 m
  let point := ds.length + e
  if point ≤ -4 ∨ 16 < point then
    ds.take 1 ++ (if ds.length = 1 then [] else '.' :: ds.drop 1) ++ exponentText (point - 1)
  else if point ≤ 0 then '0' :: '.' :: (List.replicate (-point).toNat '0' ++ ds)
  else if ds.length ≤ point then ds ++ List.replicate (point - ds.length).toNat '0' ++ ['.', '0']
  else ds.take point.toNat ++ '.' :: ds.drop point.toNat

/-- The decimal of `n` digits nearest to a positive number. -/
def nearestDecimal (n : Nat) (q : ℚ) : Nat × Int :=
  let e := Int.log 10 q + 1 - n
  ((roundHalfEven (q / 10 ^ e)).toNat, e)

def exactDecimal (q : ℚ) : Nat × Int :=
  let e := max (Int.log 2 |q| - 52) (-1074)
  let n := (roundHalfEven (q / 2 ^ e)).natAbs
  if 0 ≤ e then (n * 2 ^ e.toNat, 0) else (n * 5 ^ (-e).toNat, e)

def decimalValue (negative : Bool) (m : Nat) (e : Int) : ℚ :=
  if negative then -(m * 10 ^ e) else m * 10 ^ e

def shortestDecimal (q : ℚ) : Nat × Int :=
  (((List.range 17).map fun i => nearestDecimal (i + 1) |q|).find? fun d =>
    decide (toDouble (decimalValue (decide (q < 0)) d.1 d.2) = .finite q)).getD (exactDecimal q)

/-- `float.__repr__` of a finite float. -/
def floatRepr (q : ℚ) : Text :=
  if q = 0 then ['0', '.', '0']
  else
    let d := shortestDecimal q
    (if q < 0 then ['-'] else []) ++ layout d.1 d.2

/-! ## The decimal reads back -/

theorem decimalValue_mul (negative : Bool) (m k : Nat) (e : Int) :
    decimalValue negative (m * k) e = decimalValue negative m 0 * (k * 10 ^ e) := by
  unfold decimalValue
  split
  · push_cast; ring
  · push_cast; ring

/-- Zeros appended to the digits, and taken back by the exponent. -/
theorem decimalValue_shift (negative : Bool) (m : Nat) {e : Int} (he : 0 ≤ e) :
    decimalValue negative (m * 10 ^ (e.toNat + 1)) (-1) = decimalValue negative m e := by
  have hscale : ((10 ^ (e.toNat + 1) : Nat) : ℚ) * 10 ^ (-1 : Int) = 10 ^ e := by
    rw [Nat.cast_pow, pow_succ, ← zpow_natCast, Int.toNat_of_nonneg he, Nat.cast_ofNat, zpow_neg_one, mul_assoc,
      mul_inv_cancel₀ (by norm_num), mul_one]
  have hone := decimalValue_mul negative m 1 e
  rw [mul_one, Nat.cast_one, one_mul] at hone
  rw [decimalValue_mul, hscale, hone]

theorem exactDecimal_value {q : ℚ} (h : toDouble q = .finite q) :
    decimalValue (decide (q < 0)) (exactDecimal q).1 (exactDecimal q).2 = q := by
  have hr : roundHalfEven (q / 2 ^ max (Int.log 2 |q| - 52) (-1074)) * (2 : ℚ) ^ max (Int.log 2 |q| - 52) (-1074) =
    q := by
    unfold toDouble at h
    simp only at h
    split at h
    · cases h
    · split at h
      · cases h
      · injection h
  simp only [exactDecimal]
  generalize max (Int.log 2 |q| - 52) (-1074) = e at hr ⊢
  generalize roundHalfEven (q / 2 ^ e) = n at hr ⊢
  -- the sign of `q` is that of the integer it is a multiple of a power of two by
  have hpos : (0 : ℚ) < 2 ^ e := zpow_pos (by norm_num) e
  have hsign : decide (q < 0) = decide (n < 0) := by
    rw [decide_eq_decide, ← hr]
    constructor
    · intro hneg
      by_contra hn
      exact absurd (mul_nonneg (Int.cast_nonneg (not_lt.1 hn)) hpos.le) (not_le.2 hneg)
    · intro hn
      exact mul_neg_of_neg_of_pos (Int.cast_lt_zero.2 hn) hpos
  have habs : decimalValue (decide (q < 0)) n.natAbs 0 = n := by
    rw [hsign]
    unfold decimalValue
    by_cases hn : n < 0
    · simp [hn, abs_of_neg hn]
    · simp [hn, abs_of_nonneg (not_lt.1 hn)]
  have hscale : ∀ (k : Nat) (x : Int), (k : ℚ) * 10 ^ x = 2 ^ e →
      decimalValue (decide (q < 0)) (n.natAbs * k) x = q := by
    intro k x hk
    rw [decimalValue_mul, habs, hk, hr]
  split
  · rename_i he
    refine hscale (2 ^ e.toNat) 0 ?_
    rw [zpow_zero, mul_one, Nat.cast_pow, ← zpow_natCast, Int.toNat_of_nonneg he]
    rfl
  · rename_i he
    refine hscale (5 ^ (-e).toNat) e ?_
    rw [Nat.cast_pow, ← zpow_natCast, Int.toNat_of_nonneg (by omega), zpow_neg,
      show (10 : ℚ) = 2 * 5 by norm_num, mul_zpow]
    push_cast
    field_simp

theorem shortestDecimal_value {q : ℚ} (h : toDouble q = .finite q) :
    toDouble (decimalValue (decide (q < 0)) (shortestDecimal q).1 (shortestDecimal q).2) = .finite q := by
  unfold shortestDecimal
  cases hf : ((range 17).map fun i => nearestDecimal (i + 1) |q|).find? fun d =>
      decide (toDouble (decimalValue (decide (q < 0)) d.1 d.2) = .finite q) with
  | none =>
    rw [getD_none, exactDecimal_value h]
    exact h
  | some d =>
    have := find?_some hf
    simpa using this

/-! ## The text reads back -/

/-- Digits that `scanWhole` takes: a zero, or digits without a leading zero. -/
def Whole (ds : Text) : Prop := ds = ['0'] ∨ (∀ c ∈ ds, c.isDigit = true) ∧ ∃ c cs, ds = c :: cs ∧ c ≠ '0'

theorem whole_toDigits (m : Nat) : Whole (Nat.toDigits 10 m) := by
  rcases Nat.eq_zero_or_pos m with rfl | hm
  · exact .inl rfl
  · obtain ⟨c, cs, he, hc, -⟩ := toDigits_head hm
    exact .inr ⟨isDigit_toDigits m, c, cs, he, hc⟩

theorem whole_append {ds zeros : Text} (hd : ∀ c ∈ ds, c.isDigit = true) (hz : ∀ c ∈ zeros, c.isDigit = true)
    (hc : ∃ c cs, ds = c :: cs ∧ c ≠ '0') : Whole (ds ++ zeros) := by
  obtain ⟨c, cs, rfl, hc⟩ := hc
  refine .inr ⟨?_, c, cs ++ zeros, rfl, hc⟩
  intro d hd'
  rcases mem_append.1 hd' with h | h
  · exact hd d h
  · exact hz d h

theorem whole_take {ds : Text} {k : Nat} (hd : ∀ c ∈ ds, c.isDigit = true) (hc : ∃ c cs, ds = c :: cs ∧ c ≠ '0')
    (hk : 0 < k) : Whole (ds.take k) := by
  obtain ⟨c, cs, rfl, hc⟩ := hc
  obtain ⟨k, rfl⟩ : ∃ n, k = n + 1 := ⟨k - 1, by omega⟩
  exact .inr ⟨fun d h => hd d (mem_of_mem_take h), c, cs.take k, rfl, hc⟩

variable {rest : Text}

theorem scanWhole_append {ds : Text} (hw : Whole ds) (hr : ∀ c r, rest = c :: r → c.isDigit = false) :
    scanWhole (ds ++ rest) = some (ds, rest) := by
  rcases hw with rfl | ⟨hd, c, cs, rfl, hc⟩
  · rfl
  have htake := digits_append hd hr
  unfold scanWhole
  split
  · rename_i heq
    exact absurd (List.cons.inj heq).1 hc
  · rename_i heq
    cases heq
    rw [if_pos (hd c (mem_cons_self ..)), htake.1, htake.2]
  · rename_i heq
    cases heq

theorem scanFraction_append {ds : Text} (hd : ∀ c ∈ ds, c.isDigit = true) (hne : ds ≠ [])
    (hr : ∀ c r, rest = c :: r → c.isDigit = false) : scanFraction ('.' :: (ds ++ rest)) = some (ds, rest) := by
  obtain ⟨htake, hdrop⟩ := digits_append hd hr
  simp only [scanFraction, htake, hdrop]

theorem exponentText_digits (x : Int) : ∃ ds, exponentText x = 'e' :: (if x < 0 then '-' else '+') :: ds ∧
    (∀ c ∈ ds, c.isDigit = true) ∧ ds ≠ [] ∧ Nat.ofDigitChars 10 ds 0 = x.natAbs := by
  refine ⟨_, rfl, ?_⟩
  by_cases hlen : (Nat.toDigits 10 x.natAbs).length < 2
  · rw [if_pos hlen]
    refine ⟨?_, by simp, ?_⟩
    · intro c hc
      rcases mem_cons.1 hc with rfl | hc
      · decide
      · exact isDigit_toDigits _ c hc
    · rw [Nat.ofDigitChars_cons]
      exact Nat.ofDigitChars_ten_toDigits
  · rw [if_neg hlen]
    exact ⟨isDigit_toDigits _, Nat.toDigits_ne_nil, Nat.ofDigitChars_ten_toDigits⟩

theorem scanFraction_other {c : Char} (h : c ≠ '.') (cs : Text) : scanFraction (c :: cs) = none := by
  unfold scanFraction
  split
  · rename_i heq
    exact absurd (List.cons.inj heq).1 h
  · rfl

def exponentSign : Text → Int
  | '-' :: _ => -1
  | _ => 1

def unsignedExponent : Text → Text
  | '-' :: r => r
  | '+' :: r => r
  | r => r

theorem scanExponent_cons (c : Char) (cs : Text) : scanExponent (c :: cs) =
    if c = 'e' ∨ c = 'E' then
      match (unsignedExponent cs).takeWhile Char.isDigit with
      | [] => none
      | ds => some (exponentSign cs * Nat.ofDigitChars 10 ds 0, (unsignedExponent cs).dropWhile Char.isDigit)
    else none := rfl

theorem scanExponent_exponentText (x : Int) (hr : NoNumber rest) :
    scanExponent (exponentText x ++ rest) = some (x, rest) := by
  obtain ⟨ds, hds, hd, hne, hvalue⟩ := exponentText_digits x
  obtain ⟨htake, hdrop⟩ := digits_append hd fun c r h => (hr c r h).1
  rw [hds, cons_append, scanExponent_cons, if_pos (.inl rfl)]
  by_cases hx : x < 0
  · rw [if_pos hx, cons_append]
    simp only [unsignedExponent, exponentSign, htake, hdrop, hvalue]
    rw [show (-1 : Int) * x.natAbs = x by omega]
  · rw [if_neg hx, cons_append]
    simp only [unsignedExponent, htake, hdrop, hvalue]
    show some ((1 : Int) * x.natAbs, rest) = _
    rw [show (1 : Int) * x.natAbs = x by omega]

section Scan

variable {hooks : Hooks}

def Hooks.ReadsFloats (hooks : Hooks) : Prop :=
  ∀ t q, toDouble t.value = .finite q → hooks.literals.float t = .ok (.float (.finite q))

theorem plainHooks_readsFloats : plainHooks.ReadsFloats := by
  intro t q h
  simp [plainHooks, Hooks.literals, h]

theorem FloatToken.value_eq (source : Text) (negative : Bool) (whole fraction : Text) (x : Int) :
    (FloatToken.mk source negative whole fraction x).value =
      decimalValue negative (Nat.ofDigitChars 10 (whole ++ fraction) 0) (x - fraction.length) := rfl

variable (hooks)

variable {negative : Bool} {q : ℚ} {whole fraction tail : Text} {x : Int}

theorem unsigned_point (hh : hooks.ReadsFloats) (hw : Whole whole) (hd : ∀ c ∈ fraction, c.isDigit = true)
    (hne : fraction ≠ []) (ht : ∀ c r, tail = c :: r → c.isDigit = false)
    (hx : (scanExponent tail).getD (0, tail) = (x, rest))
    (hv : toDouble (decimalValue negative (Nat.ofDigitChars 10 (whole ++ fraction) 0) (x - fraction.length)) =
    .finite q) :
    hooks.literals.unsigned negative (whole ++ '.' :: (fraction ++ tail)) = .ok (.float (.finite q), rest) := by
  unfold Literals.unsigned
  rw [scanWhole_append hw (by rintro c r ⟨⟩; decide)]
  simp only
  rw [scanFraction_append hd hne ht]
  cases hexponent : scanExponent tail with
  | none | some =>
    rw [hexponent] at hx
    cases hx
    simp only [elim_some, elim_none, hexponent]
    rw [hh _ q (by rw [FloatToken.value_eq]; exact hv)]
    rfl

theorem unsigned_exponent (hh : hooks.ReadsFloats) (hw : Whole whole) (hr : NoNumber rest)
    (hv : toDouble (decimalValue negative (Nat.ofDigitChars 10 whole 0) x) = .finite q) :
    hooks.literals.unsigned negative (whole ++ (exponentText x ++ rest)) = .ok (.float (.finite q), rest) := by
  have hnone : scanFraction (exponentText x ++ rest) = none := scanFraction_other (by decide) _
  unfold Literals.unsigned
  rw [scanWhole_append hw (by rintro c r ⟨⟩; decide)]
  simp only [hnone, elim_none, scanExponent_exponentText x hr, elim_some]
  rw [hh _ q (by rw [FloatToken.value_eq]; simpa using hv)]
  rfl

variable {m : Nat} {e : Int}

/-- A laid out decimal is read as the double nearest to it. -/
theorem unsigned_layout (hh : hooks.ReadsFloats) (hm : m ≠ 0)
    (hv : toDouble (decimalValue negative m e) = .finite q) (hr : NoNumber rest) :
    hooks.literals.unsigned negative (layout m e ++ rest) = .ok (.float (.finite q), rest) := by
  have hdigits := isDigit_toDigits m
  have hvalue : Nat.ofDigitChars 10 (Nat.toDigits 10 m) 0 = m := Nat.ofDigitChars_ten_toDigits
  have hpos : 0 < (Nat.toDigits 10 m).length := length_pos_of_ne_nil Nat.toDigits_ne_nil
  have hhead : ∃ c cs, Nat.toDigits 10 m = c :: cs ∧ c ≠ '0' := by
    obtain ⟨c, cs, he, hc, -⟩ := toDigits_head (Nat.pos_of_ne_zero hm)
    exact ⟨c, cs, he, hc⟩
  have hwhole := whole_toDigits m
  unfold layout
  generalize Nat.toDigits 10 m = ds at hdigits hvalue hpos hhead hwhole ⊢
  have hnoDigit : ∀ c r, rest = c :: r → c.isDigit = false := fun c r h => (hr c r h).1
  have hnone : (scanExponent rest).getD (0, rest) = (0, rest) := by rw [scanExponent_none hr]; rfl
  -- the digits after the point, and where the exponent puts it
  have hdrop : ∀ k, k < ds.length → (∀ c ∈ ds.drop k, c.isDigit = true) ∧ ds.drop k ≠ [] := by
    intro k hk
    refine ⟨fun c hc => hdigits c (mem_of_mem_drop hc), ?_⟩
    rw [Ne, drop_eq_nil_iff]
    omega
  have hzeros : ∀ n, ∀ c ∈ replicate n '0', c.isDigit = true := by
    intro n c hc
    rw [eq_of_mem_replicate hc]; decide
  by_cases hexp : (ds.length : Int) + e ≤ -4 ∨ 16 < (ds.length : Int) + e
  · rw [if_pos hexp]
    by_cases hone : ds.length = 1
    · rw [if_pos hone, append_nil, take_of_length_le (by omega), append_assoc]
      refine unsigned_exponent hooks hh hwhole hr ?_
      rw [hvalue, hone, show ((1 : Nat) : Int) + e - 1 = e by omega]
      exact hv
    · obtain ⟨hd, hne⟩ := hdrop 1 (by omega)
      rw [if_neg hone, append_assoc, append_assoc, cons_append]
      refine unsigned_point hooks hh (whole_take hdigits hhead Nat.one_pos) hd hne (by rintro c r ⟨⟩; decide)
        (by rw [scanExponent_exponentText _ hr]; rfl) ?_
      rw [take_append_drop, hvalue, length_drop, Nat.cast_sub (by omega),
        show (ds.length : Int) + e - 1 - (ds.length - (1 : Nat)) = e by omega]
      exact hv
  · rw [if_neg hexp]
    by_cases hsmall : (ds.length : Int) + e ≤ 0
    · rw [if_pos hsmall]
      refine unsigned_point hooks hh (.inl rfl : Whole ['0']) (forall_mem_append.2 ⟨hzeros _, hdigits⟩) ?_
        hnoDigit hnone ?_
      · exact append_ne_nil_of_right_ne_nil _ (length_pos_iff.1 hpos)
      · rw [Nat.ofDigitChars_append, Nat.ofDigitChars_append, Nat.ofDigitChars_replicate_zero, length_append,
          length_replicate, Nat.cast_add, Int.toNat_of_nonneg (by omega),
          show (0 : Int) - (-(ds.length + e) + ds.length) = e by omega]
        exact hvalue.symm ▸ hv
    · rw [if_neg hsmall]
      by_cases hlarge : (ds.length : Int) ≤ ds.length + e
      · rw [if_pos hlarge, show (ds.length : Int) + e - ds.length = e by omega, append_assoc]
        refine unsigned_point hooks hh (whole_append hdigits (hzeros _) hhead)
          (by simp : ∀ c ∈ ['0'], c.isDigit = true) (by simp) hnoDigit hnone ?_
        have hvalue' : Nat.ofDigitChars 10 (ds ++ replicate e.toNat '0' ++ ['0']) 0 = m * 10 ^ (e.toNat + 1) := by
          rw [Nat.ofDigitChars_append, Nat.ofDigitChars_append, hvalue, Nat.ofDigitChars_replicate_zero,
            Nat.ofDigitChars_cons, Nat.ofDigitChars_nil, Nat.sub_self, pow_succ]
          ring
        rw [hvalue']
        exact (congrArg toDouble (decimalValue_shift negative m (by omega))).trans hv
      · rw [if_neg hlarge, append_assoc, cons_append]
        generalize hk : ((ds.length : Int) + e).toNat = k
        obtain ⟨hd, hne⟩ := hdrop k (by omega)
        refine unsigned_point hooks hh (whole_take hdigits hhead (by omega)) hd hne hnoDigit hnone ?_
        rw [take_append_drop, hvalue, length_drop, Nat.cast_sub (by omega), ← hk,
          Int.toNat_of_nonneg (by omega), show (0 : Int) - (ds.length - (ds.length + e)) = e by omega]
        exact hv

theorem layout_head (m : Nat) (e : Int) : ∃ c cs, layout m e = c :: cs ∧ c.isDigit = true := by
  obtain ⟨c, cs, hds⟩ : ∃ c cs, Nat.toDigits 10 m = c :: cs := exists_cons_of_ne_nil Nat.toDigits_ne_nil
  have hc : c.isDigit = true := isDigit_toDigits m c (by rw [hds]; exact mem_cons_self ..)
  unfold layout
  simp only [hds]
  split
  · exact ⟨c, _, rfl, hc⟩
  split
  · exact ⟨'0', _, rfl, by decide⟩
  split
  · exact ⟨c, _, rfl, hc⟩
  rename_i h _
  obtain ⟨k, hk⟩ : ∃ k, (((c :: cs).length : Int) + e).toNat = k + 1 :=
    ⟨(((c :: cs).length : Int) + e).toNat - 1, by omega⟩
  rw [hk]
  exact ⟨c, _, rfl, hc⟩

omit hooks in
theorem toDouble_zero : toDouble 0 = .finite 0 := by
  have hr : roundHalfEven 0 = 0 := by simp [roundHalfEven]
  unfold toDouble
  simp only [zero_div, hr, Int.cast_zero, zero_mul]
  rw [if_neg (by norm_num), if_neg (by norm_num)]

theorem floatReads_floatRepr (hh : hooks.ReadsFloats) (hq : toDouble q = .finite q) : FloatReads hooks floatRepr q := by
  by_cases h0 : q = 0
  · subst h0
    have htext : floatRepr 0 = ['0', '.', '0'] := if_pos rfl
    refine ⟨⟨'0', ['.', '0'], htext, .inr (by decide)⟩, fun rest hr => ?_⟩
    have hscan : hooks.literals.unsigned false (['0'] ++ '.' :: (['0'] ++ rest)) = .ok (.float (.finite 0), rest) := by
      refine unsigned_point hooks hh (.inl rfl) (by simp) (by simp) (fun c r h => (hr c r h).1)
        (by rw [scanExponent_none hr]; rfl) ?_
      simpa [decimalValue, Nat.ofDigitChars_cons] using toDouble_zero
    exact (atom_digit hooks.literals (by decide) _).trans hscan
  · have hv := shortestDecimal_value hq
    have hm : (shortestDecimal q).1 ≠ 0 := by
      intro hm
      rw [hm] at hv
      have hzero : decimalValue (decide (q < 0)) 0 (shortestDecimal q).2 = 0 := by
        unfold decimalValue
        split <;> simp
      rw [hzero, toDouble_zero] at hv
      injection hv with hv
      exact h0 hv.symm
    obtain ⟨c, cs, hhead, hc⟩ := layout_head (shortestDecimal q).1 (shortestDecimal q).2
    have hread : ∀ rest, NoNumber rest → _ := fun rest hr => unsigned_layout hooks hh hm hv hr
    by_cases hneg : q < 0
    · have htext : floatRepr q = '-' :: layout (shortestDecimal q).1 (shortestDecimal q).2 := by
        unfold floatRepr
        rw [if_neg h0, if_pos hneg]
        rfl
      refine ⟨⟨'-', _, htext, .inl rfl⟩, fun rest hr => ?_⟩
      have := hread rest hr
      rw [hhead, decide_eq_true hneg] at this
      rw [htext, hhead, cons_append, cons_append, atom_minus hooks.literals hc]
      exact this
    · have htext : floatRepr q = layout (shortestDecimal q).1 (shortestDecimal q).2 := by
        unfold floatRepr
        rw [if_neg h0, if_neg hneg]
        rfl
      refine ⟨⟨c, cs, htext.trans hhead, .inr hc⟩, fun rest hr => ?_⟩
      have := hread rest hr
      rw [hhead, decide_eq_false hneg] at this
      rw [htext, hhead, cons_append, atom_digit hooks.literals hc]
      exact this

end Scan

/-! ## The text is ASCII -/

theorem ascii_exponentText (x : Int) : ∀ c ∈ exponentText x, c.toNat ≤ 0x7e := by
  have hdigits := ascii_toDigits x.natAbs
  unfold exponentText
  simp only [forall_mem_cons]
  refine ⟨by decide, by split <;> decide, ?_⟩
  split
  · rw [forall_mem_cons]
    exact ⟨by decide, hdigits⟩
  · exact hdigits

theorem ascii_layout (m : Nat) (e : Int) : ∀ c ∈ layout m e, c.toNat ≤ 0x7e := by
  have hdigits := ascii_toDigits m
  have htake : ∀ k, ∀ c ∈ (Nat.toDigits 10 m).take k, c.toNat ≤ 0x7e := fun k c hc => hdigits c (mem_of_mem_take hc)
  have hdrop : ∀ k, ∀ c ∈ (Nat.toDigits 10 m).drop k, c.toNat ≤ 0x7e := fun k c hc => hdigits c (mem_of_mem_drop hc)
  have hzeros : ∀ k, ∀ c ∈ replicate k '0', c.toNat ≤ 0x7e := by
    intro k c hc
    rw [eq_of_mem_replicate hc]
    decide
  unfold layout
  simp only
  split
  · simp only [forall_mem_append]
    refine ⟨⟨htake 1, ?_⟩, ascii_exponentText _⟩
    split
    · simp
    · rw [forall_mem_cons]
      exact ⟨by decide, hdrop 1⟩
  · split
    · simp only [forall_mem_cons, forall_mem_append]
      exact ⟨by decide, by decide, hzeros _, hdigits⟩
    split
    · simp only [forall_mem_append, forall_mem_cons]
      exact ⟨⟨hdigits, hzeros _⟩, by decide, by decide, by simp⟩
    · simp only [forall_mem_append, forall_mem_cons]
      exact ⟨htake _, by decide, hdrop _⟩

theorem ascii_floatRepr (q : ℚ) : ∀ c ∈ floatRepr q, c.toNat ≤ 0x7e := by
  unfold floatRepr
  split
  · rw [forall_mem_cons, forall_mem_cons, forall_mem_singleton]
    exact ⟨by decide, by decide, by decide⟩
  simp only [forall_mem_append]
  refine ⟨?_, ascii_layout _ _⟩
  split
  · rw [forall_mem_singleton]
    decide
  · simp

def IsDouble (x : PyFloat) : Prop := ∃ q, x = .finite q ∧ toDouble q = .finite q

theorem IsDouble.reads {x : PyFloat} (h : IsDouble x) : Reads plainHooks floatRepr x := by
  obtain ⟨q, rfl, hq⟩ := h
  exact ⟨q, rfl, floatReads_floatRepr plainHooks plainHooks_readsFloats hq⟩

theorem ensureAscii_floatRepr : (fun q => ensureAscii (floatRepr q)) = floatRepr :=
  funext fun q => ensureAscii_same (ascii_floatRepr q)

/-- What is stored of a value whose floats are doubles is read back in normal form. -/
theorem loads_asciiDumps {v : Value} (h : Plain IsDouble true v) :
    loads (asciiDumps floatRepr v) = .ok (sortKeys v) := by
  apply loadsWith_asciiDumps plainHooks floatRepr
  rw [ensureAscii_floatRepr]
  exact plain_mono (fun _ hx => hx.reads) id v h

end Portmark.Lib.Json
