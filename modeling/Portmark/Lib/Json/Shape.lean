/-
What the parser builds: a parsed value repeats no key, holds no tuple, and its integers have no
more digits than `int` reads, so that it can be printed and parsed again. Stricter hooks parse less,
and otherwise the same.
-/
import Portmark.Lib.Json.Order

namespace Portmark.Lib.Json

open List

/-! ## Integers -/

theorem ofDigitChars_lt : ∀ (ds : Text) (init : Nat), (∀ c ∈ ds, c.isDigit = true) →
    Nat.ofDigitChars 10 ds init < (init + 1) * 10 ^ ds.length
  | [], init, _ => by simp
  | c :: ds, init, h => by
    have hc := Char.isDigit_iff_toNat.1 (h c (mem_cons_self ..))
    have hd : c.toNat - '0'.toNat ≤ 9 := by
      have : c.toNat ≤ 57 := hc.2
      have h0 : '0'.toNat = 48 := rfl
      omega
    have ih := ofDigitChars_lt ds (10 * init + (c.toNat - '0'.toNat)) fun x hx => h x (mem_cons_of_mem _ hx)
    rw [Nat.ofDigitChars_cons, length_cons, Nat.pow_succ']
    calc Nat.ofDigitChars 10 ds (10 * init + (c.toNat - '0'.toNat))
        < (10 * init + (c.toNat - '0'.toNat) + 1) * 10 ^ ds.length := ih
      _ ≤ (10 * init + 10) * 10 ^ ds.length := Nat.mul_le_mul_right _ (by omega)
      _ = (init + 1) * (10 * 10 ^ ds.length) := by ring

theorem scanWhole_digits {cs whole r : Text} (h : scanWhole cs = some (whole, r)) : ∀ c ∈ whole, c.isDigit = true := by
  unfold scanWhole at h
  split at h
  · cases h
    intro c hc
    rw [mem_singleton.1 hc]
    decide
  · split at h
    · cases h
      intro c hc
      exact all_eq_true.1 all_takeWhile c hc
    · cases h
  · cases h

theorem readable_ofDigitChars {ds : Text} (hd : ∀ c ∈ ds, c.isDigit = true) (hl : ds.length ≤ maxIntDigits)
    (negative : Bool) :
    Readable (if negative then -(Nat.ofDigitChars 10 ds 0 : Int) else Nat.ofDigitChars 10 ds 0) := by
  have hlt := ofDigitChars_lt ds 0 hd
  rw [Nat.zero_add, Nat.one_mul] at hlt
  have hlt' : Nat.ofDigitChars 10 ds 0 < 10 ^ maxIntDigits :=
    Nat.lt_of_lt_of_le hlt (Nat.pow_le_pow_right (by decide) hl)
  unfold Readable
  rw [Nat.length_toDigits_le_iff (by decide) (by decide)]
  cases negative <;> simpa using hlt'

theorem readable_of_lt {n : Int} (h : n.natAbs < 10 ^ 20) : Readable n := by
  have hlen : (Nat.toDigits 10 n.natAbs).length ≤ 20 := (Nat.length_toDigits_le_iff (by omega) (by omega)).2 h
  unfold Readable maxIntDigits
  omega

theorem readable_of_fitsInt64 {n : Int} (hn : fitsInt64 n = true) : Readable n := by
  simp only [fitsInt64, decide_eq_true_eq] at hn
  exact readable_of_lt (by omega)

/-! ## Literals -/

section Literals

variable {ε ε' α α' : Type} {L : Literals ε α} {L' : Literals ε' α'} {P : α → α' → Prop}

open Reader

/-- Whatever `L` makes of a literal, `L'` makes something related of it. -/
structure Literals.Related (L : Literals ε α) (L' : Literals ε' α') (P : α → α' → Prop) : Prop where
  null : P L.null L'.null
  bool : ∀ b, P (L.bool b) (L'.bool b)
  int : ∀ n, Readable n → P (L.int n) (L'.int n)
  float : ∀ t, Sim P (L.float t) (L'.float t)
  constant : ∀ x, (∀ q, x ≠ .finite q) → Sim P (L.constant x) (L'.constant x)

theorem Literals.Related.unsigned (h : L.Related L' P) (negative : Bool) (cs : Text) :
    Sim (Left P) (L.unsigned negative cs) (L'.unsigned negative cs) := by
  unfold Literals.unsigned
  split
  · exact .error
  rename_i hw
  dsimp only
  split
  · split
    · rename_i hl
      exact .pure ⟨h.int _ (readable_ofDigitChars (scanWhole_digits hw) hl negative), rfl⟩
    · exact .error
  · exact (h.float _).bind fun _ _ hx => .pure ⟨hx, rfl⟩

theorem Literals.Related.atom (h : L.Related L' P) (cs : Text) : Sim (Left P) (L.atom cs) (L'.atom cs) := by
  have hconst : ∀ x r, (∀ q, x ≠ .finite q) → Sim (Left P) (L.constantBefore x r) (L'.constantBefore x r) :=
    fun x r hne => (h.constant x hne).bind fun _ _ hx => .pure ⟨hx, rfl⟩
  unfold Literals.atom
  split
  · exact .pure ⟨h.null, rfl⟩
  · exact .pure ⟨h.bool true, rfl⟩
  · exact .pure ⟨h.bool false, rfl⟩
  · exact hconst _ _ (by simp)
  · exact hconst _ _ (by simp)
  · exact hconst _ _ (by simp)
  · unfold Literals.number
    split <;> exact h.unsigned _ _

/-- What every kind of literal has, every literal that is read has. -/
theorem Literals.atom_all {Q : α → Prop} (hnull : Q L.null) (hbool : ∀ b, Q (L.bool b))
    (hint : ∀ n, Readable n → Q (L.int n)) (hfloat : ∀ t x, L.float t = .ok x → Q x)
    (hconst : ∀ c x, (∀ q, c ≠ .finite q) → L.constant c = .ok x → Q x) {cs r : Text} {x : α}
    (h : L.atom cs = .ok (x, r)) : Q x := by
  have hrelated : L.Related L fun x x' => x = x' ∧ Q x :=
    ⟨⟨rfl, hnull⟩, fun b => ⟨rfl, hbool b⟩, fun n hn => ⟨rfl, hint n hn⟩, fun t x hx => ⟨x, hx, rfl, hfloat t x hx⟩,
      fun c hne x hx => ⟨x, hx, rfl, hconst c x hne hx⟩⟩
  obtain ⟨-, -, ⟨-, hx⟩, -⟩ := hrelated.atom cs _ h
  exact hx

end Literals

/-! ## Values -/

/-- Hooks that build objects without repeated keys out of the pairs given, and whose floats satisfy `F`. -/
structure Hooks.Sound (hooks : Hooks) (F : PyFloat → Prop) : Prop where
  object : ∀ pairs d, hooks.object pairs = .ok d → (Assoc.keys d).Nodup ∧ ∀ e ∈ d, e ∈ pairs
  float : ∀ t v, hooks.float t = .ok v → Plain F false v
  constant : ∀ x v, hooks.constant x = .ok v → Plain F false v

section Sound

variable {hooks : Hooks} {F : PyFloat → Prop}

theorem plainItems_iff (tuples : Bool) (xs : List Value) : PlainItems F tuples xs ↔ ∀ v ∈ xs, Plain F tuples v := by
  induction xs with
  | nil => simp [PlainItems]
  | cons v xs ih => simp [PlainItems, ih]

theorem object_plain (hs : hooks.Sound F) {pairs : List (String × Value)} {d : Dict}
    (h : hooks.object pairs = .ok d) (hp : ∀ e ∈ pairs, Plain F false e.2) : Plain F false (.dict d) := by
  obtain ⟨hn, hsub⟩ := hs.object pairs d h
  exact ⟨hn, (plainEntries_iff false d).2 fun e he => hp e (hsub e he)⟩

theorem loadsWith_plain (hs : hooks.Sound F) {cs : Text} {v : Value} (h : loadsWith hooks cs = .ok v) :
    Plain F false v := by
  refine Reader.document_all (fun _ => trivial) (fun ha => ?_) (plainItems_iff false _).2 (fun hp hx => ?_) h
  · exact Literals.atom_all trivial (fun _ => trivial) (fun _ hn => hn) hs.float (fun c x _ => hs.constant c x) ha
  · obtain ⟨d, hd, rfl⟩ := map_ok_iff.1 hx
    exact object_plain hs hd hp

end Sound

/-! ## Stricter hooks -/

structure Hooks.Refines (strict hooks : Hooks) : Prop where
  object : ∀ pairs d, strict.object pairs = .ok d → hooks.object pairs = .ok d
  float : ∀ t v, strict.float t = .ok v → hooks.float t = .ok v
  constant : ∀ x v, strict.constant x = .ok v → hooks.constant x = .ok v

section Refines

variable {strict hooks : Hooks}

theorem loadsWith_refines (h : strict.Refines hooks) (cs : Text) (v : Value) (hv : loadsWith strict cs = .ok v) :
    loadsWith hooks cs = .ok v := by
  have hliterals : strict.literals.Related hooks.literals Eq :=
    ⟨rfl, fun _ => rfl, fun _ _ => rfl, fun t x hx => ⟨x, h.float t x hx, rfl⟩,
      fun c _ x hx => ⟨x, h.constant c x hx, rfl⟩⟩
  have hrelated : (valueReader strict).Related (valueReader hooks) Eq Eq Eq := by
    refine ⟨fun _ p hs => ⟨p, hs, rfl, rfl⟩, congrArg _, hliterals.atom, fun hxs => ?_, fun {ps ps'} hps x hx => ?_, ?_⟩
    · rw [forall₂_eq_eq_eq] at hxs
      exact congrArg _ hxs
    · have heq : ps = ps' := by
        rw [← forall₂_eq_eq_eq]
        exact hps.imp fun _ _ he => Prod.ext he.1 he.2
      obtain ⟨d, hd, rfl⟩ := map_ok_iff.1 hx
      exact ⟨_, map_ok_iff.2 ⟨d, h.object ps' d (heq ▸ hd), rfl⟩, rfl⟩
    · rintro d _ rfl e he
      exact ⟨e, he, rfl⟩
  obtain ⟨_, hw, rfl⟩ := hrelated.document rfl cs v hv
  exact hw

end Refines

variable {F : PyFloat → Prop} {tuples : Bool}

theorem Plain.get {d : Dict} (h : Plain F tuples (.dict d)) {k : String}
    {v : Value} (hv : Assoc.get? d k = some v) : Plain F tuples v := by
  exact (plainEntries_iff tuples d).1 h.2 _ (Assoc.mem_of_get? hv)

theorem Plain.nodup {d : Dict} (h : Plain F tuples (.dict d)) : (Assoc.keys d).Nodup := by
  exact h.1

/-! ## Weaker conditions -/

variable {G : PyFloat → Prop} {tuples' : Bool}

mutual

theorem plain_mono (hFG : ∀ x, F x → G x) (ht : tuples = true → tuples' = true) :
    ∀ v : Value, Plain F tuples v → Plain G tuples' v
  | .null, _ | .bool _, _ | .str _, _ => by simp [Plain]
  | .int _, h => by simpa [Plain] using h
  | .float x, h => by simp only [Plain] at h ⊢; exact hFG x h
  | .list xs, h => by simp only [Plain] at h ⊢; exact plainItems_mono hFG ht xs h
  | .tuple xs, h => by simp only [Plain] at h ⊢; exact ⟨ht h.1, plainItems_mono hFG ht xs h.2⟩
  | .dict d, h => by simp only [Plain] at h ⊢; exact ⟨h.1, plainEntries_mono hFG ht d h.2⟩

theorem plainItems_mono (hFG : ∀ x, F x → G x) (ht : tuples = true → tuples' = true) :
    ∀ xs : List Value, PlainItems F tuples xs → PlainItems G tuples' xs
  | [], _ => by simp [PlainItems]
  | v :: vs, h => by
    simp only [PlainItems] at h ⊢
    exact ⟨plain_mono hFG ht v h.1, plainItems_mono hFG ht vs h.2⟩

theorem plainEntries_mono (hFG : ∀ x, F x → G x) (ht : tuples = true → tuples' = true) :
    ∀ d : List (String × Value), PlainEntries F tuples d → PlainEntries G tuples' d
  | [], _ => by simp [PlainEntries]
  | (k, v) :: d, h => by
    simp only [PlainEntries] at h ⊢
    exact ⟨plain_mono hFG ht v h.1, plainEntries_mono hFG ht d h.2⟩

end

end Portmark.Lib.Json
