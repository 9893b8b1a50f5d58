/-
Reading a text from its end: the last string of an object, and the number after it, are
determined by the text of the object, whatever stands before them.
-/
import Portmark.Lib.Json.Roundtrip

namespace Portmark.Lib.Json

theorem append_cons_inj_of_notMem {c : Char} {a a' t t' : Text} (ht : c ∉ t) (ht' : c ∉ t')
    (h : a ++ c :: t = a' ++ c :: t') : a = a' := by
  rcases List.append_eq_append_iff.1 h with ⟨m, rfl, hm⟩ | ⟨m, rfl, hm⟩
  · cases m with
    | nil => rw [List.append_nil]
    | cons d m =>
      injection hm with _ hm
      exact absurd (hm ▸ List.mem_append_right m List.mem_cons_self) ht
  · cases m with
    | nil => rw [List.append_nil]
    | cons d m =>
      injection hm with _ hm
      exact absurd (hm ▸ List.mem_append_right m List.mem_cons_self) ht'

/-- A quote of an escaped character stands right after a backslash. -/
theorem quote_in_escapeChar {c : Char} {u v : Text} (h : escapeChar c = u ++ '"' :: v) : u = ['\\'] := by
  have hlen : ∀ x : Char, x ≠ '"' → [x] ≠ u ++ '"' :: v := by
    intro x hx he
    cases u with
    | nil => exact hx (List.cons.inj he).1
    | cons => simp at he
  have hpair : ∀ x : Char, x ≠ '"' → ['\\', x] ≠ u ++ '"' :: v := by
    rcases u with _ | ⟨y, _ | ⟨z, u⟩⟩ <;> simp_all
  unfold escapeChar at h
  split_ifs at h with h1 h2 h3 h4 h5 h6 h7 h8
  · rcases u with _ | ⟨y, _ | ⟨z, u⟩⟩
    · exact absurd (List.cons.inj h).1 (by decide)
    · rw [← (List.cons.inj h).1]
    · simp at h
  · exact absurd h (hpair _ (by decide))
  · exact absurd h (hpair _ (by decide))
  · exact absurd h (hpair _ (by decide))
  · exact absurd h (hpair _ (by decide))
  · exact absurd h (hpair _ (by decide))
  · exact absurd h (hpair _ (by decide))
  · exfalso
    have hdigit : ∀ n < 16, hexDigit n ≠ '"' := by decide
    have ha := hdigit (c.toNat / 16) (by omega)
    have hb := hdigit (c.toNat % 16) (by omega)
    have hmem : '"' ∈ ['\\', 'u', '0', '0', hexDigit (c.toNat / 16), hexDigit (c.toNat % 16)] :=
      h ▸ List.mem_append_right u List.mem_cons_self
    simp only [List.mem_cons, List.not_mem_nil, or_false] at hmem
    rcases hmem with hmem | hmem | hmem | hmem | hmem | hmem
    · exact absurd hmem (by decide)
    · exact absurd hmem (by decide)
    · exact absurd hmem (by decide)
    · exact absurd hmem (by decide)
    · exact ha hmem.symm
    · exact hb hmem.symm
  · exact absurd h (hlen c h1)

theorem quote_in_escape : ∀ {s u v : Text}, escape s = u ++ '"' :: v → u.getLast? = some '\\'
  | [], u, v, h => absurd h.symm (by simp [escape])
  | c :: s, u, v, h => by
    have h' : escapeChar c ++ escape s = u ++ '"' :: v := h
    rcases List.append_eq_append_iff.1 h' with ⟨m, rfl, hm⟩ | ⟨m, hm, hv⟩
    · -- the quote is in the rest of the text
      have ih := quote_in_escape hm
      rw [List.getLast?_append, ih]
      rfl
    · cases m with
      | nil =>
        -- the quote is the first character of the rest: then nothing stands before it
        have ih := quote_in_escape (u := []) (v := v) hv.symm
        cases ih
      | cons d m =>
        injection hv with hd hv
        subst hd
        rw [quote_in_escapeChar hm]
        rfl

theorem escape_injective {s s' : Text} (h : escape s = escape s') : s = s' := by
  have hs := transcribes_self.scanString_escape [] s
  rw [h, transcribes_self.scanString_escape [] s'] at hs
  exact (Prod.mk.inj (Except.ok.inj hs)).1.symm

/-- The last string of a text, opened by a quote that no backslash escapes. -/
theorem last_string_unique {a a' s s' : Text} (ha : a.getLast? ≠ some '\\') (ha' : a'.getLast? ≠ some '\\')
    (h : a ++ '"' :: escape s = a' ++ '"' :: escape s') : s = s' := by
  rcases List.append_eq_append_iff.1 h with ⟨m, rfl, hm⟩ | ⟨m, rfl, hm⟩
  · cases m with
    | nil => exact escape_injective (List.cons.inj hm).2
    | cons =>
      have hlast := quote_in_escape (List.cons.inj hm).2
      rw [List.getLast?_append, List.getLast?_cons, hlast] at ha'
      exact absurd rfl ha'
  · cases m with
    | nil => exact (escape_injective (List.cons.inj hm).2).symm
    | cons =>
      have hlast := quote_in_escape (List.cons.inj hm).2
      rw [List.getLast?_append, List.getLast?_cons, hlast] at ha
      exact absurd rfl ha

theorem intText_injective {n n' : Int} (h : intText n = intText n') : n = n' := by
  have hdigits : ∀ {m m' : Nat}, Nat.toDigits 10 m = Nat.toDigits 10 m' → m = m' := by
    intro m m' heq
    calc m = Nat.ofDigitChars 10 (Nat.toDigits 10 m) 0 := Nat.ofDigitChars_ten_toDigits.symm
      _ = Nat.ofDigitChars 10 (Nat.toDigits 10 m') 0 := by rw [heq]
      _ = m' := Nat.ofDigitChars_ten_toDigits
  have hminus : ∀ m : Nat, '-' ∉ Nat.toDigits 10 m := fun m hm => absurd (isDigit_toDigits _ _ hm) (by decide)
  unfold intText at h
  split at h <;> split at h
  · have := hdigits (List.cons.inj h).2
    omega
  · exact absurd (h ▸ List.mem_cons_self) (hminus _)
  · exact absurd (h.symm ▸ List.mem_cons_self) (hminus _)
  · have := hdigits h
    omega

theorem colon_notMem_intText (n : Int) : ':' ∉ intText n := by
  intro h
  unfold intText at h
  have hdigits : ':' ∉ Nat.toDigits 10 n.natAbs := fun hm => absurd (isDigit_toDigits _ _ hm) (by decide)
  split at h
  · rcases List.mem_cons.1 h with h | h
    · exact absurd h (by decide)
    · exact hdigits h
  · exact hdigits h

end Portmark.Lib.Json
