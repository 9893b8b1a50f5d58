/-
Base64 as Python writes and reads it: the lenient `urlsafe_b64decode`, which skips what is no digit, and
a strict decoder above it, which takes a text only if it is the encoding of the bytes it stands for.
-/
import Portmark.Lib.Json.Named

namespace Portmark.Lib

open Json List

/-! ## Digits -/

def base64Digit? (n : Nat) : Option Nat :=
  if 65 ≤ n ∧ n ≤ 90 then some (n - 65)
  else if 97 ≤ n ∧ n ≤ 122 then some (n - 71)
  else if 48 ≤ n ∧ n ≤ 57 then some (n + 4)
  else if n = 45 then some 62
  else if n = 95 then some 63
  else none

def base64Char (n : Nat) : Nat :=
  if n < 26 then n + 65
  else if n < 52 then n + 71
  else if n < 62 then n - 4
  else if n = 62 then 45
  else 95

def base64Digits : List Nat → List Nat
  | [] => []
  | [x] => [x / 4, x % 4 * 16]
  | [x, y] => [x / 4, x % 4 * 16 + y / 16, y % 16 * 4]
  | x :: y :: z :: rest =>
    [x / 4, x % 4 * 16 + y / 16, y % 16 * 4 + z / 64, z % 64] ++ base64Digits rest

/-- `base64.b64encode` in the alphabet `char`: the digits, padded to groups of four. -/
def b64encode (char : Nat → Char) (bytes : List Nat) : Text :=
  (base64Digits bytes).map char ++ List.replicate ((4 - (base64Digits bytes).length % 4) % 4) '='

/-- `b64url_encode`: no padding. -/
def b64urlEncode (bytes : List Nat) : Codes := (base64Digits bytes).map base64Char

theorem base64Digits_lt : ∀ (bytes : List Nat), (∀ b ∈ bytes, b < 256) → ∀ n ∈ base64Digits bytes, n < 64
  | [], _ => by simp [base64Digits]
  | [x], h => by
    have hx := h x (by simp)
    simp only [base64Digits, mem_cons, not_mem_nil, or_false]
    rintro n (rfl | rfl) <;> omega
  | [x, y], h => by
    have hx := h x (by simp)
    have hy := h y (by simp)
    simp only [base64Digits, mem_cons, not_mem_nil, or_false]
    rintro n (rfl | rfl | rfl) <;> omega
  | x :: y :: z :: rest, h => by
    have hx := h x (by simp)
    have hy := h y (by simp)
    have hz := h z (by simp)
    have hrest := base64Digits_lt rest fun b hb => h b (by simp [hb])
    simp only [base64Digits, cons_append, nil_append, mem_cons]
    rintro n (rfl | rfl | rfl | rfl | hn)
    · omega
    · omega
    · omega
    · omega
    · exact hrest n hn

theorem length_base64Digits (bytes : List Nat) : (base64Digits bytes).length % 4 ≠ 1 := by
  fun_induction base64Digits bytes with
  | case4 x y z rest ih =>
    simp only [length_append, length_cons, length_nil]
    omega
  | _ => simp

/-! ## The lenient decoder -/

/-- The alphabet of `urlsafe_b64decode`: both forms of the last two digits. -/
def lenientDigit? (c : Char) : Option Nat :=
  if c = '+' then some 62 else if c = '/' then some 63 else base64Digit? c.toNat

def a2bBase64 : Nat → Nat → Nat → Text → Option (List Nat)
  | position, _, _, [] => if position = 0 then some [] else none
  | position, left, pads, c :: cs =>
    if c = '=' then
      if 2 ≤ position then
        if 4 ≤ position + (pads + 1) then some [] else a2bBase64 position left (pads + 1) cs
      else a2bBase64 position left pads cs
    else
      match lenientDigit? c with
      | none => a2bBase64 position left pads cs
      | some n =>
        if position = 0 then a2bBase64 1 n 0 cs
        else if position = 1 then ((left * 4 + n / 16) :: ·) <$> a2bBase64 2 (n % 16) 0 cs
        else if position = 2 then ((left * 16 + n / 4) :: ·) <$> a2bBase64 3 (n % 4) 0 cs
        else ((left * 64 + n) :: ·) <$> a2bBase64 0 0 0 cs

/-- `base64.urlsafe_b64decode`. -/
def urlsafeB64decode (s : Text) : Option (List Nat) :=
  if s.all fun c => decide (c.toNat < 128) then a2bBase64 0 0 0 s else none

section Digits

variable {char : Nat → Char} (hchar : ∀ n < 64, lenientDigit? (char n) = some n ∧ char n ≠ '=')

include hchar

theorem a2bBase64_digit {n : Nat} (hn : n < 64) (position left pads : Nat) (cs : Text) :
    a2bBase64 position left pads (char n :: cs) =
      if position = 0 then a2bBase64 1 n 0 cs
      else if position = 1 then ((left * 4 + n / 16) :: ·) <$> a2bBase64 2 (n % 16) 0 cs
      else if position = 2 then ((left * 16 + n / 4) :: ·) <$> a2bBase64 3 (n % 4) 0 cs
      else ((left * 64 + n) :: ·) <$> a2bBase64 0 0 0 cs := by
  obtain ⟨hvalue, hne⟩ := hchar n hn
  rw [a2bBase64, if_neg hne, hvalue]

/-- What is encoded in an alphabet that the decoder knows is decoded, by induction on the groups of three bytes. -/
theorem a2bBase64_encode : ∀ bytes : List Nat, (∀ b ∈ bytes, b < 256) →
    a2bBase64 0 0 0 (b64encode char bytes) = some bytes
  | [], _ => rfl
  | [x], h => by
    have hx := h x (by simp)
    show a2bBase64 0 0 0 (char (x / 4) :: char (x % 4 * 16) :: ['=', '=']) = _
    rw [a2bBase64_digit hchar (by omega), if_pos rfl, a2bBase64_digit hchar (by omega), if_neg (by simp), if_pos rfl]
    simp [a2bBase64]
    omega
  | [x, y], h => by
    have hx := h x (by simp)
    have hy := h y (by simp)
    show a2bBase64 0 0 0 (char (x / 4) :: char (x % 4 * 16 + y / 16) :: char (y % 16 * 4) :: ['=']) = _
    rw [a2bBase64_digit hchar (by omega), if_pos rfl, a2bBase64_digit hchar (by omega), if_neg (by simp), if_pos rfl,
      a2bBase64_digit hchar (by omega), if_neg (by simp), if_neg (by simp), if_pos rfl]
    simp [a2bBase64]
    omega
  | x :: y :: z :: rest, h => by
    have hx := h x (by simp)
    have hy := h y (by simp)
    have hz := h z (by simp)
    have hrest := a2bBase64_encode rest fun b hb => h b (by simp [hb])
    have hcons : b64encode char (x :: y :: z :: rest) = char (x / 4) :: char (x % 4 * 16 + y / 16) ::
        char (y % 16 * 4 + z / 64) :: char (z % 64) :: b64encode char rest := by
      simp [b64encode, base64Digits]
      omega
    rw [hcons, a2bBase64_digit hchar (by omega), if_pos rfl, a2bBase64_digit hchar (by omega), if_neg (by simp),
      if_pos rfl, a2bBase64_digit hchar (by omega), if_neg (by simp), if_neg (by simp), if_pos rfl,
      a2bBase64_digit hchar (by omega), if_neg (by simp), if_neg (by simp), if_neg (by simp), hrest]
    simp
    omega

end Digits

/-! ## The strict decoder -/

/-- `b64url_decode`, with the texts of its errors. -/
def b64urlDecode (value : Text) : Except String (List Nat) :=
  if value.length % 4 = 1 then .error "base64url value has an impossible length"
  else if value.any fun ch => (base64Digit? ch.toNat).isNone then
    .error "base64url value contains a non-alphabet character"
  else
    match urlsafeB64decode (value ++ List.replicate ((4 - value.length % 4) % 4) '=') with
    | none => .error "base64url value is not decodable"
    | some decoded =>
      if charsOf (b64urlEncode decoded) ≠ value then .error "base64url value is not canonically encoded"
      else .ok decoded

theorem urlsafe_char : ∀ n < 64, (lenientDigit? (Char.ofNat (base64Char n)) = some n ∧
    Char.ofNat (base64Char n) ≠ '=') ∧ base64Digit? (Char.ofNat (base64Char n)).toNat = some n ∧
    (Char.ofNat (base64Char n)).toNat < 128 := by decide +kernel

theorem b64urlDecode_encode {bytes : List Nat} (h : ∀ b ∈ bytes, b < 256) :
    b64urlDecode (charsOf (b64urlEncode bytes)) = .ok bytes := by
  have hvalue : charsOf (b64urlEncode bytes) = (base64Digits bytes).map fun n => Char.ofNat (base64Char n) := by
    rw [charsOf, b64urlEncode, List.map_map]
    rfl
  have hmem : ∀ c ∈ charsOf (b64urlEncode bytes), ∃ n < 64, c = Char.ofNat (base64Char n) := by
    intro c hc
    rw [hvalue] at hc
    obtain ⟨n, hn, rfl⟩ := List.mem_map.1 hc
    exact ⟨n, base64Digits_lt bytes h n hn, rfl⟩
  have hdecode := a2bBase64_encode (fun n hn => (urlsafe_char n hn).1) bytes h
  rw [b64encode, ← hvalue] at hdecode
  have hlength : (charsOf (b64urlEncode bytes)).length = (base64Digits bytes).length := by
    rw [hvalue, List.length_map]
  unfold b64urlDecode urlsafeB64decode
  rw [hlength, if_neg (length_base64Digits _), if_neg, if_pos, hdecode]
  · simp
  · simp only [List.all_append, Bool.and_eq_true, List.all_eq_true, decide_eq_true_eq]
    refine ⟨fun c hc => ?_, fun c hc => by rw [List.eq_of_mem_replicate hc]; decide⟩
    obtain ⟨n, hn, rfl⟩ := hmem c hc
    exact (urlsafe_char n hn).2.2
  · simp only [Bool.not_eq_true, List.any_eq_false]
    intro c hc
    obtain ⟨n, hn, rfl⟩ := hmem c hc
    rw [(urlsafe_char n hn).2.1]
    simp

theorem b64urlDecode_ok {text : Text} {decoded : List Nat} (h : b64urlDecode text = .ok decoded) :
    charsOf (b64urlEncode decoded) = text := by
  unfold b64urlDecode at h
  repeat' split at h
  all_goals cases h
  exact not_not.1 ‹_›

end Portmark.Lib
