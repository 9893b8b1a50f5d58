/-
Texts at the edge of the host: the strict Base64URL of _encoding.py, the header values of
mcp_client.py and the client address that a2a.py takes from a forwarding header.
-/
import Mathlib.Data.List.DropRight
import Portmark.Lib.Base64

namespace Portmark.Edge

open Lib Lib.Json List

/-! ## Base64 -/

theorem byte_lt (bytes : List UInt8) : ∀ b ∈ bytes.map UInt8.toNat, b < 256 := by
  intro b hb
  obtain ⟨x, -, rfl⟩ := mem_map.1 hb
  exact x.toNat_lt

/-- Strict Base64URL is canonical: the encoding of a byte string is the text that is decoded to it, and
a text is refused or decoded to bytes whose encoding it is. -/
theorem b64url_canonical (bytes : List UInt8) (text : Text) :
    b64urlDecode (charsOf (b64urlEncode (bytes.map UInt8.toNat))) = .ok (bytes.map UInt8.toNat) ∧
    ((∃ message, b64urlDecode text = .error message) ∨
      ∃ decoded, b64urlDecode text = .ok decoded ∧ charsOf (b64urlEncode decoded) = text) := by
  refine ⟨b64urlDecode_encode (byte_lt bytes), ?_⟩
  cases h : b64urlDecode text with
  | error message => exact .inl ⟨message, rfl⟩
  | ok decoded => exact .inr ⟨decoded, rfl, b64urlDecode_ok h⟩

/-! ## Header values -/

/-- `str.isspace` of one character. -/
def isSpace (c : Char) : Bool :=
  let n := c.toNat
  decide (0x09 ≤ n ∧ n ≤ 0x0D ∨ 0x1C ≤ n ∧ n ≤ 0x20 ∨ n = 0x85 ∨ n = 0xA0 ∨ n = 0x1680 ∨ 0x2000 ≤ n ∧ n ≤ 0x200A ∨
    n = 0x2028 ∨ n = 0x2029 ∨ n = 0x202F ∨ n = 0x205F ∨ n = 0x3000)

/-- `str.strip`. -/
def strip (t : Text) : Text := (t.dropWhile isSpace).rdropWhile isSpace

def sentinelPrefix : Text := ['=', '?', 'b', 'a', 's', 'e', '6', '4', '?']

def sentinelSuffix : Text := ['?', '=']

def isMarked (value : Text) : Bool := sentinelPrefix.isPrefixOf value && sentinelSuffix.isSuffixOf value

def isHeaderChar (c : Char) : Bool := decide (0x21 ≤ c.toNat ∧ c.toNat ≤ 0x7E) || c == ' ' || c == '\t'

/-- `is_header_safe`. -/
def isHeaderSafe (value : Text) : Bool := value == strip value && value.all isHeaderChar

/-- `_is_plain_header_ascii`. -/
def isPlainHeaderAscii (value : Text) : Bool := !isMarked value && isHeaderSafe value

def standardChar (n : Nat) : Char := if n = 62 then '+' else if n = 63 then '/' else Char.ofNat (base64Char n)

/-- `header_value`. -/
def headerValue (value : Text) : Text :=
  if isPlainHeaderAscii value then value
  else sentinelPrefix ++ (b64encode standardChar ((value.flatMap String.utf8EncodeChar).map UInt8.toNat) ++
    sentinelSuffix)

def undoMarker (value : Text) : Option Text :=
  if isMarked value then do
    let bytes ← a2bBase64 0 0 0 ((value.drop 9).take (value.length - 11))
    let chars ← ByteArray.utf8Decode? (bytes.map UInt8.ofNat).toByteArray
    return chars.toList
  else some value

theorem standard_char : ∀ n < 64, (lenientDigit? (standardChar n) = some n ∧ standardChar n ≠ '=') ∧
    isHeaderChar (standardChar n) = true := by decide +kernel

theorem isHeaderSafe_marked (bytes : List UInt8) : isHeaderSafe
    (sentinelPrefix ++ (b64encode standardChar (bytes.map UInt8.toNat) ++ sentinelSuffix)) = true := by
  have hbody : ∀ c ∈ b64encode standardChar (bytes.map UInt8.toNat), isHeaderChar c = true := by
    intro c hc
    rcases mem_append.1 hc with hc | hc
    · obtain ⟨n, hn, rfl⟩ := mem_map.1 hc
      exact (standard_char n (base64Digits_lt _ (byte_lt bytes) n hn)).2
    · rw [eq_of_mem_replicate hc]
      decide
  generalize b64encode standardChar (bytes.map UInt8.toNat) = body at hbody
  have hstrip : strip (sentinelPrefix ++ (body ++ sentinelSuffix)) = sentinelPrefix ++ (body ++ sentinelSuffix) := by
    have hlast : sentinelPrefix ++ (body ++ sentinelSuffix) = (sentinelPrefix ++ (body ++ ['?'])) ++ ['='] := by
      simp [sentinelSuffix]
    rw [strip, sentinelPrefix, cons_append, dropWhile_cons_of_neg (by decide), ← cons_append,
      ← sentinelPrefix, hlast, rdropWhile_concat_neg _ _ _ (by decide)]
  rw [isHeaderSafe, hstrip, beq_self_eq_true, Bool.true_and, all_append, all_append,
    all_eq_true.2 hbody]
  decide

/-- A header value is safe to send, undoing the marker gives the text back, and different texts have
different header values. -/
theorem headerValue_round_trip (value other : Text) : isHeaderSafe (headerValue value) = true ∧
    undoMarker (headerValue value) = some value ∧ (headerValue value = headerValue other ↔ value = other) := by
  have hundo : ∀ value, isHeaderSafe (headerValue value) = true ∧ undoMarker (headerValue value) = some value := by
    intro value
    unfold headerValue
    split
    · rename_i hplain
      simp only [isPlainHeaderAscii, Bool.and_eq_true, Bool.not_eq_true'] at hplain
      exact ⟨hplain.2, by rw [undoMarker, hplain.1]; rfl⟩
    · refine ⟨isHeaderSafe_marked _, ?_⟩
      have hmarked : isMarked (sentinelPrefix ++ (b64encode standardChar
          ((value.flatMap String.utf8EncodeChar).map UInt8.toNat) ++ sentinelSuffix)) = true := by
        rw [isMarked, Bool.and_eq_true, List.isPrefixOf_iff_prefix, List.isSuffixOf_iff_suffix]
        exact ⟨List.prefix_append _ _, (List.suffix_append _ _).trans (List.suffix_append _ _)⟩
      have hbody : ∀ body : Text, ((sentinelPrefix ++ (body ++ sentinelSuffix)).drop 9).take
          ((sentinelPrefix ++ (body ++ sentinelSuffix)).length - 11) = body := by
        intro body
        rw [show 9 = sentinelPrefix.length from rfl, List.drop_left]
        exact List.take_left' (by simp [sentinelPrefix, sentinelSuffix])
      rw [undoMarker, if_pos hmarked, hbody, a2bBase64_encode (fun n hn => (standard_char n hn).1) _ (byte_lt _)]
      have hutf8 : ((value.flatMap String.utf8EncodeChar).toByteArray).utf8Decode? = some value.toArray :=
        List.utf8Decode?_utf8Encode
      simp [Function.comp_def, hutf8]
  refine ⟨(hundo value).1, (hundo value).2, fun h => ?_, fun h => by rw [h]⟩
  have := (hundo value).2
  rw [h, (hundo other).2] at this
  exact (Option.some.inj this).symm

/-! ## The client behind a proxy -/

/-- `ipaddress`: the address a text stands for, none where it raises, and whether a network holds it. -/
structure IpLibrary where
  Address : Type
  Network : Type
  ipAddress? : Text → Option Address
  holds : Network → Address → Bool

namespace IpLibrary

variable (ip : IpLibrary)

/-- `_ip_in_networks`. -/
def ipInNetworks (text : Text) (networks : List ip.Network) : Bool :=
  match ip.ipAddress? text with
  | none => false
  | some address => networks.any fun network => ip.holds network address

def hops (forwardedFor : Text) : List Text :=
  ((forwardedFor.splitOnP (· == ',')).filter fun token => strip token != []).map strip

def isClient (trustedProxies : List ip.Network) (candidate : Text) : Bool :=
  (ip.ipAddress? candidate).isSome && !ip.ipInNetworks candidate trustedProxies

/-- `resolve_client_ip`: the first such hop from the right. -/
def resolveClientIp (peerIp forwardedFor : Text) (trustedProxies : List ip.Network) : Text :=
  if trustedProxies.isEmpty || !ip.ipInNetworks peerIp trustedProxies then peerIp
  else ((hops forwardedFor).reverse.find? (ip.isClient trustedProxies)).getD peerIp

theorem hops_append (g h : Text) : hops (g ++ ',' :: h) = hops g ++ hops h := by
  rw [hops, splitOnP_append_cons _ _ (by rfl), filter_append, map_append]
  rfl

/-- Nothing put in front of a forwarding header changes the client that a trusted proxy recorded in it. -/
theorem client_not_spoofed (peer g h : Text) (trusted : List ip.Network) :
    (ip.ipInNetworks peer trusted = false → ip.resolveClientIp peer h trusted = peer) ∧
    (ip.resolveClientIp peer h trusted ≠ peer → ip.resolveClientIp peer h trusted ∈ hops h ∧
      ip.resolveClientIp peer (g ++ ',' :: h) trusted = ip.resolveClientIp peer h trusted) ∧
    (ip.resolveClientIp peer h trusted = peer ∨ ip.isClient trusted (ip.resolveClientIp peer h trusted) = true) := by
  unfold resolveClientIp
  refine ⟨fun hpeer => if_pos (by simp [hpeer]), ?_, ?_⟩
  · intro hne
    split at hne
    · exact absurd rfl hne
    rename_i htrusted
    rw [if_neg htrusted, if_neg htrusted, hops_append, List.reverse_append, List.find?_append]
    cases hfound : (hops h).reverse.find? (ip.isClient trusted) with
    | none => simp [hfound] at hne
    | some c => exact ⟨List.mem_reverse.1 (List.mem_of_find?_eq_some hfound), rfl⟩
  · split
    · exact .inl rfl
    · cases hfound : (hops h).reverse.find? (ip.isClient trusted) with
      | none => exact .inl rfl
      | some c => exact .inr (List.find?_some hfound)

def single : IpLibrary where
  Address := Text
  Network := Text
  ipAddress? t := if t ≠ [] ∧ t.all (fun c => c.isDigit || c == '.') then some t else none
  holds network address := network == address

theorem client_not_spoofed_single :
    single.resolveClientIp ['1', '.', '1'] (['9', '.', '9'] ++ ',' :: [' ', '8', '.', '8']) [['1', '.', '1']] =
      ['8', '.', '8'] :=
  ((client_not_spoofed single ['1', '.', '1'] ['9', '.', '9'] [' ', '8', '.', '8'] [['1', '.', '1']]).2.1
    (by decide +kernel)).2.trans (by decide +kernel)

end IpLibrary

end Portmark.Edge
