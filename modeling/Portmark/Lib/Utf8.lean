/-
UTF-8, as bytes: the strict `bytes.decode("utf-8")`, which refuses overlong forms, surrogates and what
is past the last code point.
-/
import Portmark.Lib.Json.Data

namespace Portmark.Lib

open Lib.Json

def isTail (b : Nat) : Bool := decide (0x80 ≤ b ∧ b < 0xC0)

/-- `bytes.decode("utf-8")`, none where it raises. -/
def decodeUtf8 : List Nat → Option Text
  | [] => some []
  | a :: rest =>
    if a < 0x80 then (Char.ofNat a :: ·) <$> decodeUtf8 rest
    else if a < 0xC2 then none
    else if a < 0xE0 then
      match rest with
      | b :: rest =>
        if isTail b then (Char.ofNat ((a - 0xC0) * 64 + (b - 0x80)) :: ·) <$> decodeUtf8 rest else none
      | _ => none
    else if a < 0xF0 then
      match rest with
      | b :: c :: rest =>
        let n := (a - 0xE0) * 4096 + (b - 0x80) * 64 + (c - 0x80)
        if isTail b && isTail c && decide (0x800 ≤ n) && !isSurrogate n then (Char.ofNat n :: ·) <$> decodeUtf8 rest
        else none
      | _ => none
    else if a < 0xF5 then
      match rest with
      | b :: c :: d :: rest =>
        let n := (a - 0xF0) * 262144 + (b - 0x80) * 4096 + (c - 0x80) * 64 + (d - 0x80)
        if isTail b && isTail c && isTail d && decide (0x10000 ≤ n) && !isSurrogate n then
          (Char.ofNat n :: ·) <$> decodeUtf8 rest
        else none
      | _ => none
    else none

end Portmark.Lib
