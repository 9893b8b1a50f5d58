/-
JSON text. The printer is `json.dumps` with sorted keys, no blanks and `ensure_ascii=False`; the
parser is the recursive descent of `json.loads`, with its hooks for objects, floats and the
constants that are not JSON. A text is a list of characters, so a lone surrogate, which a Python
string may hold, is no character here and its escape is refused.
-/
import Mathlib.Data.Int.Log
import Mathlib.Data.List.Sort
import Mathlib.Data.Rat.Floor
import Portmark.Lib.Value

namespace Portmark.Lib.Json

abbrev Text := List Char

def utf8Size (text : Text) : Nat := (text.map Char.utf8Size).sum

/-! ## Printing -/

def hexDigit (n : Nat) : Char := if n < 10 then Char.ofNat (48 + n) else Char.ofNat (87 + n)

def escapeChar (c : Char) : Text :=
  if c = '"' then ['\\', '"']
  else if c = '\\' then ['\\', '\\']
  else if c = '\n' then ['\\', 'n']
  else if c = '\r' then ['\\', 'r']
  else if c = '\t' then ['\\', 't']
  else if c = '\x08' then ['\\', 'b']
  else if c = '\x0c' then ['\\', 'f']
  else if c.toNat < 0x20 then ['\\', 'u', '0', '0', hexDigit (c.toNat / 16), hexDigit (c.toNat % 16)]
  else [c]

def escape (s : Text) : Text := s.flatMap escapeChar

def intText (n : Int) : Text :=
  if n < 0 then '-' :: Nat.toDigits 10 n.natAbs else Nat.toDigits 10 n.natAbs

section Print

-- `repr` of a finite float
variable (floatText : ℚ → Text)

mutual

def text : Value → Text
  | .null => ['n', 'u', 'l', 'l']
  | .bool true => ['t', 'r', 'u', 'e']
  | .bool false => ['f', 'a', 'l', 's', 'e']
  | .int n => intText n
  | .float (.finite q) => floatText q
  | .float .inf => ['I', 'n', 'f', 'i', 'n', 'i', 't', 'y']
  | .float .negInf => ['-', 'I', 'n', 'f', 'i', 'n', 'i', 't', 'y']
  | .float .nan => ['N', 'a', 'N']
  | .str s => '"' :: (escape s.toList ++ ['"'])
  | .list xs => '[' :: (textItems xs ++ [']'])
  | .tuple xs => '[' :: (textItems xs ++ [']'])
  | .dict d => '{' :: (textEntries d ++ ['}'])

def textItems : List Value → Text
  | [] => []
  | [v] => text v
  | v :: w :: vs => text v ++ ',' :: textItems (w :: vs)

def textEntries : List (String × Value) → Text
  | [] => []
  | [(k, v)] => '"' :: (escape k.toList ++ '"' :: ':' :: text v)
  | (k, v) :: e :: es => '"' :: (escape k.toList ++ '"' :: ':' :: text v) ++ ',' :: textEntries (e :: es)

end

end Print

def inOrder {α : Type} (d : Assoc α) : Assoc α := d.insertionSort fun a b => a.1 ≤ b.1

mutual

def sortKeys : Value → Value
  | .list xs => .list (sortItems xs)
  | .tuple xs => .list (sortItems xs)
  | .dict d => .dict (inOrder (sortEntries d))
  | v => v

def sortItems : List Value → List Value
  | [] => []
  | v :: vs => sortKeys v :: sortItems vs

def sortEntries : List (String × Value) → List (String × Value)
  | [] => []
  | (k, v) :: es => (k, sortKeys v) :: sortEntries es

end

/-- `json.dumps(v, sort_keys=True, separators=(",", ":"), ensure_ascii=False)`. -/
def dumps (floatText : ℚ → Text) (v : Value) : Text := text floatText (sortKeys v)

/-! ## Numbers -/

structure FloatToken where
  source : Text
  negative : Bool
  whole : Text
  fraction : Text
  exponent : Int

def FloatToken.value (t : FloatToken) : ℚ :=
  let digits : ℚ := Nat.ofDigitChars 10 (t.whole ++ t.fraction) 0
  let magnitude := digits * 10 ^ (t.exponent - t.fraction.length)
  if t.negative then -magnitude else magnitude

/-- The integer nearest to `q`, the even one of two. -/
def roundHalfEven (q : ℚ) : Int :=
  let d := q - ⌊q⌋
  if d < 1 / 2 then ⌊q⌋ else if 1 / 2 < d then ⌊q⌋ + 1 else if ⌊q⌋ % 2 = 0 then ⌊q⌋ else ⌊q⌋ + 1

/-- The double nearest to `q`: 53 bits, exponent at least -1074, infinite from `2^1024` on. A
negative zero is a zero. -/
def toDouble (q : ℚ) : PyFloat :=
  let e := max (Int.log 2 |q| - 52) (-1074)
  let r : ℚ := roundHalfEven (q / 2 ^ e) * 2 ^ e
  if 2 ^ 1024 ≤ r then .inf else if r ≤ -2 ^ 1024 then .negInf else .finite r

/-! ## Parsing -/

/-- What the parser leaves to its caller: the object of a list of pairs, a float token and the
constants `NaN`, `Infinity` and `-Infinity`. Pairs without a repeated key are their object. -/
structure Hooks where
  object : List (String × Value) → Except String Dict
  object_nodup : ∀ pairs, (Assoc.keys pairs).Nodup → object pairs = .ok pairs
  float : FloatToken → Except String Value
  constant : PyFloat → Except String Value

def malformed {α : Type} : Except String α := .error "malformed"

def isBlank (c : Char) : Bool := c == ' ' || c == '\t' || c == '\n' || c == '\r'

def skipBlanks (cs : Text) : Text := cs.dropWhile isBlank

def hexValue? (c : Char) : Option Nat :=
  if '0' ≤ c ∧ c ≤ '9' then some (c.toNat - 48)
  else if 'a' ≤ c ∧ c ≤ 'f' then some (c.toNat - 87)
  else if 'A' ≤ c ∧ c ≤ 'F' then some (c.toNat - 55)
  else none

/-- The four digits of a `\uXXXX` escape. -/
def hex4? (a b c d : Char) : Option Nat := do
  let a ← hexValue? a
  let b ← hexValue? b
  let c ← hexValue? c
  let d ← hexValue? d
  return ((a * 16 + b) * 16 + c) * 16 + d

def unescape? (c : Char) : Option Char :=
  if c = '"' then some '"'
  else if c = '\\' then some '\\'
  else if c = '/' then some '/'
  else if c = 'b' then some '\x08'
  else if c = 'f' then some '\x0c'
  else if c = 'n' then some '\n'
  else if c = 'r' then some '\r'
  else if c = 't' then some '\t'
  else none

/-- The character of a surrogate pair of escapes, high half `n` and low half `m`. -/
def surrogatePair? (n : Nat) (m : Option Nat) : Option Char :=
  match m with
  | some m =>
    if n < 0xDC00 ∧ 0xDC00 ≤ m ∧ m < 0xE000 then some (Char.ofNat (0x10000 + (n - 0xD800) * 0x400 + (m - 0xDC00)))
    else none
  | none => none

def prepend (c : Char) : Except String (Text × Text) → Except String (Text × Text)
  | .ok (s, r) => .ok (c :: s, r)
  | .error e => .error e

def scanString : Text → Except String (Text × Text)
  | [] => malformed
  | c :: cs =>
    if c = '"' then .ok ([], cs)
    else if c = '\\' then
      match cs with
      | 'u' :: x :: y :: z :: w :: r =>
        match hex4? x y z w with
        | none => malformed
        | some n =>
          if n < 0xD800 ∨ 0xE000 ≤ n then prepend (Char.ofNat n) (scanString r)
          else
            match r with
            | '\\' :: 'u' :: x' :: y' :: z' :: w' :: r' =>
              match surrogatePair? n (hex4? x' y' z' w') with
              | some c => prepend c (scanString r')
              | none => malformed
            | _ => malformed
      | e :: r =>
        match unescape? e with
        | some c => prepend c (scanString r)
        | none => malformed
      | [] => malformed
    else if c.toNat < 0x20 then malformed
    else prepend c (scanString cs)

/-- The most digits `int` reads: `sys.int_info.default_max_str_digits`. -/
def maxIntDigits : Nat := 4300

def scanWhole (cs : Text) : Option (Text × Text) :=
  match cs with
  | '0' :: r => some (['0'], r)
  | c :: _ => if c.isDigit then some (cs.takeWhile Char.isDigit, cs.dropWhile Char.isDigit) else none
  | [] => none

def scanFraction (cs : Text) : Option (Text × Text) :=
  match cs with
  | '.' :: r =>
    match r.takeWhile Char.isDigit with
    | [] => none
    | ds => some (ds, r.dropWhile Char.isDigit)
  | _ => none

/-- An exponent, if `e` or `E` with digits follows. -/
def scanExponent (cs : Text) : Option (Int × Text) :=
  match cs with
  | c :: r =>
    if c = 'e' ∨ c = 'E' then
      let sign : Int := match r with | '-' :: _ => -1 | _ => 1
      let digits := match r with | '-' :: r => r | '+' :: r => r | r => r
      match digits.takeWhile Char.isDigit with
      | [] => none
      | ds => some (sign * Nat.ofDigitChars 10 ds 0, digits.dropWhile Char.isDigit)
    else none
  | [] => none

/-- What becomes of numbers and of the other literals: errors `ε` and values `α`. -/
structure Literals (ε α : Type) where
  malformed : ε
  tooLong : ε
  null : α
  bool : Bool → α
  int : Int → α
  float : FloatToken → Except ε α
  constant : PyFloat → Except ε α

namespace Literals

variable {ε α : Type} (L : Literals ε α)

def unsigned (negative : Bool) (cs : Text) : Except ε (α × Text) :=
  match scanWhole cs with
  | none => .error L.malformed
  | some (whole, r) =>
    match scanFraction r, scanExponent ((scanFraction r).elim r Prod.snd) with
    | none, none =>
      if whole.length ≤ maxIntDigits then
        let n : Int := Nat.ofDigitChars 10 whole 0
        .ok (L.int (if negative then -n else n), r)
      else .error L.tooLong
    | fraction, exponent => do
      let rest := exponent.elim (fraction.elim r Prod.snd) Prod.snd
      let source := (if negative then ['-'] else []) ++ cs.take (cs.length - rest.length)
      let v ← L.float ⟨source, negative, whole, fraction.elim [] Prod.fst, exponent.elim 0 Prod.fst⟩
      return (v, rest)

def number (cs : Text) : Except ε (α × Text) :=
  match cs with
  | '-' :: r => L.unsigned true r
  | r => L.unsigned false r

def constantBefore (x : PyFloat) (r : Text) : Except ε (α × Text) := do
  let v ← L.constant x
  return (v, r)

def atom (cs : Text) : Except ε (α × Text) :=
  match cs with
  | 'n' :: 'u' :: 'l' :: 'l' :: r => .ok (L.null, r)
  | 't' :: 'r' :: 'u' :: 'e' :: r => .ok (L.bool true, r)
  | 'f' :: 'a' :: 'l' :: 's' :: 'e' :: r => .ok (L.bool false, r)
  | 'N' :: 'a' :: 'N' :: r => L.constantBefore .nan r
  | 'I' :: 'n' :: 'f' :: 'i' :: 'n' :: 'i' :: 't' :: 'y' :: r => L.constantBefore .inf r
  | '-' :: 'I' :: 'n' :: 'f' :: 'i' :: 'n' :: 'i' :: 't' :: 'y' :: r => L.constantBefore .negInf r
  | cs => L.number cs

end Literals

/-- What a parser makes of a text: errors `ε`, strings `S` and values `α`; `δ` says how deep it is. -/
structure Reader (δ ε S α : Type) where
  malformed : ε
  string : Text → Except ε (S × Text)
  str : S → α
  atom : Text → Except ε (α × Text)
  list : List α → α
  object : List (S × α) → Except ε α
  enter : δ → Except ε δ

namespace Reader

variable {δ ε S α : Type} (R : Reader δ ε S α)

mutual

def scan : Nat → δ → Text → Except ε (α × Text)
  | 0, _, _ => .error R.malformed
  | fuel + 1, d, cs =>
    match cs with
    | '"' :: r => do
      let (s, r) ← R.string r
      return (R.str s, r)
    | '[' :: r => do
      let d ← R.enter d
      match skipBlanks r with
      | ']' :: r => return (R.list [], r)
      | r => do
        let (xs, r) ← elements fuel d r
        return (R.list xs, r)
    | '{' :: r => do
      let d ← R.enter d
      match skipBlanks r with
      | '}' :: r => do
        let x ← R.object []
        return (x, r)
      | r => do
        let (ps, r) ← members fuel d r
        let x ← R.object ps
        return (x, r)
    | cs => R.atom cs

def elements : Nat → δ → Text → Except ε (List α × Text)
  | 0, _, _ => .error R.malformed
  | fuel + 1, d, cs => do
    let (x, r) ← scan fuel d cs
    match skipBlanks r with
    | ']' :: r => return ([x], r)
    | ',' :: r => do
      let (xs, r) ← elements fuel d (skipBlanks r)
      return (x :: xs, r)
    | _ => .error R.malformed

def members : Nat → δ → Text → Except ε (List (S × α) × Text)
  | 0, _, _ => .error R.malformed
  | fuel + 1, d, cs =>
    match cs with
    | '"' :: r => do
      let (k, r) ← R.string r
      match skipBlanks r with
      | ':' :: r => do
        let (x, r) ← scan fuel d (skipBlanks r)
        match skipBlanks r with
        | '}' :: r => return ([(k, x)], r)
        | ',' :: r => do
          let (ps, r) ← members fuel d (skipBlanks r)
          return ((k, x) :: ps, r)
        | _ => .error R.malformed
      | _ => .error R.malformed
    | _ => .error R.malformed

end

def document (d : δ) (cs : Text) : Except ε α := do
  let (x, r) ← R.scan (cs.length + 1) d (skipBlanks cs)
  if skipBlanks r = [] then return x else .error R.malformed

end Reader

section Loads

variable (hooks : Hooks)

def Hooks.literals : Literals String Value where
  malformed := "malformed"
  tooLong := "malformed"
  null := .null
  bool := .bool
  int := .int
  float := hooks.float
  constant := hooks.constant

def valueReader : Reader Unit String String Value where
  malformed := "malformed"
  string cs := do
    let (s, r) ← scanString cs
    return (String.ofList s, r)
  str := .str
  atom := hooks.literals.atom
  list := .list
  object ps := .dict <$> hooks.object ps
  enter := .ok

/-- `json.loads` with these hooks. -/
def loadsWith (cs : Text) : Except String Value := (valueReader hooks).document () cs

end Loads

def objectOf (pairs : List (String × Value)) : Dict := Assoc.update [] pairs

/-- The defaults of `json.loads`. -/
def plainHooks : Hooks where
  object pairs := .ok (objectOf pairs)
  object_nodup pairs h := by rw [objectOf, Assoc.update_nodup [] pairs h, List.nil_append]
  float t := .ok (.float (toDouble t.value))
  constant x := .ok (.float x)

/-- `json.loads`. -/
def loads (cs : Text) : Except String Value := loadsWith plainHooks cs

end Portmark.Lib.Json
