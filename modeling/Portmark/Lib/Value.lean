/-
The values `json.loads` builds, with the Python operations on them that depend on the type:
truth value, `len`, and the order and the equality of numbers. A finite float is an exact
rational, so comparing it with an integer is exact, as in Python; a boolean is an `int`
instance and counts as 0 or 1.
-/
import Mathlib.Algebra.Order.Ring.Rat
import Portmark.Lib.Assoc

namespace Portmark.Lib

inductive PyFloat where
  | finite (q : ℚ)
  | inf
  | negInf
  | nan
deriving DecidableEq

namespace PyFloat

/-- `x < y`: false as soon as one side is not a number. -/
def lt : PyFloat → PyFloat → Bool
  | finite a, finite b => decide (a < b)
  | finite _, inf => true
  | negInf, finite _ => true
  | negInf, inf => true
  | _, _ => false

/-- `x == y`: not a number equals nothing, itself included. -/
def eq : PyFloat → PyFloat → Bool
  | finite a, finite b => decide (a = b)
  | inf, inf => true
  | negInf, negInf => true
  | _, _ => false

@[simp] theorem lt_finite (a b : ℚ) : lt (finite a) (finite b) = decide (a < b) := rfl

theorem eq_iff {x y : PyFloat} : eq x y = true ↔ x = y ∧ x ≠ nan := by
  cases x <;> cases y <;> simp [eq]

end PyFloat

inductive Value where
  | null
  | bool (b : Bool)
  | int (n : Int)
  | float (x : PyFloat)
  | str (s : String)
  | list (xs : List Value)
  | tuple (xs : List Value)
  | dict (d : List (String × Value))

abbrev Dict := Assoc Value

namespace Value

/-- `isinstance(v, (int, float))`, with the number: a boolean is an `int` instance. -/
def num? : Value → Option PyFloat
  | bool b => some (.finite (if b then 1 else 0))
  | int n => some (.finite n)
  | float x => some x
  | _ => none

def isBool : Value → Bool
  | bool _ => true
  | _ => false

/-- `isinstance(v, (int, float)) and not isinstance(v, bool)`. -/
def isNumber (v : Value) : Bool := v.num?.isSome && !v.isBool

/-- `isinstance(v, (list, tuple))`, with the items. -/
def items? : Value → Option (List Value)
  | list xs => some xs
  | tuple xs => some xs
  | _ => none

def str? : Value → Option String
  | str s => some s
  | _ => none

def dict? : Value → Option Dict
  | dict d => some d
  | _ => none

/-- `bool(v)`. -/
def truthy : Value → Bool
  | null => false
  | bool b => b
  | int n => n != 0
  | float x => !PyFloat.eq x (.finite 0)
  | str s => s != ""
  | list xs => !xs.isEmpty
  | tuple xs => !xs.isEmpty
  | dict d => !d.isEmpty

/-- `a < b` on two numbers. -/
def lt (a b : Value) : Bool :=
  match a.num?, b.num? with
  | some x, some y => PyFloat.lt x y
  | _, _ => false

/-- `min(a, b)`: the first argument unless the second is smaller. -/
def min (a b : Value) : Value := if lt b a then b else a

/-- `max(a, b)`: the first argument unless the second is larger. -/
def max (a b : Value) : Value := if lt a b then b else a

theorem lt_num {a b : Value} {x y : PyFloat} (ha : a.num? = some x) (hb : b.num? = some y) :
    lt a b = PyFloat.lt x y := by
  simp [lt, ha, hb]

theorem max_eq (a b : Value) : max a b = a ∧ lt a b = false ∨ max a b = b ∧ lt a b = true := by
  unfold max
  cases lt a b <;> simp

theorem min_eq (a b : Value) : min a b = a ∧ lt b a = false ∨ min a b = b ∧ lt b a = true := by
  unfold min
  cases lt b a <;> simp

mutual

/-- `a == b`: a boolean equals the number it counts as, a list never equals a tuple. -/
def pyEqual : Value → Value → Bool
  | null, null => true
  | str a, str b => a == b
  | list as, list bs => pyEqualList as bs
  | tuple as, tuple bs => pyEqualList as bs
  | dict a, dict b => (Assoc.keys b).all (Assoc.contains a) && pyEqualDict a b
  | a, b =>
    match a.num?, b.num? with
    | some x, some y => PyFloat.eq x y
    | _, _ => false

def pyEqualList : List Value → List Value → Bool
  | [], [] => true
  | a :: as, b :: bs => pyEqual a b && pyEqualList as bs
  | _, _ => false

def pyEqualDict : List (String × Value) → Dict → Bool
  | [], _ => true
  | (k, v) :: a, b =>
    (match Assoc.get? b k with
      | some w => pyEqual v w
      | none => false) && pyEqualDict a b

end

@[simp] theorem pyEqual_str (a b : String) : pyEqual (str a) (str b) = (a == b) := by simp [pyEqual]

theorem items?_eq_some {v : Value} {xs : List Value} : v.items? = some xs ↔ v = .list xs ∨ v = .tuple xs := by
  cases v <;> simp [items?]

theorem str?_eq_some {v : Value} {s : String} : v.str? = some s ↔ v = .str s := by
  cases v <;> simp [str?]

theorem dict?_eq_some {v : Value} {d : Dict} : v.dict? = some d ↔ v = .dict d := by
  cases v <;> simp [dict?]

end Value

def fitsInt64 (n : Int) : Bool := decide (-2 ^ 63 ≤ n ∧ n < 2 ^ 63)

end Portmark.Lib
