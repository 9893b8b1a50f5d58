/-
The JSON helpers of security.py that the constraint code rests on: `_json_equal` with
`_json_in`, and `_finite_number`. `_json_equal` is transitive, and equal numbers are
interchangeable in every comparison: both are what lets a merge keep one of two equal limits.
-/
import Portmark.Lib.Value

namespace Portmark.Security

open Lib Assoc Bool

inductive PyError where
  | security (message : String)
  | value (message : String)
  | type (message : String)
  | overflow (message : String)
deriving DecidableEq, Repr

/-- `raise SecurityError(message)`. -/
def refuse {α : Type} (message : String) : Except PyError α := .error (.security message)

/-- `if c: raise SecurityError(message)`. -/
def refuseIf (c : Bool) (message : String) : Except PyError Unit := if c then refuse message else .ok ()

@[simp] theorem refuseIf_ok_iff {c : Bool} {message : String} {u : Unit} : refuseIf c message = .ok u ↔ c = false := by
  unfold refuseIf refuse
  cases c <;> simp

@[simp] theorem refuse_ne_ok {α : Type} {message : String} {a : α} : refuse message = .ok a ↔ False := by
  simp [refuse]

/-! ## Equality of JSON values -/

mutual

/-- `_json_equal`: a boolean equals only a boolean, numbers compare by value, a list and a tuple
element by element, objects key by key. -/
def jsonEqual : Value → Value → Bool
  | .bool a, .bool b => a == b
  | .int a, .int b => a == b
  | .int a, .float y => PyFloat.eq (.finite a) y
  | .float x, .int b => PyFloat.eq x (.finite b)
  | .float x, .float y => PyFloat.eq x y
  | .list a, .list b => jsonEqualList a b
  | .list a, .tuple b => jsonEqualList a b
  | .tuple a, .list b => jsonEqualList a b
  | .tuple a, .tuple b => jsonEqualList a b
  | .dict a, .dict b => (Assoc.keys b).all (Assoc.contains a) && jsonEqualDict a b
  | .str a, .str b => a == b
  | .null, .null => true
  | _, _ => false

def jsonEqualList : List Value → List Value → Bool
  | [], [] => true
  | a :: as, b :: bs => jsonEqual a b && jsonEqualList as bs
  | _, _ => false

def jsonEqualDict : List (String × Value) → Dict → Bool
  | [], _ => true
  | (k, v) :: a, b =>
    (match Assoc.get? b k with
      | some w => jsonEqual v w
      | none => false) && jsonEqualDict a b

end

/-- `_json_in`. -/
def jsonIn (v : Value) (items : List Value) : Bool := items.any (jsonEqual v)

theorem jsonEqualDict_iff (b : Dict) (a : List (String × Value)) : jsonEqualDict a b = true ↔
    ∀ k v, (k, v) ∈ a → ∃ w, Assoc.get? b k = some w ∧ jsonEqual v w = true := by
  induction a with
  | nil => simp [jsonEqualDict]
  | cons entry a ih =>
    obtain ⟨k, v⟩ := entry
    simp only [jsonEqualDict, and_eq_true, ih, List.mem_cons, Prod.mk.injEq]
    constructor
    · rintro ⟨h1, h2⟩ k' v' (⟨rfl, rfl⟩ | h)
      · cases hw : Assoc.get? b k' with
        | none => simp [hw] at h1
        | some w => simp only [hw] at h1; exact ⟨w, rfl, h1⟩
      · exact h2 k' v' h
    · intro h
      refine ⟨?_, fun k' v' hm => h k' v' (.inr hm)⟩
      obtain ⟨w, hw, he⟩ := h k v (.inl ⟨rfl, rfl⟩)
      simp only [hw, he]

/-- `_json_equal` of a number: the other side is a number of the same value. -/
theorem jsonEqual_num_iff {a b : Value} {x : PyFloat} (ha : a.num? = some x) (na : a.isBool = false) :
    jsonEqual a b = true ↔ ∃ y, b.num? = some y ∧ b.isBool = false ∧ PyFloat.eq x y = true := by
  cases a <;> simp only [Value.num?, Value.isBool, reduceCtorEq, Option.some.injEq] at ha na <;> subst ha <;>
    cases b <;> simp [jsonEqual, Value.num?, Value.isBool, PyFloat.eq]

theorem jsonEqual_num_trans {a b c : Value} {x : PyFloat} (ha : a.num? = some x) (na : a.isBool = false)
    (h1 : jsonEqual a b = true) (h2 : jsonEqual b c = true) : jsonEqual a c = true := by
  obtain ⟨y, hy, nb, exy⟩ := (jsonEqual_num_iff ha na).1 h1
  obtain ⟨rfl, -⟩ := PyFloat.eq_iff.1 exy
  obtain ⟨z, hz, nc, eyz⟩ := (jsonEqual_num_iff hy nb).1 h2
  exact (jsonEqual_num_iff ha na).2 ⟨z, hz, nc, eyz⟩

theorem jsonEqual_str {a : String} {b : Value} (h : jsonEqual (.str a) b = true) : b = .str a := by
  cases b <;> simp [jsonEqual] at h
  rw [h]

mutual

theorem jsonEqual_trans : ∀ {a b c : Value}, jsonEqual a b = true → jsonEqual b c = true → jsonEqual a c = true
  | .null, b, c, h1, h2 => by
    cases b <;> simp [jsonEqual] at h1; exact h2
  | .bool _, b, c, h1, h2 | .str _, b, c, h1, h2 => by
    cases b <;> simp [jsonEqual] at h1; rw [h1]; exact h2
  | .int n, b, c, h1, h2 => jsonEqual_num_trans (a := .int n) rfl rfl h1 h2
  | .float x, b, c, h1, h2 => jsonEqual_num_trans (a := .float x) rfl rfl h1 h2
  | .list as, b, c, h1, h2 | .tuple as, b, c, h1, h2 => by
    cases b <;> simp [jsonEqual] at h1 <;> cases c <;> simp [jsonEqual] at h2 <;>
      exact jsonEqualList_trans h1 h2
  | .dict a, b, c, h1, h2 => by
    cases b <;> simp only [jsonEqual, false_eq_true, and_eq_true, List.all_eq_true] at h1
    cases c <;> simp only [jsonEqual, false_eq_true, and_eq_true, List.all_eq_true] at h2
    rename_i b c
    simp only [jsonEqual, and_eq_true, List.all_eq_true]
    refine ⟨fun k hk => h1.1 k (contains_iff.1 (h2.1 k hk)), jsonEqualDict_trans (a := a) h1.2 ?_⟩
    intro k w hw
    exact (jsonEqualDict_iff c b).1 h2.2 k w (mem_of_get? hw)

theorem jsonEqualList_trans : ∀ {as bs cs : List Value}, jsonEqualList as bs = true →
    jsonEqualList bs cs = true → jsonEqualList as cs = true
  | [], bs, cs, h1, h2 => by
    cases bs <;> simp [jsonEqualList] at h1; exact h2
  | a :: as, bs, cs, h1, h2 => by
    cases bs <;> simp only [jsonEqualList, false_eq_true, and_eq_true] at h1
    cases cs <;> simp only [jsonEqualList, false_eq_true, and_eq_true] at h2
    simp only [jsonEqualList, and_eq_true]
    exact ⟨jsonEqual_trans (a := a) h1.1 h2.1, jsonEqualList_trans h1.2 h2.2⟩

theorem jsonEqualDict_trans : ∀ {a : List (String × Value)} {b c : Dict}, jsonEqualDict a b = true →
    (∀ k w, Assoc.get? b k = some w → ∃ u, Assoc.get? c k = some u ∧ jsonEqual w u = true) →
    jsonEqualDict a c = true
  | [], b, c, _, _ => by simp [jsonEqualDict]
  | (k, v) :: a, b, c, h1, h2 => by
    simp only [jsonEqualDict, and_eq_true] at h1 ⊢
    refine ⟨?_, jsonEqualDict_trans (a := a) h1.2 h2⟩
    cases hw : Assoc.get? b k with
    | none => simp [hw] at h1
    | some w =>
      simp only [hw] at h1
      obtain ⟨u, hu, he⟩ := h2 k w hw
      simp only [hu]
      exact jsonEqual_trans (a := v) h1.1 he

end

variable {v : Value}

theorem jsonIn_iff {items : List Value} : jsonIn v items = true ↔ ∃ x ∈ items, jsonEqual v x = true := by
  simp [jsonIn]

variable {w : Value}

theorem jsonIn_of_equal {items : List Value} (h : jsonEqual v w = true) (hw : jsonIn w items = true) :
    jsonIn v items = true := by
  obtain ⟨x, hx, he⟩ := jsonIn_iff.1 hw
  exact jsonIn_iff.2 ⟨x, hx, jsonEqual_trans h he⟩

/-! ## An equivalence -/

theorem jsonEqualList_iff {xs ys : List Value} :
    jsonEqualList xs ys = true ↔ List.Forall₂ (fun a b => jsonEqual a b = true) xs ys := by
  induction xs generalizing ys with
  | nil => cases ys <;> simp [jsonEqualList]
  | cons x xs ih => cases ys <;> simp [jsonEqualList, ih]

theorem jsonEqual_dict_iff {d d' : Dict} : jsonEqual (.dict d) (.dict d') = true ↔
    (∀ k ∈ Assoc.keys d', k ∈ Assoc.keys d) ∧ ∀ k v, (k, v) ∈ d → ∃ w, Assoc.get? d' k = some w ∧
      jsonEqual v w = true := by
  simp only [jsonEqual, and_eq_true, List.all_eq_true, contains_iff, jsonEqualDict_iff]

/-- A JSON value: its numbers are finite, and an object binds a key once. -/
inductive IsJson : Value → Prop
  | null : IsJson .null
  | bool (b : Bool) : IsJson (.bool b)
  | int (n : Int) : IsJson (.int n)
  | decimal (q : ℚ) : IsJson (.float (.finite q))
  | str (s : String) : IsJson (.str s)
  | list {xs : List Value} : (∀ v ∈ xs, IsJson v) → IsJson (.list xs)
  | tuple {xs : List Value} : (∀ v ∈ xs, IsJson v) → IsJson (.tuple xs)
  | dict {d : Dict} : (Assoc.keys d).Nodup → (∀ e ∈ d, IsJson e.2) → IsJson (.dict d)

theorem IsJson.refl (h : IsJson v) : jsonEqual v v = true := by
  induction h with
  | null => simp [jsonEqual]
  | bool | int | str => simp [jsonEqual]
  | decimal => simp [jsonEqual, PyFloat.eq]
  | list _ ih | tuple _ ih =>
    rw [jsonEqual, jsonEqualList_iff, List.forall₂_same]
    exact ih
  | dict hnodup _ ih =>
    rw [jsonEqual_dict_iff]
    exact ⟨fun k hk => hk, fun k v hkv => ⟨v, get?_of_mem hnodup hkv, ih _ hkv⟩⟩

theorem jsonEqualList_symm {xs ys : List Value} (ih : ∀ w ∈ ys, ∀ v, jsonEqual v w = true → jsonEqual w v = true)
    (h : jsonEqualList xs ys = true) : jsonEqualList ys xs = true := by
  rw [jsonEqualList_iff] at h ⊢
  induction h with
  | nil => exact .nil
  | cons h _ ih' =>
    exact .cons (ih _ List.mem_cons_self _ h) (ih' fun w hw => ih w (List.mem_cons_of_mem _ hw))

theorem IsJson.symm (hw : IsJson w) : ∀ {v : Value}, jsonEqual v w = true → jsonEqual w v = true := by
  induction hw with
  | null => intro v h; cases v <;> simp_all [jsonEqual]
  | bool | int | str | decimal => intro v h; cases v <;> simp_all [jsonEqual, PyFloat.eq_iff]
  | list _ ih | tuple _ ih =>
    intro v h
    cases v <;> simp only [jsonEqual, false_eq_true] at h <;> rw [jsonEqual] <;>
      exact jsonEqualList_symm (fun w hw v => ih w hw) h
  | @dict d' hnodup _ ih =>
    intro v h
    cases v <;> try cases h
    rename_i d
    rw [jsonEqual_dict_iff] at h ⊢
    obtain ⟨hkeys, hvalues⟩ := h
    constructor
    · intro k hk
      obtain ⟨v, hv⟩ := mem_keys_iff.1 hk
      obtain ⟨w, hw, -⟩ := hvalues k v (mem_of_get? hv)
      exact mem_keys_iff.2 ⟨w, hw⟩
    · intro k w hkw
      obtain ⟨v, hv⟩ := mem_keys_iff.1 (hkeys k (List.mem_map_of_mem hkw))
      obtain ⟨w', hw', he⟩ := hvalues k v (mem_of_get? hv)
      rw [get?_of_mem hnodup hkw] at hw'
      cases hw'
      exact ⟨v, hv, ih _ hkw he⟩

inductive Step where
  | item (i : Nat)
  | key (k : String)

def Step.child? : Step → Value → Option Value
  | .item i, v => v.items?.bind (·[i]?)
  | .key k, v => v.dict?.bind (Assoc.get? · k)

def valueAt? (v : Value) (path : List Step) : Option Value := path.foldlM (fun v step => step.child? v) v

theorem jsonEqual_isBool (h : jsonEqual v w = true) : v.isBool = w.isBool := by
  cases v <;> cases w <;> simp_all [jsonEqual, Value.isBool]

theorem jsonEqual_child (h : jsonEqual v w = true) (step : Step) :
    Option.Rel (fun a b => jsonEqual a b = true) (step.child? v) (step.child? w) := by
  have hitem : ∀ {xs ys : List Value}, jsonEqualList xs ys = true → ∀ i : Nat,
      Option.Rel (fun a b => jsonEqual a b = true) xs[i]? ys[i]? := by
    intro xs ys h
    rw [jsonEqualList_iff] at h
    induction h with
    | nil => exact fun i => .none
    | cons h _ ih =>
      intro i
      cases i with
      | zero => exact .some h
      | succ i => exact ih i
  have hkey : ∀ {d d' : Dict}, jsonEqual (.dict d) (.dict d') = true → ∀ k,
      Option.Rel (fun a b => jsonEqual a b = true) (Assoc.get? d k) (Assoc.get? d' k) := by
    intro d d' h k
    rw [jsonEqual_dict_iff] at h
    cases hv : Assoc.get? d k with
    | none =>
      rw [get?_eq_none_iff.2 fun hk => get?_eq_none_iff.1 hv (h.1 k hk)]
      exact .none
    | some v =>
      obtain ⟨w, hw, he⟩ := h.2 k v (mem_of_get? hv)
      rw [hw]
      exact .some he
  cases step with
  | item i =>
    cases v <;> cases w <;> try cases h
    all_goals first | exact .none | skip
    all_goals exact hitem (by simpa only [jsonEqual] using h) i
  | key k =>
    cases v <;> cases w <;> try cases h
    all_goals first | exact .none | exact hkey h k

/-- Equal values have booleans at the same places. -/
theorem jsonEqual_at (h : jsonEqual v w = true) (path : List Step) :
    (valueAt? v path).map Value.isBool = (valueAt? w path).map Value.isBool := by
  induction path generalizing v w with
  | nil => exact congrArg some (jsonEqual_isBool h)
  | cons step path ih =>
    have hchild := jsonEqual_child h step
    rw [valueAt?, valueAt?, List.foldlM_cons, List.foldlM_cons]
    generalize step.child? v = a, step.child? w = b at hchild
    cases hchild with
    | none => rfl
    | some h => exact ih h

abbrev JsonValue := { v : Value // IsJson v }

/-- `_json_equal` is an equivalence of JSON values; equal values have booleans at the same places; and `_json_in` tells
neither equal values nor lists of equal values apart. -/
theorem jsonEqual_congruence :
    Equivalence (fun v w : JsonValue => jsonEqual v w = true) ∧
      (∀ v w : JsonValue, jsonEqual v w = true → ∀ path,
        (valueAt? v path).map Value.isBool = (valueAt? w path).map Value.isBool) ∧
      ∀ (v w : JsonValue) (xs ys : List JsonValue), jsonEqual v w = true →
        List.Forall₂ (fun x y : JsonValue => jsonEqual x y = true) xs ys →
        jsonIn v (xs.map Subtype.val) = jsonIn w (ys.map Subtype.val) := by
  refine ⟨⟨fun v => v.2.refl, fun {v w} => w.2.symm, jsonEqual_trans⟩, fun v w => jsonEqual_at, ?_⟩
  intro v w xs ys h hitems
  induction hitems with
  | nil => rfl
  | @cons x y xs ys hxy _ ih =>
    have hitem : jsonEqual v x = jsonEqual w y := by
      rw [Bool.eq_iff_iff]
      constructor
      · intro hx
        exact jsonEqual_trans (w.2.symm h) (jsonEqual_trans hx hxy)
      · intro hy
        exact jsonEqual_trans h (jsonEqual_trans hy (y.2.symm hxy))
    unfold jsonIn at ih ⊢
    rw [List.map_cons, List.map_cons, List.any_cons, List.any_cons, hitem, ih]

/-! ## Finite numbers -/

/-- The smallest magnitude of an integer that `float()` refuses: it rounds to `2^1024`. -/
def floatOverflow : Nat := 2 ^ 1024 - 2 ^ 970

/-- `_finite_number`. `math.isfinite` converts an integer to a float, so a huge one raises. -/
def finiteNumber : Value → Except PyError Bool
  | .int n => if floatOverflow ≤ n.natAbs then .error (.overflow "int too large to convert to float") else .ok true
  | .float (.finite _) => .ok true
  | _ => .ok false

theorem finiteNumber_true (h : finiteNumber v = .ok true) : v.isBool = false ∧ ∃ q, v.num? = some (.finite q) := by
  cases v with
  | int n => exact ⟨rfl, n, rfl⟩
  | float x => cases x <;> simp [finiteNumber] at h; exact ⟨rfl, _, rfl⟩
  | _ => simp [finiteNumber] at h

end Portmark.Security
