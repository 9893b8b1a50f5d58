/-
Limits and their merge. `Tighter rule v a` says what a merged limit `v` can be for a limit `a` of
either side, and one lemma per kind of limit says that a value within `v` is within `a`. With them
`_check_argument_schema` is monotone: an argument that passes a merged specification passes both
of its parts.
-/
import Portmark.Security.Merge

namespace Portmark.Security

open Lib Assoc Option

/-! ## Well-formed limits -/

/-- `isinstance(v, int) and not isinstance(v, bool) and v >= 0`. -/
def lengthLimit : Value → Bool
  | .int n => decide (0 ≤ n)
  | _ => false

/-- The strings of a list limit that `_non_empty_string_tuple` accepts. -/
def stringItems? (v : Value) : Option (List String) :=
  match v.items? with
  | some (x :: xs) => nonEmptyStrings? (x :: xs)
  | _ => none

def nonEmptyStr : Value → Bool
  | .str s => s != ""
  | _ => false

def finiteLimit (v : Value) : Bool :=
  match finiteNumber v with
  | .ok b => b
  | .error _ => false

def wellFormedLimit (key : String) (v : Value) : Bool :=
  match key, v with
  | "type", .null => true
  | "type", v => ((asTypeList v).mapM Value.str?).isSome
  | "enum", .null => true
  | "enum", .list xs => !xs.isEmpty
  | "enum", _ => false
  | "minimum", v => finiteLimit v
  | "maximum", v => finiteLimit v
  | "min_length", v => lengthLimit v
  | "max_length", v => lengthLimit v
  | "scheme", .null => true
  | "scheme", v => nonEmptyStr v
  | "allowed_schemes", .null => true
  | "allowed_schemes", v => (stringItems? v).isSome
  | "allowed_hosts", .null => true
  | "allowed_hosts", v => (stringItems? v).isSome
  | "allowed_domains", .null => true
  | "allowed_domains", v => (stringItems? v).isSome
  | _, _ => true

def wellFormedSpec (spec : Dict) : Bool := (Assoc.items spec).all fun entry => wellFormedLimit entry.1 entry.2

variable {spec : Dict} {key : String} {v : Value}

theorem wellFormedSpec_get (h : wellFormedSpec spec = true)
    (hv : get? spec key = some v) : wellFormedLimit key v = true :=
  List.all_eq_true.1 h (key, v) (mem_items_iff.2 hv)

theorem given?_eq_some : given? spec key = some v ↔ get? spec key = some v ∧ v ≠ .null := by
  unfold given?
  split
  · rename_i h
    simp only [reduceCtorEq, h, Option.some.injEq, false_iff, not_and, not_not]
    exact fun h => h.symm
  · rename_i h
    constructor
    · rintro hv
      exact ⟨hv, fun hn => h (by rw [hv, hn])⟩
    · exact fun hv => hv.1

theorem finiteLimit_eq (h : finiteLimit v = true) : finiteNumber v = .ok true := by
  unfold finiteLimit at h
  split at h
  · rename_i b hb; rw [hb, h]
  · cases h

/-! ## What a merged limit can be -/

/-- A merged limit `v` for a limit `a` of one side: `a` itself, a limit equal to it, or the two
sides' limits combined by the key's rule. -/
inductive Tighter (rule : Rule) (v a : Value) : Prop where
  | same : v = a → Tighter rule v a
  | equal : jsonEqual v a = true → Tighter rule v a
  | left (b : Value) : narrow rule a b = some v → Tighter rule v a
  | right (b : Value) : narrow rule b a = some v → Tighter rule v a

inductive Joined (combine : Value → Value → Value → Prop) : Option Value → Option Value → Option Value → Prop where
  | none : Joined combine none none none
  | left (a : Value) : Joined combine (some a) none (some a)
  | right (b : Value) : Joined combine none (some b) (some b)
  | equal {a b : Value} (h : jsonEqual a b = true) : Joined combine (some a) (some b) (some a)
  | both {a b v : Value} (hne : jsonEqual a b = false) (h : combine a b v) : Joined combine (some a) (some b) (some v)

section Joined

variable {combine : Value → Value → Value → Prop} {x y w : Option Value}

theorem Joined.exists_some {a : Value} (h : Joined combine x y w) (ha : x = some a ∨ y = some a) :
    ∃ v, w = some v := by
  cases h <;> simp at ha ⊢

theorem Joined.preserves {P : Value → Prop} (h : Joined combine x y (some v)) (hx : ∀ a, x = some a → P a)
    (hy : ∀ b, y = some b → P b) (hboth : ∀ a b, P a → P b → jsonEqual a b = false → combine a b v → P v) : P v := by
  cases h with
  | left => exact hx v rfl
  | right => exact hy v rfl
  | equal => exact hx v rfl
  | both hne h => exact hboth _ _ (hx _ rfl) (hy _ rfl) hne h

theorem Joined.tighter {rule : Rule} (h : Joined combine x y w)
    (hrule : ∀ a b v, x = some a → y = some b → jsonEqual a b = false → combine a b v → narrow rule a b = some v)
    {a : Value} (ha : x = some a ∨ y = some a) : ∃ v, w = some v ∧ Tighter rule v a := by
  cases h with
  | none => simp at ha
  | left | right => exact ⟨_, rfl, .same (by simpa using ha)⟩
  | equal h =>
    rcases ha with ⟨⟨⟩⟩ | ⟨⟨⟩⟩
    · exact ⟨_, rfl, .same rfl⟩
    · exact ⟨_, rfl, .equal h⟩
  | both hne h =>
    have hn := hrule _ _ _ rfl rfl hne h
    rcases ha with ⟨⟨⟩⟩ | ⟨⟨⟩⟩
    · exact ⟨_, rfl, .left _ hn⟩
    · exact ⟨_, rfl, .right _ hn⟩

def joinSides (combine : Value → Value → Option Value) : Option Value → Option Value → Option (Option Value)
  | none, r => some r
  | l, none => some l
  | some a, some b => if jsonEqual a b then some (some a) else (combine a b).map some

theorem joinSides_some_iff {combine : Value → Value → Option Value} :
    joinSides combine x y = some w ↔ Joined (fun a b v => combine a b = some v) x y w := by
  constructor
  · intro h
    rcases x with _ | a
    · cases h
      cases y with
      | none => exact .none
      | some b => exact .right b
    rcases y with _ | b
    · cases h
      exact .left a
    simp only [joinSides] at h
    split at h
    · cases h
      exact .equal ‹_›
    · rename_i hne
      obtain ⟨v, hv, rfl⟩ := Option.map_eq_some_iff.1 h
      exact .both (eq_false_of_ne_true hne) hv
  · intro h
    cases h with
    | none | left | right => rfl
    | equal h => simp [joinSides, h]
    | both hne h => simp [joinSides, hne, h]

theorem joinSides_ok_iff {ε : Type} {combine : Value → Value → Option Value} {e : ε} :
    (joinSides combine x y).elim (.error e) Except.ok = .ok w ↔ joinSides combine x y = some w := by
  cases joinSides combine x y <;> simp

theorem joinSides_error_iff {ε : Type} {combine : Value → Value → Option Value} {e e' : ε} :
    (joinSides combine x y).elim (.error e) Except.ok = .error e' ↔ joinSides combine x y = none ∧ e = e' := by
  cases joinSides combine x y <;> simp

end Joined

theorem nonEmptyList_eq_some {xs : List Value} : nonEmptyList xs = some v ↔ xs ≠ [] ∧ v = .list xs := by
  cases xs with
  | nil => simp [nonEmptyList]
  | cons => simp [nonEmptyList, eq_comm]

variable {a : Value}

theorem sharedItems_eq_some {b : Value} : sharedItems a b = some v ↔
    ∃ ls rs, a = .list ls ∧ b = .list rs ∧ ls.filter (jsonIn · rs) ≠ [] ∧ v = .list (ls.filter (jsonIn · rs)) := by
  unfold sharedItems
  split
  · simp [nonEmptyList_eq_some]
  rename_i h
  simp only [reduceCtorEq, false_iff, not_exists, not_and]
  rintro ls rs rfl rfl
  exact absurd rfl (h ls rs rfl)

def Rule.Kept (a b v : Value) : Rule → Prop
  | .identical => False
  | .eitherTrue => .bool (a.truthy || b.truthy) = v
  | .numericMax => a.isNumber = true ∧ b.isNumber = true ∧ Value.max a b = v
  | .numericMin => a.isNumber = true ∧ b.isNumber = true ∧ Value.min a b = v
  | .listIntersection => ∃ xs ys, a = .list xs ∧ b = .list ys ∧ xs.filter (jsonIn · ys) ≠ [] ∧
      v = .list (xs.filter (jsonIn · ys))
  | .typeIntersection => (asTypeList a).filter (fun x => (asTypeList b).any (Value.pyEqual x)) ≠ [] ∧
      v = .list ((asTypeList a).filter fun x => (asTypeList b).any (Value.pyEqual x))

theorem narrow_eq_some_iff {rule : Rule} {b : Value} : narrow rule a b = some v ↔ rule.Kept a b v := by
  cases rule with
  | identical | eitherTrue => simp [narrow, Rule.Kept]
  | numericMax | numericMin => simp [narrow, Rule.Kept, and_assoc]
  | listIntersection => exact sharedItems_eq_some
  | typeIntersection => exact nonEmptyList_eq_some

theorem narrow_ne_null {rule : Rule} {b : Value} (h : narrow rule a b = some v) : v ≠ .null := by
  rintro rfl
  cases rule with
  | identical | eitherTrue => simp [narrow] at h
  | numericMax =>
    simp only [narrow, ite_none_right_eq_some, Bool.and_eq_true, Option.some.injEq] at h
    rcases Value.max_eq a b with ⟨he, -⟩ | ⟨he, -⟩ <;> rw [he] at h <;> obtain ⟨⟨h1, h2⟩, rfl⟩ := h
    · cases h1
    · cases h2
  | numericMin =>
    simp only [narrow, ite_none_right_eq_some, Bool.and_eq_true, Option.some.injEq] at h
    rcases Value.min_eq a b with ⟨he, -⟩ | ⟨he, -⟩ <;> rw [he] at h <;> obtain ⟨⟨h1, h2⟩, rfl⟩ := h
    · cases h1
    · cases h2
  | listIntersection =>
    obtain ⟨_, _, _, _, _, h⟩ := sharedItems_eq_some.1 h
    cases h
  | typeIntersection => cases (nonEmptyList_eq_some.1 h).2

theorem Tighter.ne_null {rule : Rule} (h : Tighter rule v a) (ha : a ≠ .null) : v ≠ .null := by
  cases h with
  | same h => rw [h]; exact ha
  | equal h =>
    rintro rfl
    cases a <;> simp [jsonEqual] at h
    exact ha rfl
  | left b h | right b h => exact narrow_ne_null h

theorem Tighter.identical (h : Tighter .identical v a) : v = a ∨ jsonEqual v a = true := by
  cases h with
  | same h => exact .inl h
  | equal h => exact .inr h
  | left b h => cases h
  | right b h => cases h

theorem Tighter.identical_str {s : String} (h : Tighter .identical v (.str s)) : v = .str s := by
  rcases h.identical with h | h
  · exact h
  · cases v <;> simp [jsonEqual] at h
    rw [h]

theorem Tighter.eitherTrue (h : Tighter .eitherTrue v (.bool true)) : v = .bool true := by
  cases h with
  | same h => exact h
  | equal h =>
    cases v <;> simp [jsonEqual] at h
    rw [h]
  | left b h => simp only [narrow, Value.truthy, Bool.true_or, Option.some.injEq] at h; exact h.symm
  | right b h => simp only [narrow, Value.truthy, Bool.or_true, Option.some.injEq] at h; exact h.symm

section Numbers

variable {v a : Value} {p q : ℚ}

theorem num_eq_of_equal (nv : v.isBool = false) (hv : v.num? = some (.finite p)) (ha : a.num? = some (.finite q))
    (h : jsonEqual v a = true) : p = q := by
  obtain ⟨y, hy, -, he⟩ := (jsonEqual_num_iff hv nv).1 h
  rw [ha] at hy; cases hy
  simpa [PyFloat.eq] using he

theorem Tighter.le_lower (h : Tighter .numericMax v a) (nv : v.isBool = false) (hv : v.num? = some (.finite p))
    (ha : a.num? = some (.finite q)) : q ≤ p := by
  cases h with
  | same h => subst h; rw [hv] at ha; cases ha; exact le_refl _
  | equal h => exact (num_eq_of_equal nv hv ha h).ge
  | left b h =>
    simp only [narrow, ite_none_right_eq_some, Option.some.injEq] at h
    rcases Value.max_eq a b with ⟨he, -⟩ | ⟨he, hl⟩ <;> rw [he] at h <;> obtain ⟨-, rfl⟩ := h
    · rw [hv] at ha; cases ha; exact le_refl _
    · rw [Value.lt_num ha hv] at hl; exact (by simpa using hl : q < p).le
  | right b h =>
    simp only [narrow, ite_none_right_eq_some, Option.some.injEq] at h
    rcases Value.max_eq b a with ⟨he, hl⟩ | ⟨he, -⟩ <;> rw [he] at h <;> obtain ⟨-, rfl⟩ := h
    · rw [Value.lt_num hv ha] at hl; simpa using hl
    · rw [hv] at ha; cases ha; exact le_refl _

theorem Tighter.upper_le (h : Tighter .numericMin v a) (nv : v.isBool = false) (hv : v.num? = some (.finite p))
    (ha : a.num? = some (.finite q)) : p ≤ q := by
  cases h with
  | same h => subst h; rw [hv] at ha; cases ha; exact le_refl _
  | equal h => exact (num_eq_of_equal nv hv ha h).le
  | left b h =>
    simp only [narrow, ite_none_right_eq_some, Option.some.injEq] at h
    rcases Value.min_eq a b with ⟨he, -⟩ | ⟨he, hl⟩ <;> rw [he] at h <;> obtain ⟨-, rfl⟩ := h
    · rw [hv] at ha; cases ha; exact le_refl _
    · rw [Value.lt_num hv ha] at hl; exact (by simpa using hl : p < q).le
  | right b h =>
    simp only [narrow, ite_none_right_eq_some, Option.some.injEq] at h
    rcases Value.min_eq b a with ⟨he, hl⟩ | ⟨he, -⟩ <;> rw [he] at h <;> obtain ⟨-, rfl⟩ := h
    · rw [Value.lt_num ha hv] at hl; simpa using hl
    · rw [hv] at ha; cases ha; exact le_refl _

theorem Tighter.not_below (h : Tighter .numericMax v a) (hv : finiteNumber v = .ok true)
    (ha : finiteNumber a = .ok true) {x : Value} (hx : finiteNumber x = .ok true) (hlt : Value.lt x v = false) :
    Value.lt x a = false := by
  obtain ⟨-, x, hx⟩ := finiteNumber_true hx
  obtain ⟨nv, p, hp⟩ := finiteNumber_true hv
  obtain ⟨-, q, hq⟩ := finiteNumber_true ha
  have hle : q ≤ p := h.le_lower nv hp hq
  rw [Value.lt_num hx hp, PyFloat.lt_finite, decide_eq_false_iff_not, not_lt] at hlt
  rw [Value.lt_num hx hq, PyFloat.lt_finite, decide_eq_false_iff_not, not_lt]
  exact hle.trans hlt

theorem Tighter.not_above (h : Tighter .numericMin v a) (hv : finiteNumber v = .ok true)
    (ha : finiteNumber a = .ok true) {x : Value} (hx : finiteNumber x = .ok true) (hlt : Value.lt v x = false) :
    Value.lt a x = false := by
  obtain ⟨-, x, hx⟩ := finiteNumber_true hx
  obtain ⟨nv, p, hp⟩ := finiteNumber_true hv
  obtain ⟨-, q, hq⟩ := finiteNumber_true ha
  have hle : p ≤ q := h.upper_le nv hp hq
  rw [Value.lt_num hp hx, PyFloat.lt_finite, decide_eq_false_iff_not, not_lt] at hlt
  rw [Value.lt_num hq hx, PyFloat.lt_finite, decide_eq_false_iff_not, not_lt]
  exact hlt.trans hle

end Numbers

variable {items : List String}

section Lists

variable {v a : Value} {vs as : List Value}

theorem jsonEqualList_mem : ∀ {as bs : List Value}, jsonEqualList as bs = true →
    ∀ x ∈ as, ∃ y ∈ bs, jsonEqual x y = true
  | [], _, _, x, hx => by cases hx
  | a :: as, [], h, _, _ => by simp [jsonEqualList] at h
  | a :: as, b :: bs, h, x, hx => by
    simp only [jsonEqualList, Bool.and_eq_true] at h
    rcases List.mem_cons.1 hx with rfl | hx
    · exact ⟨b, List.mem_cons_self .., h.1⟩
    · obtain ⟨y, hy, he⟩ := jsonEqualList_mem h.2 x hx
      exact ⟨y, List.mem_cons_of_mem _ hy, he⟩

theorem jsonEqual_items (hv : v.items? = some vs) (ha : a.items? = some as) (h : jsonEqual v a = true) :
    jsonEqualList vs as = true := by
  rcases Value.items?_eq_some.1 hv with rfl | rfl <;> rcases Value.items?_eq_some.1 ha with rfl | rfl <;>
    simpa [jsonEqual] using h

theorem Tighter.jsonIn (h : Tighter .listIntersection v a) (hv : v.items? = some vs) (ha : a.items? = some as)
    {x : Value} (hx : jsonIn x vs = true) : jsonIn x as = true := by
  obtain ⟨y, hy, he⟩ := jsonIn_iff.1 hx
  cases h with
  | same h => subst h; rw [hv] at ha; cases ha; exact hx
  | equal h =>
    obtain ⟨z, hz, hyz⟩ := jsonEqualList_mem (jsonEqual_items hv ha h) y hy
    exact jsonIn_iff.2 ⟨z, hz, jsonEqual_trans he hyz⟩
  | left b h =>
    obtain ⟨ls, rs, rfl, rfl, -, rfl⟩ := sharedItems_eq_some.1 h
    cases hv; cases ha
    exact jsonIn_iff.2 ⟨y, (List.mem_filter.1 hy).1, he⟩
  | right b h =>
    obtain ⟨ls, rs, rfl, rfl, -, rfl⟩ := sharedItems_eq_some.1 h
    cases hv; cases ha
    exact jsonIn_of_equal he (List.mem_filter.1 hy).2

theorem mem_nonEmptyStrings {xs : List Value} (h : nonEmptyStrings? xs = some items)
    (s : String) : s ∈ items ↔ .str s ∈ xs ∧ s ≠ "" := by
  rw [(mapM_some_mem h).1 s]
  constructor
  · rintro ⟨x, hx, hs⟩
    obtain ⟨t, ht, hst⟩ := bind_eq_some_iff.1 hs
    rw [Value.str?_eq_some] at ht; subst ht
    simp only [ite_none_left_eq_some, Option.some.injEq] at hst
    obtain ⟨hne, rfl⟩ := hst
    exact ⟨hx, hne⟩
  · rintro ⟨hx, hne⟩
    exact ⟨_, hx, by simp [Value.str?, hne]⟩

theorem stringItems?_eq_some : stringItems? v = some items ↔
    ∃ x xs, v.items? = some (x :: xs) ∧ nonEmptyStrings? (x :: xs) = some items := by
  unfold stringItems?
  split
  · rename_i x xs h; simp [h]
  rename_i h
  simp only [reduceCtorEq, false_iff, not_exists, not_and]
  intro x xs hx
  exact absurd hx (h x xs)

theorem Tighter.strings (h : Tighter .listIntersection v a) {vs as : List String} (hv : stringItems? v = some vs)
    (ha : stringItems? a = some as) {s : String} (hs : s ∈ vs) : s ∈ as := by
  obtain ⟨x, xs, hx, hvs⟩ := stringItems?_eq_some.1 hv
  obtain ⟨y, ys, hy, has⟩ := stringItems?_eq_some.1 ha
  obtain ⟨hm, hne⟩ := (mem_nonEmptyStrings hvs s).1 hs
  have hin : Security.jsonIn (.str s) (x :: xs) = true := jsonIn_iff.2 ⟨_, hm, by simp [jsonEqual]⟩
  obtain ⟨z, hz, he⟩ := jsonIn_iff.1 (h.jsonIn hx hy hin)
  rw [jsonEqual_str he] at hz
  exact (mem_nonEmptyStrings has s).2 ⟨hz, hne⟩

end Lists

theorem asTypeList_of_equal {ts us : List String} (hv : (asTypeList v).mapM Value.str? = some ts)
    (ha : (asTypeList a).mapM Value.str? = some us) (h : jsonEqual v a = true) {x : Value} (hx : x ∈ asTypeList v) :
    x ∈ asTypeList a := by
  obtain ⟨t, ht⟩ := (mapM_some_mem hv).2 x hx
  rw [Value.str?_eq_some] at ht; subst ht
  cases v with
  | list =>
    cases a with
    | list =>
      obtain ⟨y, hy, he⟩ := jsonEqualList_mem (jsonEqual_items rfl rfl h) _ hx
      rw [jsonEqual_str he] at hy; exact hy
    | tuple => simp [asTypeList, Value.str?] at ha
    | _ => simp [jsonEqual] at h
  | str => rw [jsonEqual_str h]; exact hx
  | _ => simp [asTypeList] at hx

theorem Tighter.types (h : Tighter .typeIntersection v a) {ts us : List String}
    (hv : (asTypeList v).mapM Value.str? = some ts) (ha : (asTypeList a).mapM Value.str? = some us) {t : String}
    (ht : t ∈ ts) : t ∈ us := by
  obtain ⟨x, hx, hxt⟩ := ((mapM_some_mem hv).1 t).1 ht
  rw [Value.str?_eq_some] at hxt; subst hxt
  refine ((mapM_some_mem ha).1 t).2 ⟨.str t, ?_, rfl⟩
  cases h with
  | same h => subst h; exact hx
  | equal h => exact asTypeList_of_equal hv ha h hx
  | left b h =>
    obtain ⟨-, rfl⟩ := nonEmptyList_eq_some.1 h
    exact (List.mem_filter.1 hx).1
  | right b h =>
    obtain ⟨-, rfl⟩ := nonEmptyList_eq_some.1 h
    obtain ⟨y, hy, he⟩ := List.any_eq_true.1 (List.mem_filter.1 hx).2
    obtain ⟨u, hu⟩ := (mapM_some_mem ha).2 y hy
    rw [Value.str?_eq_some] at hu; subst hu
    rw [Value.pyEqual_str, beq_iff_eq] at he
    rw [he]; exact hy

/-! ## A specification against a merged one -/

/-- Every limit of `l` has its merged limit in `m`. -/
def Keeps (m l : Dict) : Prop :=
  ∀ key a, Assoc.get? l key = some a →
    ∃ rule v, specNarrower key = some rule ∧ Assoc.get? m key = some v ∧ Tighter rule v a

section Keeps

variable {order : SetOrder} {l r m : Dict} {key : String} {a : Value}

theorem mem_keyUnion : key ∈ keyUnion order l r ↔ (∃ v, get? l key = some v) ∨ ∃ v, get? r key = some v := by
  rw [keyUnion, order.mem_visit, List.mem_append, mem_keys_iff, mem_keys_iff]

theorem mem_keyUnion_of (h : get? l key = some a ∨ get? r key = some a) : key ∈ keyUnion order l r :=
  mem_keyUnion.2 (h.imp (fun h => ⟨a, h⟩) fun h => ⟨a, h⟩)

theorem narrowKey_eq {rule : Rule} (hrule : specNarrower key = some rule) :
    narrowKey l r key = (joinSides (narrow rule) (get? l key) (get? r key)).elim (.error key) .ok := by
  unfold narrowKey
  rw [hrule]
  cases get? l key with
  | none => rfl
  | some a =>
    cases get? r key with
    | none => rfl
    | some b =>
      simp only [joinSides]
      split
      · rfl
      · cases narrow rule a b <;> rfl

theorem narrowKey_joined {w : Option Value} (h : narrowKey l r key = .ok w) : ∃ rule, specNarrower key = some rule ∧
    Joined (fun a b v => narrow rule a b = some v) (get? l key) (get? r key) w := by
  cases hrule : specNarrower key with
  | none => simp [narrowKey, hrule] at h
  | some rule =>
    rw [narrowKey_eq hrule, joinSides_ok_iff] at h
    exact ⟨rule, rfl, joinSides_some_iff.1 h⟩

theorem narrowArgumentSpec_keeps (h : narrowArgumentSpec order l r = .ok m) : Keeps m l ∧ Keeps m r := by
  have side : ∀ key a, get? l key = some a ∨ get? r key = some a →
      ∃ rule v, specNarrower key = some rule ∧ get? m key = some v ∧ Tighter rule v a := by
    intro key a ha
    obtain ⟨rule, hrule, hjoined⟩ := narrowKey_joined ((build_ok h).1 key (mem_keyUnion_of ha))
    obtain ⟨v, hv, ht⟩ := hjoined.tighter (fun _ _ _ _ _ _ h => h) ha
    exact ⟨rule, v, hrule, hv, ht⟩
  exact ⟨fun key a ha => side key a (.inl ha), fun key b hb => side key b (.inr hb)⟩

theorem Keeps.get (hk : Keeps m l) (rule : Rule) (hr : specNarrower key = some rule) (ha : get? l key = some a) :
    ∃ v, get? m key = some v ∧ Tighter rule v a := by
  obtain ⟨rule', v, hr', hv, ht⟩ := hk key a ha
  rw [hr] at hr'; cases hr'
  exact ⟨v, hv, ht⟩

theorem Keeps.given (hk : Keeps m l) (rule : Rule) (hr : specNarrower key = some rule) (ha : given? l key = some a) :
    ∃ v, given? m key = some v ∧ Tighter rule v a := by
  obtain ⟨ha, hne⟩ := given?_eq_some.1 ha
  obtain ⟨v, hv, ht⟩ := hk.get rule hr ha
  exact ⟨v, given?_eq_some.2 ⟨hv, ht.ne_null hne⟩, ht⟩

end Keeps

/-! ## The checks of a specification -/

section Checks

variable {env : Env} {name : String} {value : Value} {m l : Dict}

theorem matchesType_true {expected : Value} : matchesType value expected = .ok true ↔
    ∃ types, (asTypeList expected).mapM Value.str? = some types ∧ ∃ t ∈ types, typeMatches value t = true := by
  unfold matchesType
  cases (asTypeList expected).mapM Value.str? with
  | none => simp
  | some => simp

theorem checkType_ok_iff : checkType env name value spec = .ok () ↔
    ∀ v, given? spec "type" = some v → matchesType value v = .ok true := by
  unfold checkType
  cases given? spec "type" with
  | none => simp
  | some =>
    simp only [bind_ok_iff, refuseIf_ok_iff, Option.some.injEq, forall_eq']
    simp

theorem checkConst_of_keeps (hk : Keeps m l) (h : checkConst env name value m = .ok ()) :
    checkConst env name value l = .ok () := by
  unfold checkConst at h ⊢
  cases ha : get? l "const" with
  | none => rfl
  | some =>
    obtain ⟨v, hv, ht⟩ := hk.get .identical rfl ha
    simp only [hv, refuseIf_ok_iff, Bool.not_eq_false'] at h ⊢
    rcases ht.identical with rfl | he
    · exact h
    · exact jsonEqual_trans h he

theorem checkEnum_ok_iff : checkEnum env name value spec = .ok () ↔
    ∀ v, given? spec "enum" = some v → ∃ x xs, v = .list (x :: xs) ∧ jsonIn value (x :: xs) = true := by
  unfold checkEnum
  split
  · rename_i h; simp [h]
  · rename_i x xs h; simp [h]
  · rename_i v hne h
    simp only [refuse_ne_ok, h, Option.some.injEq, forall_eq', false_iff, not_exists, not_and]
    rintro x xs rfl
    exact absurd rfl (hne x xs)

theorem checkBound_ok_iff {beyond : Value → Value → Bool} {malformed outside : String} {limit : Value} :
    checkBound value beyond malformed outside (some limit) = .ok () ↔
      finiteNumber limit = .ok true ∧ finiteNumber value = .ok true ∧ beyond value limit = false := by
  simp only [checkBound, bind_ok_iff, refuseIf_ok_iff, Bool.not_eq_false', Bool.or_eq_false_iff]
  constructor
  · rintro ⟨_, hl, _, rfl, _, hv, rfl, hb⟩; exact ⟨hl, hv, hb⟩
  · rintro ⟨hl, hv, hb⟩; exact ⟨true, hl, (), rfl, true, hv, rfl, hb⟩

theorem checkLength_ok_iff {beyond : Int → Int → Bool} {malformed outside : String} {limit : Value} :
    checkLength value beyond malformed outside (some limit) = .ok () ↔
      ∃ n : Int, limit = .int n ∧ 0 ≤ n ∧ ∃ s, value = .str s ∧ beyond s.length n = false := by
  cases limit with
  | int => cases value <;> simp [checkLength, bind_ok_iff]
  | _ => simp [checkLength]

theorem lengthLimit_int (h : lengthLimit a = true) : ∃ n : Int, a = .int n ∧ 0 ≤ n := by
  cases a <;> simp [lengthLimit] at h
  exact ⟨_, rfl, h⟩

theorem checkPattern_of_keeps (hk : Keeps m l) (h : checkPattern env name value m = .ok ()) :
    checkPattern env name value l = .ok () := by
  unfold checkPattern at h ⊢
  cases ha : given? l "pattern" with
  | none => rfl
  | some =>
    obtain ⟨v, hv, ht⟩ := hk.given .identical rfl ha
    rw [hv] at h
    rcases ht.identical with rfl | he
    · exact h
    · cases v with
      | str => rw [jsonEqual_str he]; exact h
      | _ => simp at h

/-! ## The URL checks -/

theorem nonEmptyStringTuple_ok_iff {label : String} :
    nonEmptyStringTuple v label = .ok items ↔ stringItems? v = some items := by
  unfold nonEmptyStringTuple stringItems?
  cases v.items? with
  | none => simp
  | some xs =>
    cases xs with
    | nil => simp
    | cons x xs => cases h : nonEmptyStrings? (x :: xs) <;> simp [h]

/-- A list limit that, if given, is a list of strings with one that satisfies `P`. -/
def SomeItem (P : String → Prop) (spec : Dict) (key : String) : Prop :=
  ∀ v, given? spec key = some v → ∃ items, stringItems? v = some items ∧ ∃ s ∈ items, P s

theorem SomeItem.of_keeps {P : String → Prop} (hk : Keeps m l) (hr : specNarrower key = some .listIntersection)
    (hw : ∀ a, given? l key = some a → (stringItems? a).isSome = true) (h : SomeItem P m key) : SomeItem P l key := by
  intro a ha
  obtain ⟨v, hv, ht⟩ := hk.given _ hr ha
  obtain ⟨vs, hvs, s, hs, hP⟩ := h v hv
  obtain ⟨as, has⟩ := isSome_iff_exists.1 (hw a ha)
  exact ⟨as, has, s, ht.strings hvs has hs, hP⟩

theorem checkAllowedSchemes_ok_iff {scheme : String} : checkAllowedSchemes env name scheme spec = .ok () ↔
      SomeItem (fun s => env.lower s = env.lower scheme) spec "allowed_schemes" := by
  unfold checkAllowedSchemes SomeItem
  cases given? spec "allowed_schemes" with
  | none => simp
  | some => simp [bind_ok_iff, nonEmptyStringTuple_ok_iff]

theorem checkAllowedHosts_ok_iff {host : String} : checkAllowedHosts env name host spec = .ok () ↔
      SomeItem (fun s => env.lower (rstripDots s) = host) spec "allowed_hosts" := by
  unfold checkAllowedHosts SomeItem
  cases given? spec "allowed_hosts" with
  | none => simp
  | some => simp [normalizedHosts, bind_ok_iff, nonEmptyStringTuple_ok_iff]

theorem checkAllowedDomains_ok_iff {host : String} : checkAllowedDomains env name host spec = .ok () ↔
      SomeItem (fun s => host = env.lower (rstripDots s) ∨ endsWith host ("." ++ env.lower (rstripDots s)) = true)
        spec "allowed_domains" := by
  unfold checkAllowedDomains SomeItem
  cases given? spec "allowed_domains" with
  | none => simp
  | some => simp [normalizedHosts, bind_ok_iff, nonEmptyStringTuple_ok_iff]

theorem stringItems?_of_wellFormed (hw : wellFormedSpec l = true)
    (hkey : key ∈ ["allowed_schemes", "allowed_hosts", "allowed_domains"]) (ha : given? l key = some a) :
    (stringItems? a).isSome = true := by
  obtain ⟨hget, hne⟩ := given?_eq_some.1 ha
  have hwa := wellFormedSpec_get hw hget
  simp only [List.mem_cons, List.not_mem_nil, or_false] at hkey
  rcases hkey with rfl | rfl | rfl <;> cases a <;> first
    | exact absurd rfl hne
    | simpa [wellFormedLimit] using hwa

theorem Keeps.contains_any (hk : Keeps m l) (keys : List String) (h : keys.any (Assoc.contains l) = true) :
    keys.any (Assoc.contains m) = true := by
  obtain ⟨key, hkey, hc⟩ := List.any_eq_true.1 h
  obtain ⟨a, ha⟩ := mem_keys_iff.1 (contains_iff.1 hc)
  obtain ⟨_, v, _, hv, _⟩ := hk key a ha
  exact List.any_eq_true.2 ⟨key, hkey, contains_iff.2 (mem_keys_iff.2 ⟨v, hv⟩)⟩

/-! ## A specification that is kept -/

section

variable (hk : Keeps m l) (hw : wellFormedSpec l = true)

include hk hw

theorem checkType_of_keeps (h : checkType env name value m = .ok ()) : checkType env name value l = .ok () := by
  rw [checkType_ok_iff] at h ⊢
  intro a ha
  obtain ⟨v, hv, ht⟩ := hk.given .typeIntersection rfl ha
  obtain ⟨ts, hts, t, hmem, hmatch⟩ := matchesType_true.1 (h v hv)
  have hwa := wellFormedSpec_get hw (given?_eq_some.1 ha).1
  obtain ⟨us, hus⟩ : ∃ us, (asTypeList a).mapM Value.str? = some us := by
    cases a <;> simp only [wellFormedLimit] at hwa <;> first
      | exact absurd rfl (given?_eq_some.1 ha).2
      | exact isSome_iff_exists.1 hwa
  exact matchesType_true.2 ⟨us, hus, t, ht.types hts hus hmem, hmatch⟩

theorem checkEnum_of_keeps (h : checkEnum env name value m = .ok ()) : checkEnum env name value l = .ok () := by
  rw [checkEnum_ok_iff] at h ⊢
  intro a ha
  obtain ⟨v, hv, ht⟩ := hk.given .listIntersection rfl ha
  obtain ⟨x, xs, rfl, hin⟩ := h v hv
  have hwa := wellFormedSpec_get hw (given?_eq_some.1 ha).1
  obtain ⟨y, ys, rfl⟩ : ∃ y ys, a = .list (y :: ys) := by
    cases a with
    | null => exact absurd rfl (given?_eq_some.1 ha).2
    | list xs => cases xs with
      | nil => simp [wellFormedLimit] at hwa
      | cons y ys => exact ⟨y, ys, rfl⟩
    | _ => simp [wellFormedLimit] at hwa
  exact ⟨y, ys, rfl, ht.jsonIn rfl rfl hin⟩

theorem checkMinimum_of_keeps (h : checkMinimum env name value m = .ok ()) :
    checkMinimum env name value l = .ok () := by
  unfold checkMinimum at h ⊢
  cases ha : get? l "minimum" with
  | none => rfl
  | some =>
    obtain ⟨v, hv, ht⟩ := hk.get .numericMax rfl ha
    rw [hv, checkBound_ok_iff] at h
    obtain ⟨hfv, hval, hlt⟩ := h
    have hfa := finiteLimit_eq (wellFormedSpec_get hw ha)
    exact checkBound_ok_iff.2 ⟨hfa, hval, ht.not_below hfv hfa hval hlt⟩

theorem checkMaximum_of_keeps (h : checkMaximum env name value m = .ok ()) :
    checkMaximum env name value l = .ok () := by
  unfold checkMaximum at h ⊢
  cases ha : get? l "maximum" with
  | none => rfl
  | some =>
    obtain ⟨v, hv, ht⟩ := hk.get .numericMin rfl ha
    rw [hv, checkBound_ok_iff] at h
    obtain ⟨hfv, hval, hlt⟩ := h
    have hfa := finiteLimit_eq (wellFormedSpec_get hw ha)
    exact checkBound_ok_iff.2 ⟨hfa, hval, ht.not_above hfv hfa hval hlt⟩

theorem checkMinLength_of_keeps (h : checkMinLength env name value m = .ok ()) :
    checkMinLength env name value l = .ok () := by
  unfold checkMinLength at h ⊢
  cases ha : get? l "min_length" with
  | none => rfl
  | some =>
    obtain ⟨v, hv, ht⟩ := hk.get .numericMax rfl ha
    rw [hv, checkLength_ok_iff] at h
    obtain ⟨p, rfl, -, s, rfl, hlen⟩ := h
    obtain ⟨q, rfl, hq⟩ := lengthLimit_int (wellFormedSpec_get hw ha)
    refine checkLength_ok_iff.2 ⟨q, rfl, hq, s, rfl, ?_⟩
    have hle : q ≤ p := by exact_mod_cast ht.le_lower rfl rfl rfl
    rw [decide_eq_false_iff_not, not_lt] at hlen ⊢
    exact hle.trans hlen

theorem checkMaxLength_of_keeps (h : checkMaxLength env name value m = .ok ()) :
    checkMaxLength env name value l = .ok () := by
  unfold checkMaxLength at h ⊢
  cases ha : get? l "max_length" with
  | none => rfl
  | some =>
    obtain ⟨v, hv, ht⟩ := hk.get .numericMin rfl ha
    rw [hv, checkLength_ok_iff] at h
    obtain ⟨p, rfl, -, s, rfl, hlen⟩ := h
    obtain ⟨q, rfl, hq⟩ := lengthLimit_int (wellFormedSpec_get hw ha)
    refine checkLength_ok_iff.2 ⟨q, rfl, hq, s, rfl, ?_⟩
    have hle : p ≤ q := by exact_mod_cast ht.upper_le rfl rfl rfl
    rw [decide_eq_false_iff_not, not_lt] at hlen ⊢
    exact hlen.trans hle

theorem checkScheme_of_keeps {scheme : String} (h : checkScheme env name scheme m = .ok ()) :
    checkScheme env name scheme l = .ok () := by
  unfold checkScheme at h ⊢
  cases ha : given? l "scheme" with
  | none => rfl
  | some a =>
    obtain ⟨v, hv, ht⟩ := hk.given .identical rfl ha
    have hwa := wellFormedSpec_get hw (given?_eq_some.1 ha).1
    cases a with
    | null => exact absurd rfl (given?_eq_some.1 ha).2
    | str => rw [hv, ht.identical_str] at h; exact h
    | _ => simp [wellFormedLimit, nonEmptyStr] at hwa

theorem checkUrlConstraints_of_keeps (h : checkUrlConstraints env name value m = .ok ()) :
    checkUrlConstraints env name value l = .ok () := by
  unfold checkUrlConstraints at h ⊢
  by_cases hl : urlKeys.any (Assoc.contains l) = true
  · rw [if_pos hl]
    rw [if_pos (hk.contains_any _ hl)] at h
    obtain ⟨⟨scheme, host⟩, hu, h⟩ := bind_ok_iff.1 h
    refine bind_ok_iff.2 ⟨(scheme, host), hu, ?_⟩
    simp only [seq_ok_iff, checkAllowedSchemes_ok_iff, checkAllowedHosts_ok_iff, checkAllowedDomains_ok_iff] at h ⊢
    obtain ⟨h1, h2, h3, h4⟩ := h
    exact ⟨checkScheme_of_keeps hk hw h1,
      h2.of_keeps hk rfl fun a => stringItems?_of_wellFormed hw (by simp),
      h3.of_keeps hk rfl fun a => stringItems?_of_wellFormed hw (by simp),
      h4.of_keeps hk rfl fun a => stringItems?_of_wellFormed hw (by simp)⟩
  · rw [if_neg hl]

/-- `_check_argument_schema` is monotone: what passes a merged specification passes its parts. -/
theorem checkArgumentSchema_of_keeps (h : checkArgumentSchema env name value m = .ok ()) :
    checkArgumentSchema env name value l = .ok () := by
  simp only [checkArgumentSchema, seq_ok_iff] at h ⊢
  obtain ⟨h1, h2, h3, h4, h5, h6, h7, h8, h9⟩ := h
  exact ⟨checkType_of_keeps hk hw h1, checkConst_of_keeps hk h2, checkEnum_of_keeps hk hw h3,
    checkMinimum_of_keeps hk hw h4, checkMaximum_of_keeps hk hw h5, checkMinLength_of_keeps hk hw h6,
    checkMaxLength_of_keeps hk hw h7, checkPattern_of_keeps hk h8, checkUrlConstraints_of_keeps hk hw h9⟩

end

end Checks

end Portmark.Security
