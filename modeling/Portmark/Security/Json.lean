/-
JSON at the trust boundary: `canonical_json` of security.py and `strict_json_loads` of
json_guard.py. What the strict parser accepts, `json.loads` reads as the same value, and that
value can be printed and read again.
-/
import Portmark.Lib.Json.Shape
import Portmark.Security.Check

namespace Portmark.Security

open Lib Lib.Json

/-! ## `canonical_json` -/

mutual

/-- A NaN or an infinity somewhere in the value, which `allow_nan=False` refuses. -/
def hasNonFinite : Value → Bool
  | .float (.finite _) => false
  | .float _ => true
  | .list xs => anyNonFinite xs
  | .tuple xs => anyNonFinite xs
  | .dict d => anyEntryNonFinite d
  | _ => false

def anyNonFinite : List Value → Bool
  | [] => false
  | v :: vs => hasNonFinite v || anyNonFinite vs

def anyEntryNonFinite : List (String × Value) → Bool
  | [] => false
  | (_, v) :: es => hasNonFinite v || anyEntryNonFinite es

end

/-- `canonical_json`, decoded: the text whose UTF-8 bytes it returns. -/
def canonicalJson (floatText : ℚ → Text) (v : Value) : Except PyError Text :=
  if hasNonFinite v then .error (.value "Out of range float values are not JSON compliant")
  else .ok (dumps floatText v)

/-! ## `strict_json_loads` -/

/-- `_MAX_JSON_DEPTH`. -/
def maxJsonDepth : Nat := 64

/-- `_check_depth`: the scan of the brackets outside string literals. -/
def checkDepth (maxDepth : Nat) : Text → Int → Bool → Bool → Bool
  | [], _, _, _ => true
  | _ :: cs, depth, true, true => checkDepth maxDepth cs depth true false
  | c :: cs, depth, true, false =>
    if c = '\\' then checkDepth maxDepth cs depth true true
    else if c = '"' then checkDepth maxDepth cs depth false false
    else checkDepth maxDepth cs depth true false
  | c :: cs, depth, false, _ =>
    if c = '"' then checkDepth maxDepth cs depth true false
    else if c = '{' ∨ c = '[' then
      if (maxDepth : Int) < depth + 1 then false else checkDepth maxDepth cs (depth + 1) false false
    else if c = '}' ∨ c = ']' then checkDepth maxDepth cs (depth - 1) false false
    else checkDepth maxDepth cs depth false false

def repeatedKey? : List String → List String → Option String
  | _, [] => none
  | seen, k :: ks => if seen.contains k then some k else repeatedKey? (k :: seen) ks

theorem repeatedKey?_eq_none : ∀ (ks seen : List String),
    repeatedKey? seen ks = none ↔ ks.Nodup ∧ ∀ k ∈ ks, k ∉ seen
  | [], seen => by simp [repeatedKey?]
  | k :: ks, seen => by
    unfold repeatedKey?
    by_cases h : k ∈ seen
    · simp [h]
    rw [if_neg (by simpa using h), repeatedKey?_eq_none ks (k :: seen)]
    simp only [List.nodup_cons, List.mem_cons, not_or, forall_eq_or_imp]
    constructor
    · rintro ⟨hn, hk⟩
      exact ⟨⟨fun hm => (hk k hm).1 rfl, hn⟩, h, fun k' hk' => (hk k' hk').2⟩
    · rintro ⟨⟨hk, hn⟩, -, hs⟩
      exact ⟨hn, fun k' hk' => ⟨fun he => hk (he ▸ hk'), hs k' hk'⟩⟩

def constantName : PyFloat → String
  | .nan => "NaN"
  | .inf => "Infinity"
  | _ => "-Infinity"

/-- The hooks of `strict_json_loads`. -/
def strictHooks (env : Env) : Hooks where
  object pairs :=
    match repeatedKey? [] (Assoc.keys pairs) with
    | some key => .error s!"duplicate object key: {env.repr key}"
    | none => .ok pairs
  object_nodup pairs h := by
    rw [(repeatedKey?_eq_none _ _).2 ⟨h, by simp⟩]
  float t :=
    match toDouble t.value with
    | .finite q => .ok (.float (.finite q))
    | _ => .error s!"non-finite number not allowed: {String.ofList t.source}"
  constant x := .error s!"non-finite JSON constant not allowed: {constantName x}"

/-- `strict_json_loads` of bytes, `none` when they are not UTF-8. -/
def strictJsonLoads (env : Env) (raw : Option Text) (maxBytes : Nat) : Except String Value :=
  match raw with
  | none => .error "input is not valid UTF-8"
  | some text =>
    if maxBytes < utf8Size text then .error s!"JSON input exceeds the size cap ({maxBytes} bytes)"
    else if !checkDepth maxJsonDepth text 0 false false then
      .error s!"JSON nesting exceeds the depth cap ({maxJsonDepth})"
    else
      match loadsWith (strictHooks env) text with
      | .ok v => .ok v
      | .error "malformed" => .error "malformed or unsafe JSON"
      | .error e => .error e

section Strict

variable {env : Env}

theorem strictHooks_object {pairs : List (String × Value)} {d : Dict}
    (h : (strictHooks env).object pairs = .ok d) : d = pairs ∧ (Assoc.keys d).Nodup := by
  simp only [strictHooks] at h
  split at h
  · cases h
  · rename_i hn
    cases h
    exact ⟨rfl, ((repeatedKey?_eq_none _ _).1 hn).1⟩

theorem strictHooks_refines : (strictHooks env).Refines plainHooks where
  object pairs d h := by
    obtain ⟨rfl, hn⟩ := strictHooks_object h
    exact plainHooks.object_nodup d hn
  float t v h := by
    simp only [strictHooks] at h
    split at h
    · rename_i q hq; cases h; simp [plainHooks, hq]
    · cases h
  constant x v h := by simp [strictHooks] at h

theorem strictHooks_sound : (strictHooks env).Sound fun _ => True where
  object pairs d h := by
    obtain ⟨rfl, hn⟩ := strictHooks_object h
    exact ⟨hn, fun e he => he⟩
  float t v h := by
    simp only [strictHooks] at h
    split at h
    · cases h; simp [Plain]
    · cases h
  constant x v h := by simp [strictHooks] at h

/-- What the strict parser accepts is read alike by `json.loads`, and is plain. -/
theorem strictJsonLoads_ok {raw : Option Text} {maxBytes : Nat} {v : Value}
    (h : strictJsonLoads env raw maxBytes = .ok v) :
    ∃ text, raw = some text ∧ loads text = .ok v ∧ Plain (fun _ => True) false v := by
  unfold strictJsonLoads at h
  split at h
  · cases h
  rename_i text
  split at h
  · cases h
  split at h
  · cases h
  split at h
  · rename_i w hw
    cases h
    exact ⟨text, rfl, loadsWith_refines strictHooks_refines _ _ hw, loadsWith_plain strictHooks_sound hw⟩
  · cases h
  · cases h

end Strict

end Portmark.Security
