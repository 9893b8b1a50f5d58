/-
The order of keys. `sortKeys` is the normal form of a value up to the order of the entries of its
objects: printing sees nothing but it, lookups and Python's `==` do not see the difference, and
`loads (dumps v)` is it. So two values with one text are equal up to order.
-/
import Portmark.Lib.Json.Roundtrip

namespace Portmark.Lib.Json

open Assoc

/-! ## Entries in key order -/

variable {α : Type}

theorem inOrder_perm (d : Assoc α) : (inOrder d).Perm d := List.perm_insertionSort _ d

theorem inOrder_pairwise (d : Assoc α) : (inOrder d).Pairwise fun a b => a.1 ≤ b.1 := by
  exact List.pairwise_insertionSort _ d

theorem inOrder_idem (d : Assoc α) : inOrder (inOrder d) = inOrder d :=
  (inOrder_pairwise d).insertionSort_eq

theorem map_inOrder {β : Type} (f : α → β) (d : Assoc α) :
    (inOrder d).map (fun e => (e.1, f e.2)) = inOrder (d.map fun e => (e.1, f e.2)) :=
  List.map_insertionSort _ _ _ _ fun _ _ _ _ => Iff.rfl

theorem sortItems_eq (xs : List Value) : sortItems xs = xs.map sortKeys := by
  induction xs with
  | nil => rfl
  | cons x xs ih => rw [sortItems, ih, List.map_cons]

theorem sortEntries_eq (d : List (String × Value)) : sortEntries d = d.map fun e => (e.1, sortKeys e.2) := by
  induction d with
  | nil => rfl
  | cons e d ih => obtain ⟨k, v⟩ := e; simp [sortEntries, ih]

theorem keys_sortEntries (d : List (String × Value)) : keys (sortEntries d) = keys d := by
  simp [sortEntries_eq, keys, Function.comp_def]

theorem sortKeys_dict (d : Dict) : sortKeys (.dict d) = .dict (inOrder (sortEntries d)) := by
  rw [sortKeys]

mutual

theorem sortKeys_idem : ∀ v : Value, sortKeys (sortKeys v) = sortKeys v
  | .null | .bool _ | .int _ | .float _ | .str _ => by simp [sortKeys]
  | .list xs | .tuple xs => by simp only [sortKeys, sortItems_idem xs]
  | .dict d => by
    have hmap : sortEntries (inOrder (sortEntries d)) = inOrder (sortEntries (sortEntries d)) := by
      rw [sortEntries_eq, sortEntries_eq (sortEntries d), map_inOrder]
    rw [sortKeys_dict, sortKeys_dict, hmap, sortEntries_idem d, inOrder_idem]

theorem sortItems_idem : ∀ xs : List Value, sortItems (sortItems xs) = sortItems xs
  | [] => rfl
  | v :: vs => by simp only [sortItems, sortKeys_idem v, sortItems_idem vs]

theorem sortEntries_idem : ∀ d : List (String × Value), sortEntries (sortEntries d) = sortEntries d
  | [] => rfl
  | (k, v) :: d => by simp only [sortEntries, sortKeys_idem v, sortEntries_idem d]

end

theorem dumps_sortKeys (floatText : ℚ → Text) (v : Value) : dumps floatText (sortKeys v) = dumps floatText v := by
  unfold dumps
  rw [sortKeys_idem]

/-! ## Lookups -/

theorem get?_perm {d e : Assoc α} (hp : d.Perm e) (hn : (keys d).Nodup) (k : String) : get? d k = get? e k := by
  have hn' : (keys e).Nodup := (hp.map Prod.fst).nodup_iff.1 hn
  apply Option.ext
  intro v
  rw [← mem_iff_get? hn, ← mem_iff_get? hn', hp.mem_iff]

theorem inOrder_ext {d e : Assoc α} (hd : (keys d).Nodup) (he : (keys e).Nodup)
    (h : ∀ k, get? d k = get? e k) : inOrder d = inOrder e := by
  have hmem : ∀ x, x ∈ d ↔ x ∈ e := by
    rintro ⟨k, v⟩
    rw [mem_iff_get? hd, mem_iff_get? he, h]
  have hperm : d.Perm e := (List.perm_ext_iff_of_nodup hd.of_map he.of_map).2 hmem
  refine List.Perm.eq_of_pairwise ?_ (inOrder_pairwise d) (inOrder_pairwise e)
    (((inOrder_perm d).trans hperm).trans (inOrder_perm e).symm)
  -- a key stands once, so entries of the same key are the same
  rintro ⟨k, v⟩ ⟨k', v'⟩ hv hv' hle hge
  obtain rfl : k = k' := String.le_antisymm hle hge
  have hv := (mem_iff_get? hd).1 ((inOrder_perm d).subset hv)
  have hv' := (mem_iff_get? he).1 ((inOrder_perm e).subset hv')
  rw [h, hv'] at hv
  cases hv
  rfl

theorem get?_map {β : Type} (f : α → β) (d : Assoc α) (k : String) :
    get? (d.map fun e => (e.1, f e.2)) k = (get? d k).map f := by
  induction d with
  | nil => rfl
  | cons e d ih =>
    rw [List.map_cons, get?_cons, get?_cons, ih]
    split <;> rfl

theorem get?_sortKeys {d : Dict} (hn : (keys d).Nodup) (k : String) :
    get? (inOrder (sortEntries d)) k = (get? d k).map sortKeys := by
  have hp := inOrder_perm (sortEntries d)
  have hn' : (keys (inOrder (sortEntries d))).Nodup := by
    rw [keys, (hp.map Prod.fst).nodup_iff]
    change (keys (sortEntries d)).Nodup
    rw [keys_sortEntries]
    exact hn
  rw [get?_perm hp hn', sortEntries_eq, get?_map]

/-! ## The round trip -/

section Plain

variable {F : PyFloat → Prop}

theorem plainEntries_iff (tuples : Bool) (d : List (String × Value)) :
    PlainEntries F tuples d ↔ ∀ e ∈ d, Plain F tuples e.2 := by
  induction d with
  | nil => simp [PlainEntries]
  | cons e d ih => obtain ⟨k, v⟩ := e; simp [PlainEntries, ih]

mutual

theorem sortKeys_plain : ∀ v : Value, Plain F true v → Plain F false (sortKeys v)
  | .null, _ | .bool _, _ | .str _, _ => by simp [sortKeys, Plain]
  | .int _, h | .float _, h => by simpa [sortKeys, Plain] using h
  | .list xs, h => by
    simp only [sortKeys, Plain] at h ⊢
    exact sortItems_plain xs h
  | .tuple xs, h => by
    simp only [sortKeys, Plain, true_and] at h ⊢
    exact sortItems_plain xs h
  | .dict d, h => by
    simp only [Plain] at h
    have hp := inOrder_perm (sortEntries d)
    rw [sortKeys_dict]
    simp only [Plain]
    refine ⟨?_, ?_⟩
    · rw [keys, (hp.map Prod.fst).nodup_iff]
      change (keys (sortEntries d)).Nodup
      rw [keys_sortEntries]
      exact h.1
    · rw [plainEntries_iff]
      intro e he
      exact (plainEntries_iff false _).1 (sortEntries_plain d h.2) e (hp.mem_iff.1 he)

theorem sortItems_plain : ∀ xs : List Value, PlainItems F true xs →
    PlainItems F false (sortItems xs)
  | [], _ => by simp [sortItems, PlainItems]
  | v :: vs, h => by
    simp only [sortItems, PlainItems] at h ⊢
    exact ⟨sortKeys_plain v h.1, sortItems_plain vs h.2⟩

theorem sortEntries_plain : ∀ d : List (String × Value), PlainEntries F true d →
    PlainEntries F false (sortEntries d)
  | [], _ => by simp [sortEntries, PlainEntries]
  | (k, v) :: d, h => by
    simp only [sortEntries, PlainEntries] at h ⊢
    exact ⟨sortKeys_plain v h.1, sortEntries_plain d h.2⟩

end

theorem loadsWith_dumps (hooks : Hooks) (floatText : ℚ → Text) {v : Value} (h : Plain (Reads hooks floatText) true v) :
    loadsWith hooks (dumps floatText v) = .ok (sortKeys v) :=
  loadsWith_text hooks floatText (sortKeys_plain v h)

/-- Two values with one text are equal up to the order of their keys. -/
theorem sortKeys_eq_of_dumps (hooks : Hooks) (floatText : ℚ → Text) {v w : Value}
    (hv : Plain (Reads hooks floatText) true v) (hw : Plain (Reads hooks floatText) true w)
    (h : dumps floatText v = dumps floatText w) : sortKeys v = sortKeys w := by
  have hload := loadsWith_dumps hooks floatText hv
  rw [h, loadsWith_dumps hooks floatText hw] at hload
  exact (Except.ok.inj hload).symm

/-! ## Python equality -/

mutual

theorem pyEqual_of_sortKeys (hF : ∀ x, F x → x ≠ .nan) : ∀ v w : Value, Plain F false v → Plain F false w →
    sortKeys v = sortKeys w → Value.pyEqual v w = true
  | .null, w, _, _, h => by cases w <;> simp [sortKeys] at h; simp [Value.pyEqual]
  | .bool b, w, _, _, h => by
    cases w <;> simp [sortKeys] at h
    subst h; cases b <;> simp [Value.pyEqual, Value.num?, PyFloat.eq]
  | .int n, w, _, _, h => by
    cases w <;> simp [sortKeys] at h
    subst h; simp [Value.pyEqual, Value.num?, PyFloat.eq]
  | .float x, w, hv, _, h => by
    cases w <;> simp [sortKeys] at h
    subst h
    simp only [Plain] at hv
    simpa [Value.pyEqual, Value.num?] using PyFloat.eq_iff.2 ⟨rfl, hF x hv⟩
  | .str s, w, _, _, h => by
    cases w <;> simp [sortKeys] at h
    subst h; simp [Value.pyEqual]
  | .tuple xs, w, hv, _, h => by simp [Plain] at hv
  | .list xs, w, hv, hw, h => by
    cases w with
    | list ys =>
      simp only [sortKeys, Value.list.injEq] at h
      simp only [Plain] at hv hw
      simp only [Value.pyEqual]
      exact pyEqualList_of_sortItems hF xs ys hv hw h
    | tuple ys => simp [Plain] at hw
    | _ => simp [sortKeys] at h
  | .dict d, w, hv, hw, h => by
    cases w with
    | dict e =>
      simp only [Plain] at hv hw
      rw [sortKeys_dict, sortKeys_dict, Value.dict.injEq] at h
      have hget : ∀ k, (get? d k).map sortKeys = (get? e k).map sortKeys := fun k => by
        rw [← get?_sortKeys hv.1, ← get?_sortKeys hw.1, h]
      simp only [Value.pyEqual, Bool.and_eq_true, List.all_eq_true]
      refine ⟨fun k hk => ?_, pyEqualDict_of_sortKeys hF d e hv.2 ?_⟩
      · obtain ⟨u, hu⟩ := Assoc.mem_keys_iff.1 hk
        have hk' := hget k
        rw [hu] at hk'
        obtain ⟨u', hu', -⟩ := Option.map_eq_some_iff.1 hk'
        exact Assoc.contains_iff.2 (Assoc.mem_keys_iff.2 ⟨u', hu'⟩)
      · intro k v hkv
        have hk' := hget k
        rw [get?_of_mem hv.1 hkv] at hk'
        obtain ⟨u, hu, he⟩ := Option.map_eq_some_iff.1 hk'.symm
        exact ⟨u, hu, (plainEntries_iff false e).1 hw.2 _ (mem_of_get? hu), he.symm⟩
    | _ => simp [sortKeys] at h

theorem pyEqualList_of_sortItems (hF : ∀ x, F x → x ≠ .nan) : ∀ xs ys : List Value, PlainItems F false xs →
    PlainItems F false ys → sortItems xs = sortItems ys → Value.pyEqualList xs ys = true
  | [], ys, _, _, h => by cases ys <;> simp [sortItems] at h; simp [Value.pyEqualList]
  | x :: xs, ys, hx, hy, h => by
    cases ys <;> simp only [sortItems, List.cons.injEq, reduceCtorEq] at h
    simp only [PlainItems] at hx hy
    simp only [Value.pyEqualList, Bool.and_eq_true]
    exact ⟨pyEqual_of_sortKeys hF x _ hx.1 hy.1 h.1, pyEqualList_of_sortItems hF xs _ hx.2 hy.2 h.2⟩

theorem pyEqualDict_of_sortKeys (hF : ∀ x, F x → x ≠ .nan) : ∀ (d : List (String × Value)) (e : Dict),
    PlainEntries F false d → (∀ k v, (k, v) ∈ d → ∃ w, get? e k = some w ∧ Plain F false w ∧ sortKeys v = sortKeys w) →
    Value.pyEqualDict d e = true
  | [], e, _, _ => by simp [Value.pyEqualDict]
  | (k, v) :: d, e, hd, h => by
    simp only [PlainEntries] at hd
    obtain ⟨w, hw, hp, he⟩ := h k v (List.mem_cons_self ..)
    simp only [Value.pyEqualDict, hw, Bool.and_eq_true]
    exact ⟨pyEqual_of_sortKeys hF v w hd.1 hp he,
      pyEqualDict_of_sortKeys hF d e hd.2 fun k' v' hm => h k' v' (List.mem_cons_of_mem _ hm)⟩

end

end Plain

end Portmark.Lib.Json
