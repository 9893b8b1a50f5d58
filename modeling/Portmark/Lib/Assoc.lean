/-
Association lists read as dictionaries: a key's value is its first entry, iteration visits the
keys with the values they are bound to, and a loop that builds a dictionary key by key, may skip
a key and may stop with an error is `build`. Loops that only check are `List.forM` in `Except`.
-/
import Mathlib.Data.List.Dedup
import Mathlib.Data.List.Nodup

namespace Portmark.Lib

open List

/-! ## Loops in `Except` -/

section Loops

variable {ε α : Type}

theorem forM_ok_iff (f : α → Except ε Unit) : ∀ l : List α, l.forM f = .ok () ↔ ∀ x ∈ l, f x = .ok ()
  | [] => by simp [pure, Except.pure]
  | x :: l => by
    show (f x >>= fun _ => l.forM f) = .ok () ↔ _
    simp only [mem_cons, forall_eq_or_imp, ← forM_ok_iff f l]
    cases h : f x with
    | error e | ok u => simp [bind, Except.bind]

variable {x : Except ε α}

theorem bind_ok_iff {β : Type} {f : α → Except ε β} {b : β} : x >>= f = .ok b ↔ ∃ a, x = .ok a ∧ f a = .ok b := by
  cases x with
  | _ => simp [bind, Except.bind]

theorem bind_error_iff {β : Type} {f : α → Except ε β} {e : ε} :
    x >>= f = .error e ↔ x = .error e ∨ ∃ a, x = .ok a ∧ f a = .error e := by
  cases x with
  | _ => simp [bind, Except.bind]

theorem seq_ok_iff {x y : Except ε Unit} : (x >>= fun _ => y) = .ok () ↔ x = .ok () ∧ y = .ok () := by
  rw [bind_ok_iff]
  constructor
  · rintro ⟨⟨⟩, h1, h2⟩; exact ⟨h1, h2⟩
  · rintro ⟨h1, h2⟩; exact ⟨(), h1, h2⟩

theorem map_ok_iff {β : Type} {f : α → β} {b : β} : f <$> x = .ok b ↔ ∃ a, x = .ok a ∧ f a = b := by
  cases x <;> simp [Functor.map, Except.map]

theorem foldlM_ok {β : Type} {f : β → α → Except ε β} {P : β → Prop} : ∀ {l : List α} {b b' : β}, P b →
    (∀ a ∈ l, ∀ b b', P b → f b a = .ok b' → P b') → l.foldlM f b = .ok b' → P b'
  | [], _, _, hb, _, h => by
    cases h
    exact hb
  | a :: l, b, _, hb, hstep, h => by
    obtain ⟨c, hc, h⟩ := bind_ok_iff.1 h
    exact foldlM_ok (hstep a mem_cons_self b c hb hc) (fun a ha => hstep a (mem_cons_of_mem _ ha)) h

/-- A loop that decodes every element, or stops at the first that it cannot: the results in order. -/
theorem mapM_ok_forall₂ {β : Type} {f : α → Except ε β} : ∀ {xs : List α} {ys : List β}, xs.mapM f = .ok ys →
    List.Forall₂ (fun x y => f x = .ok y) xs ys
  | [], ys, h => by
    rw [mapM_nil] at h
    cases h
    exact .nil
  | x :: xs, ys, h => by
    rw [mapM_cons] at h
    obtain ⟨y, hy, h⟩ := bind_ok_iff.1 h
    obtain ⟨ys', hys, h⟩ := bind_ok_iff.1 h
    cases h
    exact .cons hy (mapM_ok_forall₂ hys)

theorem mapM_some_mem {β : Type} {f : α → Option β} : ∀ {xs : List α} {ys : List β}, xs.mapM f = some ys →
    (∀ y, y ∈ ys ↔ ∃ x ∈ xs, f x = some y) ∧ ∀ x ∈ xs, ∃ y, f x = some y
  | [], ys, h => by
    simp only [mapM_nil, Option.pure_def, Option.some.injEq] at h
    subst h; simp
  | x :: xs, ys, h => by
    simp only [mapM_cons, Option.bind_eq_bind, Option.bind_eq_some_iff, Option.pure_def, Option.some.injEq] at h
    obtain ⟨y, hy, ys', hys, rfl⟩ := h
    obtain ⟨h1, h2⟩ := mapM_some_mem hys
    refine ⟨fun z => ?_, fun z hz => ?_⟩
    · simp only [mem_cons, h1, exists_eq_or_imp, hy, Option.some.injEq]
      rw [eq_comm (a := z)]
    · rcases mem_cons.1 hz with rfl | hz
      · exact ⟨y, hy⟩
      · exact h2 z hz

theorem mapM_isSome_iff {β : Type} {f : α → Option β} {xs : List α} :
    (xs.mapM f).isSome = true ↔ ∀ x ∈ xs, (f x).isSome = true := by
  induction xs with
  | nil => simp
  | cons x xs ih =>
    rw [forall_mem_cons, ← ih, mapM_cons]
    cases f x <;> cases xs.mapM f <;> simp

end Loops

/-! ## Dictionaries -/

abbrev Assoc (α : Type) := List (String × α)

namespace Assoc

variable {α β ε : Type}

def get? (d : Assoc α) (k : String) : Option α := d.lookup k

def keys (d : Assoc α) : List String := d.map Prod.fst

def contains (d : Assoc α) (k : String) : Bool := (get? d k).isSome

def items (d : Assoc α) : List (String × α) :=
  (keys d).filterMap fun k => (get? d k).map (k, ·)

@[simp] theorem get?_nil (k : String) : get? ([] : Assoc α) k = none := rfl

theorem get?_cons (k k' : String) (v : α) (d : Assoc α) :
    get? ((k, v) :: d) k' = if k' = k then some v else get? d k' := by
  unfold get?
  rw [lookup_cons]
  by_cases h : k' = k
  · simp [h]
  · simp [h, beq_eq_false_iff_ne.2 h]

theorem get?_append (d e : Assoc α) (k : String) : get? (d ++ e) k = (get? d k).or (get? e k) := by
  induction d with
  | nil => simp
  | cons p d ih =>
    rw [cons_append, get?_cons, get?_cons, ih]
    split <;> simp

variable {d : Assoc α} {k : String}

theorem mem_keys_iff : k ∈ keys d ↔ ∃ v, get? d k = some v := by
  induction d with
  | nil => simp [keys]
  | cons p d ih =>
    obtain ⟨k', v⟩ := p
    rw [get?_cons]
    simp only [keys, map_cons, mem_cons] at ih ⊢
    by_cases h : k = k'
    · simp [h]
    · simp only [h, false_or, if_false]; exact ih

theorem contains_iff : contains d k = true ↔ k ∈ keys d := by
  unfold contains
  rw [mem_keys_iff, Option.isSome_iff_exists]

theorem get?_eq_none_iff : get? d k = none ↔ k ∉ keys d := by
  rw [mem_keys_iff]
  cases get? d k <;> simp

variable {v : α}

theorem mem_of_get? (h : get? d k = some v) : (k, v) ∈ d := by
  induction d with
  | nil => simp at h
  | cons p d ih =>
    rw [get?_cons] at h
    split at h
    · rename_i hk; subst hk; cases h; exact mem_cons_self ..
    · exact mem_cons_of_mem _ (ih h)

theorem get?_of_mem (hn : (keys d).Nodup) (h : (k, v) ∈ d) : get? d k = some v := by
  induction d with
  | nil => cases h
  | cons p d ih =>
    obtain ⟨k', w⟩ := p
    simp only [keys, map_cons, nodup_cons] at hn
    rw [get?_cons]
    rcases mem_cons.1 h with he | hd
    · cases he; simp
    · have hne : k ≠ k' := by
        rintro rfl; exact hn.1 (mem_map.2 ⟨(k, v), hd, rfl⟩)
      rw [if_neg hne]; exact ih hn.2 hd

theorem mem_iff_get? (hn : (keys d).Nodup) : (k, v) ∈ d ↔ get? d k = some v := ⟨get?_of_mem hn, mem_of_get?⟩

theorem items_eq_self (hn : (keys d).Nodup) : items d = d := by
  have hbound : ∀ e ∈ d, (get? d e.1).map (e.1, ·) = some e := by
    rintro ⟨k, v⟩ he
    rw [get?_of_mem hn he, Option.map_some]
  rw [items, keys, filterMap_map]
  exact (filterMap_congr hbound).trans filterMap_some

theorem mem_items_iff : (k, v) ∈ items d ↔ get? d k = some v := by
  unfold items
  rw [mem_filterMap]
  constructor
  · rintro ⟨k', -, h⟩
    obtain ⟨w, hw, hp⟩ := Option.map_eq_some_iff.1 h
    cases hp; exact hw
  · intro h
    exact ⟨k, mem_keys_iff.2 ⟨v, h⟩, by simp [h]⟩

/-! ## Setting keys -/

/-- `d[k] = v`: in the key's place, or at the end. -/
def set (d : Assoc α) (k : String) (v : α) : Assoc α :=
  if contains d k then d.map fun e => if e.1 = k then (k, v) else e else d ++ [(k, v)]

/-- `d.update(e)`. -/
def update (d e : Assoc α) : Assoc α := e.foldl (fun d p => set d p.1 p.2) d

theorem update_cons (d : Assoc α) (k : String) (v : α) (e : Assoc α) : update d ((k, v) :: e) = update (set d k v) e :=
    rfl

theorem get?_set (d : Assoc α) (k k' : String) (v : α) :
    get? (set d k v) k' = if k' = k then some v else get? d k' := by
  have hmap : ∀ d : Assoc α, get? (d.map fun e => if e.1 = k then (k, v) else e) k' =
      if k' = k then (get? d k).map fun _ => v else get? d k' := by
    intro d
    induction d with
    | nil => simp
    | cons e d ih =>
      obtain ⟨k₀, v₀⟩ := e
      rw [map_cons, get?_cons, get?_cons]
      by_cases hk : k₀ = k
      · subst hk
        simp only [if_true, get?_cons, ih]
        split <;> simp_all
      · simp only [if_neg hk, get?_cons, ih, if_neg (Ne.symm hk)]
        by_cases h : k' = k
        · subst h; simp [Ne.symm hk]
        · simp [h]
  unfold set
  split
  · rename_i h
    obtain ⟨w, hw⟩ := mem_keys_iff.1 (contains_iff.1 h)
    rw [hmap, hw]
    rfl
  · rename_i h
    have hnone : get? d k = none := get?_eq_none_iff.2 fun hk => h (contains_iff.2 hk)
    rw [get?_append, get?_cons]
    by_cases hk : k' = k
    · subst hk; simp [hnone]
    · simp [hk]

theorem get?_setDefault (d : Assoc α) (k k' : String) (v : α) :
    get? (if contains d k then d else set d k v) k' = (get? d k').or (if k = k' then some v else none) := by
  by_cases hk : k = k'
  · subst hk
    cases h : get? d k <;> simp [contains, h, get?_set]
  · split <;> simp [Ne.symm hk, get?_set]

theorem update_nodup (d : Assoc α) : ∀ e : Assoc α, (keys (d ++ e)).Nodup → update d e = d ++ e
  | [], _ => by simp [update]
  | (k, v) :: e, h => by
    have hk : contains d k = false := by
      rw [Bool.eq_false_iff, Ne, contains_iff]
      intro hmem
      simp only [keys, map_append, map_cons] at h hmem
      exact (nodup_append.1 h).2.2 k hmem k (mem_cons_self ..) rfl
    have ih := update_nodup (d ++ [(k, v)]) e (by simpa using h)
    unfold update at ih ⊢
    rw [foldl_cons, show set d k v = d ++ [(k, v)] by simp [set, hk], ih]
    simp

theorem get?_update : ∀ (e : Assoc α), (keys e).Nodup → ∀ (d : Assoc α) (k : String),
    get? (update d e) k = (get? e k).or (get? d k)
  | [], _, d, k => by simp [update]
  | (k₀, v) :: e, h, d, k => by
    have hn : k₀ ∉ keys e ∧ (keys e).Nodup := by simpa [keys] using h
    have ih := get?_update e hn.2 (set d k₀ v) k
    unfold update at ih ⊢
    rw [foldl_cons, ih, get?_set, get?_cons]
    by_cases hk : k = k₀
    · subst hk
      simp [get?_eq_none_iff.2 hn.1]
    · simp [hk]

theorem keys_set (d : Assoc α) (k : String) (v : α) :
    keys (set d k v) = if contains d k then keys d else keys d ++ [k] := by
  unfold set
  split
  · have hmap : ∀ e : String × α, (if e.1 = k then (k, v) else e).1 = e.1 := by
      intro e
      split
      · rename_i h
        exact h.symm
      · rfl
    simp only [keys, map_map]
    apply map_congr_left
    intro e _
    exact hmap e
  · simp [keys]

theorem nodup_set (h : (keys d).Nodup) (k : String) (v : α) : (keys (set d k v)).Nodup := by
  rw [keys_set]
  split
  · exact h
  rename_i hk
  rw [contains_iff] at hk
  rw [nodup_append]
  refine ⟨h, by simp, ?_⟩
  intro a ha b hb hab
  rw [mem_singleton] at hb
  exact hk (hb ▸ hab ▸ ha)

theorem nodup_update : ∀ (e : Assoc α), (keys d).Nodup → (keys (update d e)).Nodup := by
  intro e
  induction e generalizing d with
  | nil => exact id
  | cons p e ih =>
    intro h
    exact ih (nodup_set h p.1 p.2)

theorem get?_filter (hn : (keys d).Nodup) (p : String × α → Bool) (k : String) :
    get? (d.filter p) k = (get? d k).filter fun v => p (k, v) := by
  induction d with
  | nil => rfl
  | cons e d ih =>
    obtain ⟨k₀, v₀⟩ := e
    have hn' : k₀ ∉ keys d ∧ (keys d).Nodup := by simpa [keys] using hn
    rw [filter_cons, get?_cons]
    by_cases hk : k = k₀
    · subst hk
      have hnone : get? d k = none := get?_eq_none_iff.2 hn'.1
      by_cases hp : p (k, v₀) = true
      · simp [hp, get?_cons, Option.filter]
      · simp [hp, ih hn'.2, hnone, Option.filter]
    · rw [if_neg hk, ← ih hn'.2]
      split
      · rw [get?_cons, if_neg hk]
      · rfl

/-! ## Building a dictionary -/

def build (f : String → Except ε (Option α)) : List String → Except ε (Assoc α)
  | [] => .ok []
  | k :: ks => do
    let v ← f k
    let d ← build f ks
    match v with
    | some v => return (k, v) :: d
    | none => return d

variable {f : String → Except ε (Option α)}

/-- What a built dictionary holds: for every key of the loop what was computed for it, and no other key. -/
theorem build_ok : ∀ {ks : List String} {d : Assoc α}, build f ks = .ok d →
    (∀ k ∈ ks, f k = .ok (get? d k)) ∧ ∀ k, k ∉ ks → get? d k = none
  | [], d, h => by cases h; simp
  | k :: ks, d, h => by
    simp only [build] at h
    obtain ⟨v, hv, h⟩ := bind_ok_iff.1 h
    obtain ⟨d', hd', h⟩ := bind_ok_iff.1 h
    obtain ⟨h1, h2⟩ := build_ok hd'
    have hget : ∀ k', get? d k' = if k' = k then v else get? d' k' := by
      intro k'
      cases v with
      | some => cases h; exact get?_cons ..
      | none =>
        cases h
        split
        · rename_i hk
          subst hk
          by_cases hk : k' ∈ ks
          · exact (Except.ok.inj (hv.symm.trans (h1 k' hk))).symm
          · exact h2 k' hk
        · rfl
    refine ⟨fun k' hk' => ?_, fun k' hk' => ?_⟩
    · rw [hget]
      split
      · rename_i hk
        rw [hk, hv]
      · rename_i hk
        exact h1 k' ((mem_cons.1 hk').resolve_left hk)
    · rw [mem_cons, not_or] at hk'
      rw [hget, if_neg hk'.1, h2 k' hk'.2]

theorem get?_build {ks : List String} (h : build f ks = .ok d) : get? d k = some v ↔ k ∈ ks ∧ f k = .ok (some v) := by
  by_cases hk : k ∈ ks
  · simp [(build_ok h).1 k hk, hk]
  · simp [(build_ok h).2 k hk, hk]

theorem build_error : ∀ {ks : List String} {e : ε},
    build f ks = .error e → ∃ k ∈ ks, f k = .error e
  | k :: ks, e, h => by
    simp only [build] at h
    rcases hv : f k with e' | v
    · rw [hv] at h
      cases h
      exact ⟨k, mem_cons_self .., hv⟩
    rw [hv] at h
    cases hd : build f ks with
    | error e' =>
      rw [hd] at h
      cases h
      obtain ⟨k', hk', he⟩ := build_error hd
      exact ⟨k', mem_cons_of_mem _ hk', he⟩
    | ok d =>
      rw [hd] at h
      cases v <;> cases h

theorem exists_build_error {ks : List String} {e : ε} (hk : k ∈ ks) (he : f k = .error e) :
    ∃ e, build f ks = .error e := by
  cases h : build f ks with
  | error e => exact ⟨e, rfl⟩
  | ok d => cases he.symm.trans ((build_ok h).1 k hk)

theorem build_head? {ks : List String} {e : ε} (h : ks.head? = some k) (he : f k = .error e) :
    build f ks = .error e := by
  obtain ⟨ks, rfl⟩ := head?_eq_some_iff.1 h
  simp only [build, he]
  rfl

theorem keys_build_sublist : ∀ {ks : List String} {d : Assoc α},
    build f ks = .ok d → (keys d).Sublist ks
  | [], d, h => by cases h; exact List.Sublist.refl _
  | k :: ks, d, h => by
    simp only [build] at h
    obtain ⟨v, -, h⟩ := bind_ok_iff.1 h
    obtain ⟨d', hd', h⟩ := bind_ok_iff.1 h
    have ih := keys_build_sublist hd'
    cases v with
    | some v => cases h; exact ih.cons_cons k
    | none => cases h; exact ih.cons k

end Assoc

end Portmark.Lib
