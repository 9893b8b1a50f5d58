/-
Tables of a relational database, as the rows in the order they were inserted, and the statements a
program runs on them: a lookup, an insert under uniqueness constraints, an insert with a conflict
clause and a guarded update, each with the row count it reports. The lemmas say what a statement
does to the row a key selects.
-/
import Mathlib.Data.List.Nodup
import Mathlib.Logic.Function.Basic

namespace Portmark.Lib

open List

abbrev Table (R : Type) := List R

namespace Table

section Statements

variable {R : Type}

/-- `SELECT ... WHERE`, and `fetchone`. -/
def fetchOne (t : Table R) (which : R → Bool) : Option R := t.find? which

/-- `INSERT`: refused when a row that is there clashes with the new one. -/
def insert (clash : R → R → Bool) (t : Table R) (row : R) : Option (Table R) :=
  if t.any (clash row) then none else some (t ++ [row])

/-- `INSERT ... ON CONFLICT DO NOTHING`, with its row count. -/
def insertOrNothing (clash : R → R → Bool) (t : Table R) (row : R) : Nat × Table R :=
  if t.any (clash row) then (0, t) else (1, t ++ [row])

/-- `UPDATE ... SET ... WHERE`, with its row count. -/
def update (which : R → Bool) (set : R → R) (t : Table R) : Nat × Table R :=
  (t.countP which, t.map fun r => if which r then set r else r)

/-- `INSERT ... ON CONFLICT DO UPDATE SET ... WHERE`, with its row count. -/
def upsert (clash : R → R → Bool) (which : R → Bool) (set : R → R) (t : Table R) (row : R) : Nat × Table R :=
  if t.any (clash row) then update (fun r => clash row r && which r) set t else (1, t ++ [row])

end Statements

theorem update_none {R : Type} {which : R → Bool} {t : Table R} (set : R → R) (h : t.countP which = 0) :
    update which set t = (0, t) := by
  have hmap : (t.map fun r => if which r then set r else r) = t := by
    conv_rhs => rw [← map_id t]
    apply map_congr_left
    intro r hr
    rw [if_neg (countP_eq_zero.1 h r hr)]
    rfl
  unfold update
  rw [h, hmap]

/-! ## The row of a key -/

section Keys

variable {R K : Type} [DecidableEq K] (key : R → K)

def sameKey (a b : R) : Bool := decide (key b = key a)

def rowOf (t : Table R) (k : K) : Option R := t.fetchOne fun r => decide (key r = k)

def Unique (t : Table R) : Prop := (t.map key).Nodup

variable {key} {t : Table R} {row : R}

theorem key_of_rowOf {k : K} (h : rowOf key t k = some row) : key row = k := by
  have := find?_some h
  simpa using this

theorem rowOf_eq_none {k : K} : rowOf key t k = none ↔ ∀ r ∈ t, key r ≠ k := by
  simp [rowOf, fetchOne, find?_eq_none]

theorem any_sameKey : t.any (sameKey key row) = (rowOf key t (key row)).isSome := by
  rw [Bool.eq_iff_iff, Option.isSome_iff_ne_none, Ne, rowOf_eq_none]
  simp [sameKey, any_eq_true]

theorem rowOf_append (k : K) :
    rowOf key (t ++ [row]) k = (rowOf key t k).or (if key row = k then some row else none) := by
  by_cases h : key row = k <;> simp [rowOf, fetchOne, find?_append, h]

/-- A row appended under a new key is what the key selects; no other lookup sees it. -/
theorem rowOf_append_new (h : rowOf key t (key row) = none) :
    rowOf key (t ++ [row]) = Function.update (rowOf key t) (key row) (some row) := by
  funext k
  rw [rowOf_append]
  by_cases hk : k = key row
  · subst hk
    simp [h]
  · have hk' : key row ≠ k := fun e => hk e.symm
    simp [Function.update_of_ne hk, hk']

theorem insert_sameKey :
    insert (sameKey key) t row = if (rowOf key t (key row)).isSome then none else some (t ++ [row]) := by
  rw [insert, any_sameKey]

theorem rowOf_insertOrNothing (k : K) : rowOf key (insertOrNothing (sameKey key) t row).2 k =
    (rowOf key t k).or (if key row = k then some row else none) := by
  unfold insertOrNothing
  split
  · rename_i h
    rw [any_sameKey] at h
    by_cases hk : key row = k
    · obtain ⟨r, hr⟩ := Option.isSome_iff_exists.1 h
      rw [← hk, hr]
      rfl
    · rw [if_neg hk, Option.or_none]
  · exact rowOf_append k

variable {which : R → Bool} {set : R → R}

theorem rowOf_update (hset : ∀ r, key (set r) = key r) (k : K) :
    rowOf key (update which set t).2 k = (rowOf key t k).map fun r => if which r then set r else r := by
  have hkey : ∀ r, key (if which r then set r else r) = key r := by
    intro r
    by_cases h : which r = true
    · rw [if_pos h, hset]
    · rw [if_neg h]
  simp only [rowOf, fetchOne, update, find?_map]
  congr 2
  funext r
  simp [hkey]

/-- An update of rows under one key changes no other lookup. -/
theorem rowOf_update_key (hset : ∀ r, key (set r) = key r) {k : K} (hwhich : ∀ r, which r = true → key r = k) :
    rowOf key (update which set t).2 =
      Function.update (rowOf key t) k ((rowOf key t k).map fun r => if which r then set r else r) := by
  funext k'
  rw [rowOf_update hset, Function.update_apply]
  split
  · rename_i hk
    rw [hk]
  rename_i hk
  cases hrow : rowOf key t k' with
  | none => rfl
  | some r => rw [Option.map_some, if_neg fun h => hk ((key_of_rowOf hrow).symm.trans (hwhich r h))]

theorem key_of_sameKey {r : R} (h : (sameKey key row r && which r) = true) : key r = key row :=
  of_decide_eq_true (Bool.and_eq_true_iff.1 h).1

/-- An upsert without a guard: the key selects the changed row, or the new one. -/
theorem rowOf_upsert (hset : ∀ r, key (set r) = key r) (k : K) :
    rowOf key (upsert (sameKey key) (fun _ => true) set t row).2 k =
      if k = key row then some ((rowOf key t k).elim row set) else rowOf key t k := by
  unfold upsert
  rw [any_sameKey]
  cases hrow : rowOf key t (key row) with
  | none =>
    rw [if_neg (by simp), rowOf_append_new hrow, Function.update_apply]
    split
    · rename_i h
      rw [h, hrow]
      rfl
    · rfl
  | some r =>
    rw [if_pos (show (some r).isSome = true from rfl), rowOf_update_key (k := key row) hset
      (by simp [sameKey]), Function.update_apply]
    split
    · rename_i hk
      rw [hk, hrow, Option.map_some, if_pos (by simp [sameKey, key_of_rowOf hrow])]
      rfl
    · rfl

theorem unique_append (hu : Unique key t) (h : rowOf key t (key row) = none) : Unique key (t ++ [row]) := by
  unfold Unique at hu ⊢
  rw [map_append, map_singleton, nodup_append]
  refine ⟨hu, by simp, ?_⟩
  intro a ha b hb hab
  obtain ⟨r, hr, rfl⟩ := mem_map.1 ha
  rw [mem_singleton] at hb
  exact rowOf_eq_none.1 h r hr (hab.trans hb)

omit [DecidableEq K] in
theorem unique_update (hset : ∀ r, key (set r) = key r) (hu : Unique key t) : Unique key (update which set t).2 := by
  unfold Unique at hu ⊢
  have : ((update which set t).2).map key = t.map key := by
    simp only [update, map_map]
    apply map_congr_left
    intro r _
    by_cases h : which r = true
    · simp [h, hset]
    · simp [h]
  rw [this]
  exact hu

theorem rowOf_of_mem (hu : Unique key t) (h : row ∈ t) : rowOf key t (key row) = some row := by
  induction t with
  | nil => simp at h
  | cons r t ih =>
    unfold Unique at hu
    rw [map_cons, nodup_cons] at hu
    rcases mem_cons.1 h with rfl | h
    · simp [rowOf, fetchOne]
    have hne : key r ≠ key row := fun e => hu.1 (e ▸ mem_map_of_mem h)
    have hrow := ih hu.2 h
    simp only [rowOf, fetchOne] at hrow ⊢
    rw [find?_cons_of_neg (by simpa using hne)]
    exact hrow

/-- With unique keys, a statement about one key counts one row or none. -/
theorem countP_key (hu : Unique key t) (k : K) (which : R → Bool) :
    t.countP (fun r => decide (key r = k) && which r) = if (rowOf key t k).any which then 1 else 0 := by
  induction t with
  | nil => simp [rowOf, fetchOne]
  | cons r t ih =>
    unfold Unique at hu
    rw [map_cons, nodup_cons] at hu
    by_cases hk : key r = k
    · have hnone : t.countP (fun r => decide (key r = k) && which r) = 0 := by
        rw [countP_eq_zero]
        intro x hx
        have hx' : key x ≠ k := fun e => hu.1 (hk ▸ e ▸ mem_map_of_mem hx)
        simp [hx']
      have hrow : rowOf key (r :: t) k = some r := by simp [rowOf, fetchOne, hk]
      rw [countP_cons, hnone, hrow]
      simp [hk]
    · have hrow : rowOf key (r :: t) k = rowOf key t k := by
        simp only [rowOf, fetchOne]
        rw [find?_cons_of_neg (by simpa using hk)]
      rw [countP_cons, ih hu.2, hrow]
      simp [hk]

theorem upsert_new (h : rowOf key t (key row) = none) : upsert (sameKey key) which set t row = (1, t ++ [row]) := by
  unfold upsert
  rw [any_sameKey, h]
  rfl

/-- An upsert under a key that has a row changes it if the guard allows, and counts it then. -/
theorem upsert_old (hset : ∀ r, key (set r) = key r) (hu : Unique key t) {r : R}
    (h : rowOf key t (key row) = some r) : (upsert (sameKey key) which set t row).1 = (if which r then 1 else 0) ∧
      rowOf key (upsert (sameKey key) which set t row).2 =
        Function.update (rowOf key t) (key row) (some (if which r then set r else r)) ∧
      Unique key (upsert (sameKey key) which set t row).2 := by
  have hupdate : upsert (sameKey key) which set t row = update (fun x => sameKey key row x && which x) set t := by
    unfold upsert
    rw [any_sameKey, h]
    rfl
  rw [hupdate]
  refine ⟨?_, ?_, unique_update hset hu⟩
  · have hcount := countP_key hu (key row) which
    rw [h] at hcount
    exact hcount
  · rw [rowOf_update_key hset fun _ => key_of_sameKey, h, Option.map_some]
    simp [sameKey, key_of_rowOf h]

end Keys

end Table

end Portmark.Lib
