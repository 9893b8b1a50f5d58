/-
What a projection discloses of a tool's output. Projections compose: projecting in turn, by whichever
hosts and in whichever order, is projecting once by the intersection that the merge of their grants
computes. Python does not look at the order of an object's keys, so values are compared up to it.
-/
import Portmark.Host.Projection
import Portmark.Lib.Json.Order

namespace Portmark.Host

open Lib Lib.Json Security Assoc

/-! ## Values up to the order of keys -/

/-- The same value, up to the order of object keys. -/
def Alike (v w : Value) : Prop := sortKeys v = sortKeys w

/-- Objects are alike when their lookups are. -/
theorem alike_dict {d e : Dict} (hd : (keys d).Nodup) (he : (keys e).Nodup)
    (h : ∀ k, (get? d k).map sortKeys = (get? e k).map sortKeys) : Alike (.dict d) (.dict e) := by
  unfold Alike
  rw [sortKeys_dict, sortKeys_dict]
  congr 1
  refine inOrder_ext ?_ ?_ fun k => ?_
  · rwa [keys_sortEntries]
  · rwa [keys_sortEntries]
  · rw [sortEntries_eq, sortEntries_eq, get?_map, get?_map, h]

theorem alike_list {xs ys : List Value} (h : List.Forall₂ Alike xs ys) : Alike (.list xs) (.list ys) := by
  unfold Alike
  rw [sortKeys, sortKeys, sortItems_eq, sortItems_eq]
  congr 1
  induction h with
  | nil => rfl
  | cons hxy _ ih => rw [List.map_cons, List.map_cons, hxy, ih]

/-! ## What a projection keeps -/

/-- `project_tool_output` of an object without `*`. -/
def picked (projection : List String) (content : Dict) : Dict :=
  Assoc.update [] (projection.filterMap fun key => (Assoc.get? content key).map (key, ·))

theorem nodup_picked (projection : List String) (content : Dict) : (keys (picked projection content)).Nodup :=
  nodup_update _ List.nodup_nil

theorem get?_picked (projection : List String) (content : Dict) (k : String) :
    get? (picked projection content) k = if projection.contains k then get? content k else none := by
  -- a field that is listed again is set to the same value again
  have hfold : ∀ (projection : List String) (d : Dict),
      get? (Assoc.update d (projection.filterMap fun key => (get? content key).map (key, ·))) k =
        (if projection.contains k then get? content k else none).or (get? d k) := by
    intro projection
    induction projection with
    | nil =>
      intro d
      rfl
    | cons key projection ih =>
      intro d
      by_cases hk : k = key
      · subst hk
        cases hget : get? content k with
        | none => simp [hget, ih]
        | some =>
          rw [List.filterMap_cons_some (by rw [hget]; rfl), update_cons, ih, get?_set, hget]
          cases projection.contains k <;> simp
      · cases hget : get? content key with
        | none => simp [hget, ih, hk]
        | some => simp [hget, update_cons, ih, get?_set, hk]
  rw [picked, hfold]
  simp

def Picks (keeps : String → Bool) (content : Dict) (v : Value) : Prop :=
  ∃ d, v = .dict d ∧ (Assoc.keys d).Nodup ∧ ∀ k, Assoc.get? d k = if keeps k then Assoc.get? content k else none

def Released : Option (String → Bool) → Value → Value → Prop
  | none, content, v => v = content
  | some keeps, .dict content, v => Picks keeps content v
  | some keeps, .list items, v => ∃ vs, v = .list vs ∧ List.Forall₂ (Picks keeps) (items.filterMap Value.dict?) vs
  | some _, _, v => v = .null

def narrow (keeps : Option (String → Bool)) (projection : List String) : Option (String → Bool) :=
  if projection.contains "*" then keeps else some fun k => keeps.all (· k) && projection.contains k

theorem picks_picked {keeps : String → Bool} {projection : List String} {content d : Dict}
    (h : ∀ k, get? d k = if keeps k then get? content k else none) :
    Picks (fun k => keeps k && projection.contains k) content (.dict (picked projection d)) := by
  refine ⟨_, rfl, nodup_picked projection d, fun k => ?_⟩
  rw [get?_picked, h]
  cases hk : keeps k <;> simp only [hk, Bool.true_and, Bool.false_and, Bool.false_eq_true, if_true, if_false, ite_self]

theorem Picks.alike {keeps : String → Bool} {content : Dict} {v w : Value} (hv : Picks keeps content v)
    (hw : Picks keeps content w) : Alike v w := by
  obtain ⟨d, rfl, hd, hget⟩ := hv
  obtain ⟨e, rfl, he, hget'⟩ := hw
  exact alike_dict hd he fun k => by rw [hget, hget']

theorem Released.alike {keeps : Option (String → Bool)} {content v w : Value} (hv : Released keeps content v)
    (hw : Released keeps content w) : Alike v w := by
  rcases keeps with _ | _
  · exact hv ▸ hw ▸ rfl
  cases content with
  | dict => exact Picks.alike hv hw
  | list items =>
    obtain ⟨vs, rfl, hvs⟩ := hv
    obtain ⟨ws, rfl, hws⟩ := hw
    refine alike_list ?_
    generalize items.filterMap Value.dict? = objects at hvs hws
    induction hvs generalizing ws with
    | nil => cases hws; exact .nil
    | cons hd _ ih =>
      cases hws with
      | cons he hrest => exact .cons (hd.alike he) (ih _ hrest)
  | _ => exact hv ▸ hw ▸ rfl

theorem projectToolOutputs_eq (projection : List String) (items : List Value) : projectToolOutputs projection items =
      (items.filterMap Value.dict?).map fun d => projectToolOutput projection (.dict d) := by
  induction items with
  | nil => rfl
  | cons v items ih => cases v <;> simp [projectToolOutputs, List.filterMap_cons, Value.dict?, ih]

theorem Released.project {keeps : Option (String → Bool)} {content v : Value} (h : Released keeps content v)
    (projection : List String) : Released (narrow keeps projection) content (projectToolOutput projection v) := by
  by_cases hstar : projection.contains "*" = true
  · have hall : projectToolOutput projection v = v := by cases v <;> simp only [projectToolOutput, if_pos hstar]
    rwa [narrow, if_pos hstar, hall]
  have hdict (d : Dict) : projectToolOutput projection (.dict d) = .dict (picked projection d) := by
    rw [projectToolOutput, if_neg hstar]
    rfl
  have hlist (items : List Value) : projectToolOutput projection (.list items) =
      .list ((items.filterMap Value.dict?).map fun d => .dict (picked projection d)) := by
    rw [projectToolOutput, if_neg hstar, projectToolOutputs_eq]
    simp only [hdict]
  rw [narrow, if_neg hstar]
  cases keeps with
  | none =>
    subst h
    cases v with
    | dict d =>
      rw [hdict]
      exact @picks_picked (fun _ => true) projection d d fun _ => rfl
    | list =>
      rw [hlist]
      refine ⟨_, rfl, List.forall₂_map_right_iff.2 (List.forall₂_same.2 fun d _ => ?_)⟩
      exact @picks_picked (fun _ => true) projection d d fun _ => rfl
    | _ => simp only [projectToolOutput, if_neg hstar, Released]
  | some =>
    cases content with
    | dict =>
      obtain ⟨d, rfl, -, hget⟩ := h
      rw [hdict]
      exact picks_picked hget
    | list items =>
      obtain ⟨vs, rfl, hvs⟩ := h
      rw [hlist]
      refine ⟨_, rfl, ?_⟩
      generalize items.filterMap Value.dict? = objects at hvs
      induction hvs with
      | nil => exact .nil
      | cons hd _ ih =>
        obtain ⟨d, rfl, -, hget⟩ := hd
        exact .cons (picks_picked hget) ih
    | _ =>
      cases h
      simp only [projectToolOutput, if_neg hstar, Released]

/-! ## Projections in turn -/

def projectInTurn (projections : List (List String)) (content : Value) : Value :=
  projections.foldl (fun v projection => projectToolOutput projection v) content

theorem released_projectInTurn {projections : List (List String)} :
    ∀ {keeps : Option (String → Bool)} {content v : Value},
    Released keeps content v → Released (projections.foldl narrow keeps) content (projectInTurn projections v) := by
  induction projections with
  | nil => exact id
  | cons projection projections ih =>
    intro keeps content v h
    exact ih (h.project projection)

theorem narrow_comm (keeps : Option (String → Bool)) (a b : List String) :
    narrow (narrow keeps a) b = narrow (narrow keeps b) a := by
  unfold narrow
  split <;> split <;> simp [Bool.and_right_comm]

def mergedProjection (a b : List String) : List String := (projectionIntersection (some a) (some b)).getD []

theorem narrow_intersection (a b : List String) : narrow none (mergedProjection a b) = narrow (narrow none a) b := by
  simp only [mergedProjection, projectionIntersection]
  by_cases hempty : (a.isEmpty || b.isEmpty) = true
  · -- nothing is left by an empty projection, on either side
    rcases Bool.or_eq_true_iff.1 hempty with ha | hb
    · rw [List.isEmpty_iff.1 ha]
      simp [narrow]
    · rw [List.isEmpty_iff.1 hb]
      simp [narrow]
  rw [if_neg hempty]
  by_cases ha : a.contains "*" = true
  · rw [if_pos ha, Option.getD_some]
    congr 1
    exact (if_pos ha).symm
  rw [if_neg ha]
  by_cases hb : b.contains "*" = true
  · rw [if_pos hb, Option.getD_some]
    exact (if_pos hb).symm
  have hboth : ¬ (a.filter (b.contains ·)).contains "*" = true := by simp_all
  rw [if_neg hb, Option.getD_some, narrow, if_neg hboth, narrow, if_neg hb, narrow, if_neg ha]
  congr 1
  simp [List.contains_eq_mem]

theorem narrow_merged (projections : List (List String)) : ∀ a : List String,
    narrow none (projections.foldl mergedProjection a) = projections.foldl narrow (narrow none a) := by
  induction projections with
  | nil =>
    intro a
    rfl
  | cons b projections ih =>
    intro a
    rw [List.foldl_cons, ih, narrow_intersection, List.foldl_cons]

/-- Projecting by `a` and then by `b` is projecting once by their intersection as a merge of grants has
it, also for the projections of several hosts; and it does not matter in which order hosts project. -/
theorem projections_compose (content : Value) :
    (∀ a b : List String, Alike (projectToolOutput b (projectToolOutput a content))
      (projectToolOutput (mergedProjection a b) content)) ∧
    (∀ (a : List String) (projections : List (List String)), Alike (projectInTurn (a :: projections) content)
      (projectToolOutput (projections.foldl mergedProjection a) content)) ∧
    ∀ projections projections' : List (List String), projections.Perm projections' →
      Alike (projectInTurn projections content) (projectInTurn projections' content) := by
  have hself : Released none content content := rfl
  have hmerged (a : List String) (projections : List (List String)) : Alike (projectInTurn (a :: projections) content)
      (projectToolOutput (projections.foldl mergedProjection a) content) := by
    refine (released_projectInTurn hself).alike ?_
    rw [List.foldl_cons, ← narrow_merged]
    exact hself.project _
  refine ⟨fun a b => hmerged a [b], hmerged, fun projections projections' hperm => ?_⟩
  refine (released_projectInTurn hself).alike ?_
  rw [hperm.foldl_eq' fun a _ b _ keeps => narrow_comm keeps a b]
  exact released_projectInTurn hself

end Portmark.Host
