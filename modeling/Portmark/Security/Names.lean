/-
The argument names of a constraint set. The planner of the merge derives them from the set's keys
(`permittedArgumentNames`), the checker derives its own whitelist, and a merged set is read again
from the keys that the merge put there. `planner_mirrors_checker` says that the three agree: among
arguments that meet the limits the checker refuses exactly those with a name the planner does not
permit, and a merged set permits the names that both of its inputs permit.
-/
import Portmark.Security.Narrow

namespace Portmark.Security

open Lib Assoc List

/-! ## The limits without the names -/

/-- The arguments meet every limit and carry every demanded name; further names are not looked at. -/
structure Meets (env : Env) (c arguments : Dict) : Prop where
  demanded : ∀ name ∈ plannedRequired c, name ∈ Assoc.keys arguments
  schema : checkSchema env arguments (Assoc.get? c "arguments") = .ok ()
  flat : ∀ key v, Assoc.get? c key = some v → checkFlat env arguments (key, v) = .ok ()

variable {permitted : Option (List String)} {name : String}

theorem permits_iff : permits permitted name = true ↔ ∀ names, permitted = some names → name ∈ names := by
  cases permitted with
  | none => simp [permits]
  | some => simp [permits]

/-- Over a validated set the checker is the limits and the planner's names, nothing else. -/
theorem checkConstraints_ok_iff_meets {env : Env} {c arguments : Dict}
    (hv : validateConstraints env (.dict c) = .ok ()) : checkConstraints env arguments c = .ok () ↔
      Meets env c arguments ∧ ∀ name ∈ Assoc.keys arguments, permits (permittedArgumentNames c) name = true := by
  obtain ⟨⟨required, hr⟩, ⟨additional, ha⟩, -⟩ := validateConstraints_ok hv
  rw [checkConstraints_ok_iff]
  constructor
  · rintro ⟨required', additional', hr', -, hdem, hschema, hnames, hflat⟩
    refine ⟨⟨fun name hn => hdem name ?_, hschema, hflat⟩, hnames⟩
    exact (plannedRequired_eq hr' name).1 hn
  · rintro ⟨hm, hnames⟩
    refine ⟨required, additional, hr, ha, fun name hn => hm.demanded name ?_, hm.schema, hnames, hm.flat⟩
    exact (plannedRequired_eq hr name).2 hn

/-! ## The names of a merged set -/

section Merged

variable {order : SetOrder} {l r m : Dict}

theorem merged_open (h : constraintIntersection order l r = .ok m) :
    permittedArgumentNames m = none ↔ permittedArgumentNames l = none ∧ permittedArgumentNames r = none := by
  obtain ⟨_, _, _, additional, -, -, -, ha, -, -, -, hflag⟩ := constraintIntersection_ok h
  rw [permittedArgumentNames_eq, additional_eq hflag]
  unfold mergeAdditionalArguments at ha
  split at ha
  · cases ha
  · simp only [Except.ok.injEq] at ha
    subst ha
    split <;> simp_all

section

variable (h : constraintIntersection order l r = .ok m)

include h

theorem merged_legacy (hn : name ∈ legacyConstrainedArguments l ∨ name ∈ legacyConstrainedArguments r) :
    name ∈ legacyConstrainedArguments m := by
  obtain ⟨flat, _, _, _, hf, -, -, -, hflat, -⟩ := constraintIntersection_ok h
  -- the key that constrains the name, on whichever side it stands
  obtain ⟨key, a, ha, hk, rfl⟩ : ∃ key a, (Assoc.get? l key = some a ∨ Assoc.get? r key = some a) ∧ key ∉ reservedKeys ∧
      constrainedArgumentName key = name := by
    simp only [legacyConstrainedArguments, mem_map, mem_filter] at hn
    rcases hn with ⟨key, ⟨hkey, hk⟩, rfl⟩ | ⟨key, ⟨hkey, hk⟩, rfl⟩
    · obtain ⟨a, ha⟩ := mem_keys_iff.1 hkey
      exact ⟨key, a, .inl ha, by simpa using hk, rfl⟩
    · obtain ⟨a, ha⟩ := mem_keys_iff.1 hkey
      exact ⟨key, a, .inr ha, by simpa using hk, rfl⟩
  obtain ⟨v, hv⟩ := (mergeFlat_joined hk ((build_ok hf).1 key (mem_keyUnion_of ha))).2.exists_some ha
  refine mem_map.2 ⟨key, mem_filter.2 ⟨mem_keys_iff.2 ⟨v, ?_⟩, by simpa using hk⟩, rfl⟩
  rw [hflat key hk, hv]

theorem merged_schemaNames (hp : permits (intersectPermittedNames l r) name = true)
    (hn : name ∈ schemaNames l ∨ name ∈ schemaNames r) : name ∈ schemaNames m := by
  obtain ⟨_, schema, _, _, -, hs, -, -, -, hschema, -, -⟩ := constraintIntersection_ok h
  have hside : ∀ {side : Dict}, name ∈ schemaNames side →
      ∃ specs, given? side "arguments" = some (.dict specs) ∧ name ∈ Assoc.keys specs := by
    intro side hmem
    unfold schemaNames at hmem
    split at hmem
    · rename_i specs hg
      exact ⟨specs, given?_eq_some.2 ⟨hg, by simp⟩, hmem⟩
    · cases hmem
  rcases mergeArgumentSchemas_ok hs with ⟨hl, hr, -⟩ | ⟨ls, rs, merged, hl, hr, rfl, hb⟩
  · rcases hn with hn | hn
    · obtain ⟨specs, hg, -⟩ := hside hn
      rw [hl] at hg
      cases hg
    · obtain ⟨specs, hg, -⟩ := hside hn
      rw [hr] at hg
      cases hg
  · have hmem : name ∈ keyUnion order ls rs := by
      rcases hn with hn | hn
      · obtain ⟨specs, hg, hk⟩ := hside hn
        rw [hg] at hl
        cases hl
        exact mem_keyUnion.2 (.inl (mem_keys_iff.1 hk))
      · obtain ⟨specs, hg, hk⟩ := hside hn
        rw [hg] at hr
        cases hr
        exact mem_keyUnion.2 (.inr (mem_keys_iff.1 hk))
    obtain ⟨v, hv⟩ := Option.isSome_iff_exists.1 ((mergeSchemaEntry_ok ((build_ok hb).1 name hmem)).1.trans hp)
    unfold schemaNames
    rw [hschema]
    exact mem_keys_iff.2 ⟨v, hv⟩

/-- The merged set permits the names that both inputs permit. -/
theorem merged_permits_iff : permits (permittedArgumentNames m) name = true ↔
      permits (permittedArgumentNames l) name = true ∧ permits (permittedArgumentNames r) name = true := by
  rw [← permits_intersect_iff]
  refine ⟨merged_permits h, fun hp => ?_⟩
  have hp' := hp
  rw [permits_intersect_iff, permits_iff, permits_iff] at hp
  rw [permits_iff]
  intro names hm
  -- a closed merge has a closed side; what that side names has been merged
  have hnamed : ∀ {side : Dict}, permittedArgumentNames side ≠ none →
      (∀ names, permittedArgumentNames side = some names → name ∈ names) →
      name ∈ legacyConstrainedArguments side ∨ name ∈ schemaNames side ∨ name ∈ plannedRequired side := by
    intro side hclosed hin
    rw [permittedArgumentNames_eq] at hclosed hin
    split at hclosed
    · exact absurd rfl hclosed
    rename_i hopen
    rw [if_neg hopen] at hin
    have := hin _ rfl
    simp only [mem_append] at this
    tauto
  have hmerged : name ∈ legacyConstrainedArguments m ∨ name ∈ schemaNames m ∨ name ∈ plannedRequired m := by
    have hclosed : ¬ (permittedArgumentNames l = none ∧ permittedArgumentNames r = none) := by
      rw [← merged_open h, hm]
      nofun
    rcases not_and_or.1 hclosed with hl | hr
    · rcases hnamed hl hp.1 with hn | hn | hn
      · exact .inl (merged_legacy h (.inl hn))
      · exact .inr (.inl (merged_schemaNames h hp' (.inl hn)))
      · exact .inr (.inr (merged_required h (.inl hn)))
    · rcases hnamed hr hp.2 with hn | hn | hn
      · exact .inl (merged_legacy h (.inr hn))
      · exact .inr (.inl (merged_schemaNames h hp' (.inr hn)))
      · exact .inr (.inr (merged_required h (.inr hn)))
  rw [permittedArgumentNames_eq] at hm
  split at hm <;> cases hm
  simp only [mem_append]
  tauto

end

end Merged

/-- Planner and checker agree on the names. Arguments that meet the limits of a validated set pass
the checker exactly when the planner permits every name of theirs, and a merged set permits the
names that both inputs permit, any name at all only when both admit any name. -/
theorem planner_mirrors_checker (env : Env) (order : SetOrder) (l r : Dict)
    (hl : validateConstraints env (.dict l) = .ok ()) (hr : validateConstraints env (.dict r) = .ok ()) :
    (∀ arguments, Meets env l arguments → (checkConstraints env arguments l = .ok () ↔
      ∀ names, permittedArgumentNames l = some names → ∀ name ∈ Assoc.keys arguments, name ∈ names)) ∧
    (∀ arguments, Meets env r arguments → (checkConstraints env arguments r = .ok () ↔
      ∀ names, permittedArgumentNames r = some names → ∀ name ∈ Assoc.keys arguments, name ∈ names)) ∧
    ∀ m, constraintIntersection order l r = .ok m →
      (∀ name, permits (permittedArgumentNames m) name = true ↔
        permits (permittedArgumentNames l) name = true ∧ permits (permittedArgumentNames r) name = true) ∧
      (permittedArgumentNames m = none ↔ permittedArgumentNames l = none ∧ permittedArgumentNames r = none) := by
  have hside : ∀ {c : Dict}, validateConstraints env (.dict c) = .ok () → ∀ arguments, Meets env c arguments →
      (checkConstraints env arguments c = .ok () ↔
        ∀ names, permittedArgumentNames c = some names → ∀ name ∈ Assoc.keys arguments, name ∈ names) := by
    intro c hc arguments hm
    rw [checkConstraints_ok_iff_meets hc, and_iff_right hm]
    simp only [permits_iff]
    exact ⟨fun h names hn name hname => h name hname names hn, fun h name hname names hn => h names hn name hname⟩
  refine ⟨hside hl, hside hr, fun m hm => ⟨fun name => ?_, ?_⟩⟩
  · exact merged_permits_iff hm
  · exact merged_open hm

theorem planner_mirrors_checker_payment :
    Meets plainEnv permitGrant payment ∧ checkConstraints plainEnv payment permitGrant = .ok () ∧
    constraintIntersection .insertion permitGrant hostGrant = .ok mergedGrant ∧
    permits (permittedArgumentNames mergedGrant) "memo" = false :=
  have h := planner_mirrors_checker plainEnv .insertion permitGrant hostGrant (by decide) (by decide)
  have hc : checkConstraints plainEnv payment permitGrant = .ok () := by decide +kernel
  have hm : constraintIntersection .insertion permitGrant hostGrant = .ok mergedGrant := rfl
  ⟨((checkConstraints_ok_iff_meets (by decide)).1 hc).1, hc, hm,
    Bool.eq_false_iff.2 fun hp => absurd (((h.2.2 _ hm).1 "memo").1 hp).2 (by decide)⟩

end Portmark.Security
