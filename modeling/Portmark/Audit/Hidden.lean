/-
What an exported event hides. Two details of an event that agree on what the policy includes, on their
field names and on the digests of everything else are exported as one record: the loop over the sorted
fields takes the same step for each name, and so does the loop over the sorted arguments.
-/
import Mathlib.Data.List.Lex
import Portmark.Audit.Record

namespace Portmark.Audit

open Lib Lib.Json List

/-! ## Sorted fields -/

structure IsObject (d : List (Key × Data)) : Prop where
  strings : ∀ e ∈ d, e.1.isStr = true
  distinct : (d.map Prod.fst).Nodup

variable {d : List (Key × Data)}

theorem mem_dictFields {name : Codes} {x : Data} : (name, x) ∈ dictFields d ↔ (.str name, x) ∈ d := by
  unfold dictFields
  rw [mem_filterMap]
  constructor
  · rintro ⟨⟨key, y⟩, he, heq⟩
    cases key <;> simp only [reduceCtorEq, Option.some.injEq, Prod.mk.injEq] at heq
    obtain ⟨rfl, rfl⟩ := heq
    exact he
  · intro h
    exact ⟨_, h, rfl⟩

theorem IsObject.nodup (h : IsObject d) : ((dictFields d).map Prod.fst).Nodup := by
  have hpairs := List.pairwise_map.1 h.distinct
  rw [List.Nodup, pairwise_map, dictFields, pairwise_filterMap]
  refine hpairs.imp fun {a b} hne f hf g hg heq => ?_
  obtain ⟨key, x⟩ := a
  obtain ⟨key', y⟩ := b
  cases key <;> simp only [reduceCtorEq, Option.some.injEq] at hf
  cases key' <;> simp only [reduceCtorEq, Option.some.injEq] at hg
  subst hf hg
  exact hne (congrArg Key.str heq)

theorem sortFields_names {f f' : Fields} (hf : (f.map Prod.fst).Nodup) (hf' : (f'.map Prod.fst).Nodup)
    (h : ∀ name, name ∈ f.map Prod.fst ↔ name ∈ f'.map Prod.fst) :
    (sortFields f).map Prod.fst = (sortFields f').map Prod.fst := by
  have : Std.Total fun a b : Codes × Data => ¬ b.1 < a.1 := ⟨fun a b => (lt_or_ge b.1 a.1).elim
    (fun hlt => .inr (lt_asymm hlt)) fun hge => .inl (not_lt.2 hge)⟩
  have : IsTrans (Codes × Data) fun a b => ¬ b.1 < a.1 :=
    ⟨fun _ _ _ hab hbc => not_lt.2 ((not_lt.1 hab).trans (not_lt.1 hbc))⟩
  have sorted : ∀ g : Fields, ((sortFields g).map Prod.fst).Pairwise fun a b => ¬ b < a := fun g =>
    List.pairwise_map.2 (pairwise_insertionSort (fun a b : Codes × Data => ¬ b.1 < a.1) g)
  have perm : ∀ g : Fields, ((sortFields g).map Prod.fst).Perm (g.map Prod.fst) := fun g =>
    (perm_insertionSort _ g).map _
  refine List.Perm.eq_of_pairwise ?_ (sorted f) (sorted f')
    ((perm f).trans (((perm_ext_iff_of_nodup hf hf').2 h).trans (perm f').symm))
  exact fun _ _ _ _ hab hba => le_antisymm (not_lt.1 hab) (not_lt.1 hba)

theorem forall₂_of_names {R : Codes × Data → Codes × Data → Prop} : ∀ {f f' : Fields},
    f.map Prod.fst = f'.map Prod.fst → (∀ e ∈ f, ∀ e' ∈ f', e.1 = e'.1 → R e e') → List.Forall₂ R f f'
  | [], [], _, _ => .nil
  | [], _ :: _, h, _ => by cases h
  | _ :: _, [], h, _ => by cases h
  | e :: f, e' :: f', h, hR => by
    obtain ⟨hname, hrest⟩ := List.cons.inj h
    refine .cons (hR e mem_cons_self e' mem_cons_self hname) (forall₂_of_names hrest ?_)
    exact fun a ha b hb => hR a (mem_cons_of_mem _ ha) b (mem_cons_of_mem _ hb)

theorem sorted_entries {R : Codes × Data → Codes × Data → Prop} {d' : List (Key × Data)} (hd : IsObject d)
    (hd' : IsObject d') (hnames : ∀ name, (∃ x, (.str name, x) ∈ d) ↔ ∃ x, (.str name, x) ∈ d')
    (hR : ∀ name x x', (.str name, x) ∈ d → (.str name, x') ∈ d' → R (name, x) (name, x')) :
    List.Forall₂ R (sortFields (dictFields d)) (sortFields (dictFields d')) := by
  have hmem : ∀ (d : List (Key × Data)) name, name ∈ (dictFields d).map Prod.fst ↔ ∃ x, (.str name, x) ∈ d := by
    intro d name
    simp only [mem_map, Prod.exists, exists_and_right, exists_eq_right, mem_dictFields]
  refine forall₂_of_names (sortFields_names hd.nodup hd'.nodup fun name => ?_) ?_
  · rw [hmem, hmem, hnames]
  · rintro ⟨name, x⟩ he ⟨_, x'⟩ he' rfl
    rw [sortFields, mem_insertionSort, mem_dictFields] at he he'
    exact hR name x x' he he'

/-! ## What a record shows -/

def toolName (d : List (Key × Data)) : Option Codes :=
  match fieldOf (dictFields d) "tool" with
  | some (.str s) => some s
  | _ => none

namespace Projector

variable (p : Projector) (depth : Nat) (keyId : Option Codes)

def shownRule (tool : Option Codes) : Option FieldRule :=
  (tool.bind fun s => ruleOf p.policy.tools (.str s)).filter fun rule => !rule.hashOnly

inductive ArgumentsAgree (rule : Option FieldRule) : Data → Data → Prop where
  | objects {d d' : List (Key × Data)} (hd : IsObject d) (hd' : IsObject d')
      (digest : p.digest depth (.dict d) keyId = p.digest depth (.dict d') keyId)
      (number : rule = none → d.length = d'.length)
      (names : ∀ r, rule = some r → ∀ name, (∃ x, (.str name, x) ∈ d) ↔ ∃ x, (.str name, x) ∈ d')
      (included : ∀ r, rule = some r → ∀ name ∈ r.included, ∀ x x', (.str name, x) ∈ d → (.str name, x') ∈ d' →
      x = x') : ArgumentsAgree rule (.dict d) (.dict d')
  | values {x x' : Data} (hx : ∀ d, x ≠ .dict d) (hx' : ∀ d, x' ≠ .dict d)
      (digest : p.digest depth x keyId = p.digest depth x' keyId) : ArgumentsAgree rule x x'

/-- Details that are shown alike. Details that are no object have no fields and are digested as a whole. -/
inductive DetailsAgree (event : Data) : Data → Data → Prop where
  | objects {d d' : List (Key × Data)} (hd : IsObject d) (hd' : IsObject d')
      (names : ∀ name, (∃ x, (.str name, x) ∈ d) ↔ ∃ x, (.str name, x) ∈ d')
      (tool : toolName d = toolName d')
      (arguments : isToolEvent event = true → ∀ x x', (.str (codes "arguments".toList), x) ∈ d →
        (.str (codes "arguments".toList), x') ∈ d' → ArgumentsAgree p depth keyId (p.shownRule (toolName d)) x x')
      (included : ∀ name ∈ ((ruleOf p.policy.events event).getD noRule).included,
        ¬ (name = codes "arguments".toList ∧ isToolEvent event = true) → ∀ x x', (.str name, x) ∈ d →
          (.str name, x') ∈ d' → x = x')
      (remaining : ∀ name ∉ ((ruleOf p.policy.events event).getD noRule).included, ∀ x x', (.str name, x) ∈ d →
        (.str name, x') ∈ d' → p.digest depth x keyId = p.digest depth x' keyId) :
      DetailsAgree event (.dict d) (.dict d')
  | values {x x' : Data} (hx : ∀ d, x ≠ .dict d) (hx' : ∀ d, x' ≠ .dict d)
      (digest : p.digest depth x keyId = p.digest depth x' keyId) : DetailsAgree event x x'

variable {p depth keyId}

/-! ## Arguments -/

theorem shownArguments_eq {rule : FieldRule} {f f' : Fields}
    (h : List.Forall₂ (fun e e' => e.1 = e'.1 ∧ (e.1 ∈ rule.included → e.2 = e'.2)) f f') :
    shownArguments rule f = shownArguments rule f' ∧ f.map (fun e => Data.str e.1) = f'.map fun e => Data.str e.1 := by
  induction h with
  | nil => exact ⟨rfl, rfl⟩
  | @cons e e' f f' hone _ ih =>
    obtain ⟨name, x⟩ := e
    obtain ⟨_, x'⟩ := e'
    obtain ⟨rfl, hvalue⟩ := hone
    refine ⟨?_, congrArg (_ :: ·) ih.2⟩
    have ih := ih.1
    unfold shownArguments at ih ⊢
    rw [filterMap_cons, filterMap_cons, ih]
    by_cases hin : name ∈ rule.included
    · rw [show x = x' from hvalue hin]
    · simp [hin]

theorem ruleOf_toolName (rules : List (Codes × FieldRule)) (d : List (Key × Data)) :
    ruleOf rules ((fieldOf (dictFields d) "tool").getD .null) = (toolName d).bind fun s => ruleOf rules (.str s) := by
  unfold toolName
  cases fieldOf (dictFields d) "tool" with
  | none => rfl
  | some x => cases x <;> rfl

theorem projectArguments_value {tool x : Data} (hx : ∀ d, x ≠ .dict d) :
    p.projectArguments depth tool x keyId = do return [field "arguments_hmac" (← p.digest depth x keyId)] := by
  cases x <;> first | rfl | exact absurd rfl (hx _)

theorem projectArguments_eq {tool tool' x x' : Data} (htool : ruleOf p.policy.tools tool = ruleOf p.policy.tools tool')
    (h : ArgumentsAgree p depth keyId ((ruleOf p.policy.tools tool).filter fun rule => !rule.hashOnly) x x') :
    p.projectArguments depth tool x keyId = p.projectArguments depth tool' x' keyId := by
  cases h with
  | objects hd hd' digest number names included =>
    unfold projectArguments
    rw [digest, ← htool]
    dsimp only
    rcases hrule : ruleOf p.policy.tools tool with _ | r
    · rw [number (by rw [hrule]; rfl)]
    dsimp only
    split
    · rename_i hhash
      rw [number (by rw [hrule, Option.filter_some, hhash]; rfl)]
    rename_i hhash
    have hshown : (ruleOf p.policy.tools tool).filter (fun rule => !rule.hashOnly) = some r := by
      rw [hrule, Option.filter_some, if_pos (by simpa using hhash)]
    have hsorted : List.Forall₂ (fun e e' : Codes × Data => e.1 = e'.1 ∧ (e.1 ∈ r.included → e.2 = e'.2)) _ _ :=
      sorted_entries hd hd' (names r hshown) fun name x x' hx hx' =>
        ⟨rfl, fun hin => included r hshown name hin x x' hx hx'⟩
    obtain ⟨hvalues, hkeys⟩ := shownArguments_eq hsorted
    rw [hvalues, hkeys]
  | values hx hx' digest => rw [projectArguments_value hx, projectArguments_value hx', digest]

/-! ## Fields -/

theorem foldlM_congr {α β ε : Type} {step step' : β → α → Except ε β} {xs xs' : List α}
    (h : List.Forall₂ (fun x x' => ∀ b, step b x = step' b x') xs xs') (b : β) :
    xs.foldlM step b = xs'.foldlM step' b := by
  induction h generalizing b with
  | nil => rfl
  | cons hone _ ih =>
    rw [foldlM_cons, foldlM_cons, hone b]
    exact congrArg _ (funext fun b' => ih b')

theorem project_value {event details : Data} (h : ∀ d, details ≠ .dict d) :
    p.project depth event details keyId = do return ([], [field "details" (← p.digest depth details keyId)]) := by
  cases details <;> first | rfl | exact absurd rfl (h _)

theorem project_eq {event details details' : Data} (h : DetailsAgree p depth keyId event details details') :
    p.project depth event details keyId = p.project depth event details' keyId := by
  cases h with
  | @objects d d' hd hd' names tool arguments included remaining =>
    refine foldlM_congr (sorted_entries hd hd' names ?_) _
    intro name x x' hx hx' out
    unfold projectField
    by_cases harguments : (name == codes "arguments".toList && isToolEvent event) = true
    · rw [if_pos harguments, if_pos harguments]
      obtain ⟨hname, htool⟩ := Bool.and_eq_true_iff.1 harguments
      obtain rfl := beq_iff_eq.1 hname
      have hagree := arguments htool x x' hx hx'
      rw [shownRule, ← ruleOf_toolName] at hagree
      have htools : ruleOf p.policy.tools ((fieldOf (dictFields d) "tool").getD .null) =
          ruleOf p.policy.tools ((fieldOf (dictFields d') "tool").getD .null) := by
        rw [ruleOf_toolName, ruleOf_toolName _ d', tool]
      rw [projectArguments_eq htools hagree]
    · rw [if_neg harguments, if_neg harguments]
      by_cases hin : name ∈ ((ruleOf p.policy.events event).getD noRule).included
      · have hother : ¬ (name = codes "arguments".toList ∧ isToolEvent event = true) := fun ⟨hname, htool⟩ =>
          harguments (Bool.and_eq_true_iff.2 ⟨beq_iff_eq.2 hname, htool⟩)
        rw [included name hin hother x x' hx hx']
      · have hout : ((ruleOf p.policy.events event).getD noRule).included.contains name = false := by simpa using hin
        simp only [hout, Bool.false_eq_true, if_false, remaining name hin x x' hx hx']
  | values hx hx' digest => rw [project_value hx, project_value hx', digest]

end Projector

/-- An exported event tells apart only details that differ in an included field or argument, in the names, or in a
digest. -/
theorem eventRecord_hides (p : Projector) (depth : Nat) (taskId : Text) (row : ExportEvent) (keyId : Option Codes)
    {details details' : Data} (h : p.DetailsAgree depth keyId row.event.data details details') :
    eventRecord p depth taskId row details keyId = eventRecord p depth taskId row details' keyId := by
  unfold eventRecord
  rw [Projector.project_eq h]

def payingProjector : Projector where
  policy := ⟨[(codes "tool.executed".toList, ⟨[codes "status".toList], [], false⟩)],
    [(codes "pay".toList, ⟨[codes "currency".toList], [], false⟩)], []⟩
  keyring := some ⟨[1], [([1], [7])], by decide⟩
  hmacSha256 key _ := key.map Char.ofNat

def executedRow : ExportEvent := ⟨1, .text "tool.executed".toList, .null, .null, .text ['h'], .null, .null⟩

def paymentArguments (amount : Int) : List (Key × Data) :=
  [(key "currency", textData "eur"), (key "amount", .int amount)]

def paymentDetails (amount : Int) (note : Bool) : List (Key × Data) :=
  [(key "tool", textData "pay"), (key "arguments", .dict (paymentArguments amount)), (key "status", textData "ok"),
    (key "note", .bool note)]

/-- Two payments that differ in the amount and in a note give one record, which has their status and currency. -/
theorem eventRecord_hides_amount :
    (eventRecord payingProjector 9 ['t'] executedRow (.dict (paymentDetails 1 true)) none).isOk = true ∧
    eventRecord payingProjector 9 ['t'] executedRow (.dict (paymentDetails 1 true)) none =
      eventRecord payingProjector 9 ['t'] executedRow (.dict (paymentDetails 2 false)) none := by
  have harguments : ∀ amount, IsObject (paymentArguments amount) := fun amount =>
    ⟨by simp [paymentArguments, key, Key.isStr], by simp [paymentArguments, key]; decide⟩
  have hdetails : ∀ amount note, IsObject (paymentDetails amount note) := fun amount note =>
    ⟨by simp [paymentDetails, key, Key.isStr], by simp [paymentDetails, key]; decide⟩
  have hunique : ∀ {d : List (Key × Data)} {name : Codes} {x y : Data}, IsObject d → (.str name, x) ∈ d →
      (.str name, y) ∈ d → x = y := fun hd hx hy => (Prod.mk.inj (inj_on_of_nodup_map hd.distinct hx hy rfl)).2
  have hdigest : ∀ x, (encoded 9 x).isOk = true →
      payingProjector.digest 9 x none = .ok (.ofText ("hmac-sha256:".toList ++ [Char.ofNat 7])) := by
    intro x hx
    cases h : encoded 9 x with
    | error => rw [h] at hx; cases hx
    | ok text =>
      show (encoded 9 x >>= fun text => pure (Data.ofText ("hmac-sha256:".toList ++ [Char.ofNat 7]))) = _
      rw [h]
      rfl
  have hsame : payingProjector.digest 9 (.dict (paymentArguments 1)) none =
      payingProjector.digest 9 (.dict (paymentArguments 2)) none :=
    (hdigest _ (by decide +kernel)).trans (hdigest _ (by decide +kernel)).symm
  refine ⟨by decide +kernel,
    eventRecord_hides _ _ _ _ _ (.objects (hdetails 1 true) (hdetails 2 false) ?_ rfl ?_ ?_ ?_)⟩
  · simp [paymentDetails, exists_or]
  · intro _ x x' hx hx'
    obtain rfl := hunique (hdetails 1 true) hx (.tail _ (.head _))
    obtain rfl := hunique (hdetails 2 false) hx' (.tail _ (.head _))
    refine .objects (harguments 1) (harguments 2) hsame (fun _ => rfl) ?_ ?_
    · simp [paymentArguments, exists_or]
    · rintro r hr name hname x x' hx hx'
      cases hr
      cases mem_singleton.1 hname
      exact (hunique (harguments 1) hx (.head _)).trans (hunique (harguments 2) hx' (.head _)).symm
  · intro name hname _ x x' hx hx'
    cases mem_singleton.1 hname
    exact (hunique (hdetails 1 true) hx (.tail _ (.tail _ (.head _)))).trans
      (hunique (hdetails 2 false) hx' (.tail _ (.tail _ (.head _)))).symm
  · intro name _ x x' hx hx'
    simp only [paymentDetails, mem_cons, Prod.mk.injEq, not_mem_nil, or_false] at hx
    rcases hx with ⟨hname, rfl⟩ | ⟨hname, rfl⟩ | ⟨hname, rfl⟩ | ⟨hname, rfl⟩ <;> cases hname
    · obtain rfl := hunique (hdetails 2 false) hx' (.head _)
      rfl
    · obtain rfl := hunique (hdetails 2 false) hx' (.tail _ (.head _))
      exact hsame
    · obtain rfl := hunique (hdetails 2 false) hx' (.tail _ (.tail _ (.head _)))
      rfl
    · obtain rfl := hunique (hdetails 2 false) hx' (.tail _ (.tail _ (.tail _ (.head _))))
      rfl

end Portmark.Audit
