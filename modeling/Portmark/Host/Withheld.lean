/-
What a projection withholds does not leak: two states that agree on what the grants disclose of the tool
outputs look the same to a provider, and are sealed as the same state for a migration. Everything else in
the results and in the tool messages may differ: other fields, other tools, malformed results.
-/
import Portmark.Host.Disclosure

namespace Portmark.Host

open Lib Lib.Json Security List Assoc

/-! ## What the grants disclose of a state -/

def storedResult (state : AgentState) (name : String) : Option Value :=
  match state.memory with
  | .dict memory =>
    match Assoc.get? memory "tool_results" with
    | some (.dict results) => Assoc.get? results name
    | _ => none
  | _ => none

/-- `"migration" in state.memory`. -/
def isMigrated (state : AgentState) : Bool :=
  match state.memory with
  | .dict memory => Assoc.contains memory "migration"
  | _ => false

def isToolRole (message : Dict) : Bool := (Assoc.get? message "role").any (Value.pyEqual · (.str "tool"))

def toolOf (grants : List ToolGrant) (message : Dict) : Option (String × List String) :=
  match Assoc.get? message "name" with
  | some (.str name) => (Assoc.get? (projections grants) name).map (name, ·)
  | _ => none

def reducedContent (projection : List String) (message : Dict) : Value :=
  sortKeys (projectToolOutput projection ((Assoc.get? message "content").getD .null))

def disclosedMessages (grants : List ToolGrant) (messages : List Dict) : List (String × Value) :=
  messages.filterMap fun m =>
    if isToolRole m then (toolOf grants m).map fun tool => (tool.1, reducedContent tool.2 m) else none

def conversation (grants : List ToolGrant) (messages : List Dict) : List (Value ⊕ String × Value) :=
  messages.filterMap fun m =>
    if isToolRole m then (toolOf grants m).map fun tool => .inr (tool.1, reducedContent tool.2 m)
    else some (.inl (sortKeys (.dict m)))

/-- A state as it is typed: messages are objects, and no object binds a key twice. -/
structure WellTyped (state : AgentState) (messages : List Dict) : Prop where
  messages : state.messages = .list (messages.map .dict)
  memory : ∀ memory, state.memory = .dict memory → (Assoc.keys memory).Nodup ∧
    ∀ results, Assoc.get? memory "tool_results" = some (.dict results) → (Assoc.keys results).Nodup

/-- Two states that differ in memory and messages only, and there not in what the grants disclose. -/
structure DiscloseAlike (grants : List ToolGrant) (s s' : AgentState) (messages messages' : List Dict) : Prop where
  rest : s' = { s with memory := s'.memory, messages := s'.messages }
  migrated : isMigrated s = isMigrated s'
  results : ∀ name projection, Assoc.get? (projections grants) name = some projection →
    (storedResult s name).map (sortKeys ∘ projectToolOutput projection) =
      (storedResult s' name).map (sortKeys ∘ projectToolOutput projection)
  outputs : disclosedMessages grants messages = disclosedMessages grants messages'

structure RestAlike (grants : List ToolGrant) (memory memory' : Dict) (messages messages' : List Dict) : Prop where
  others : ∀ k, k ≠ "tool_results" → (Assoc.get? memory k).map sortKeys = (Assoc.get? memory' k).map sortKeys
  results : Assoc.contains memory "tool_results" = Assoc.contains memory' "tool_results"
  conversation : Host.conversation grants messages = Host.conversation grants messages'

structure ProviderView.Alike (v v' : ProviderView) : Prop where
  rest : v' = { v with messages := v'.messages, toolResults := v'.toolResults }
  messages : v.messages.map sortKeys = v'.messages.map sortKeys
  toolResults : Host.Alike (.dict v.toolResults) (.dict v'.toolResults)

structure AgentState.Alike (t t' : AgentState) : Prop where
  rest : t' = { t with memory := t'.memory, messages := t'.messages }
  memory : Host.Alike t.memory t'.memory
  messages : Host.Alike t.messages t'.messages

/-! ## Copies -/

mutual

/-- A detached copy is the value, with lists for tuples. -/
theorem sortKeys_detach : ∀ v : Value, sortKeys (detach v) = sortKeys v
  | .null | .bool _ | .int _ | .float _ | .str _ => rfl
  | .list xs | .tuple xs => by rw [detach, sortKeys, sortKeys, sortItems_detach xs]
  | .dict d => by rw [detach, sortKeys_dict, sortKeys_dict, sortEntries_detach d]

theorem sortItems_detach : ∀ xs : List Value, sortItems (detachItems xs) = sortItems xs
  | [] => rfl
  | v :: vs => by rw [detachItems, sortItems, sortItems, sortKeys_detach v, sortItems_detach vs]

theorem sortEntries_detach : ∀ d : List (String × Value), sortEntries (detachEntries d) = sortEntries d
  | [] => rfl
  | (k, v) :: d => by rw [detachEntries, sortEntries, sortEntries, sortKeys_detach v, sortEntries_detach d]

end

/-! ## Results -/

section Results

variable (grants : List ToolGrant) {results : Dict}

theorem projectToolResults_dict (hn : (keys results).Nodup) :
    projectToolResults grants (.dict results) = results.filterMap fun entry =>
      (get? (projections grants) entry.1).map fun p => (entry.1, projectToolOutput p entry.2) := by
  rw [projectToolResults, items_eq_self hn]

theorem get?_projectToolResults (hn : (keys results).Nodup) (name : String) :
    get? (projectToolResults grants (.dict results)) name =
      (get? (projections grants) name).bind fun p => (get? results name).map (projectToolOutput p) := by
  rw [projectToolResults_dict grants hn]
  clear hn
  induction results with
  | nil => cases get? (projections grants) name <;> rfl
  | cons entry results ih =>
    obtain ⟨k, v⟩ := entry
    rw [get?_cons]
    by_cases hk : name = k
    · subst hk
      cases hp : get? (projections grants) name with
      | none => simpa [hp] using ih
      | some => simp [hp, get?_cons]
    · cases hp : get? (projections grants) k with
      | none => simpa [hp, hk] using ih
      | some => simpa [hp, hk, get?_cons] using ih

theorem nodup_projectToolResults (hn : (keys results).Nodup) :
    (keys (projectToolResults grants (.dict results))).Nodup := by
  refine hn.sublist ?_
  rw [projectToolResults_dict grants hn]
  clear hn
  induction results with
  | nil => exact .slnil
  | cons entry results ih =>
    cases hp : get? (projections grants) entry.1 with
    | none =>
      rw [filterMap_cons_none (by rw [hp]; rfl)]
      exact ih.cons _
    | some =>
      rw [filterMap_cons_some (by rw [hp]; rfl)]
      exact ih.cons_cons _

end Results

/-! ## Messages -/

section Messages

variable (grants : List ToolGrant)

def toolMessage (name : String) (content : Option Value) : Value :=
  .dict ([("role", .str "tool"), ("name", .str name)] ++ (content.map fun c => [("content", c)]).getD [])

theorem sortKeys_toolMessage (name : String) (content : Option Value) :
    sortKeys (toolMessage name content) = sortKeys (toolMessage name (content.map sortKeys)) := by
  cases content with
  | none => rfl
  | some => simp [toolMessage, sortKeys_dict, sortEntries, sortKeys_idem]

theorem toolOf_some {m : Dict} {tool : String × List String} (h : toolOf grants m = some tool) :
    get? (projections grants) tool.1 = some tool.2 := by
  unfold toolOf at h
  split at h
  · obtain ⟨projection, hget, rfl⟩ := Option.map_eq_some_iff.1 h
    exact hget
  · cases h

theorem messageProjection_dict (m : Dict) : messageProjection grants (.dict m) = .ok (toolOf grants m) := by
  unfold messageProjection toolOf messageField
  dsimp only
  cases get? m "name" with
  | none => rfl
  | some v => cases v <;> rfl

theorem projectToolMessage_dict (m : Dict) : projectToolMessage grants (.dict m) =
    .ok (if isToolRole m then (toolOf grants m).map fun tool => toolMessage tool.1
      (if tool.2 = [] then none else some (projectToolOutput tool.2 ((get? m "content").getD .null))) else none) := by
  have hrole : isToolMessage (.dict m) = .ok (isToolRole m) := rfl
  unfold projectToolMessage
  rw [hrole, messageProjection_dict]
  cases isToolRole m with
  | false => rfl
  | true =>
    rcases toolOf grants m with _ | ⟨name, _ | ⟨field, fields⟩⟩ <;> rfl

theorem projectMigratedMessage_dict (m : Dict) : projectMigratedMessage grants (.dict m) =
    .ok (if isToolRole m then (toolOf grants m).map fun tool => toolMessage tool.1
      (some (projectToolOutput tool.2 ((get? m "content").getD .null))) else some (.dict m)) := by
  have hrole : isToolMessage (.dict m) = .ok (isToolRole m) := rfl
  unfold projectMigratedMessage
  rw [hrole, messageProjection_dict]
  cases isToolRole m with
  | false => rfl
  | true => cases toolOf grants m <;> rfl

theorem mapM_dict {f : Value → Except Fault (Option Value)} {g : Dict → Option Value}
    (h : ∀ m, f (.dict m) = .ok (g m)) (messages : List Dict) :
    (messages.map Value.dict).mapM f = .ok (messages.map g) := by
  rw [mapM_map, show f ∘ Value.dict = fun m => pure (g m) from funext h, mapM_pure]
  rfl

/-- The messages of a view, in key order, are made of what is disclosed. -/
theorem viewMessages_eq (messages : List Dict) :
    ∃ projected, (messages.map Value.dict).mapM (projectToolMessage grants) = .ok projected ∧
      ((projected.filterMap id).map detach).map sortKeys = (disclosedMessages grants messages).map fun tool =>
        sortKeys (toolMessage tool.1 (if get? (projections grants) tool.1 = some [] then none else some tool.2)) := by
  refine ⟨_, mapM_dict (projectToolMessage_dict grants) messages, ?_⟩
  rw [filterMap_map, disclosedMessages, map_filterMap, map_filterMap, map_filterMap]
  refine filterMap_congr fun m _ => ?_
  simp only [Function.comp_apply, id_eq]
  split
  · cases htool : toolOf grants m with
    | none => rfl
    | some tool =>
      have hprojection : get? (projections grants) tool.1 = some tool.2 := toolOf_some grants htool
      simp only [Option.map_some, hprojection, Option.some.injEq, sortKeys_detach, reducedContent]
      rw [sortKeys_toolMessage]
      by_cases hempty : tool.2 = [] <;> simp [hempty]
  · rfl

theorem migratedMessages_eq (messages : List Dict) :
    ∃ kept, (messages.map Value.dict).mapM (projectMigratedMessage grants) = .ok kept ∧
      (kept.filterMap id).map sortKeys = (conversation grants messages).map (Sum.elim id fun tool =>
        sortKeys (toolMessage tool.1 (some tool.2))) := by
  refine ⟨_, mapM_dict (projectMigratedMessage_dict grants) messages, ?_⟩
  rw [filterMap_map, conversation, map_filterMap, map_filterMap]
  refine filterMap_congr fun m _ => ?_
  simp only [Function.comp_apply, id_eq]
  split
  · cases toolOf grants m with
    | none => rfl
    | some =>
      simp only [Option.map_some, Sum.elim_inr, reducedContent]
      rw [sortKeys_toolMessage]
      rfl
  · rfl

end Messages

/-! ## The view and the migrated state -/

section Leaks

variable {grants : List ToolGrant} {s s' : AgentState} {messages messages' : List Dict}

/-- The results of a view are the stored ones of the granted tools, projected. -/
theorem viewResults_spec (hs : WellTyped s messages) {memory : Dict} (hm : s.memory = .dict memory) :
    let results := projectToolResults grants ((get? memory "tool_results").getD .null)
    (keys results).Nodup ∧ ∀ name, get? results name =
      (get? (projections grants) name).bind fun p => (storedResult s name).map (projectToolOutput p) := by
  have hempty : (keys ([] : Dict)).Nodup ∧ ∀ name, get? ([] : Dict) name =
      (get? (projections grants) name).bind fun p => (none : Option Value).map (projectToolOutput p) :=
    ⟨nodup_nil, fun name => by cases get? (projections grants) name <;> rfl⟩
  simp only [storedResult, hm]
  cases hresults : get? memory "tool_results" with
  | none => exact hempty
  | some v =>
    cases v with
    | dict results =>
      have hn := (hs.memory memory hm).2 results hresults
      exact ⟨nodup_projectToolResults grants hn, get?_projectToolResults grants hn⟩
    | _ => exact hempty

theorem results_alike (h : DiscloseAlike grants s s' messages messages') {d d' : Dict} (hd : (keys d).Nodup)
    (hd' : (keys d').Nodup)
    (hget : ∀ name, get? d name =
      (get? (projections grants) name).bind fun p => (storedResult s name).map (projectToolOutput p))
    (hget' : ∀ name, get? d' name =
      (get? (projections grants) name).bind fun p => (storedResult s' name).map (projectToolOutput p)) :
    Alike (.dict d) (.dict d') := by
  refine alike_dict hd hd' fun name => ?_
  rw [hget, hget']
  cases hp : get? (projections grants) name with
  | none => rfl
  | some projection => simpa [Option.map_map] using h.results name projection hp

/-- The view of a state, by what it is made of. -/
theorem providerView_spec (hs : WellTyped s messages) : ∃ v, providerView s grants = .ok v ∧
    v = ⟨s.taskId, s.goal, s.step, s.toolCalls, s.status, isMigrated s, v.messages, v.toolResults⟩ ∧
    (v.messages.map sortKeys = (disclosedMessages grants messages).map fun tool => sortKeys (toolMessage tool.1
      (if get? (projections grants) tool.1 = some [] then none else some tool.2))) ∧
    ∃ results, v.toolResults = detachEntries results ∧ (keys results).Nodup ∧ ∀ name, get? results name =
      (get? (projections grants) name).bind fun p => (storedResult s name).map (projectToolOutput p) := by
  obtain ⟨projected, hprojected, hmessages⟩ := viewMessages_eq grants messages
  unfold providerView
  simp only [hs.messages, messageList, hprojected, bind, Except.bind, pure, Except.pure]
  refine ⟨_, rfl, rfl, hmessages, _, rfl, ?_⟩
  cases hm : s.memory with
  | dict => exact viewResults_spec hs hm
  | _ =>
    refine ⟨nodup_nil, fun name => ?_⟩
    simp only [storedResult, hm]
    cases get? (projections grants) name <;> rfl

/-- What is withheld does not leak, to a provider or to a destination. -/
theorem withheld_output_stays (hs : WellTyped s messages) (hs' : WellTyped s' messages')
    (h : DiscloseAlike grants s s' messages messages') :
    (∃ v v', providerView s grants = .ok v ∧ providerView s' grants = .ok v' ∧ v.Alike v') ∧
    ∀ memory memory', s.memory = .dict memory → s'.memory = .dict memory' →
      RestAlike grants memory memory' messages messages' →
      ∃ t t', projectStateForMigration s grants = .ok t ∧ projectStateForMigration s' grants = .ok t' ∧ t.Alike t' := by
  refine ⟨?_, fun memory memory' hm hm' hrest => ?_⟩
  · obtain ⟨v, hv, hfields, hmessages, results, hresults, hn, hget⟩ := @providerView_spec grants s messages hs
    obtain ⟨v', hv', hfields', hmessages', results', hresults', hn', hget'⟩ :=
      @providerView_spec grants s' messages' hs'
    refine ⟨v, v', hv, hv', ?_, ?_, ?_⟩
    · rw [hfields', hfields, h.rest, h.migrated]
      rfl
    · rw [hmessages, hmessages', h.outputs]
    · have halike := results_alike h hn hn' hget hget'
      unfold Alike at halike ⊢
      rw [hresults, hresults', sortKeys_dict, sortKeys_dict, sortEntries_detach, sortEntries_detach]
      rwa [sortKeys_dict, sortKeys_dict] at halike
  · obtain ⟨kept, hkept, hmessages⟩ := migratedMessages_eq grants messages
    obtain ⟨kept', hkept', hmessages'⟩ := migratedMessages_eq grants messages'
    unfold projectStateForMigration
    simp only [hm, hm', hs.messages, hs'.messages, messageList, hkept, hkept', bind, Except.bind, pure, Except.pure]
    refine ⟨_, _, rfl, rfl, ?_, ?_, ?_⟩
    · rw [h.rest]
    · obtain ⟨hn, hget⟩ := @viewResults_spec grants s messages hs memory hm
      obtain ⟨hn', hget'⟩ := @viewResults_spec grants s' messages' hs' memory' hm'
      have halike := results_alike h hn hn' hget hget'
      have hkeys := (hs.memory memory hm).1
      have hkeys' := (hs'.memory memory' hm').1
      have hboth := hrest.results
      unfold Assoc.contains at hboth
      cases hresults : get? memory "tool_results" with
      | none =>
        rw [hresults, Option.isSome_none, eq_comm, Option.isSome_eq_false_iff, Option.isNone_iff_eq_none] at hboth
        rw [hboth]
        refine alike_dict hkeys hkeys' fun k => ?_
        by_cases hk : k = "tool_results"
        · rw [hk, hresults, hboth]
        · exact hrest.others k hk
      | some =>
        rw [hresults, Option.isSome_some, eq_comm, Option.isSome_iff_exists] at hboth
        obtain ⟨results', hresults'⟩ := hboth
        rw [hresults, hresults'] at halike
        rw [hresults']
        refine alike_dict (nodup_set hkeys _ _) (nodup_set hkeys' _ _) fun k => ?_
        rw [get?_set, get?_set]
        by_cases hk : k = "tool_results"
        · rw [if_pos hk, if_pos hk]
          exact congrArg some halike
        · rw [if_neg hk, if_neg hk]
          exact hrest.others k hk
    · show Alike (.list _) (.list _)
      unfold Alike
      rw [sortKeys, sortKeys, sortItems_eq, sortItems_eq, hmessages, hmessages', hrest.conversation]

end Leaks

def lookupMessage (note : String) : Dict :=
  [("role", .str "tool"), ("name", .str "lookup"), ("content", .dict [("note", .str note)])]

def lookupState (note : String) : AgentState where
  taskId := "task"
  goal := "goal"
  checkpointGeneration := 0
  step := 1
  toolCalls := 1
  memory := .dict [("tool_results", .dict [("lookup", .dict [("name", .str "a"), ("note", .str note)])])]
  messages := .list [.dict (lookupMessage note)]
  status := .running
  result := .null

theorem wellTyped_lookupState (note : String) : WellTyped (lookupState note) [lookupMessage note] where
  messages := rfl
  memory := by
    rintro memory ⟨⟩
    refine ⟨by simp [Assoc.keys], ?_⟩
    rintro results ⟨⟩
    simp [Assoc.keys]

/-- Two notes that the grant withholds look alike. -/
theorem withheld_output_stays_lookup : ∃ v v', providerView (lookupState "x") [⟨"lookup", [], some ["name"]⟩] = .ok v ∧
    providerView (lookupState "y") [⟨"lookup", [], some ["name"]⟩] = .ok v' ∧ v.Alike v' := by
  refine (withheld_output_stays (wellTyped_lookupState "x") (wellTyped_lookupState "y") ⟨rfl, rfl, ?_, rfl⟩).1
  intro name projection hget
  have hget : get? [("lookup", ["name"])] name = some projection := hget
  by_cases hname : name = "lookup"
  · subst hname
    cases hget
    rfl
  · rw [get?_cons, if_neg hname] at hget
    cases hget

end Portmark.Host
