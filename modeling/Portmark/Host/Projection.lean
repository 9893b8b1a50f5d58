/-
projection.py: what a provider and a migration destination get to see of a state. Tool outputs
are reduced to the output projection of their grant.
-/
import Portmark.Host.Types

namespace Portmark.Host

open Lib Lib.Json Security

mutual

/-- `project_tool_output`. -/
def projectToolOutput (projection : List String) : Value → Value
  | .dict content =>
    if projection.contains "*" then .dict content
    else .dict (Assoc.update [] (projection.filterMap fun key => (Assoc.get? content key).map (key, ·)))
  | .list items =>
    if projection.contains "*" then .list items else .list (projectToolOutputs projection items)
  | content => if projection.contains "*" then content else .null

def projectToolOutputs (projection : List String) : List Value → List Value
  | [] => []
  | .dict content :: items => projectToolOutput projection (.dict content) :: projectToolOutputs projection items
  | _ :: items => projectToolOutputs projection items

end

/-- `{grant.name: grant.output_projection or () for grant in grants}`. -/
def projections (grants : List ToolGrant) : Assoc (List String) :=
  grants.foldl (fun d grant => Assoc.set d grant.name (grant.outputProjection.getD [])) []

def projectToolResults (grants : List ToolGrant) : Value → Dict
  | .dict results => (Assoc.items results).filterMap fun entry =>
    (Assoc.get? (projections grants) entry.1).map fun projection => (entry.1, projectToolOutput projection entry.2)
  | _ => []

mutual

/-- `_detach`. -/
def detach : Value → Value
  | .dict d => .dict (detachEntries d)
  | .list xs => .list (detachItems xs)
  | .tuple xs => .list (detachItems xs)
  | v => v

def detachItems : List Value → List Value
  | [] => []
  | v :: vs => detach v :: detachItems vs

def detachEntries : List (String × Value) → List (String × Value)
  | [] => []
  | (k, v) :: es => (k, detach v) :: detachEntries es

end

/-- `message.get(key)`. -/
def messageField (message : Value) (key : String) : Except Fault (Option Value) :=
  match message with
  | .dict d => .ok (Assoc.get? d key)
  | _ => .error (.outside "AttributeError")

def messageList : Value → Except Fault (List Value)
  | .list messages => .ok messages
  | .tuple messages => .ok messages
  | _ => .error (.py (.type "object is not iterable"))

/-- `message.get("role") == "tool"`. -/
def isToolMessage (message : Value) : Except Fault Bool := do
  return (← messageField message "role").any (Value.pyEqual · (.str "tool"))

def messageProjection (grants : List ToolGrant) (message : Value) : Except Fault (Option (String × List String)) := do
  match ← messageField message "name" with
  | some (.str name) => return (Assoc.get? (projections grants) name).map (name, ·)
  | _ => return none

/-- `project_tool_messages`, one message. -/
def projectToolMessage (grants : List ToolGrant) (message : Value) : Except Fault (Option Value) := do
  if ← isToolMessage message then
    match ← messageProjection grants message with
    | none => return none
    | some (name, []) => return some (.dict [("role", .str "tool"), ("name", .str name)])
    | some (name, projection) =>
      let content := (← messageField message "content").getD .null
      return some (.dict [("role", .str "tool"), ("name", .str name),
        ("content", projectToolOutput projection content)])
  else return none

/-- `ProviderView`. -/
structure ProviderView where
  taskId : String
  goal : String
  step : Int
  toolCalls : Int
  status : Status
  migrated : Bool
  messages : List Value
  toolResults : Dict

/-- `provider_view`. -/
def providerView (state : AgentState) (grants : List ToolGrant) : Except Fault ProviderView := do
  let messages ← messageList state.messages
  let projected ← messages.mapM (projectToolMessage grants)
  let results := match state.memory with
    | .dict memory => projectToolResults grants ((Assoc.get? memory "tool_results").getD .null)
    | _ => []
  let migrated := match state.memory with
    | .dict memory => Assoc.contains memory "migration"
    | _ => false
  return { taskId := state.taskId, goal := state.goal, step := state.step, toolCalls := state.toolCalls,
           status := state.status, migrated, messages := (projected.filterMap id).map detach,
           toolResults := detachEntries results }

def projectMigratedMessage (grants : List ToolGrant) (message : Value) : Except Fault (Option Value) := do
  if ← isToolMessage message then
    match ← messageProjection grants message with
    | none => return none
    | some (name, projection) =>
      let content := (← messageField message "content").getD .null
      return some (.dict [("role", .str "tool"), ("name", .str name),
        ("content", projectToolOutput projection content)])
  else return some message

/-- `project_state_for_migration`. -/
def projectStateForMigration (state : AgentState) (grants : List ToolGrant) : Except Fault AgentState := do
  match state.memory with
  | .dict memory => do
    let projected := match Assoc.get? memory "tool_results" with
      | some results => Assoc.set memory "tool_results" (.dict (projectToolResults grants results))
      | none => memory
    let messages ← messageList state.messages
    let kept ← messages.mapM (projectMigratedMessage grants)
    return { state with memory := .dict projected, messages := .list (kept.filterMap id) }
  | _ => .error (.py (.type "memory is not an object"))

end Portmark.Host
