/-
How often a side effect is launched. A run that has marked a row claims it: it may still launch.
As long as every run that marks an effect finds its row `prepared`, at most one run claims an
effect or has launched it. `mark_effect_started` does not tell whether it changed the row, so two
runs that both read `prepared` can both go on to launch.
-/
import Portmark.Host.Settled
import Portmark.Host.Walk.Door

namespace Portmark.Host

open Lib Lib.Json Security List

/-! ## Claims on an effect -/

def trail (host : AgentHost) (p : Proc Answer Job (Except Fault Outcome)) : Trail := (runWatch host).state p

theorem trail_call {host : AgentHost} {job : Job} {op : Op} {k : Answer op → Prog Answer (Except Fault Outcome)}
    {history : List (Call Answer)} (answer : Answer op) : trail host ⟨job, k answer, history ++ [⟨op, answer⟩], true⟩ =
      (trail host ⟨job, .ask op k, history, true⟩).next op answer :=
  Machine.Watch.state_call answer

def Phase.claims (effectId : String) : Phase → Nat
  | .marked id _ _ => if id = effectId then 1 else 0
  | .armed id _ _ _ => if id = effectId then 1 else 0
  | _ => 0

def World.launchCount (w : World) (effectId : String) : Nat :=
    w.launches.countP fun launch => launch.effectId == some effectId

def claimCount (host : AgentHost) (pool : HostPool) (effectId : String) : Nat :=
  (pool.procs.map fun p => (trail host p).effect.claims effectId).sum + pool.world.launchCount effectId

def Unstarted (row : Option EffectRow) : Prop := ∀ r, row = some r → r.state = .prepared

section Call

variable {host : AgentHost} {s : Trail} {op : Op} {answer : Answer op}

theorem claims_next (hallows : s.allows host op) (hmark : ∀ effectId, op ≠ .markEffectStarted effectId)
    (effectId : String) : (s.next op answer).effect.claims effectId ≤ s.effect.claims effectId := by
  cases op
  case markEffectStarted id => exact absurd rfl (hmark id)
  case getEffect | recordEffectPrepared | settleEffect =>
    cases answer
    · exact le_refl _
    · exact Nat.zero_le _
  case arm id tool argumentsJson =>
    obtain ⟨e, -, -, hmarked⟩ := hallows
    cases answer
    · exact le_refl _
    · show Phase.claims effectId (.armed id tool argumentsJson _) ≤ _
      rw [hmarked]
      exact le_refl _
  case invoke =>
    have hlaunches : (Trail.launches s.effect).claims effectId ≤ s.effect.claims effectId := by
      cases s.effect with
      | armed => exact Nat.zero_le _
      | _ => exact le_refl _
    cases answer <;> exact hlaunches
  case getMigrationReceipt =>
    rcases answer with error | receipt
    · exact le_refl _
    · show Phase.claims effectId (if s.loaded.isNone then { s with receipt } else s).effect ≤ _
      split <;> exact le_refl _
  case redeem =>
    rcases answer with error | redemption
    · exact le_refl _
    · cases redemption <;> exact le_refl _
  all_goals
    cases answer <;> exact le_refl _

end Call

/-! ## Capabilities -/

/-- The row was first recorded for this tool and these arguments. -/
def RecordedAs (row : Option EffectRow) (tool : String) (argumentsJson : Text) : Prop :=
  ∃ r, row = some r ∧ r.tool = tool ∧ r.argumentsJson = argumentsJson

variable {effectId tool : String} {op : Op} {argumentsJson : Text}

theorem RowMove.recordedAs {row row' : Option EffectRow}
    (h : RowMove effectId op row row') (hrow : RecordedAs row tool argumentsJson) :
    RecordedAs row' tool argumentsJson := by
  obtain ⟨r, rfl, htool, hargs⟩ := hrow
  cases h with
  | kept => exact ⟨r, rfl, htool, hargs⟩
  | _ => exact ⟨_, rfl, htool, hargs⟩

variable {host : AgentHost} {pool : HostPool}

theorem step_recordedAs (h : RecordedAs (pool.world.store.effects effectId) tool argumentsJson) (event : HostEvent) :
    RecordedAs (((machine host).step pool event).world.store.effects effectId) tool argumentsJson := by
  obtain hsame | ⟨_, _, _, _, _, _, -, -, hmove⟩ := step_rowMove host pool event effectId
  · rw [hsame]
    exact h
  · exact hmove.recordedAs h

structure Armory (host : AgentHost) (pool : HostPool) : Prop where
  kept : (runWatch host).AllKept pool
  armed : ∀ a ∈ pool.world.armed, a ∈ pool.world.minted
  unique : ∀ a ∈ pool.world.minted, ∀ b ∈ pool.world.minted, a.capability = b.capability → a = b
  owned : ∀ p ∈ pool.procs, ∀ id tool argumentsJson token, (trail host p).effect = .armed id tool argumentsJson token →
    ⟨p.job.process, token, id, tool, argumentsJson⟩ ∈ pool.world.minted
  recorded : ∀ a ∈ pool.world.minted, RecordedAs (pool.world.store.effects a.effectId) a.tool a.argumentsJson
  launched : ∀ launch ∈ pool.world.launches, ∀ id, launch.effectId = some id →
    RecordedAs (pool.world.store.effects id) launch.tool launch.argumentsJson

variable {job : Job} {history : List (Call Answer)}

theorem Armory.allows {pid : Nat} {k : Answer op → Prog Answer (Except Fault Outcome)} {alive : Bool}
    (h : Armory host pool) (hp : pool.procs[pid]? = some ⟨job, .ask op k, history, alive⟩) :
    (trail host ⟨job, .ask op k, history, alive⟩).allows host op :=
  (h.kept _ (mem_of_getElem? hp)).rest.1

variable {w : World}

theorem World.startedRow_recordedAs
    (h : w.startedRow effectId tool argumentsJson = true) :
    RecordedAs (w.store.effects effectId) tool argumentsJson := by
  unfold World.startedRow at h
  split at h
  · rename_i row hrow
    simp only [Bool.and_eq_true, beq_iff_eq] at h
    exact ⟨row, hrow, h.1.2, h.2⟩
  · cases h

variable {w' : World}

/-- A process becomes armed only by a capability that was just minted for it. -/
theorem armed_next {s : Trail} {answer : Answer op} {process : Nat}
    {id token : String} (hfired : Fired host process w op answer w')
    (h : (s.next op answer).effect = .armed id tool argumentsJson token) :
    s.effect = .armed id tool argumentsJson token ∨ ⟨process, token, id, tool, argumentsJson⟩ ∈ w'.minted := by
  cases op
  case arm =>
    rcases answer with error | token'
    · exact .inl h
    cases h
    cases hfired with
    | nothing _ _ hhands => cases hhands
    | armed => exact .inr (mem_append_right _ (mem_singleton_self _))
  case getEffect | recordEffectPrepared | settleEffect =>
    cases answer
    · exact .inl h
    · cases h
  case markEffectStarted =>
    cases answer
    · exact .inl h
    · have h : Trail.marks s.effect = _ := h
      unfold Trail.marks at h
      split at h
      · cases h
      · cases h
      · exact .inl h
  case invoke =>
    have h : Trail.launches s.effect = .armed id tool argumentsJson token := by cases answer <;> exact h
    unfold Trail.launches at h
    split at h
    · cases h
    · exact .inl h
  case getMigrationReceipt =>
    rcases answer with error | receipt
    · exact .inl h
    · have h : (if s.loaded.isNone then { s with receipt } else s).effect = _ := h
      split at h <;> exact .inl h
  case redeem =>
    rcases answer with error | redemption
    · exact .inl h
    · cases redemption <;> exact .inl h
  all_goals
    cases answer <;> exact .inl h

theorem Fired.minted {process : Nat} {answer : Answer op}
    (h : Fired host process w op answer w') : w.minted ⊆ w'.minted := by
  cases h with
  | nothing _ _ _ _ hminted => rw [hminted]; exact List.Subset.refl _
  | armed => exact subset_append_left _ _
  | _ => exact List.Subset.refl _

theorem Armory.served {pid : Nat} {hint : Hint}
    {k : Answer op → Prog Answer (Except Fault Outcome)} {answer : Answer op}
    (h : Armory host pool) (hp : pool.procs[pid]? = some ⟨job, .ask op k, history, true⟩)
    (hs : serve host job op hint pool.world = some (answer, w)) (hkept : (runWatch host).AllKept
      ⟨w, pool.procs.set pid ⟨job, k answer, history ++ [⟨op, answer⟩], true⟩⟩) :
    Armory host ⟨w, pool.procs.set pid ⟨job, k answer, history ++ [⟨op, answer⟩], true⟩⟩ := by
  have hfired := serve_fired hs
  have hrows : ∀ id tool argumentsJson, RecordedAs (pool.world.store.effects id) tool argumentsJson →
      RecordedAs (w.store.effects id) tool argumentsJson := fun id _ _ => ((serve_wrote hs).rowMove id).recordedAs
  refine ⟨hkept, ?_, ?_, ?_, ?_, ?_⟩
  · intro a ha
    cases hfired with
    | nothing _ _ _ harmed hminted => exact hminted ▸ h.armed a (harmed ▸ ha)
    | armed =>
      rcases mem_append.1 ha with ha | ha
      · exact mem_append_left _ (h.armed a ha)
      · exact mem_append_right _ ha
    | disarmed | launched => exact h.armed a (mem_of_mem_filter ha)
    | plain => exact h.armed a ha
  · cases hfired with
    | nothing _ _ _ _ hminted => exact hminted ▸ h.unique
    | armed _ hfresh =>
      -- the token is new, so only the entry itself carries it
      intro a ha b hb heq
      rcases mem_append.1 ha with ha | ha <;> rcases mem_append.1 hb with hb | hb
      · exact h.unique a ha b hb heq
      · cases mem_singleton.1 hb
        exact absurd heq (hfresh a ha)
      · cases mem_singleton.1 ha
        exact absurd heq.symm (hfresh b hb)
      · rw [mem_singleton.1 ha, mem_singleton.1 hb]
    | _ => exact h.unique
  · intro p hmem id tool argumentsJson token heffect
    rcases mem_or_eq_of_mem_set hmem with hold | rfl
    · exact hfired.minted (h.owned p hold id tool argumentsJson token heffect)
    rw [trail_call] at heffect
    obtain hbefore | hminted := armed_next hfired heffect
    · exact hfired.minted (h.owned _ (mem_of_getElem? hp) id tool argumentsJson token hbefore)
    · exact hminted
  · intro a ha
    refine hrows _ _ _ ?_
    cases hfired with
    | nothing _ _ _ _ hminted => exact h.recorded a (hminted ▸ ha)
    | armed hrow =>
      rcases mem_append.1 ha with ha | ha
      · exact h.recorded a ha
      · cases mem_singleton.1 ha
        exact World.startedRow_recordedAs hrow
    | _ => exact h.recorded a ha
  · intro launch hlaunch id hid
    refine hrows _ _ _ ?_
    cases hfired with
    | nothing _ _ _ _ _ hlaunches => exact h.launched launch (hlaunches ▸ hlaunch) id hid
    | armed | disarmed => exact h.launched launch hlaunch id hid
    | launched _ _ harmed =>
      rcases mem_append.1 hlaunch with hlaunch | hlaunch
      · exact h.launched launch hlaunch id hid
      · cases mem_singleton.1 hlaunch
        cases hid
        exact h.recorded _ (h.armed _ harmed)
    | plain =>
      rcases mem_append.1 hlaunch with hlaunch | hlaunch
      · exact h.launched launch hlaunch id hid
      · cases mem_singleton.1 hlaunch
        cases hid

theorem act_launches (a : Act) (w : World) : (act a w).minted = w.minted ∧ (act a w).launches = w.launches ∧
    ∀ armed ∈ (act a w).armed, armed ∈ w.armed := by
  cases a with
  | restart => exact ⟨rfl, rfl, fun _ h => mem_of_mem_filter h⟩
  | _ => exact ⟨rfl, rfl, fun _ h => h⟩

theorem Armory.step (h : Armory host pool) (event : HostEvent) : Armory host ((machine host).step pool event) := by
  have hkept := h.kept.step event
  have hmoves := (machine host).step_moves pool event
  generalize (machine host).step pool event = pool' at hmoves hkept
  cases hmoves with
  | idle => exact h
  | started job =>
    refine ⟨hkept, h.armed, h.unique, ?_, h.recorded, h.launched⟩
    intro p hmem id tool argumentsJson token heffect
    rcases mem_append.1 hmem with hold | hnew
    · exact h.owned p hold id tool argumentsJson token heffect
    · cases mem_singleton.1 hnew
      cases job <;> cases heffect
  | served hp hs => exact h.served hp hs hkept
  | crashed hp =>
    refine ⟨hkept, h.armed, h.unique, ?_, h.recorded, h.launched⟩
    intro p hmem id tool argumentsJson token heffect
    rcases mem_or_eq_of_mem_set hmem with hold | rfl
    · exact h.owned p hold id tool argumentsJson token heffect
    · exact h.owned _ (mem_of_getElem? hp) id tool argumentsJson token heffect
  | acted a =>
    obtain ⟨hminted, hlaunches, harmed⟩ := act_launches a pool.world
    have heffects := act_effects a pool.world
    show Armory host ⟨act a pool.world, pool.procs⟩
    generalize act a pool.world = w at hminted hlaunches harmed heffects hkept ⊢
    refine ⟨hkept, ?_, ?_, ?_, ?_, ?_⟩ <;> simp only [hminted, hlaunches, heffects]
    · exact fun x hx => h.armed x (harmed x hx)
    · exact h.unique
    · exact h.owned
    · exact h.recorded
    · exact h.launched

theorem armory_start (host : AgentHost) (store : Store) : Armory host ⟨.start store, []⟩ where
  kept := fun _ hp => by cases hp
  armed := fun _ ha => by cases ha
  unique := fun _ ha => by cases ha
  owned := fun _ hp => by cases hp
  recorded := fun _ ha => by cases ha
  launched := fun _ hl => by cases hl

/-! ## At most one launch -/

/-- A process that is about to mark an effect finds its row `prepared`. -/
def marksPrepared (pool : HostPool) : HostEvent → Bool
  | .step pid _ =>
    match pool.procs[pid]? with
    | some ⟨_, .ask (.markEffectStarted effectId) _, _, true⟩ =>
      (pool.world.store.effects effectId).any fun row => row.state == .prepared
    | _ => true
  | _ => true

section Count

variable {host : AgentHost} {pool : HostPool} {pid : Nat} {hint : Hint} {job : Job} {op : Op}
  {k : Answer op → Prog Answer (Except Fault Outcome)} {history : List (Call Answer)} {answer : Answer op} {w : World}

def afterCall (pool : HostPool) (pid : Nat) (job : Job) (op : Op) (k : Answer op → Prog Answer (Except Fault Outcome))
    (history : List (Call Answer)) (answer : Answer op) (w : World) : HostPool :=
  ⟨w, pool.procs.set pid ⟨job, k answer, history ++ [⟨op, answer⟩], true⟩⟩

theorem claimCount_afterCall (hp : pool.procs[pid]? = some ⟨job, .ask op k, history, true⟩) (id : String) :
    let s := trail host ⟨job, .ask op k, history, true⟩
    claimCount host (afterCall pool pid job op k history answer w) id +
        (s.effect.claims id + pool.world.launchCount id) =
      claimCount host pool id + ((s.next op answer).effect.claims id + w.launchCount id) := by
  have hset := sum_map_set (fun p => (trail host p).effect.claims id)
    (y := ⟨job, k answer, history ++ [⟨op, answer⟩], true⟩) hp
  simp only [trail_call] at hset
  simp only [claimCount, afterCall]
  omega

theorem launchCount_congr (h : w'.launches = w.launches) (id : String) : w'.launchCount id = w.launchCount id := by
  unfold World.launchCount
  rw [h]

theorem launchCount_append {launch : Launch} (h : w'.launches = w.launches ++ [launch]) (id : String) :
    w'.launchCount id = w.launchCount id + if launch.effectId = some id then 1 else 0 := by
  unfold World.launchCount
  rw [h, countP_append, countP_singleton]
  simp only [beq_iff_eq]

theorem claims_launch (h : Armory host pool) (hp : pool.procs[pid]? = some ⟨job, .ask op k, history, true⟩)
    (hs : serve host job op hint pool.world = some (answer, w)) (hmark : ∀ effectId, op ≠ .markEffectStarted effectId)
    (id : String) :
    let s := trail host ⟨job, .ask op k, history, true⟩
    (s.next op answer).effect.claims id + w.launchCount id ≤ s.effect.claims id + pool.world.launchCount id := by
  intro s
  have hallows : s.allows host op := h.allows hp
  have hle := @claims_next host s op answer hallows hmark id
  cases serve_fired hs with
  | nothing _ _ _ _ _ hlaunches =>
    rw [launchCount_congr hlaunches id]
    exact Nat.add_le_add_right hle _
  | armed | disarmed => exact Nat.add_le_add_right hle _
  | plain => rw [launchCount_append rfl id]; exact Nat.add_le_add_right hle _
  | @launched permit tool arguments argumentsJson token id' answer hside harmed =>
    -- the entry that is used up carries the token of this process, so it is the one it was armed with
    obtain ⟨e, -, hinvoke⟩ := hallows
    obtain ⟨own, recorded, held, heffect, htoken, -⟩ := hinvoke.armed hside
    cases htoken
    have hmine := h.owned _ (mem_of_getElem? hp) own _ recorded _ heffect
    have heq := h.unique _ (h.armed _ harmed) _ hmine rfl
    cases heq
    have hnext : (s.next (.invoke permit tool arguments argumentsJson (some token)) answer).effect = .launched id' := by
      have hphase : (s.next (.invoke permit tool arguments argumentsJson (some token)) answer).effect =
          Trail.launches s.effect := by cases answer <;> rfl
      rw [hphase, heffect]
      rfl
    rw [hnext, launchCount_append rfl id, heffect]
    simp only [Phase.claims, Option.some.injEq]
    omega

end Count

structure Claims (host : AgentHost) (pool : HostPool) : Prop where
  armory : Armory host pool
  once : ∀ id, claimCount host pool id ≤ 1
  fresh : ∀ id, Unstarted (pool.world.store.effects id) → claimCount host pool id = 0

theorem claims_marked {s : Trail} (hallows : s.allows host (.markEffectStarted effectId))
    (id : String) : s.effect.claims id = 0 ∧ (Trail.marks s.effect).claims id = if effectId = id then 1 else 0 := by
  obtain ⟨e, -, -, ⟨tool, argumentsJson, heffect⟩ | ⟨row, heffect, -⟩⟩ := hallows
  · rw [heffect]
    exact ⟨rfl, rfl⟩
  · rw [heffect]
    exact ⟨rfl, rfl⟩

/-- A row that is not started after a call was not before, or the call is the settlement of a run
that gives up the launch it was armed for. -/
theorem RowMove.unstarted {s : Trail} {row row' : Option EffectRow}
    (h : RowMove effectId op row row') (hallows : s.allows host op) (hrow : Unstarted row') :
    Unstarted row ∨ ∃ resultJson reason, op = .settleEffect effectId .prepared resultJson reason := by
  cases h with
  | kept => exact .inl hrow
  | recorded => exact .inl fun _ h => by cases h
  | marked => exact .inl fun _ h => by cases h; assumption
  | settled row state resultJson reason =>
    obtain rfl : state = .prepared := hrow _ rfl
    exact .inr ⟨resultJson, reason, rfl⟩
  | claimed =>
    have hstate : EffectState.reconciling = .prepared := hrow _ rfl
    cases hstate
  | @renewed row _ lease hstate =>
    have hprepared : row.state = .prepared := hrow { row with leaseExpiresAt := some lease } rfl
    rw [hstate] at hprepared
    cases hprepared
  | reconciled _ state _ _ _ =>
    obtain rfl : state = .prepared := hrow _ rfl
    rcases hallows with h | h <;> cases h
  | released =>
    have hstate : EffectState.unknown = .prepared := hrow _ rfl
    cases hstate

/-- A mark of a row that is prepared: the effect has its one claim, and the row is started. -/
theorem Claims.marked {pid : Nat} {k : Answer (.markEffectStarted effectId) → Prog Answer (Except Fault Outcome)}
    {row : EffectRow} (h : Claims host pool)
    (hp : pool.procs[pid]? = some ⟨job, .ask (.markEffectStarted effectId) k, history, true⟩)
    (hrow : pool.world.store.effects effectId = some row) (hprepared : row.state = .prepared)
    (hw : w = pool.world.put (pool.world.store.markEffectStarted effectId))
    (harmory : Armory host (afterCall pool pid job _ k history (.ok ()) w)) :
    Claims host (afterCall pool pid job _ k history (.ok ()) w) := by
  have hallows := h.armory.allows hp
  have hcount : ∀ id, claimCount host (afterCall pool pid job _ k history (.ok ()) w) id =
      claimCount host pool id + if effectId = id then 1 else 0 := by
    intro id
    have hcall := @claimCount_afterCall host pool pid job _ k history (.ok ()) w hp id
    obtain ⟨hbefore, hafter⟩ := claims_marked hallows id
    have hlaunches : w.launchCount id = pool.world.launchCount id := by rw [hw]; rfl
    change _ + (Phase.claims id _ + _) = _ + (Phase.claims id (Trail.marks _) + _) at hcall
    omega
  have heffects : ∀ id, w.store.effects id =
      if id = effectId then some { row with state := .started } else pool.world.store.effects id := by
    intro id
    simp only [hw, World.put, Store.markEffectStarted, hrow, hprepared]
    exact setEffect_effects _ _ _ _
  refine ⟨harmory, ?_, ?_⟩
  · intro id
    rw [hcount]
    split
    · subst id
      rw [h.fresh effectId (fun r hr => by cases hrow.symm.trans hr; exact hprepared)]
    · exact h.once id
  · intro id hunstarted
    rw [hcount]
    have hunstarted : Unstarted (w.store.effects id) := hunstarted
    rw [heffects] at hunstarted
    split at hunstarted
    · exact absurd (hunstarted _ rfl) (by simp)
    · rename_i hid
      rw [if_neg (Ne.symm hid)]
      exact h.fresh id hunstarted

/-- A call that is no mark adds no claim, and one that makes a row `prepared` again gives one up. -/
theorem Claims.unmarked {pid : Nat} {hint : Hint}
    {k : Answer op → Prog Answer (Except Fault Outcome)} {answer : Answer op}
    (h : Claims host pool) (hp : pool.procs[pid]? = some ⟨job, .ask op k, history, true⟩)
    (hs : serve host job op hint pool.world = some (answer, w)) (hmark : ∀ effectId, op ≠ .markEffectStarted effectId)
    (harmory : Armory host (afterCall pool pid job op k history answer w)) :
    Claims host (afterCall pool pid job op k history answer w) := by
  have hallows := h.armory.allows hp
  have hcount : ∀ id, claimCount host (afterCall pool pid job op k history answer w) id ≤ claimCount host pool id := by
    intro id
    have hcall := @claimCount_afterCall host pool pid job op k history answer w hp id
    have hlaunch := claims_launch h.armory hp hs hmark id
    omega
  refine ⟨harmory, fun id => (hcount id).trans (h.once id), ?_⟩
  intro id hunstarted
  obtain hbefore | ⟨resultJson, reason, rfl⟩ := ((serve_wrote hs).rowMove id).unstarted hallows hunstarted
  · have := hcount id
    have := h.fresh id hbefore
    omega
  · rcases answer with error | done
    · have hsame : w.store = pool.world.store := (serve_wrote hs).error
      have := hcount id
      have := h.fresh id (hsame ▸ hunstarted)
      omega
    · -- the run was armed for this effect, and gives its claim back
      obtain ⟨e, -, -, ⟨hstate, -⟩ | ⟨-, tool, argumentsJson, token, harmed⟩ | ⟨hstate, -⟩⟩ := hallows
      · cases hstate
      · have hcall := @claimCount_afterCall host pool pid job _ k history (.ok done) w hp id
        have hlaunches : w.launchCount id = pool.world.launchCount id := by
          cases serve_fired hs with
          | nothing _ _ _ _ _ hlaunches => exact launchCount_congr hlaunches id
        have honce := h.once id
        have hclaim : Phase.claims id (.armed id tool argumentsJson token) = 1 := if_pos rfl
        have hidle : Phase.claims id .idle = 0 := rfl
        change _ + (Phase.claims id _ + _) = _ + (Phase.claims id .idle + _) at hcall
        rw [harmed, hclaim, hidle] at hcall
        omega
      · rcases hstate with hstate | hstate <;> cases hstate

theorem serve_mark_error {hint : Hint} {error : Fault}
    (h : serve host job (.markEffectStarted effectId) hint w = some (.error error, w')) : w' = w := by
  unfold serve at h
  split at h
  · cases h
  simp only [serveFault] at h
  split at h
  · cases h
  · cases h
    rfl

/-- A step that launches nothing and leaves every claim and every row keeps the invariant. -/
theorem Claims.of_count {pool' : HostPool} (h : Claims host pool) (harmory : Armory host pool')
    (hcount : ∀ id, claimCount host pool' id = claimCount host pool id)
    (hrows : pool'.world.store.effects = pool.world.store.effects) : Claims host pool' :=
  ⟨harmory, fun id => (hcount id).trans_le (h.once id), fun id hrow => (hcount id).trans (h.fresh id (hrows ▸ hrow))⟩

theorem Claims.step {event : HostEvent} (hmarks : marksPrepared pool event = true)
    (h : Claims host pool) : Claims host ((machine host).step pool event) := by
  have harmory := h.armory.step event
  have hmoves := (machine host).step_moves pool event
  generalize (machine host).step pool event = pool' at hmoves harmory
  cases hmoves with
  | idle => exact h
  | started job =>
    have hcount : ∀ id, claimCount host ⟨pool.world, pool.procs ++ [⟨job, (machine host).program job, [], true⟩]⟩ id =
        claimCount host pool id := by
      intro id
      have hidle : (trail host ⟨job, (machine host).program job, [], true⟩).effect.claims id = 0 := by cases job <;> rfl
      simp only [claimCount, map_append, sum_append, map_singleton, sum_singleton, hidle, add_zero]
    exact h.of_count harmory hcount rfl
  | @served pid hint job op k history answer w hp hs =>
    by_cases hmark : ∃ effectId, op = .markEffectStarted effectId
    · obtain ⟨effectId, rfl⟩ := hmark
      rcases answer with error | done
      · obtain rfl : w = pool.world := serve_mark_error hs
        have hcount : ∀ id, claimCount host (afterCall pool pid job _ k history (.error error) pool.world) id =
            claimCount host pool id := fun id =>
          Nat.add_right_cancel (@claimCount_afterCall host pool pid job _ k history (.error error) pool.world hp id)
        exact h.of_count harmory hcount rfl
      · cases serve_returned hs
        simp only [marksPrepared, hp, Option.any_eq_true, beq_iff_eq] at hmarks
        obtain ⟨row, hrow, hprepared⟩ := hmarks
        exact h.marked hp hrow hprepared rfl harmory
    · exact h.unmarked hp hs (fun effectId heq => hmark ⟨effectId, heq⟩) harmory
  | @crashed pid p hp =>
    have hcount : ∀ id, claimCount host ⟨pool.world, pool.procs.set pid { p with alive := false }⟩ id =
        claimCount host pool id := by
      intro id
      have hset := sum_map_set (fun p => (trail host p).effect.claims id) (y := { p with alive := false }) hp
      have hsame : trail host { p with alive := false } = trail host p := rfl
      simp only [hsame] at hset
      simp only [claimCount]
      omega
    exact h.of_count harmory hcount rfl
  | acted a =>
    have hcount : ∀ id, claimCount host ⟨act a pool.world, pool.procs⟩ id = claimCount host pool id := fun id =>
      congrArg (_ + ·) (launchCount_congr (act_launches a pool.world).2.1 id)
    exact h.of_count harmory hcount (act_effects a pool.world)

theorem claims_start (host : AgentHost) (store : Store) : Claims host ⟨.start store, []⟩ where
  armory := armory_start host store
  once := fun _ => Nat.zero_le 1
  fresh := fun _ _ => rfl

/-- In a run in which every process that marks an effect finds its row `prepared`, no effect is
launched twice. -/
theorem effect_launched_once (host : AgentHost) (store : Store) (events : List HostEvent)
    (h : (machine host).Each (fun pool event => marksPrepared pool event = true) ⟨.start store, []⟩ events)
    (effectId : String) : (runHost host store events).world.launchCount effectId ≤ 1 := by
  have hclaims : Claims host (runHost host store events) :=
    h.invariant (fun _ _ hmarks h => h.step hmarks) (claims_start host store)
  exact (Nat.le_add_left _ _).trans (hclaims.once effectId)

/-! ### Two runs of one checkpoint -/

def checksum (text : Text) : String :=
  toString (text.foldl (fun sum c => (sum * 257 + c.toNat) % 1000000007) 1)

def summedHost : AgentHost := { payHost with sha256 := checksum, blake2b := checksum }

def resumeSteps (pid calls : Nat) : List HostEvent :=
  List.replicate calls (.step pid (payHint (if pid = 1 then "first" else "second")))

def admittedTwice : List HostEvent :=
  .start (.run 0 (payEnvelope 0)) :: paySteps 0 7 ++ .crash 0 ::
    .start (.run 1 (payEnvelope 1)) :: .start (.run 2 (payEnvelope 2)) ::
    resumeSteps 2 4 ++ resumeSteps 1 8 ++ resumeSteps 2 4

/-- The first resume records its effect, the second reads the `prepared` row, the first launches,
and then the second. -/
def launchedTwice : List HostEvent :=
  admittedTwice ++ resumeSteps 1 8 ++ resumeSteps 2 7 ++ resumeSteps 1 4 ++ resumeSteps 2 5

/-- Two runs that load the same generation of a task launch its effect twice. -/
theorem effect_launched_twice :
    let pool := runHost summedHost .empty launchedTwice
    pool.procs.map (fun p => ((trail summedHost p).loaded.bind id).map AgentState.checkpointGeneration) =
        [none, some 1, some 1] ∧
      pool.world.launchCount (summedHost.effectId "task" 0) = 2 := by
  decide +kernel

/-- A resume that overlaps the first run reads its effect as started, and launches nothing. -/
theorem effect_launched_once_overlapping :
    (machine payHost).Each (fun pool event => marksPrepared pool event = true) ⟨.start .empty, []⟩
      (confirmed ++ paySteps 1 1) ∧
      (runHost payHost .empty (confirmed ++ paySteps 1 1)).world.launchCount payEffect ≤ 1 := by
  have hmarks : (machine payHost).Each (fun pool event => marksPrepared pool event = true) ⟨.start .empty, []⟩
      (confirmed ++ paySteps 1 1) := by
    decide +kernel
  exact ⟨hmarks, effect_launched_once payHost .empty _ hmarks payEffect⟩

end Portmark.Host
