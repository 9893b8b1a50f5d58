/-
The table of one-time records of host.py. A permit nonce is its own key; an approval is recorded
under `approval:{task_id}:{approval_id}`, built from two free-form strings. The keys of two
approvals are the same exactly if the parts can be moved across a colon (`approvalNonce_eq_iff`),
and a permit nonce may spell the key of an approval; `approvals_undisturbed_iff` says which ids keep the records apart.
The stored id of a migrated task is built from two strings too, but says how long the first one is.
-/
import Portmark.Host.Admission

namespace Portmark.Host

open Lib Lib.Json Security List

/-! ## Keys -/

/-- The task id of the second approval goes on, after a colon, with what the approval id of the first begins with. -/
def Shifted (taskId approvalId taskId' approvalId' : String) : Prop :=
  ∃ middle, taskId' = taskId ++ ":" ++ middle ∧ approvalId = middle ++ ":" ++ approvalId'

theorem approvalNonce_toList (taskId approvalId : String) :
    (approvalNonce taskId approvalId).toList = "approval:".toList ++ (taskId.toList ++ ':' :: approvalId.toList) := by
  unfold approvalNonce
  simp [toString]

/-- Two texts cut at a colon each are the same at the same cut, or at another one. -/
theorem append_colon_eq_iff {t a t' a' : List Char} : t ++ ':' :: a = t' ++ ':' :: a' ↔
    t = t' ∧ a = a' ∨ (∃ m, t' = t ++ ':' :: m ∧ a = m ++ ':' :: a') ∨ ∃ m, t = t' ++ ':' :: m ∧
      a' = m ++ ':' :: a := by
  rw [append_eq_append_iff]
  constructor
  · rintro (⟨m, rfl, h⟩ | ⟨m, rfl, h⟩)
    · cases m with
      | nil => exact .inl ⟨(append_nil t).symm, by simpa using h⟩
      | cons c m =>
        obtain ⟨rfl, rfl⟩ := List.cons.inj h
        exact .inr (.inl ⟨m, rfl, rfl⟩)
    · cases m with
      | nil => exact .inl ⟨append_nil t', by simpa using h.symm⟩
      | cons c m =>
        obtain ⟨rfl, rfl⟩ := List.cons.inj h
        exact .inr (.inr ⟨m, rfl, rfl⟩)
  · rintro (⟨rfl, rfl⟩ | ⟨m, rfl, rfl⟩ | ⟨m, rfl, rfl⟩)
    · exact .inl ⟨[], (append_nil t).symm, rfl⟩
    · exact .inl ⟨':' :: m, rfl, rfl⟩
    · exact .inr ⟨':' :: m, rfl, rfl⟩

theorem shifted_iff {taskId approvalId taskId' approvalId' : String} : Shifted taskId approvalId taskId' approvalId' ↔
    ∃ m, taskId'.toList = taskId.toList ++ ':' :: m ∧ approvalId.toList = m ++ ':' :: approvalId'.toList := by
  constructor
  · rintro ⟨middle, rfl, rfl⟩
    exact ⟨middle.toList, by simp, by simp⟩
  · rintro ⟨m, htask, happroval⟩
    refine ⟨String.ofList m, ?_, ?_⟩
    · rw [← String.toList_inj, htask]
      simp
    · rw [← String.toList_inj, happroval]
      simp

theorem approvalNonce_eq_iff {taskId approvalId taskId' approvalId' : String} :
    approvalNonce taskId approvalId = approvalNonce taskId' approvalId' ↔
      taskId = taskId' ∧ approvalId = approvalId' ∨ Shifted taskId approvalId taskId' approvalId' ∨
        Shifted taskId' approvalId' taskId approvalId := by
  rw [← String.toList_inj, approvalNonce_toList, approvalNonce_toList, append_cancel_left_eq, append_colon_eq_iff,
    shifted_iff, shifted_iff, String.toList_inj, String.toList_inj]

/-! ## Task ids -/

theorem toList_toString (n : Nat) : (toString n).toList = intText n := by
  rw [intText, if_neg (by omega), Int.natAbs_natCast]
  exact Nat.toList_repr

theorem namespacedMigrationTaskId_toList (source task : String) :
    (namespacedMigrationTaskId source task).toList = migrationTaskNamespace.toList ++
      (intText source.length ++ ':' :: (':' :: (source.toList ++ ':' :: ':' :: task.toList))) := by
  simp [namespacedMigrationTaskId, ← toList_toString]

/-- The length says where the source ends, and its digits end at the first colon. -/
theorem namespacedMigrationTaskId_inj {source source' task task' : String}
    (h : namespacedMigrationTaskId source task = namespacedMigrationTaskId source' task') :
    source = source' ∧ task = task' := by
  have h := congrArg String.toList h
  rw [namespacedMigrationTaskId_toList, namespacedMigrationTaskId_toList, append_cancel_left_eq,
    append_colon_eq_iff] at h
  rcases h with ⟨hlength, hrest⟩ | ⟨m, hdigits, -⟩ | ⟨m, hdigits, -⟩
  · obtain ⟨hsource, htask⟩ := append_inj (List.cons.inj hrest).2 (Int.ofNat.inj (intText_injective hlength))
    simp only [List.cons.injEq, true_and] at htask
    exact ⟨String.toList_inj.1 hsource, String.toList_inj.1 htask⟩
  · exact absurd (by rw [hdigits]; simp) (colon_notMem_intText source'.length)
  · exact absurd (by rw [hdigits]; simp) (colon_notMem_intText source.length)

/-- A fresh admission that is no migration keeps out of the namespace. -/
theorem checkFresh_reserved {e : AgentEnvelope} (h : AgentHost.checkFresh e = .ok ()) (hmigrates : e.migrates = false)
    (source task : String) : e.storedTaskId ≠ namespacedMigrationTaskId source task := by
  obtain ⟨_, -, h⟩ := bind_ok_iff.1 h
  obtain ⟨_, h, -⟩ := bind_ok_iff.1 h
  rw [require_ok_iff, hmigrates, Bool.false_or, Bool.not_eq_true'] at h
  rw [AgentEnvelope.storedTaskId, hmigrates]
  intro heq
  have hstart : migrationTaskNamespace.isPrefixOf e.state.taskId = true := by
    rw [String.isPrefixOf, String.startsWith_string_iff, show e.state.taskId = _ from heq,
      namespacedMigrationTaskId_toList]
    exact prefix_append _ _
  rw [hstart] at h
  cases h

/-- Namespaced task ids are injective and reserved: two pairs have one id only if they are the same, whatever their
ids contain; and over every run, a fresh admission that is no migration saves no checkpoint under the id of a pair. -/
theorem namespaced_ids_reserved (host : AgentHost) (store : Store) :
    (∀ source source' task task', namespacedMigrationTaskId source task = namespacedMigrationTaskId source' task' →
      source = source' ∧ task = task') ∧
    ∀ before event s e sv signedAt generation,
      Admits host (runHost host store before) event s e sv signedAt generation → s.loaded = some none →
      e.migrates = false → ∀ source task, sv.taskId ≠ namespacedMigrationTaskId source task ∧
        (runHost host store (before ++ [event])).world.store.checkpoints (namespacedMigrationTaskId source task) =
          (runHost host store before).world.store.checkpoints (namespacedMigrationTaskId source task) := by
  refine ⟨fun _ _ _ _ => namespacedMigrationTaskId_inj, ?_⟩
  intro before event s e sv signedAt generation hadmits hfresh hmigrates source task
  obtain ⟨hallowed, -⟩ := hadmits.allowed (allKept_runHost host store before)
  have hreserved := checkFresh_reserved (hallowed.fresh hadmits.first hfresh) hmigrates source task
  rw [← hallowed.task] at hreserved
  obtain ⟨row, -, hstore⟩ := hadmits.commits.saved.checkpoint
  refine ⟨hreserved, ?_⟩
  rw [runHost_concat, hstore, Function.update_of_ne hreserved.symm]

/-! ## Records -/

inductive OneTime where
  | permit (nonce : String)
  | approval (taskId approvalId : String)
deriving DecidableEq

def OneTime.key : OneTime → String
  | .permit nonce => nonce
  | .approval taskId approvalId => approvalNonce taskId approvalId

def Store.consume (store : Store) (record : OneTime × NonceRow) : Store :=
  match store.consumeNonce record.1.key record.2 with
  | .ok store => store
  | .error _ => store

def Store.consumeAll (store : Store) (records : List (OneTime × NonceRow)) : Store := records.foldl Store.consume store

theorem consume_other {key : String} (store : Store) (record : OneTime × NonceRow) (h : record.1.key ≠ key) :
    (store.consume record).nonces key = store.nonces key := by
  unfold Store.consume Store.consumeNonce
  cases store.nonces record.1.key with
  | some => rfl
  | none => exact Function.update_of_ne h.symm _ _

theorem consumeAll_other {key : String} (store : Store) (records : List (OneTime × NonceRow))
    (h : ∀ r ∈ records, r.1.key ≠ key) : (store.consumeAll records).nonces key = store.nonces key := by
  induction records generalizing store with
  | nil => rfl
  | cons r records ih =>
    calc ((store.consume r).consumeAll records).nonces key = (store.consume r).nonces key :=
          ih _ fun r' hr' => h r' (mem_cons_of_mem _ hr')
      _ = store.nonces key := consume_other store r (h r (mem_cons_self ..))

/-- An approval that has no record is redeemed, unless its task is cancelled; one that has is refused. -/
theorem redeem_refused_iff (store : Store) (nonce : String) (row : NonceRow) (taskId : String) (now : Int) :
    (∃ message, store.redeem nonce row taskId now = .error (.security message)) ↔
      (store.nonces nonce).isSome = true := by
  have hcases := Store.redeem_cases store nonce row taskId now
  generalize store.redeem nonce row taskId now = outcome at hcases
  cases hcases with
  | refused message hused => exact ⟨fun _ => hused, fun _ => ⟨message, rfl⟩⟩
  | cancelled habsent | redeemed timeFloor habsent =>
    rw [habsent]
    exact ⟨nofun, nofun⟩

/-- Approvals of two names have two keys, none is a permit nonce, and no other record refuses an unredeemed approval.
-/
structure Undisturbed (admitted : Set OneTime) : Prop where
  approvals : ∀ taskId approvalId taskId' approvalId', OneTime.approval taskId approvalId ∈ admitted →
    OneTime.approval taskId' approvalId' ∈ admitted →
    approvalNonce taskId approvalId = approvalNonce taskId' approvalId' → taskId = taskId' ∧ approvalId = approvalId'
  permits : ∀ taskId approvalId nonce, OneTime.approval taskId approvalId ∈ admitted → OneTime.permit nonce ∈ admitted →
    approvalNonce taskId approvalId ≠ nonce
  redeems : ∀ (store : Store) records taskId approvalId row now, OneTime.approval taskId approvalId ∈ admitted →
    (∀ r ∈ records, r.1 ∈ admitted ∧ r.1 ≠ .approval taskId approvalId) →
    store.nonces (approvalNonce taskId approvalId) = none →
    ¬ ∃ message, (store.consumeAll records).redeem (approvalNonce taskId approvalId) row taskId now =
      .error (.security message)

/-- Records of one-time use do not interfere exactly for ids that do not overlap: no admitted pair of a task id and an
approval id is another one with its parts moved across a colon, and no permit nonce reads `approval:`, a task id, a
colon and an approval id. -/
theorem approvals_undisturbed_iff (admitted : Set OneTime) : Undisturbed admitted ↔
    (∀ taskId approvalId taskId' approvalId', OneTime.approval taskId approvalId ∈ admitted →
      OneTime.approval taskId' approvalId' ∈ admitted → ¬ Shifted taskId approvalId taskId' approvalId') ∧
    ∀ taskId approvalId, OneTime.approval taskId approvalId ∈ admitted →
      OneTime.permit ("approval:" ++ taskId ++ ":" ++ approvalId) ∉ admitted := by
  have hspelled : ∀ taskId approvalId, approvalNonce taskId approvalId = "approval:" ++ taskId ++ ":" ++
    approvalId := by
    intro taskId approvalId
    rw [← String.toList_inj, approvalNonce_toList]
    simp
  constructor
  · intro h
    refine ⟨?_, ?_⟩
    · intro taskId approvalId taskId' approvalId' hadmitted hadmitted' hshifted
      obtain ⟨rfl, -⟩ := h.approvals _ _ _ _ hadmitted hadmitted' (approvalNonce_eq_iff.2 (.inr (.inl hshifted)))
      obtain ⟨m, hlonger, -⟩ := shifted_iff.1 hshifted
      simp at hlonger
    · intro taskId approvalId hadmitted hpermit
      exact h.permits taskId approvalId _ hadmitted hpermit (hspelled taskId approvalId)
  · rintro ⟨hshifted, hpermit⟩
    have happrovals : ∀ taskId approvalId taskId' approvalId', OneTime.approval taskId approvalId ∈ admitted →
        OneTime.approval taskId' approvalId' ∈ admitted →
        approvalNonce taskId approvalId = approvalNonce taskId' approvalId' →
        taskId = taskId' ∧ approvalId = approvalId' := by
      intro taskId approvalId taskId' approvalId' hadmitted hadmitted' heq
      rcases approvalNonce_eq_iff.1 heq with hsame | hshift | hshift
      · exact hsame
      · exact absurd hshift (hshifted _ _ _ _ hadmitted hadmitted')
      · exact absurd hshift (hshifted _ _ _ _ hadmitted' hadmitted)
    have hpermits : ∀ taskId approvalId nonce, OneTime.approval taskId approvalId ∈ admitted →
        OneTime.permit nonce ∈ admitted → approvalNonce taskId approvalId ≠ nonce := by
      rintro taskId approvalId nonce hadmitted hnonce rfl
      exact hpermit taskId approvalId hadmitted hnonce
    refine ⟨happrovals, hpermits, ?_⟩
    intro store records taskId approvalId row now hadmitted hrecords habsent
    have hothers : ∀ r ∈ records, r.1.key ≠ approvalNonce taskId approvalId := by
      rintro ⟨record, row'⟩ hr heq
      obtain ⟨hmem, hne⟩ := hrecords _ hr
      cases record with
      | permit nonce => exact hpermits taskId approvalId nonce hadmitted hmem heq.symm
      | approval =>
        obtain ⟨rfl, rfl⟩ := happrovals _ _ _ _ hmem hadmitted heq
        exact hne rfl
    rw [redeem_refused_iff, consumeAll_other store records hothers, habsent]
    exact Bool.false_ne_true

/-! ### Ids that overlap -/

def approvedPolicy : HostPolicy :=
  { payPolicy with
    toolImpacts := [("pay", "high")], approvalRequiredImpacts := ["high"]
    approvalAuthorities := [⟨"approver", "alice", "public", 0, none, false⟩] }

def approvingHost : AgentHost := { summedHost with policy := approvedPolicy }

def payApproval (approvalId taskId permitNonce : String) : Value :=
  .dict [("approval_id", .str approvalId), ("tool", .str "pay"), ("subject", .str "agent"), ("audience", .str "host"),
    ("task_id", .str taskId), ("permit_nonce", .str permitNonce), ("checkpoint_generation", .int 0),
    ("arguments_hash", .str (checksum ['{', '}'])), ("policy_hash", .str "h1"), ("approved_by", .str "alice"),
    ("issued_at", .int 0), ("expires_at", .int 100), ("signature_key_id", .str "approver"),
      ("signature", .str "signature")]

def approvedEnvelope (taskId permitNonce approvalId : String) : AgentEnvelope :=
  { payEnvelope 0 with
    permit := { (payEnvelope 0).permit with nonce := permitNonce }
    state := { (payEnvelope 0).state with
      taskId, memory := .dict [("approvals", .dict [("pay", payApproval approvalId taskId permitNonce)])] } }

def launched (events : List HostEvent) : Nat := (runHost approvingHost .empty events).world.launches.length

/-- A run of the task with its approval, in process `pid`. -/
def approvedRun (pid : Nat) (taskId permitNonce approvalId : String) : List HostEvent :=
  .start (.run pid (approvedEnvelope taskId permitNonce approvalId)) :: paySteps pid 40

/-- Alone, a valid approval launches its tool. It is refused after the admission of another task whose permit nonce
spells its key, and after the redemption of another task's approval whose parts are moved across a colon. -/
theorem approval_disturbed :
    launched (approvedRun 0 "task" "n1" "a:b") = 1 ∧
    launched (.start (.run 0 (approvedEnvelope "other" "approval:task:a:b" "c")) :: paySteps 0 7 ++
      approvedRun 1 "task" "n1" "a:b") = 0 ∧
    launched (approvedRun 0 "task:a" "n2" "b") = 1 ∧
    launched (approvedRun 0 "task:a" "n2" "b" ++ approvedRun 1 "task" "n1" "a:b") = 1 := by
  decide +kernel

end Portmark.Host
