/-
Within an epoch, what the witness has confirmed for a host only goes up: the head of each task, the
trust registry and the time floor. A value is checked when its advance becomes pending and takes
effect when a later advance confirms it. Nothing is confirmed in between, so the check still holds
then; an advance that is discarded leaves nothing behind.
-/
import Portmark.Witness.History

namespace Portmark.Witness

open Lib Lib.Json Security List

/-! ## Newer values -/

def Head.Le (a b : Head) : Prop := a.sequence < b.sequence ∨ a = b

instance (a b : Head) : Decidable (a.Le b) := inferInstanceAs (Decidable (_ ∨ _))

def registryLe : Option Registry → Option Registry → Prop
  | none, _ => True
  | some _, none => False
  | some a, some b => a.version < b.version ∨ a = b

instance : (a b : Option Registry) → Decidable (registryLe a b)
  | none, _ => isTrue trivial
  | some _, none => isFalse id
  | some a, some b => inferInstanceAs (Decidable (a.version < b.version ∨ a = b))

theorem Head.Le.refl (a : Head) : a.Le a := .inr rfl

theorem Head.Le.trans {a b c : Head} (hab : a.Le b) (hbc : b.Le c) : a.Le c := by
  rcases hab with hab | rfl
  · rcases hbc with hbc | rfl
    · exact .inl (by omega)
    · exact .inl hab
  · exact hbc

theorem registryLe.refl : ∀ a : Option Registry, registryLe a a
  | none => trivial
  | some _ => .inr rfl

theorem registryLe.trans : ∀ {a b c : Option Registry}, registryLe a b → registryLe b c → registryLe a c
  | none, _, _, _, _ => trivial
  | some _, none, _, hab, _ => hab.elim
  | some _, some _, none, _, hbc => hbc.elim
  | some a, some b, some c, hab, hbc => by
    rcases hab with hab | rfl
    · rcases hbc with hbc | rfl
      · exact .inl (by omega)
      · exact .inl hab
    · exact hbc

theorem registryLe_higher {a b c : Option Registry} (ha : registryLe a c) (hb : registryLe b c) :
    registryLe (higherRegistry a b) c := by
  cases a <;> cases b <;> simp only [higherRegistry] <;> try assumption
  split <;> assumption

theorem registryLe_higherRegistry (a b : Option Registry) : registryLe a (higherRegistry a b) := by
  cases a with
  | none => trivial
  | some a =>
    cases b with
    | none => exact registryLe.refl _
    | some b =>
      by_cases hlt : a.version < b.version
      · simp only [higherRegistry, if_pos hlt]
        exact .inl hlt
      · simp only [higherRegistry, if_neg hlt]
        exact registryLe.refl _

theorem checkWitnessed_le {env : Env} {taskHead : String → Option Head} {confirm : Option Pending}
    {entry : String × Head} (h : checkWitnessed env taskHead confirm entry = .ok ()) {w : Head}
    (hw : witnessedHead confirm taskHead entry.1 = some w) : w.Le entry.2 := by
  unfold checkWitnessed at h
  rw [hw] at h
  dsimp only at h
  split at h
  · cases h
  rename_i hold
  split at h
  · cases h
  rename_i hfork
  by_cases heq : entry.2.sequence = w.sequence
  · have hhash : entry.2.headHash = w.headHash := by
      by_contra hne
      exact hfork ⟨heq, hne⟩
    right
    cases hentry : entry.2
    simp_all
  · left
    omega

/-- The heads of an accepted advance are not older than what is witnessed. -/
theorem judgeAdvance_heads {env : Env} {s : HostState} {b : AdvanceBody} {taskHead : String → Option Head}
    {known : String → Option KnownEntry} {confirm discard : Option Pending}
    (h : judgeAdvance env s b taskHead known = .ok (confirm, discard)) {task : String} {w head : Head}
    (hw : witnessedHead confirm taskHead task = some w) (hhead : Assoc.get? b.heads task = some head) : w.Le head := by
  obtain ⟨⟨c, d⟩, -, h⟩ := bind_ok_iff.1 h
  obtain ⟨_, hforM, h⟩ := bind_ok_iff.1 h
  obtain ⟨_, -, h⟩ := bind_ok_iff.1 h
  cases h
  exact checkWitnessed_le ((forM_ok_iff _ _).1 hforM (task, head) (Assoc.mem_of_get? hhead)) hw

/-! ## One request -/

structure Grown (hostId : String) (db db' : Db) (s s' : HostState) : Prop where
  heads : ∀ task h, db.heads hostId task = some h → ∃ h', db'.heads hostId task = some h' ∧ h.Le h'
  registry : registryLe s.registry s'.registry
  timeFloor : s.timeFloor ≤ s'.timeFloor

theorem Grown.refl (hostId : String) (db : Db) (s : HostState) : Grown hostId db db s s :=
  ⟨fun _ h hh => ⟨h, hh, .refl h⟩, .refl _, le_refl _⟩

theorem Grown.trans {hostId : String} {db db' db'' : Db} {s s' s'' : HostState} (h : Grown hostId db db' s s')
    (h' : Grown hostId db' db'' s' s'') : Grown hostId db db'' s s'' where
  heads task head hhead := by
    obtain ⟨head', hhead', hle⟩ := h.heads task head hhead
    obtain ⟨head'', hhead'', hle'⟩ := h'.heads task head' hhead'
    exact ⟨head'', hhead'', hle.trans hle'⟩
  registry := h.registry.trans h'.registry
  timeFloor := h.timeFloor.trans h'.timeFloor

def Ahead (hostId : String) (db : Db) (s : HostState) : Prop :=
  ∀ p, s.pending = some p → ∀ task h h', db.heads hostId task = some h → Assoc.get? p.heads task = some h' → h.Le h'

section Step

variable {svc : Service} {db : Db} {request : Request} {s : HostState} {hostId : String}

theorem Advanced.heads_after {a : Advance} (task : String) :
    (db.afterAdvance svc.world s a).heads a.body.hostId task =
      witnessedHead a.confirm (db.heads a.body.hostId) task := by
  simp only [Db.afterAdvance, Function.update_self, witnessedHead]
  cases a.confirm <;> rfl

/-- An accepted advance confirms what is pending or nothing. -/
theorem Advanced.grown {a : Advance} (h : Advanced svc db request s a) (hahead : Ahead a.body.hostId db s) :
    Grown a.body.hostId db (db.afterAdvance svc.world s a) s (a.after svc.world s).norm where
  heads task head hhead := by
    rw [Advanced.heads_after]
    unfold witnessedHead
    cases hc : a.confirm with
    | none => exact ⟨head, hhead, .refl head⟩
    | some p =>
      cases hp : Assoc.get? p.heads task with
      | none => exact ⟨head, by simp [hp, hhead], .refl head⟩
      | some head' =>
        refine ⟨head', by simp [hp], ?_⟩
        exact hahead p (confirm_pending h.judged hc) task head head' hhead hp
  registry := by
    show registryLe s.registry (s.confirm a.confirm).registry
    cases a.confirm with
    | none => exact .refl _
    | some => exact registryLe_higherRegistry _ _
  timeFloor := by
    show s.timeFloor ≤ (s.confirm a.confirm).timeFloor
    cases a.confirm with
    | none => exact le_refl _
    | some => exact le_max_left _ _

theorem Advanced.ahead {a : Advance} (h : Advanced svc db request s a) :
    Ahead a.body.hostId (db.afterAdvance svc.world s a) (a.after svc.world s).norm := by
  intro p hp task head head' hhead hhead'
  cases hp
  rw [Advanced.heads_after] at hhead
  have hget : Assoc.get? (inOrder a.body.heads) task = some head' := hhead'
  rw [get?_inOrder h.checked.heads.nodup] at hget
  exact judgeAdvance_heads h.judged hhead hget

/-- A request raises the epoch of a host, or what is confirmed for it only goes up. -/
theorem handle_grown (hdb : ∀ hostId, ∃ s, db.Holds hostId s) (hs : db.Holds hostId s) (hahead : Ahead hostId db s) :
    ∃ s', (svc.handle db request).1.Holds hostId s' ∧ Ahead hostId (svc.handle db request).1 s' ∧
      (s.epoch < s'.epoch ∨ s'.epoch = s.epoch ∧ Grown hostId db (svc.handle db request).1 s s') := by
  rcases handle_host svc hdb hs request with hsame | ⟨a, rfl, ha⟩ | ⟨r, rfl, hr⟩
  · refine ⟨s, hsame.holds hs, ?_, .inr ⟨rfl, ?_, .refl _, le_refl _⟩⟩
    · unfold Ahead
      rw [hsame.heads]
      exact hahead
    · rw [hsame.heads]
      exact fun _ h h' => ⟨h, h', .refl h⟩
  · rw [ha.handled]
    exact ⟨_, ha.holds_after, ha.ahead, .inr ⟨s.confirm_epoch _, ha.grown hahead⟩⟩
  · rw [hr.handled]
    exact ⟨_, hr.holds_after, fun p hp => (by cases hp), .inl (show s.epoch < s.epoch + 1 by omega)⟩

end Step

/-! ## Every run -/

section Run

variable (svc : Service) (requests : List Request) (hostId : String)

theorem Service.after_succ {requests : List Request} {i : Nat} {request : Request} (h : requests[i]? = some request) :
    svc.after requests (i + 1) = (svc.handle (svc.after requests i) request).1 := by
  unfold Service.after Service.run
  rw [take_add_one, h, Option.toList_some, foldl_append]
  rfl

theorem Service.after_none {requests : List Request} {i : Nat} (h : requests[i]? = none) :
    svc.after requests (i + 1) = svc.after requests i := by
  unfold Service.after
  rw [take_add_one, h, Option.toList_none, append_nil]

theorem Service.after_holds (i : Nat) : ∀ hostId, ∃ s, (svc.after requests i).Holds hostId s := by
  induction i with
  | zero => exact fun hostId => ⟨_, empty_holds hostId⟩
  | succ i ih =>
    cases hi : requests[i]? with
    | none => rw [svc.after_none hi]; exact ih
    | some => rw [svc.after_succ hi]; exact handle_holds ih

theorem Service.after_ahead (i : Nat) : ∃ s, (svc.after requests i).Holds hostId s ∧
    Ahead hostId (svc.after requests i) s := by
  induction i with
  | zero => exact ⟨_, empty_holds hostId, fun p hp => by cases hp⟩
  | succ i ih =>
    cases hi : requests[i]? with
    | none => rw [svc.after_none hi]; exact ih
    | some =>
      rw [svc.after_succ hi]
      obtain ⟨s, hs, hahead⟩ := ih
      obtain ⟨s', hs', hahead', -⟩ := handle_grown (svc.after_holds requests i) hs hahead
      exact ⟨s', hs', hahead'⟩

/-- From one state of a run to a later one, by induction on the requests between them. -/
theorem Service.after_grown {i : Nat} {s : HostState} (hs : (svc.after requests i).Holds hostId s) (n : Nat) :
    ∃ s', (svc.after requests (i + n)).Holds hostId s' ∧
      (s.epoch < s'.epoch ∨ s'.epoch = s.epoch ∧ Grown hostId (svc.after requests i)
        (svc.after requests (i + n)) s s') := by
  induction n with
  | zero => exact ⟨s, hs, .inr ⟨rfl, .refl _ _ _⟩⟩
  | succ n ih =>
    rcases hn : requests[i + n]? with _ | request
    · rw [← Nat.add_assoc, svc.after_none hn]; exact ih
    rw [← Nat.add_assoc, svc.after_succ hn]
    obtain ⟨s₁, hs₁, hgrown⟩ := ih
    obtain ⟨t, ht, hahead⟩ := svc.after_ahead requests hostId (i + n)
    obtain rfl : s₁ = t := Except.ok.inj (hs₁.state.symm.trans ht.state)
    obtain ⟨s₂, hs₂, -, hstep⟩ := @handle_grown svc _ request _ _ (svc.after_holds requests (i + n)) hs₁ hahead
    refine ⟨s₂, hs₂, ?_⟩
    rcases hgrown with hlt | ⟨heq, hgrown⟩
    · rcases hstep with hlt' | ⟨heq', -⟩
      · exact .inl (by omega)
      · exact .inl (by omega)
    · rcases hstep with hlt' | ⟨heq', hgrown'⟩
      · exact .inl (by omega)
      · exact .inr ⟨heq'.trans heq, hgrown.trans hgrown'⟩

end Run

/-- While no rebaseline raises the epoch of a host, the confirmed head of each of its tasks, its
confirmed registry and its confirmed time floor only go up; what has the same sequence or the same
version is the same. -/
theorem confirmed_monotone (svc : Service) (requests : List Request) (hostId : String) (i j : Nat) (hij : i ≤ j)
    (s s' : HostState) (hs : (svc.after requests i).hostState hostId = .ok s)
    (hs' : (svc.after requests j).hostState hostId = .ok s') (hepoch : s.epoch = s'.epoch) :
    (∀ task h, (svc.after requests i).heads hostId task = some h →
      ∃ h', (svc.after requests j).heads hostId task = some h' ∧ h.sequence ≤ h'.sequence ∧
        (h.sequence = h'.sequence → h.headHash = h'.headHash)) ∧
    (∀ r, s.registry = some r → ∃ r', s'.registry = some r' ∧ r.version ≤ r'.version ∧
      (r.version = r'.version → r.digest = r'.digest)) ∧
    s.timeFloor ≤ s'.timeFloor := by
  obtain ⟨n, rfl⟩ := Nat.exists_eq_add_of_le hij
  obtain ⟨t, ht⟩ := svc.after_holds requests i hostId
  obtain rfl : s = t := Except.ok.inj (hs.symm.trans ht.state)
  obtain ⟨t', ht', hgrown⟩ := svc.after_grown requests hostId ht n
  obtain rfl : s' = t' := Except.ok.inj (hs'.symm.trans ht'.state)
  obtain ⟨-, hgrown⟩ := hgrown.resolve_left (by omega)
  refine ⟨?_, ?_, hgrown.timeFloor⟩
  · intro task h hh
    obtain ⟨h', hh', hle⟩ := hgrown.heads task h hh
    refine ⟨h', hh', ?_⟩
    rcases hle with hlt | rfl
    · exact ⟨by omega, fun heq => by omega⟩
    · exact ⟨le_refl _, fun _ => rfl⟩
  · intro r hr
    have hle := hgrown.registry
    rw [hr] at hle
    cases hr' : s'.registry with
    | none => rw [hr'] at hle; exact hle.elim
    | some r' =>
      rw [hr'] at hle
      refine ⟨r', rfl, ?_⟩
      rcases hle with hlt | rfl
      · exact ⟨by omega, fun heq => by omega⟩
      · exact ⟨le_refl _, fun _ => rfl⟩

def smallHead (receipt : Option (Int × String)) (sequence : Int) : Request :=
  smallRequest "/v1/advance" (smallClient "a")
    ((smallClient "a").advanceBody (nextAdvance "a" receipt [("task", ⟨sequence, "head"⟩)] none sequence))

def smallHeads : List Request :=
  [smallHead none 1,
    smallHead (some (1, "4d8e19dbcaa2de6f31e54674c21f88f0619676fca63a31f444b4a29d39ce3a60")) 2,
    smallHead (some (2, "7115419bb2334658d10281598d309808595b1828635d7b51570f105c1ca05fb9")) 3]

theorem confirmed_monotone_small : ∃ h', (smallService.after smallHeads 3).heads "a" "task" = some h' ∧
    1 ≤ h'.sequence ∧ (1 = h'.sequence → "head" = h'.headHash) := by
  have hrun : (smallService.after smallHeads 2).heads "a" "task" = some ⟨1, "head"⟩ ∧
      ((smallService.after smallHeads 2).hostState "a").toOption.map HostState.epoch =
        ((smallService.after smallHeads 3).hostState "a").toOption.map HostState.epoch := by
    decide +kernel
  obtain ⟨hhead, hepoch⟩ := hrun
  obtain ⟨s, hs⟩ := smallService.after_holds smallHeads 2 "a"
  obtain ⟨s', hs'⟩ := smallService.after_holds smallHeads 3 "a"
  rw [hs.state, hs'.state] at hepoch
  exact (confirmed_monotone smallService smallHeads "a" 2 3 (by decide) s s' hs.state hs'.state
    (Option.some.inj hepoch)).1 "task" ⟨1, "head"⟩ hhead

end Portmark.Witness
