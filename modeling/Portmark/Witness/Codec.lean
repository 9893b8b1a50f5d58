/-
The JSON round trips of the witness: the state read back from `witness_hosts` is the state that
was saved, with the task heads and the answer of its pending advance in key order; a logged
answer is the answer in key order; and a logged request body decodes to the body that was checked.
-/
import Portmark.Witness.Server

namespace Portmark.Witness

open Lib Lib.Json Security List Assoc

/-! ## Plain values without floats -/

def NoFloat (_ : PyFloat) : Prop := False

variable {v : Value}

theorem loads_dumps (floatText : ℚ → Text) (h : Plain NoFloat false v) :
    loads (dumps floatText v) = .ok (sortKeys v) :=
  loadsWith_dumps plainHooks floatText (plain_mono (fun _ hx => absurd hx id) (fun _ => rfl) v h)

theorem sortKeys_eq_of_text (floatText : ℚ → Text) {u : Value} (hv : Plain NoFloat false v)
    (hu : Plain NoFloat false u) (h : dumps floatText v = dumps floatText u) : sortKeys v = sortKeys u :=
  sortKeys_eq_of_dumps plainHooks floatText (plain_mono (fun _ hx => absurd hx id) (fun _ => rfl) v hv)
    (plain_mono (fun _ hx => absurd hx id) (fun _ => rfl) u hu) h

def normalDict (d : Dict) : Dict := inOrder (sortEntries d)

theorem sortKeys_dict_normal (d : Dict) : sortKeys (.dict d) = .dict (normalDict d) := sortKeys_dict d

theorem normalDict_idem (d : Dict) : normalDict (normalDict d) = normalDict d := by
  have h := sortKeys_idem (.dict d)
  exact Value.dict.inj h

theorem digest_normalDict (w : World) (body : Dict) : digest w (.dict (normalDict body)) = digest w (.dict body) := by
  unfold digest
  rw [← sortKeys_dict_normal, dumps_sortKeys]

variable {d : Dict}

theorem get?_normalDict (hn : (keys d).Nodup) (k : String) :
    get? (normalDict d) k = (get? d k).map sortKeys := get?_sortKeys hn k

variable {α : Type}

theorem keys_inOrder_nodup {d : Assoc α} (h : (keys d).Nodup) : (keys (inOrder d)).Nodup :=
  ((inOrder_perm d).map Prod.fst).nodup_iff.2 h

theorem get?_inOrder {d : Assoc α} (h : (keys d).Nodup) (k : String) : get? (inOrder d) k = get? d k :=
  get?_perm (inOrder_perm d) (keys_inOrder_nodup h) k

theorem mapM_eq_map {β : Type} {f : α → Option β} {g : α → β} : ∀ l : List α, (∀ e ∈ l, f e = some (g e)) →
    l.mapM f = some (l.map g)
  | [], _ => rfl
  | e :: l, h => by
    rw [mapM_cons, h e (mem_cons_self ..), mapM_eq_map l fun x hx => h x (mem_cons_of_mem _ hx)]
    rfl

/-! ## Heads and registries -/

theorem Head.ofValue?_sortKeys (h : Head) : Head.ofValue? (sortKeys h.toValue) = some h := by
  unfold Head.toValue
  rw [sortKeys_dict_normal]
  simp only [Head.ofValue?]
  rw [get?_normalDict (by simp [Assoc.keys]), get?_normalDict (by simp [Assoc.keys])]
  rfl

theorem registryOf?_sortKeys (r : Option Registry) : registryOf? (sortKeys (registryValue r)) = some r := by
  cases r with
  | none => rfl
  | some =>
    simp only [registryValue, Registry.toValue]
    rw [sortKeys_dict_normal]
    simp only [registryOf?]
    rw [get?_normalDict (by simp [Assoc.keys]), get?_normalDict (by simp [Assoc.keys])]
    rfl

theorem headsOf?_sortKeys (heads : Assoc Head) : headsOf? (sortKeys (headsValue heads)) = some (inOrder heads) := by
  have hsort : sortEntries (heads.map fun e => (e.1, e.2.toValue)) = heads.map fun e =>
    (e.1, sortKeys e.2.toValue) := by
    rw [sortEntries_eq, map_map]
    rfl
  have horder : inOrder (heads.map fun e => (e.1, sortKeys e.2.toValue)) =
      (inOrder heads).map fun e => (e.1, sortKeys e.2.toValue) :=
    (map_inOrder (fun h : Head => sortKeys h.toValue) heads).symm
  unfold headsValue
  rw [sortKeys_dict_normal, normalDict, hsort, horder]
  simp only [headsOf?]
  rw [mapM_eq_map (g := fun e => (e.1, (Head.ofValue? e.2).getD ⟨0, ""⟩))]
  · rw [map_map]
    simp [Function.comp_def, Head.ofValue?_sortKeys]
  · intro e he
    obtain ⟨e', -, rfl⟩ := mem_map.1 he
    simp [Head.ofValue?_sortKeys]

theorem optStr?_sortKeys (s : Option String) : optStr? (sortKeys (optStr s)) = some s := by
  cases s <;> rfl

/-! ## States -/

def RegistryOk (r : Option Registry) : Prop := ∀ x, r = some x → Readable x.version

structure HeadsOk (heads : Assoc Head) : Prop where
  nodup : (Assoc.keys heads).Nodup
  readable : ∀ e ∈ heads, Readable e.2.sequence

structure Pending.Ok (p : Pending) : Prop where
  hostSeq : Readable p.hostSeq
  heads : HeadsOk p.heads
  registry : RegistryOk p.registry
  timeFloor : Readable p.timeFloor
  answer : Plain NoFloat false (.dict p.answer)

structure HostState.Ok (s : HostState) : Prop where
  epoch : Readable s.epoch
  confirmedSeq : Readable s.confirmedSeq
  pending : ∀ p, s.pending = some p → p.Ok
  registry : RegistryOk s.registry
  timeFloor : Readable s.timeFloor

def Pending.norm (p : Pending) : Pending := { p with heads := inOrder p.heads, answer := normalDict p.answer }

def HostState.norm (s : HostState) : HostState := { s with pending := s.pending.map Pending.norm }

variable {heads : Assoc Head}

theorem headsValue_plain (h : HeadsOk heads) : Plain NoFloat false (headsValue heads) := by
  unfold headsValue
  refine ⟨?_, (plainEntries_iff false _).2 ?_⟩
  · have hk : keys (heads.map fun e => (e.1, e.2.toValue)) = keys heads := by
      simp [Assoc.keys, Function.comp_def]
    rw [hk]
    exact h.nodup
  · intro e he
    obtain ⟨e', he', rfl⟩ := mem_map.1 he
    simp only [Head.toValue, Plain, PlainEntries, and_true]
    exact ⟨by simp [Assoc.keys], h.readable e' he'⟩

variable {r : Option Registry}

theorem registryValue_plain (h : RegistryOk r) : Plain NoFloat false (registryValue r) := by
  cases r with
  | none => simp [registryValue, Plain]
  | some r =>
    simp only [registryValue, Registry.toValue, Plain, PlainEntries, and_true]
    exact ⟨by simp [Assoc.keys], h r rfl⟩

theorem optStr_plain (s : Option String) : Plain NoFloat false (optStr s) := by
  cases s <;> simp [optStr, Plain]

theorem Pending.Ok.toValue_plain {p : Pending} (h : p.Ok) : Plain NoFloat false p.toValue := by
  simp only [Pending.toValue, Plain, PlainEntries, and_true, true_and]
  exact ⟨by simp [Assoc.keys], h.hostSeq, headsValue_plain h.heads, registryValue_plain h.registry, h.timeFloor,
    by simpa only [Plain] using h.answer⟩

variable {s : HostState}

theorem HostState.Ok.toValue_plain (h : s.Ok) : Plain NoFloat false s.toValue := by
  simp only [HostState.toValue, Plain, PlainEntries, and_true, true_and]
  refine ⟨by simp [Assoc.keys], h.epoch, h.confirmedSeq, optStr_plain _, ?_, registryValue_plain h.registry,
    h.timeFloor⟩
  cases hp : s.pending with
  | none => simp [pendingValue, Plain]
  | some p => exact (h.pending p hp).toValue_plain

theorem pendingOf?_sortKeys (p : Option Pending) :
    pendingOf? (sortKeys (pendingValue p)) = some (p.map Pending.norm) := by
  rcases p with _ | p
  · rfl
  simp only [pendingValue, Pending.toValue]
  simp only [pendingOf?]
  have hn : (keys [("host_seq", Value.int p.hostSeq), ("receipt_hash", .str p.receiptHash),
      ("request_sha256", .str p.requestSha256), ("heads", headsValue p.heads),
      ("registry", registryValue p.registry), ("time_floor", .int p.timeFloor),
      ("answer", .dict p.answer)]).Nodup := by simp [Assoc.keys]
  simp only [get?_normalDict hn, get?_cons, String.reduceEq, if_true, if_false, Option.map_some,
    Option.bind_some, headsOf?_sortKeys, registryOf?_sortKeys, sortKeys_dict_normal]
  simp [sortKeys, intOf?, Value.str?, Value.dict?, Pending.norm]

theorem stateOf?_sortKeys (s : HostState) : stateOf? (sortKeys s.toValue) = some s.norm := by
  unfold HostState.toValue
  rw [sortKeys_dict_normal]
  simp only [stateOf?]
  have hn : (keys [("host_id", Value.str s.hostId), ("epoch", .int s.epoch), ("confirmed_seq", .int s.confirmedSeq),
      ("confirmed_hash", optStr s.confirmedHash), ("pending", pendingValue s.pending),
      ("registry", registryValue s.registry), ("time_floor", .int s.timeFloor)]).Nodup := by simp [Assoc.keys]
  simp only [get?_normalDict hn, get?_cons, String.reduceEq, if_true, if_false, Option.map_some,
    Option.bind_some, pendingOf?_sortKeys, registryOf?_sortKeys, optStr?_sortKeys]
  simp [sortKeys, intOf?, Value.str?, HostState.norm]

theorem stateFromJson_stateToJson (w : World) (h : s.Ok) : stateFromJson (stateToJson w s) = .ok s.norm := by
  unfold stateFromJson stateToJson
  rw [loads_dumps w.floatText h.toValue_plain]
  simp only [stateOf?_sortKeys]

theorem Pending.Ok.norm {p : Pending} (h : p.Ok) : p.norm.Ok where
  hostSeq := h.hostSeq
  heads := ⟨keys_inOrder_nodup h.heads.nodup,
    fun e he => h.heads.readable e ((inOrder_perm p.heads).mem_iff.1 he)⟩
  registry := h.registry
  timeFloor := h.timeFloor
  answer := by
    have hp := sortKeys_plain _ (plain_mono (fun _ hx => hx) (fun _ => rfl) _ h.answer)
    exact hp

theorem HostState.Ok.norm (h : s.Ok) : s.norm.Ok where
  epoch := h.epoch
  confirmedSeq := h.confirmedSeq
  pending p hp := by
    obtain ⟨q, hq, rfl⟩ := Option.map_eq_some_iff.1 hp
    exact (h.pending q hq).norm
  registry := h.registry
  timeFloor := h.timeFloor

/-! ## Checked bodies -/

variable {h : Head}

theorem head?_eq_some {task : String} (hh : head? task v = some h) :
    Head.ofValue? v = some h ∧ ∃ d, v = .dict d ∧ hasExactly d ["sequence", "head_hash"] = true ∧
      get? d "sequence" = some (.int h.sequence) ∧ get? d "head_hash" = some (.str h.headHash) := by
  unfold head? at hh
  split at hh
  · rename_i d
    split at hh
    · rename_i n s hseq hhash
      split at hh
      · rename_i hc
        cases hh
        simp only [Bool.and_eq_true] at hc
        exact ⟨by simp [Head.ofValue?, hseq, hhash], d, rfl, hc.1.1.2, hseq, hhash⟩
      · cases hh
    · cases hh
  · cases hh

variable {fields : List String}

theorem hasExactly_mem (h : hasExactly d fields = true) {k : String} (hk : k ∈ keys d) : k ∈ fields := by
  simp only [hasExactly, Bool.and_eq_true, all_eq_true, contains_iff_mem] at h
  exact h.1 k hk

theorem plain_of_fields (hn : (keys d).Nodup) (hx : hasExactly d fields = true)
    (h : ∀ k ∈ fields, ∃ v, get? d k = some v ∧ Plain NoFloat false v) : Plain NoFloat false (.dict d) := by
  simp only [Plain]
  refine ⟨hn, (plainEntries_iff false d).2 fun e he => ?_⟩
  obtain ⟨v, hv, hp⟩ := h e.1 (hasExactly_mem hx (mem_map_of_mem he))
  cases (get?_of_mem hn he).symm.trans hv
  exact hp

theorem plain_str (s : String) : Plain NoFloat false (.str s) := by simp [Plain]

abbrev Parsed (v : Value) : Prop := Plain (fun _ => True) false v

theorem head?_plain {task : String} (hp : Parsed v) (hh : head? task v = some h) :
    Plain NoFloat false v ∧ Readable h.sequence := by
  obtain ⟨-, d, rfl, hx, hseq, hhash⟩ := head?_eq_some hh
  have hr : Readable h.sequence := by simpa only [Plain] using hp.get hseq
  refine ⟨plain_of_fields hp.nodup hx fun k hk => ?_, hr⟩
  simp only [mem_cons, not_mem_nil, or_false] at hk
  rcases hk with rfl | rfl
  · exact ⟨_, hseq, by simpa only [Plain] using hr⟩
  · exact ⟨_, hhash, plain_str _⟩

variable {env : Env}

theorem checkHead_ok {e : String × Value} {e' : String × Head} (h : checkHead env e = .ok e') :
    e'.1 = e.1 ∧ head? e.1 e.2 = some e'.2 := by
  unfold checkHead at h
  split at h
  · rename_i head hh; cases h; exact ⟨rfl, hh⟩
  · cases h

theorem checkedHeads (h : List.Forall₂ (fun e e' => checkHead env e = .ok e') d heads) :
    keys heads = keys d ∧ headsOf? (.dict d) = some heads ∧
      (PlainEntries (fun _ => True) false d →
        PlainEntries NoFloat false d ∧ ∀ e ∈ heads, Readable e.2.sequence) := by
  induction h with
  | nil => exact ⟨rfl, rfl, fun _ => ⟨by simp [PlainEntries], by simp⟩⟩
  | @cons e e' d heads hx _ ih =>
    obtain ⟨hkeys, hdec, hplain⟩ := ih
    obtain ⟨hk, hh⟩ := checkHead_ok hx
    simp only [headsOf?] at hdec
    refine ⟨by simp [Assoc.keys, hk, show heads.map Prod.fst = d.map Prod.fst from hkeys], ?_, fun hp => ?_⟩
    · simp only [headsOf?]
      rw [mapM_cons, (head?_eq_some hh).1, hdec, ← hk]
      rfl
    · simp only [PlainEntries] at hp ⊢
      obtain ⟨hv, hr⟩ := head?_plain hp.1 hh
      obtain ⟨hd, hrs⟩ := hplain hp.2
      exact ⟨⟨hv, hd⟩, forall_mem_cons.2 ⟨hr, hrs⟩⟩

theorem checkHeads_ok {v : Option Value} (h : checkHeads env v = .ok heads) :
    ∃ d, v = some (.dict d) ∧ headsOf? (.dict d) = some heads ∧
      (Parsed (.dict d) → Plain NoFloat false (.dict d) ∧ HeadsOk heads) := by
  unfold checkHeads at h
  split at h
  · rename_i d
    split at h
    · obtain ⟨hkeys, hdec, hplain⟩ := checkedHeads (mapM_ok_forall₂ h)
      refine ⟨d, rfl, hdec, fun hp => ?_⟩
      obtain ⟨hd, hr⟩ := hplain hp.2
      exact ⟨⟨hp.1, hd⟩, hkeys ▸ hp.1, hr⟩
    · cases h
  · cases h

theorem checkRegistry_ok {v : Option Value} (h : checkRegistry v = .ok r) :
    ∃ u, v = some u ∧ registryOf? u = some r ∧ (Parsed u → Plain NoFloat false u ∧ RegistryOk r) := by
  unfold checkRegistry at h
  split at h
  · cases h
    exact ⟨.null, rfl, rfl, fun _ => ⟨by simp [Plain], fun x hx => by cases hx⟩⟩
  · rename_i d
    split at h
    · rename_i n s hversion hdigest
      split at h
      · rename_i hc
        cases h
        simp only [Bool.and_eq_true] at hc
        refine ⟨.dict d, rfl, by simp [registryOf?, hversion, hdigest], fun hp => ?_⟩
        have hr : Readable n := by simpa only [Plain] using hp.get hversion
        refine ⟨plain_of_fields hp.nodup hc.1 fun k hk => ?_, fun x hx => by cases hx; exact hr⟩
        simp only [mem_cons, not_mem_nil, or_false] at hk
        rcases hk with rfl | rfl
        · exact ⟨_, hversion, by simpa only [Plain] using hr⟩
        · exact ⟨_, hdigest, plain_str _⟩
      · cases h
    · cases h
  · cases h

variable {n : Int}

theorem intFrom?_eq_some {m : Int} {v : Option Value} (h : intFrom? m v = some n) : v = some (.int n) ∧ m ≤ n := by
  unfold intFrom? at h
  split at h
  · split at h
    · rename_i hm; cases h; exact ⟨rfl, hm⟩
    · cases h
  · cases h

theorem hashOrNull?_eq_some {v : Option Value} {s : Option String} (h : hashOrNull? v = some s) :
    v = some (optStr s) := by
  unfold hashOrNull? at h
  split at h
  · cases h; rfl
  · split at h
    · cases h; rfl
    · cases h
  · cases h

theorem checkTimeFloor_ok (h : checkTimeFloor d = .ok n) : get? d "time_floor" = some (.int n) ∧ 0 ≤ n := by
  unfold checkTimeFloor at h
  split at h
  · rename_i m hm; cases h; exact intFrom?_eq_some hm
  · cases h

theorem checkNonce_ok {s : String} (h : checkNonce d = .ok s) : get? d "nonce" = some (.str s) := by
  unfold checkNonce at h
  split at h
  · rename_i t ht
    split at h
    · cases h; exact ht
    · cases h
  · cases h

theorem checkReason_ok {s : String} (h : checkReason d = .ok s) : get? d "reason" = some (.str s) := by
  unfold checkReason at h
  split at h
  · rename_i t ht
    split at h
    · cases h
    · cases h; exact ht
  · cases h

structure CheckedAdvance (raw : Dict) (b : AdvanceBody) : Prop where
  decodes : advanceOf? raw = some b
  plain : Plain NoFloat false (.dict raw)
  hostSeq : Readable b.hostSeq
  heads : HeadsOk b.heads
  registry : RegistryOk b.registry
  timeFloor : Readable b.timeFloor

structure CheckedRebaseline (raw : Dict) (b : RebaselineBody) : Prop where
  decodes : rebaselineOf? raw = some b
  plain : Plain NoFloat false (.dict raw)
  heads : HeadsOk b.heads
  registry : RegistryOk b.registry
  timeFloor : Readable b.timeFloor

theorem optStr?_optStr (s : Option String) : optStr? (optStr s) = some s := by
  cases s <;> rfl

theorem Parsed.readable {k : String} (hp : Parsed (.dict d)) (h : get? d k = some (.int n)) : Readable n := by
  simpa only [Plain] using hp.get h

def Checked (raw : Dict) : Body → Prop
  | .advance b => CheckedAdvance raw b
  | .state _ => True
  | .rebaseline b => CheckedRebaseline raw b

variable {raw : Dict}

section Fields

variable {format hostId key : String} (hp : Parsed (.dict raw)) (hformat : get? raw "format" = some (.str format))
  (hkey : get? raw "witness_key_id" = some (.str key)) (hhost : get? raw "host_id" = some (.str hostId))

include hp hformat hkey hhost

theorem checkAdvance_ok {b : AdvanceBody}
    (hx : hasExactly raw ["format", "witness_key_id", "host_id", "host_seq", "prev",
    "heads", "registry", "time_floor"] = true) (h : checkAdvance env hostId raw = .ok b) : CheckedAdvance raw b := by
  unfold checkAdvance at h
  split at h
  · rename_i hostSeq prev hseq hprev
    obtain ⟨heads, hheads, h⟩ := bind_ok_iff.1 h
    obtain ⟨registry, hregistry, h⟩ := bind_ok_iff.1 h
    obtain ⟨timeFloor, hfloor, h⟩ := bind_ok_iff.1 h
    cases h
    obtain ⟨hseq, -⟩ := intFrom?_eq_some hseq
    have hprev := hashOrNull?_eq_some hprev
    obtain ⟨d, hd, hdec, hhp⟩ := checkHeads_ok hheads
    obtain ⟨u, hu, hrdec, hrp⟩ := checkRegistry_ok hregistry
    obtain ⟨hfloor, -⟩ := checkTimeFloor_ok hfloor
    obtain ⟨hdp, hok⟩ := hhp (hp.get hd)
    obtain ⟨hup, hrok⟩ := hrp (hp.get hu)
    refine ⟨?_, plain_of_fields hp.nodup hx ?_, hp.readable hseq, hok, hrok, hp.readable hfloor⟩
    · simp [advanceOf?, hhost, hseq, hprev, hd, hu, hfloor, Value.str?, intOf?, optStr?_optStr, hdec, hrdec]
    · intro k hk
      simp only [mem_cons, not_mem_nil, or_false] at hk
      rcases hk with rfl | rfl | rfl | rfl | rfl | rfl | rfl | rfl
      · exact ⟨_, hformat, plain_str _⟩
      · exact ⟨_, hkey, plain_str _⟩
      · exact ⟨_, hhost, plain_str _⟩
      · exact ⟨_, hseq, by simpa only [Plain] using hp.readable hseq⟩
      · exact ⟨_, hprev, optStr_plain _⟩
      · exact ⟨_, hd, hdp⟩
      · exact ⟨_, hu, hup⟩
      · exact ⟨_, hfloor, by simpa only [Plain] using hp.readable hfloor⟩
  · cases h

theorem checkRebaseline_ok {b : RebaselineBody} (hx : hasExactly raw ["format", "witness_key_id", "host_id",
    "expected_last", "nonce", "reason", "heads", "registry", "time_floor"] = true)
    (h : checkRebaseline env hostId raw = .ok b) : CheckedRebaseline raw b := by
  unfold checkRebaseline at h
  split at h
  · rename_i expectedLast hlast
    obtain ⟨nonce, hnonce, h⟩ := bind_ok_iff.1 h
    obtain ⟨reason, hreason, h⟩ := bind_ok_iff.1 h
    obtain ⟨heads, hheads, h⟩ := bind_ok_iff.1 h
    obtain ⟨registry, hregistry, h⟩ := bind_ok_iff.1 h
    obtain ⟨timeFloor, hfloor, h⟩ := bind_ok_iff.1 h
    cases h
    have hlast := hashOrNull?_eq_some hlast
    have hnonce := checkNonce_ok hnonce
    have hreason := checkReason_ok hreason
    obtain ⟨d, hd, hdec, hhp⟩ := checkHeads_ok hheads
    obtain ⟨u, hu, hrdec, hrp⟩ := checkRegistry_ok hregistry
    obtain ⟨hfloor, -⟩ := checkTimeFloor_ok hfloor
    obtain ⟨hdp, hok⟩ := hhp (hp.get hd)
    obtain ⟨hup, hrok⟩ := hrp (hp.get hu)
    refine ⟨?_, plain_of_fields hp.nodup hx ?_, hok, hrok, hp.readable hfloor⟩
    · simp [rebaselineOf?, hhost, hlast, hnonce, hreason, hd, hu, hfloor, Value.str?, intOf?, optStr?_optStr, hdec,
        hrdec]
    · intro k hk
      simp only [mem_cons, not_mem_nil, or_false] at hk
      rcases hk with rfl | rfl | rfl | rfl | rfl | rfl | rfl | rfl | rfl
      · exact ⟨_, hformat, plain_str _⟩
      · exact ⟨_, hkey, plain_str _⟩
      · exact ⟨_, hhost, plain_str _⟩
      · exact ⟨_, hlast, optStr_plain _⟩
      · exact ⟨_, hnonce, plain_str _⟩
      · exact ⟨_, hreason, plain_str _⟩
      · exact ⟨_, hd, hdp⟩
      · exact ⟨_, hu, hup⟩
      · exact ⟨_, hfloor, by simpa only [Plain] using hp.readable hfloor⟩
  · cases h

theorem checkFields_ok {body : Body} (hfields : bodyFields format = some fields) (hx : hasExactly raw fields = true)
    (h : checkFields env format hostId raw = .ok body) : Checked raw body := by
  unfold checkFields at h
  unfold bodyFields at hfields
  split at h
  · rename_i hf
    rw [if_pos hf] at hfields
    cases hfields
    obtain ⟨b, hb, rfl⟩ := map_ok_iff.1 h
    exact checkAdvance_ok hp hformat hkey hhost hx hb
  · rename_i hf
    rw [if_neg hf] at hfields
    split at h
    · obtain ⟨b, hb, rfl⟩ := map_ok_iff.1 h
      trivial
    rename_i hf'
    rw [if_neg hf'] at hfields
    split at hfields
    · cases hfields
      obtain ⟨b, hb, rfl⟩ := map_ok_iff.1 h
      exact checkRebaseline_ok hp hformat hkey hhost hx hb
    · cases hfields

end Fields

theorem checkBody_ok {witnessKeyId : String} {body : Body} (hp : Parsed (.dict raw))
    (h : checkBody env witnessKeyId raw = .ok body) : Checked raw body := by
  unfold checkBody at h
  split at h
  · rename_i format hformat
    split at h
    · cases h
    rename_i fields hfields
    split at h
    · cases h
    rename_i hx
    split at h
    · rename_i key hostId hkey
      split at h
      · cases h
      split at h
      · rename_i hostId hhost
        split at h
        · exact checkFields_ok hp hformat hkey hhost hfields (by simpa using hx) h
        · cases h
      · cases h
    · cases h
  · cases h

/-! ## Bodies in normal form -/

def AdvanceBody.norm (b : AdvanceBody) : AdvanceBody := { b with heads := inOrder b.heads }

theorem ofValue?_normal (hv : Plain NoFloat false v) (hh : Head.ofValue? v = some h) :
    Head.ofValue? (sortKeys v) = some h := by
  unfold Head.ofValue? at hh
  split at hh
  · rename_i d
    split at hh
    · rename_i n s hseq hhash
      cases hh
      rw [sortKeys_dict_normal]
      simp only [Head.ofValue?, get?_normalDict hv.nodup, hseq, hhash, Option.map_some, sortKeys]
    · cases hh
  · cases hh

theorem headsOf?_normal (hv : Plain NoFloat false v) (h : headsOf? v = some heads) :
    headsOf? (sortKeys v) = some (inOrder heads) := by
  unfold headsOf? at h
  split at h
  · rename_i d
    have hd : ∀ e ∈ d, Plain NoFloat false e.2 := by
      exact (plainEntries_iff false d).1 hv.2
    -- the loop decodes each entry, so it is a map
    have hsome : ∀ e ∈ d, ∃ x, Head.ofValue? e.2 = some x := by
      intro e he
      obtain ⟨y, hy⟩ := (mapM_some_mem h).2 e he
      obtain ⟨x, hx, -⟩ := Option.map_eq_some_iff.1 hy
      exact ⟨x, hx⟩
    have hmap : d.mapM (fun e => (Head.ofValue? e.2).map (e.1, ·)) =
        some (d.map fun e => (e.1, (Head.ofValue? e.2).getD ⟨0, ""⟩)) := by
      refine mapM_eq_map d fun e he => ?_
      obtain ⟨x, hx⟩ := hsome e he
      rw [hx]
      rfl
    obtain rfl := Option.some.inj (h.symm.trans hmap)
    rw [sortKeys_dict_normal, normalDict, sortEntries_eq, ← map_inOrder,
      ← map_inOrder fun v : Value => (Head.ofValue? v).getD ⟨0, ""⟩]
    simp only [headsOf?]
    rw [mapM_eq_map (g := fun e : String × Value => (e.1, (Head.ofValue? e.2).getD ⟨0, ""⟩))]
    · rw [map_map]
      refine congrArg some (map_congr_left fun e he => ?_)
      have hmem := (inOrder_perm d).mem_iff.1 he
      obtain ⟨x, hx⟩ := hsome e hmem
      simp [ofValue?_normal (hd e hmem) hx, hx]
    · intro e he
      obtain ⟨e', he', rfl⟩ := mem_map.1 he
      have hmem := (inOrder_perm d).mem_iff.1 he'
      obtain ⟨x, hx⟩ := hsome e' hmem
      simp [ofValue?_normal (hd e' hmem) hx]
  · cases h

theorem registryOf?_normal (hv : Plain NoFloat false v) (h : registryOf? v = some r) :
    registryOf? (sortKeys v) = some r := by
  unfold registryOf? at h
  split at h
  · cases h
    rfl
  · rename_i d
    split at h
    · rename_i n s hseq hhash
      cases h
      rw [sortKeys_dict_normal]
      simp only [registryOf?, get?_normalDict hv.nodup, hseq, hhash, Option.map_some, sortKeys]
    · cases h
  · cases h

theorem CheckedAdvance.decodes_normal {b : AdvanceBody} (h : CheckedAdvance raw b) :
    advanceOf? (normalDict raw) = some b.norm := by
  have hd := h.decodes
  simp only [advanceOf?, Option.bind_eq_bind, Option.bind_eq_some_iff, Option.pure_def, Option.some.injEq] at hd
  obtain ⟨hostId, ⟨v1, g1, e1⟩, hostSeq, ⟨v2, g2, e2⟩, prev, ⟨v3, g3, e3⟩, heads, ⟨v4, g4, e4⟩, registry, ⟨v5, g5, e5⟩,
    timeFloor, ⟨v6, g6, e6⟩, rfl⟩ := hd
  have hstr : Value.str? (sortKeys v1) = some hostId := by rw [Value.str?_eq_some.1 e1]; rfl
  have hint : ∀ {v : Value} {n : Int}, intOf? v = some n → intOf? (sortKeys v) = some n := by
    intro v n hn
    cases v <;> simp_all [intOf?, sortKeys]
  have hopt : optStr? (sortKeys v3) = some prev := by cases v3 <;> simp_all [optStr?, sortKeys]
  simp only [advanceOf?, get?_normalDict h.plain.nodup, g1, g2, g3, g4, g5, g6, Option.map_some, Option.bind_some, hstr,
    hint e2, hopt, headsOf?_normal (h.plain.get g4) e4, registryOf?_normal (h.plain.get g5) e5, hint e6,
    Option.bind_eq_bind, Option.pure_def, AdvanceBody.norm]

end Portmark.Witness
