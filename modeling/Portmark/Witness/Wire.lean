/-
Over the wire. What a client signs and sends is what the witness checks and logs; what a save stores
of the answer is the number and the hash of the receipt the witness issued. And the refusals made
before the chain rules run never claim a rollback or a fork.
-/
import Portmark.Witness.Client
import Portmark.Witness.Step

namespace Portmark.Witness

open Lib Lib.Json Security Assoc

/-! ## Requests -/

structure AdvanceBody.Ok (b : AdvanceBody) : Prop where
  hostSeq : Readable b.hostSeq
  heads : HeadsOk b.heads
  registry : RegistryOk b.registry
  timeFloor : Readable b.timeFloor

variable {body : Dict}

section Requests

variable {w : World} {c : Client} {b : AdvanceBody}

theorem Client.advanceBody_plain (h : b.Ok) : Plain NoFloat false (.dict (c.advanceBody b)) := by
  simp only [Client.advanceBody, Plain, PlainEntries, and_true, true_and]
  exact ⟨by simp [keys], h.hostSeq, optStr_plain _, headsValue_plain h.heads, registryValue_plain h.registry,
    h.timeFloor⟩

theorem Client.signRequest_plain (h : Plain NoFloat false (.dict body)) :
    Plain NoFloat false (.dict (c.signRequest w body)) := by
  simp only [Client.signRequest, Plain, PlainEntries, and_true] at h ⊢
  exact ⟨by simp [keys], h⟩

theorem Client.payload_ok {payload : Text} (h : c.payload w body = .ok payload) :
    payload = dumps w.floatText (.dict (c.signRequest w body)) := by
  unfold Client.payload at h
  simp only at h
  split at h
  · cases h
  · exact (Except.ok.inj h).symm

theorem loggedBody_payload {payload : Text} (h : c.payload w body = .ok payload)
    (hp : Plain NoFloat false (.dict body)) : loggedBody payload = .ok (normalDict body) := by
  have hn : (keys (c.signRequest w body)).Nodup := by simp [Client.signRequest, keys]
  have hload := loads_dumps w.floatText (c.signRequest_plain (w := w) hp)
  rw [sortKeys_dict_normal] at hload
  rw [Client.payload_ok h]
  simp only [loggedBody, hload, get?_normalDict hn]
  simp [Client.signRequest, get?_cons, sortKeys_dict_normal]

theorem advanceOf?_advanceBody (c : Client) (b : AdvanceBody) :
    advanceOf? (normalDict (c.advanceBody b)) = some b.norm := by
  have hn : (keys (c.advanceBody b)).Nodup := by simp [Client.advanceBody, keys]
  simp only [advanceOf?, get?_normalDict hn]
  simp [Client.advanceBody, get?_cons, sortKeys, headsOf?_sortKeys, registryOf?_sortKeys, optStr?_sortKeys,
    Value.str?, intOf?, AdvanceBody.norm]

end Requests

theorem checkBody_advance {env : Env} {keyId : String} {raw : Dict} {body : Body}
    (hformat : get? raw "format" = some (.str advanceFormat)) (h : checkBody env keyId raw = .ok body) :
    ∃ b, body = .advance b := by
  unfold checkBody at h
  rw [hformat] at h
  simp only at h
  split at h
  · cases h
  split at h
  · cases h
  split at h
  · split at h
    · cases h
    split at h
    · split at h
      · rw [checkFields, if_pos rfl] at h
        obtain ⟨b, -, hb⟩ := map_ok_iff.1 h
        exact ⟨b, hb.symm⟩
      · cases h
    · cases h
  · cases h

variable {b : AdvanceBody}

theorem admit_payload {svc : Service} {c : Client} {payload : Text} {request : Request} {signer : String}
    {raw : Dict} {body : Body} (hp : c.payload svc.world (c.advanceBody b) = .ok payload) (hb : b.Ok)
    (hraw : request.raw = some payload) (h : svc.admit request = .ok (signer, raw, body)) :
    raw = normalDict (c.advanceBody b) ∧ body = .advance b.norm := by
  obtain ⟨hlogged, hchecked, hbody⟩ := admit_ok h
  rw [hraw] at hlogged
  obtain rfl : normalDict (c.advanceBody b) = raw :=
    Except.ok.inj ((loggedBody_payload hp (c.advanceBody_plain hb)).symm.trans hlogged)
  have hn : (keys (c.advanceBody b)).Nodup := by simp [Client.advanceBody, keys]
  have hformat : get? (normalDict (c.advanceBody b)) "format" = some (.str advanceFormat) := by
    rw [get?_normalDict hn]
    simp [Client.advanceBody, get?_cons, sortKeys]
  obtain ⟨b', rfl⟩ := checkBody_advance hformat hbody
  have hdecodes : advanceOf? (normalDict (c.advanceBody b)) = some b' := CheckedAdvance.decodes hchecked
  rw [advanceOf?_advanceBody] at hdecodes
  exact ⟨rfl, by rw [Option.some.inj hdecodes]⟩

/-! ## Answers -/

section Answers

variable {w : World} {c : Client}

theorem openAnswer_ok {d : Dict} (h : c.openAnswer w (.dict d) = .ok body) : get? d "body" = some (.dict body) := by
  unfold Client.openAnswer at h
  simp only at h
  split at h
  · cases h
  split at h
  · rename_i hbody _
    split at h
    · cases h
    split at h
    · cases h
    split at h
    · split at h
      · cases h
        exact hbody
      · cases h
    · cases h
  · cases h

variable {status : Nat}

/-- A bound answer is the answer itself: a refusal, or for an advance one with its number. -/
theorem checkBound_ok {answer : Dict} (h : c.checkBound w (c.advanceBody b) status answer = .ok body) :
    body = answer ∧ (Value.pyEqual (field answer "kind") (.str "refusal") = true ∨
      Value.pyEqual (field answer "host_seq") (.int b.hostSeq) = true) := by
  have hseq : field (c.advanceBody b) "host_seq" = .int b.hostSeq := by
    simp [field, Client.advanceBody, get?_cons]
  have hformat : Value.pyEqual (field (c.advanceBody b) "format") (.str advanceFormat) = true := by
    simp [field, Client.advanceBody, get?_cons]
  unfold Client.checkBound at h
  simp only [hseq, hformat, Bool.true_and] at h
  split at h
  · cases h
  split at h
  · rename_i hkind
    split at h
    · cases h
    · cases h
      exact ⟨rfl, .inl hkind⟩
  split at h
  · cases h
  split at h
  · cases h
  split at h
  · cases h
  split at h
  · cases h
  rename_i hmatch
  split at h
  · cases h
  cases h
  refine ⟨rfl, .inr ?_⟩
  simp only [Bool.or_eq_true, Bool.not_eq_true', not_or, Bool.not_eq_false] at hmatch
  exact hmatch.1.2

theorem intOf_of_pyEqual {v : Value} {n m : Int} (h : Value.pyEqual v (.int n) = true) (hm : intOf v = some m) :
    m = n := by
  cases v with
  | int =>
    simp only [intOf, Option.some.injEq] at hm
    simpa [Value.pyEqual, Value.num?, PyFloat.eq, hm] using h
  | bool b =>
    simp only [intOf, Option.some.injEq] at hm
    subst hm
    cases b <;> simp [Value.pyEqual, Value.num?, PyFloat.eq] at h ⊢ <;> exact_mod_cast h
  | float x =>
    cases x with
    | finite q =>
      simp only [intOf, Option.some.injEq] at hm
      have hq : q = n := by simpa [Value.pyEqual, Value.num?, PyFloat.eq] using h
      subst hq
      rw [← hm]
      split
      · exact Rat.floor_intCast n
      · exact Rat.ceil_intCast n
    | _ => simp [intOf] at hm
  | _ => simp [intOf] at hm

theorem receive_ok {receipt : Dict} (hp : Plain NoFloat false (.dict receipt))
    (h : c.receive w (c.advanceBody b) status (dumps w.floatText (.dict (signAnswer w receipt))) = .ok body) :
    body = normalDict receipt ∧ (Value.pyEqual (field body "kind") (.str "refusal") = true ∨
      Value.pyEqual (field body "host_seq") (.int b.hostSeq) = true) := by
  have hn : (keys (signAnswer w receipt)).Nodup := by simp [signAnswer, keys]
  unfold Client.receive at h
  split at h
  · cases h
  rw [loads_dumps w.floatText (signAnswer_plain w hp), sortKeys_dict_normal] at h
  obtain ⟨answer, hopen, h⟩ := bind_ok_iff.1 h
  have hbody := openAnswer_ok hopen
  rw [get?_normalDict hn] at hbody
  simp only [signAnswer, get?_cons, String.reduceEq, if_false, if_true, Option.map_some, sortKeys_dict_normal,
    Option.some.injEq, Value.dict.injEq] at hbody
  obtain ⟨rfl, hbound⟩ := checkBound_ok h
  exact ⟨hbody.symm, hbound⟩

theorem storedReceipt_ok {receipt : Dict} {stored : Int × String} (hp : Plain NoFloat false (.dict receipt))
    (h : c.storedReceipt w b status (dumps w.floatText (.dict (signAnswer w receipt))) = .ok stored) :
    stored = (b.hostSeq, digest w (.dict receipt)) := by
  obtain ⟨answer, hreceive, h⟩ := bind_ok_iff.1 h
  obtain ⟨rfl, hbound⟩ := receive_ok hp hreceive
  split at h
  · cases h
  rename_i hkind
  split at h
  · rename_i seq hseq
    cases h
    have hs := intOf_of_pyEqual (hbound.resolve_left hkind) hseq
    rw [hs, digest_normalDict]
  · cases h

theorem storedReceipt_refusal {refusal : Refusal} {sha hostId : Option String} {at_ : Int}
    {stored : Int × String} (hat : Readable at_) (h : c.storedReceipt w b status
      (dumps w.floatText (.dict (signAnswer w (refusalBody refusal sha hostId w.keyId at_)))) = .ok stored) :
        False := by
  have hp : Plain NoFloat false (.dict (refusalBody refusal sha hostId w.keyId at_)) := by
    simp only [refusalBody, Plain, PlainEntries, and_true, true_and]
    exact ⟨by simp [keys], optStr_plain _, optStr_plain _, hat⟩
  obtain ⟨answer, hreceive, h⟩ := bind_ok_iff.1 h
  obtain ⟨rfl, -⟩ := receive_ok hp hreceive
  have hkind : Value.pyEqual (field (normalDict (refusalBody refusal sha hostId w.keyId at_)) "kind") (.str "refusal") =
      true := by
    rw [field, get?_normalDict hp.nodup]
    simp [refusalBody, get?_cons, sortKeys]
  rw [if_pos hkind] at h
  cases h

end Answers

/-! ## Refusals before the chain rules -/

def earlyCodes : List String := [malformedCode, unauthenticated, wrongWitness, rateLimited, notFound]

def Refusal.Early (r : Refusal) : Prop := r.code ∈ earlyCodes

/-- None of them claims a rollback or a fork. -/
theorem Refusal.Early.code_ne {r : Refusal} (h : r.Early) : r.code ≠ rolledBack ∧ r.code ≠ forked := by
  have hcodes : rolledBack ∉ earlyCodes ∧ forked ∉ earlyCodes := by decide
  exact ⟨fun he => hcodes.1 (he ▸ h), fun he => hcodes.2 (he ▸ h)⟩

theorem early_malformed (message : String) :
    Refusal.Early ⟨malformedCode, message⟩ := by simp [Refusal.Early, earlyCodes]

theorem early_unauthenticated (message : String) : Refusal.Early ⟨unauthenticated, message⟩ := by
  simp [Refusal.Early, earlyCodes]

theorem early_wrongWitness (message : String) : Refusal.Early ⟨wrongWitness, message⟩ := by
  simp [Refusal.Early, earlyCodes]

theorem early_rateLimited (message : String) : Refusal.Early ⟨rateLimited, message⟩ := by
  simp [Refusal.Early, earlyCodes]

def Early {α : Type} (x : Except Refusal α) : Prop := ∀ r, x = .error r → r.Early

section Early

variable {α β : Type}

theorem Early.ok (a : α) : Early (.ok a) := fun _ h => by cases h

theorem Early.error {r : Refusal} (h : r.Early) : Early (.error r : Except Refusal α) := fun _ he => by
  cases he
  exact h

theorem Early.bind {x : Except Refusal α} {f : α → Except Refusal β} (hx : Early x) (hf : ∀ a, Early (f a)) :
    Early (x >>= f) := by
  intro r h
  cases x with
  | error =>
    cases h
    exact hx _ rfl
  | ok a => exact hf a r h

theorem Early.map {x : Except Refusal α} (f : α → β) (hx : Early x) : Early (f <$> x) := by
  intro r h
  cases x with
  | error =>
    cases h
    exact hx _ rfl
  | ok => cases h

theorem Early.unless {refusal : Refusal} (h : refusal.Early) (condition : Bool) : Early (refusal.unless condition) := by
  cases condition
  · exact .error h
  · exact .ok ()

theorem Early.mapM {f : α → Except Refusal β} (hf : ∀ a, Early (f a)) : ∀ l : List α, Early (l.mapM f)
  | [] => .ok _
  | a :: l => by
    rw [List.mapM_cons]
    exact (hf a).bind fun b => (Early.mapM hf l).bind fun bs => .ok _

theorem Early.malformed {message : String} : Early (.error ⟨malformedCode, message⟩ : Except Refusal α) :=
  .error (early_malformed message)

end Early

theorem early_checkHeads (env : Env) (v : Option Value) : Early (checkHeads env v) := by
  have hhead : ∀ e, Early (checkHead env e) := by
    intro e
    unfold checkHead
    split
    · exact .ok _
    · exact .malformed
  unfold checkHeads
  split
  · split
    · exact .mapM hhead _
    · exact .malformed
  · exact .malformed

theorem early_checkRegistry (v : Option Value) : Early (checkRegistry v) := by
  unfold checkRegistry
  split
  · exact .ok _
  · split
    · split
      · exact .ok _
      · exact .malformed
    · exact .malformed
  · exact .malformed

theorem early_checkTimeFloor (body : Dict) : Early (checkTimeFloor body) := by
  unfold checkTimeFloor
  split
  · exact .ok _
  · exact .malformed

theorem early_checkNonce (body : Dict) : Early (checkNonce body) := by
  unfold checkNonce
  split
  · split
    · exact .ok _
    · exact .malformed
  · exact .malformed

theorem early_checkReason (body : Dict) : Early (checkReason body) := by
  unfold checkReason
  split
  · split
    · exact .malformed
    · exact .ok _
  · exact .malformed

theorem early_checkAdvance (env : Env) (hostId : String) (body : Dict) : Early (checkAdvance env hostId body) := by
  unfold checkAdvance
  split
  · exact (early_checkHeads env _).bind fun _ => (early_checkRegistry _).bind fun _ =>
      (early_checkTimeFloor body).bind fun _ => .ok _
  · exact .malformed

theorem early_checkState (hostId : String) (body : Dict) : Early (checkState hostId body) := by
  refine (early_checkNonce body).bind fun _ => ?_
  split
  · exact .ok _
  · split
    · exact .ok _
    · exact .malformed
  · exact .malformed

theorem early_checkRebaseline (env : Env) (hostId : String) (body : Dict) :
    Early (checkRebaseline env hostId body) := by
  unfold checkRebaseline
  split
  · exact (early_checkNonce body).bind fun _ => (early_checkReason body).bind fun _ =>
      (early_checkHeads env _).bind fun _ => (early_checkRegistry _).bind fun _ =>
      (early_checkTimeFloor body).bind fun _ => .ok _
  · exact .malformed

theorem early_checkFields (env : Env) (format hostId : String) (body : Dict) :
    Early (checkFields env format hostId body) := by
  unfold checkFields
  split
  · exact (early_checkAdvance env hostId body).map _
  · split
    · exact (early_checkState hostId body).map _
    · exact (early_checkRebaseline env hostId body).map _

theorem early_checkBody (env : Env) (keyId : String) (body : Dict) : Early (checkBody env keyId body) := by
  unfold checkBody
  split
  · split
    · exact .malformed
    split
    · exact .malformed
    split
    · split
      · exact .error (early_wrongWitness _)
      split
      · split
        · exact early_checkFields _ _ _ _
        · exact .malformed
      · exact .malformed
    · exact .error (early_wrongWitness _)
  · exact .malformed

theorem early_openRequest (svc : Service) (raw : Option Text) : Early (svc.openRequest raw) := by
  unfold Service.openRequest
  split
  · exact .malformed
  · split
    · exact .malformed
    split
    · split
      · exact .malformed
      split
      · exact .error (early_unauthenticated _)
      split
      · split
        · exact .ok _
        · exact .error (early_unauthenticated _)
      · exact .error (early_unauthenticated _)
    · exact .malformed
  · exact .malformed

/-- What is refused before the chain rules run is not refused as rolled back or forked. -/
theorem early_admit (svc : Service) (request : Request) : Early <| svc.admit request := by
  have hsigner : ∀ signer body, Early (svc.authorizeSigner signer body) := by
    intro signer body
    cases body with
    | advance | state => exact .unless (early_unauthenticated _) _
    | rebaseline => exact .ok _
  unfold Service.admit
  split
  · exact .error (by simp [Refusal.Early, earlyCodes])
  refine (Early.unless (early_rateLimited _) _).bind fun _ => (early_openRequest svc _).bind fun opened => ?_
  refine (Early.unless (early_malformed _) _).bind fun _ => (early_checkBody _ _ _).bind fun body => ?_
  refine Early.bind ?_ fun _ => (Early.unless (early_rateLimited _) _).bind fun _ => .ok _
  exact (hsigner _ body).bind fun _ => .unless (early_unauthenticated _) _

end Portmark.Witness
