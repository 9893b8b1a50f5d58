/-
How the verdict of `evaluate_audit_head` moves: with time, with a revocation that is entered for the
key, and with a revocation that is dated back. Here the payload is any dictionary, as the method takes it.
-/
import Portmark.Audit.Signing

namespace Portmark.Audit

open Lib Lib.Json

/-! ## The verdict on any payload -/

def signedAtOf (payload : List (Key × Data)) : Data :=
  if isText (getData payload "type") (codes "portmark.audit-head.v2".toList) then getData payload "signed_at" else .null

def genuine (env : Env) (identity : TrustedIdentity) (payload : List (Key × Data)) (signature : Data)
    (requiredUsage : String) : Except Raised Bool :=
  if !identity.permits requiredUsage then .ok false
  else if !isText (getData payload "host_id") identity.issuer then .ok false
  else if !env.isPublicKey identity.publicKey then .ok false
  else
    match b64urlDecode? signature with
    | none => .ok false
    | some bytes =>
      match canonicalJson env.depth (.dict payload) with
      | .ok text => .ok (env.verify identity.publicKey bytes text)
      | .error .valueError => .ok false
      | .error e => .error (.python (ofEncodeError e))

/-- `evaluate_audit_head(key_id, payload, signature, now, required_usage).ok`. -/
def verdict (env : Env) (registry : TrustRegistry) (keyId : Codes) (payload : List (Key × Data)) (signature : Data)
    (requiredUsage : String) (now : Int) : Except Raised Bool :=
  match identityOf registry (.str keyId) with
  | none => .ok false
  | some identity => do
    if ← genuine env identity payload signature requiredUsage then
      return (judgeHead identity (signedAtOf payload) now).ok
    else return false

/-- On the payload of a stored head it is the verdict of the audit. -/
theorem verdict_headPayload (env : Env) (registry : TrustRegistry) (keyId : Codes) (payload : HeadPayload)
    (signature : Data) (requiredUsage : String) (now : Int) (d : List (Key × Data)) (hd : payload.data = .dict d) :
    verdict env registry keyId d signature requiredUsage now =
      (·.ok) <$> evaluateAuditHead { env with clock := .ok now } registry
        (.str keyId) payload signature requiredUsage := by
  have hfields : signedAtOf d = payload.signedAt ∧ getData d "host_id" = payload.hostId := by
    unfold HeadPayload.data at hd
    cases hs : payload.signedAt <;> rw [hs] at hd <;> cases hd <;> exact ⟨rfl, rfl⟩
  unfold verdict evaluateAuditHead genuine authentic
  rw [hfields.1, hfields.2, hd]
  rcases identityOf registry (.str keyId) with _ | identity
  · rfl
  dsimp only
  cases identity.permits requiredUsage
  · rfl
  cases isText payload.hostId identity.issuer
  · rfl
  cases env.isPublicKey identity.publicKey
  · rfl
  cases b64urlDecode? signature with
  | none => rfl
  | some bytes =>
    cases canonicalJson env.depth (.dict d) with
    | error e => cases e <;> rfl
    | ok text =>
      dsimp only
      cases env.verify identity.publicKey bytes text <;> rfl

/-! ## What moves it -/

section Moves

variable {env : Env} {registry : TrustRegistry} {keyId : Codes} {payload : List (Key × Data)} {signature : Data}
  {requiredUsage : String} {identity : TrustedIdentity}

/-- A verdict is one on an entry: genuine heads are judged by their times. -/
theorem verdict_eq (hid : identityOf registry (.str keyId) = some identity) (now : Int) :
    verdict env registry keyId payload signature requiredUsage now =
      (· && (judgeHead identity (signedAtOf payload) now).ok) <$> genuine env identity payload signature
        requiredUsage := by
  rw [verdict, hid]
  dsimp only
  cases genuine env identity payload signature requiredUsage with
  | error => rfl
  | ok b => cases b <;> rfl

/-- With another entry of the same key, issuer and usages only the judgement on the times is another one. -/
theorem verdict_amend {change : TrustedIdentity → TrustedIdentity}
    (hid : identityOf registry (.str keyId) = some identity)
    (hkey : (change identity).publicKey = identity.publicKey) (hissuer : (change identity).issuer = identity.issuer)
    (husages : (change identity).usages = identity.usages) (now : Int) :
    verdict env (registry.amend keyId change) keyId payload signature requiredUsage now =
      (· && (judgeHead (change identity) (signedAtOf payload) now).ok) <$>
        genuine env identity payload signature requiredUsage := by
  have hchanged : identityOf (registry.amend keyId change) (.str keyId) = some (change identity) := by
    rw [identityOf_amend, hid]
    rfl
  rw [verdict_eq hchanged]
  simp only [genuine, TrustedIdentity.permits, hkey, hissuer, husages]
  rfl

theorem map_and_mono {x : Except Raised Bool} {a b : Bool} (h : b = true → a = true)
    (hx : (· && a) <$> x = .ok false) : (· && b) <$> x = .ok false := by
  obtain ⟨g, rfl, hg⟩ := Portmark.Lib.map_ok_iff.1 hx
  cases g <;> cases a <;> cases b <;> simp_all

theorem map_and_true {x : Except Raised Bool} {a : Bool} (hx : (· && a) <$> x = .ok true) :
    x = .ok true ∧ a = true := by
  obtain ⟨g, rfl, hg⟩ := Portmark.Lib.map_ok_iff.1 hx
  obtain ⟨rfl, ha⟩ := Bool.and_eq_true_iff.1 hg
  exact ⟨rfl, ha⟩

end Moves

/-- A verdict of "in order" lasts; a revocation that is entered for the key makes no head good, and
makes a head with a signing time bad exactly when it was signed at or after the revocation took effect,
or the revocation has no such time; a revocation that is dated back makes no head good. -/
theorem verdicts_stable (env : Env) (registry : TrustRegistry) (keyId : Codes) (payload : List (Key × Data))
    (signature : Data) (requiredUsage : String) :
    let judged := fun registry now => verdict env registry keyId payload signature requiredUsage now
    (∀ now later, now ≤ later → judged registry now = .ok true → judged registry later = .ok true) ∧
    ∀ identity, identityOf registry (.str keyId) = some identity →
      (identity.revoked = false → ∀ revokedAt : Option Int,
        let revoked := registry.amend keyId fun i => { i with revoked := true, revokedAt }
        (∀ now, judged registry now = .ok false → judged revoked now = .ok false) ∧
        ∀ now, judged registry now = .ok true → signedAtOf payload ≠ .null →
          (judged revoked now = .ok false ↔ ∀ r, revokedAt = some r → ∃ t, signedAtOf payload = .int t ∧ r ≤ t)) ∧
      ∀ r, identity.revokedAt = some r → ∀ earlier ≤ r, ∀ now, judged registry now = .ok false →
        judged (registry.amend keyId fun i => { i with revokedAt := some earlier }) now = .ok false := by
  intro judged
  refine ⟨?_, fun identity hid => ⟨fun hnot revokedAt => ⟨?_, ?_⟩, ?_⟩⟩
  · intro now later hle h
    show verdict env registry keyId payload signature requiredUsage later = .ok true
    rcases hid : identityOf registry (.str keyId) with _ | identity
    · simp only [judged, verdict, hid] at h
      cases h
    simp only [judged] at h
    rw [verdict_eq hid] at h ⊢
    obtain ⟨hgenuine, hjudge⟩ := map_and_true h
    have hlater : (judgeHead identity (signedAtOf payload) later).ok = true := by
      rw [judgeHead_ok_iff] at hjudge ⊢
      refine hjudge.imp_right ?_
      rintro ⟨t, hsigned, hpos, hskew, hlife⟩
      exact ⟨t, hsigned, hpos, by omega, hlife⟩
    rw [hgenuine, hlater]
    rfl
  · intro now h
    simp only [judged] at h ⊢
    rw [verdict_amend hid rfl rfl rfl]
    rw [verdict_eq hid] at h
    refine map_and_mono ?_ h
    simp only [judgeHead_ok_iff, hnot]
    rintro (⟨-, hrev⟩ | ⟨t, hsigned, hpos, hskew, hbefore, hexp, -⟩)
    · cases hrev
    · exact .inr ⟨t, hsigned, hpos, hskew, hbefore, hexp, fun h => by cases h⟩
  · intro now h hsigned
    simp only [judged] at h ⊢
    rw [verdict_eq hid] at h
    obtain ⟨hgenuine, hjudge⟩ := map_and_true h
    rw [verdict_amend hid rfl rfl rfl, hgenuine]
    obtain ⟨hnull, -⟩ | ⟨t, ht, hpos, hskew, hbefore, hexp, -⟩ := judgeHead_ok_iff.1 hjudge
    · exact absurd hnull hsigned
    -- the revocation is the only thing left to judge
    have hrevoked : (judgeHead { identity with revoked := true, revokedAt } (signedAtOf payload) now).ok = true ↔
        ∃ r, revokedAt = some r ∧ t < r := by
      rw [judgeHead_ok_iff, ht]
      simp only [reduceCtorEq, false_and, false_or, Data.int.injEq, exists_eq_left', forall_const]
      exact ⟨fun h => h.2.2.2.2, fun h => ⟨hpos, hskew, hbefore, hexp, h⟩⟩
    have hfalse : (true && (judgeHead { identity with revoked := true, revokedAt } (signedAtOf payload) now).ok) =
      false ↔ ¬ ∃ r, revokedAt = some r ∧ t < r := by
      rw [← hrevoked, Bool.true_and, Bool.not_eq_true]
    refine ⟨fun h => ?_, fun h => congrArg Except.ok (hfalse.2 ?_)⟩
    · simpa [ht] using hfalse.1 (Except.ok.inj h)
    · simpa [ht] using h
  · intro r hr earlier hle now h
    simp only [judged] at h ⊢
    rw [verdict_amend hid rfl rfl rfl]
    rw [verdict_eq hid] at h
    refine map_and_mono ?_ h
    simp only [judgeHead_ok_iff, hr, Option.some.injEq, exists_eq_left']
    rintro (hv1 | ⟨t, hsigned, hpos, hskew, hbefore, hexp, hrev⟩)
    · exact .inl hv1
    · exact .inr ⟨t, hsigned, hpos, hskew, hbefore, hexp, fun h => (hrev h).trans_le hle⟩

def headAtFive : List (Key × Data) :=
  [(key "type", .ofText "portmark.audit-head.v2".toList), (key "host_id", .ofText "host".toList),
    (key "signed_at", .int 5)]

/-- It is in order at 9 and so at 20, and no longer once the key is revoked from 3 on. -/
theorem verdicts_stable_at_five :
    let judged :=
      fun registry => verdict trustingEnv registry (codes "key".toList) headAtFive (.str (b64urlEncode [7])) "audit"
    judged (registryOf "host") 9 = .ok true ∧ judged (registryOf "host") 20 = .ok true ∧
      judged ((registryOf "host").amend (codes "key".toList) fun i =>
        { i with revoked := true, revokedAt := some 3 }) 9 = .ok false := by
  have hstable := verdicts_stable trustingEnv (registryOf "host") (codes "key".toList) headAtFive
    (.str (b64urlEncode [7])) "audit"
  refine ⟨rfl, hstable.1 9 20 (by decide) rfl, (((hstable.2 _ rfl).1 rfl (some 3)).2 9 rfl (fun h => by cases h)).2 ?_⟩
  rintro r ⟨⟩
  exact ⟨5, rfl, by decide⟩

end Portmark.Audit
