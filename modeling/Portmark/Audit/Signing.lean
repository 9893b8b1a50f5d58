/-
The signing side of an audit head: the gate `audit_signing_reason` that a save asks before it signs,
and `sign_audit_head`. The gate and the verifier's `evaluate_audit_head` are written apart; here is
what the verifier says of the heads that the gate lets through, at once and later on.
-/
import Portmark.Audit.Verify

namespace Portmark.Audit

open Lib Lib.Json List

theorem b64urlDecode?_encode {bytes : List Nat} (h : ∀ b ∈ bytes, b < 256) :
    b64urlDecode? (.str (b64urlEncode bytes)) = some bytes := by
  rw [b64urlDecode?, b64urlDecode_encode h]
  rfl

/-! ## The gate and the signature -/

/-- `_identity_unusable_reason`. -/
def TrustedIdentity.unusableReason (identity : TrustedIdentity) (now : Int) : Option String :=
  if identity.revoked then some "revoked"
  else if identity.notBefore > now then some "not-yet-active"
  else if identity.expiresAt.any (· ≤ now) then some "expired"
  else none

/-- `TrustRegistry.audit_signing_reason`. -/
def auditSigningReason (registry : TrustRegistry) (keyId : Codes) (now : Int) : Option String :=
  match identityOf registry (.str keyId) with
  | none => some "untrusted"
  | some identity =>
    match identity.unusableReason now with
    | some reason => some reason
    | none => if identity.permits "audit" then none else some "usage"

structure Signer (env : Env) where
  keyId : Codes
  issuer : Codes
  publicKey : List Nat
  sign : Text → List Nat
  isKey : env.isPublicKey publicKey = true
  bytes : ∀ text, ∀ b ∈ sign text, b < 256
  verifies : ∀ text, env.verify publicKey (sign text) text = true

/-- `_audit_head_payload_for` of what a host signs. -/
def headPayload (taskId hostId headHash : Codes) (sequence : Int) (signedAt : Option Int) : HeadPayload :=
  ⟨.str taskId, .str hostId, .str headHash, sequence, signedAt.elim .null .int⟩

/-- `sign_audit_head`. -/
def Signer.signAuditHead {env : Env} (signer : Signer env) (taskId hostId headHash : Codes) (sequence : Int)
    (signedAt : Option Int) : Except Raised Codes :=
  if hostId ≠ signer.issuer then .error (.security "audit head host does not match signing identity")
  else
    match canonicalJson env.depth (headPayload taskId hostId headHash sequence signedAt).data with
    | .error e => .error (.python (ofEncodeError e))
    | .ok text => .ok (b64urlEncode (signer.sign text))

def TrustRegistry.amend (registry : TrustRegistry) (keyId : Codes) (change : TrustedIdentity → TrustedIdentity) :
    TrustRegistry :=
  registry.map fun e => if e.1 == keyId then (e.1, change e.2) else e

def TrustRegistry.revoke (registry : TrustRegistry) (keyId : Codes) (effective : Int) : TrustRegistry :=
  registry.amend keyId fun identity => { identity with revoked := true, revokedAt := some effective }

/-- The verifier finds the head in order at the time `now`. -/
def AcceptedAt (env : Env) (registry : TrustRegistry) (keyId : Codes) (payload : HeadPayload) (signature : Codes)
    (now : Int) : Prop :=
  ∃ evaluation, evaluateAuditHead { env with clock := .ok now } registry (.str keyId) payload (.str signature) "audit" =
    .ok evaluation ∧ evaluation.ok = true

/-! ## What each of the two asks -/

variable {registry : TrustRegistry}

theorem auditSigningReason_none_iff {keyId : Codes} {t : Int} : auditSigningReason registry keyId t = none ↔
      ∃ identity, identityOf registry (.str keyId) = some identity ∧ identity.permits "audit" = true ∧
        identity.revoked = false ∧ identity.notBefore ≤ t ∧ ∀ e, identity.expiresAt = some e → t < e := by
  unfold auditSigningReason
  rcases hid : identityOf registry (.str keyId) with _ | identity
  · simp
  have hexp : (identity.expiresAt.any (· ≤ t) = true) ↔ ¬ ∀ e, identity.expiresAt = some e → t < e := by
    cases identity.expiresAt <;> simp
  simp only [TrustedIdentity.unusableReason, Option.some.injEq, exists_eq_left']
  by_cases hrev : identity.revoked = true
  · simp [hrev]
  by_cases hbefore : identity.notBefore > t
  · have : ¬ identity.notBefore ≤ t := by omega
    simp [hrev, hbefore, this]
  by_cases hexpired : identity.expiresAt.any (· ≤ t) = true
  · have : ¬ ∀ e, identity.expiresAt = some e → t < e := hexp.1 hexpired
    simp [hrev, hbefore, hexpired, this]
  have hlive : ∀ e, identity.expiresAt = some e → t < e := by
    by_contra hno
    exact hexpired (hexp.2 hno)
  by_cases hper : identity.permits "audit" = true
  · simpa [hrev, hbefore, hexpired, hper, Int.not_lt.1 hbefore] using hlive
  · simp [hrev, hbefore, hexpired, hper]

theorem Signer.signAuditHead_ok_iff {env : Env} {signer : Signer env} {taskId hostId headHash : Codes} {sequence : Int}
    {signedAt : Option Int} {signature : Codes} :
    signer.signAuditHead taskId hostId headHash sequence signedAt = .ok signature ↔
      hostId = signer.issuer ∧ ∃ text,
        canonicalJson env.depth (headPayload taskId hostId headHash sequence signedAt).data = .ok text ∧
          signature = b64urlEncode (signer.sign text) := by
  unfold signAuditHead
  by_cases hhost : hostId = signer.issuer
  · simp only [hhost, ne_eq, not_true_eq_false, if_false, true_and]
    cases canonicalJson env.depth (headPayload taskId signer.issuer headHash sequence signedAt).data with
    | error => simp
    | ok => simp [eq_comm]
  · simp [hhost]

theorem identityOf_amend {keyId : Codes} {change : TrustedIdentity → TrustedIdentity} :
    identityOf (registry.amend keyId change) (.str keyId) = (identityOf registry (.str keyId)).map change := by
  induction registry with
  | nil => rfl
  | cons e registry ih =>
    simp only [identityOf, TrustRegistry.amend] at ih ⊢
    by_cases hk : (e.1 == keyId) = true
    · simp only [map_cons, find?_cons, hk, if_true, Option.map_some]
    · simp only [Bool.not_eq_true] at hk
      simp only [map_cons, hk, Bool.false_eq_true, if_false, find?_cons]
      exact ih

variable {identity : TrustedIdentity}

theorem Signer.authentic_sign {env : Env} (signer : Signer env) {payload : HeadPayload}
    {text : Text} (hkey : identity.publicKey = signer.publicKey)
    (htext : canonicalJson env.depth payload.data = .ok text) :
    authentic env identity payload (.str (b64urlEncode (signer.sign text))) = .ok true := by
  simp only [authentic, hkey, signer.isKey, b64urlDecode?_encode (signer.bytes text), htext, signer.verifies]
  rfl

/-- What an authentic head is found in order for, whatever the time of the verdict is. -/
theorem judgeHead_ok_iff {signedAt : Data} {now : Int} : (judgeHead identity signedAt now).ok = true ↔
      signedAt = .null ∧ identity.revoked = false ∨
        ∃ t, signedAt = .int t ∧ 0 ≤ t ∧ t ≤ now + auditHeadClockSkewSeconds ∧ identity.notBefore ≤ t ∧
          (∀ e, identity.expiresAt = some e → t < e) ∧
          (identity.revoked = true → ∃ r, identity.revokedAt = some r ∧ t < r) := by
  cases signedAt with
  | null => cases hrev : identity.revoked <;> simp [judgeHead, hrev]
  | int t =>
    have hexp : identity.expiresAt.any (· ≤ t) = true ↔ ¬ ∀ e, identity.expiresAt = some e → t < e := by
      cases identity.expiresAt <;> simp
    simp only [Data.int.injEq, exists_eq_left', reduceCtorEq, false_and, false_or]
    -- the checks in the order of the source, each of which refuses
    by_cases hneg : t < 0
    · simp [judgeHead, hneg]
    by_cases hskew : t > now + auditHeadClockSkewSeconds
    · simp [judgeHead, hneg, hskew, not_le.2 hskew]
    by_cases hbefore : t < identity.notBefore
    · simp [judgeHead, hneg, hskew, hbefore, not_le.2 hbefore]
    by_cases hlate : identity.expiresAt.any (· ≤ t) = true
    · simp [judgeHead, hneg, hskew, hbefore, hlate, hexp.1 hlate]
    have hlive : ∀ e, identity.expiresAt = some e → t < e := not_not.1 (mt hexp.2 hlate)
    have hchecks : 0 ≤ t ∧ t ≤ now + auditHeadClockSkewSeconds ∧ identity.notBefore ≤ t := by omega
    simp only [judgeHead, if_neg hneg, if_neg hskew, if_neg hbefore, if_neg hlate, hchecks, true_and]
    cases hrev : identity.revoked
    · by_cases hx : identity.expiresAt.any (· ≤ now) = true <;> simpa [hx] using hlive
    cases hat : identity.revokedAt with
    | none => simp
    | some r =>
      by_cases hr : t < r
      · simpa [hr] using hlive
      · simp [hr]
  | _ => simp [judgeHead]

/-- The verdict on an authentic head that the key was allowed to sign at `t`. -/
theorem judgeHead_signed {t now : Int} (hnow : t ≤ now) (hbefore : identity.notBefore ≤ t)
    (hexp : ∀ e, identity.expiresAt = some e → t < e)
    (hrev : identity.revoked = true → ∃ r, identity.revokedAt = some r ∧ t < r) :
    (judgeHead identity (.int t) now).ok = true ↔ 0 ≤ t := by
  have hskew : t ≤ now + auditHeadClockSkewSeconds := by
    unfold auditHeadClockSkewSeconds
    omega
  rw [judgeHead_ok_iff]
  constructor
  · rintro (⟨h, -⟩ | ⟨t', h, hneg, -⟩) <;> cases h
    exact hneg
  · intro hneg
    exact .inr ⟨t, rfl, hneg, hskew, hbefore, hexp, hrev⟩

/-- The verifier on a head that was signed when its entry, as it now is, let the key sign. -/
theorem Signer.acceptedAt_iff {env : Env} (signer : Signer env)
    {taskId hostId headHash : Codes} {sequence t now : Int} {text : Text}
    (hid : identityOf registry (.str signer.keyId) = some identity) (hkey : identity.publicKey = signer.publicKey)
    (hper : identity.permits "audit" = true)
    (htext : canonicalJson env.depth (headPayload taskId hostId headHash sequence (some t)).data = .ok text)
    (hnow : t ≤ now) (hbefore : identity.notBefore ≤ t) (hexp : ∀ e, identity.expiresAt = some e → t < e)
    (hrev : identity.revoked = true → ∃ r, identity.revokedAt = some r ∧ t < r) :
    AcceptedAt env registry signer.keyId (headPayload taskId hostId headHash sequence (some t))
        (b64urlEncode (signer.sign text)) now ↔ identity.issuer = hostId ∧ 0 ≤ t := by
  have hjudge : (judgeHead identity (headPayload taskId hostId headHash sequence (some t)).signedAt now).ok = true ↔
    0 ≤ t :=
    judgeHead_signed hnow hbefore hexp hrev
  unfold AcceptedAt evaluateAuditHead
  simp only [hid, hper, Bool.not_true, Bool.false_eq_true, if_false]
  by_cases hissuer : identity.issuer = hostId
  · have hown : isText (headPayload taskId hostId headHash sequence (some t)).hostId identity.issuer = true := by
      simp [headPayload, isText, hissuer]
    have hauth' : authentic { env with clock := .ok now } identity
        (headPayload taskId hostId headHash sequence (some t)) (.str (b64urlEncode (signer.sign text))) = .ok true :=
      signer.authentic_sign hkey htext
    rw [hown, hauth']
    simpa [hissuer] using hjudge
  · have hother : isText (headPayload taskId hostId headHash sequence (some t)).hostId identity.issuer = false := by
      simpa [headPayload, isText] using fun h => hissuer h.symm
    rw [hother]
    simp [hissuer]

/-! ## What the gate lets through -/

/-- A head that was signed behind the gate is found in order from then on, and also once its key is
revoked for a later time, exactly when the registry's entry is issued to the host and the signing
time is not negative. -/
theorem signed_head_accepted_iff {env : Env} (signer : Signer env) (registry : TrustRegistry)
    (identity : TrustedIdentity) (taskId hostId headHash : Codes) (sequence t : Int) (signature : Codes)
    (hid : identityOf registry (.str signer.keyId) = some identity) (hkey : identity.publicKey = signer.publicKey)
    (hgate : auditSigningReason registry signer.keyId t = none)
    (hsigned : signer.signAuditHead taskId hostId headHash sequence (some t) = .ok signature) :
    (∀ now, t ≤ now →
        AcceptedAt env registry signer.keyId (headPayload taskId hostId headHash sequence (some t)) signature now ∧
        ∀ effective, t < effective → AcceptedAt env (registry.revoke signer.keyId effective) signer.keyId
          (headPayload taskId hostId headHash sequence (some t)) signature now) ↔
      identity.issuer = hostId ∧ 0 ≤ t := by
  obtain ⟨identity', hid', hper, hrev, hbefore, hexp⟩ := auditSigningReason_none_iff.1 hgate
  obtain rfl : identity = identity' := Option.some.inj (hid.symm.trans hid')
  obtain ⟨-, text, htext, rfl⟩ := Signer.signAuditHead_ok_iff.1 hsigned
  have hnone : identity.revoked = true → ∃ r, identity.revokedAt = some r ∧ t < r := by
    intro h
    rw [hrev] at h
    cases h
  constructor
  · intro h
    exact (signer.acceptedAt_iff hid hkey hper htext le_rfl hbefore hexp hnone).1 (h t le_rfl).1
  · rintro hok now hnow
    refine ⟨(signer.acceptedAt_iff hid hkey hper htext hnow hbefore hexp hnone).2 hok, ?_⟩
    intro effective hlater
    -- the revoked entry differs from the one that signed in the revocation alone
    have hrevoked : identityOf (registry.revoke signer.keyId effective) (.str signer.keyId) =
        some { identity with revoked := true, revokedAt := some effective } := by
      rw [TrustRegistry.revoke, identityOf_amend, hid]
      rfl
    exact (signer.acceptedAt_iff hrevoked hkey hper htext hnow hbefore hexp fun _ => ⟨effective, rfl, hlater⟩).2 hok

/-! ## An entry of another issuer -/

def trustingEnv : Env where
  sha256 := id
  depth := 10
  intOfText := fun _ => none
  intOfBytes := fun _ => none
  isPublicKey := fun _ => true
  verify := fun _ _ _ => true
  clock := .ok 0

def hostSigner : Signer trustingEnv where
  keyId := codes "key".toList
  issuer := codes "host".toList
  publicKey := [1]
  sign := fun _ => [7]
  isKey := rfl
  bytes := by simp
  verifies := fun _ => rfl

def entryOf (issuer : String) : TrustedIdentity := ⟨codes issuer.toList, [1], 0, none, false, [], none⟩

def registryOf (issuer : String) : TrustRegistry := [(codes "key".toList, entryOf issuer)]

/-- The gate asks for no issuer: the host signs under the entry of another one, and the verifier
refuses the head. -/
theorem other_issuer_refused :
    identityOf (registryOf "other") (.str hostSigner.keyId) = some (entryOf "other") ∧
      (entryOf "other").publicKey = hostSigner.publicKey ∧
      auditSigningReason (registryOf "other") hostSigner.keyId 5 = none ∧
      ∃ signature, hostSigner.signAuditHead (codes "task".toList) (codes "host".toList) (codes "hash".toList) 1
        (some 5) = .ok signature ∧
        ¬ AcceptedAt trustingEnv (registryOf "other") hostSigner.keyId
          (headPayload (codes "task".toList) (codes "host".toList) (codes "hash".toList) 1 (some 5)) signature 5 := by
  refine ⟨rfl, rfl, by decide +kernel, _, rfl, ?_⟩
  rintro ⟨evaluation, heval, hok⟩
  cases heval
  cases hok

/-- Under its own entry a head signed at 5 is accepted at 9, also after a revocation from 7 on. -/
theorem signed_head_accepted_own :
    AcceptedAt trustingEnv (registryOf "host") hostSigner.keyId
        (headPayload (codes "task".toList) (codes "host".toList) (codes "hash".toList) 1 (some 5))
          (b64urlEncode [7]) 9 ∧ AcceptedAt trustingEnv ((registryOf "host").revoke hostSigner.keyId 7) hostSigner.keyId
        (headPayload (codes "task".toList) (codes "host".toList) (codes "hash".toList) 1 (some 5))
          (b64urlEncode [7]) 9 := by
  have haccepted := (signed_head_accepted_iff hostSigner (registryOf "host") (entryOf "host") (codes "task".toList)
    (codes "host".toList) (codes "hash".toList) 1 5 _ rfl rfl (by decide +kernel) rfl).2 ⟨rfl, by decide⟩ 9 (by decide)
  exact ⟨haccepted.1, haccepted.2 7 (by decide)⟩

end Portmark.Audit
