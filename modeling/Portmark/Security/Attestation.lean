/-
Attestation evidence of security.py: `AttestationPolicy.verify` with `verify_migration_challenge`,
which a source runs over the evidence a receipt carries, and `check_local_migration_evidence`,
which the destination runs over its own attester's output before it stores the receipt. The fields
of evidence are whatever an attester put there, so every comparison is the one Python makes, with
its exceptions. The two check lists differ only in what they ask of the signing authority.
-/
import Portmark.Security.Json

namespace Portmark.Security

open Lib Lib.Json Option

/-! ## Python comparisons -/

mutual

/-- Whether `hash(v)` is defined. -/
def hashable : Value → Bool
  | .list _ => false
  | .dict _ => false
  | .tuple xs => allHashable xs
  | _ => true

def allHashable : List Value → Bool
  | [] => true
  | v :: vs => hashable v && allHashable vs

end

/-- `v in {items}`, which hashes `v`. -/
def inSet (v : Value) (items : List String) : Except PyError Bool :=
  if hashable v then .ok (items.any fun item => v.pyEqual (.str item)) else .error (.type "unhashable type")

/-- `n < v`. -/
def intBelow (n : Int) (v : Value) : Except PyError Bool :=
  match v.num? with
  | some x => .ok (PyFloat.lt (.finite n) x)
  | none => .error (.type "'<' not supported")

/-- `v <= n`. -/
def atMostInt (v : Value) (n : Int) : Except PyError Bool :=
  match v.num? with
  | some x => .ok (PyFloat.lt x (.finite n) || PyFloat.eq x (.finite n))
  | none => .error (.type "'<=' not supported")

/-- `hmac.compare_digest(v, text)`: strings of ASCII characters only. -/
def compareDigest (v : Value) (text : String) : Except PyError Bool :=
  match v with
  | .str s =>
    if (s.toList ++ text.toList).all (fun c => decide (c.toNat < 128)) then .ok (s == text)
    else .error (.type "comparing strings with non-ASCII characters is not supported")
  | _ => .error (.type "unsupported operand types(s) or combination of types")

/-! ## Evidence and authorities -/

/-- `AttestationEvidence`. -/
structure AttestationEvidence where
  verifier : Value
  subject : Value
  audience : Value
  measurement : Value
  issuedAt : Value
  expiresAt : Value
  nonce : Value
  claims : Value
  quote : Value
  signatureKeyId : Value
  signature : Value

namespace AttestationEvidence

/-- `unsigned_dict`. -/
def unsignedDict (e : AttestationEvidence) : Dict :=
  [("verifier", e.verifier), ("subject", e.subject), ("audience", e.audience), ("measurement", e.measurement),
    ("issued_at", e.issuedAt), ("expires_at", e.expiresAt), ("nonce", e.nonce), ("claims", e.claims),
      ("quote", e.quote), ("signature_key_id", e.signatureKeyId)]

/-- `asdict`. -/
def asdict (e : AttestationEvidence) : Dict := e.unsignedDict ++ [("signature", e.signature)]

def required : List String := ["verifier", "subject", "audience", "measurement", "issued_at", "expires_at"]

def optional : List String := ["nonce", "claims", "quote", "signature_key_id", "signature"]

/-- `AttestationEvidence(**d)`; `none` for its `TypeError`. -/
def ofDict (d : Dict) : Option AttestationEvidence :=
  let field := fun key => (Assoc.get? d key).getD (if key = "claims" then .dict [] else .str "")
  if required.all (Assoc.contains d) && (Assoc.keys d).all (required ++ optional).contains then
    some ⟨field "verifier", field "subject", field "audience", field "measurement", field "issued_at",
      field "expires_at", field "nonce", field "claims", field "quote", field "signature_key_id", field "signature"⟩
  else none

theorem ofDict_asdict (e : AttestationEvidence) : ofDict e.asdict = some e := by
  rfl

end AttestationEvidence

structure TrustedAttestationAuthority where
  keyId : String
  verifier : String
  publicKey : String
  notBefore : Int
  expiresAt : Option Int
  revoked : Bool

/-- What the signature check calls: `Ed25519PublicKey.from_public_bytes`, `b64url_decode`, the text of a float in the
payload, and `verify`. -/
structure SignatureLibrary where
  publicKey : String → Except PyError String
  b64urlDecode : Value → Except PyError String
  floatText : ℚ → Text
  verify : String → String → Text → Bool

/-- `ExternalAttestationVerifierProtocol.verify`. -/
abbrev ExternalVerifier := AttestationEvidence → String → String → Option String → Int → Except PyError Unit

structure AttestationPolicy where
  authorities : List TrustedAttestationAuthority
  allowedMeasurements : List String
  externalVerifier : Option ExternalVerifier

namespace AttestationPolicy

variable (lib : SignatureLibrary) (policy : AttestationPolicy)

/-- `self._authorities.get(key_id) if key_id else None`: the last authority of a key id counts. -/
def authority (keyId : Value) : Except PyError (Option TrustedAttestationAuthority) :=
  if keyId.truthy then
    if hashable keyId then .ok (policy.authorities.reverse.find? fun authority => keyId.pyEqual (.str authority.keyId))
    else .error (.type "unhashable type")
  else .ok none

/-- The signature of evidence under the key of an authority. `ValueError` is refused as well. -/
def checkSignature (message : String) (authority : TrustedAttestationAuthority) (e : AttestationEvidence) :
    Except PyError Unit :=
  let verified := do
    let key ← lib.publicKey authority.publicKey
    let signature ← lib.b64urlDecode e.signature
    let payload ← canonicalJson lib.floatText (.dict e.unsignedDict)
    return lib.verify key signature payload
  match verified with
  | .ok true => .ok ()
  | .ok false => refuse message
  | .error (.value _) => refuse message
  | .error error => .error error

/-- What `verify` asks of a known authority. -/
def checkAuthority (authority : TrustedAttestationAuthority) (e : AttestationEvidence) (now : Int) :
    Except PyError Unit := do
  refuseIf authority.revoked "attestation verifier key has been revoked"
  refuseIf (decide (now < authority.notBefore)) "attestation verifier key is not active yet"
  refuseIf (authority.expiresAt.any fun expiresAt => decide (expiresAt ≤ now)) "attestation verifier key has expired"
  refuseIf (!e.verifier.pyEqual (.str authority.verifier)) "attestation verifier identity does not match key"

def checkNonce (e : AttestationEvidence) (expectedNonce : Option String) (requireNonce : Bool) : Except PyError Unit :=
  match expectedNonce with
  | none => .ok ()
  | some expected => do
    refuseIf (requireNonce && !e.nonce.truthy) "attestation nonce is required but missing"
    if e.nonce.truthy then do
      let same ← compareDigest e.nonce expected
      refuseIf (!same) "attestation nonce does not match permit"

/-- `verify`, at the time `now`. -/
def verify (evidence : Option AttestationEvidence) (expectedSubject relyingParty : String)
    (expectedNonce : Option String) (now : Int) (requireNonce : Bool) : Except PyError Unit :=
  match evidence with
  | none => refuse "attestation evidence is required"
  | some e => do
    let authority ← policy.authority e.signatureKeyId
    refuseIf (authority.isNone && policy.externalVerifier.isNone) "attestation verifier key is not trusted"
    authority.forM fun authority => checkAuthority authority e now
    refuseIf (!e.subject.pyEqual (.str expectedSubject)) "attestation subject does not match expected host"
    let addressed ← inSet e.audience [relyingParty, "*"]
    refuseIf (!addressed) "attestation audience does not match relying party"
    let early ← intBelow now e.issuedAt
    refuseIf early "attestation evidence is not active yet"
    let late ← atMostInt e.expiresAt now
    refuseIf late "attestation evidence has expired"
    refuseIf (!policy.allowedMeasurements.isEmpty &&
      !policy.allowedMeasurements.any fun measurement => e.measurement.pyEqual (.str measurement))
      "attestation measurement is not approved"
    checkNonce e expectedNonce requireNonce
    refuseIf (policy.externalVerifier.isSome && !e.quote.truthy)
      "attestation quote is required for external verification"
    authority.forM fun authority => checkSignature lib "attestation signature is invalid" authority e
    policy.externalVerifier.forM fun external => external e expectedSubject relyingParty expectedNonce now

/-- `verify_migration_challenge`, at the time `now`. -/
def verifyMigrationChallenge (evidence : Option Dict) (challenge destination sourceHostId : String) (now : Int) :
    Except PyError Unit :=
  match evidence with
  | none => refuse "migration challenge attestation is required"
  | some d =>
    match AttestationEvidence.ofDict d with
    | none => refuse "migration challenge attestation has invalid shape"
    | some e => policy.verify lib (some e) destination sourceHostId (some challenge) now true

/-- `check_local_migration_evidence`, at the time `now`. -/
def checkLocalMigrationEvidence (e : AttestationEvidence) (subject audience challenge : String) (now : Int) :
    Except PyError Unit := do
  refuseIf (!e.subject.pyEqual (.str subject)) "migration challenge evidence subject does not match this host"
  let addressed ← inSet e.audience [audience, "*"]
  refuseIf (!addressed) "migration challenge evidence audience does not match the source"
  refuseIf (!e.nonce.truthy) "migration challenge evidence nonce does not match the challenge"
  let same ← compareDigest e.nonce challenge
  refuseIf (!same) "migration challenge evidence nonce does not match the challenge"
  let early ← intBelow now e.issuedAt
  refuseIf early "migration challenge evidence is not active yet"
  let late ← atMostInt e.expiresAt now
  refuseIf late "migration challenge evidence has expired"
  refuseIf (!policy.allowedMeasurements.isEmpty &&
    !policy.allowedMeasurements.any fun measurement => e.measurement.pyEqual (.str measurement))
    "migration challenge evidence measurement is not approved"
  let authority ← policy.authority e.signatureKeyId
  authority.forM fun authority => checkSignature lib "migration challenge evidence signature is invalid" authority e

/-! ## The two check lists -/

variable {lib policy}

structure Checked (policy : AttestationPolicy) (e : AttestationEvidence) (subject audience challenge : String)
    (now : Int) : Prop where
  subject : e.subject.pyEqual (.str subject) = true
  audience : inSet e.audience [audience, "*"] = .ok true
  nonce : e.nonce.truthy = true
  challenge : compareDigest e.nonce challenge = .ok true
  active : intBelow now e.issuedAt = .ok false
  unexpired : atMostInt e.expiresAt now = .ok false
  measured : policy.allowedMeasurements = [] ∨
    policy.allowedMeasurements.any (fun measurement => e.measurement.pyEqual (.str measurement)) = true

/-- An authority that `verify` accepts for evidence, at the time `now`. -/
structure Trusts (authority : TrustedAttestationAuthority) (e : AttestationEvidence) (now : Int) : Prop where
  live : authority.revoked = false
  active : authority.notBefore ≤ now
  unexpired : ∀ expiresAt ∈ authority.expiresAt, now < expiresAt
  named : e.verifier.pyEqual (.str authority.verifier) = true

variable {e : AttestationEvidence}

theorem checkAuthority_ok_iff {authority : TrustedAttestationAuthority} {now : Int} :
    checkAuthority authority e now = .ok () ↔ Trusts authority e now := by
  unfold checkAuthority
  simp only [bind_ok_iff, refuseIf_ok_iff, exists_const]
  constructor
  · rintro ⟨hlive, hactive, hexpired, hnamed⟩
    refine ⟨hlive, by simpa using hactive, ?_, by simpa using hnamed⟩
    intro expiresAt hmem
    rw [mem_def.1 hmem] at hexpired
    simpa using hexpired
  · rintro ⟨hlive, hactive, hexpired, hnamed⟩
    refine ⟨hlive, by simpa using hactive, ?_, by simpa using hnamed⟩
    cases hexpires : authority.expiresAt with
    | none => rfl
    | some expiresAt => simpa using hexpired expiresAt hexpires

theorem checkSignature_ok_iff {message message' : String} {authority : TrustedAttestationAuthority} :
    checkSignature lib message authority e = .ok () ↔ checkSignature lib message' authority e = .ok () := by
  unfold checkSignature
  dsimp only
  split <;> simp [refuse]

theorem forM_ok_iff {α : Type} {o : Option α} {f : α → Except PyError Unit} {u : Unit} :
    o.forM f = .ok u ↔ ∀ a ∈ o, f a = .ok () := by
  cases o with
  | none => exact ⟨fun _ => nofun, fun _ => rfl⟩
  | some a => exact ⟨fun h b hb => mem_some.1 hb ▸ h, fun h => h a rfl⟩

theorem unmeasured_eq_false_iff {allowed : List String} {p : String → Bool} :
    (!allowed.isEmpty && !allowed.any p) = false ↔ allowed = [] ∨ allowed.any p = true := by
  rw [Bool.and_eq_false_iff, Bool.not_eq_false', Bool.not_eq_false', List.isEmpty_iff]

variable {challenge : String}

theorem checkNonce_ok_iff {u : Unit} :
    checkNonce e (some challenge) true = .ok u ↔ e.nonce.truthy = true ∧
      compareDigest e.nonce challenge = .ok true := by
  unfold checkNonce
  cases e.nonce.truthy
  · simp [refuseIf, refuse, bind, Except.bind]
  simp only [Bool.not_true, Bool.and_false, if_true, true_and, bind_ok_iff, refuseIf_ok_iff, exists_const,
    Bool.not_eq_false']
  constructor
  · rintro ⟨same, hsame, rfl⟩
    exact hsame
  · exact fun h => ⟨true, h, rfl⟩

theorem checkLocal_ok_iff {subject audience : String} {now : Int} :
    policy.checkLocalMigrationEvidence lib e subject audience challenge now = .ok () ↔
      Checked policy e subject audience challenge now ∧ ∃ found, policy.authority e.signatureKeyId = .ok found ∧
        ∀ authority ∈ found, checkSignature lib "migration challenge evidence signature is invalid" authority e =
          .ok () := by
  unfold checkLocalMigrationEvidence
  simp only [bind_ok_iff, refuseIf_ok_iff, exists_const, Bool.not_eq_false', unmeasured_eq_false_iff]
  constructor
  · rintro ⟨hsubject, addressed, haddressed, rfl, hnonce, same, hsame, rfl, early, hearly, rfl, late, hlate, rfl,
      hmeasured, found, hfound, hsignature⟩
    exact ⟨⟨hsubject, haddressed, hnonce, hsame, hearly, hlate, hmeasured⟩, found, hfound, forM_ok_iff.1 hsignature⟩
  · rintro ⟨hchecked, found, hfound, hsignature⟩
    exact ⟨hchecked.subject, true, hchecked.audience, rfl, hchecked.nonce, true, hchecked.challenge, rfl, false,
      hchecked.active, rfl, false, hchecked.unexpired, rfl, hchecked.measured, found, hfound, forM_ok_iff.2 hsignature⟩

theorem verify_ok_iff (hexternal : policy.externalVerifier = none) {destination source : String} {now : Int} :
    policy.verify lib (some e) destination source (some challenge) now true = .ok () ↔
      Checked policy e destination source challenge now ∧ ∃ authority,
        policy.authority e.signatureKeyId = .ok (some authority) ∧
        Trusts authority e now ∧ checkSignature lib "attestation signature is invalid" authority e = .ok () := by
  unfold verify
  simp only [hexternal, bind_ok_iff, refuseIf_ok_iff, exists_const, Bool.not_eq_false', unmeasured_eq_false_iff,
    checkNonce_ok_iff, forM_ok_iff, isNone_none, Bool.and_true, isSome_none, Bool.false_and, true_and]
  constructor
  · rintro ⟨found, hfound, hknown, htrusted, hsubject, addressed, haddressed, rfl, early, hearly, rfl, late, hlate, rfl,
      hmeasured, ⟨hnonce, hchallenge⟩, hsignature, -⟩
    cases found with
    | none => cases hknown
    | some authority =>
      exact ⟨⟨hsubject, haddressed, hnonce, hchallenge, hearly, hlate, hmeasured⟩, authority, hfound,
        checkAuthority_ok_iff.1 (htrusted authority rfl), hsignature authority rfl⟩
  · rintro ⟨hchecked, authority, hfound, htrusted, hsignature⟩
    have hall : ∀ {P : TrustedAttestationAuthority → Prop}, P authority → ∀ a ∈ some authority, P a :=
      fun hp a ha => mem_some.1 ha ▸ hp
    exact ⟨some authority, hfound, rfl, hall (checkAuthority_ok_iff.2 htrusted), hchecked.subject, true,
      hchecked.audience, rfl, false, hchecked.active, rfl, false, hchecked.unexpired, rfl, hchecked.measured,
        ⟨hchecked.nonce, hchecked.challenge⟩, hall hsignature, fun _ hnone => (by cases hnone)⟩

end AttestationPolicy

open AttestationPolicy

/-- Evidence that the destination accepts is accepted by a source with the same policy, at the same time, exactly if its
key belongs to an authority that is not revoked, active, unexpired, and the verifier that the evidence names. -/
theorem mirrored_evidence_accepted_iff (lib : SignatureLibrary) (policy : AttestationPolicy)
    (hexternal : policy.externalVerifier = none) (e : AttestationEvidence) (challenge destination source : String)
    (now : Int) (hlocal : policy.checkLocalMigrationEvidence lib e destination source challenge now = .ok ()) :
    policy.verifyMigrationChallenge lib (some e.asdict) challenge destination source now = .ok () ↔
      ∃ authority, policy.authority e.signatureKeyId = .ok (some authority) ∧ Trusts authority e now := by
  obtain ⟨hchecked, found, hfound, hsignature⟩ := checkLocal_ok_iff.1 hlocal
  have hrebuilt : policy.verifyMigrationChallenge lib (some e.asdict) challenge destination source now =
      policy.verify lib (some e) destination source (some challenge) now true := by
    unfold verifyMigrationChallenge
    simp only [AttestationEvidence.ofDict_asdict]
  rw [hrebuilt, verify_ok_iff hexternal]
  constructor
  · rintro ⟨-, authority, hauthority, htrusts, -⟩
    exact ⟨authority, hauthority, htrusts⟩
  · rintro ⟨authority, hauthority, htrusts⟩
    rw [hauthority] at hfound
    cases hfound
    exact ⟨hchecked, authority, hauthority, htrusts, checkSignature_ok_iff.1 (hsignature authority rfl)⟩

/-! ### A mirrored policy -/

def trustingLibrary : SignatureLibrary := ⟨.ok, fun _ => .ok "", fun _ => [], fun _ _ _ => true⟩

def mirroredPolicy (revoked : Bool) : AttestationPolicy := ⟨[⟨"key", "verifier", "public", 0, none, revoked⟩], [], none⟩

def challengeEvidence (keyId : String) : AttestationEvidence :=
  ⟨.str "verifier", .str "destination", .str "source", .str "measurement", .int 0, .int 100, .str "challenge", .dict [],
    .str "", .str keyId, .str "signature"⟩

/-- The destination accepts evidence under a key nobody knows, and under a revoked one; the source refuses both. -/
theorem mirrored_evidence_refused :
    (mirroredPolicy false).checkLocalMigrationEvidence trustingLibrary
      (challengeEvidence "other") "destination" "source"
        "challenge" 10 = .ok () ∧
      (mirroredPolicy false).verifyMigrationChallenge trustingLibrary
        (some (challengeEvidence "other").asdict) "challenge"
        "destination" "source" 10 = .error (.security "attestation verifier key is not trusted") ∧
    (mirroredPolicy true).checkLocalMigrationEvidence trustingLibrary (challengeEvidence "key") "destination" "source"
        "challenge" 10 = .ok () ∧
      (mirroredPolicy true).verifyMigrationChallenge trustingLibrary (some (challengeEvidence "key").asdict) "challenge"
        "destination" "source" 10 = .error (.security "attestation verifier key has been revoked") := by
  decide +kernel

theorem mirrored_evidence_accepted :
    (mirroredPolicy false).verifyMigrationChallenge trustingLibrary (some (challengeEvidence "key").asdict) "challenge"
      "destination" "source" 10 = .ok () :=
  (mirrored_evidence_accepted_iff trustingLibrary (mirroredPolicy false) rfl (challengeEvidence "key") "challenge"
    "destination" "source" 10 (by decide +kernel)).2
    ⟨⟨"key", "verifier", "public", 0, none, false⟩, by rfl, ⟨rfl, by decide, nofun, by decide +kernel⟩⟩

end Portmark.Security
