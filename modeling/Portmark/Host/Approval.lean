/-
Approval tokens: reading one from the agent's memory (`_approval_token` of host.py,
`verified_approval_token` of security.py) and `HostPolicy.verify_approval`.
-/
import Portmark.Host.Types

namespace Portmark.Host

open Lib Lib.Json Security

/-! ## Tokens from memory -/

/-- The fields of a token by type; `set(value) != expected` compares with all of them. -/
def approvalTokenStrFields : List String :=
  ["approval_id", "tool", "subject", "audience", "task_id", "permit_nonce", "arguments_hash", "policy_hash",
    "approved_by", "signature_key_id", "signature"]

def approvalTokenIntFields : List String := ["checkpoint_generation", "issued_at", "expires_at"]

/-- `verified_approval_token`. -/
def verifiedApprovalToken (value : Value) : Except Fault ApprovalToken :=
  let invalid : Except Fault ApprovalToken := .error (.security "approval token has invalid shape")
  match value with
  | .dict d =>
    let str := fun key => (Assoc.get? d key).bind Value.str?
    let int := fun key => match Assoc.get? d key with
      | some (.int n) => some n
      | _ => none
    if (Assoc.keys d).all (approvalTokenStrFields ++ approvalTokenIntFields).contains then
      match str "approval_id", str "tool", str "subject", str "audience", str "task_id", str "permit_nonce",
        int "checkpoint_generation", str "arguments_hash", str "policy_hash", str "approved_by", int "issued_at",
        int "expires_at", str "signature_key_id", str "signature" with
      | some approvalId, some tool, some subject, some audience, some taskId, some permitNonce,
        some checkpointGeneration, some argumentsHash, some policyHash, some approvedBy, some issuedAt,
        some expiresAt, some signatureKeyId, some signature =>
        .ok { approvalId, tool, subject, audience, taskId, permitNonce, checkpointGeneration, argumentsHash,
              policyHash, approvedBy, issuedAt, expiresAt, signatureKeyId, signature }
      | _, _, _, _, _, _, _, _, _, _, _, _, _, _ => invalid
    else invalid
  | _ => invalid

/-- `_approval_token`: the entry of the tool in `memory["approvals"]`, an object by tool or a list. -/
def approvalToken (memory : Value) (tool : String) : Except Fault (Option ApprovalToken) :=
  match memory with
  | .dict memory =>
    let value := match Assoc.get? memory "approvals" with
      | some (.dict approvals) => Assoc.get? approvals tool
      | some (.list approvals) => approvals.find? fun item =>
        match item with
        | .dict d => (Assoc.get? d "tool").any (Value.pyEqual · (.str tool))
        | _ => false
      | _ => none
    match value with
    | none => .ok none
    | some .null => .ok none
    | some value => some <$> verifiedApprovalToken value
  | _ => .error (.outside "AttributeError")

/-! ## `verify_approval` -/

/-- `verify_approval`, at the time `now`. -/
def AgentHost.verifyApproval (host : AgentHost) (policy : HostPolicy) (token : ApprovalToken) (permit : Permit)
    (taskId tool : String) (arguments : Value) (expectedGeneration now : Int) : Except Fault Unit := do
  match policy.approvalAuthority token.signatureKeyId with
  | none => .error (.security "approval signer is not trusted")
  | some authority => do
    require (!authority.revoked) "approval signer has been revoked"
    require (decide (authority.notBefore ≤ now)) "approval signer is not active yet"
    require (authority.expiresAt.all fun expiresAt => decide (now < expiresAt)) "approval signer has expired"
    require (token.approvedBy == authority.approver) "approval signer identity does not match key"
    require (token.tool == tool) "approval tool does not match request"
    require (token.subject == permit.subject) "approval subject does not match permit"
    require (token.audience == permit.audience) "approval audience does not match permit"
    require (token.taskId == taskId) "approval task does not match request"
    require (token.permitNonce == permit.nonce) "approval does not match permit nonce"
    require (decide (token.checkpointGeneration = expectedGeneration)) "approval does not match checkpoint generation"
    require (token.policyHash == policy.policyHash) "approval policy hash does not match active policy"
    let hash ← host.argumentsHash arguments
    require (token.argumentsHash == hash) "approval arguments do not match request"
    require (decide (token.issuedAt ≤ now)) "approval is not active yet"
    require (decide (now < token.expiresAt)) "approval has expired"
    let payload ← host.canonical token.unsignedDict
    require (host.verifySignature authority.publicKey payload token.signature) "approval signature is invalid"

structure Approves (host : AgentHost) (policy : HostPolicy) (token : ApprovalToken) (permit : Permit)
    (taskId tool : String) (arguments : Value) (generation now : Int) : Prop where
  tool : token.tool = tool
  subject : token.subject = permit.subject
  audience : token.audience = permit.audience
  taskId : token.taskId = taskId
  permitNonce : token.permitNonce = permit.nonce
  generation : token.checkpointGeneration = generation
  policyHash : token.policyHash = policy.policyHash
  argumentsHash : host.argumentsHash arguments = .ok token.argumentsHash
  issued : token.issuedAt ≤ now
  unexpired : now < token.expiresAt
  signed : ∃ authority payload, policy.approvalAuthority token.signatureKeyId = some authority ∧
    authority.revoked = false ∧ authority.notBefore ≤ now ∧ (authority.expiresAt.all (now < ·)) = true ∧
    token.approvedBy = authority.approver ∧ host.canonical token.unsignedDict = .ok payload ∧
    host.verifySignature authority.publicKey payload token.signature = true

theorem verifyApproval_ok {host : AgentHost} {policy : HostPolicy} {token : ApprovalToken} {permit : Permit}
    {taskId tool : String} {arguments : Value} {generation now : Int}
    (h : host.verifyApproval policy token permit taskId tool arguments generation now = .ok ()) :
    Approves host policy token permit taskId tool arguments generation now := by
  unfold AgentHost.verifyApproval at h
  split at h
  · cases h
  rename_i authority hauthority
  simp only [bind_ok_iff, require_ok_iff, exists_const, beq_iff_eq, decide_eq_true_eq, Bool.not_eq_true'] at h
  obtain ⟨hrevoked, hactive, hended, hby, htool, hsubject, haudience, htask, hnonce, hgeneration, hpolicy, hash, hhash,
    hargs, hissued, hexpires, payload, hpayload, hsigned⟩ := h
  exact ⟨htool, hsubject, haudience, htask, hnonce, hgeneration, hpolicy, hargs ▸ hhash, hissued, hexpires,
    authority, payload, hauthority, hrevoked, hactive, hended, hby, hpayload, hsigned⟩

end Portmark.Host
