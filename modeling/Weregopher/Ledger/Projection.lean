import Weregopher.Ledger.Directory

/-! # The policy projection of a ledger

What replay keeps of the events: the installed policy, both generations, the
revocations since the policy was installed, and every challenge seen so far.
-/
namespace Weregopher.LocalCertificationLedger
open Lib.Checked Lib.Outcome

structure LedgerProjection where
  policy : CertificationControlPolicy
  (runnerGeneration certificationGeneration : UInt64)
  runnerRevoked : Bool
  certificationRevoked : Bool
  freshnessChallenges : Finset Uuid

namespace LedgerProjection

def fromGenesis (genesis : Genesis) : LedgerProjection where
  policy := genesis.policy
  runnerGeneration := genesis.policy.runner.policyGeneration
  certificationGeneration := genesis.policy.policyGeneration
  runnerRevoked := false
  certificationRevoked := false
  freshnessChallenges := {genesis.attestation.freshness.challenge}

variable (projection : LedgerProjection)

def applyPublication (attestation : LocalCertificationRunAttestation) : Except LedgerError LedgerProjection :=
  if projection.runnerRevoked then .error .runnerPolicyRevoked
  else if projection.certificationRevoked then .error .certificationPolicyRevoked
  else if !projection.policy.acceptsAttestation attestation then .error .controlPolicyMismatch
  else if attestation.freshness.challenge ∈ projection.freshnessChallenges then
    .error .freshnessChallengeReplayed
  else
    .ok { projection with
      freshnessChallenges := insert attestation.freshness.challenge projection.freshnessChallenges }

def applyReplacement (policy : CertificationControlPolicy) : Except LedgerError LedgerProjection :=
  match checkedSucc projection.runnerGeneration, checkedSucc projection.certificationGeneration with
  | some expectedRunner, some expectedCertification =>
    if policy.runner.policyGeneration ≠ expectedRunner ∨ policy.policyGeneration ≠ expectedCertification then
      .error (.nonMonotonicPolicyGeneration expectedRunner policy.runner.policyGeneration expectedCertification
        policy.policyGeneration)
    else
      .ok { projection with
        policy
        runnerGeneration := policy.runner.policyGeneration
        certificationGeneration := policy.policyGeneration
        runnerRevoked := false
        certificationRevoked := false }
  | _, _ => .error .policyGenerationExhausted

def apply : Event → Except LedgerError LedgerProjection
  | .genesis _ => .error .unexpectedGenesis
  | .publication publication => projection.applyPublication publication.attestation
  | .policyReplacement replacement => projection.applyReplacement replacement.policy
  | .certificationRevocation _ =>
    match checkedSucc projection.certificationGeneration with
    | none => .error .policyGenerationExhausted
    | some certificationGeneration =>
      .ok { projection with certificationGeneration, certificationRevoked := true }
  | .runnerRevocation _ =>
    match checkedSucc projection.runnerGeneration with
    | none => .error .policyGenerationExhausted
    | some runnerGeneration => .ok { projection with runnerGeneration, runnerRevoked := true }

end LedgerProjection

def projectEvent (projection : Option LedgerProjection) (event : Event) : Except LedgerError LedgerProjection :=
  match projection, event with
  | none, .genesis genesis => .ok (.fromGenesis genesis)
  | none, _ => .error .missingGenesis
  | some existing, event => existing.apply event

theorem applyPublication_ok {projection next : LedgerProjection} {attestation : LocalCertificationRunAttestation} :
    projection.applyPublication attestation = .ok next ↔
      projection.runnerRevoked = false ∧ projection.certificationRevoked = false ∧
        projection.policy.acceptsAttestation attestation = true ∧
        attestation.freshness.challenge ∉ projection.freshnessChallenges ∧
        { projection with
          freshnessChallenges := insert attestation.freshness.challenge projection.freshnessChallenges } = next := by
  simp only [LedgerProjection.applyPublication, ite_error_ok, Except.ok.injEq, Bool.not_eq_true,
    Bool.not_eq_false']

end Weregopher.LocalCertificationLedger
