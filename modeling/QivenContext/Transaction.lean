import QivenContext.Serialize
import QivenContext.Foundation

/-!
# Materializations, grants and transactions

The values that cross the service boundary. A shared pointer is its pointee
with the address of the allocation; pointers are compared by address.
-/

namespace QivenContext

open Library

inductive QuarantineState where
  | isolated | verified | authorityPending | promoted
  deriving DecidableEq, Inhabited

/-- An immutable materialization, at the address it was allocated at. -/
structure Materialization where
  address : ℕ
  state : Snapshot
  digest : SnapshotDigest := {}
  revision : RevisionId := {}
  epoch : Epoch := 0
  quarantine : QuarantineState := .isolated
  deriving DecidableEq, Inhabited

/-- `std::shared_ptr<const Materialization>`. -/
abbrev CognitionHandle := Option Materialization

/-- Pointer equality with a live materialization. -/
def Materialization.isAt (materialization : Materialization) (handle : CognitionHandle) : Bool :=
  handle.any fun pointee => pointee.address = materialization.address

@[simp] theorem Materialization.isAt_none (materialization : Materialization) :
    materialization.isAt none = false := rfl

@[simp] theorem Materialization.isAt_some (materialization pointee : Materialization) :
    materialization.isAt (some pointee) = (pointee.address = materialization.address) := by
  simp [isAt]

inductive WorkMode where
  | supervisedForeground | unattended
  deriving DecidableEq, Inhabited

structure AuthenticatedActor where
  principal : PrincipalId := []
  role : Role := .worker
  binding : Str := []
  servingModel : Str := []
  reasoning : Str := []
  designation : Str := []
  deriving DecidableEq, Inhabited

/-- The lease; its members are private to the service in the source. -/
structure ExecutionGrant where
  id : GrantId
  epoch : Epoch := 0
  principal : PrincipalId := []
  mode : WorkMode := .supervisedForeground
  deriving DecidableEq, Inhabited

/-- `IIdentityVerifier`. -/
abbrev IdentityVerifier := AuthenticatedActor → Snapshot → Bool

/-- `RootPrincipalVerifier`, the draft port. -/
def rootPrincipalVerifier : IdentityVerifier := fun actor governanceSource =>
  !actor.principal.isEmpty && !actor.binding.isEmpty && !actor.servingModel.isEmpty &&
    actor.principal = governanceSource.governance.rootPrincipal

/-- Authorities come from the role registry only. -/
def effectiveAuthorities (snapshot : Snapshot) (actor : AuthenticatedActor) :
    List OperationClass :=
  match findRoleSpec snapshot actor.role with
  | none => []
  | some spec => if roleSpecValid spec then spec.authorities else []

/-! ## Transactions -/

inductive Operation.Kind where
  | appendDecision | supersedeDecision | addMemory | upsertObligation | closeObligation
  | transitionObligation | updateState | addEvidence | upsertProfile | openConflict
  | resolveConflict | amendViewSpec | setNextBoundary
  deriving DecidableEq

instance : Inhabited Operation.Kind := ⟨.addMemory⟩

instance : Enumerated Operation.Kind where
  values := [.appendDecision, .supersedeDecision, .addMemory, .upsertObligation,
    .closeObligation, .transitionObligation, .updateState, .addEvidence, .upsertProfile,
    .openConflict, .resolveConflict, .amendViewSpec, .setNextBoundary]
  nodup := by decide
  complete e := by cases e <;> decide
  small := by decide

structure Operation where
  kind : Operation.Kind := .addMemory
  recordId : Int64 := 0
  successorRecordId : Int64 := 0
  aux : UInt8 := 0
  scope : Str := []
  title : Str := []
  payload : Str := []
  provenanceRef : Str := []
  deriving DecidableEq, Inhabited

/-- Content-bound and authority-bound review evidence. -/
structure H2Evidence where
  reviewedDeltaDigest : ContentId := []
  reviewer : PrincipalId := []
  reviewerBinding : Str := []
  reviewRef : Str := []
  deriving DecidableEq, Inhabited

structure ContextTransaction where
  base : RevisionId := {}
  operations : List Operation := []
  handoffEvidenceRef : Str := []
  h2 : Option H2Evidence := none
  idempotencyKey : Str := []
  deriving DecidableEq, Inhabited

/-- The ordered fields of one operation, without framing. -/
def putOperation (operation : Operation) : Bytes :=
  putEnum operation.kind ++ putI64 operation.recordId ++ putI64 operation.successorRecordId ++
    putU8 operation.aux ++ putStr operation.scope ++ putStr operation.title ++
    putStr operation.payload ++ putStr operation.provenanceRef

def putH2Evidence (h2 : H2Evidence) : Bytes :=
  putStr h2.reviewedDeltaDigest ++ putStr h2.reviewer ++ putStr h2.reviewerBinding ++
    putStr h2.reviewRef

section Foundation

variable [Foundation]

/-- The exact delta an H2 review binds to. -/
def digestOperations (operations : List Operation) : ContentId :=
  draftContentId (operations.flatMap putOperation)

/-- Digest of the complete request: base, ordered operations, evidence. -/
def requestDigestOf (transaction : ContextTransaction) : Str :=
  draftContentId (putStr transaction.base.value ++
    putStr (digestOperations transaction.operations) ++
    putStr transaction.handoffEvidenceRef ++ putBool transaction.h2.isSome ++
    transaction.h2.elim [] putH2Evidence)

end Foundation

/-! ## Sources and verdicts -/

inductive CognitionSourceKind where
  | canonicalRemote | handoffArtifact | compressedStream
  deriving DecidableEq, Inhabited

structure CognitionSource where
  kind : CognitionSourceKind := .canonicalRemote
  revision : RevisionId := {}
  inlineBytes : Bytes := []
  expectedDigest : ContentId := []
  deriving DecidableEq, Inhabited

inductive Verdict.Outcome where
  | applied | refused | outcomeUnknown
  deriving DecidableEq, Inhabited

/-- The write gate's typed outcome. -/
structure Verdict where
  outcome : Verdict.Outcome := .refused
  reason : RefusalReason := .storeDiverged
  successor : CognitionHandle := none
  deriving DecidableEq, Inhabited

def Verdict.refuse (reason : RefusalReason) : Verdict where
  outcome := .refused
  reason := reason

end QivenContext
