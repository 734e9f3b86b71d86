import QivenContext.Cognition
import QivenContext.Library.Wire

/-!
# The snapshot encoder

Fixed field order, little-endian words, four-byte counts. A string or vector
of `2 ^ 32` elements or more gets its size reduced modulo `2 ^ 32`, as the
`static_cast` of the source does, while all its elements are written.
-/

namespace QivenContext

open Library

def serializationVersionLimit : UInt8 := 8

/-- The resource-abuse guard. -/
def maxSerializedRecords : UInt32 := 100000

/-! ## Writers -/

def putU8 (value : UInt8) : Bytes := [value]

def putU32 (value : UInt32) : Bytes :=
  ([0, 8, 16, 24] : List UInt32).map fun shift => ((value >>> shift) &&& 0xFF).toUInt8

def putU64 (value : UInt64) : Bytes :=
  ([0, 8, 16, 24, 32, 40, 48, 56] : List UInt64).map fun shift =>
    ((value >>> shift) &&& 0xFF).toUInt8

def putI64 (value : Int64) : Bytes := putU64 value.toUInt64

def putStr (value : Str) : Bytes := putU32 (UInt32.ofNat value.length) ++ value

def putBool (value : Bool) : Bytes := putU8 (if value then 1 else 0)

def putEnum {E : Type} [DecidableEq E] [Inhabited E] [Enumerated E] (value : E) : Bytes :=
  putU8 (Enumerated.toByte value)

/-- The size of a vector, then its elements. -/
def putVector {α : Type} (put : α → Bytes) (values : List α) : Bytes :=
  putU32 (UInt32.ofNat values.length) ++ values.flatMap put

/-! ## Records -/

def putHandoffPolicy (row : HandoffPolicy) : Bytes :=
  putEnum row.opClass ++ putEnum row.required ++ putBool row.rootPrincipalOnly

def putRecoveryRule (row : RecoveryRule) : Bytes :=
  putEnum row.reason ++ putEnum row.action

def putSource (source : SourceType) : Bytes :=
  putEnum source.kind ++ putStr source.reference ++ putStr source.note

def putProvenance (provenance : Provenance) : Bytes :=
  putVector putSource provenance.sources

def putState (state : StateView) : Bytes :=
  putStr state.objective ++ putStr state.current ++ putStr state.checkpointRef ++
    putStr state.candidateRef ++ putStr state.nextBoundaryRef ++ putStr state.repositories ++
    putStr state.roadmap

def putDecision (decision : Decision) : Bytes :=
  putI64 decision.id ++ putEnum decision.status ++ putStr decision.title ++
    putStr decision.content ++ putVector putI64 decision.supersedes ++
    putVector putI64 decision.supersededBy ++ putProvenance decision.provenance

/-- `epistemic` is not written. -/
def putMemoryRecord (record : MemoryRecord) : Bytes :=
  putEnum record.kind ++ putEnum record.status ++ putStr record.title ++
    putStr record.statement ++ putProvenance record.provenance

/-- `triggerValue` is not written. -/
def putObligation (obligation : Obligation) : Bytes :=
  putEnum obligation.status ++ putEnum obligation.trigger ++ putI64 obligation.id ++
    putStr obligation.statement ++ putStr obligation.completionCriteria

def putEvidence (evidence : EvidenceRecord) : Bytes :=
  putStr evidence.boundTo ++ putStr evidence.content

def putConflict (conflict : Conflict) : Bytes :=
  putStr conflict.id ++ putEnum conflict.status ++ putStr conflict.scope ++
    putStr conflict.description ++ putStr conflict.resolution

def putProfile (profile : ProfileRecord) : Bytes :=
  putStr profile.id ++ putStr profile.kind ++ putStr profile.summary ++ putEnum profile.layer

def putView (view : ViewSpec) : Bytes :=
  putStr view.id ++ putStr view.agent ++ putStr view.human ++ putStr view.summary ++
    putVector putStr view.profileRefs

/-- A presence byte, then the claim class when there is one. -/
def putClaimClass (claimClass : Option ClaimClass) : Bytes :=
  putBool claimClass.isSome ++ claimClass.elim [] putEnum

def putInvocationRule (rule : InvocationRule) : Bytes :=
  putEnum rule.action ++ putClaimClass rule.claimClass ++ putEnum rule.requirement ++
    putEnum rule.boundary ++ putStr rule.subject ++ putBool rule.blocking

def putRole (role : RoleSpec) : Bytes :=
  putEnum role.id ++ putVector putEnum role.authorities ++ putVector putStr role.duties ++
    putBool role.floor.reviewGradeReasoning ++ putEnum role.floor.execution ++
    putBool role.floor.identityPortVerified ++ putProvenance role.provenance

/-- `serializeImpl`, exported as `serialize_snapshot`. -/
def serializeSnapshot (snapshot : Snapshot) : Bytes :=
  putU8 serializationVersionLimit ++
    putStr snapshot.governance.rootPrincipal ++
    putVector putStr snapshot.constitution.articles ++
    putVector putHandoffPolicy snapshot.policy.handoff ++
    putVector putRecoveryRule snapshot.policy.recovery ++
    putState snapshot.state ++
    putVector putDecision snapshot.decisions ++
    putVector putMemoryRecord snapshot.memory ++
    putVector putObligation snapshot.obligations ++
    putVector putEvidence snapshot.evidence ++
    putVector putConflict snapshot.conflicts ++
    putVector putProfile snapshot.profiles ++
    putVector putView snapshot.views ++
    putBool snapshot.invocation.present ++
    putVector putInvocationRule snapshot.invocation.rules ++
    putVector putRole snapshot.roles

end QivenContext
