import QivenContext.Foundation
import QivenContext.Serialize

/-!
# The snapshot decoder

The source keeps the first error in the reader and lets every later read be
a no-op; a reader here stops at its first error, which is the same error.
The resource guard `max_serialized_records` is a parameter of the layout, so
that the layout can also be studied without it.
-/

namespace QivenContext

open Library

inductive DeserializeError.Kind where
  | truncated | badVersion | badEnum | resourceAbuse | digestMismatch
  deriving DecidableEq, Inhabited

structure DeserializeError where
  kind : DeserializeError.Kind := .truncated
  offset : ℕ := 0
  detail : Str := []
  deriving DecidableEq, Inhabited

variable [Foundation]

abbrev Reader (α : Type) := StateT Foundation.Cursor (Except DeserializeError) α

namespace Reader

/-- `need`, then `cursor.take`. -/
def take (count : ℕ) (what : Str) : Reader Bytes := fun cursor =>
  if Foundation.remaining cursor < count then .error { kind := .truncated, detail := what }
  else
    match Foundation.take cursor count with
    | some taken => .ok taken
    | none => .error { kind := .truncated, detail := what }

def fail {α : Type} (kind : DeserializeError.Kind) (what : Str) : Reader α := fun _ =>
  .error { kind := kind, detail := what }

def u8 (what : Str) : Reader UInt8 := do
  let bytes ← take 1 what
  return bytes.headD 0

def u32 (what : Str) : Reader UInt32 := do
  let bytes ← take 4 what
  return (Foundation.decodeLeU32 bytes).getD 0

def u64 (what : Str) : Reader UInt64 := do
  let bytes ← take 8 what
  return (Foundation.decodeLeU64 bytes).getD 0

def i64 (what : Str) : Reader Int64 := do
  let bits ← u64 what
  return bits.toInt64

def str (what : Str) : Reader Str := do
  let length ← u32 what
  take length.toNat (lit "string length exceeds input")

def bool (what : Str) : Reader Bool := do
  let raw ← u8 what
  return raw != 0

def enumValue (E : Type) [DecidableEq E] [Inhabited E] [Enumerated E] (what : Str)
    (maxValue : UInt8) : Reader E := do
  let raw ← u8 what
  if raw > maxValue then fail .badEnum what else return Enumerated.ofByte raw

def cappedCount (limit : UInt32) (what : Str) : Reader UInt32 := do
  let count ← u32 what
  if count > limit then fail .resourceAbuse what else return count

/-- A capped count, then that many items. -/
def vector {α : Type} (limit : UInt32) (what : Str) (item : Reader α) : Reader (List α) := do
  let count ← cappedCount limit what
  times item count.toNat

def stringVector (limit : UInt32) (what : Str) : Reader (List Str) :=
  vector limit what (str what)

/-! ## Records -/

def handoffPolicy : Reader HandoffPolicy := do
  let opClass ← enumValue OperationClass (lit "handoff op class") 5
  let required ← enumValue Handoff (lit "handoff required") 4
  let rootPrincipalOnly ← bool (lit "handoff rootPrincipalOnly")
  return { opClass, required, rootPrincipalOnly }

def recoveryRule : Reader RecoveryRule := do
  let reason ← enumValue RefusalReason (lit "recovery reason") 11
  let action ← enumValue RecoveryAction (lit "recovery action") 5
  return { reason, action }

def state : Reader StateView := do
  let objective ← str (lit "state.objective")
  let current ← str (lit "state.current")
  let checkpointRef ← str (lit "state.checkpointRef")
  let candidateRef ← str (lit "state.candidateRef")
  let nextBoundaryRef ← str (lit "state.nextBoundaryRef")
  let repositories ← str (lit "state.repositories")
  let roadmap ← str (lit "state.roadmap")
  return ⟨objective, current, checkpointRef, candidateRef, nextBoundaryRef, repositories, roadmap⟩

def source : Reader SourceType := do
  let kind ← enumValue SourceType.Kind (lit "prov kind") 5
  let reference ← str (lit "prov reference")
  let note ← str (lit "prov note")
  return { kind, reference, note }

def provenance (limit : UInt32) (what : Str) : Reader Provenance := do
  let sources ← vector limit what source
  return { sources }

def decision (limit : UInt32) : Reader Decision := do
  let id ← i64 (lit "decision id")
  let status ← enumValue Lifecycle (lit "decision status") 3
  let title ← str (lit "decision title")
  let content ← str (lit "decision content")
  let supersedes ← vector limit (lit "decision supersedes") (i64 (lit "superseded id"))
  let supersededBy ← vector limit (lit "decision supersededBy") (i64 (lit "supersededBy id"))
  let provenance ← provenance limit (lit "decision provenance")
  return { id, status, title, content, supersedes, supersededBy, provenance }

def memoryRecord (limit : UInt32) : Reader MemoryRecord := do
  let kind ← enumValue MemoryRecord.Kind (lit "memory kind") 5
  let status ← enumValue MemoryRecord.Status (lit "memory status") 1
  let title ← str (lit "memory title")
  let statement ← str (lit "memory statement")
  let provenance ← provenance limit (lit "memory provenance")
  return { kind, status, title, statement, provenance }

def obligation : Reader Obligation := do
  let status ← enumValue Obligation.Status (lit "obligation status") 5
  let trigger ← enumValue Obligation.TriggerKind (lit "obligation trigger") 5
  let id ← i64 (lit "obligation id")
  let statement ← str (lit "obligation statement")
  let completionCriteria ← str (lit "obligation completion")
  return { status, trigger, id, statement, completionCriteria }

def evidence : Reader EvidenceRecord := do
  let boundTo ← str (lit "evidence boundTo")
  let content ← str (lit "evidence content")
  return { boundTo, content }

def conflict : Reader Conflict := do
  let id ← str (lit "conflict id")
  let status ← enumValue Conflict.Status (lit "conflict status") 1
  let scope ← str (lit "conflict scope")
  let description ← str (lit "conflict description")
  let resolution ← str (lit "conflict resolution")
  return { id, status, scope, description, resolution }

def profile : Reader ProfileRecord := do
  let id ← str (lit "profile id")
  let kind ← str (lit "profile kind")
  let summary ← str (lit "profile summary")
  let layer ← enumValue WorkflowLayer (lit "profile layer") 3
  return { id, kind, summary, layer }

def view (limit : UInt32) : Reader ViewSpec := do
  let id ← str (lit "view id")
  let agent ← str (lit "view agent")
  let human ← str (lit "view human")
  let summary ← str (lit "view summary")
  let profileRefs ← stringVector limit (lit "view profile refs")
  return { id, agent, human, summary, profileRefs }

def claimClass : Reader (Option ClaimClass) := do
  let present ← bool (lit "rule claim present")
  if present then
    let value ← enumValue ClaimClass (lit "rule claim class") 4
    return some value
  else return none

/-- A rule; before version 8 it carried neither claim class nor boundary. -/
def invocationRule (version : UInt8) : Reader InvocationRule := do
  let action ← enumValue ActionKind (lit "rule action") 13
  if version ≥ 8 then
    let claimClass ← claimClass
    let requirement ← enumValue RequirementKind (lit "rule requirement") 8
    let boundary ← enumValue RequirementBoundary (lit "rule boundary") 1
    let subject ← str (lit "rule subject")
    let blocking ← bool (lit "rule blocking")
    return { action, claimClass, requirement, boundary, subject, blocking }
  else
    let requirement ← enumValue RequirementKind (lit "rule requirement") 8
    let subject ← str (lit "rule subject")
    let blocking ← bool (lit "rule blocking")
    return { action, requirement, subject, blocking }

/-- Version 8 carries the presence byte, version 7 derives presence from the
rules, version 6 has no invocation policy. -/
def invocation (limit : UInt32) (version : UInt8) : Reader InvocationPolicy := do
  if version ≥ 8 then
    let present ← bool (lit "invocation present")
    let rules ← vector limit (lit "invocation rules") (invocationRule version)
    return { present, rules }
  else if version ≥ 7 then
    let rules ← vector limit (lit "invocation rules") (invocationRule version)
    return { present := !rules.isEmpty, rules }
  else return {}

def role (limit : UInt32) : Reader RoleSpec := do
  let id ← enumValue Role (lit "role id") 2
  let authorities ← vector limit (lit "role authorities")
    (enumValue OperationClass (lit "role authority") 5)
  let duties ← stringVector limit (lit "role duties")
  let reviewGradeReasoning ← bool (lit "role floor reasoning")
  let execution ← enumValue CapabilityClass (lit "role floor execution") 2
  let identityPortVerified ← bool (lit "role floor identity")
  let provenance ← provenance limit (lit "role provenance")
  return ⟨id, authorities, duties, ⟨reviewGradeReasoning, execution, identityPortVerified⟩,
    provenance⟩

/-- The window of maintained formats. -/
def version : Reader UInt8 := do
  let version ← u8 (lit "serialization version")
  if version > serializationVersionLimit ∨ version < 6 then fail .badVersion (lit "version")
  else return version

/-- All that follows the version byte. -/
def body (limit : UInt32) (version : UInt8) : Reader Snapshot := do
  let rootPrincipal ← str (lit "root principal")
  let articles ← stringVector limit (lit "constitution articles")
  let handoff ← vector limit (lit "handoff policy rows") handoffPolicy
  let recovery ← vector limit (lit "recovery rows") recoveryRule
  let state ← state
  let decisions ← vector limit (lit "decision count") (decision limit)
  let memory ← vector limit (lit "memory count") (memoryRecord limit)
  let obligations ← vector limit (lit "obligation count") obligation
  let evidence ← vector limit (lit "evidence count") evidence
  let conflicts ← vector limit (lit "conflict count") conflict
  let profiles ← vector limit (lit "profile count") profile
  let views ← vector limit (lit "view count") (view limit)
  let invocation ← invocation limit version
  let roles ← vector limit (lit "role count") (role limit)
  return ⟨⟨rootPrincipal⟩, ⟨articles⟩, ⟨handoff, recovery⟩, invocation, state, decisions, memory,
    obligations, evidence, conflicts, profiles, views, roles⟩

def snapshot (limit : UInt32) : Reader Snapshot := do
  let version ← version
  body limit version

end Reader

/-! ## The layout over a boolean reader

The same layout with the reader of booleans and presence flags as a
parameter. With `bool` it is the layout above.
-/

namespace Reader

variable (flag : Str → Reader Bool)

def handoffPolicyWith : Reader HandoffPolicy := do
  let opClass ← enumValue OperationClass (lit "handoff op class") 5
  let required ← enumValue Handoff (lit "handoff required") 4
  let rootPrincipalOnly ← flag (lit "handoff rootPrincipalOnly")
  return { opClass, required, rootPrincipalOnly }

def claimClassWith : Reader (Option ClaimClass) := do
  let present ← flag (lit "rule claim present")
  if present then
    let value ← enumValue ClaimClass (lit "rule claim class") 4
    return some value
  else return none

def invocationRuleWith (version : UInt8) : Reader InvocationRule := do
  let action ← enumValue ActionKind (lit "rule action") 13
  if version ≥ 8 then
    let claimClass ← claimClassWith flag
    let requirement ← enumValue RequirementKind (lit "rule requirement") 8
    let boundary ← enumValue RequirementBoundary (lit "rule boundary") 1
    let subject ← str (lit "rule subject")
    let blocking ← flag (lit "rule blocking")
    return { action, claimClass, requirement, boundary, subject, blocking }
  else
    let requirement ← enumValue RequirementKind (lit "rule requirement") 8
    let subject ← str (lit "rule subject")
    let blocking ← flag (lit "rule blocking")
    return { action, requirement, subject, blocking }

def invocationWith (limit : UInt32) (version : UInt8) : Reader InvocationPolicy := do
  if version ≥ 8 then
    let present ← flag (lit "invocation present")
    let rules ← vector limit (lit "invocation rules") (invocationRuleWith flag version)
    return { present, rules }
  else if version ≥ 7 then
    let rules ← vector limit (lit "invocation rules") (invocationRuleWith flag version)
    return { present := !rules.isEmpty, rules }
  else return {}

def roleWith (limit : UInt32) : Reader RoleSpec := do
  let id ← enumValue Role (lit "role id") 2
  let authorities ← vector limit (lit "role authorities")
    (enumValue OperationClass (lit "role authority") 5)
  let duties ← stringVector limit (lit "role duties")
  let reviewGradeReasoning ← flag (lit "role floor reasoning")
  let execution ← enumValue CapabilityClass (lit "role floor execution") 2
  let identityPortVerified ← flag (lit "role floor identity")
  let provenance ← provenance limit (lit "role provenance")
  return ⟨id, authorities, duties, ⟨reviewGradeReasoning, execution, identityPortVerified⟩,
    provenance⟩

def bodyWith (limit : UInt32) (version : UInt8) : Reader Snapshot := do
  let rootPrincipal ← str (lit "root principal")
  let articles ← stringVector limit (lit "constitution articles")
  let handoff ← vector limit (lit "handoff policy rows") (handoffPolicyWith flag)
  let recovery ← vector limit (lit "recovery rows") recoveryRule
  let state ← state
  let decisions ← vector limit (lit "decision count") (decision limit)
  let memory ← vector limit (lit "memory count") (memoryRecord limit)
  let obligations ← vector limit (lit "obligation count") obligation
  let evidence ← vector limit (lit "evidence count") evidence
  let conflicts ← vector limit (lit "conflict count") conflict
  let profiles ← vector limit (lit "profile count") profile
  let views ← vector limit (lit "view count") (view limit)
  let invocation ← invocationWith flag limit version
  let roles ← vector limit (lit "role count") (roleWith flag limit)
  return ⟨⟨rootPrincipal⟩, ⟨articles⟩, ⟨handoff, recovery⟩, invocation, state, decisions, memory,
    obligations, evidence, conflicts, profiles, views, roles⟩

def snapshotWith (limit : UInt32) : Reader Snapshot := do
  let version ← version
  bodyWith flag limit version

theorem snapshotWith_bool (limit : UInt32) : snapshotWith bool limit = snapshot limit := rfl

end Reader

/-- The decoder under a given resource guard: one snapshot and nothing after it. -/
def deserializeWithin (limit : UInt32) (bytes : Bytes) : Except DeserializeError Snapshot :=
  match Reader.snapshot limit (Foundation.cursor bytes) with
  | .error error => .error error
  | .ok (snapshot, cursor) =>
      if Foundation.empty cursor then .ok snapshot
      else .error { kind := .truncated, detail := lit "trailing bytes after snapshot" }

/-- The decoder over a given reader of flags. -/
def deserializeWith (flag : Str → Reader Bool) (limit : UInt32) (bytes : Bytes) :
    Except DeserializeError Snapshot :=
  match Reader.snapshotWith flag limit (Foundation.cursor bytes) with
  | .error error => .error error
  | .ok (snapshot, cursor) =>
      if Foundation.empty cursor then .ok snapshot
      else .error { kind := .truncated, detail := lit "trailing bytes after snapshot" }

theorem deserializeWith_bool (limit : UInt32) :
    deserializeWith Reader.bool limit = deserializeWithin limit := rfl

/-- `deserializeImpl`. -/
def deserialize (bytes : Bytes) : Except DeserializeError Snapshot :=
  deserializeWithin maxSerializedRecords bytes

end QivenContext
