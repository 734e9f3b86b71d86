import QivenContext.Library.Enumeration
import QivenContext.Text

/-!
# The snapshot value tree

The records of `cognition.hpp`: enumerations in declaration order, records
with the defaults of their members, and the snapshot they make up. An
enumeration the format writes has its byte representation as an instance.
-/

namespace QivenContext

open Library

/-! ## Identities -/

abbrev PrincipalId := Str

abbrev ContentId := Str

/-- The runtime fencing token. -/
abbrev Epoch := UInt64

/-- Integrity identity of the canonical snapshot bytes. -/
structure SnapshotDigest where
  value : Str := []
  deriving DecidableEq, Inhabited

/-- Storage history identity. -/
structure RevisionId where
  value : Str := []
  deriving DecidableEq, Inhabited

/-- Runtime authority capability. -/
structure GrantId where
  value : Str := []
  deriving DecidableEq, Inhabited

def RevisionId.isEmpty (r : RevisionId) : Bool := r.value.isEmpty

theorem RevisionId.isEmpty_iff {revision : RevisionId} :
    revision.isEmpty = true ↔ revision = {} := by
  obtain ⟨value⟩ := revision
  simp [RevisionId.isEmpty]

def GrantId.isEmpty (g : GrantId) : Bool := g.value.isEmpty

theorem GrantId.isEmpty_iff {grant : GrantId} : grant.isEmpty = true ↔ grant = {} := by
  obtain ⟨value⟩ := grant
  simp [GrantId.isEmpty]

/-! ## Enumerations -/

inductive Lifecycle where
  | proposed | accepted | superseded | rejected
  deriving DecidableEq, Inhabited

instance : Enumerated Lifecycle where
  values := [.proposed, .accepted, .superseded, .rejected]
  nodup := by decide
  complete e := by cases e <;> decide
  small := by decide

inductive EpistemicType where
  | observation | hypothesis | candidate | accepted | verified | rejected
  deriving DecidableEq, Inhabited

inductive Role where
  | owner | brother | worker
  deriving DecidableEq, Inhabited

instance : Enumerated Role where
  values := [.owner, .brother, .worker]
  nodup := by decide
  complete e := by cases e <;> decide
  small := by decide

inductive CapabilityClass where
  | none | localSupervised | hostBrokered
  deriving DecidableEq, Inhabited

instance : Enumerated CapabilityClass where
  values := [.none, .localSupervised, .hostBrokered]
  nodup := by decide
  complete e := by cases e <;> decide
  small := by decide

inductive WorkflowLayer where
  | canonicalLaw | capabilityProcedure | roleChoreography | environmentErgonomics
  deriving DecidableEq, Inhabited

instance : Enumerated WorkflowLayer where
  values := [.canonicalLaw, .capabilityProcedure, .roleChoreography, .environmentErgonomics]
  nodup := by decide
  complete e := by cases e <;> decide
  small := by decide

inductive Handoff where
  | hNone | h1Execution | h2Review | h3Authority | h4RecoveryPresence
  deriving DecidableEq, Inhabited

instance : Enumerated Handoff where
  values := [.hNone, .h1Execution, .h2Review, .h3Authority, .h4RecoveryPresence]
  nodup := by decide
  complete e := by cases e <;> decide
  small := by decide

inductive SourceType.Kind where
  | userStatement | chatSession | gitCommit | audit | repositoryFile | ciRun
  deriving DecidableEq, Inhabited

instance : Enumerated SourceType.Kind where
  values := [.userStatement, .chatSession, .gitCommit, .audit, .repositoryFile, .ciRun]
  nodup := by decide
  complete e := by cases e <;> decide
  small := by decide

inductive RefusalReason where
  | grantRefused | unverifiedActor | staleBase | handoffMissing | handoffInvalid
  | unattendedMutation | invariantFailed | governanceDenied | storeDiverged
  | outcomeUnresolved | keyConflict | conflictUnresolved
  deriving DecidableEq, Inhabited

instance : Enumerated RefusalReason where
  values := [.grantRefused, .unverifiedActor, .staleBase, .handoffMissing, .handoffInvalid,
    .unattendedMutation, .invariantFailed, .governanceDenied, .storeDiverged,
    .outcomeUnresolved, .keyConflict, .conflictUnresolved]
  nodup := by decide
  complete e := by cases e <;> decide
  small := by decide

inductive RecoveryAction where
  | rereadRethink | haltEscalate | deferToSupervised | designReview | failClosed | block
  deriving DecidableEq, Inhabited

instance : Enumerated RecoveryAction where
  values := [.rereadRethink, .haltEscalate, .deferToSupervised, .designReview, .failClosed,
    .block]
  nodup := by decide
  complete e := by cases e <;> decide
  small := by decide

inductive OperationClass where
  | decisionAcceptance | memoryWrite | obligationWrite | stateUpdate | conflictWrite
  | evidenceWrite
  deriving DecidableEq, Inhabited

instance : Enumerated OperationClass where
  values := [.decisionAcceptance, .memoryWrite, .obligationWrite, .stateUpdate, .conflictWrite,
    .evidenceWrite]
  nodup := by decide
  complete e := by cases e <;> decide
  small := by decide

inductive Conflict.Status where
  | isOpen | resolved
  deriving DecidableEq, Inhabited

instance : Enumerated Conflict.Status where
  values := [.isOpen, .resolved]
  nodup := by decide
  complete e := by cases e <;> decide
  small := by decide

inductive ClaimClass where
  | localRecall | canonicalFact | liveFact | evidenceInterpretation | judgment
  deriving DecidableEq, Inhabited

instance : Enumerated ClaimClass where
  values := [.localRecall, .canonicalFact, .liveFact, .evidenceInterpretation, .judgment]
  nodup := by decide
  complete e := by cases e <;> decide
  small := by decide

inductive ActionKind where
  | beginTask | enterDomain | createCppSymbol | introducePrimitive | modifyArchitecture
  | modifyPublicAPI | invokeTool | retryFailure | makeCanonicalClaim | makeLiveClaim
  | modifyReferencedContract | commit | publish | acceptCandidate
  deriving DecidableEq, Inhabited

instance : Enumerated ActionKind where
  values := [.beginTask, .enterDomain, .createCppSymbol, .introducePrimitive,
    .modifyArchitecture, .modifyPublicAPI, .invokeTool, .retryFailure, .makeCanonicalClaim,
    .makeLiveClaim, .modifyReferencedContract, .commit, .publish, .acceptCandidate]
  nodup := by decide
  complete e := by cases e <;> decide
  small := by decide

inductive RequirementKind where
  | mandatoryRecall | searchLowerLayer | verifyCanonical | verifyLive | inspectToolContract
  | inspectKnownPit | runMechanicalCheck | requestReview | askHuman
  deriving DecidableEq, Inhabited

instance : Enumerated RequirementKind where
  values := [.mandatoryRecall, .searchLowerLayer, .verifyCanonical, .verifyLive,
    .inspectToolContract, .inspectKnownPit, .runMechanicalCheck, .requestReview, .askHuman]
  nodup := by decide
  complete e := by cases e <;> decide
  small := by decide

inductive RequirementBoundary where
  | beforeJudgment | beforeExecution
  deriving DecidableEq, Inhabited

instance : Enumerated RequirementBoundary where
  values := [.beforeJudgment, .beforeExecution]
  nodup := by decide
  complete e := by cases e <;> decide
  small := by decide

inductive MemoryRecord.Kind where
  | fact | lesson | protocol | risk | invariant | negativeKnowledge
  deriving DecidableEq, Inhabited

instance : Enumerated MemoryRecord.Kind where
  values := [.fact, .lesson, .protocol, .risk, .invariant, .negativeKnowledge]
  nodup := by decide
  complete e := by cases e <;> decide
  small := by decide

inductive MemoryRecord.Status where
  | active | superseded
  deriving DecidableEq, Inhabited

instance : Enumerated MemoryRecord.Status where
  values := [.active, .superseded]
  nodup := by decide
  complete e := by cases e <;> decide
  small := by decide

inductive Obligation.Status where
  | isOpen | deferred | blocked | done | cancelled | superseded
  deriving DecidableEq, Inhabited

instance : Enumerated Obligation.Status where
  values := [.isOpen, .deferred, .blocked, .done, .cancelled, .superseded]
  nodup := by decide
  complete e := by cases e <;> decide
  small := by decide

inductive Obligation.TriggerKind where
  | onTouch | before | after | onChange | onDate | manual
  deriving DecidableEq, Inhabited

instance : Enumerated Obligation.TriggerKind where
  values := [.onTouch, .before, .after, .onChange, .onDate, .manual]
  nodup := by decide
  complete e := by cases e <;> decide
  small := by decide

/-! ## Governance and policy -/

structure SourceType where
  kind : SourceType.Kind := .userStatement
  reference : Str := []
  note : Str := []
  deriving DecidableEq, Inhabited

structure Provenance where
  sources : List SourceType := []
  deriving DecidableEq, Inhabited

structure Governance where
  rootPrincipal : PrincipalId := []
  deriving DecidableEq, Inhabited

structure Constitution where
  articles : List Str := []
  deriving DecidableEq, Inhabited

structure HandoffPolicy where
  opClass : OperationClass
  required : Handoff := .h2Review
  rootPrincipalOnly : Bool
  deriving DecidableEq, Inhabited

structure RecoveryRule where
  reason : RefusalReason
  action : RecoveryAction
  deriving DecidableEq, Inhabited

structure PolicyTable where
  handoff : List HandoffPolicy := []
  recovery : List RecoveryRule := []
  deriving DecidableEq, Inhabited

structure InvocationRule where
  action : ActionKind := .beginTask
  claimClass : Option ClaimClass := none
  requirement : RequirementKind := .mandatoryRecall
  boundary : RequirementBoundary := .beforeJudgment
  subject : Str := []
  blocking : Bool := true
  deriving DecidableEq, Inhabited

structure InvocationPolicy where
  present : Bool := false
  rules : List InvocationRule := []
  deriving DecidableEq, Inhabited

structure CapabilityRequirements where
  reviewGradeReasoning : Bool := false
  execution : CapabilityClass := .none
  identityPortVerified : Bool := false
  deriving DecidableEq, Inhabited

structure RoleSpec where
  id : Role := .worker
  authorities : List OperationClass := []
  duties : List Str := []
  floor : CapabilityRequirements := {}
  provenance : Provenance := {}
  deriving DecidableEq, Inhabited

/-! ## Records -/

structure Decision where
  id : Int64 := 0
  status : Lifecycle := .proposed
  title : Str := []
  content : Str := []
  supersedes : List Int64 := []
  supersededBy : List Int64 := []
  provenance : Provenance := {}
  deriving DecidableEq, Inhabited

structure MemoryRecord where
  kind : MemoryRecord.Kind := .fact
  epistemic : EpistemicType := .observation
  status : MemoryRecord.Status := .active
  title : Str := []
  statement : Str := []
  provenance : Provenance := {}
  deriving DecidableEq, Inhabited

structure Obligation where
  status : Obligation.Status := .isOpen
  trigger : Obligation.TriggerKind := .manual
  triggerValue : Str := []
  id : Int64 := 0
  statement : Str := []
  completionCriteria : Str := []
  deriving DecidableEq, Inhabited

structure EvidenceRecord where
  boundTo : ContentId := []
  content : Str := []
  deriving DecidableEq, Inhabited

structure Conflict where
  id : ContentId := []
  status : Conflict.Status := .isOpen
  scope : Str := []
  description : Str := []
  resolution : Str := []
  deriving DecidableEq, Inhabited

structure StateView where
  objective : Str := []
  current : Str := []
  checkpointRef : ContentId := []
  candidateRef : Str := []
  nextBoundaryRef : Str := []
  repositories : Str := []
  roadmap : Str := []
  deriving DecidableEq, Inhabited

structure ProfileRecord where
  id : ContentId := []
  kind : Str := []
  summary : Str := []
  layer : WorkflowLayer := .environmentErgonomics
  deriving DecidableEq, Inhabited

structure ViewSpec where
  id : ContentId := []
  agent : Str := []
  human : Str := []
  summary : Str := []
  profileRefs : List Str := []
  deriving DecidableEq, Inhabited

/-- The pure value tree. -/
structure Snapshot where
  governance : Governance := {}
  constitution : Constitution := {}
  policy : PolicyTable := {}
  invocation : InvocationPolicy := {}
  state : StateView := {}
  decisions : List Decision := []
  memory : List MemoryRecord := []
  obligations : List Obligation := []
  evidence : List EvidenceRecord := []
  conflicts : List Conflict := []
  profiles : List ProfileRecord := []
  views : List ViewSpec := []
  roles : List RoleSpec := []
  deriving DecidableEq, Inhabited

/-! ## Lookups -/

/-- The first decision with the id. -/
def findDecision (snapshot : Snapshot) (id : Int64) : Option Decision :=
  snapshot.decisions.find? fun decision => decision.id = id

def findObligation (snapshot : Snapshot) (id : Int64) : Option Obligation :=
  snapshot.obligations.find? fun obligation => obligation.id = id

def findConflict (snapshot : Snapshot) (id : Str) : Option Conflict :=
  snapshot.conflicts.find? fun conflict => conflict.id = id

def findProfile (snapshot : Snapshot) (id : Str) : Option ProfileRecord :=
  snapshot.profiles.find? fun profile => profile.id = id

def findRoleSpec (snapshot : Snapshot) (role : Role) : Option RoleSpec :=
  snapshot.roles.find? fun spec => spec.id = role

/-- A role specification counts only with ratification provenance and duties. -/
def roleSpecValid (spec : RoleSpec) : Bool :=
  !spec.provenance.sources.isEmpty && !spec.duties.isEmpty

end QivenContext
