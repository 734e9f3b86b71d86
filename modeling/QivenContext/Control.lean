import QivenContext.Cognition

/-!
# The control plane

Requirements derived from the invocation policy, pit recall, and the
preparation packet of an action. All of it reads the snapshot only.
-/

namespace QivenContext

/-- Identity of a failure for pit recall. -/
structure FailureFingerprint where
  operation : Str := []
  tool : Str := []
  category : Str := []
  stableMessage : Str := []
  exitCode : Int32 := 0
  affectedFiles : List Str := []
  deriving DecidableEq, Inhabited

/-- A proposed transition. -/
structure ActionIntent where
  kind : ActionKind := .beginTask
  claimClass : ClaimClass := .localRecall
  concepts : List Str := []
  files : List Str := []
  tool : Str := []
  operation : Str := []
  priorFailure : Option FailureFingerprint := none
  deriving DecidableEq, Inhabited

inductive CognitiveNeedKind where
  | recall | verifyCanonicalFact | verifyLiveFact | searchExistingImplementation
  | searchEvidence | calculate | simulate | requestReview | askHuman
  deriving DecidableEq, Inhabited

structure CognitiveNeed where
  kind : CognitiveNeedKind := .recall
  subject : Str := []
  scope : Str := []
  deriving DecidableEq, Inhabited

structure CognitiveRequirement where
  kind : RequirementKind := .mandatoryRecall
  subject : Str := []
  blocking : Bool := true
  deriving DecidableEq, Inhabited

inductive RequirementStatus where
  | pending | satisfied | failed
  deriving DecidableEq, Inhabited

structure PreparedRequirement where
  requirement : CognitiveRequirement := {}
  boundary : RequirementBoundary := .beforeJudgment
  status : RequirementStatus := .pending
  evidence : List Str := []
  deriving DecidableEq, Inhabited

inductive PreparationFailure where
  | none | invocationPolicyMissing | requiredRecallMissing
  deriving DecidableEq, Inhabited

structure PreparationPacket where
  intent : ActionIntent := {}
  discretionaryNeeds : List CognitiveNeed := []
  requirements : List PreparedRequirement := []
  mandatoryContext : List Str := []
  knownPits : List Str := []
  liveFacts : List Str := []
  failure : PreparationFailure := .none
  deriving DecidableEq, Inhabited

namespace PreparationPacket

def readyForJudgment (packet : PreparationPacket) : Bool :=
  packet.failure = .none ∧ ∀ prepared ∈ packet.requirements,
    ¬ (prepared.requirement.blocking ∧ prepared.boundary = .beforeJudgment ∧
      prepared.status ≠ .satisfied)

def readyForExecution (packet : PreparationPacket) : Bool :=
  packet.failure = .none ∧ ∀ prepared ∈ packet.requirements,
    ¬ (prepared.requirement.blocking ∧ prepared.status ≠ .satisfied)

end PreparationPacket

def deriveRequirements (snapshot : Snapshot) (intent : ActionIntent) :
    List PreparedRequirement :=
  (snapshot.invocation.rules.filter fun rule =>
    rule.action = intent.kind ∧ (rule.claimClass = none ∨ rule.claimClass = some intent.claimClass)
  ).map fun rule =>
    { requirement :=
        { kind := rule.requirement, subject := rule.subject, blocking := rule.blocking }
      boundary := rule.boundary }

/-- `title + ": " + text`. -/
def labelled (title text : Str) : Str := title ++ lit ": " ++ text

/-- A non-empty selector that occurs in the title or the statement. -/
def MemoryRecord.mentions (record : MemoryRecord) (selector : Str) : Bool :=
  ¬ selector.isEmpty ∧ (selector <:+: record.title ∨ selector <:+: record.statement)

def findRelatedRecords (snapshot : Snapshot) (fingerprint : FailureFingerprint) : List Str :=
  (snapshot.memory.filter fun record =>
    (record.kind = .risk ∨ record.kind = .lesson) ∧
      (record.mentions fingerprint.tool ∨ record.mentions fingerprint.category)
  ).map fun record => labelled record.title record.statement

/-- Append the requirement in its final status; a failed one fails the packet,
unless it has failed before. -/
def PreparationPacket.settle (packet : PreparationPacket) (prepared : PreparedRequirement) :
    PreparationPacket :=
  if ¬ prepared.evidence.isEmpty then
    { packet with
      requirements := packet.requirements ++ [{ prepared with status := .satisfied }] }
  else if prepared.requirement.blocking then
    { packet with
      requirements := packet.requirements ++ [{ prepared with status := .failed }]
      failure := if packet.failure = .none then .requiredRecallMissing else packet.failure }
  else { packet with requirements := packet.requirements ++ [prepared] }

/-- One round of the resolver loop. Recall resolves by exact key, a known pit
by the failure fingerprint; the other kinds stay pending. -/
def resolveRequirement (snapshot : Snapshot) (packet : PreparationPacket)
    (prepared : PreparedRequirement) : PreparationPacket :=
  match prepared.requirement.kind with
  | .mandatoryRecall =>
      let records : List MemoryRecord := snapshot.memory.filter fun record =>
        record.title = prepared.requirement.subject
      let profiles : List ProfileRecord := snapshot.profiles.filter fun profile =>
        profile.id = prepared.requirement.subject
      PreparationPacket.settle
        { packet with
          mandatoryContext := packet.mandatoryContext ++
            records.map (fun record => labelled record.title record.statement) ++
            profiles.map (fun profile => labelled profile.id profile.summary) }
        { prepared with
          evidence := prepared.evidence ++ records.map (fun record => record.title) ++
            profiles.map (fun profile => profile.id) }
  | .inspectKnownPit =>
      let entries := packet.intent.priorFailure.elim [] (findRelatedRecords snapshot)
      PreparationPacket.settle { packet with knownPits := packet.knownPits ++ entries }
        { prepared with evidence := prepared.evidence ++ entries }
  | _ => { packet with requirements := packet.requirements ++ [prepared] }

def buildPreparationPacket (snapshot : Snapshot) (intent : ActionIntent)
    (discretionaryNeeds : List CognitiveNeed) : PreparationPacket :=
  let packet : PreparationPacket := { intent, discretionaryNeeds }
  if ¬ snapshot.invocation.present then { packet with failure := .invocationPolicyMissing }
  else (deriveRequirements snapshot intent).foldl (resolveRequirement snapshot) packet

end QivenContext
