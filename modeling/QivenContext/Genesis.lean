import QivenContext.Cognition

/-!
# Genesis

The compiled seeds of a new chain: constitution, policy table, invocation
policy and the snapshot they make up.
-/

namespace QivenContext

/-- The compiled scar backlog as policy data. -/
def defaultInvocationPolicy : InvocationPolicy where
  present := true
  rules := [
    { action := .createCppSymbol, requirement := .mandatoryRecall, boundary := .beforeJudgment,
      subject := lit "naming policy" },
    { action := .introducePrimitive, requirement := .searchLowerLayer,
      boundary := .beforeJudgment, subject := lit "eligible lower layers" },
    { action := .invokeTool, requirement := .inspectToolContract, boundary := .beforeExecution,
      subject := lit "declared tool argv contract" },
    { action := .retryFailure, requirement := .inspectKnownPit, boundary := .beforeJudgment,
      subject := lit "failure fingerprint" },
    { action := .makeCanonicalClaim, requirement := .verifyCanonical,
      boundary := .beforeJudgment, subject := lit "canonical record" },
    { action := .makeLiveClaim, requirement := .verifyLive, boundary := .beforeJudgment,
      subject := lit "live source" },
    { action := .modifyReferencedContract, requirement := .mandatoryRecall,
      boundary := .beforeJudgment, subject := lit "reference integrity sweep (P-52)" },
    { action := .commit, requirement := .runMechanicalCheck, boundary := .beforeExecution,
      subject := lit "attribution subject-position lint (P-51)" },
    { action := .publish, requirement := .runMechanicalCheck, boundary := .beforeExecution,
      subject := lit "full default gate PASS receipt at exact head (P-53)" },
    { action := .publish, requirement := .requestReview, boundary := .beforeExecution,
      subject := lit "H2 exact-delta review" },
    { action := .acceptCandidate, requirement := .requestReview, boundary := .beforeExecution,
      subject := lit "content-bound H2 evidence" }]

def makeConstitution : Constitution where
  articles := [
    lit "Project cognition must outlive its participants",
    lit "Capture conservatively, canonicalize deliberately, retrieve selectively",
    lit "Evidence and interpretation are different",
    lit "History is not overwritten",
    lit "Session independence is mandatory",
    lit "Unfinished cognition is first-class",
    lit "Negative knowledge is first-class",
    lit "Epistemic types must not be collapsed",
    lit "Provenance is required",
    lit "Authority is question-scoped",
    lit "Conflict is transient epistemic state",
    lit "Governance authority is explicit",
    lit "Derived indexes are never canonical",
    lit "Private does not mean secret store",
    lit "Simplicity must be falsifiable, not assumed sufficient",
    lit "Retrieval reliability includes invocation as well as ranking",
    lit "Validation proves a candidate; it is not an apprenticeship loop",
    lit "Continuity is testable"]

def makeDefaultPolicy : PolicyTable where
  handoff := [
    ⟨.decisionAcceptance, .h2Review, false⟩,
    ⟨.memoryWrite, .hNone, false⟩,
    ⟨.obligationWrite, .hNone, false⟩,
    ⟨.stateUpdate, .hNone, false⟩,
    ⟨.conflictWrite, .hNone, false⟩,
    ⟨.evidenceWrite, .hNone, false⟩]
  recovery := [
    ⟨.staleBase, .rereadRethink⟩,
    ⟨.handoffMissing, .haltEscalate⟩,
    ⟨.handoffInvalid, .haltEscalate⟩,
    ⟨.unattendedMutation, .deferToSupervised⟩,
    ⟨.invariantFailed, .designReview⟩,
    ⟨.unverifiedActor, .haltEscalate⟩,
    ⟨.grantRefused, .failClosed⟩,
    ⟨.governanceDenied, .failClosed⟩,
    ⟨.storeDiverged, .failClosed⟩,
    ⟨.outcomeUnresolved, .block⟩,
    ⟨.keyConflict, .failClosed⟩,
    ⟨.conflictUnresolved, .failClosed⟩]

def makeGenesis : Snapshot where
  governance := { rootPrincipal := lit "github:JasonHuang3D" }
  constitution := makeConstitution
  policy := makeDefaultPolicy
  invocation := defaultInvocationPolicy
  state := {
    objective := lit "qiven-context continuity and kernel design"
    candidateRef := lit "not-created" }

end QivenContext
