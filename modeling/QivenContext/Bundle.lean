import QivenContext.Transaction

/-!
# The read plane

The full read, view resolution, the recovery ladder and the context bundle.
The bundle parses the next boundary with `std::stoll`, which may throw.
-/

namespace QivenContext

/-! ## `std::stoll` -/

inductive StollError where
  | invalidArgument | outOfRange
  deriving DecidableEq, Inhabited

/-- `isspace` in the C locale. -/
def isSpace (c : UInt8) : Bool := c = 32 ∨ (9 ≤ c ∧ c ≤ 13)

def isDigit (c : UInt8) : Bool := 48 ≤ c ∧ c ≤ 57

def digitsValue (digits : Str) : ℕ :=
  digits.foldl (fun value digit => value * 10 + (digit.toNat - 48)) 0

/-- Leading blanks, an optional sign, then the longest run of digits. -/
def stoll (text : Str) : Except StollError Int64 :=
  let trimmed := text.dropWhile isSpace
  let negative := trimmed.head? = some 45
  let unsigned := if negative ∨ trimmed.head? = some 43 then trimmed.drop 1 else trimmed
  let digits := unsigned.takeWhile isDigit
  let value : ℤ := if negative then -(digitsValue digits : ℤ) else digitsValue digits
  if digits.isEmpty then .error .invalidArgument
  else if value < -2 ^ 63 ∨ 2 ^ 63 ≤ value then .error .outOfRange
  else .ok (Int64.ofInt value)

/-! ## Recovery and views -/

def recoveryFor (snapshot : Snapshot) (reason : RefusalReason) : RecoveryAction :=
  match snapshot.policy.recovery.find? fun rule => rule.reason = reason with
  | some rule => rule.action
  | none => .failClosed

inductive ResolveDiagnostic.Kind where
  | none | notFound | invalidRefs
  deriving DecidableEq, Inhabited

/-- The first view with the id decides. -/
def resolveView (handle : Materialization) (viewId : Str) :
    Option ViewSpec × ResolveDiagnostic.Kind :=
  match handle.state.views.find? fun view => view.id = viewId with
  | none => (none, .notFound)
  | some view =>
      if view.profileRefs.isEmpty then (none, .invalidRefs)
      else if ∃ ref ∈ view.profileRefs, findProfile handle.state ref = none then
        (none, .invalidRefs)
      else (some view, .none)

/-! ## The bundle -/

structure Query where
  taskScope : Str := []
  tokenBudget : UInt64 := 0
  deriving DecidableEq, Inhabited

/-- The bytes of the pinned snapshot; the query is not looked at yet. -/
def readFromCognition (handle : Materialization) (_query : Query) : Bytes :=
  serializeSnapshot handle.state

structure BundleCandidate where
  kind : Str := []
  id : Str := []
  summary : Str := []
  deriving DecidableEq, Inhabited

inductive ObligationEvaluation.Evaluation where
  | met | unknown | unmet
  deriving DecidableEq

structure ObligationEvaluation where
  id : Int64
  evaluation : ObligationEvaluation.Evaluation := .unknown
  deriving DecidableEq

structure BundleOmission where
  what : Str := []
  reason : Str := []
  deriving DecidableEq, Inhabited

structure ContextBundle where
  snapshot : RevisionId := {}
  mandatoryInputs : List Str := []
  protectedConstraints : List Str := []
  candidates : List BundleCandidate := []
  obligations : List ObligationEvaluation := []
  omissions : List BundleOmission := []
  deriving DecidableEq, Inhabited

/-- The floor of the next boundary, when there is one. -/
def boundaryFloor (snapshot : Snapshot) : Except StollError (List Str) :=
  if snapshot.state.nextBoundaryRef.isEmpty then .ok []
  else do
    let id ← stoll snapshot.state.nextBoundaryRef
    match findObligation snapshot id with
    | none => return []
    | some boundary =>
        return [lit "next boundary: obligation " ++ snapshot.state.nextBoundaryRef ++ lit ": " ++
          boundary.statement]

/-- The semantic floors, present regardless of any budget. -/
def mandatoryInputs (snapshot : Snapshot) : Except StollError (List Str) := do
  let boundary ← boundaryFloor snapshot
  return [lit "governance: " ++ snapshot.governance.rootPrincipal] ++
    snapshot.constitution.articles.map (fun article => lit "constitution: " ++ article) ++
    [lit "objective: " ++ snapshot.state.objective] ++ boundary ++
    (snapshot.conflicts.filter fun conflict => conflict.status = .isOpen).map (fun conflict =>
      lit "OPEN CONFLICT " ++ conflict.id ++ lit ": " ++ conflict.description) ++
    (snapshot.memory.filter fun record =>
      record.kind = .negativeKnowledge ∧ record.status = .active).map (fun record =>
      lit "negative knowledge: " ++ record.statement)

def protectedConstraints (policy : PolicyTable) : List Str :=
  (policy.handoff.flatMap fun row =>
    (if row.required = .h2Review then
      [lit "H2 review evidence is mandatory for this operation class"] else []) ++
    (if row.rootPrincipalOnly then [lit "root-principal governance class"] else [])) ++
  [lit "typed handoffs are never verbally waived (ADR-0036)",
    lit "unattended automation is read-only (ADR-0036)"]

/-- A candidate and the name it is omitted under. -/
structure Offer where
  candidate : BundleCandidate
  what : Str

def decisionOffer (decision : Decision) : Offer where
  candidate := {
    kind := lit "decision"
    id := toStringInt64 decision.id
    summary :=
      if decision.status = .accepted then lit "accepted: " ++ decision.title
      else lit "lifecycle: " ++ decision.title }
  what := lit "decision " ++ toStringInt64 decision.id

def memoryOffer (record : MemoryRecord) : Offer where
  candidate := { kind := lit "memory", id := record.title, summary := record.statement }
  what := lit "memory " ++ record.title

/-- All that competes for the budget, in order: decisions, then active memory
other than negative knowledge. -/
def offers (snapshot : Snapshot) : List Offer :=
  snapshot.decisions.map decisionOffer ++
    (snapshot.memory.filter fun record =>
      record.status = .active ∧ record.kind ≠ .negativeKnowledge).map memoryOffer

/-- The approximate token cost of a text, in `std::size_t`. -/
def estimate (text : Str) : UInt64 := (UInt64.ofNat text.length + 3) / 4

structure Selection where
  used : UInt64 := 0
  candidates : List BundleCandidate := []
  omissions : List BundleOmission := []

def Selection.offer (budget : UInt64) (selection : Selection) (offer : Offer) : Selection :=
  let cost := estimate offer.candidate.summary
  if selection.used + cost ≤ budget then
    { selection with
      used := selection.used + cost
      candidates := selection.candidates ++ [offer.candidate] }
  else
    { selection with
      omissions := selection.omissions ++ [{
        what := offer.what
        reason := lit "token budget; floors and constraints were never touched" }] }

/-- Obligations are three-valued. -/
def evaluateObligation (obligation : Obligation) : ObligationEvaluation where
  id := obligation.id
  evaluation :=
    match obligation.status with
    | .done | .cancelled | .superseded => .met
    | .isOpen | .deferred => .unknown
    | .blocked => .unmet

def buildBundle (handle : Materialization) (query : Query) : Except StollError ContextBundle := do
  let snapshot := handle.state
  let mandatoryInputs ← mandatoryInputs snapshot
  let budget := if query.tokenBudget = 0 then 512 else query.tokenBudget
  let selection := (offers snapshot).foldl (Selection.offer budget) {}
  return {
    snapshot := handle.revision
    mandatoryInputs
    protectedConstraints := protectedConstraints snapshot.policy
    candidates := selection.candidates
    obligations := snapshot.obligations.map evaluateObligation
    omissions := selection.omissions }

end QivenContext
