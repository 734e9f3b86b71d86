import QivenContext.Transaction

/-!
# The gates and the successor

Gates 6 to 9 of the gated write and the application of a transaction. Every
gate looks at one operation and at the snapshot before the transaction; the
operations are then applied to the evolving successor.
-/

namespace QivenContext

open Library

/-- Why a gate stops a write: a typed refusal, or a call that never returns. -/
inductive Halt where
  | refuse (reason : RefusalReason)
  | crash
  deriving DecidableEq

abbrev Gate := Except Halt Unit

/-- Refuse with the reason under the condition, pass otherwise. -/
def refuseIf (reason : RefusalReason) (condition : Prop) [Decidable condition] : Gate :=
  if condition then .error (.refuse reason) else .ok ()

@[simp] theorem refuseIf_eq_ok {reason : RefusalReason} {condition : Prop}
    [Decidable condition] : refuseIf reason condition = .ok () ↔ ¬ condition := by
  unfold refuseIf
  split <;> simp_all

theorem except_bind_eq_ok {ε α β : Type} {x : Except ε α} {f : α → Except ε β} {b : β} :
    x >>= f = .ok b ↔ ∃ a, x = .ok a ∧ f a = .ok b := by
  cases x <;> simp [bind, Except.bind]

theorem gate_bind_eq_ok {α : Type} {gate : Gate} {next : Unit → Except Halt α} {a : α} :
    gate >>= next = .ok a ↔ gate = .ok () ∧ next () = .ok a := by
  rw [except_bind_eq_ok]
  exact ⟨fun ⟨_, h⟩ => h, fun h => ⟨(), h⟩⟩

theorem forM_gate_eq_ok {gate : Operation → Gate} {operations : List Operation} :
    forM operations gate = .ok () ↔ ∀ operation ∈ operations, gate operation = .ok () := by
  induction operations with
  | nil => simp [pure, Except.pure]
  | cons operation rest ih =>
      simp only [List.forM_cons, gate_bind_eq_ok, ih, List.mem_cons, forall_eq_or_imp]

theorem except_bind_eq_error {α β : Type} {x : Except Halt α} {f : α → Except Halt β}
    {halt : Halt} :
    x >>= f = .error halt ↔ x = .error halt ∨ ∃ a, x = .ok a ∧ f a = .error halt := by
  cases x <;> simp [bind, Except.bind]

theorem bind_ne {α β : Type} {x : Except Halt α} {f : α → Except Halt β} {halt : Halt}
    (hx : x ≠ .error halt) (hf : ∀ a, x = .ok a → f a ≠ .error halt) :
    x >>= f ≠ .error halt := by
  intro h
  rcases except_bind_eq_error.mp h with hfirst | ⟨a, hok, hthen⟩
  · exact hx hfirst
  · exact hf a hok hthen

theorem refuseIf_ne {reason : RefusalReason} {halt : Halt} {condition : Prop}
    [Decidable condition] (h : halt ≠ .refuse reason) :
    refuseIf reason condition ≠ .error halt := by
  unfold refuseIf
  split <;> simp [h.symm]

/-- A check before the rest of a gate. -/
theorem check_ne {α : Type} {reason : RefusalReason} {halt : Halt} {condition : Prop}
    [Decidable condition] {next : Unit → Except Halt α} (h : halt ≠ .refuse reason)
    (hnext : next () ≠ .error halt) : refuseIf reason condition >>= next ≠ .error halt :=
  bind_ne (refuseIf_ne h) fun _ _ => hnext

theorem forM_gate_ne {gate : Operation → Gate} {operations : List Operation} {halt : Halt}
    (h : ∀ operation, gate operation ≠ .error halt) : forM operations gate ≠ .error halt := by
  induction operations with
  | nil => simp [pure, Except.pure]
  | cons operation rest ih =>
      rw [List.forM_cons]
      exact bind_ne (h operation) fun _ _ => ih

/-! ## Gates 6 to 7.5: the policy table, H2 evidence and open conflicts -/

def opClassOf : Operation.Kind → OperationClass
  | .appendDecision | .supersedeDecision => .decisionAcceptance
  | .addMemory => .memoryWrite
  | .upsertObligation | .closeObligation | .transitionObligation => .obligationWrite
  | .updateState | .setNextBoundary => .stateUpdate
  | .openConflict | .resolveConflict => .conflictWrite
  | .addEvidence | .upsertProfile | .amendViewSpec => .evidenceWrite

section Foundation

variable [Foundation]

/-- Every branch refuses: there is no waiver path. -/
def h2Gate (rootPrincipal : PrincipalId) (actorBinding : Str) (transaction : ContextTransaction) :
    Gate :=
  match transaction.h2 with
  | none => .error (.refuse .handoffMissing)
  | some h2 => do
      refuseIf .handoffMissing (h2.reviewer.isEmpty ∨ h2.reviewerBinding.isEmpty ∨
        h2.reviewRef.isEmpty ∨ transaction.handoffEvidenceRef.isEmpty)
      refuseIf .handoffInvalid (h2.reviewerBinding = actorBinding)
      refuseIf .handoffInvalid (h2.reviewer ≠ rootPrincipal)
      refuseIf .handoffInvalid
        (h2.reviewedDeltaDigest ≠ digestOperations transaction.operations)

def policyGate (current : Snapshot) (rootPrincipal : PrincipalId) (actorBinding : Str)
    (transaction : ContextTransaction) (operation : Operation) : Gate :=
  match current.policy.handoff.find? fun row => row.opClass = opClassOf operation.kind with
  | none => .error (.refuse .governanceDenied)
  | some row =>
      if row.required = .h2Review then h2Gate rootPrincipal actorBinding transaction else .ok ()

theorem policyGate_ne {current : Snapshot} {rootPrincipal : PrincipalId} {actorBinding : Str}
    {transaction : ContextTransaction} {operation : Operation} {halt : Halt}
    (hmissing : halt ≠ .refuse .handoffMissing) (hinvalid : halt ≠ .refuse .handoffInvalid)
    (hdenied : halt ≠ .refuse .governanceDenied) :
    policyGate current rootPrincipal actorBinding transaction operation ≠ .error halt := by
  unfold policyGate
  split
  · simp [hdenied.symm]
  · split
    · unfold h2Gate
      split
      · simp [hmissing.symm]
      · exact check_ne hmissing (check_ne hinvalid (check_ne hinvalid (refuseIf_ne hinvalid)))
    · simp

end Foundation

def conflictGate (current : Snapshot) (operation : Operation) : Gate :=
  if operation.kind = .openConflict ∨ operation.kind = .resolveConflict then .ok ()
  else refuseIf .conflictUnresolved (∃ conflict ∈ current.conflicts, conflict.status = .isOpen ∧
    (conflict.scope.isEmpty ∨ conflict.scope = operation.scope))

/-! ## Gate 8: invariants -/

/-- The depth-first walk along `supersedes`. It has no memory of where it has
been; the answer is `none` when the depth runs out. -/
def reachesDecision (snapshot : Snapshot) (target : Int64) : ℕ → Decision → Option Bool
  | 0, _ => none
  | depth + 1, start =>
      if start.id = target then some true
      else start.supersedes.anyM fun id =>
        match findDecision snapshot id with
        | none => some false
        | some prior => reachesDecision snapshot target depth prior

def appendDecisionGate (current : Snapshot) (operation : Operation) : Gate := do
  refuseIf .invariantFailed
    (operation.recordId ≤ 0 ∨ operation.title.isEmpty ∨ operation.payload.isEmpty)
  refuseIf .invariantFailed (∃ existing ∈ current.decisions, existing.id = operation.recordId)

/-- Both records are found by id in one table, so the pointers the source
compares are equal exactly when the ids are. A walk deeper than the table
has come back to where it was, and never returns. -/
def supersedeDecisionGate (current : Snapshot) (operation : Operation) : Gate :=
  match findDecision current operation.recordId,
    findDecision current operation.successorRecordId with
  | some superseded, some successor => do
      refuseIf .invariantFailed (operation.recordId = operation.successorRecordId ∨
        superseded.status ≠ .accepted ∨ successor.status ≠ .accepted)
      match reachesDecision current operation.recordId current.decisions.length successor with
      | none => .error .crash
      | some reached => do
          refuseIf .invariantFailed (reached = true)
          refuseIf .invariantFailed (operation.payload.isEmpty = true)
  | _, _ => .error (.refuse .invariantFailed)

def addMemoryGate (operation : Operation) : Gate :=
  refuseIf .invariantFailed
    (operation.payload.isEmpty ∨ operation.provenanceRef.isEmpty ∨ operation.aux > 5)

def upsertObligationGate (operation : Operation) : Gate :=
  refuseIf .invariantFailed (operation.recordId ≤ 0 ∨ operation.payload.isEmpty)

def closeObligationGate (current : Snapshot) (operation : Operation) : Gate :=
  refuseIf .invariantFailed (¬ ∃ obligation ∈ current.obligations,
    obligation.id = operation.recordId ∧ obligation.status = .isOpen)

def transitionObligationGate (current : Snapshot) (operation : Operation) : Gate := do
  refuseIf .invariantFailed
    (¬ (findObligation current operation.recordId).any (fun obligation =>
      obligation.status = .isOpen) ∨ operation.payload.isEmpty ∨ operation.aux > 5)
  refuseIf .invariantFailed (operation.aux = 0 ∨ operation.aux = 2)
  refuseIf .invariantFailed
    (operation.aux = 5 ∧ findObligation current operation.successorRecordId = none)

def updateStateGate (operation : Operation) : Gate :=
  refuseIf .invariantFailed (operation.payload.isEmpty = true)

def addEvidenceGate (operation : Operation) : Gate :=
  refuseIf .invariantFailed (operation.title.isEmpty ∨ operation.payload.isEmpty)

def upsertProfileGate (current : Snapshot) (operation : Operation) : Gate := do
  refuseIf .invariantFailed
    (operation.title.isEmpty ∨ operation.scope.isEmpty ∨ operation.payload.isEmpty)
  refuseIf .invariantFailed (findProfile current operation.title ≠ none)

def openConflictGate (current : Snapshot) (operation : Operation) : Gate := do
  refuseIf .invariantFailed (operation.title.isEmpty ∨ operation.payload.isEmpty)
  refuseIf .invariantFailed (∃ conflict ∈ current.conflicts, conflict.id = operation.title)

def resolveConflictGate (current : Snapshot) (operation : Operation) : Gate :=
  refuseIf .invariantFailed
    (¬ (findConflict current operation.title).any (fun conflict =>
      conflict.status = .isOpen) ∨ operation.payload.isEmpty)

def amendViewSpecGate (current : Snapshot) (operation : Operation) : Gate := do
  refuseIf .invariantFailed (operation.title.isEmpty ∨ operation.scope.isEmpty ∨
    ¬ operation.scope.contains colon)
  refuseIf .invariantFailed
    (∃ existing ∈ current.views, existing.id = operation.title ∧ operation.aux = 0)
  let refs := splitRefs operation.provenanceRef
  refuseIf .invariantFailed (refs.isEmpty = true)
  refuseIf .invariantFailed (∃ ref ∈ refs, findProfile current ref = none)
  refuseIf .invariantFailed (¬ refs.Nodup)

def setNextBoundaryGate (current : Snapshot) (operation : Operation) : Gate :=
  refuseIf .invariantFailed (¬ (findObligation current operation.recordId).any fun boundary =>
    boundary.status = .isOpen)

def invariantGate (current : Snapshot) (operation : Operation) : Gate :=
  match operation.kind with
  | .appendDecision => appendDecisionGate current operation
  | .supersedeDecision => supersedeDecisionGate current operation
  | .addMemory => addMemoryGate operation
  | .upsertObligation => upsertObligationGate operation
  | .closeObligation => closeObligationGate current operation
  | .transitionObligation => transitionObligationGate current operation
  | .updateState => updateStateGate operation
  | .addEvidence => addEvidenceGate operation
  | .upsertProfile => upsertProfileGate current operation
  | .openConflict => openConflictGate current operation
  | .resolveConflict => resolveConflictGate current operation
  | .amendViewSpec => amendViewSpecGate current operation
  | .setNextBoundary => setNextBoundaryGate current operation

/-- The walk of the gate does not run out of depth, or the halt is no crash. -/
def WalkEnds (current : Snapshot) (operation : Operation) (halt : Halt) : Prop :=
  ∀ successor, findDecision current operation.successorRecordId = some successor →
    reachesDecision current operation.recordId current.decisions.length successor = none →
      halt ≠ .crash

theorem supersedeDecisionGate_ne {current : Snapshot} {operation : Operation} {halt : Halt}
    (hinvariant : halt ≠ .refuse .invariantFailed) (hwalk : WalkEnds current operation halt) :
    supersedeDecisionGate current operation ≠ .error halt := by
  unfold supersedeDecisionGate
  split
  · next superseded successor _ hsuccessor =>
      refine check_ne hinvariant ?_
      split
      · next hnone => simpa using (hwalk successor hsuccessor hnone).symm
      · exact check_ne hinvariant (refuseIf_ne hinvariant)
  · simp [hinvariant.symm]

theorem invariantGate_ne {current : Snapshot} {operation : Operation} {halt : Halt}
    (hinvariant : halt ≠ .refuse .invariantFailed) (hwalk : WalkEnds current operation halt) :
    invariantGate current operation ≠ .error halt := by
  unfold invariantGate
  cases operation.kind with
  | supersedeDecision => exact supersedeDecisionGate_ne hinvariant hwalk
  | _ =>
      -- every other gate is a chain of checks
      repeat first | exact refuseIf_ne hinvariant | apply check_ne hinvariant

section Passed

variable {current : Snapshot} {operation : Operation}

theorem appendDecision_passed (h : invariantGate current operation = .ok ())
    (hkind : operation.kind = .appendDecision) :
    0 < operation.recordId ∧ operation.title ≠ [] ∧ operation.payload ≠ [] ∧
      ∀ existing ∈ current.decisions, existing.id ≠ operation.recordId := by
  simp only [invariantGate, hkind, appendDecisionGate, gate_bind_eq_ok, refuseIf_eq_ok,
    List.isEmpty_iff, not_or, not_exists, not_and, Int64.not_le] at h
  exact ⟨h.1.1, h.1.2.1, h.1.2.2, h.2⟩

theorem supersedeDecision_passed (h : invariantGate current operation = .ok ())
    (hkind : operation.kind = .supersedeDecision) :
    ∃ superseded successor, findDecision current operation.recordId = some superseded ∧
      findDecision current operation.successorRecordId = some successor ∧
      operation.recordId ≠ operation.successorRecordId ∧ superseded.status = .accepted ∧
      successor.status = .accepted ∧
      reachesDecision current operation.recordId current.decisions.length successor =
        some false := by
  simp only [invariantGate, hkind, supersedeDecisionGate] at h
  split at h
  · next superseded successor hsuperseded hsuccessor =>
      rw [gate_bind_eq_ok, refuseIf_eq_ok] at h
      simp only [not_or, not_not] at h
      obtain ⟨⟨hids, hstatus, hstatus'⟩, h⟩ := h
      split at h
      · simp at h
      · next reached hreached =>
          rw [gate_bind_eq_ok, refuseIf_eq_ok] at h
          rw [Bool.not_eq_true] at h
          exact ⟨superseded, successor, hsuperseded, hsuccessor, hids, hstatus, hstatus',
            h.1 ▸ hreached⟩
  · simp at h

theorem transitionObligation_passed (h : invariantGate current operation = .ok ())
    (hkind : operation.kind = .transitionObligation) :
    (∃ first, findObligation current operation.recordId = some first ∧
      first.status = .isOpen) ∧ operation.aux ≤ 5 ∧ operation.aux ≠ 0 := by
  simp only [invariantGate, hkind, transitionObligationGate, gate_bind_eq_ok, refuseIf_eq_ok,
    not_or, not_not, UInt8.not_lt] at h
  obtain ⟨⟨hopen, -, haux⟩, ⟨hzero, -⟩, -⟩ := h
  refine ⟨?_, haux, hzero⟩
  simpa [Option.any_eq_true] using hopen

theorem resolveConflict_passed (h : invariantGate current operation = .ok ())
    (hkind : operation.kind = .resolveConflict) :
    ∃ first, findConflict current operation.title = some first ∧ first.status = .isOpen := by
  simp only [invariantGate, hkind, resolveConflictGate, refuseIf_eq_ok, not_or, not_not] at h
  simpa [Option.any_eq_true] using h.1

theorem upsertProfile_passed (h : invariantGate current operation = .ok ())
    (hkind : operation.kind = .upsertProfile) :
    findProfile current operation.title = none := by
  simp only [invariantGate, hkind, upsertProfileGate, gate_bind_eq_ok, refuseIf_eq_ok,
    not_not] at h
  exact h.2

theorem openConflict_passed (h : invariantGate current operation = .ok ())
    (hkind : operation.kind = .openConflict) :
    ∀ conflict ∈ current.conflicts, conflict.id ≠ operation.title := by
  simp only [invariantGate, hkind, openConflictGate, gate_bind_eq_ok, refuseIf_eq_ok,
    not_exists, not_and] at h
  exact h.2

theorem amendViewSpec_passed (h : invariantGate current operation = .ok ())
    (hkind : operation.kind = .amendViewSpec) :
    splitRefs operation.provenanceRef ≠ [] ∧
      (∀ ref ∈ splitRefs operation.provenanceRef, findProfile current ref ≠ none) ∧
      (splitRefs operation.provenanceRef).Nodup := by
  simp only [invariantGate, hkind, amendViewSpecGate, gate_bind_eq_ok, refuseIf_eq_ok,
    not_exists, not_and, not_not] at h
  exact ⟨mt List.isEmpty_iff.mpr h.2.2.1, h.2.2.2⟩

end Passed

/-! ## Application, and the coherence of gate 9 -/

/-- Change the first element that satisfies the predicate. -/
def updateFirst {α : Type} (p : α → Bool) (f : α → α) : List α → List α
  | [] => []
  | a :: as => if p a then f a :: as else a :: updateFirst p f as

theorem mem_updateFirst {α : Type} {p : α → Bool} {f : α → α} {as : List α} {a : α}
    (h : a ∈ updateFirst p f as) : a ∈ as ∨ ∃ b ∈ as, p b = true ∧ a = f b := by
  induction as with
  | nil => simp [updateFirst] at h
  | cons b bs ih =>
      unfold updateFirst at h
      split at h
      · next hb =>
          rcases List.mem_cons.mp h with rfl | h
          · exact .inr ⟨b, List.mem_cons_self, hb, rfl⟩
          · exact .inl (List.mem_cons_of_mem b h)
      · rcases List.mem_cons.mp h with rfl | h
        · exact .inl List.mem_cons_self
        · rcases ih h with h | ⟨c, hc, hpc, rfl⟩
          · exact .inl (List.mem_cons_of_mem b h)
          · exact .inr ⟨c, List.mem_cons_of_mem b hc, hpc, rfl⟩

theorem mem_updateFirst_const {α : Type} {p : α → Bool} {a b : α} {as : List α} (ha : a ∈ as)
    (hp : p a = true) : b ∈ updateFirst p (fun _ => b) as := by
  induction as with
  | nil => simp at ha
  | cons c as ih =>
      unfold updateFirst
      split
      · exact List.mem_cons_self
      · next hc =>
          rcases List.mem_cons.mp ha with rfl | ha
          · exact (hc hp).elim
          · exact List.mem_cons_of_mem c (ih ha)

theorem mem_updateFirst_of_neg {α : Type} {p : α → Bool} {f : α → α} {a : α} {as : List α}
    (ha : a ∈ as) (hp : ¬ p a) : a ∈ updateFirst p f as := by
  induction as with
  | nil => simp at ha
  | cons b as ih =>
      unfold updateFirst
      split
      · next hb =>
          rcases List.mem_cons.mp ha with rfl | ha
          · exact (hp hb).elim
          · exact List.mem_cons_of_mem _ ha
      · rcases List.mem_cons.mp ha with rfl | ha
        · exact List.mem_cons_self
        · exact List.mem_cons_of_mem b (ih ha)

theorem find?_updateFirst {α : Type} {p : α → Bool} {f : α → α} (hf : ∀ a, p a → p (f a))
    (as : List α) : (updateFirst p f as).find? p = (as.find? p).map f := by
  induction as with
  | nil => rfl
  | cons a as ih =>
      unfold updateFirst
      split
      · next ha => rw [List.find?_cons_of_pos ha, List.find?_cons_of_pos (hf a ha), Option.map_some]
      · next ha => rw [List.find?_cons_of_neg ha, List.find?_cons_of_neg ha, ih]

/-- Elements that the change does not find are where they were. -/
theorem filter_updateFirst {α : Type} {p q : α → Bool} {f : α → α}
    (hq : ∀ a, p a → q a = false ∧ q (f a) = false) (as : List α) :
    (updateFirst p f as).filter q = as.filter q := by
  induction as with
  | nil => rfl
  | cons a as ih =>
      unfold updateFirst
      split
      · next ha => simp [hq a ha]
      · rw [List.filter_cons, List.filter_cons, ih]

theorem find?_updateFirst_of_ne {α : Type} {p q : α → Bool} {f : α → α}
    (hq : ∀ a, p a → q a = false ∧ q (f a) = false) (as : List α) :
    (updateFirst p f as).find? q = as.find? q := by
  rw [← List.head?_filter, filter_updateFirst hq, List.head?_filter]

@[simp] theorem length_updateFirst {α : Type} (p : α → Bool) (f : α → α) (as : List α) :
    (updateFirst p f as).length = as.length := by
  induction as with
  | nil => rfl
  | cons a as ih =>
      unfold updateFirst
      split <;> simp [ih]

theorem map_updateFirst {α β : Type} {p : α → Bool} {f : α → α} {q : β → Bool} {g : β → β}
    {r : α → β} (hpq : ∀ a, q (r a) = p a) (hfg : ∀ a, r (f a) = g (r a)) (as : List α) :
    (updateFirst p f as).map r = updateFirst q g (as.map r) := by
  induction as with
  | nil => rfl
  | cons a as ih =>
      simp only [updateFirst, List.map_cons, hpq]
      split <;> simp [hfg, ih]

/-- `Provenance { { UserStatement, reference, "" } }`. -/
def userStatement (reference : Str) : Provenance where
  sources := [{ kind := .userStatement, reference := reference }]

def acceptedDecision (handoffEvidenceRef : Str) (operation : Operation) : Decision where
  id := operation.recordId
  status := .accepted
  title := operation.title
  content := operation.payload
  provenance := userStatement handoffEvidenceRef

/-- The effect of one supersession on one decision. -/
def supersedeIn (operation : Operation) (decision : Decision) : Decision :=
  let decision :=
    if decision.id = operation.recordId then
      { decision with
        status := .superseded
        supersededBy := decision.supersededBy ++ [operation.successorRecordId] }
    else decision
  if decision.id = operation.successorRecordId then
    { decision with supersedes := decision.supersedes ++ [operation.recordId] }
  else decision

section supersedeIn

variable (operation : Operation) (decision : Decision)

@[simp] theorem supersedeIn_id : (supersedeIn operation decision).id = decision.id := by
  unfold supersedeIn
  dsimp only
  split <;> split <;> rfl

@[simp] theorem supersedeIn_provenance :
    (supersedeIn operation decision).provenance = decision.provenance := by
  unfold supersedeIn
  dsimp only
  split <;> split <;> rfl

@[simp] theorem supersedeIn_status : (supersedeIn operation decision).status =
    if operation.recordId = decision.id then .superseded else decision.status := by
  unfold supersedeIn
  dsimp only
  split <;> split <;> simp_all [eq_comm]

@[simp] theorem supersedeIn_supersedes : (supersedeIn operation decision).supersedes =
    decision.supersedes ++
      if operation.successorRecordId = decision.id then [operation.recordId] else [] := by
  unfold supersedeIn
  dsimp only
  split <;> split <;> simp_all [eq_comm]

@[simp] theorem supersedeIn_supersededBy : (supersedeIn operation decision).supersededBy =
    decision.supersededBy ++
      if operation.recordId = decision.id then [operation.successorRecordId] else [] := by
  unfold supersedeIn
  dsimp only
  split <;> split <;> simp_all [eq_comm]

end supersedeIn

def verifiedMemory (operation : Operation) : MemoryRecord where
  kind := Enumerated.ofByte operation.aux
  epistemic := .verified
  status := .active
  title := operation.title
  statement := operation.payload
  provenance := userStatement operation.provenanceRef

def openedObligation (operation : Operation) : Obligation where
  status := .isOpen
  trigger := .manual
  id := operation.recordId
  statement := operation.payload

/-- Only the first obligation with the id is closed. -/
def closeFirst (operation : Operation) : List Obligation → List Obligation :=
  updateFirst (fun obligation => obligation.id = operation.recordId)
    fun obligation => { obligation with status := .done }

def transitionIn (operation : Operation) (obligation : Obligation) : Obligation :=
  if obligation.id = operation.recordId then
    { obligation with
      status := Enumerated.ofByte operation.aux
      completionCriteria := operation.payload }
  else obligation

def boundEvidence (operation : Operation) : EvidenceRecord where
  boundTo := operation.title
  content := operation.payload

def declaredProfile (operation : Operation) : ProfileRecord where
  id := operation.title
  kind := operation.scope
  summary := operation.payload

def openedConflict (operation : Operation) : Conflict where
  id := operation.title
  status := .isOpen
  scope := operation.scope
  description := operation.payload

def resolveIn (operation : Operation) (conflict : Conflict) : Conflict :=
  if conflict.id = operation.title then
    { conflict with status := .resolved, resolution := operation.payload }
  else conflict

def amendedView (operation : Operation) : ViewSpec where
  id := operation.title
  agent := beforeColon operation.scope
  human := afterColon operation.scope
  summary := operation.payload
  profileRefs := splitRefs operation.provenanceRef

def applyOperation (handoffEvidenceRef : Str) (next : Snapshot) (operation : Operation) :
    Snapshot :=
  match operation.kind with
  | .appendDecision =>
      { next with decisions := next.decisions ++ [acceptedDecision handoffEvidenceRef operation] }
  | .supersedeDecision => { next with decisions := next.decisions.map (supersedeIn operation) }
  | .addMemory => { next with memory := next.memory ++ [verifiedMemory operation] }
  | .upsertObligation =>
      { next with obligations := next.obligations ++ [openedObligation operation] }
  | .closeObligation => { next with obligations := closeFirst operation next.obligations }
  | .transitionObligation =>
      { next with obligations := next.obligations.map (transitionIn operation) }
  | .updateState => { next with state := { next.state with current := operation.payload } }
  | .addEvidence => { next with evidence := next.evidence ++ [boundEvidence operation] }
  | .upsertProfile => { next with profiles := next.profiles ++ [declaredProfile operation] }
  | .openConflict => { next with conflicts := next.conflicts ++ [openedConflict operation] }
  | .resolveConflict => { next with conflicts := next.conflicts.map (resolveIn operation) }
  | .amendViewSpec =>
      -- `aux == 1` retires the view; every other value appends one
      if operation.aux = 1 then
        { next with views := next.views.filter fun view => view.id ≠ operation.title }
      else { next with views := next.views ++ [amendedView operation] }
  | .setNextBoundary =>
      { next with
        state := { next.state with nextBoundaryRef := toStringInt64 operation.recordId } }

def applyOperations (transaction : ContextTransaction) (current : Snapshot) : Snapshot :=
  transaction.operations.foldl (applyOperation transaction.handoffEvidenceRef) current

def boundaryGate (next : Snapshot) : Gate :=
  refuseIf .invariantFailed (¬ next.state.nextBoundaryRef.isEmpty ∧
    ¬ ∃ obligation ∈ next.obligations,
      toStringInt64 obligation.id = next.state.nextBoundaryRef ∧ obligation.status = .isOpen)

/-- Gates 6 to 9: the successor of a transaction that passes them all. -/
def successorOf [Foundation] (current : Snapshot) (rootPrincipal : PrincipalId)
    (actorBinding : Str) (transaction : ContextTransaction) : Except Halt Snapshot := do
  forM transaction.operations (policyGate current rootPrincipal actorBinding transaction)
  forM transaction.operations (conflictGate current)
  forM transaction.operations (invariantGate current)
  let next := applyOperations transaction current
  boundaryGate next
  return next

theorem successorOf_eq_ok [Foundation] {current next : Snapshot} {rootPrincipal : PrincipalId}
    {actorBinding : Str} {transaction : ContextTransaction} :
    successorOf current rootPrincipal actorBinding transaction = .ok next ↔
      (∀ operation ∈ transaction.operations,
        policyGate current rootPrincipal actorBinding transaction operation = .ok ()) ∧
      (∀ operation ∈ transaction.operations, conflictGate current operation = .ok ()) ∧
      (∀ operation ∈ transaction.operations, invariantGate current operation = .ok ()) ∧
      boundaryGate next = .ok () ∧ next = applyOperations transaction current := by
  simp only [successorOf, gate_bind_eq_ok, forM_gate_eq_ok, pure, Except.pure, Except.ok.injEq]
  constructor
  · rintro ⟨hpolicy, hconflict, hinvariant, hboundary, rfl⟩
    exact ⟨hpolicy, hconflict, hinvariant, hboundary, rfl⟩
  · rintro ⟨hpolicy, hconflict, hinvariant, hboundary, rfl⟩
    exact ⟨hpolicy, hconflict, hinvariant, hboundary, rfl⟩

end QivenContext
