import QivenContext.Review

/-!
# The handoff table

A policy row may require any of five handoffs. The gate asks for evidence when
the row requires a review and lets every other row pass, so a row that requires
an execution, an authority or a recovery handoff is open.
-/

namespace QivenContext

open Library ServiceState

/-! ## Rows -/

/-- The row that the gate selects for the class of the operation. -/
def selectedRow (current : Snapshot) (operation : Operation) : Option HandoffPolicy :=
  current.policy.handoff.find? fun row => row.opClass = opClassOf operation.kind

/-- The row of some operation requires a handoff of this type. -/
def Requires (current : Snapshot) (transaction : ContextTransaction) (required : Handoff) : Prop :=
  ∃ operation ∈ transaction.operations, ∃ row,
    selectedRow current operation = some row ∧ row.required = required

/-- No evidence of any handoff. -/
structure Unattested (transaction : ContextTransaction) : Prop where
  h2 : transaction.h2 = none
  handoffEvidenceRef : transaction.handoffEvidenceRef = []

section Gate

variable [Foundation] {current : Snapshot} {rootPrincipal : PrincipalId} {actorBinding : Str}
  {transaction : ContextTransaction} {operation : Operation}

theorem policyGate_unattested (h : Unattested transaction) :
    policyGate current rootPrincipal actorBinding transaction operation = .ok () ↔
      ∃ row, selectedRow current operation = some row ∧ row.required ≠ .h2Review := by
  unfold policyGate selectedRow
  cases current.policy.handoff.find? fun row => row.opClass = opClassOf operation.kind with
  | none => simp
  | some row => by_cases hrequired : row.required = .h2Review <;> simp [hrequired, h2Gate, h.h2]

end Gate

/-! ## Applied writes -/

section Applied

variable [Foundation] {σ : Type} [CognitionStore σ] {s : ServiceState σ} {handle : CognitionHandle}
  {transaction : ContextTransaction} {grant : ExecutionGrant} {entry : Materialization}

/-- The write is answered with the verdict Applied. -/
def ServiceState.Applies (s : ServiceState σ) (handle : CognitionHandle)
    (transaction : ContextTransaction) (grant : ExecutionGrant) : Prop :=
  ∃ verdict s', s.writeToCognition handle transaction grant = some (verdict, s') ∧
    verdict.outcome = .applied

/-- A new request with operations is applied when it is admitted and the store
acknowledges the commit. -/
theorem applies_iff (hkey : s.resolveKey transaction = none)
    (hnonempty : transaction.operations ≠ []) :
    s.Applies handle transaction grant ↔ ∃ entry governance next,
      s.Admitted handle transaction grant entry governance next ∧
        (s.submit (.write s.grantActor transaction entry next)).1.kind = .committed := by
  constructor
  · rintro ⟨verdict, s', hwrite, happlied⟩
    obtain ⟨entry, next, hadmission, -, hcommitted⟩ :=
      admission_of_applied hwrite happlied hkey hnonempty
    obtain ⟨governance, hadmitted⟩ := admission_eq_ok.mp hadmission
    exact ⟨entry, governance, next, hadmitted, hcommitted⟩
  · rintro ⟨entry, governance, next, hadmitted, hkind⟩
    have hadmission := admission_eq_ok.mpr ⟨governance, hadmitted⟩
    obtain ⟨verdict, s', hcommit⟩ : ∃ verdict s',
        (verdict, s') = s.commit handle entry transaction next := ⟨_, _, rfl⟩
    refine ⟨verdict, s', by simp only [writeToCognition, hkey, hadmission, ← hcommit], ?_⟩
    rcases commit_cases hcommit with ⟨hother, -⟩ | ⟨hother, -⟩ | ⟨-, -, -, rfl, -⟩
    · simp [hkind] at hother
    · simp [hkind] at hother
    · rfl

/-- Nothing but the handoff gate stands in the way of the transaction. -/
structure ServiceState.Unopposed (s : ServiceState σ) (entry : Materialization)
    (transaction : ContextTransaction) : Prop where
  actor : ∃ governance, s.canonicalHead = some governance ∧
    ∃ verifier, s.identity = some verifier ∧ verifier s.grantActor governance = true
  base : transaction.base = entry.revision
  rows : ∀ operation ∈ transaction.operations, selectedRow entry.state operation ≠ none
  conflicts : ∀ operation ∈ transaction.operations, conflictGate entry.state operation = .ok ()
  invariants : ∀ operation ∈ transaction.operations, invariantGate entry.state operation = .ok ()
  boundary : boundaryGate (applyOperations transaction entry.state) = .ok ()
  committed : (s.submit (.write s.grantActor transaction entry
    (applyOperations transaction entry.state))).1.kind = .committed

/-- A transaction without evidence whose rows require a handoff is kept out
exactly when one of the rows requires a review, or something else keeps it out. -/
theorem handoff_required_iff (hlive : s.findLive handle = some entry)
    (hpromoted : entry.quarantine = .promoted) (hlease : s.activeGrantId.isEmpty = false)
    (hgrant : s.activeGrantId = grant.id) (hmode : grant.mode = .supervisedForeground)
    (hrequired : ∃ required ≠ Handoff.hNone, Requires entry.state transaction required)
    (hunattested : Unattested transaction) (hkey : s.resolveKey transaction = none) :
    ¬ s.Applies handle transaction grant ↔
      Requires entry.state transaction .h2Review ∨ ¬ s.Unopposed entry transaction := by
  obtain ⟨-, -, operation, hmem, -⟩ := hrequired
  have hnonempty := List.ne_nil_of_mem hmem
  have happlied : s.Applies handle transaction grant ↔
      ¬ Requires entry.state transaction .h2Review ∧ s.Unopposed entry transaction := by
    rw [applies_iff hkey hnonempty]
    constructor
    · rintro ⟨found, governance, next, hadmitted, hcommitted⟩
      obtain rfl : entry = found := Option.some.inj (hlive.symm.trans hadmitted.live)
      obtain ⟨hpolicy, hconflicts, hinvariants, hboundary, rfl⟩ :=
        successorOf_eq_ok.mp hadmitted.successor
      refine ⟨?_, ⟨governance, hadmitted.head, hadmitted.verified⟩, hadmitted.base, ?_, hconflicts,
        hinvariants, hboundary, hcommitted⟩
      · rintro ⟨operation, hmem, row, hrow, hreview⟩
        obtain ⟨row', hrow', hother⟩ := (policyGate_unattested hunattested).mp (hpolicy _ hmem)
        exact hother (Option.some.inj (hrow.symm.trans hrow') ▸ hreview)
      · intro operation hmem
        obtain ⟨row, hrow, -⟩ := (policyGate_unattested hunattested).mp (hpolicy _ hmem)
        simp [hrow]
    · rintro ⟨hreview, ⟨governance, hhead, hverified⟩, hbase, hrows, hconflicts, hinvariants,
        hboundary, hcommitted⟩
      refine ⟨entry, governance, _, ⟨hlive, hpromoted, hlease, hgrant, hhead, hverified, hmode,
        hbase, hnonempty, successorOf_eq_ok.mpr ⟨fun operation hmem => ?_, hconflicts, hinvariants,
          hboundary, rfl⟩⟩, hcommitted⟩
      obtain ⟨row, hrow⟩ := Option.ne_none_iff_exists'.mp (hrows operation hmem)
      exact (policyGate_unattested hunattested).mpr
        ⟨row, hrow, fun hthis => hreview ⟨operation, hmem, row, hrow, hthis⟩⟩
  rw [happlied]
  tauto

end Applied

/-! ## A row that nothing asks for -/

section Open

open scoped QivenContext.Reference

/-- Genesis where a change of the state requires an execution handoff. -/
def executionWorld : Snapshot :=
  { makeGenesis with policy := { makeDefaultPolicy with handoff := [
      { opClass := .stateUpdate, required := .h1Execution, rootPrincipalOnly := false }] } }

theorem deserialize_executionWorld :
    deserialize (serializeSnapshot executionWorld) = .ok executionWorld := by
  have hstrings : Snapshot.StringsShort executionWorld := { genesis_stringsShort with }
  have hvectors : Snapshot.VectorsWithin 100000 executionWorld :=
    { (genesis_vectorsWithin (by norm_num) : Snapshot.VectorsWithin 100000 makeGenesis) with
      handoff := by decide
      recovery := by decide }
  rw [deserialize_serialize hstrings hvectors]
  rfl

/-- A plain change of the state. -/
def plainUpdate (base : RevisionId) : ContextTransaction where
  base := base
  operations := [{ kind := .updateState, payload := lit "content" }]

/-- An unreviewed decision is kept out of a genesis chain. -/
theorem unreviewed_kept_out :
    ∃ (trs : List (ServiceTransition MemoryStore)) (s : ServiceState MemoryStore)
      (m : Materialization), ServiceRun (ServiceState.start {}) trs s ∧ m ∈ s.live ∧
        ¬ s.Applies (some m) { base := m.revision, operations := [titledDecision 0] }
          firstGrant := by
  obtain ⟨trs, s, m, hrun, honHead, hstate, -⟩ := exists_onHead
  have hrequires : Requires m.state
      { base := m.revision, operations := [titledDecision 0] } .h2Review := by
    rw [hstate]
    exact ⟨_, List.mem_singleton_self _, _, rfl, rfl⟩
  refine ⟨trs, s, m, hrun, honHead.live, (handoff_required_iff honHead.findLive honHead.promoted
    (by rw [honHead.lease]; decide) honHead.lease rfl ⟨.h2Review, by decide, hrequires⟩
    ⟨rfl, rfl⟩ (by simp [resolveKey])).mpr (.inl hrequires)⟩

/-- The change of the state is applied, and no handoff was shown. -/
theorem execution_handoff_not_asked :
    ∃ (trs : List (ServiceTransition MemoryStore)) (s : ServiceState MemoryStore)
      (m : Materialization) (transaction : ContextTransaction),
      ServiceRun (ServiceState.start (preexisting executionWorld)) trs s ∧
        s.findLive (some m) = some m ∧ m.quarantine = .promoted ∧
        s.activeGrantId = firstGrant.id ∧ Requires m.state transaction .h1Execution ∧
        Unattested transaction ∧ s.resolveKey transaction = none ∧
        s.Applies (some m) transaction firstGrant := by
  obtain ⟨trs, s, m, hrun, honHead, hstate, -⟩ :=
    exists_onHead_preexisting deserialize_executionWorld rfl
  obtain ⟨t, m', hwrote⟩ := honHead.write_passing (plainUpdate m.revision)
    (by simp [resolveKey, plainUpdate]) rfl (List.cons_ne_nil _ _) (by
      rw [hstate]
      rfl)
  refine ⟨trs, s, m, plainUpdate m.revision, hrun, honHead.findLive, honHead.promoted,
    honHead.lease, ?_, ⟨rfl, rfl⟩, by simp [resolveKey, plainUpdate], ?_⟩
  · rw [hstate]
    exact ⟨_, List.mem_singleton_self _, _, rfl, rfl⟩
  · obtain ⟨verdict, hverdict, hwrite⟩ := step_writeToCognition hwrote.step
    refine ⟨verdict, t, hwrite, ?_⟩
    obtain rfl := Answer.verdict.inj hverdict
    rfl

end Open

end QivenContext
