import QivenContext.Committed

/-!
# Building runs forwards

A client that sits on the head of an in-memory store with the lease in its
hand can write: what it writes is applied, and it sits on the new head. Runs
that show what the gates let through are built from these steps.
-/

namespace QivenContext

open Library ServiceState

variable [Foundation] {s : ServiceState MemoryStore} {m : Materialization}
  {transaction : ContextTransaction} {next : Snapshot}

/-- An actor that the default identity port accepts on a genesis chain. -/
def rootActor : AuthenticatedActor where
  principal := makeGenesis.governance.rootPrincipal
  role := .brother
  binding := lit "author"
  servingModel := lit "model"

/-- The first grant of a process, for the root actor. -/
def firstGrant : ExecutionGrant where
  id := { value := lit "grant-" ++ toStringUInt64 1 }
  epoch := 1
  principal := rootActor.principal

/-- The handle is registered on the store head, its holder has the lease, and
every live snapshot names the root principal of genesis. -/
structure OnHead (s : ServiceState MemoryStore) (m : Materialization) : Prop where
  live : m ∈ s.live
  address : ∀ other ∈ s.live, other.address = m.address → other = m
  fresh : ∀ other ∈ s.live, other.address < s.nextAddress
  governed : ∀ other ∈ s.live, other.state.governance = makeGenesis.governance
  promoted : m.quarantine = .promoted
  head : s.store.head = m.revision
  named : m.revision ≠ {}
  lease : s.activeGrantId = firstGrant.id
  actor : s.grantActor = rootActor
  identity : s.identity = some rootPrincipalVerifier

namespace OnHead

omit [Foundation] in
theorem findLive (h : OnHead s m) : s.findLive (some m) = some m := by
  cases hfind : s.findLive (some m) with
  | none =>
      have hnone := List.find?_eq_none.mp hfind m h.live
      simp at hnone
  | some other =>
      obtain ⟨hother, hat⟩ := findLive_some hfind
      rw [Materialization.isAt_some] at hat
      rw [h.address other hother hat.symm]

theorem canonicalHead (h : OnHead s m) :
    ∃ governance, s.canonicalHead = some governance ∧
      governance.governance = makeGenesis.governance := by
  have hhead : CognitionStore.head s.store = m.revision := h.head
  obtain ⟨entry, hlive⟩ := exists_liveHead h.live hhead h.promoted
  exact ⟨entry.state, canonicalHead_of_liveHead (hhead ▸ h.named) hlive,
    h.governed entry (liveHead_some hlive).1⟩

theorem admitted (h : OnHead s m) (hbase : transaction.base = m.revision)
    (hoperations : transaction.operations ≠ [])
    (hsuccessor : successorOf m.state makeGenesis.governance.rootPrincipal rootActor.binding
      transaction = .ok next) :
    ∃ governance, s.Admitted (some m) transaction firstGrant m governance next := by
  obtain ⟨governance, hhead, hgoverned⟩ := h.canonicalHead
  refine ⟨governance, h.findLive, h.promoted, ?_, h.lease, hhead,
    ⟨rootPrincipalVerifier, h.identity, ?_⟩, rfl, hbase, hoperations, ?_⟩
  · rw [h.lease]
    decide
  · rw [h.actor]
    simp only [rootPrincipalVerifier, hgoverned]
    decide
  · rw [hgoverned, h.actor]
    exact hsuccessor

omit [Foundation] in
/-- The holder moves on to a new entry on the head. -/
theorem add {s' : ServiceState MemoryStore} {new : Materialization} (h : OnHead s m)
    (hnew : new ∈ s'.live) (hlive : ∀ other ∈ s'.live, other ∈ s.live ∨ other = new)
    (haddress : new.address = s.nextAddress) (hnext : s'.nextAddress = s.nextAddress + 1)
    (hgoverned : new.state.governance = makeGenesis.governance)
    (hpromoted : new.quarantine = .promoted) (hhead : s'.store.head = new.revision)
    (hnamed : new.revision ≠ {}) (hlease : s'.activeGrantId = s.activeGrantId)
    (hactor : s'.grantActor = s.grantActor) (hidentity : s'.identity = s.identity) :
    OnHead s' new := by
  refine ⟨hnew, ?_, ?_, ?_, hpromoted, hhead, hnamed, hlease.trans h.lease, hactor.trans h.actor,
    hidentity.trans h.identity⟩
  · intro other hother hsame
    rcases hlive other hother with hother | rfl
    · exact absurd (hsame.trans haddress) (Nat.ne_of_lt (h.fresh other hother))
    · rfl
  · intro other hother
    rw [hnext]
    rcases hlive other hother with hother | rfl
    · exact (h.fresh other hother).trans (Nat.lt_succ_self _)
    · exact haddress ▸ Nat.lt_succ_self _
  · intro other hother
    rcases hlive other hother with hother | rfl
    · exact h.governed other hother
    · exact hgoverned

/-- A write from the head that passes the gates is applied, and its holder
sits on the new head. -/
theorem write (h : OnHead s m) (hkey : s.resolveKey transaction = none)
    (hbase : transaction.base = m.revision) (hoperations : transaction.operations ≠ [])
    (hsuccessor : successorOf m.state makeGenesis.governance.rootPrincipal rootActor.binding
      transaction = .ok next)
    (hgoverned : next.governance = makeGenesis.governance) :
    ∃ m' s', s.step (.writeToCognition (some m) transaction firstGrant) =
        some (.verdict { outcome := .applied, successor := some m' }, s') ∧
      s.submits (.writeToCognition (some m) transaction firstGrant) =
        some (.write rootActor transaction m next) ∧
      (s.submit (.write rootActor transaction m next)).1.kind = .committed ∧
      OnHead s' m' ∧ m'.state = next ∧
      s'.store = (s.store.compareAndSwap m.revision (serializeSnapshot next)).2 ∧
      s'.receipts = (s.record transaction
        { outcome := .applied, successor := some m' }).receipts := by
  obtain ⟨governance, hadmitted⟩ := h.admitted hbase hoperations hsuccessor
  have hadmission := admission_eq_ok.mpr ⟨governance, hadmitted⟩
  have hsubmits := submits_of_admission hkey hadmission
  rw [h.actor] at hsubmits
  have hcas : ∃ revision, (s.store.compareAndSwap m.revision (serializeSnapshot next)).1 =
      { kind := .committed, revision := revision } ∧ revision ≠ {} ∧
      (s.store.compareAndSwap m.revision (serializeSnapshot next)).2.head = revision := by
    rcases s.store.compareAndSwap_cases m.revision (serializeSnapshot next) with
      ⟨-, hstale, -⟩ | ⟨-, -, hcas⟩ | ⟨-, -, hcas⟩
    · exact (hstale h.head.symm).elim
    · exact ⟨_, congrArg Prod.fst hcas, h.head ▸ h.named, by rw [hcas]⟩
    · exact ⟨_, congrArg Prod.fst hcas, revisionOf_ne_empty _ _, by rw [hcas]; rfl⟩
  obtain ⟨revision, hreceipt, hrevision, hhead⟩ := hcas
  have hkind : (s.submit (.write rootActor transaction m next)).1.kind = .committed :=
    congrArg StoreReceipt.kind hreceipt
  let successor := s.successorMaterialization m next revision
  let verdict : Verdict := { outcome := .applied, successor := some successor }
  let after : ServiceState MemoryStore := ({ s with
    store := (s.store.compareAndSwap m.revision (serializeSnapshot next)).2 } :
      ServiceState MemoryStore).replaceEntry (some m) successor
  have hcommit : s.commit (some m) m transaction next =
      (verdict, after.record transaction verdict) := by
    have hreceipt' : CognitionStore.compareAndSwap s.store m.revision (serializeSnapshot next) =
        ({ kind := .committed, revision := revision },
          (s.store.compareAndSwap m.revision (serializeSnapshot next)).2) :=
      Prod.ext hreceipt rfl
    simp only [commit, hreceipt']
    rfl
  refine ⟨successor, after.record transaction verdict, ?_, hsubmits, hkind, ?_, rfl, ?_, ?_⟩
  · simp only [step, writeToCognition, hkey, hadmission, hcommit]
    rfl
  · have hsuccessorLive : successor ∈ after.live :=
      mem_updateFirst_const h.live (findLive_some h.findLive).2
    refine h.add (by rw [record_live]; exact hsuccessorLive) (fun other hother => ?_) rfl
      (record_nextAddress verdict) hgoverned h.promoted ?_ hrevision (record_lease verdict).1
      (record_lease verdict).2.1 (record_identity verdict)
    · rw [record_live] at hother
      exact mem_replaceEntry hother
    · rw [record_store]
      exact hhead
  · exact record_store verdict
  · simp only [record]
    split <;> rfl

theorem boot (h : OnHead s m) {snapshot : Snapshot}
    (hparsed : deserialize (s.store.materialize s.store.head) = .ok snapshot)
    (hgoverned : snapshot.governance = makeGenesis.governance) :
    ∃ m' s', s.step (.createCognition {}) = some (.created (.handle m'), s') ∧
      s.submits (.createCognition {}) = none ∧ OnHead s' m' ∧ m'.state = snapshot ∧
      m'.revision = m.revision ∧ s'.store = s.store ∧ s'.receipts = s.receipts := by
  obtain ⟨hsubmits, new, hnew, hcreate⟩ := createCognition_head (s := s) hparsed
  have haddress : new.address = s.nextAddress := by rw [hnew]; rfl
  have hstate : new.state = snapshot := by rw [hnew]; rfl
  have hpromoted : new.quarantine = .promoted := by rw [hnew]; rfl
  have hrevision : new.revision = m.revision := by rw [hnew]; exact h.head
  refine ⟨new, s.register new, by simp only [step, hcreate], hsubmits, ?_, hstate, hrevision,
    rfl, rfl⟩
  exact h.add (by simp [register]) (fun _ => mem_register) haddress rfl (hstate ▸ hgoverned)
    hpromoted (hrevision ▸ h.head) (hrevision ▸ h.named) rfl rfl rfl

end OnHead

/-! ## Transactions that the default policy lets through -/

omit [Foundation] in
theorem applyOperations_evidence {current : Snapshot}
    (hkind : ∀ operation ∈ transaction.operations, operation.kind = .addEvidence) :
    applyOperations transaction current = { current with
      evidence := current.evidence ++ transaction.operations.map boundEvidence } := by
  refine applyOperations_induction (motive := fun past next => next = { current with
    evidence := current.evidence ++ past.map boundEvidence }) (by simp) ?_
  rintro past operation next hpast rfl
  have hthis := hkind operation (hpast.subset (by simp))
  simp [applyOperation, hthis]

/-- Outside decision acceptance the default policy asks for no handoff. -/
theorem policyGate_default {current : Snapshot} {rootPrincipal : PrincipalId}
    {actorBinding : Str} {operation : Operation} (hpolicy : current.policy = makeDefaultPolicy)
    (hkind : opClassOf operation.kind ≠ .decisionAcceptance) :
    policyGate current rootPrincipal actorBinding transaction operation = .ok () := by
  have hrow : ∃ row, (makeDefaultPolicy.handoff.find? fun row =>
      row.opClass = opClassOf operation.kind) = some row ∧ row.required = .hNone := by
    cases hclass : opClassOf operation.kind with
    | decisionAcceptance => exact (hkind hclass).elim
    | _ => exact ⟨_, rfl, rfl⟩
  obtain ⟨row, hfind, hrequired⟩ := hrow
  unfold policyGate
  rw [hpolicy, hfind]
  simp [hrequired]

/-- Evidence of an exact-delta review by the root principal. -/
def reviewed (base : RevisionId) (operations : List Operation) : ContextTransaction where
  base := base
  operations := operations
  handoffEvidenceRef := lit "handoff"
  h2 := some {
    reviewedDeltaDigest := digestOperations operations
    reviewer := makeGenesis.governance.rootPrincipal
    reviewerBinding := lit "reviewer"
    reviewRef := lit "review" }

/-- Under the default policy a transaction with such evidence passes for every kind. -/
theorem policyGate_attested {current : Snapshot} {operation : Operation}
    (hpolicy : current.policy = makeDefaultPolicy)
    (hh2 : transaction.h2 = (reviewed transaction.base transaction.operations).h2)
    (hhandoff : transaction.handoffEvidenceRef ≠ []) :
    policyGate current makeGenesis.governance.rootPrincipal rootActor.binding transaction
      operation = .ok () := by
  have hrow : ∃ row, (makeDefaultPolicy.handoff.find? fun row =>
      row.opClass = opClassOf operation.kind) = some row := by
    cases opClassOf operation.kind <;> exact ⟨_, rfl⟩
  have hgate : h2Gate makeGenesis.governance.rootPrincipal rootActor.binding transaction =
      .ok () := by
    unfold h2Gate
    rw [hh2]
    simp only [reviewed, gate_bind_eq_ok]
    refine ⟨refuseIf_eq_ok.mpr ?_, refuseIf_eq_ok.mpr (by decide), refuseIf_eq_ok.mpr (by decide),
      refuseIf_eq_ok.mpr fun h => h rfl⟩
    simp only [List.isEmpty_iff, hhandoff, or_false]
    decide
  obtain ⟨row, hfind⟩ := hrow
  unfold policyGate
  rw [hpolicy, hfind]
  dsimp only
  split
  · exact hgate
  · rfl

theorem policyGate_reviewed {current : Snapshot} {base : RevisionId}
    {operations : List Operation} {operation : Operation}
    (hpolicy : current.policy = makeDefaultPolicy) :
    policyGate current makeGenesis.governance.rootPrincipal rootActor.binding
      (reviewed base operations) operation = .ok () :=
  policyGate_attested hpolicy rfl (by decide : lit "handoff" ≠ [])

/-- Without open conflicts and without a boundary, only the policy and the
invariants stand before a successor. -/
theorem successorOf_quiet {current : Snapshot} {rootPrincipal : PrincipalId}
    {actorBinding : Str} (hpolicy : ∀ operation ∈ transaction.operations,
      policyGate current rootPrincipal actorBinding transaction operation = .ok ())
    (hconflicts : ∀ conflict ∈ current.conflicts, conflict.status ≠ .isOpen)
    (hboundary : (applyOperations transaction current).state.nextBoundaryRef = [])
    (hinvariant : ∀ operation ∈ transaction.operations,
      invariantGate current operation = .ok ()) :
    successorOf current rootPrincipal actorBinding transaction =
      .ok (applyOperations transaction current) := by
  refine successorOf_eq_ok.mpr ⟨hpolicy, fun operation _ => ?_, hinvariant, ?_, rfl⟩
  · unfold conflictGate
    split
    · rfl
    · refine refuseIf_eq_ok.mpr ?_
      rintro ⟨conflict, hmem, hopen, -⟩
      exact hconflicts conflict hmem hopen
  · simp [boundaryGate, hboundary]

/-- A state that a quiet transaction can be written to. -/
structure Quiet (snapshot : Snapshot) : Prop where
  policy : snapshot.policy = makeDefaultPolicy
  conflicts : ∀ conflict ∈ snapshot.conflicts, conflict.status ≠ .isOpen
  boundary : snapshot.state.nextBoundaryRef = []

omit [Foundation] in
theorem genesis_quiet : Quiet makeGenesis := ⟨rfl, by simp [makeGenesis], rfl⟩

namespace OnHead

/-- What a write by the root actor leaves behind. -/
structure Wrote (s : ServiceState MemoryStore) (m : Materialization)
    (transaction : ContextTransaction) (s' : ServiceState MemoryStore) (m' : Materialization) :
    Prop where
  step : s.step (.writeToCognition (some m) transaction firstGrant) =
    some (.verdict { outcome := .applied, successor := some m' }, s')
  submits : s.submits (.writeToCognition (some m) transaction firstGrant) =
    some (.write rootActor transaction m m'.state)
  committed : (s.submit (.write rootActor transaction m m'.state)).1.kind = .committed
  onHead : OnHead s' m'
  state : m'.state = applyOperations transaction m.state
  store : s'.store = (s.store.compareAndSwap m.revision (serializeSnapshot m'.state)).2
  receipts : s'.receipts = (s.record transaction
    { outcome := .applied, successor := some m' }).receipts

/-- The transition of a write that was applied. -/
def written (s : ServiceState MemoryStore) (m : Materialization)
    (transaction : ContextTransaction) (s' : ServiceState MemoryStore) (m' : Materialization) :
    ServiceTransition MemoryStore :=
  ⟨s, .writeToCognition (some m) transaction firstGrant,
    .verdict { outcome := .applied, successor := some m' }, s'⟩

variable {s' : ServiceState MemoryStore} {m' : Materialization}

theorem Wrote.run {start : ServiceState MemoryStore}
    {trs : List (ServiceTransition MemoryStore)} (h : Wrote s m transaction s' m')
    (hrun : ServiceRun start trs s) :
    ServiceRun start (trs ++ [written s m transaction s' m']) s' :=
  hrun.snoc h.step

theorem Wrote.commits (h : Wrote s m transaction s' m') :
    Commits (written s m transaction s' m') (.write rootActor transaction m m'.state) :=
  ⟨h.submits, by simp [written, h.committed]⟩

theorem Wrote.committed_last (h : Wrote s m transaction s' m')
    (trs : List (ServiceTransition MemoryStore)) :
    Committed (trs ++ [written s m transaction s' m']) m'.state :=
  ⟨_, List.mem_append_right _ (List.mem_singleton_self _), _, h.commits, rfl⟩

theorem Wrote.forall_commits
    {W : AuthenticatedActor → ContextTransaction → Materialization → Snapshot → Prop}
    {trs : List (ServiceTransition MemoryStore)}
    (hbefore : ∀ tr ∈ trs, ∀ actor transaction entry next,
      Commits tr (.write actor transaction entry next) → W actor transaction entry next)
    (h : Wrote s m transaction s' m') (hthis : W rootActor transaction m m'.state) :
    ∀ tr ∈ trs ++ [written s m transaction s' m'], ∀ actor transaction entry next,
      Commits tr (.write actor transaction entry next) → W actor transaction entry next := by
  intro tr htr actor presented entry next hcommits
  rcases List.mem_append.mp htr with htr | htr
  · exact hbefore tr htr actor presented entry next hcommits
  · obtain rfl := List.mem_singleton.mp htr
    have hsame := h.commits.1.symm.trans hcommits.1
    simp only [Option.some.injEq, Submission.write.injEq] at hsame
    obtain ⟨rfl, rfl, rfl, rfl⟩ := hsame
    exact hthis

theorem Wrote.revisions (h : Wrote s m transaction s' m') (honHead : OnHead s m)
    (hnew : s.store.headBytes ≠ some (serializeSnapshot m'.state)) :
    s'.store.revisions =
        s.store.revisions ++ [(m'.revision, serializeSnapshot m'.state)] ∧
      m'.revision = revisionOf m.revision (serializeSnapshot m'.state) := by
  have hstore := h.store
  rw [MemoryStore.compareAndSwap_append honHead.head.symm hnew] at hstore
  have hrevision : m'.revision = revisionOf m.revision (serializeSnapshot m'.state) := by
    rw [← h.onHead.head, hstore]
    rfl
  exact ⟨by rw [hstore, hrevision]; rfl, hrevision⟩

/-- A write of what the head holds already moves nothing. -/
theorem Wrote.unmoved (h : Wrote s m transaction s' m') (honHead : OnHead s m)
    (hsame : s.store.headBytes = some (serializeSnapshot m'.state)) :
    m'.revision = m.revision := by
  rcases s.store.compareAndSwap_cases m.revision (serializeSnapshot m'.state) with
    ⟨-, hstale, -⟩ | ⟨-, -, hcas⟩ | ⟨-, hnew, -⟩
  · exact (hstale honHead.head.symm).elim
  · rw [← h.onHead.head, h.store, hcas, honHead.head]
  · exact (hnew hsame).elim

/-- A transaction that passes gates 6 to 9 is applied. -/
theorem write_passing (h : OnHead s m) (transaction : ContextTransaction)
    (hkey : s.resolveKey transaction = none) (hbase : transaction.base = m.revision)
    (hoperations : transaction.operations ≠ [])
    (hsuccessor : successorOf m.state makeGenesis.governance.rootPrincipal rootActor.binding
      transaction = .ok (applyOperations transaction m.state)) :
    ∃ s' m', Wrote s m transaction s' m' := by
  have hgoverned : (applyOperations transaction m.state).governance = makeGenesis.governance :=
    applyOperations_preserves (P := fun next => next.governance = makeGenesis.governance)
      (h.governed m h.live) fun operation _ next hnext => applyOperation_governed.1.trans hnext
  obtain ⟨m', s', hstep, hsubmits, hcommitted, hnext, hstate', hstore, hreceipts⟩ :=
    h.write hkey hbase hoperations hsuccessor hgoverned
  rw [← hstate'] at hsubmits hcommitted hstore
  exact ⟨s', m', hstep, hsubmits, hcommitted, hnext, hstate', hstore, hreceipts⟩

/-- A quiet transaction whose operations keep the invariants is applied. -/
theorem write_quiet (h : OnHead s m) (hquiet : Quiet m.state)
    (transaction : ContextTransaction) (hkey : s.resolveKey transaction = none)
    (hbase : transaction.base = m.revision)
    (hoperations : transaction.operations ≠ [])
    (hpolicy : ∀ operation ∈ transaction.operations, policyGate m.state
      makeGenesis.governance.rootPrincipal rootActor.binding transaction operation = .ok ())
    (hboundary : ∀ operation ∈ transaction.operations, operation.kind ≠ .setNextBoundary)
    (hinvariant : ∀ operation ∈ transaction.operations,
      invariantGate m.state operation = .ok ()) :
    ∃ s' m', Wrote s m transaction s' m' := by
  have hstate : (applyOperations transaction m.state).state.nextBoundaryRef = [] := by
    refine applyOperations_preserves (P := fun next => next.state.nextBoundaryRef = [])
      hquiet.boundary fun operation hmem next hnext => ?_
    rw [applyOperation_state]
    split
    · exact hnext
    · next hkind => exact (hboundary operation hmem hkind).elim
    · exact hnext
  exact h.write_passing transaction hkey hbase hoperations
    (successorOf_quiet hpolicy hquiet.conflicts hstate hinvariant)

/-- A reviewed transaction that keeps the invariants is applied. -/
theorem write_reviewed (h : OnHead s m) (hquiet : Quiet m.state) (operations : List Operation)
    (hoperations : operations ≠ [])
    (hboundary : ∀ operation ∈ operations, operation.kind ≠ .setNextBoundary)
    (hinvariant : ∀ operation ∈ operations, invariantGate m.state operation = .ok ()) :
    ∃ s' m', Wrote s m (reviewed m.revision operations) s' m' :=
  h.write_quiet hquiet _ (by simp [resolveKey, reviewed]) rfl hoperations
    (fun _ _ => policyGate_reviewed hquiet.policy) hboundary hinvariant

/-- So is an unkeyed transaction without handoff, outside decision acceptance. -/
theorem write_plain (h : OnHead s m) {current : Snapshot} (hstate : m.state = current)
    (hquiet : Quiet current) (operations : List Operation) (next : Snapshot)
    (hoperations : operations ≠ [])
    (hclass : ∀ operation ∈ operations, opClassOf operation.kind ≠ .decisionAcceptance)
    (hboundary : ∀ operation ∈ operations, operation.kind ≠ .setNextBoundary)
    (hinvariant : ∀ operation ∈ operations, invariantGate current operation = .ok ())
    (hnext : applyOperations { base := m.revision, operations := operations } current = next) :
    ∃ s' m', Wrote s m { base := m.revision, operations := operations } s' m' ∧
      m'.state = next := by
  subst hstate
  obtain ⟨s', m', hwrote⟩ := h.write_quiet hquiet
    { base := m.revision, operations := operations } (by simp [resolveKey]) rfl hoperations
    (fun operation hmem => policyGate_default hquiet.policy (hclass operation hmem)) hboundary
    hinvariant
  exact ⟨s', m', hwrote, hwrote.state.trans hnext⟩

end OnHead

/-! ## Evidence -/

/-- Bind one piece of evidence to a boundary. -/
def addEvidence (boundary content : Str) : Operation where
  kind := .addEvidence
  title := boundary
  payload := content

omit [Foundation] in
theorem addEvidence_passes {current : Snapshot} {boundary content : Str}
    (hboundary : boundary ≠ []) (hcontent : content ≠ []) :
    invariantGate current (addEvidence boundary content) = .ok () := by
  simp [invariantGate, addEvidenceGate, addEvidence, hboundary, hcontent]

/-- The operations each bind evidence that has a boundary and a content. -/
def EvidenceOnly (operations : List Operation) : Prop :=
  ∀ operation ∈ operations, ∃ boundary content, boundary ≠ [] ∧ content ≠ [] ∧
    operation = addEvidence boundary content

omit [Foundation] in
theorem EvidenceOnly.kind {operations : List Operation} (h : EvidenceOnly operations) :
    ∀ operation ∈ operations, operation.kind = .addEvidence := by
  intro operation hmem
  obtain ⟨boundary, content, -, -, rfl⟩ := h operation hmem
  rfl

omit [Foundation] in
/-- Genesis has room for as much evidence as the cap allows. -/
theorem EvidenceOnly.room {cap : ℕ} {operations : List Operation} (h : EvidenceOnly operations)
    (hlength : operations.length ≤ cap) : Room cap makeGenesis operations := by
  have hother : ∀ kind, kind ≠ .addEvidence → countKind kind operations = 0 :=
    fun kind hne => countKind_eq_zero fun operation hmem hkind =>
      hne (hkind.symm.trans (h.kind operation hmem))
  have hviews : standingViews [] operations = [] :=
    standingViews_eq_self (fun operation hmem => by simp [h.kind operation hmem]) []
  refine ⟨?_, by simp [makeGenesis], by simp [makeGenesis], ?_, ?_, ?_, ?_, ?_, ?_⟩
  · rw [hother _ (by decide)]
    exact Nat.zero_le cap
  · rw [hother _ (by decide)]
    exact Nat.zero_le cap
  · rw [hother _ (by decide)]
    exact Nat.zero_le cap
  · rw [show makeGenesis.evidence.length = 0 from rfl, Nat.zero_add]
    exact List.countP_le_length.trans hlength
  · rw [hother _ (by decide)]
    exact Nat.zero_le cap
  · rw [hother _ (by decide)]
    exact Nat.zero_le cap
  · rw [show makeGenesis.views.map (fun view => view.id) = [] from rfl, hviews]
    exact Nat.zero_le cap

/-- Evidence with a boundary and a content is always taken. -/
theorem OnHead.writeEvidence (h : OnHead s m) (hquiet : Quiet m.state)
    (transaction : ContextTransaction) (hkey : s.resolveKey transaction = none)
    (hbase : transaction.base = m.revision)
    (hoperations : transaction.operations ≠ []) (hevidence : EvidenceOnly transaction.operations) :
    ∃ s' m', OnHead.Wrote s m transaction s' m' ∧ m'.state = { m.state with
      evidence := m.state.evidence ++ transaction.operations.map boundEvidence } := by
  have hkind := hevidence.kind
  obtain ⟨s', m', hwrote⟩ := h.write_quiet hquiet transaction hkey hbase hoperations
    (fun operation hmem => policyGate_default hquiet.policy
      (by simp [hkind operation hmem, opClassOf]))
    (fun operation hmem => by simp [hkind operation hmem]) fun operation hmem => by
      obtain ⟨boundary, content, hboundary, hcontent, rfl⟩ := hevidence operation hmem
      exact addEvidence_passes hboundary hcontent
  exact ⟨s', m', hwrote, hwrote.state.trans (applyOperations_evidence hkind)⟩

/-! ## Genesis with evidence -/

omit [Foundation] in
theorem genesis_evidence_fits {evidence : List EvidenceRecord}
    (hshort : ∀ record ∈ evidence, Snapshot.ShortEvidence record)
    (hlength : evidence.length < 2 ^ 32) :
    Snapshot.Fits { makeGenesis with evidence := evidence } :=
  ⟨{ genesis_stringsShort with evidence := hshort },
    { genesis_vectorsWithin (by norm_num) with evidence := Nat.le_pred_of_lt hlength }⟩

/-- Other evidence, other bytes. -/
theorem serialize_ne_of_evidence {current : Snapshot} (hnext : Snapshot.Fits next)
    (hcurrent : Snapshot.Fits current) (hne : next.evidence ≠ current.evidence) :
    serializeSnapshot next ≠ serializeSnapshot current := by
  intro hbytes
  have hrestored := restored_eq_of_serialize_eq hnext hcurrent hbytes
  have hevidence : (restored next).evidence = (restored current).evidence := by rw [hrestored]
  exact hne hevidence

theorem serialize_evidence_ne {evidence : List EvidenceRecord} (hne : evidence ≠ [])
    (hshort : ∀ record ∈ evidence, Snapshot.ShortEvidence record)
    (hlength : evidence.length < 2 ^ 32) :
    serializeSnapshot { makeGenesis with evidence := evidence } ≠
      serializeSnapshot makeGenesis :=
  serialize_ne_of_evidence (genesis_evidence_fits hshort hlength) genesis_fits hne

/-- What the encoder writes before the evidence. -/
def beforeEvidence (snapshot : Snapshot) : Bytes :=
  putU8 serializationVersionLimit ++
    putStr snapshot.governance.rootPrincipal ++
    putVector putStr snapshot.constitution.articles ++
    putVector putHandoffPolicy snapshot.policy.handoff ++
    putVector putRecoveryRule snapshot.policy.recovery ++
    putState snapshot.state ++
    putVector putDecision snapshot.decisions ++
    putVector putMemoryRecord snapshot.memory ++
    putVector putObligation snapshot.obligations

/-- What it writes after the evidence. -/
def afterEvidence (snapshot : Snapshot) : Bytes :=
  putVector putConflict snapshot.conflicts ++
    putVector putProfile snapshot.profiles ++
    putVector putView snapshot.views ++
    putBool snapshot.invocation.present ++
    putVector putInvocationRule snapshot.invocation.rules ++
    putVector putRole snapshot.roles

omit [Foundation] in
theorem serializeSnapshot_evidence (snapshot : Snapshot) :
    serializeSnapshot snapshot = beforeEvidence snapshot ++
      (putVector putEvidence snapshot.evidence ++ afterEvidence snapshot) := by
  simp only [serializeSnapshot, beforeEvidence, afterEvidence, List.append_assoc]

omit [Foundation] in
/-- The byte of one piece of evidence stands alone in the encoding. -/
theorem serialize_evidence_byte (snapshot : Snapshot) (byte : UInt8) :
    serializeSnapshot { snapshot with evidence := [⟨[byte], [1]⟩] } =
      beforeEvidence snapshot ++ (putU32 1 ++ putU32 1) ++
        byte :: (putStr [1] ++ afterEvidence snapshot) := by
  have hbefore : beforeEvidence { snapshot with evidence := [⟨[byte], [1]⟩] } =
      beforeEvidence snapshot := rfl
  have hevidence : putVector putEvidence [⟨[byte], [1]⟩] =
      putU32 1 ++ putU32 1 ++ byte :: putStr [1] := rfl
  have hafter : afterEvidence { snapshot with evidence := [⟨[byte], [1]⟩] } =
      afterEvidence snapshot := rfl
  rw [serializeSnapshot_evidence, hbefore, hevidence, hafter]
  simp only [List.append_assoc, List.cons_append]

omit [Foundation] in
/-- The byte of the last piece of evidence stands alone in the encoding. -/
theorem serialize_evidence_last (snapshot : Snapshot) (past : List EvidenceRecord) :
    ∃ before after, ∀ byte,
      serializeSnapshot { snapshot with evidence := past ++ [⟨[byte], [1]⟩] } =
        before ++ byte :: after := by
  refine ⟨beforeEvidence snapshot ++
    (putU32 (UInt32.ofNat (past.length + 1)) ++ (past.flatMap putEvidence ++ putU32 1)),
    putStr [1] ++ afterEvidence snapshot, fun byte => ?_⟩
  have hlast : putEvidence ⟨[byte], [1]⟩ = putU32 1 ++ byte :: putStr [1] := rfl
  have hbefore : beforeEvidence { snapshot with evidence := past ++ [⟨[byte], [1]⟩] } =
      beforeEvidence snapshot := rfl
  have hafter : afterEvidence { snapshot with evidence := past ++ [⟨[byte], [1]⟩] } =
      afterEvidence snapshot := rfl
  rw [serializeSnapshot_evidence, hbefore, hafter, putVector]
  simp only [List.length_append, List.length_singleton, List.flatMap_append, List.flatMap_cons,
    List.flatMap_nil, hlast, List.append_assoc, List.cons_append, List.append_nil]

/-! ## The first client -/

theorem resolveKey_fresh (h : s.receipts transaction.idempotencyKey = none) :
    s.resolveKey transaction = none := by
  simp [resolveKey, h]

/-- No call of the run is a write. -/
def NoWrites (trs : List (ServiceTransition MemoryStore)) : Prop :=
  ∀ tr ∈ trs, ∀ handle transaction grant, tr.action ≠ .writeToCognition handle transaction grant

theorem NoWrites.not_commits {trs : List (ServiceTransition MemoryStore)} (h : NoWrites trs) :
    ∀ tr ∈ trs, ∀ actor transaction entry next,
      ¬ Commits tr (.write actor transaction entry next) := by
  intro tr htr actor transaction entry next hcommits
  obtain ⟨handle, grant, -, haction, -⟩ := submits_write hcommits.1
  exact h tr htr handle transaction grant haction

theorem NoWrites.forall_commits {trs : List (ServiceTransition MemoryStore)}
    {W : AuthenticatedActor → ContextTransaction → Materialization → Snapshot → Prop}
    (h : NoWrites trs) : ∀ tr ∈ trs, ∀ actor transaction entry next,
      Commits tr (.write actor transaction entry next) → W actor transaction entry next :=
  fun tr htr actor transaction entry next hcommits =>
    (h.not_commits tr htr actor transaction entry next hcommits).elim

/-- Every write of the run carries a transaction of this kind. -/
def EveryWrite (Q : ContextTransaction → Prop) (trs : List (ServiceTransition MemoryStore)) :
    Prop :=
  ∀ tr ∈ trs, ∀ handle transaction grant,
    tr.action = .writeToCognition handle transaction grant → Q transaction

section EveryWrite

variable {Q : ContextTransaction → Prop} {trs : List (ServiceTransition MemoryStore)}
  {t : ServiceState MemoryStore} {m' : Materialization}

omit [Foundation] in
theorem NoWrites.everyWrite (h : NoWrites trs) : EveryWrite Q trs :=
  fun tr htr handle transaction grant haction => (h tr htr handle transaction grant haction).elim

omit [Foundation] in
theorem EveryWrite.written (h : EveryWrite Q trs) (hthis : Q transaction) :
    EveryWrite Q (trs ++ [OnHead.written s m transaction t m']) := by
  intro tr htr handle presented grant haction
  rcases List.mem_append.mp htr with htr | htr
  · exact h tr htr handle presented grant haction
  · obtain rfl := List.mem_singleton.mp htr
    obtain ⟨-, rfl, -⟩ : some m = handle ∧ transaction = presented ∧ firstGrant = grant := by
      simpa [OnHead.written] using haction
    exact hthis

omit [Foundation] in
theorem EveryWrite.booted {source : CognitionSource} {answer : Answer} (h : EveryWrite Q trs) :
    EveryWrite Q (trs ++ [⟨s, .createCognition source, answer, t⟩]) := by
  intro tr htr handle transaction grant haction
  rcases List.mem_append.mp htr with htr | htr
  · exact h tr htr handle transaction grant haction
  · obtain rfl := List.mem_singleton.mp htr
    simp at haction

end EveryWrite

/-- The first client of a process takes the lease on what it has booted. -/
theorem exists_leased (booted : ServiceState MemoryStore) (hlive : booted.live = [m])
    (hpromoted : m.quarantine = .promoted) (hhead : booted.store.head = m.revision)
    (hnamed : m.revision ≠ {}) (hgoverned : m.state.governance = makeGenesis.governance)
    (hfresh : m.address < booted.nextAddress) (hlease : booted.activeGrantId = {})
    (hgeneration : booted.grantGeneration = 0) (hepoch : booted.epoch = 1)
    (hidentity : booted.identity = none) :
    ∃ leased, booted.step (.acquireGrant rootActor .supervisedForeground) =
        some (.granted (some firstGrant), leased) ∧ OnHead leased m ∧
      leased.store = booted.store ∧ leased.receipts = booted.receipts := by
  have hstoreHead : CognitionStore.head booted.withIdentity.store = m.revision := hhead
  have hmem : m ∈ booted.withIdentity.live := hlive ▸ List.mem_singleton_self m
  obtain ⟨entry, hentry⟩ := exists_liveHead hmem hstoreHead hpromoted
  obtain rfl : entry = m := by
    have hthis : entry ∈ booted.live := (liveHead_some hentry).1
    simpa [hlive] using hthis
  have hcanonical := canonicalHead_of_liveHead (hstoreHead ▸ hnamed) hentry
  have hport : booted.withIdentity.identity = some rootPrincipalVerifier := by
    simp [withIdentity, hidentity]
  have hverified : booted.withIdentity.verifies rootActor = true := by
    unfold verifies
    rw [hcanonical, hport]
    simp only [rootPrincipalVerifier, hgoverned]
    decide
  refine ⟨{ booted.withIdentity with
    activeGrantId := firstGrant.id
    grantActor := rootActor
    grantGeneration := 1 }, ?_, ?_, rfl, rfl⟩
  · simp only [step, acquireGrant]
    rw [if_neg (by rw [hlease]; decide), if_neg (by simp [hverified])]
    have hgeneration' : booted.withIdentity.grantGeneration = 0 := hgeneration
    have hepoch' : booted.withIdentity.epoch = 1 := hepoch
    simp only [hgeneration', hepoch']
    rfl
  · have hsingle : ∀ other ∈ booted.live, other = entry := by simp [hlive]
    refine ⟨hmem, fun other hother _ => hsingle other hother, fun other hother => ?_,
      fun other hother => ?_, hpromoted, hhead, hnamed, rfl, rfl, hport⟩
    · rw [hsingle other hother]
      exact hfresh
    · rw [hsingle other hother]
      exact hgoverned

/-- Boot an empty store; the lease is there for the root actor to take. -/
theorem exists_boot :
    ∃ booted leased m, (ServiceState.start ({} : MemoryStore)).step (.createCognition {}) =
        some (.created (.handle m), booted) ∧
      booted.step (.acquireGrant rootActor .supervisedForeground) =
        some (.granted (some firstGrant), leased) ∧ OnHead leased m ∧ booted.live = [m] ∧
      m.state = makeGenesis ∧ m.revision = revisionOf {} (serializeSnapshot makeGenesis) ∧
      booted.store.revisions = [(m.revision, serializeSnapshot makeGenesis)] ∧
      leased.store = booted.store ∧ (∀ key, leased.receipts key = none) := by
  let bytes := serializeSnapshot makeGenesis
  let revision := revisionOf {} bytes
  let start : ServiceState MemoryStore := ServiceState.start {}
  let m := start.minted makeGenesis bytes revision .promoted
  let booted : ServiceState MemoryStore :=
    ({ start with store := ({} : MemoryStore).append revision bytes } :
      ServiceState MemoryStore).register m
  have hboot : start.createCognition {} = (.handle m, booted) := by
    have hload : start.loadCanonical {} = (.ok (bytes, revision),
        { start with store := ({} : MemoryStore).append revision bytes }) := rfl
    simp only [createCognition, hload]
    rw [show bytes = serializeSnapshot makeGenesis from rfl, mint_genesis]
    rfl
  have hfirst : start.step (.createCognition {}) = some (.created (.handle m), booted) := by
    simp only [step, hboot]
  obtain ⟨leased, hsecond, honHead, hstore, hreceipts⟩ := exists_leased (m := m) booted
    rfl rfl rfl (revisionOf_ne_empty _ _) rfl (Nat.lt_succ_self _) rfl rfl rfl rfl
  exact ⟨booted, leased, m, hfirst, hsecond, honHead, rfl, rfl, rfl, rfl, hstore,
    fun key => congrFun hreceipts key⟩

/-- Boot an empty store and take the lease. -/
theorem exists_onHead :
    ∃ trs s m, ServiceRun (ServiceState.start ({} : MemoryStore)) trs s ∧ OnHead s m ∧
      m.state = makeGenesis ∧ m.revision = revisionOf {} (serializeSnapshot makeGenesis) ∧
      s.store.revisions = [(m.revision, serializeSnapshot makeGenesis)] ∧
      (∀ key, s.receipts key = none) ∧
      trs.map Transition.action =
        [.createCognition {}, .acquireGrant rootActor .supervisedForeground] ∧
      NoWrites trs := by
  obtain ⟨booted, leased, m, hfirst, hsecond, honHead, -, hstate, hrevision, hrevisions, hstore,
    hreceipts⟩ := exists_boot
  exact ⟨_, leased, m, ((Run.nil _).snoc hfirst).snoc hsecond, honHead, hstate, hrevision,
    hstore ▸ hrevisions, hreceipts, rfl, by simp [NoWrites]⟩

/-- A store whose only revision holds the bytes of the snapshot. -/
def preexisting (snapshot : Snapshot) : MemoryStore :=
  (default : MemoryStore).append (revisionOf {} (serializeSnapshot snapshot))
    (serializeSnapshot snapshot)

/-- Boot a chain that was there before; the lease is there for the root actor to take. -/
theorem exists_booted {snapshot : Snapshot}
    (hparsed : deserialize (serializeSnapshot snapshot) = .ok snapshot)
    (hgoverned : snapshot.governance = makeGenesis.governance) :
    ∃ trs booted leased m, ServiceRun (ServiceState.start (preexisting snapshot)) trs booted ∧
      booted.step (.acquireGrant rootActor .supervisedForeground) =
        some (.granted (some firstGrant), leased) ∧ OnHead leased m ∧ m.state = snapshot ∧
      m.revision = revisionOf {} (serializeSnapshot snapshot) ∧
      leased.store = preexisting snapshot ∧ ∀ key, leased.receipts key = none := by
  let start := ServiceState.start (preexisting snapshot)
  have hbytes : CognitionStore.materialize start.store (CognitionStore.head start.store) =
      serializeSnapshot snapshot := by
    change (preexisting snapshot).materialize (revisionOf {} (serializeSnapshot snapshot)) = _
    have hnone : (default : MemoryStore).revisions = [] := rfl
    simp [preexisting, MemoryStore.materialize, hnone]
  obtain ⟨-, m, hm, hcreate⟩ := createCognition_head (s := start) (hbytes.symm ▸ hparsed)
  have hfirst : start.step (.createCognition {}) =
      some (.created (.handle m), start.register m) := by
    simp only [step, hcreate]
  have hstate : m.state = snapshot := by rw [hm]; rfl
  have hpromoted : m.quarantine = .promoted := by rw [hm]; rfl
  have hrevision : m.revision = revisionOf {} (serializeSnapshot snapshot) := by rw [hm]; rfl
  have haddress : m.address = start.nextAddress := by rw [hm]; rfl
  obtain ⟨leased, hsecond, honHead, hstore, hreceipts⟩ :=
    exists_leased (start.register m) rfl hpromoted hrevision.symm
      (hrevision ▸ revisionOf_ne_empty _ _) (hstate ▸ hgoverned) (haddress ▸ Nat.lt_succ_self _)
      rfl rfl rfl rfl
  exact ⟨_, start.register m, leased, m, (Run.nil start).snoc hfirst, hsecond, honHead, hstate,
    hrevision, hstore, fun key => congrFun hreceipts key⟩

/-- Where genesis is the only revision, it is the head. -/
theorem storedHead_of_genesis {s : ServiceState MemoryStore} {revision : RevisionId}
    (h : s.store.revisions = [(revision, serializeSnapshot makeGenesis)]) :
    s.store.head = revision ∧ s.storedHead = .ok makeGenesis := by
  have hhead : s.store.head = revision := by
    rw [s.store.head_eq, h]
    rfl
  have hbytes : CognitionStore.materialize s.store (CognitionStore.head s.store) =
      serializeSnapshot makeGenesis := by
    change s.store.materialize s.store.head = _
    rw [hhead]
    simp [MemoryStore.materialize, h]
  exact ⟨hhead, by rw [storedHead, hbytes, deserialize_genesis]⟩

/-- A new process on a store with a head boots it and takes the lease. -/
theorem exists_rebooted {store : MemoryStore} {snapshot : Snapshot} (hhead : store.head ≠ {})
    (hparsed : (ServiceState.start store).storedHead = .ok snapshot)
    (hgoverned : snapshot.governance = makeGenesis.governance) :
    ∃ booted leased m, (ServiceState.start store).step (.createCognition {}) =
        some (.created (.handle m), booted) ∧
      booted.step (.acquireGrant rootActor .supervisedForeground) =
        some (.granted (some firstGrant), leased) ∧ OnHead leased m ∧ m.state = snapshot ∧
      m.address = (ServiceState.start store).nextAddress ∧ leased.store = store ∧
      ∀ key, leased.receipts key = none := by
  let start := ServiceState.start store
  obtain ⟨-, m, hm, hcreate⟩ := createCognition_head (s := start) hparsed
  have hboot : start.step (.createCognition {}) =
      some (.created (.handle m), start.register m) := by
    simp only [step, hcreate]
  have hstate : m.state = snapshot := by rw [hm]; rfl
  have hpromoted : m.quarantine = .promoted := by rw [hm]; rfl
  have hrevision : m.revision = store.head := by rw [hm]; rfl
  have haddress : m.address = start.nextAddress := by rw [hm]; rfl
  obtain ⟨leased, hlease, honHead, hstore, hreceipts⟩ :=
    exists_leased (start.register m) rfl hpromoted hrevision.symm (hrevision ▸ hhead)
      (hstate ▸ hgoverned) (haddress ▸ Nat.lt_succ_self _) rfl rfl rfl rfl
  exact ⟨start.register m, leased, m, hboot, hlease, honHead, hstate, haddress, hstore,
    fun key => congrFun hreceipts key⟩

/-- Boot it and take the lease. -/
theorem exists_onHead_preexisting {snapshot : Snapshot}
    (hparsed : deserialize (serializeSnapshot snapshot) = .ok snapshot)
    (hgoverned : snapshot.governance = makeGenesis.governance) :
    ∃ trs s m, ServiceRun (ServiceState.start (preexisting snapshot)) trs s ∧ OnHead s m ∧
      m.state = snapshot ∧ (∀ key, s.receipts key = none) := by
  obtain ⟨trs, booted, leased, m, hrun, hacquired, honHead, hstate, -, -, hreceipts⟩ :=
    exists_booted hparsed hgoverned
  exact ⟨_, leased, m, hrun.snoc hacquired, honHead, hstate, hreceipts⟩

theorem OnHead.Wrote.sizedRun {cap : ℕ} {trs : List (ServiceTransition MemoryStore)}
    {t : ServiceState MemoryStore} {m' : Materialization} (hnone : NoWrites trs)
    (h : OnHead.Wrote s m transaction t m') (hshort : ShortTransaction transaction)
    (hroom : Room cap m.state transaction.operations) :
    SizedRun cap (trs ++ [OnHead.written s m transaction t m']) :=
  h.forall_commits hnone.forall_commits ⟨hshort.stored, hroom⟩

/-! ## A keyed write -/

/-- One piece of evidence under the key `key`. -/
def keyedEvidence (base : RevisionId) : ContextTransaction where
  base := base
  operations := [addEvidence (lit "boundary") (lit "content")]
  idempotencyKey := lit "key"

omit [Foundation] in
theorem keyedEvidence_evidenceOnly (base : RevisionId) :
    EvidenceOnly (keyedEvidence base).operations := by
  intro operation hmem
  obtain rfl := List.mem_singleton.mp hmem
  exact ⟨_, _, by decide, by decide, rfl⟩

omit [Foundation] in
theorem keyedEvidence_short (base : RevisionId) : ShortTransaction (keyedEvidence base) := by
  refine ⟨short_nil, fun operation hmem => ?_⟩
  obtain rfl := List.mem_singleton.mp hmem
  exact ⟨by decide, by decide, by decide, by decide⟩

theorem keyedEvidence_new (base : RevisionId) :
    serializeSnapshot { makeGenesis with
      evidence := makeGenesis.evidence ++ (keyedEvidence base).operations.map boundEvidence } ≠
        serializeSnapshot makeGenesis := by
  refine serialize_evidence_ne (by simp [keyedEvidence]) ?_ (by simp [keyedEvidence, makeGenesis])
  intro record hmem
  obtain rfl := List.mem_singleton.mp hmem
  exact ⟨by decide, by decide⟩

/-- A first client writes the keyed evidence, and holds the new head. -/
theorem exists_keyedEvidence :
    ∃ trs s m t m', ServiceRun (ServiceState.start ({} : MemoryStore)) trs s ∧ NoWrites trs ∧
      OnHead.Wrote s m (keyedEvidence m.revision) t m' ∧ m.state = makeGenesis ∧
      t.store ≠ s.store ∧ t.receipts (lit "key") = some
        ⟨requestDigestOf (keyedEvidence m.revision),
          { outcome := .applied, successor := some m' }⟩ := by
  obtain ⟨trs, s, m, hrun, honHead, hstate, -, hrevisions, hreceipts, -, hnone⟩ := exists_onHead
  obtain ⟨t, m', hwrote, hstate'⟩ :=
    honHead.writeEvidence (hstate ▸ genesis_quiet) (keyedEvidence m.revision)
      (resolveKey_fresh (hreceipts _)) rfl (by simp [keyedEvidence])
      (keyedEvidence_evidenceOnly _)
  have hnew : s.store.headBytes ≠ some (serializeSnapshot m'.state) := by
    have hbytes : s.store.headBytes = some (serializeSnapshot makeGenesis) := by
      simp [MemoryStore.headBytes, hrevisions]
    rw [hbytes, hstate', hstate]
    exact fun hsame => keyedEvidence_new m.revision (Option.some.inj hsame).symm
  refine ⟨trs, s, m, t, m', hrun, hnone, hwrote, hstate, fun hsame => ?_, ?_⟩
  · have hlength := congrArg List.length (hwrote.revisions honHead hnew).1
    rw [hsame] at hlength
    simp at hlength
  · have hkey : (keyedEvidence m.revision).idempotencyKey = lit "key" := rfl
    rw [hwrote.receipts, record_receipts hkey (by decide)]
    simp

theorem exists_keyedEvidence_sized :
    ∃ trs s m t m', ServiceRun (ServiceState.start ({} : MemoryStore))
        (trs ++ [OnHead.written s m (keyedEvidence m.revision) t m']) t ∧
      SizedRun 100000 (trs ++ [OnHead.written s m (keyedEvidence m.revision) t m']) ∧
      NoWrites trs ∧ OnHead.Wrote s m (keyedEvidence m.revision) t m' := by
  obtain ⟨trs, s, m, t, m', hrun, hnone, hwrote, hstate, -⟩ := exists_keyedEvidence
  have hroom : Room 100000 m.state (keyedEvidence m.revision).operations := by
    rw [hstate]
    exact (keyedEvidence_evidenceOnly m.revision).room (by simp [keyedEvidence])
  exact ⟨trs, s, m, t, m', hwrote.run hrun, hwrote.sizedRun hnone
    (keyedEvidence_short _) hroom, hnone, hwrote⟩

end QivenContext
