import QivenContext.Lifecycle
import QivenContext.Numeral

/-!
# The next boundary

The boundary of a snapshot is set for an obligation that is open, and found
again as the first obligation with its id. The coherence gate after the apply
loop asks for any open obligation with the id, so it does not see that a
transaction has closed the first one.
-/

namespace QivenContext

open Library Snapshot ServiceState

def boundaryLine (ref : Str) (obligation : Obligation) : Str :=
  lit "next boundary: obligation " ++ ref ++ lit ": " ++ obligation.statement

def isBoundaryLine (line : Str) : Bool := (lit "next boundary: ").isPrefixOf line

/-- Where there is a boundary, every bundle has one line for it, with the
statement of an open obligation of that id. -/
def NamesOpenWork (snapshot : Snapshot) : Prop :=
  snapshot.state.nextBoundaryRef ≠ [] →
    ∀ handle : Materialization, handle.state = snapshot → ∀ query, ∃ bundle,
      buildBundle handle query = .ok bundle ∧ ∃ obligation ∈ snapshot.obligations,
        toStringInt64 obligation.id = snapshot.state.nextBoundaryRef ∧
        obligation.status = .isOpen ∧ bundle.mandatoryInputs.filter isBoundaryLine =
          [boundaryLine snapshot.state.nextBoundaryRef obligation]

section Floor

variable {snapshot : Snapshot} {handle : Materialization} {query : Query} {floor : List Str}

theorem filter_boundaryLine (hfloor : boundaryFloor snapshot = .ok floor) :
    ∃ inputs, mandatoryInputs snapshot = .ok inputs ∧
      inputs.filter isBoundaryLine = floor.filter isBoundaryLine := by
  have hgovernance (text : Str) : isBoundaryLine (lit "governance: " ++ text) = false := rfl
  have hconstitution (text : Str) : isBoundaryLine (lit "constitution: " ++ text) = false := rfl
  have hobjective (text : Str) : isBoundaryLine (lit "objective: " ++ text) = false := rfl
  have hconflict (text : Str) : isBoundaryLine (lit "OPEN CONFLICT " ++ text) = false := rfl
  have hnegative (text : Str) : isBoundaryLine (lit "negative knowledge: " ++ text) = false := rfl
  refine ⟨_, by simp only [mandatoryInputs, hfloor]; rfl, ?_⟩
  simp [List.filter_append, List.filter_map, Function.comp_def, hgovernance, hconstitution,
    hobjective, hconflict, hnegative]

/-- The first obligation that the boundary finds is open. -/
def OpenBoundary (snapshot : Snapshot) : Prop :=
  snapshot.state.nextBoundaryRef = [] ∨ ∃ id obligation,
    snapshot.state.nextBoundaryRef = toStringInt64 id ∧
      findObligation snapshot id = some obligation ∧ obligation.status = .isOpen

theorem toStringInt64_ne_nil (id : Int64) : toStringInt64 id ≠ [] := by
  unfold toStringInt64
  split
  · exact List.append_ne_nil_of_right_ne_nil _ (decimal_ne_nil _)
  · exact decimal_ne_nil _

theorem boundaryFloor_of_find {id : Int64} {obligation : Obligation}
    (href : snapshot.state.nextBoundaryRef = toStringInt64 id)
    (hfind : findObligation snapshot id = some obligation) :
    boundaryFloor snapshot = .ok [boundaryLine snapshot.state.nextBoundaryRef obligation] := by
  have hne : ¬ snapshot.state.nextBoundaryRef.isEmpty :=
    mt List.isEmpty_iff.mp (href ▸ toStringInt64_ne_nil id)
  have hid : stoll snapshot.state.nextBoundaryRef = .ok id := href ▸ stoll_toStringInt64 id
  simp only [boundaryFloor, if_neg hne, hid, bind, Except.bind, hfind]
  rfl

theorem mem_of_findObligation {id : Int64} {obligation : Obligation}
    (hfind : findObligation snapshot id = some obligation) :
    obligation ∈ snapshot.obligations ∧ obligation.id = id :=
  ⟨List.mem_of_find?_eq_some hfind, by simpa using List.find?_some hfind⟩

theorem OpenBoundary.namesOpenWork (h : OpenBoundary snapshot) : NamesOpenWork snapshot := by
  intro hne handle hhandle query
  obtain ⟨id, obligation, href, hfind, hopen⟩ := h.resolve_left hne
  obtain ⟨hmem, hid⟩ := mem_of_findObligation hfind
  have hfloor := boundaryFloor_of_find href hfind
  obtain ⟨inputs, hinputs, hlines⟩ := filter_boundaryLine hfloor
  have hline : isBoundaryLine (boundaryLine snapshot.state.nextBoundaryRef obligation) = true :=
    rfl
  refine ⟨_, by simp only [buildBundle, hhandle, hinputs]; rfl, obligation, hmem, ?_, hopen, ?_⟩
  · rw [hid, href]
  · rw [hlines]
    exact List.filter_cons_of_pos hline

end Floor

/-! ## The apply loop -/

section Apply

variable {current next : Snapshot} {operation : Operation} {transaction : ContextTransaction}
  {handoffEvidenceRef : Str}

/-- The reference that the operations leave: the last one set, else the old one. -/
def boundaryRef (operations : List Operation) (ref : Str) : Str :=
  operations.foldl (fun ref operation =>
    if operation.kind = .setNextBoundary then toStringInt64 operation.recordId else ref) ref

theorem boundaryRef_snoc (past : List Operation) (operation : Operation) (ref : Str) :
    boundaryRef (past ++ [operation]) ref =
      if operation.kind = .setNextBoundary then toStringInt64 operation.recordId
      else boundaryRef past ref := by
  simp [boundaryRef, List.foldl_append]

theorem boundaryRef_cases (operations : List Operation) (ref : Str) :
    boundaryRef operations ref = ref ∨ ∃ operation ∈ operations,
      operation.kind = .setNextBoundary ∧
        boundaryRef operations ref = toStringInt64 operation.recordId := by
  induction operations using List.reverseRecOn with
  | nil => exact .inl rfl
  | append_singleton past operation ih =>
      rw [boundaryRef_snoc]
      split
      · next hkind => exact .inr ⟨operation, by simp, hkind, rfl⟩
      · rcases ih with hold | ⟨earlier, hmem, hkind, href⟩
        · exact .inl hold
        · exact .inr ⟨earlier, List.mem_append_left _ hmem, hkind, href⟩

theorem nextBoundaryRef_applyOperations (transaction : ContextTransaction) (current : Snapshot) :
    (applyOperations transaction current).state.nextBoundaryRef =
      boundaryRef transaction.operations current.state.nextBoundaryRef := by
  refine applyOperations_induction (motive := fun past next =>
    next.state.nextBoundaryRef = boundaryRef past current.state.nextBoundaryRef) rfl ?_
  intro past operation next _ hnext
  rw [applyOperation_state, boundaryRef_snoc, ← hnext]
  cases operation.kind <;> rfl

/-- The operation closes the obligation with the id, or moves it. -/
def Operation.Ends (operation : Operation) (id : Int64) : Prop :=
  (operation.kind = .closeObligation ∨ operation.kind = .transitionObligation) ∧
    operation.recordId = id

/-- No operation ends the obligation that is the boundary afterwards. -/
def KeepsBoundary (current : Snapshot) (transaction : ContextTransaction) : Prop :=
  ∀ operation ∈ transaction.operations, ∀ id, operation.Ends id →
    boundaryRef transaction.operations current.state.nextBoundaryRef ≠ toStringInt64 id

theorem findObligation_of_not_ends {id : Int64} {obligation : Obligation}
    (hends : ¬ operation.Ends id) (hfind : findObligation next id = some obligation) :
    findObligation (applyOperation handoffEvidenceRef next operation) id = some obligation := by
  unfold findObligation
  rw [applyOperation_obligations]
  split
  · exact findObligation_append _ hfind
  · next hkind =>
      have hid : operation.recordId ≠ id := fun hid => hends ⟨.inl hkind, hid⟩
      rw [closeFirst, find?_updateFirst_of_ne]
      · exact hfind
      · intro other hother
        have hthis : other.id = operation.recordId := by simpa using hother
        simp [hthis, hid]
  · next hkind =>
      exact findObligation_transitionIn (fun hid => hends ⟨.inr hkind, hid.symm⟩) hfind
  · exact hfind

theorem setNextBoundary_passed (h : invariantGate current operation = .ok ())
    (hkind : operation.kind = .setNextBoundary) :
    ∃ first, findObligation current operation.recordId = some first ∧ first.status = .isOpen := by
  simp only [invariantGate, hkind, setNextBoundaryGate, refuseIf_eq_ok, not_not] at h
  simpa [Option.any_eq_true] using h

/-- What the boundary finds stays open when no operation ends it. -/
theorem openBoundary_applyOperations (h : OpenBoundary current)
    (hgates : ∀ operation ∈ transaction.operations, invariantGate current operation = .ok ())
    (hkeeps : KeepsBoundary current transaction) :
    OpenBoundary (applyOperations transaction current) := by
  have hopen : boundaryRef transaction.operations current.state.nextBoundaryRef = [] ∨
      ∃ id obligation, boundaryRef transaction.operations current.state.nextBoundaryRef =
        toStringInt64 id ∧ findObligation current id = some obligation ∧
        obligation.status = .isOpen := by
    rcases boundaryRef_cases transaction.operations current.state.nextBoundaryRef with
      hold | ⟨operation, hmem, hkind, href⟩
    · rw [hold]
      exact h
    · obtain ⟨first, hfirst, hopen⟩ := setNextBoundary_passed (hgates operation hmem) hkind
      exact .inr ⟨operation.recordId, first, href, hfirst, hopen⟩
  unfold OpenBoundary
  rw [nextBoundaryRef_applyOperations]
  refine hopen.imp_right ?_
  rintro ⟨id, obligation, href, hfind, hopen⟩
  refine ⟨id, obligation, href, ?_, hopen⟩
  refine applyOperations_preserves (P := fun next => findObligation next id = some obligation)
    hfind fun operation hmem next hnext => ?_
  exact findObligation_of_not_ends (fun hends => hkeeps operation hmem id hends href) hnext

theorem openBoundary_restored (h : OpenBoundary current) : OpenBoundary (restored current) := by
  refine h.imp_right ?_
  rintro ⟨id, obligation, href, hfind, hopen⟩
  exact ⟨id, restoredObligation obligation, href,
    by rw [findObligation_restored, hfind, Option.map_some], hopen⟩

end Apply

/-! ## Whole runs -/

/-- Along a run whose committing writes keep every count and length below
`2 ^ 32`, and where none ends the obligation that it leaves as the boundary,
the boundary of every committed snapshot names open work. -/
theorem committed_namesOpenWork [Foundation] {σ : Type} [MemoryBacked σ] {t : ServiceState σ}
    {trs : List (ServiceTransition σ)} {store : σ}
    (hempty : (MemoryBacked.memory store).revisions = [])
    (hrun : ServiceRun (ServiceState.start store) trs t) (hsized : SizedRun (2 ^ 32 - 1) trs)
    (hkeeps : EveryCommit KeepsBoundary trs) :
    ∀ snapshot, Committed trs snapshot → NamesOpenWork snapshot := by
  obtain ⟨-, -, hcommitted⟩ := rooted_of_sizedRun (Q := OpenBoundary) (by norm_num) (by norm_num)
    hempty hrun hsized (.inl rfl) (fun _ => openBoundary_restored) (by
      intro tr htr actor transaction entry next hcommits hentry
      obtain ⟨hgates, rfl⟩ := hcommits.gates
      exact openBoundary_applyOperations hentry hgates
        (hkeeps tr htr actor transaction entry _ hcommits))
  exact fun snapshot hsnapshot => (hcommitted snapshot hsnapshot).own.namesOpenWork

/-! ## The obligation that the boundary names -/

section Obliged

open scoped QivenContext.Reference

def obligedOne : Snapshot := obligedWorld [openedObligation openOne]

/-- A first client opens obligation 1, and writes operations that pass. -/
theorem exists_obliged (operations : List Operation) (hoperations : operations ≠ [])
    (hsuccessor : ∀ base, successorOf obligedOne makeGenesis.governance.rootPrincipal
      rootActor.binding { base := base, operations := operations } =
        .ok (applyOperations { base := base, operations := operations } obligedOne)) :
    ∃ trs s m t m' u m'', ServiceRun (ServiceState.start ({} : MemoryStore)) trs s ∧
      NoWrites trs ∧ m.state = makeGenesis ∧ m'.state = obligedOne ∧
      OnHead.Wrote s m { base := m.revision, operations := [openOne] } t m' ∧
      OnHead.Wrote t m' { base := m'.revision, operations := operations } u m'' := by
  obtain ⟨trs, s, m, hrun, honHead, hstate, -, -, -, -, hnone⟩ := exists_onHead
  obtain ⟨t, m', hopened, hstate'⟩ := honHead.write_plain hstate genesis_quiet [openOne]
    obligedOne (List.cons_ne_nil _ _) (by decide) (by decide) (by decide) rfl
  obtain ⟨u, m'', hwrote⟩ := hopened.onHead.write_passing
    { base := m'.revision, operations := operations } (by simp [resolveKey]) rfl hoperations
    (hstate' ▸ hsuccessor _)
  exact ⟨trs, s, m, t, m', u, m'', hrun, hnone, hstate, hstate', hopened, hwrote⟩

def boundOne : Operation where
  kind := .setNextBoundary
  recordId := 1

/-- Another obligation with the id 1. -/
def reopenOne : Operation where
  kind := .upsertObligation
  recordId := 1
  payload := lit "another"

theorem room_openOne : Room 100000 makeGenesis [openOne] :=
  ⟨by decide, by decide, by decide, by decide, by decide, by decide, by decide, by decide,
    by decide⟩

theorem room_boundOne : Room 100000 obligedOne [boundOne] :=
  ⟨by decide, by decide, by decide, by decide, by decide, by decide, by decide, by decide,
    by decide⟩

/-- What is left of the obligations and the boundary when obligation 1 is made
the boundary, closed, and opened again. -/
def closedWorld : Snapshot :=
  { obligedWorld [{ openedObligation openOne with status := .done }, openedObligation reopenOne]
    with state := { makeGenesis.state with nextBoundaryRef := toStringInt64 1 } }

theorem closedWorld_not_named : ¬ NamesOpenWork closedWorld := by
  intro hnames
  obtain ⟨bundle, hbundle, obligation, hmem, -, hopen, hline⟩ :=
    hnames (by decide) { address := 0, state := closedWorld } rfl {}
  have hfloor : boundaryFloor closedWorld = .ok [boundaryLine closedWorld.state.nextBoundaryRef
      { openedObligation openOne with status := .done }] :=
    boundaryFloor_of_find (show closedWorld.state.nextBoundaryRef = toStringInt64 1 from rfl) rfl
  obtain ⟨inputs, hinputs, hlines⟩ := filter_boundaryLine hfloor
  obtain ⟨inputs', hinputs', hrest⟩ := except_bind_eq_ok.mp hbundle
  obtain rfl : inputs = inputs' := Except.ok.inj (hinputs.symm.trans hinputs')
  obtain rfl := Except.ok.inj hrest
  rcases List.mem_pair.mp hmem with rfl | rfl
  · exact absurd hopen (by decide)
  · exact absurd (hlines.symm.trans hline) (by decide)

theorem boundOne_namesOpenWork :
    ∃ (trs : List (ServiceTransition MemoryStore)) (t : ServiceState MemoryStore)
      (snapshot : Snapshot), ServiceRun (ServiceState.start {}) trs t ∧
        Committed trs snapshot ∧ snapshot.state.nextBoundaryRef = toStringInt64 1 ∧
        ∀ snapshot, Committed trs snapshot → NamesOpenWork snapshot := by
  obtain ⟨trs, s, m, t, m', u, m'', hrun, hnone, hstate, hstate', hopened, hbound⟩ :=
    exists_obliged [boundOne] (List.cons_ne_nil _ _) fun _ => rfl
  have hrun' := hbound.run (hopened.run hrun)
  refine ⟨_, u, m''.state, hrun', hbound.committed_last _, by rw [hbound.state, hstate']; rfl,
    committed_namesOpenWork rfl hrun' ?_ ?_⟩
  · refine hbound.forall_commits (hopened.forall_commits hnone.forall_commits
      ⟨ShortTransaction.stored ⟨short_nil, ?_⟩, ?_⟩)
      ⟨ShortTransaction.stored ⟨short_nil, ?_⟩, ?_⟩
    · intro operation hmem
      obtain rfl := List.mem_singleton.mp hmem
      exact ⟨by decide, by decide, by decide, by decide⟩
    · exact hstate ▸ room_openOne.mono (by norm_num)
    · intro operation hmem
      obtain rfl := List.mem_singleton.mp hmem
      exact ⟨by decide, by decide, by decide, by decide⟩
    · exact hstate' ▸ room_boundOne.mono (by norm_num)
  · refine hbound.forall_commits (W := fun _ transaction entry _ =>
      KeepsBoundary entry.state transaction) (hopened.forall_commits hnone.forall_commits ?_) ?_
    all_goals
      intro operation hmem id hends
      obtain rfl := List.mem_singleton.mp hmem
      rcases hends.1 with hkind | hkind <;> exact absurd hkind (by decide)

/-- The transaction sets the boundary, closes what it names and opens another
obligation with its id. The bundle names the closed one. -/
theorem closed_boundary_committed :
    ∃ (trs : List (ServiceTransition MemoryStore)) (t : ServiceState MemoryStore)
      (snapshot : Snapshot), ServiceRun (ServiceState.start {}) trs t ∧
        Committed trs snapshot ∧ ¬ NamesOpenWork snapshot := by
  obtain ⟨trs, s, m, t, m', u, m'', hrun, -, -, hstate', hopened, hclosed⟩ :=
    exists_obliged [boundOne, closeOne, reopenOne] (List.cons_ne_nil _ _) fun _ => rfl
  have hworld : m''.state = closedWorld := hclosed.state.trans (by rw [hstate']; rfl)
  exact ⟨_, u, m''.state, hclosed.run (hopened.run hrun), hclosed.committed_last _,
    hworld ▸ closedWorld_not_named⟩

end Obliged

end QivenContext
