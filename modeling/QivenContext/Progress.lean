import QivenContext.Boot
import QivenContext.Freeze
import QivenContext.Scenario

/-!
# A chain that takes evidence

Whatever was committed, the chain can be worked on: a process that boots it and
takes the lease resolves what conflicts are open in one transaction, and then its
evidence is taken. No policy, no conflict and no boundary that the gates let through
keeps it out for good.
-/

namespace QivenContext

open Library ServiceState

/-- Nothing in the snapshot keeps the root principal from resolving conflicts. -/
structure Serviceable (snapshot : Snapshot) : Prop where
  governance : snapshot.governance = makeGenesis.governance
  policy : snapshot.policy = makeDefaultPolicy
  boundary : boundaryGate snapshot = .ok ()
  agreed : ∀ conflict ∈ snapshot.conflicts, ∀ other ∈ snapshot.conflicts,
    conflict.id = other.id → conflict.status = other.status

section Snapshots

variable {current next : Snapshot} {transaction : ContextTransaction} {operation : Operation}

theorem serviceable_genesis : Serviceable makeGenesis :=
  ⟨rfl, rfl, by decide, by simp [makeGenesis]⟩

theorem boundaryGate_congr (hstate : next.state = current.state)
    (hobligations : next.obligations = current.obligations) :
    boundaryGate next = boundaryGate current := by
  unfold boundaryGate
  rw [hstate, hobligations]

theorem serviceable_restored (h : Serviceable current) : Serviceable (restored current) := by
  refine ⟨h.governance, h.policy, ?_, h.agreed⟩
  have hboundary := h.boundary
  simp only [boundaryGate, refuseIf_eq_ok, not_and, not_not] at hboundary ⊢
  intro hnamed
  obtain ⟨obligation, hmem, hid, hstatus⟩ := hboundary hnamed
  exact ⟨restoredObligation obligation, List.mem_map_of_mem hmem, hid, hstatus⟩

/-! ## Conflicts of one id -/

@[simp] theorem resolveIn_id (conflict : Conflict) :
    (resolveIn operation conflict).id = conflict.id := by
  unfold resolveIn
  split <;> rfl

theorem resolveIn_status (conflict : Conflict) : (resolveIn operation conflict).status =
    if conflict.id = operation.title then .resolved else conflict.status := by
  unfold resolveIn
  split <;> rfl

/-- Along the loop, conflicts that were there agree, and new ones are open. -/
structure Agreeing (current next : Snapshot) : Prop where
  known : ∀ conflict ∈ next.conflicts, ∀ other ∈ next.conflicts, conflict.id = other.id →
    (∃ earlier ∈ current.conflicts, earlier.id = conflict.id) → conflict.status = other.status
  fresh : ∀ conflict ∈ next.conflicts, (∀ earlier ∈ current.conflicts,
    earlier.id ≠ conflict.id) → conflict.status = .isOpen

theorem Agreeing.agreed (h : Agreeing current next) :
    ∀ conflict ∈ next.conflicts, ∀ other ∈ next.conflicts,
      conflict.id = other.id → conflict.status = other.status := by
  intro conflict hconflict other hother hid
  by_cases hknown : ∃ earlier ∈ current.conflicts, earlier.id = conflict.id
  · exact h.known conflict hconflict other hother hid hknown
  · have hnew : ∀ earlier ∈ current.conflicts, earlier.id ≠ conflict.id :=
      fun earlier hearlier hsame => hknown ⟨earlier, hearlier, hsame⟩
    rw [h.fresh conflict hconflict hnew, h.fresh other hother (hid ▸ hnew)]

theorem Agreeing.applyOperation {ref : Str} (h : Agreeing current next)
    (hgate : invariantGate current operation = .ok ()) :
    Agreeing current (applyOperation ref next operation) := by
  cases hkind : operation.kind with
  | openConflict =>
      have hfresh := openConflict_passed hgate hkind
      have hconflicts : (QivenContext.applyOperation ref next operation).conflicts =
          next.conflicts ++ [openedConflict operation] := by
        rw [applyOperation_conflicts, hkind]
      constructor
      · intro conflict hconflict other hother hid hknown
        obtain ⟨earlier, hearlier, hsame⟩ := hknown
        have hne : conflict.id ≠ operation.title := hsame ▸ hfresh earlier hearlier
        rw [hconflicts] at hconflict hother
        rcases List.mem_append.mp hconflict with hconflict | hconflict
        · rcases List.mem_append.mp hother with hother | hother
          · exact h.known conflict hconflict other hother hid ⟨earlier, hearlier, hsame⟩
          · obtain rfl := List.mem_singleton.mp hother
            exact (hne hid).elim
        · obtain rfl := List.mem_singleton.mp hconflict
          exact (hne rfl).elim
      · intro conflict hconflict hnew
        rw [hconflicts] at hconflict
        rcases List.mem_append.mp hconflict with hconflict | hconflict
        · exact h.fresh conflict hconflict hnew
        · obtain rfl := List.mem_singleton.mp hconflict
          rfl
  | resolveConflict =>
      obtain ⟨first, hfirst, -⟩ := resolveConflict_passed hgate hkind
      have hid : first.id = operation.title := by simpa using List.find?_some hfirst
      have hmem : first ∈ current.conflicts := List.mem_of_find?_eq_some hfirst
      have hconflicts : (QivenContext.applyOperation ref next operation).conflicts =
          next.conflicts.map (resolveIn operation) := by
        rw [applyOperation_conflicts, hkind]
      constructor
      · intro conflict hconflict other hother hsame hknown
        rw [hconflicts] at hconflict hother
        obtain ⟨before, hbefore, rfl⟩ := List.mem_map.mp hconflict
        obtain ⟨before', hbefore', rfl⟩ := List.mem_map.mp hother
        rw [resolveIn_id] at hknown
        rw [resolveIn_id, resolveIn_id] at hsame
        rw [resolveIn_status, resolveIn_status, hsame,
          h.known before hbefore before' hbefore' hsame hknown]
      · intro conflict hconflict hnew
        rw [hconflicts] at hconflict
        obtain ⟨before, hbefore, rfl⟩ := List.mem_map.mp hconflict
        rw [resolveIn_id] at hnew
        have hother : before.id ≠ operation.title := fun hsame =>
          hnew first hmem (hid.trans hsame.symm)
        rw [resolveIn_status, if_neg hother]
        exact h.fresh before hbefore hnew
  | _ =>
      have hconflicts : (QivenContext.applyOperation ref next operation).conflicts =
          next.conflicts := by
        rw [applyOperation_conflicts, hkind]
      exact ⟨by rw [hconflicts]; exact h.known, by rw [hconflicts]; exact h.fresh⟩

theorem serviceable_applied (h : Serviceable current)
    (hgates : ∀ operation ∈ transaction.operations, invariantGate current operation = .ok ())
    (hboundary : boundaryGate (applyOperations transaction current) = .ok ()) :
    Serviceable (applyOperations transaction current) := by
  have hagreeing : Agreeing current (applyOperations transaction current) := by
    refine applyOperations_preserves (P := Agreeing current) ?_ fun operation hmem next hnext =>
      hnext.applyOperation (hgates operation hmem)
    refine ⟨fun conflict hconflict other hother hid _ =>
      h.agreed conflict hconflict other hother hid, fun conflict hconflict hnew => ?_⟩
    exact (hnew conflict hconflict rfl).elim
  refine ⟨?_, ?_, hboundary, hagreeing.agreed⟩
  · exact applyOperations_preserves (P := fun next => next.governance = makeGenesis.governance)
      h.governance fun _ _ _ hnext => applyOperation_governed.1.trans hnext
  · exact applyOperations_preserves (P := fun next => next.policy = makeDefaultPolicy)
      h.policy fun _ _ _ hnext => applyOperation_governed.2.2.1.trans hnext

/-! ## Resolving what is open -/

/-- The outcome of one conflict. -/
def settled (conflict : Conflict) : Conflict :=
  if conflict.status = .isOpen then
    { conflict with status := .resolved, resolution := lit "resolved" }
  else conflict

def resolution (conflict : Conflict) : Operation where
  kind := .resolveConflict
  title := conflict.id
  payload := lit "resolved"

/-- One resolution for each conflict that is open. -/
def resolutions (snapshot : Snapshot) : List Operation :=
  (snapshot.conflicts.filter fun conflict => conflict.status = .isOpen).map resolution

/-- All conflicts are resolved, and nothing else has changed. -/
def pacified (snapshot : Snapshot) : Snapshot :=
  { snapshot with conflicts := snapshot.conflicts.map settled }

/-- Conflicts with these ids are resolved. -/
def closedBy (ids : List Str) (conflict : Conflict) : Conflict :=
  if conflict.id ∈ ids then { conflict with status := .resolved, resolution := lit "resolved" }
  else conflict

theorem resolveIn_closedBy (conflict other : Conflict) (ids : List Str) :
    resolveIn (resolution other) (closedBy ids conflict) =
      closedBy (ids ++ [other.id]) conflict := by
  unfold resolveIn closedBy
  by_cases hmem : conflict.id ∈ ids
  · by_cases hsame : conflict.id = other.id <;> simp_all [resolution]
  · by_cases hsame : conflict.id = other.id <;> simp_all [resolution]

theorem applyOperations_resolutions (h : Serviceable current) (transaction : ContextTransaction)
    (hoperations : transaction.operations = resolutions current) :
    applyOperations transaction current = pacified current := by
  have hloop : applyOperations transaction current = { current with
      conflicts := current.conflicts.map
        (closedBy (transaction.operations.map Operation.title)) } := by
    refine applyOperations_induction (motive := fun past next => next = { current with
      conflicts := current.conflicts.map (closedBy (past.map Operation.title)) }) ?_ ?_
    · have hnone : closedBy [] = id := funext fun _ => if_neg List.not_mem_nil
      simp [hnone]
    · rintro past operation next hpast rfl
      have hmem : operation ∈ resolutions current := hoperations ▸ hpast.subset (by simp)
      obtain ⟨conflict, -, rfl⟩ := List.mem_map.mp hmem
      simp only [applyOperation, resolution, List.map_map, List.map_append, List.map_singleton]
      congr 1
      refine List.map_congr_left fun other _ => ?_
      exact resolveIn_closedBy other conflict _
  rw [hloop, pacified, hoperations]
  congr 1
  refine List.map_congr_left fun conflict hconflict => ?_
  have hiff : conflict.id ∈ (resolutions current).map Operation.title ↔
      conflict.status = .isOpen := by
    simp only [resolutions, List.map_map, List.mem_map, List.mem_filter, decide_eq_true_eq,
      Function.comp_apply, resolution]
    constructor
    · rintro ⟨other, ⟨hother, hopen⟩, hid⟩
      rw [← h.agreed other hother conflict hconflict hid, hopen]
    · exact fun hopen => ⟨conflict, ⟨hconflict, hopen⟩, rfl⟩
  simp only [closedBy, settled, hiff]

theorem resolution_passes (h : Serviceable current) {operation : Operation}
    (hmem : operation ∈ resolutions current) : invariantGate current operation = .ok () := by
  obtain ⟨conflict, hconflict, rfl⟩ := List.mem_map.mp hmem
  obtain ⟨hconflict, hopen⟩ := List.mem_filter.mp hconflict
  have hfind : ∃ first, findConflict current conflict.id = some first ∧
      first.status = .isOpen := by
    cases hfirst : findConflict current conflict.id with
    | none =>
        have hnone := List.find?_eq_none.mp hfirst conflict hconflict
        simp at hnone
    | some first =>
        have hid : first.id = conflict.id := by simpa using List.find?_some hfirst
        have hmem' : first ∈ current.conflicts := List.mem_of_find?_eq_some hfirst
        refine ⟨first, rfl, ?_⟩
        rw [h.agreed first hmem' conflict hconflict hid]
        exact of_decide_eq_true hopen
  obtain ⟨first, hfirst, hstatus⟩ := hfind
  have hpayload : (lit "resolved").isEmpty = false := by decide
  simp [invariantGate, resolution, resolveConflictGate, hfirst, hstatus, hpayload]

theorem serviceable_pacified (h : Serviceable current) : Serviceable (pacified current) := by
  rw [← applyOperations_resolutions h { operations := resolutions current } rfl]
  refine serviceable_applied h (fun _ hmem => resolution_passes h hmem) ?_
  rw [applyOperations_resolutions h _ rfl]
  exact (boundaryGate_congr rfl rfl).trans h.boundary

theorem pacified_settled {conflict : Conflict} (hmem : conflict ∈ (pacified current).conflicts) :
    conflict.status ≠ .isOpen := by
  obtain ⟨before, -, rfl⟩ := List.mem_map.mp hmem
  unfold settled
  split_ifs with hopen
  · simp
  · exact hopen

end Snapshots

section Service

variable [Foundation] {s : ServiceState MemoryStore} {m : Materialization}
  {transaction : ContextTransaction} {operations : List Operation}

/-- What passes the gates and leaves state and obligations alone is applied. -/
theorem OnHead.write_served (h : OnHead s m) (hserviceable : Serviceable m.state)
    (hoperations : operations ≠ [])
    (hclass : ∀ operation ∈ operations, opClassOf operation.kind ≠ .decisionAcceptance)
    (hconflict : ∀ operation ∈ operations, conflictGate m.state operation = .ok ())
    (hinvariant : ∀ operation ∈ operations, invariantGate m.state operation = .ok ())
    (hboundary : boundaryGate
      (applyOperations { base := m.revision, operations := operations } m.state) =
        boundaryGate m.state) :
    ∃ s' m', OnHead.Wrote s m { base := m.revision, operations := operations } s' m' := by
  refine h.write_passing _ (by simp [resolveKey]) rfl hoperations ?_
  refine successorOf_eq_ok.mpr ⟨fun operation hmem => ?_, hconflict, hinvariant, ?_, rfl⟩
  · exact policyGate_default hserviceable.policy (hclass operation hmem)
  · rw [hboundary]
    exact hserviceable.boundary

/-- An ordinary turn is applied and moves nothing. -/
theorem OnHead.ordinary (h : OnHead s m) :
    s.step (.writeToCognition (some m) { base := m.revision } firstGrant) =
      some (.verdict { outcome := .applied, successor := some m }, s) := by
  obtain ⟨governance, hhead, hgoverned⟩ := h.canonicalHead
  have hlease : ¬ (s.activeGrantId.isEmpty = true ∨ s.activeGrantId ≠ firstGrant.id) := by
    rw [h.lease]
    decide
  have hverified : rootPrincipalVerifier s.grantActor governance = true := by
    rw [h.actor]
    simp only [rootPrincipalVerifier, hgoverned]
    decide
  have hgates : s.leaseGates (some m) firstGrant = .ok (m, governance) := by
    simp only [leaseGates, h.findLive]
    rw [if_neg (not_not.mpr h.promoted), if_neg hlease, hhead, h.identity]
    exact if_pos hverified
  have hadmission : s.admission (some m) { base := m.revision } firstGrant = .ok (m, none) := by
    simp [admission, hgates, refuseIf, bind, Except.bind, pure, Except.pure]
  have hkey : s.resolveKey { base := m.revision } = none := by simp [resolveKey]
  simp only [step, writeToCognition, hkey, hadmission]

/-- The root actor resolves what is open. -/
theorem OnHead.pacify (h : OnHead s m) (hserviceable : Serviceable m.state) :
    ∃ s' m', s.step (.writeToCognition (some m)
        { base := m.revision, operations := resolutions m.state } firstGrant) =
          some (.verdict { outcome := .applied, successor := some m' }, s') ∧
      OnHead s' m' ∧ m'.state = pacified m.state := by
  by_cases hnone : resolutions m.state = []
  · refine ⟨s, m, ?_, h, ?_⟩
    · rw [hnone]
      exact h.ordinary
    · have hloop := applyOperations_resolutions hserviceable
        { operations := resolutions m.state } rfl
      rw [← hloop, hnone]
      rfl
  · have hkind (operation : Operation) (hmem : operation ∈ resolutions m.state) :
        operation.kind = .resolveConflict := by
      obtain ⟨conflict, -, rfl⟩ := List.mem_map.mp hmem
      rfl
    have hnext := applyOperations_resolutions hserviceable
      { base := m.revision, operations := resolutions m.state } rfl
    obtain ⟨s', m', hwrote⟩ := h.write_served hserviceable hnone
      (fun operation hmem => by simp [hkind operation hmem, opClassOf])
      (fun operation hmem => if_pos (.inr (hkind operation hmem)))
      (fun operation hmem => resolution_passes hserviceable hmem)
      (by rw [hnext]; exact boundaryGate_congr rfl rfl)
    exact ⟨s', m', hwrote.step, hwrote.onHead, hwrote.state.trans hnext⟩

/-- Once nothing is open, evidence is taken. -/
theorem OnHead.take (h : OnHead s m) (hserviceable : Serviceable m.state)
    (hsettled : ∀ conflict ∈ m.state.conflicts, conflict.status ≠ .isOpen)
    (hsome : operations ≠ []) (hevidence : EvidenceOnly operations) :
    ∃ s' m', s.step (.writeToCognition (some m)
        { base := m.revision, operations := operations } firstGrant) =
          some (.verdict { outcome := .applied, successor := some m' }, s') ∧
      OnHead s' m' ∧ m'.state = { m.state with
        evidence := m.state.evidence ++ operations.map boundEvidence } := by
  have hkind := hevidence.kind
  have hnext : applyOperations { base := m.revision, operations := operations } m.state =
      { m.state with evidence := m.state.evidence ++ operations.map boundEvidence } :=
    applyOperations_evidence hkind
  have hconflict (operation : Operation) (hmem : operation ∈ operations) :
      conflictGate m.state operation = .ok () := by
    unfold conflictGate
    rw [if_neg (by simp [hkind operation hmem]), refuseIf_eq_ok]
    rintro ⟨conflict, hconflict, hopen, -⟩
    exact hsettled conflict hconflict hopen
  have hinvariant (operation : Operation) (hmem : operation ∈ operations) :
      invariantGate m.state operation = .ok () := by
    obtain ⟨boundary, content, hboundary, hcontent, rfl⟩ := hevidence operation hmem
    exact addEvidence_passes hboundary hcontent
  obtain ⟨s', m', hwrote⟩ := h.write_served hserviceable hsome
    (fun operation hmem => by simp [hkind operation hmem, opClassOf]) hconflict hinvariant
    (by rw [hnext]; exact boundaryGate_congr rfl rfl)
  exact ⟨s', m', hwrote.step, hwrote.onHead, hwrote.state.trans hnext⟩

/-- The snapshot that a sized run leaves at the head. -/
theorem exists_served {past : List (ServiceTransition MemoryStore)}
    (hrun : ServiceRun (ServiceState.start ({} : MemoryStore)) past s)
    (hsized : SizedRun 100000 past) (hhead : CognitionStore.head s.store ≠ {}) :
    ∃ snapshot, s.storedHead = .ok snapshot ∧ Serviceable snapshot := by
  have hwrite : ∀ tr ∈ past, ∀ actor transaction entry next,
      Commits tr (.write actor transaction entry next) → Serviceable entry.state →
        Serviceable next := by
    intro tr _ actor transaction entry next hcommits hentry
    obtain ⟨handle, grant, governance, -, -, -, hadmitted⟩ := submits_write hcommits.1
    obtain ⟨-, -, hgates, hboundary, rfl⟩ := successorOf_eq_ok.mp hadmitted.successor
    exact serviceable_applied hentry hgates hboundary
  obtain ⟨hrooted, -⟩ := rooted_of_sizedRun (Q := Serviceable) (by norm_num) (by norm_num) rfl hrun
    hsized serviceable_genesis (fun _ => serviceable_restored) hwrite
  obtain ⟨snapshot, hsnapshot, hbytes⟩ := hrooted.head_encodes hhead
  refine ⟨restored snapshot, ?_, serviceable_restored hsnapshot.own⟩
  rw [storedHead, hbytes, deserialize_serialize hsnapshot.strings hsnapshot.vectors]

/-- A process that starts on the store of any sized run boots, takes the lease,
resolves what is open and has its evidence taken; nothing else changes at the head. -/
theorem evidence_always_lands {past : List (ServiceTransition MemoryStore)}
    (hrun : ServiceRun (ServiceState.start ({} : MemoryStore)) past s)
    (hsized : SizedRun 100000 past) (hhead : CognitionStore.head s.store ≠ {})
    (hsome : operations ≠ []) (hevidence : EvidenceOnly operations) :
    ∃ snapshot m m' m'' trs t, s.storedHead = .ok snapshot ∧
      ServiceRun (ServiceState.start s.store) trs t ∧
      trs.map Transition.action = [.createCognition {},
        .acquireGrant rootActor .supervisedForeground,
        .writeToCognition (some m)
          { base := m.revision, operations := resolutions snapshot } firstGrant,
        .writeToCognition (some m') { base := m'.revision, operations := operations } firstGrant] ∧
      trs.map Transition.answer = [.created (.handle m), .granted (some firstGrant),
        .verdict { outcome := .applied, successor := some m' },
        .verdict { outcome := .applied, successor := some m'' }] ∧
      CognitionStore.head t.store = m''.revision ∧
      m''.state = { pacified snapshot with
        evidence := snapshot.evidence ++ operations.map boundEvidence } := by
  obtain ⟨snapshot, hstored, hserviceable⟩ := exists_served hrun hsized hhead
  obtain ⟨booted, leased, m, hboot, hlease, honHead, hstate, -⟩ :=
    exists_rebooted hhead hstored hserviceable.governance
  obtain ⟨between, m', hfirst, honHead', hstate'⟩ := honHead.pacify (hstate ▸ hserviceable)
  rw [hstate] at hfirst hstate'
  obtain ⟨t, m'', hsecond, honHead'', hstate''⟩ := honHead'.take
    (hstate' ▸ serviceable_pacified hserviceable)
    (fun conflict hmem => pacified_settled (hstate' ▸ hmem)) hsome hevidence
  have hleased := ((Run.nil (ServiceState.start s.store)).snoc hboot).snoc hlease
  have hrun' := (hleased.snoc hfirst).snoc hsecond
  refine ⟨snapshot, m, m', m'', _, t, hstored, hrun', rfl, rfl, honHead''.head, ?_⟩
  rw [hstate'', hstate']
  rfl

end Service

open scoped QivenContext.Reference in
/-- Evidence lands on a head under an open conflict without a scope. -/
theorem frozen_evidence_lands :
    ∃ (past trs : List (ServiceTransition MemoryStore)) (s t : ServiceState MemoryStore)
      (m m' : Materialization) (snapshot : Snapshot),
        ServiceRun (ServiceState.start {}) past s ∧ OnHead s m ∧
        OpenAll (lit "conflict") m.state ∧ ServiceRun (ServiceState.start s.store) trs t ∧
        CognitionStore.head t.store = m'.revision ∧ m'.state.evidence = snapshot.evidence ++
          [boundEvidence (addEvidence (lit "boundary") (lit "content"))] := by
  obtain ⟨past, s, m, hrun, honHead, hstate, -, -, -, -, hnone⟩ := exists_onHead
  obtain ⟨t, m', hwrote⟩ := honHead.write_openAll (by rw [hstate]; rfl) (by rw [hstate]; rfl)
    (lit "conflict") (by decide) (by rw [hstate]; simp [makeGenesis]) 0
  have hroom : Room 100000 m.state (opening (lit "conflict") m.revision 0).operations := by
    rw [hstate]
    refine ⟨?_, ?_, ?_, ?_, ?_, ?_, ?_, ?_, ?_⟩ <;>
      simp [makeGenesis, countKind, standingViews, amendIds, opening, openAll]
  have hsized := hwrote.sizedRun hnone (openAll_short (by decide) _ 0) hroom
  have hopen : OpenAll (lit "conflict") m'.state := by
    refine ⟨opened (lit "conflict") 0, ?_, rfl, rfl, rfl⟩
    rw [hwrote.state, hstate]
    exact List.mem_singleton.mpr rfl
  have hevidence : EvidenceOnly [addEvidence (lit "boundary") (lit "content")] :=
    fun operation hmem => ⟨_, _, by decide, by decide, List.mem_singleton.mp hmem⟩
  have hhead : CognitionStore.head t.store ≠ {} := by
    rw [show CognitionStore.head t.store = m'.revision from hwrote.onHead.head]
    exact hwrote.onHead.named
  obtain ⟨snapshot, -, -, m'', trs, u, -, hrun', -, -, hlast, hstate'⟩ :=
    evidence_always_lands (hwrote.run hrun) hsized hhead (List.cons_ne_nil _ _) hevidence
  exact ⟨_, trs, t, u, m', m'', snapshot, hwrote.run hrun, hwrote.onHead, hopen, hrun', hlast,
    by rw [hstate']; rfl⟩

end QivenContext
