import QivenContext.Apply

/-!
# How a transaction grows a snapshot

A transaction that stores short strings keeps the strings of a snapshot short. Every
table grows by the operations of its own kind, and the links of a decision by
the supersessions that name it; a transaction that has room for all of them
under a cap keeps the vectors of the snapshot under that cap.
-/

namespace QivenContext

open Library Snapshot

variable {next s t : Snapshot} {operation : Operation} {transaction : ContextTransaction}
  {handoffEvidenceRef : Str} {cap : ℕ}

/-! ## Strings -/

structure ShortOperation (operation : Operation) : Prop where
  scope : short operation.scope
  title : short operation.title
  payload : short operation.payload
  provenanceRef : short operation.provenanceRef

/-- The strings of a transaction that go into records or into digests are short. -/
structure ShortTransaction (transaction : ContextTransaction) : Prop where
  handoffEvidenceRef : short transaction.handoffEvidenceRef
  operations : ∀ operation ∈ transaction.operations, ShortOperation operation

/-- The strings that the operation puts into records. -/
def storedTexts (handoffEvidenceRef : Str) (operation : Operation) : List Str :=
  match operation.kind with
  | .appendDecision => [operation.title, operation.payload, handoffEvidenceRef]
  | .addMemory => [operation.title, operation.payload, operation.provenanceRef]
  | .addEvidence => [operation.title, operation.payload]
  | .upsertProfile | .openConflict => [operation.title, operation.scope, operation.payload]
  | .upsertObligation | .transitionObligation | .updateState | .resolveConflict =>
      [operation.payload]
  | .amendViewSpec =>
      if operation.aux = 1 then []
      else operation.title :: beforeColon operation.scope :: afterColon operation.scope ::
        operation.payload :: splitRefs operation.provenanceRef
  | .closeObligation | .supersedeDecision | .setNextBoundary => []

/-- What the transaction puts into records is short. -/
def ShortStored (transaction : ContextTransaction) : Prop :=
  ∀ operation ∈ transaction.operations,
    ∀ text ∈ storedTexts transaction.handoffEvidenceRef operation, short text

theorem short_nil : short [] := by
  simp [short]

theorem shortProvenance_userStatement {reference : Str} (h : short reference) :
    ShortProvenance (userStatement reference) := by
  intro source hsource
  obtain rfl : source = { kind := .userStatement, reference := reference } := by
    simpa [userStatement] using hsource
  exact ⟨h, short_nil⟩

theorem short_toStringInt64 (n : Int64) : short (toStringInt64 n) :=
  (length_toStringInt64_le n).trans_lt (by norm_num)

theorem forall_mem_append_singleton {α : Type} {P : α → Prop} {as : List α} {a : α}
    (has : ∀ x ∈ as, P x) (ha : P a) : ∀ x ∈ as ++ [a], P x := by
  intro x hx
  rcases List.mem_append.mp hx with hx | hx
  · exact has x hx
  · exact List.mem_singleton.mp hx ▸ ha

theorem forall_mem_map {α β : Type} {P : α → Prop} {Q : β → Prop} {f : α → β} {as : List α}
    (has : ∀ x ∈ as, P x) (hf : ∀ x, P x → Q (f x)) : ∀ y ∈ as.map f, Q y := by
  intro y hy
  obtain ⟨x, hx, rfl⟩ := List.mem_map.mp hy
  exact hf x (has x hx)

theorem ShortDecision.supersedeIn {decision : Decision} (h : ShortDecision decision) :
    ShortDecision (supersedeIn operation decision) := by
  unfold QivenContext.supersedeIn
  dsimp only
  split <;> split <;> exact ⟨h.title, h.content, h.provenance⟩

theorem ShortObligation.transitionIn {obligation : Obligation} (h : ShortObligation obligation)
    (hpayload : short operation.payload) :
    ShortObligation (transitionIn operation obligation) := by
  unfold QivenContext.transitionIn
  split
  · exact ⟨h.triggerValue, h.statement, hpayload⟩
  · exact h

theorem ShortConflict.resolveIn {conflict : Conflict} (h : ShortConflict conflict)
    (hpayload : short operation.payload) : ShortConflict (resolveIn operation conflict) := by
  unfold QivenContext.resolveIn
  split
  · exact ⟨h.id, h.scope, h.description, hpayload⟩
  · exact h

theorem ShortTransaction.stored (h : ShortTransaction transaction) : ShortStored transaction := by
  intro operation hmem text htext
  obtain ⟨hscope, htitle, hpayload, hprovenance⟩ := h.operations operation hmem
  have hreference := h.handoffEvidenceRef
  unfold storedTexts at htext
  cases hkind : operation.kind <;> simp only [hkind] at htext
  case amendViewSpec =>
    split at htext
    · exact absurd htext List.not_mem_nil
    · simp only [List.mem_cons] at htext
      rcases htext with rfl | rfl | rfl | rfl | hsplit
      · exact htitle
      · exact (length_beforeColon_le _).trans_lt hscope
      · exact (length_afterColon_le _).trans_lt hscope
      · exact hpayload
      · exact (length_le_of_mem_splitRefs hsplit).trans_lt hprovenance
  case closeObligation | supersedeDecision | setNextBoundary =>
    exact absurd htext List.not_mem_nil
  all_goals
    simp only [List.mem_cons, List.not_mem_nil, or_false] at htext
    grind

theorem shortView_amendedView (hstored : ∀ text ∈ storedTexts handoffEvidenceRef operation,
      short text) (hkind : operation.kind = .amendViewSpec) (haux : operation.aux ≠ 1) :
    ShortView (amendedView operation) where
  id := hstored _ (by simp [storedTexts, hkind, haux, amendedView])
  agent := hstored _ (by simp [storedTexts, hkind, haux, amendedView])
  human := hstored _ (by simp [storedTexts, hkind, haux, amendedView])
  summary := hstored _ (by simp [storedTexts, hkind, haux, amendedView])
  profileRefs reference href := hstored _ (by
    have hsplit : reference ∈ splitRefs operation.provenanceRef := href
    simp [storedTexts, hkind, haux, hsplit])

theorem stringsShort_applyOperation (hnext : StringsShort next)
    (hstored : ∀ text ∈ storedTexts handoffEvidenceRef operation, short text) :
    StringsShort (applyOperation handoffEvidenceRef next operation) := by
  obtain ⟨hgovernance, hconstitution, -, hinvocation, hroles⟩ :=
    @applyOperation_governed next operation handoffEvidenceRef
  refine ⟨hgovernance ▸ hnext.rootPrincipal, hconstitution ▸ hnext.articles,
    hinvocation ▸ hnext.rules, ?_, ?_, ?_, ?_, ?_, ?_, ?_, ?_, hroles ▸ hnext.roles⟩
  · rw [applyOperation_state]
    have hstate := hnext.state
    split
    next hkind =>
      have hpayload : short operation.payload := hstored _ (by simp [storedTexts, hkind])
      exact ⟨hstate.objective, hpayload, hstate.checkpointRef, hstate.candidateRef,
        hstate.nextBoundaryRef, hstate.repositories, hstate.roadmap⟩
    next =>
      exact ⟨hstate.objective, hstate.current, hstate.checkpointRef, hstate.candidateRef,
        short_toStringInt64 _, hstate.repositories, hstate.roadmap⟩
    next => exact hstate
  · rw [applyOperation_decisions]
    split
    next hkind =>
      obtain ⟨htitle, hpayload, hreference⟩ :
          short operation.title ∧ short operation.payload ∧ short handoffEvidenceRef := by
        simpa [storedTexts, hkind] using hstored
      exact forall_mem_append_singleton hnext.decisions
        ⟨htitle, hpayload, shortProvenance_userStatement hreference⟩
    next => exact forall_mem_map hnext.decisions fun _ => ShortDecision.supersedeIn
    next => exact hnext.decisions
  · rw [applyOperation_memory]
    split
    next hkind =>
      obtain ⟨htitle, hpayload, hprovenance⟩ :
          short operation.title ∧ short operation.payload ∧ short operation.provenanceRef := by
        simpa [storedTexts, hkind] using hstored
      exact forall_mem_append_singleton hnext.memory
        ⟨htitle, hpayload, shortProvenance_userStatement hprovenance⟩
    next => exact hnext.memory
  · rw [applyOperation_obligations]
    split
    next hkind =>
      have hpayload : short operation.payload := hstored _ (by simp [storedTexts, hkind])
      exact forall_mem_append_singleton hnext.obligations ⟨short_nil, hpayload, short_nil⟩
    next =>
      intro obligation hmem
      rcases mem_updateFirst hmem with hmem | ⟨before, hbefore, -, rfl⟩
      · exact hnext.obligations obligation hmem
      · have hshort := hnext.obligations before hbefore
        exact ⟨hshort.triggerValue, hshort.statement, hshort.completionCriteria⟩
    next hkind =>
      have hpayload : short operation.payload := hstored _ (by simp [storedTexts, hkind])
      exact forall_mem_map hnext.obligations fun _ hobligation =>
        ShortObligation.transitionIn hobligation hpayload
    next => exact hnext.obligations
  · rw [applyOperation_evidence]
    split
    next hkind =>
      obtain ⟨htitle, hpayload⟩ : short operation.title ∧ short operation.payload := by
        simpa [storedTexts, hkind] using hstored
      exact forall_mem_append_singleton hnext.evidence ⟨htitle, hpayload⟩
    next => exact hnext.evidence
  · rw [applyOperation_conflicts]
    split
    next hkind =>
      obtain ⟨htitle, hscope, hpayload⟩ :
          short operation.title ∧ short operation.scope ∧ short operation.payload := by
        simpa [storedTexts, hkind] using hstored
      exact forall_mem_append_singleton hnext.conflicts ⟨htitle, hscope, hpayload, short_nil⟩
    next hkind =>
      have hpayload : short operation.payload := hstored _ (by simp [storedTexts, hkind])
      exact forall_mem_map hnext.conflicts fun _ hconflict =>
        ShortConflict.resolveIn hconflict hpayload
    next => exact hnext.conflicts
  · rw [applyOperation_profiles]
    split
    next hkind =>
      obtain ⟨htitle, hscope, hpayload⟩ :
          short operation.title ∧ short operation.scope ∧ short operation.payload := by
        simpa [storedTexts, hkind] using hstored
      exact forall_mem_append_singleton hnext.profiles ⟨htitle, hscope, hpayload⟩
    next => exact hnext.profiles
  · rw [applyOperation_views]
    split
    next hkind =>
      split
      next => exact fun view hmem => hnext.views view (List.mem_of_mem_filter hmem)
      next haux =>
        exact forall_mem_append_singleton hnext.views (shortView_amendedView hstored hkind haux)
    next => exact hnext.views

theorem stringsShort_applyOperations (hs : StringsShort s) (h : ShortStored transaction) :
    StringsShort (applyOperations transaction s) :=
  applyOperations_preserves hs fun operation hmem _ hnext =>
    stringsShort_applyOperation hnext (h operation hmem)

/-! ## Vectors -/

/-- How many operations of a kind the transaction carries. -/
def countKind (kind : Operation.Kind) (operations : List Operation) : ℕ :=
  operations.countP fun operation => operation.kind = kind

/-- The ids that supersessions record as superseded by the decision. -/
def supersededIds (id : Int64) (operations : List Operation) : List Int64 :=
  (operations.filter fun operation =>
    operation.kind = .supersedeDecision ∧ operation.successorRecordId = id).map
    fun operation => operation.recordId

/-- The ids that supersessions record as successors of the decision. -/
def successorIds (id : Int64) (operations : List Operation) : List Int64 :=
  (operations.filter fun operation =>
    operation.kind = .supersedeDecision ∧ operation.recordId = id).map
    fun operation => operation.successorRecordId

/-- An amendment adds its view id, a retirement takes out all of its name. -/
def amendIds (ids : List ContentId) (operation : Operation) : List ContentId :=
  if operation.kind = .amendViewSpec then
    if operation.aux = 1 then ids.filter fun id => id ≠ operation.title
    else ids ++ [operation.title]
  else ids

/-- The view ids left standing, given those there were. -/
def standingViews (ids : List ContentId) (operations : List Operation) : List ContentId :=
  operations.foldl amendIds ids

theorem standingViews_append_singleton (ids : List ContentId) (past : List Operation)
    (operation : Operation) :
    standingViews ids (past ++ [operation]) = amendIds (standingViews ids past) operation := by
  simp [standingViews]

theorem standingViews_eq_self {operations : List Operation}
    (h : ∀ operation ∈ operations, operation.kind ≠ .amendViewSpec) (ids : List ContentId) :
    standingViews ids operations = ids := by
  induction operations with
  | nil => rfl
  | cons operation rest ih =>
      have hkept : amendIds ids operation = ids := if_neg (h operation List.mem_cons_self)
      rw [standingViews, List.foldl_cons, hkept]
      exact ih fun other hother => h other (List.mem_cons_of_mem _ hother)

theorem countKind_eq_zero {kind : Operation.Kind} {operations : List Operation}
    (h : ∀ operation ∈ operations, operation.kind ≠ kind) : countKind kind operations = 0 :=
  List.countP_eq_zero.mpr fun operation hmem => by simpa using h operation hmem

/-- Under the cap there is room for all that the transaction adds. -/
structure Room (cap : ℕ) (current : Snapshot) (operations : List Operation) : Prop where
  decisions : current.decisions.length + countKind .appendDecision operations ≤ cap
  supersedes : ∀ decision ∈ current.decisions,
    decision.supersedes.length + (supersededIds decision.id operations).length ≤ cap
  supersededBy : ∀ decision ∈ current.decisions,
    decision.supersededBy.length + (successorIds decision.id operations).length ≤ cap
  memory : current.memory.length + countKind .addMemory operations ≤ cap
  obligations : current.obligations.length + countKind .upsertObligation operations ≤ cap
  evidence : current.evidence.length + countKind .addEvidence operations ≤ cap
  conflicts : current.conflicts.length + countKind .openConflict operations ≤ cap
  profiles : current.profiles.length + countKind .upsertProfile operations ≤ cap
  views : (standingViews (current.views.map fun view => view.id) operations).length ≤ cap

theorem Room.mono {cap' : ℕ} {operations : List Operation} (h : Room cap s operations)
    (hle : cap ≤ cap') : Room cap' s operations where
  decisions := h.decisions.trans hle
  supersedes decision hmem := (h.supersedes decision hmem).trans hle
  supersededBy decision hmem := (h.supersededBy decision hmem).trans hle
  memory := h.memory.trans hle
  obligations := h.obligations.trans hle
  evidence := h.evidence.trans hle
  conflicts := h.conflicts.trans hle
  profiles := h.profiles.trans hle
  views := h.views.trans hle

/-- A decision of the successor: one that was there, with the links the
operations added, or a new one without links. -/
inductive GrownDecision (s : Snapshot) (past : List Operation) (decision : Decision) : Prop
  | kept (before : Decision) (hmem : before ∈ s.decisions) (hid : decision.id = before.id)
      (hsupersedes : decision.supersedes = before.supersedes ++ supersededIds before.id past)
      (hsupersededBy :
        decision.supersededBy = before.supersededBy ++ successorIds before.id past)
      (hstatus : decision.status =
        if successorIds before.id past = [] then before.status else .superseded)
      (hprovenance : decision.provenance = before.provenance)
  | added (hfresh : ∀ before ∈ s.decisions, before.id ≠ decision.id)
      (hsupersedes : decision.supersedes = []) (hsupersededBy : decision.supersededBy = [])
      (hstatus : decision.status = .accepted)
      (hprovenance : decision.provenance.sources.length = 1)

/-- How the tables stand after the operations applied so far. -/
structure Grown (s : Snapshot) (past : List Operation) (next : Snapshot) : Prop where
  decisions : next.decisions.length = s.decisions.length + countKind .appendDecision past
  decision : ∀ decision ∈ next.decisions, GrownDecision s past decision
  memory : next.memory.length = s.memory.length + countKind .addMemory past
  record : ∀ record ∈ next.memory, record ∈ s.memory ∨ record.provenance.sources.length = 1
  obligations : next.obligations.length = s.obligations.length + countKind .upsertObligation past
  evidence : next.evidence.length = s.evidence.length + countKind .addEvidence past
  conflicts : next.conflicts.length = s.conflicts.length + countKind .openConflict past
  profiles : next.profiles.length = s.profiles.length + countKind .upsertProfile past
  views : next.views.map (fun view => view.id) =
    standingViews (s.views.map fun view => view.id) past
  view : ∀ view ∈ next.views, view ∈ s.views ∨ view.profileRefs.length ≤ s.profiles.length

theorem countKind_append_singleton (kind : Operation.Kind) (past : List Operation)
    (operation : Operation) :
    countKind kind (past ++ [operation]) =
      countKind kind past + if operation.kind = kind then 1 else 0 := by
  simp [countKind, List.countP_append, List.countP_singleton]

theorem findDecision_some {id : Int64} {decision : Decision}
    (h : findDecision s id = some decision) : decision ∈ s.decisions ∧ decision.id = id :=
  ⟨List.mem_of_find?_eq_some h, by simpa using List.find?_some h⟩

/-- Distinct refs that all resolve are at most as many as there are profiles. -/
theorem length_le_of_resolve {refs : List Str} (hnodup : refs.Nodup)
    (hresolve : ∀ ref ∈ refs, findProfile s ref ≠ none) : refs.length ≤ s.profiles.length := by
  have hsubset : refs ⊆ s.profiles.map fun profile => profile.id := by
    intro ref href
    obtain ⟨profile, hprofile⟩ := Option.ne_none_iff_exists'.mp (hresolve ref href)
    have hid : profile.id = ref := by simpa using List.find?_some hprofile
    exact List.mem_map.mpr ⟨profile, List.mem_of_find?_eq_some hprofile, hid⟩
  simpa using (hnodup.subperm hsubset).length_le

theorem supersededIds_append_singleton (id : Int64) (past : List Operation)
    (operation : Operation) :
    supersededIds id (past ++ [operation]) = supersededIds id past ++
      if operation.kind = .supersedeDecision ∧ operation.successorRecordId = id then
        [operation.recordId] else [] := by
  by_cases h : operation.kind = .supersedeDecision ∧ operation.successorRecordId = id
  · simp [supersededIds, h]
  · rw [if_neg h]
    simp only [supersededIds, List.filter_append, List.filter_cons, List.filter_nil, h]
    simp

theorem successorIds_append_singleton (id : Int64) (past : List Operation)
    (operation : Operation) :
    successorIds id (past ++ [operation]) = successorIds id past ++
      if operation.kind = .supersedeDecision ∧ operation.recordId = id then
        [operation.successorRecordId] else [] := by
  by_cases h : operation.kind = .supersedeDecision ∧ operation.recordId = id
  · simp [successorIds, h]
  · rw [if_neg h]
    simp only [successorIds, List.filter_append, List.filter_cons, List.filter_nil, h]
    simp

/-- The links of a decision after one more supersession. -/
theorem GrownDecision.supersede {past : List Operation} {decision : Decision}
    (h : GrownDecision s past decision) (hgate : invariantGate s operation = .ok ())
    (hkind : operation.kind = .supersedeDecision) :
    GrownDecision s (past ++ [operation]) (supersedeIn operation decision) := by
  obtain ⟨superseded, successor, hsuperseded, hsuccessor, -⟩ :=
    supersedeDecision_passed hgate hkind
  cases h with
  | kept before hmem hid hsupersedes hsupersededBy hstatus hprovenance =>
      refine .kept before hmem (by simpa using hid) ?_ ?_ ?_ (by simpa using hprovenance)
      · simp [supersededIds_append_singleton, hkind, hsupersedes, hid]
      · simp [successorIds_append_singleton, hkind, hsupersededBy, hid]
      · by_cases hrecord : operation.recordId = before.id
        · simp [successorIds_append_singleton, hkind, hid, hrecord]
        · simp [successorIds_append_singleton, hkind, hid, hrecord, hstatus]
  | added hfresh hsupersedes hsupersededBy hstatus hprovenance =>
      have hrecord : decision.id ≠ operation.recordId := fun h =>
        hfresh superseded (findDecision_some hsuperseded).1
          ((findDecision_some hsuperseded).2.trans h.symm)
      have hsuccessorId : decision.id ≠ operation.successorRecordId := fun h =>
        hfresh successor (findDecision_some hsuccessor).1
          ((findDecision_some hsuccessor).2.trans h.symm)
      refine .added (by simpa using hfresh) ?_ ?_ ?_ (by simpa using hprovenance)
      · simp [hsupersedes, Ne.symm hsuccessorId]
      · simp [hsupersededBy, Ne.symm hrecord]
      · simp [hstatus, Ne.symm hrecord]

/-- An operation that is no supersession adds no links. -/
theorem GrownDecision.other {past : List Operation} {decision : Decision}
    (h : GrownDecision s past decision) (hkind : operation.kind ≠ .supersedeDecision) :
    GrownDecision s (past ++ [operation]) decision := by
  have hsupersededIds : ∀ id, supersededIds id (past ++ [operation]) = supersededIds id past :=
    fun id => by simp [supersededIds_append_singleton, hkind]
  have hsuccessorIds : ∀ id, successorIds id (past ++ [operation]) = successorIds id past :=
    fun id => by simp [successorIds_append_singleton, hkind]
  cases h with
  | kept before hmem hid hsupersedes hsupersededBy hstatus hprovenance =>
      exact .kept before hmem hid (by rw [hsupersededIds, hsupersedes])
        (by rw [hsuccessorIds, hsupersededBy]) (by rw [hsuccessorIds, hstatus]) hprovenance
  | added hfresh hsupersedes hsupersededBy hstatus hprovenance =>
      exact .added hfresh hsupersedes hsupersededBy hstatus hprovenance

theorem Grown.snoc_decision {past : List Operation} (hnext : Grown s past next)
    (hgate : invariantGate s operation = .ok ()) :
    ∀ decision ∈ (applyOperation handoffEvidenceRef next operation).decisions,
      GrownDecision s (past ++ [operation]) decision := by
  rw [applyOperation_decisions]
  split
  · next hkind =>
      exact forall_mem_append_singleton
        (fun decision hmem => (hnext.decision decision hmem).other (by simp [hkind]))
        (.added (appendDecision_passed hgate hkind).2.2.2 rfl rfl rfl
          (by simp [acceptedDecision, userStatement]))
  · next hkind =>
      exact forall_mem_map hnext.decision fun decision hdecision =>
        hdecision.supersede hgate hkind
  · next hkind =>
      exact fun decision hmem => (hnext.decision decision hmem).other hkind

theorem Grown.snoc {past : List Operation} (hnext : Grown s past next)
    (hgate : invariantGate s operation = .ok ()) :
    Grown s (past ++ [operation]) (applyOperation handoffEvidenceRef next operation) := by
  refine ⟨?_, hnext.snoc_decision hgate, ?_, ?_, ?_, ?_, ?_, ?_, ?_, ?_⟩
  · rw [applyOperation_decisions, countKind_append_singleton]
    split <;> simp_all [hnext.decisions, Nat.add_assoc]
  · rw [applyOperation_memory, countKind_append_singleton]
    split <;> simp [hnext.memory, Nat.add_assoc]
  · rw [applyOperation_memory]
    split
    · exact forall_mem_append_singleton hnext.record
        (.inr (by simp [verifiedMemory, userStatement]))
    · exact hnext.record
  · rw [applyOperation_obligations, countKind_append_singleton]
    split <;> simp_all [hnext.obligations, Nat.add_assoc, closeFirst]
  · rw [applyOperation_evidence, countKind_append_singleton]
    split <;> simp [hnext.evidence, Nat.add_assoc]
  · rw [applyOperation_conflicts, countKind_append_singleton]
    split <;> simp_all [hnext.conflicts, Nat.add_assoc]
  · rw [applyOperation_profiles, countKind_append_singleton]
    split <;> simp [hnext.profiles, Nat.add_assoc]
  · rw [applyOperation_views, standingViews_append_singleton, ← hnext.views, amendIds]
    split
    · split
      · simp [List.filter_map, Function.comp_def]
      · simp [amendedView]
    · rfl
  · rw [applyOperation_views]
    split
    · next hkind =>
        split
        · exact fun view hmem => hnext.view view (List.mem_of_mem_filter hmem)
        · obtain ⟨-, hresolve, hnodup⟩ := amendViewSpec_passed hgate hkind
          exact forall_mem_append_singleton hnext.view
            (.inr (length_le_of_resolve hnodup hresolve))
    · exact hnext.view

theorem grown_applyOperations
    (hgate : ∀ operation ∈ transaction.operations, invariantGate s operation = .ok ()) :
    Grown s transaction.operations (applyOperations transaction s) := by
  refine applyOperations_induction ?_ fun past operation next hpast hnext =>
    hnext.snoc (hgate operation (hpast.subset (by simp)))
  exact ⟨rfl, fun decision hmem => .kept decision hmem rfl (List.append_nil _).symm
    (List.append_nil _).symm rfl rfl, rfl, fun _ hmem => .inl hmem, rfl, rfl, rfl, rfl, rfl,
    fun _ hmem => .inl hmem⟩

theorem vectorsWithin_applyOperations (hs : VectorsWithin cap s) (hcap : 0 < cap)
    (hgate : ∀ operation ∈ transaction.operations, invariantGate s operation = .ok ())
    (hroom : Room cap s transaction.operations) :
    VectorsWithin cap (applyOperations transaction s) := by
  have hgrown := grown_applyOperations hgate
  have hgoverned : ∀ next : Snapshot, (next.constitution = s.constitution ∧
      next.policy = s.policy ∧ next.invocation = s.invocation ∧ next.roles = s.roles) →
      ∀ operation, (applyOperation transaction.handoffEvidenceRef next operation).constitution =
        s.constitution ∧
        (applyOperation transaction.handoffEvidenceRef next operation).policy = s.policy ∧
        (applyOperation transaction.handoffEvidenceRef next operation).invocation =
          s.invocation ∧
        (applyOperation transaction.handoffEvidenceRef next operation).roles = s.roles := by
    rintro next ⟨h₁, h₂, h₃, h₄⟩ operation
    obtain ⟨-, h₁', h₂', h₃', h₄'⟩ :=
      @applyOperation_governed next operation transaction.handoffEvidenceRef
    exact ⟨h₁'.trans h₁, h₂'.trans h₂, h₃'.trans h₃, h₄'.trans h₄⟩
  obtain ⟨hconstitution, hpolicy, hinvocation, hroles⟩ :=
    @applyOperations_preserves s transaction
      (fun next => next.constitution = s.constitution ∧ next.policy = s.policy ∧
        next.invocation = s.invocation ∧ next.roles = s.roles)
      ⟨rfl, rfl, rfl, rfl⟩ fun operation _ next hnext => hgoverned next hnext operation
  refine ⟨hconstitution ▸ hs.articles, hpolicy ▸ hs.handoff, hpolicy ▸ hs.recovery,
    hinvocation ▸ hs.rules, hgrown.decisions ▸ hroom.decisions, ?_,
    hgrown.memory ▸ hroom.memory, ?_, hgrown.obligations ▸ hroom.obligations,
    hgrown.evidence ▸ hroom.evidence, hgrown.conflicts ▸ hroom.conflicts,
    hgrown.profiles ▸ hroom.profiles, ?_, ?_, hroles ▸ hs.roles, hroles ▸ hs.role⟩
  · intro decision hmem
    cases hgrown.decision decision hmem with
    | kept before hbefore _ hsupersedes hsupersededBy _ hprovenance =>
        refine ⟨?_, ?_, hprovenance ▸ (hs.decision before hbefore).provenance⟩
        · rw [hsupersedes, List.length_append]
          exact hroom.supersedes before hbefore
        · rw [hsupersededBy, List.length_append]
          exact hroom.supersededBy before hbefore
    | added _ hsupersedes hsupersededBy _ hprovenance =>
        exact ⟨by simp [hsupersedes], by simp [hsupersededBy], hprovenance ▸ hcap⟩
  · intro record hmem
    rcases hgrown.record record hmem with hmem | hone
    · exact hs.record record hmem
    · exact hone ▸ hcap
  · have hviews := congrArg List.length hgrown.views
    rw [List.length_map] at hviews
    exact hviews ▸ hroom.views
  · intro view hmem
    rcases hgrown.view view hmem with hmem | hrefs
    · exact hs.view view hmem
    · exact hrefs.trans hs.profiles

end QivenContext
