import QivenContext.Boundary
import QivenContext.Budget
import QivenContext.Ledger

/-!
# What a bundle recounts of the ledger

A bundle over the head leaves nothing out that was committed: what was rejected
and what is contested stand among its floors, decisions and lessons are
candidates or named omissions, and every obligation is evaluated. The floors
are those of genesis and what the committed operations added to them.
-/

namespace QivenContext

open Library Snapshot ServiceState

/-! ## The records that the operations leave -/

def Operation.resolves (operation opened : Operation) : Prop :=
  operation.kind = .resolveConflict ∧ operation.title = opened.title

instance (operation opened : Operation) : Decidable (operation.resolves opened) :=
  inferInstanceAs (Decidable (_ ∧ _))

/-- The conflicts that were opened and that nothing later resolves. -/
def unresolved : List Operation → List Operation
  | [] => []
  | opened :: later =>
      if opened.kind = .openConflict ∧ ∀ operation ∈ later, ¬ operation.resolves opened then
        opened :: unresolved later
      else unresolved later

theorem unresolved_snoc (past : List Operation) (operation : Operation) :
    unresolved (past ++ [operation]) =
      (unresolved past).filter (fun opened => ¬ operation.resolves opened) ++
        if operation.kind = .openConflict then [operation] else [] := by
  induction past with
  | nil => simp [unresolved]
  | cons opened later ih =>
      rw [List.cons_append, unresolved, unresolved, ih]
      by_cases hopened : opened.kind = .openConflict ∧
          ∀ operation ∈ later, ¬ operation.resolves opened
      · by_cases hresolves : operation.resolves opened
        · rw [if_pos hopened, if_neg fun h => h.2 operation (by simp) hresolves]
          simp [hresolves]
        · have hstill : opened.kind = .openConflict ∧
              ∀ other ∈ later ++ [operation], ¬ other.resolves opened := by
            refine ⟨hopened.1, fun other hmem => ?_⟩
            rcases List.mem_append.mp hmem with hmem | hmem
            · exact hopened.2 other hmem
            · rwa [List.mem_singleton.mp hmem]
          rw [if_pos hopened, if_pos hstill]
          simp [hresolves]
      · rw [if_neg hopened, if_neg fun h => hopened
          ⟨h.1, fun other hmem => h.2 other (List.mem_append_left _ hmem)⟩]

/-- The read plane's part of a snapshot, as the operations leave it. -/
structure Outlines (operations : List Operation) (s : Snapshot) : Prop where
  governance : s.governance = makeGenesis.governance
  constitution : s.constitution = makeGenesis.constitution
  policy : s.policy = makeDefaultPolicy
  objective : s.state.objective = makeGenesis.state.objective
  boundary : s.state.nextBoundaryRef = boundaryRef operations []
  conflicts : (s.conflicts.filter fun conflict => conflict.status = .isOpen).map
    (fun conflict => (conflict.id, conflict.description)) =
      (unresolved operations).map fun opened => (opened.title, opened.payload)
  decisions : s.decisions.map (fun decision => (decision.id, decision.title)) =
    (operations.filter fun operation => operation.kind = .appendDecision).map
      fun operation => (operation.recordId, operation.title)
  obligations : s.obligations.map (fun obligation => (obligation.id, obligation.statement)) =
    (operations.filter fun operation => operation.kind = .upsertObligation).map
      fun operation => (operation.recordId, operation.payload)
  memory : s.memory =
    (operations.filter fun operation => operation.kind = .addMemory).map verifiedMemory

section Step

variable {past operations : List Operation} {operation : Operation} {s next : Snapshot}
  {handoffEvidenceRef : Str}

theorem map_updateFirst_fixed {α β : Type} {p : α → Bool} {f : α → α} (key : α → β)
    (hkey : ∀ a, key (f a) = key a) (as : List α) :
    (updateFirst p f as).map key = as.map key := by
  induction as with
  | nil => rfl
  | cons a as ih =>
      unfold updateFirst
      split
      · rw [List.map_cons, hkey, List.map_cons]
      · rw [List.map_cons, ih, List.map_cons]

theorem supersedeIn_title (operation : Operation) (decision : Decision) :
    (supersedeIn operation decision).title = decision.title := by
  unfold supersedeIn
  dsimp only
  split <;> split <;> rfl

theorem transitionIn_outline (operation : Operation) (obligation : Obligation) :
    ((transitionIn operation obligation).id, (transitionIn operation obligation).statement) =
      (obligation.id, obligation.statement) := by
  unfold transitionIn
  split <;> rfl

theorem closeFirst_outline (operation : Operation) (obligations : List Obligation) :
    (closeFirst operation obligations).map
        (fun obligation => (obligation.id, obligation.statement)) =
      obligations.map fun obligation => (obligation.id, obligation.statement) := by
  apply map_updateFirst_fixed
  intro _
  rfl

theorem resolveIn_of_ne {conflict : Conflict} (h : conflict.id ≠ operation.title) :
    resolveIn operation conflict = conflict :=
  if_neg h

theorem filter_resolveIn (operation : Operation) (conflicts : List Conflict) :
    (conflicts.map (resolveIn operation)).filter (fun conflict => conflict.status = .isOpen) =
      (conflicts.filter fun conflict => conflict.status = .isOpen).filter
        fun conflict => conflict.id ≠ operation.title := by
  induction conflicts with
  | nil => rfl
  | cons conflict conflicts ih =>
      rw [List.map_cons, List.filter_cons, List.filter_cons, ih]
      by_cases hid : conflict.id = operation.title
      · have hresolved : (resolveIn operation conflict).status = .resolved := by
          rw [resolveIn, if_pos hid]
        by_cases hopen : conflict.status = .isOpen <;> simp [hresolved, hopen, hid]
      · rw [resolveIn_of_ne hid]
        by_cases hopen : conflict.status = .isOpen <;> simp [hopen, hid]

theorem openConflicts_snoc (h : (next.conflicts.filter fun conflict =>
      conflict.status = .isOpen).map (fun conflict => (conflict.id, conflict.description)) =
        (unresolved past).map fun opened => (opened.title, opened.payload)) :
    ((applyOperation handoffEvidenceRef next operation).conflicts.filter fun conflict =>
      conflict.status = .isOpen).map (fun conflict => (conflict.id, conflict.description)) =
        (unresolved (past ++ [operation])).map fun opened => (opened.title, opened.payload) := by
  have hkeep (hkind : operation.kind ≠ .resolveConflict) :
      (unresolved past).filter (fun opened => ¬ operation.resolves opened) = unresolved past := by
    simp [Operation.resolves, hkind]
  rw [applyOperation_conflicts, unresolved_snoc]
  split
  · next hkind =>
      rw [hkeep (by simp [hkind]), if_pos hkind, List.filter_append, List.map_append,
        List.map_append, h]
      rfl
  · next hkind =>
      have hresolves : (fun opened : Operation => decide ¬ operation.resolves opened) =
          (fun pair : Str × Str => decide (pair.1 ≠ operation.title)) ∘
            fun opened => (opened.title, opened.payload) := by
        funext opened
        simp [Operation.resolves, hkind, eq_comm]
      rw [filter_resolveIn, if_neg (by simp [hkind]), List.append_nil, hresolves,
        ← List.filter_map, ← h, List.filter_map]
      rfl
  · next hopen hresolve =>
      rw [hkeep hresolve, if_neg hopen, List.append_nil, h]

theorem Outlines.snoc (h : Outlines past next) :
    Outlines (past ++ [operation]) (applyOperation handoffEvidenceRef next operation) := by
  refine ⟨applyOperation_governed.1.trans h.governance,
    applyOperation_governed.2.1.trans h.constitution,
    applyOperation_governed.2.2.1.trans h.policy, ?_, ?_, openConflicts_snoc h.conflicts,
    ?_, ?_, ?_⟩
  · rw [applyOperation_state, ← h.objective]
    cases operation.kind <;> rfl
  · rw [applyOperation_state, boundaryRef_snoc, ← h.boundary]
    cases operation.kind <;> rfl
  · rw [applyOperation_decisions]
    split
    · next hkind => simp [hkind, h.decisions, acceptedDecision]
    · next hkind =>
        simp [hkind, ← h.decisions, Function.comp_def, supersedeIn_title]
    · next happend _ =>
        rw [List.filter_append, List.filter_singleton, decide_eq_false happend]
        simp [h.decisions]
  · rw [applyOperation_obligations]
    split
    · next hkind => simp [hkind, h.obligations, openedObligation]
    · next hkind =>
        rw [closeFirst_outline]
        simp [hkind, h.obligations]
    · next hkind =>
        rw [List.map_map, Function.comp_def]
        simp only [transitionIn_outline]
        simp [hkind, h.obligations]
    · next hopen _ _ =>
        rw [List.filter_append, List.filter_singleton, decide_eq_false hopen]
        simp [h.obligations]
  · rw [applyOperation_memory, h.memory]
    split
    · next hkind => simp [hkind]
    · next hkind => simp [hkind]

end Step

/-! ## The bundle of a replay -/

/-- What a bundle shows of a candidate, as its omissions name it. -/
def BundleCandidate.name (candidate : BundleCandidate) : Str :=
  candidate.kind ++ lit " " ++ candidate.id

def Operation.rejects (operation : Operation) : Bool :=
  operation.kind = .addMemory ∧ (verifiedMemory operation).kind = .negativeKnowledge

/-- The line of the last boundary that was set, for the first obligation of its id. -/
def recountedBoundary (operations : List Operation) : List Str :=
  (operations.findRev? fun operation => operation.kind = .setNextBoundary).toList.flatMap
    fun boundary => ((operations.filter fun operation => operation.kind = .upsertObligation).find?
      fun opened => opened.recordId = boundary.recordId).toList.map fun opened =>
        lit "next boundary: obligation " ++ toStringInt64 boundary.recordId ++ lit ": " ++
          opened.payload

/-- The floors of genesis and what the operations add to them. -/
def recountedFloors (operations : List Operation) : List Str :=
  [lit "governance: " ++ makeGenesis.governance.rootPrincipal] ++
    makeGenesis.constitution.articles.map (fun article => lit "constitution: " ++ article) ++
    [lit "objective: " ++ makeGenesis.state.objective] ++ recountedBoundary operations ++
    (unresolved operations).map (fun opened =>
      lit "OPEN CONFLICT " ++ opened.title ++ lit ": " ++ opened.payload) ++
    (operations.filter Operation.rejects).map fun operation =>
      lit "negative knowledge: " ++ operation.payload

/-- All decisions, then all other memory, as a bundle names them. -/
def recountedNames (operations : List Operation) : List Str :=
  (operations.filter fun operation => operation.kind = .appendDecision).map
    (fun operation => lit "decision " ++ toStringInt64 operation.recordId) ++
  (operations.filter fun operation => operation.kind = .addMemory ∧ ¬ operation.rejects).map
    fun operation => lit "memory " ++ operation.title

/-- The bundle shows what the operations committed, and leaves nothing out. -/
structure Recounts (operations : List Operation) (bundle : ContextBundle) : Prop where
  floors : bundle.mandatoryInputs = recountedFloors operations
  constraints : bundle.protectedConstraints = protectedConstraints makeDefaultPolicy
  offered : (bundle.candidates.map BundleCandidate.name ++
    bundle.omissions.map fun omission => omission.what).Perm (recountedNames operations)
  candidates : (bundle.candidates.map BundleCandidate.name).Sublist (recountedNames operations)
  omissions : (bundle.omissions.map fun omission => omission.what).Sublist
    (recountedNames operations)
  obligations : bundle.obligations.map (fun obligation => obligation.id) =
    (operations.filter fun operation => operation.kind = .upsertObligation).map
      fun operation => operation.recordId

section Bundle

variable {operations : List Operation} {s : Snapshot} {handle : Materialization}

theorem boundaryRef_eq (operations : List Operation) : boundaryRef operations [] =
    ((operations.findRev? fun operation => operation.kind = .setNextBoundary).elim []
      fun boundary => toStringInt64 boundary.recordId) := by
  induction operations using List.reverseRecOn with
  | nil => rfl
  | append_singleton past operation ih =>
      rw [boundaryRef_snoc, List.findRev?_eq_find?_reverse, List.reverse_append,
        List.reverse_singleton, List.singleton_append]
      split
      · next hkind => rw [List.find?_cons_of_pos (by simpa using hkind), Option.elim_some]
      · next hkind =>
          rw [List.find?_cons_of_neg (by simpa using hkind), ih,
            List.findRev?_eq_find?_reverse]

theorem Outlines.findObligation (h : Outlines operations s) (id : Int64) :
    (findObligation s id).map (fun obligation => obligation.statement) =
      ((operations.filter fun operation => operation.kind = .upsertObligation).find?
        fun opened => opened.recordId = id).map fun opened => opened.payload := by
  have hfound := congrArg (fun entries : List (Int64 × Str) =>
    (entries.find? fun entry => entry.1 = id).map Prod.snd) h.obligations
  simpa [List.find?_map, Function.comp_def, QivenContext.findObligation] using hfound

theorem Outlines.boundaryFloor (h : Outlines operations s) :
    boundaryFloor s = .ok (recountedBoundary operations) := by
  have href := h.boundary.trans (boundaryRef_eq operations)
  unfold recountedBoundary
  cases hboundary : operations.findRev? fun operation => operation.kind = .setNextBoundary with
  | none =>
      rw [hboundary, Option.elim_none] at href
      rw [QivenContext.boundaryFloor, if_pos (List.isEmpty_iff.mpr href)]
      rfl
  | some boundary =>
      rw [hboundary, Option.elim_some] at href
      rw [Option.toList_some, List.flatMap_singleton]
      have hfind := h.findObligation boundary.recordId
      cases hfound : QivenContext.findObligation s boundary.recordId with
      | none =>
          rw [hfound, Option.map_none] at hfind
          have hne : ¬ s.state.nextBoundaryRef.isEmpty :=
            mt List.isEmpty_iff.mp (href ▸ toStringInt64_ne_nil _)
          have hid : stoll s.state.nextBoundaryRef = .ok boundary.recordId :=
            href ▸ stoll_toStringInt64 _
          rw [Option.map_eq_none_iff.mp hfind.symm]
          simp only [QivenContext.boundaryFloor, if_neg hne, hid, bind, Except.bind, hfound]
          rfl
      | some obligation =>
          rw [hfound, Option.map_some] at hfind
          obtain ⟨opened, hopened, hpayload⟩ := Option.map_eq_some_iff.mp hfind.symm
          rw [boundaryFloor_of_find href hfound, hopened, href]
          simp [boundaryLine, hpayload]

/-- Any part of the memory, told by the operations that added it. -/
theorem Outlines.shown (h : Outlines operations s) {p : MemoryRecord → Bool}
    {q : Operation → Bool} (text : MemoryRecord → Str) (hshown : ∀ operation, q operation =
      (decide (operation.kind = .addMemory) && p (verifiedMemory operation))) :
    (s.memory.filter p).map text =
      (operations.filter q).map fun operation => text (verifiedMemory operation) := by
  rw [h.memory, List.filter_map, List.map_map, List.filter_filter]
  congr 1
  apply List.filter_congr
  intro operation _
  rw [hshown, Bool.and_comm]
  rfl

theorem Operation.rejects_eq (operation : Operation) : operation.rejects =
    (decide (operation.kind = .addMemory) &&
      decide ((verifiedMemory operation).kind = .negativeKnowledge)) := by
  unfold Operation.rejects
  simp only [Bool.decide_and]

theorem Outlines.offers (h : Outlines operations s) :
    (offers s).map (fun offer => offer.what) = recountedNames operations := by
  have hdecisions := congrArg (List.map fun entry : Int64 × Str =>
    lit "decision " ++ toStringInt64 entry.1) h.decisions
  have hmemory : (s.memory.filter fun record =>
      record.status = .active ∧ record.kind ≠ .negativeKnowledge).map
        (fun record => lit "memory " ++ record.title) =
      (operations.filter fun operation => operation.kind = .addMemory ∧ ¬ operation.rejects).map
        fun operation => lit "memory " ++ operation.title := by
    apply h.shown fun record => lit "memory " ++ record.title
    intro operation
    have hactive : (verifiedMemory operation).status = .active := rfl
    by_cases hkind : operation.kind = .addMemory <;> simp [Operation.rejects_eq, hkind, hactive]
  simp only [List.map_map, Function.comp_def] at hdecisions
  unfold QivenContext.offers recountedNames
  rw [← hdecisions, ← hmemory, List.map_append, List.map_map, List.map_map]
  rfl

theorem Outlines.floors (h : Outlines operations s) :
    mandatoryInputs s = .ok (recountedFloors operations) := by
  have hconflicts := congrArg (List.map fun entry : Str × Str =>
    lit "OPEN CONFLICT " ++ entry.1 ++ lit ": " ++ entry.2) h.conflicts
  have hnegative : (s.memory.filter fun record =>
      record.kind = .negativeKnowledge ∧ record.status = .active).map
        (fun record => lit "negative knowledge: " ++ record.statement) =
      (operations.filter Operation.rejects).map fun operation =>
        lit "negative knowledge: " ++ operation.payload := by
    apply h.shown fun record => lit "negative knowledge: " ++ record.statement
    intro operation
    have hactive : (verifiedMemory operation).status = .active := rfl
    simp [Operation.rejects_eq, hactive]
  simp only [List.map_map, Function.comp_def] at hconflicts
  unfold mandatoryInputs recountedFloors
  rw [h.boundaryFloor, h.governance, h.constitution, h.objective, ← hconflicts, ← hnegative]
  rfl

theorem name_of_offer {offer : Offer} (h : offer ∈ QivenContext.offers s) :
    offer.candidate.name = offer.what := by
  rcases List.mem_append.mp h with h | h
  · obtain ⟨decision, -, rfl⟩ := List.mem_map.mp h
    rfl
  · obtain ⟨record, -, rfl⟩ := List.mem_map.mp h
    rfl

theorem Outlines.recounts (h : Outlines operations handle.state)
    (haddress : Addressable handle.state) (query : Query) :
    ∃ bundle, buildBundle handle query = .ok bundle ∧ Recounts operations bundle := by
  obtain ⟨bundle, hbuild⟩ := exists_bundle_iff.mpr ⟨_, h.boundaryFloor⟩
  obtain ⟨hinputs, hbundle⟩ := buildBundle_eq_ok haddress hbuild
  have hfirst : (selected handle.state query.budget).map Prod.fst = QivenContext.offers
      handle.state := map_fst_greedy _ _
  have hkept : bundle.candidates.map BundleCandidate.name =
      (kept (selected handle.state query.budget)).map fun offer => offer.what := by
    rw [hbundle, List.map_map]
    apply List.map_congr_left
    intro offer hmem
    apply name_of_offer (s := handle.state)
    rw [← hfirst]
    exact List.map_subset _ (List.filter_subset_self _) hmem
  have hpassed : bundle.omissions.map (fun omission => omission.what) =
      (passedOver (selected handle.state query.budget)).map fun offer => offer.what := by
    rw [hbundle, List.map_map]
    rfl
  have hnames := h.offers
  rw [← hfirst] at hnames
  refine ⟨bundle, hbuild, ?_, ?_, ?_, ?_, ?_, ?_⟩
  · exact Except.ok.inj (hinputs.symm.trans h.floors)
  · rw [hbundle, h.policy]
  · rw [hkept, hpassed, ← List.map_append, ← hnames]
    exact (kept_append_passedOver_perm _).map _
  · rw [hkept, ← hnames]
    exact ((List.filter_sublist).map _).map _
  · rw [hpassed, ← hnames]
    exact ((List.filter_sublist).map _).map _
  · have hids := congrArg (List.map (Prod.fst : Int64 × Str → Int64)) h.obligations
    rw [hbundle]
    simpa [Function.comp_def, evaluateObligation] using hids

end Bundle

/-! ## Whole runs -/

theorem outlines_replay (ledger : List ContextTransaction) :
    Outlines (operationsOf ledger) (replay ledger) := by
  apply replay_induction
  · exact ⟨rfl, rfl, rfl, rfl, rfl, rfl, rfl, rfl, rfl⟩
  · intro past operation next handoffEvidenceRef hnext
    exact hnext.snoc

theorem footprint_restored (s : Snapshot) : (restored s).footprint = s.footprint := by
  unfold Snapshot.footprint restored
  rw [total_map]
  rfl

/-- Along a run whose committing writes keep every count and length below
`2 ^ 32`, with revision ids that do not collide, every bundle over the head
completes and recounts the committed operations. -/
theorem bundle_recounts_ledger [Foundation] {σ : Type} [MemoryBacked σ] {t : ServiceState σ}
    {trs : List (ServiceTransition σ)} {store : σ} {handle : Materialization}
    (hempty : (MemoryBacked.memory store).revisions = [])
    (hrun : ServiceRun (ServiceState.start store) trs t) (hsized : SizedRun (2 ^ 32 - 1) trs)
    (hfree : Collisionless t) (hhead : StandsForHead t handle.state)
    (haddress : Addressable handle.state) (query : Query) :
    ∃ bundle, buildBundle handle query = .ok bundle ∧ bundle.snapshot = handle.revision ∧
      Recounts (operationsOf (ledger trs)) bundle := by
  have hrestored := hhead.replayed hempty hrun hsized hfree
  let told : Materialization := { handle with state := replay (ledger trs) }
  have htold : Addressable told.state := by
    unfold Addressable
    rw [← footprint_restored, ← hrestored, footprint_restored]
    exact haddress
  obtain ⟨bundle, hbuild, hrecounts⟩ : ∃ bundle, buildBundle told query = .ok bundle ∧
      Recounts (operationsOf (ledger trs)) bundle :=
    (outlines_replay (ledger trs)).recounts htold query
  have hbundle := (buildBundle_eq_ok htold hbuild).2
  have hsame := (samePlanes_of_restored hrestored).bundle handle told rfl rfl rfl query
  refine ⟨bundle, hsame.trans hbuild, ?_, hrecounts⟩
  rw [hbundle]

/-! ## A lesson -/

section Lesson

open scoped QivenContext.Reference

/-- A lesson that was recorded is all that the bundle over it has to offer. -/
theorem lesson_recounted :
    ∃ (trs : List (ServiceTransition MemoryStore)) (t : ServiceState MemoryStore)
      (handle : Materialization) (bundle : ContextBundle),
      ServiceRun (ServiceState.start {}) trs t ∧ buildBundle handle {} = .ok bundle ∧
        Recounts (operationsOf (ledger trs)) bundle ∧
        recountedNames (operationsOf (ledger trs)) = [lit "memory "] := by
  obtain ⟨byte, trs, s, m, t, m', hrun, hsized, hfree, hnone, hstate, hwrote⟩ :=
    exists_sized_taught
  have honHead := hwrote.onHead
  have haddress : Addressable m'.state := by
    have hfootprint : m'.state.footprint = 23 := by
      rw [hwrote.state, hstate]
      rfl
    unfold Addressable
    omega
  obtain ⟨bundle, hbuild, -, hrecounts⟩ := bundle_recounts_ledger rfl hrun hsized hfree
    (.registered honHead.live honHead.promoted honHead.head.symm) haddress {}
  refine ⟨_, t, m', bundle, hrun, hbuild, hrecounts, ?_⟩
  rw [hwrote.ledger, hnone.ledger_eq_nil]
  rfl

end Lesson

end QivenContext
