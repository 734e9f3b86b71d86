import QivenContext.Chain
import QivenContext.Transport

/-!
# Append-only history

An operation appends records, or moves what a record says about its status and
its links. What a write commits extends the snapshot pinned by its handle, and
that one is the last commit up to what the format drops: the epistemic type of
the memory.
-/

namespace QivenContext

open Library Snapshot ServiceState

/-- The decision up to its status, with longer links. -/
structure KeepsDecision (before after : Decision) : Prop where
  id : after.id = before.id
  title : after.title = before.title
  content : after.content = before.content
  provenance : after.provenance = before.provenance
  supersedes : before.supersedes <+: after.supersedes
  supersededBy : before.supersededBy <+: after.supersededBy

/-- The obligation up to its status and its completion. -/
structure KeepsObligation (before after : Obligation) : Prop where
  id : after.id = before.id
  statement : after.statement = before.statement
  trigger : after.trigger = before.trigger
  triggerValue : after.triggerValue = before.triggerValue

/-- The conflict up to its status and its resolution. -/
structure KeepsConflict (before after : Conflict) : Prop where
  id : after.id = before.id
  scope : after.scope = before.scope
  description : after.description = before.description

/-- The state up to the two fields that operations set. -/
structure KeepsState (before after : StateView) : Prop where
  objective : after.objective = before.objective
  checkpointRef : after.checkpointRef = before.checkpointRef
  candidateRef : after.candidateRef = before.candidateRef
  repositories : after.repositories = before.repositories
  roadmap : after.roadmap = before.roadmap

/-- What no operation writes. -/
structure KeepsGovernment (before after : Snapshot) : Prop where
  governance : after.governance = before.governance
  constitution : after.constitution = before.constitution
  policy : after.policy = before.policy
  invocation : after.invocation = before.invocation
  roles : after.roles = before.roles

/-- The second snapshot has all that the first one has, and more. -/
structure AppendOnly (before after : Snapshot) : Prop where
  memory : before.memory <+: after.memory
  evidence : before.evidence <+: after.evidence
  profiles : before.profiles <+: after.profiles
  decisions : Extends KeepsDecision before.decisions after.decisions
  obligations : Extends KeepsObligation before.obligations after.obligations
  conflicts : Extends KeepsConflict before.conflicts after.conflicts
  government : KeepsGovernment before after
  state : KeepsState before.state after.state

instance : IsTrans Decision KeepsDecision where
  trans _ _ _ h h' := ⟨h'.id.trans h.id, h'.title.trans h.title, h'.content.trans h.content,
    h'.provenance.trans h.provenance, h.supersedes.trans h'.supersedes,
    h.supersededBy.trans h'.supersededBy⟩

instance : IsTrans Obligation KeepsObligation where
  trans _ _ _ h h' := ⟨h'.id.trans h.id, h'.statement.trans h.statement,
    h'.trigger.trans h.trigger, h'.triggerValue.trans h.triggerValue⟩

instance : IsTrans Conflict KeepsConflict where
  trans _ _ _ h h' := ⟨h'.id.trans h.id, h'.scope.trans h.scope,
    h'.description.trans h.description⟩

instance : IsTrans Snapshot AppendOnly where
  trans _ _ _ h h' := {
    memory := h.memory.trans h'.memory
    evidence := h.evidence.trans h'.evidence
    profiles := h.profiles.trans h'.profiles
    decisions := h.decisions.trans h'.decisions
    obligations := h.obligations.trans h'.obligations
    conflicts := h.conflicts.trans h'.conflicts
    government := ⟨h'.government.governance.trans h.government.governance,
      h'.government.constitution.trans h.government.constitution,
      h'.government.policy.trans h.government.policy,
      h'.government.invocation.trans h.government.invocation,
      h'.government.roles.trans h.government.roles⟩
    state := ⟨h'.state.objective.trans h.state.objective,
      h'.state.checkpointRef.trans h.state.checkpointRef,
      h'.state.candidateRef.trans h.state.candidateRef,
      h'.state.repositories.trans h.state.repositories,
      h'.state.roadmap.trans h.state.roadmap⟩ }

theorem AppendOnly.refl (s : Snapshot) : AppendOnly s s where
  memory := List.prefix_refl _
  evidence := List.prefix_refl _
  profiles := List.prefix_refl _
  decisions := .refl (fun _ => ⟨rfl, rfl, rfl, rfl, List.prefix_refl _, List.prefix_refl _⟩) _
  obligations := .refl (fun _ => ⟨rfl, rfl, rfl, rfl⟩) _
  conflicts := .refl (fun _ => ⟨rfl, rfl, rfl⟩) _
  government := ⟨rfl, rfl, rfl, rfl, rfl⟩
  state := ⟨rfl, rfl, rfl, rfl, rfl⟩

/-! ## The apply loop -/

section Apply

variable {s before next current : Snapshot} {operation : Operation}
  {transaction : ContextTransaction} {handoffEvidenceRef : Str}

theorem KeepsDecision.supersedeIn {decision later : Decision} (h : KeepsDecision decision later) :
    KeepsDecision decision (supersedeIn operation later) := by
  have hsame : (QivenContext.supersedeIn operation later).title = later.title ∧
      (QivenContext.supersedeIn operation later).content = later.content := by
    unfold QivenContext.supersedeIn
    dsimp only
    split <;> split <;> exact ⟨rfl, rfl⟩
  refine ⟨(supersedeIn_id ..).trans h.id, hsame.1.trans h.title, hsame.2.trans h.content,
    (supersedeIn_provenance ..).trans h.provenance, ?_, ?_⟩
  · rw [supersedeIn_supersedes]
    exact h.supersedes.trans (List.prefix_append _ _)
  · rw [supersedeIn_supersededBy]
    exact h.supersededBy.trans (List.prefix_append _ _)

theorem KeepsObligation.transitionIn {obligation later : Obligation}
    (h : KeepsObligation obligation later) :
    KeepsObligation obligation (transitionIn operation later) := by
  unfold QivenContext.transitionIn
  split <;> exact ⟨h.id, h.statement, h.trigger, h.triggerValue⟩

theorem KeepsConflict.resolveIn {conflict later : Conflict} (h : KeepsConflict conflict later) :
    KeepsConflict conflict (resolveIn operation later) := by
  unfold QivenContext.resolveIn
  split <;> exact ⟨h.id, h.scope, h.description⟩

theorem AppendOnly.applyOperation (h : AppendOnly s next) :
    AppendOnly s (applyOperation handoffEvidenceRef next operation) := by
  obtain ⟨hgovernance, hconstitution, hpolicy, hinvocation, hroles⟩ :=
    @applyOperation_governed next operation handoffEvidenceRef
  refine ⟨?_, ?_, ?_, ?_, ?_, ?_, ⟨hgovernance.trans h.government.governance,
    hconstitution.trans h.government.constitution, hpolicy.trans h.government.policy,
    hinvocation.trans h.government.invocation, hroles.trans h.government.roles⟩, ?_⟩
  · rw [applyOperation_memory]
    split
    · exact h.memory.trans (List.prefix_append _ _)
    · exact h.memory
  · rw [applyOperation_evidence]
    split
    · exact h.evidence.trans (List.prefix_append _ _)
    · exact h.evidence
  · rw [applyOperation_profiles]
    split
    · exact h.profiles.trans (List.prefix_append _ _)
    · exact h.profiles
  · rw [applyOperation_decisions]
    split
    · exact h.decisions.append _
    · exact h.decisions.map fun _ _ _ hkept => hkept.supersedeIn
    · exact h.decisions
  · rw [applyOperation_obligations]
    split
    · exact h.obligations.append _
    · refine h.obligations.updateFirst (fun _ _ hkept => by rw [hkept.id]) ?_
      exact fun _ _ _ hkept => ⟨hkept.id, hkept.statement, hkept.trigger, hkept.triggerValue⟩
    · exact h.obligations.map fun _ _ _ hkept => hkept.transitionIn
    · exact h.obligations
  · rw [applyOperation_conflicts]
    split
    · exact h.conflicts.append _
    · exact h.conflicts.map fun _ _ _ hkept => hkept.resolveIn
    · exact h.conflicts
  · rw [applyOperation_state]
    split <;> exact ⟨h.state.objective, h.state.checkpointRef, h.state.candidateRef,
      h.state.repositories, h.state.roadmap⟩

theorem appendOnly_applyOperations (transaction : ContextTransaction) (current : Snapshot) :
    AppendOnly current (applyOperations transaction current) :=
  applyOperations_preserves (AppendOnly.refl current) fun _ _ _ h => h.applyOperation

/-! ## What a boot changes -/

/-- Every memory record is verified, as the write path makes them. -/
def VerifiedMemory (snapshot : Snapshot) : Prop :=
  ∀ record ∈ snapshot.memory, record.epistemic = .verified

/-- No obligation has a trigger value: no operation sets one. -/
def Untriggered (snapshot : Snapshot) : Prop :=
  ∀ obligation ∈ snapshot.obligations, obligation.triggerValue = []

theorem verified_applyOperations (h : VerifiedMemory current) :
    VerifiedMemory (applyOperations transaction current) := by
  refine applyOperations_preserves h fun operation _ next hnext => ?_
  unfold VerifiedMemory
  rw [applyOperation_memory]
  split
  · exact forall_mem_append_singleton hnext rfl
  · exact hnext

theorem untriggered_applyOperations (h : Untriggered current) :
    Untriggered (applyOperations transaction current) := by
  refine applyOperations_preserves h fun operation _ next hnext => ?_
  unfold Untriggered
  rw [applyOperation_obligations]
  split
  · exact forall_mem_append_singleton hnext rfl
  · intro obligation hmem
    rcases mem_updateFirst hmem with hmem | ⟨earlier, hearlier, -, rfl⟩
    · exact hnext obligation hmem
    · exact hnext earlier hearlier
  · intro obligation hmem
    obtain ⟨earlier, hearlier, rfl⟩ := List.mem_map.mp hmem
    have hvalue : (transitionIn operation earlier).triggerValue = earlier.triggerValue := by
      unfold transitionIn
      split <;> rfl
    exact hvalue.trans (hnext earlier hearlier)
  · exact hnext

theorem untriggered_restored (snapshot : Snapshot) : Untriggered (restored snapshot) :=
  forall_mem_map (P := fun _ => True) (fun _ _ => trivial) fun _ _ => rfl

/-- Verified memory is told by its bytes. -/
theorem memory_eq_of_restored (h : restored current = restored before)
    (hcurrent : VerifiedMemory current) (hbefore : VerifiedMemory before) :
    current.memory = before.memory := by
  have hmap : current.memory.map restoredMemory = before.memory.map restoredMemory :=
    congrArg Snapshot.memory h
  have hback {records : List MemoryRecord}
      (hverified : ∀ record ∈ records, record.epistemic = .verified) :
      (records.map restoredMemory).map (fun record => { record with epistemic := .verified }) =
        records := by
    rw [List.map_map, map_eq_self]
    intro record hmem
    rw [Function.comp_apply, ← hverified record hmem]
    rfl
  rw [← hback hcurrent, hmap, hback hbefore]

theorem obligations_eq_of_restored (h : restored current = restored before)
    (hcurrent : Untriggered current) (hbefore : Untriggered before) :
    current.obligations = before.obligations := by
  have hmap : current.obligations.map restoredObligation =
      before.obligations.map restoredObligation := congrArg Snapshot.obligations h
  rwa [map_eq_self.mpr fun obligation hmem =>
    restoredObligation_eq_self.mpr (hcurrent obligation hmem),
    map_eq_self.mpr fun obligation hmem =>
      restoredObligation_eq_self.mpr (hbefore obligation hmem)] at hmap

theorem eq_of_restored (h : restored current = restored before) (hcurrent : VerifiedMemory current)
    (hbefore : VerifiedMemory before) (hcurrent' : Untriggered current)
    (hbefore' : Untriggered before) : current = before := by
  have hmemory := memory_eq_of_restored h hcurrent hbefore
  have hobligations := obligations_eq_of_restored h hcurrent' hbefore'
  cases current
  cases before
  simp only [restored, Snapshot.mk.injEq] at h hmemory hobligations ⊢
  obtain ⟨h1, h2, h3, h4, h5, h6, -, -, h9, h10, h11, h12, h13⟩ := h
  exact ⟨h1, h2, h3, h4, h5, h6, hmemory, hobligations, h9, h10, h11, h12, h13⟩

/-- The successor of a copy extends the original exactly when the copy has kept
its verified memory. -/
theorem appendOnly_iff_verified (h : restored current = restored before)
    (hbefore : VerifiedMemory before) (hcurrent' : Untriggered current)
    (hbefore' : Untriggered before) :
    AppendOnly before (applyOperations transaction current) ↔ VerifiedMemory current := by
  constructor
  · intro hextends
    have hlength : before.memory.length = current.memory.length := by
      have hmap := congrArg (fun snapshot => snapshot.memory.length) h
      simpa [restored] using hmap.symm
    have hsame : before.memory = current.memory :=
      List.prefix_of_prefix_length_le hextends.memory
        (appendOnly_applyOperations transaction current).memory hlength.le |>.eq_of_length hlength
    unfold VerifiedMemory
    rw [← hsame]
    exact hbefore
  · intro hcurrent
    rw [eq_of_restored h hcurrent hbefore hcurrent' hbefore']
    exact appendOnly_applyOperations transaction before

theorem appendOnly_rule : ChainRule Untriggered VerifiedMemory AppendOnly
    fun current _ => VerifiedMemory current where
  genesis := by simp [Untriggered, makeGenesis]
  boot snapshot _ := untriggered_restored snapshot
  apply _ _ h _ := untriggered_applyOperations h
  first := by simp [VerifiedMemory, makeGenesis]
  step _ _ _ hbefore hcurrent hverified h _ :=
    ⟨appendOnly_iff_verified h hverified hcurrent hbefore, verified_applyOperations⟩

end Apply

/-! ## Whole runs -/

/-- Along a run whose committing writes keep every count and length below
`2 ^ 32`, with revision ids that do not collide, history is append-only exactly
when every committing write goes through a handle with verified memory. -/
theorem commits_appendOnly_iff [Foundation] {σ : Type} [MemoryBacked σ] {t : ServiceState σ}
    {trs : List (ServiceTransition σ)} {store : σ}
    (hempty : (MemoryBacked.memory store).revisions = [])
    (hrun : ServiceRun (ServiceState.start store) trs t) (hsized : SizedRun (2 ^ 32 - 1) trs)
    (hfree : Collisionless t) : (committedSnapshots trs).Pairwise AppendOnly ↔
      EveryCommit (fun current _ => VerifiedMemory current) trs := by
  rw [← List.isChain_iff_pairwise]
  exact appendOnly_rule.run hempty hrun hsized hfree

/-! ## A lesson, before and after a boot -/

section Lesson

open scoped QivenContext.Reference

theorem batch_appendOnly :
    ∃ (trs : List (ServiceTransition MemoryStore)) (t : ServiceState MemoryStore),
      ServiceRun (ServiceState.start {}) trs t ∧ t.memory.revisions.length = 2 ∧
        (committedSnapshots trs).Pairwise AppendOnly := by
  obtain ⟨byte, trs, s, m, t, m', hrun, hsized, hfree, hnone, hwrote, hstate, -, hlength⟩ :=
    exists_sized_batch
  refine ⟨_, t, hrun, hlength, (commits_appendOnly_iff rfl hrun hsized hfree).mpr ?_⟩
  refine hwrote.everyCommit hnone ?_
  rw [hstate]
  simp [VerifiedMemory, makeGenesis]

def addLesson : Operation where
  kind := .addMemory
  aux := 1
  payload := lit "content"
  provenanceRef := lit "reference"

/-- The lesson and one piece of evidence. -/
def teach (base : RevisionId) (byte : UInt8) : ContextTransaction where
  base := base
  operations := [addLesson, addEvidence [byte] [1]]

def taughtWorld (byte : UInt8) : Snapshot :=
  { genesisWithLesson with evidence := [⟨[byte], [1]⟩] }

theorem taughtWorld_fits (byte : UInt8) :
    StringsShort (taughtWorld byte) ∧ VectorsWithin 100000 (taughtWorld byte) := by
  refine ⟨{ genesisWithLesson_stringsShort with evidence := ?_ },
    { genesisWithLesson_vectorsWithin with evidence := by simp [taughtWorld] }⟩
  intro record hmem
  obtain rfl := List.mem_singleton.mp hmem
  exact ⟨by simp [short], by simp [short]⟩

theorem serialize_taughtWorld_ne (byte : UInt8) :
    serializeSnapshot (taughtWorld byte) ≠ serializeSnapshot makeGenesis := by
  obtain ⟨hstrings, hvectors⟩ := taughtWorld_fits byte
  exact serialize_ne_of_evidence ⟨hstrings, hvectors.mono (by norm_num)⟩ genesis_fits
    (List.cons_ne_nil _ _)

/-- A first client writes the lesson, under a revision of its own. -/
theorem exists_taught :
    ∃ byte trs s m t m', ServiceRun (ServiceState.start ({} : MemoryStore)) trs s ∧
      OnHead.Wrote s m (teach m.revision byte) t m' ∧ m'.state = taughtWorld byte ∧
      t.storedHead = .ok (restored (taughtWorld byte)) := by
  obtain ⟨byte, trs, s, m, t, m', hrun, -, -, -, hwrote, hstate, -, hrevisions, hfresh⟩ :=
    exists_fresh_write teach taughtWorld (by
      intro s m byte honHead hstate _
      exact honHead.write_plain hstate genesis_quiet
        (teach m.revision byte).operations _ (List.cons_ne_nil _ _)
        (by simp [teach, addLesson, addEvidence, opClassOf])
        (by simp [teach, addLesson, addEvidence]) (fun operation hmem => by
          rcases List.mem_pair.mp hmem with rfl | rfl
          · rfl
          · exact addEvidence_passes (List.cons_ne_nil _ _) (List.cons_ne_nil _ _)) rfl)
      ⟨_, _, serialize_evidence_byte genesisWithLesson⟩ serialize_taughtWorld_ne
  have hhead : CognitionStore.head t.store = m'.revision := hwrote.onHead.head
  have hbytes : CognitionStore.materialize t.store m'.revision =
      serializeSnapshot (taughtWorld byte) := MemoryStore.materialize_of_pair hrevisions hfresh
  refine ⟨byte, trs, s, m, t, m', hrun, hwrote, hstate, ?_⟩
  rw [storedHead, hhead, hbytes,
    deserialize_serialize (taughtWorld_fits byte).1 (taughtWorld_fits byte).2]

/-- The lesson is committed as verified, booted as an observation, and committed
as one by the next write. -/
theorem taught_not_appendOnly :
    ∃ (trs : List (ServiceTransition MemoryStore)) (t : ServiceState MemoryStore),
      ServiceRun (ServiceState.start {}) trs t ∧
        ¬ (committedSnapshots trs).Pairwise AppendOnly := by
  obtain ⟨byte, trs, s, m, t, m', hrun, hwrote, hstate, hparsed⟩ := exists_taught
  obtain ⟨m'', u, hstep, hsubmits, honHead, hbooted, -⟩ := hwrote.onHead.boot hparsed rfl
  obtain ⟨v, last, hwrote', hlast⟩ := honHead.writeAll
    (hbooted ▸ ⟨rfl, by simp [restored, taughtWorld, genesisWithLesson, makeGenesis], rfl⟩)
    [⟨[1], [1]⟩] (List.cons_ne_nil _ _) (by
      intro record hmem
      obtain rfl := List.mem_singleton.mp hmem
      exact ⟨List.cons_ne_nil _ _, List.cons_ne_nil _ _⟩)
  refine ⟨_, v, hwrote'.run ((hwrote.run hrun).snoc hstep), fun hpairwise => ?_⟩
  rw [hwrote'.committedSnapshots, committedSnapshots_booted hsubmits,
    hwrote.committedSnapshots] at hpairwise
  have hextends : AppendOnly m'.state last.state :=
    (List.pairwise_append.mp hpairwise).2.2 _ (List.mem_append_right _ List.mem_cons_self) _
      List.mem_cons_self
  have hmemory := hextends.memory
  rw [hlast, hbooted, hstate] at hmemory
  have hsame : verifiedLesson = restoredMemory verifiedLesson :=
    (List.cons_prefix_cons.mp hmemory).1
  exact absurd hsame (by decide)

end Lesson

end QivenContext
