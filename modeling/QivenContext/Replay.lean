import QivenContext.Chain
import QivenContext.Emptied

/-!
# Reviewed operations land once

Review evidence names no base and is not used up. What keeps a reviewed list
of operations from landing twice is the decision table: an appended id stays
taken and a superseded decision stays superseded, and the gates refuse both
a second time.
-/

namespace QivenContext

open Library Snapshot ServiceState

/-- A transaction of the kind `D` is kept out by the mark `M` and leaves it, and
nothing removes the mark. -/
structure OneShot (M : Snapshot → Prop) (D : ContextTransaction → Prop) : Prop where
  restored : ∀ snapshot next, restored snapshot = restored next → M snapshot → M next
  stays : ∀ current transaction, M current →
    (∀ operation ∈ transaction.operations, invariantGate current operation = .ok ()) →
      M (applyOperations transaction current)
  lands : ∀ current transaction, D transaction →
    (∀ operation ∈ transaction.operations, invariantGate current operation = .ok ()) →
      ¬ M current ∧ M (applyOperations transaction current)

section Store

variable [Foundation] {σ : Type} [MemoryBacked σ] {t : ServiceState σ}
  {trs : List (ServiceTransition σ)} {tr : ServiceTransition σ}
  {D : ContextTransaction → Prop} {M : Snapshot → Prop}

/-- The call commits a transaction of the kind. -/
def CommitsKind (D : ContextTransaction → Prop) (tr : ServiceTransition σ) : Prop :=
  ∃ actor transaction entry next, Commits tr (.write actor transaction entry next) ∧ D transaction

/-- At most one call of the run does. -/
def AtMostOnce (D : ContextTransaction → Prop) (trs : List (ServiceTransition σ)) : Prop :=
  trs.Pairwise fun tr tr' => ¬ (CommitsKind D tr ∧ CommitsKind D tr')

/-- The head of the memory stands for a marked snapshot. -/
def HeadMarked (M : Snapshot → Prop) (s : ServiceState σ) : Prop :=
  ∃ snapshot, Fits snapshot ∧ M snapshot ∧ s.memory.headBytes = some (serializeSnapshot snapshot)

theorem OneShot.mark_of_headMarked (hone : OneShot M D) {s : ServiceState σ} {snapshot : Snapshot}
    (h : HeadMarked M s) (hfits : Fits snapshot)
    (hbytes : s.memory.headBytes = some (serializeSnapshot snapshot)) : M snapshot := by
  obtain ⟨marked, hmarkedFits, hmark, hmarked⟩ := h
  refine hone.restored marked snapshot ?_ hmark
  exact restored_eq_of_serialize_eq hmarkedFits hfits (Option.some.inj (hmarked.symm.trans hbytes))

theorem OneShot.headMarked_step (hone : OneShot M D) (hvalid : tr.Valid ServiceState.step)
    (hgrounded : Grounded (fun _ => True) tr) (h : HeadMarked M tr.before) :
    HeadMarked M tr.after := by
  cases hcommit : commitOf tr with
  | none =>
      unfold HeadMarked
      rw [memory_eq_of_not_commits hvalid hcommit]
      exact h
  | some submission =>
      have hcommits := commitOf_eq_some.mp hcommit
      cases submission with
      | genesis =>
          have hnil := MemoryStore.revisions_eq_nil hgrounded.named hcommits.base.symm
          obtain ⟨_, _, _, hbytes⟩ := h
          rw [MemoryStore.headBytes_eq_none.mpr hnil] at hbytes
          simp at hbytes
      | write actor transaction entry next =>
          have hwrite := hgrounded.write hcommits
          obtain ⟨hgates, hnext⟩ := hcommits.gates
          have hmark := hone.mark_of_headMarked h hwrite.pinnedFits hwrite.headBytes
          exact ⟨next, hwrite.successorFits, hnext ▸ hone.stays _ _ hmark hgates,
            hcommits.headBytes hvalid⟩

/-- Along a run whose committing writes keep every count and length below
`2 ^ 32`, with revision ids that do not collide, a one-shot transaction is
committed at most once. -/
theorem OneShot.run (hone : OneShot M D) {store : σ}
    (hempty : (MemoryBacked.memory store).revisions = [])
    (hrun : ServiceRun (ServiceState.start store) trs t) (hsized : SizedRun (2 ^ 32 - 1) trs)
    (hfree : Collisionless t) : AtMostOnce D trs := by
  refine hrun.at_most_once (M := HeadMarked M) (C := Grounded fun _ => True)
    (grounded_of_sizedRun hempty hrun hsized hfree trivial (fun _ _ => trivial)
      fun _ _ _ _ => trivial)
    (fun tr hvalid hgrounded => hone.headMarked_step hvalid hgrounded) ?_
  rintro tr hvalid hgrounded ⟨actor, transaction, entry, next, hcommits, hdoes⟩
  have hwrite := hgrounded.write hcommits
  obtain ⟨hgates, hnext⟩ := hcommits.gates
  obtain ⟨hfresh, hmark⟩ := hone.lands entry.state transaction hdoes hgates
  exact ⟨fun h => hfresh (hone.mark_of_headMarked h hwrite.pinnedFits hwrite.headBytes),
    next, hwrite.successorFits, hnext ▸ hmark, hcommits.headBytes hvalid⟩

end Store

/-! ## The decision table -/

/-- Some operation of the kind is about the id. -/
def Contains (kind : Operation.Kind) (id : Int64) (operations : List Operation) : Prop :=
  ∃ operation ∈ operations, operation.kind = kind ∧ operation.recordId = id

theorem contains_snoc {kind : Operation.Kind} {id : Int64} {past : List Operation}
    {operation : Operation} : Contains kind id (past ++ [operation]) ↔
      Contains kind id past ∨ operation.kind = kind ∧ operation.recordId = id := by
  simp [Contains, or_and_right, exists_or]

/-- There is a decision with the id. -/
def Taken (id : Int64) (snapshot : Snapshot) : Prop :=
  ∃ decision ∈ snapshot.decisions, decision.id = id

/-- There is one, and every one is superseded. -/
def Retired (id : Int64) (snapshot : Snapshot) : Prop :=
  Taken id snapshot ∧ ∀ decision ∈ snapshot.decisions, decision.id = id →
    decision.status = .superseded

section Decisions

variable {id : Int64} {current next : Snapshot} {operation : Operation}
  {transaction : ContextTransaction} {handoffEvidenceRef : Str}

theorem decisions_eq_of_restored (h : restored current = restored next) :
    current.decisions = next.decisions := by
  have hdecisions := congrArg Snapshot.decisions h
  exact hdecisions

theorem taken_applyOperation (h : Taken id next) :
    Taken id (applyOperation handoffEvidenceRef next operation) := by
  obtain ⟨decision, hmem, hid⟩ := h
  unfold Taken
  rw [applyOperation_decisions]
  split
  · exact ⟨decision, List.mem_append_left _ hmem, hid⟩
  · exact ⟨_, List.mem_map_of_mem hmem, (supersedeIn_id operation decision).trans hid⟩
  · exact ⟨decision, hmem, hid⟩

/-- A taken id is not appended, so what is superseded stays so. -/
theorem superseded_applyOperation (htaken : Taken id current)
    (hgate : invariantGate current operation = .ok ())
    (h : ∀ decision ∈ next.decisions, decision.id = id → decision.status = .superseded) :
    ∀ decision ∈ (applyOperation handoffEvidenceRef next operation).decisions,
      decision.id = id → decision.status = .superseded := by
  rw [applyOperation_decisions]
  split
  · next hkind =>
      obtain ⟨decision, hmem, hid⟩ := htaken
      obtain ⟨-, -, -, hfresh⟩ := appendDecision_passed hgate hkind
      exact forall_mem_append_singleton h fun hnew =>
        (hfresh decision hmem (hid.trans hnew.symm)).elim
  · intro decision hmem hid
    obtain ⟨earlier, hearlier, rfl⟩ := List.mem_map.mp hmem
    rw [supersedeIn_id] at hid
    rw [supersedeIn_status]
    split
    · rfl
    · exact h earlier hearlier hid
  · exact h

theorem oneShot_append (id : Int64) :
    OneShot (Taken id) fun transaction => Contains .appendDecision id transaction.operations where
  restored _ _ h htaken := by
    unfold Taken
    rwa [← decisions_eq_of_restored h]
  stays current transaction htaken _ :=
    applyOperations_preserves htaken fun _ _ _ h => taken_applyOperation h
  lands current transaction hcontains hgates := by
    constructor
    · rintro ⟨decision, hmem, hid⟩
      obtain ⟨operation, hoperation, hkind, rfl⟩ := hcontains
      obtain ⟨-, -, -, hfresh⟩ := appendDecision_passed (hgates operation hoperation) hkind
      exact hfresh decision hmem hid
    · refine applyOperations_induction (motive := fun past next =>
        Contains .appendDecision id past → Taken id next) (by simp [Contains]) ?_ hcontains
      intro past operation next _ ih hpast
      rcases contains_snoc.mp hpast with hpast | ⟨hkind, hid⟩
      · exact taken_applyOperation (ih hpast)
      · refine ⟨acceptedDecision transaction.handoffEvidenceRef operation, ?_, hid⟩
        rw [applyOperation_decisions, hkind]
        exact List.mem_append_right _ (List.mem_singleton_self _)

theorem oneShot_supersede (id : Int64) :
    OneShot (Retired id) fun transaction =>
      Contains .supersedeDecision id transaction.operations where
  restored _ _ h hretired := by
    unfold Retired Taken
    rwa [← decisions_eq_of_restored h]
  stays current transaction hretired hgates := by
    refine applyOperations_preserves (P := Retired id) hretired fun operation hmem next h => ?_
    exact ⟨taken_applyOperation h.1,
      superseded_applyOperation hretired.1 (hgates operation hmem) h.2⟩
  lands current transaction hcontains hgates := by
    obtain ⟨operation, hoperation, hkind, hid⟩ := hcontains
    obtain ⟨superseded, -, hfind, -, -, haccepted, -⟩ :=
      supersedeDecision_passed (hgates operation hoperation) hkind
    obtain ⟨hmem, hfound⟩ := findDecision_some hfind
    have htaken : Taken id current := ⟨superseded, hmem, hfound.trans hid⟩
    constructor
    · rintro ⟨-, hall⟩
      have hstatus := hall superseded hmem (hfound.trans hid)
      rw [haccepted] at hstatus
      exact absurd hstatus (by decide)
    · refine ⟨applyOperations_preserves htaken fun _ _ _ h => taken_applyOperation h, ?_⟩
      refine applyOperations_induction (motive := fun past next =>
        Contains .supersedeDecision id past → ∀ decision ∈ next.decisions,
          decision.id = id → decision.status = .superseded) (by simp [Contains]) ?_
        ⟨operation, hoperation, hkind, hid⟩
      intro past operation next hpast ih hcontains
      rcases contains_snoc.mp hcontains with hcontains | ⟨hkind, hid⟩
      · exact superseded_applyOperation htaken (hgates operation (hpast.subset (by simp)))
          (ih hcontains)
      · rw [applyOperation_decisions, hkind]
        intro decision hmem hthis
        obtain ⟨earlier, -, rfl⟩ := List.mem_map.mp hmem
        rw [supersedeIn_id] at hthis
        rw [supersedeIn_status, if_pos (hid.trans hthis.symm)]

end Decisions

/-! ## Whole runs -/

/-- The transaction has exactly these operations. -/
def Presents (operations : List Operation) (transaction : ContextTransaction) : Prop :=
  transaction.operations = operations

/-- Nothing of the merge class is committed twice: no append of an id, no
supersession of an id, and so no list of operations with a decision in it. -/
structure NotReplayed {σ : Type} [Foundation] [MemoryBacked σ]
    (trs : List (ServiceTransition σ)) : Prop where
  append : ∀ id,
    AtMostOnce (fun transaction => Contains .appendDecision id transaction.operations) trs
  supersede : ∀ id,
    AtMostOnce (fun transaction => Contains .supersedeDecision id transaction.operations) trs
  operations : ∀ operations,
    (∃ operation ∈ operations, opClassOf operation.kind = .decisionAcceptance) →
      AtMostOnce (Presents operations) trs

theorem AtMostOnce.mono {σ : Type} [Foundation] [MemoryBacked σ]
    {trs : List (ServiceTransition σ)} {D D' : ContextTransaction → Prop} (h : AtMostOnce D trs)
    (hD : ∀ transaction, D' transaction → D transaction) : AtMostOnce D' trs := by
  have hkind (tr : ServiceTransition σ) : CommitsKind D' tr → CommitsKind D tr := by
    rintro ⟨actor, transaction, entry, next, hcommits, hdoes⟩
    exact ⟨actor, transaction, entry, next, hcommits, hD transaction hdoes⟩
  exact List.Pairwise.imp (fun hnot hboth => hnot ⟨hkind _ hboth.1, hkind _ hboth.2⟩) h

/-- Along a run whose committing writes keep every count and length below
`2 ^ 32`, with revision ids that do not collide, nothing of the merge class is
replayed. -/
theorem commits_notReplayed [Foundation] {σ : Type} [MemoryBacked σ] {t : ServiceState σ}
    {trs : List (ServiceTransition σ)} {store : σ}
    (hempty : (MemoryBacked.memory store).revisions = [])
    (hrun : ServiceRun (ServiceState.start store) trs t) (hsized : SizedRun (2 ^ 32 - 1) trs)
    (hfree : Collisionless t) : NotReplayed trs := by
  have happend (id : Int64) := (oneShot_append id).run hempty hrun hsized hfree
  have hsupersede (id : Int64) := (oneShot_supersede id).run hempty hrun hsized hfree
  refine ⟨happend, hsupersede, ?_⟩
  rintro operations ⟨operation, hmem, hclass⟩
  cases hkind : operation.kind with
  | appendDecision =>
      exact (happend operation.recordId).mono fun _ hthis => ⟨operation, hthis ▸ hmem, hkind, rfl⟩
  | supersedeDecision =>
      exact (hsupersede operation.recordId).mono fun _ hthis =>
        ⟨operation, hthis ▸ hmem, hkind, rfl⟩
  | _ => simp [hkind, opClassOf] at hclass

/-! ## A reviewed decision, once and twice -/

section Reviewed

open scoped QivenContext.Reference

theorem titled_notReplayed :
    ∃ (trs : List (ServiceTransition MemoryStore)) (t : ServiceState MemoryStore),
      ServiceRun (ServiceState.start {}) trs t ∧ (∃ tr ∈ trs, CommitsKind (fun transaction =>
        Contains .appendDecision 1 transaction.operations) tr) ∧ NotReplayed trs := by
  obtain ⟨byte, trs, s, m, t, m', hrun, hnone, -, hstate, hwrote, -, -, hrevisions, hfresh⟩ :=
    exists_titled
  have hrun' := hwrote.run hrun
  refine ⟨_, t, hrun', ⟨_, List.mem_append_right _ (List.mem_singleton_self _), _, _, _, _,
    hwrote.commits, _, List.mem_singleton_self _, rfl, rfl⟩,
    commits_notReplayed rfl hrun' (titled_sizedRun hnone hstate hwrote)
      (collisionless_of_pair rfl hrun' hrevisions hfresh)⟩

/-- The decision, and the text that takes the decision table in. -/
def forgetful (byte : UInt8) : List Operation :=
  [titledDecision 0,
    { kind := .updateState, payload := emptyingText byte (titledWorld 0) }]

theorem forgetful_passes {current : Snapshot} (hnone : current.decisions = []) (byte : UInt8) :
    ∀ operation ∈ forgetful byte, invariantGate current operation = .ok () := by
  intro operation hmem
  rcases List.mem_pair.mp hmem with rfl | rfl
  · exact titledDecision_passes hnone 0
  · exact updateState_passes (emptyingText_ne_nil _ _) current

theorem afterCurrent_titledWorld_short : short (afterCurrent (titledWorld 0)) := by
  decide +kernel

/-- The reviewed operations are committed, the decision is lost in the next boot,
and the same operations are committed again under the same review. -/
theorem forgetful_replayed :
    ∃ (trs : List (ServiceTransition MemoryStore)) (t : ServiceState MemoryStore),
      ServiceRun (ServiceState.start {}) trs t ∧ ¬ NotReplayed trs := by
  obtain ⟨byte, trs, s, m, t, m', u, m'', hrun, -, -, hwrote, hstep, -, honHead, hstate⟩ :=
    exists_emptied (fun base byte => reviewed base (forgetful byte)) (titledWorld_fits 0).1
      (titledWorld_fits 0).2 afterCurrent_titledWorld_short rfl (by
      intro s m byte honHead hstate
      obtain ⟨t, m', hwrote⟩ := honHead.write_reviewed (hstate ▸ genesis_quiet) (forgetful byte)
        (List.cons_ne_nil _ _) (by simp [forgetful, titledDecision])
        (forgetful_passes (by rw [hstate]; rfl) byte)
      refine ⟨t, m', hwrote, hwrote.state.trans ?_⟩
      rw [hstate]
      rfl)
  obtain ⟨v, last, hagain⟩ := honHead.write_reviewed
    (hstate ▸ ⟨rfl, by simp [emptied], rfl⟩) (forgetful byte) (List.cons_ne_nil _ _)
    (by simp [forgetful, titledDecision]) (forgetful_passes (by rw [hstate]; rfl) byte)
  refine ⟨_, v, hagain.run ((hwrote.run hrun).snoc hstep), fun hnot => ?_⟩
  have honce := hnot.operations (forgetful byte) ⟨_, List.mem_cons_self, rfl⟩
  refine (List.pairwise_append.mp honce).2.2 _ (List.mem_append_left _ (List.mem_append_right _
    (List.mem_singleton_self _))) _ (List.mem_singleton_self _) ⟨?_, ?_⟩
  · exact ⟨_, _, _, _, hwrote.commits, rfl⟩
  · exact ⟨_, _, _, _, hagain.commits, rfl⟩

end Reviewed

end QivenContext
