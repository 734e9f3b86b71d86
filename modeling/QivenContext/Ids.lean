import QivenContext.Reference
import QivenContext.Scenario

/-!
# Record ids

Gate 8 compares every operation with the snapshot before the transaction, so
the ids a transaction adds are fresh there. They are distinct from each other
only when the transaction says so, and then the ids of the successor are.
-/

namespace QivenContext

open Library Snapshot ServiceState

/-- Decision ids, conflict ids and profile ids are each used once. -/
structure DistinctIds (snapshot : Snapshot) : Prop where
  decisions : (snapshot.decisions.map fun decision => decision.id).Nodup
  conflicts : (snapshot.conflicts.map fun conflict => conflict.id).Nodup
  profiles : (snapshot.profiles.map fun profile => profile.id).Nodup

/-- The ids that the operations of one kind add. -/
def addedIds {α : Type} (kind : Operation.Kind) (id : Operation → α)
    (operations : List Operation) : List α :=
  (operations.filter fun operation => operation.kind = kind).map id

/-- No two operations of the transaction add a record under one id. -/
structure AddsDistinct (operations : List Operation) : Prop where
  decisions : (addedIds .appendDecision (fun operation => operation.recordId) operations).Nodup
  conflicts : (addedIds .openConflict (fun operation => operation.title) operations).Nodup
  profiles : (addedIds .upsertProfile (fun operation => operation.title) operations).Nodup

theorem addedIds_append_singleton {α : Type} (kind : Operation.Kind) (id : Operation → α)
    (past : List Operation) (operation : Operation) :
    addedIds kind id (past ++ [operation]) =
      addedIds kind id past ++ if operation.kind = kind then [id operation] else [] := by
  by_cases hkind : operation.kind = kind
  · simp [addedIds, hkind]
  · simp [addedIds, List.filter_append, hkind]

theorem mem_addedIds {α : Type} {kind : Operation.Kind} {id : Operation → α} {a : α}
    {operations : List Operation} :
    a ∈ addedIds kind id operations ↔
      ∃ operation ∈ operations, operation.kind = kind ∧ id operation = a := by
  simp [addedIds, and_assoc]

section Step

variable {s : Snapshot} {transaction : ContextTransaction}

/-- The ids of the successor: those there were, then those the transaction adds. -/
theorem decisionIds_applyOperations :
    (applyOperations transaction s).decisions.map (fun decision => decision.id) =
      s.decisions.map (fun decision => decision.id) ++
        addedIds .appendDecision (fun operation => operation.recordId) transaction.operations := by
  refine applyOperations_induction (motive := fun past next =>
    next.decisions.map (fun decision => decision.id) =
      s.decisions.map (fun decision => decision.id) ++
        addedIds .appendDecision (fun operation => operation.recordId) past) (by simp [addedIds]) ?_
  intro past operation next _ hnext
  rw [applyOperation_decisions, addedIds_append_singleton]
  split
  · next hkind => simp [hnext, hkind, acceptedDecision]
  · next hkind => simp [hnext, hkind, Function.comp_def]
  · next hkind _ => rw [if_neg hkind, List.append_nil, hnext]

theorem conflictIds_applyOperations :
    (applyOperations transaction s).conflicts.map (fun conflict => conflict.id) =
      s.conflicts.map (fun conflict => conflict.id) ++
        addedIds .openConflict (fun operation => operation.title) transaction.operations := by
  refine applyOperations_induction (motive := fun past next =>
    next.conflicts.map (fun conflict => conflict.id) =
      s.conflicts.map (fun conflict => conflict.id) ++
        addedIds .openConflict (fun operation => operation.title) past) (by simp [addedIds]) ?_
  intro past operation next _ hnext
  have hresolve : ∀ conflict, (resolveIn operation conflict).id = conflict.id := by
    intro conflict
    unfold resolveIn
    split <;> rfl
  rw [applyOperation_conflicts, addedIds_append_singleton]
  split
  · next hkind => simp [hnext, hkind, openedConflict]
  · next hkind => simp [hnext, hkind, Function.comp_def, hresolve]
  · next hkind _ => rw [if_neg hkind, List.append_nil, hnext]

theorem profileIds_applyOperations :
    (applyOperations transaction s).profiles.map (fun profile => profile.id) =
      s.profiles.map (fun profile => profile.id) ++
        addedIds .upsertProfile (fun operation => operation.title) transaction.operations := by
  refine applyOperations_induction (motive := fun past next =>
    next.profiles.map (fun profile => profile.id) =
      s.profiles.map (fun profile => profile.id) ++
        addedIds .upsertProfile (fun operation => operation.title) past) (by simp [addedIds]) ?_
  intro past operation next _ hnext
  rw [applyOperation_profiles, addedIds_append_singleton]
  split
  · next hkind => simp [hnext, declaredProfile]
  · simp [hnext]

/-- Past gate 8, the ids of the successor are distinct exactly when those
before were and the transaction adds each of its own once. -/
theorem distinctIds_applyOperations
    (hgate : ∀ operation ∈ transaction.operations, invariantGate s operation = .ok ()) :
    DistinctIds (applyOperations transaction s) ↔
      DistinctIds s ∧ AddsDistinct transaction.operations := by
  have hdecisions : List.Disjoint (s.decisions.map fun decision => decision.id)
      (addedIds .appendDecision (fun operation => operation.recordId)
        transaction.operations) := by
    intro id hold hadded
    obtain ⟨operation, hmem, hkind, rfl⟩ := mem_addedIds.mp hadded
    obtain ⟨decision, hdecision, hid⟩ := List.mem_map.mp hold
    exact (appendDecision_passed (hgate operation hmem) hkind).2.2.2 decision hdecision hid
  have hconflicts : List.Disjoint (s.conflicts.map fun conflict => conflict.id)
      (addedIds .openConflict (fun operation => operation.title) transaction.operations) := by
    intro id hold hadded
    obtain ⟨operation, hmem, hkind, rfl⟩ := mem_addedIds.mp hadded
    obtain ⟨conflict, hconflict, hid⟩ := List.mem_map.mp hold
    exact openConflict_passed (hgate operation hmem) hkind conflict hconflict hid
  have hprofiles : List.Disjoint (s.profiles.map fun profile => profile.id)
      (addedIds .upsertProfile (fun operation => operation.title) transaction.operations) := by
    intro id hold hadded
    obtain ⟨operation, hmem, hkind, rfl⟩ := mem_addedIds.mp hadded
    obtain ⟨profile, hprofile, hid⟩ := List.mem_map.mp hold
    have hnone := List.find?_eq_none.mp (upsertProfile_passed (hgate operation hmem) hkind)
      profile hprofile
    exact hnone (by simpa using hid)
  constructor
  · rintro ⟨hd, hc, hp⟩
    rw [decisionIds_applyOperations] at hd
    rw [conflictIds_applyOperations] at hc
    rw [profileIds_applyOperations] at hp
    exact ⟨⟨hd.of_append_left, hc.of_append_left, hp.of_append_left⟩,
      ⟨hd.of_append_right, hc.of_append_right, hp.of_append_right⟩⟩
  · rintro ⟨hs, hadds⟩
    refine ⟨?_, ?_, ?_⟩
    · rw [decisionIds_applyOperations]
      exact hs.decisions.append hadds.decisions hdecisions
    · rw [conflictIds_applyOperations]
      exact hs.conflicts.append hadds.conflicts hconflicts
    · rw [profileIds_applyOperations]
      exact hs.profiles.append hadds.profiles hprofiles

theorem genesis_distinctIds : DistinctIds makeGenesis :=
  ⟨List.nodup_nil, List.nodup_nil, List.nodup_nil⟩

end Step

section Run

variable [Foundation] {σ : Type} [MemoryBacked σ] {t : ServiceState σ}
  {trs : List (ServiceTransition σ)}

/-- Along a run of sized writes, every committed snapshot has distinct ids
exactly when every committing transaction adds distinct ids. -/
theorem committed_distinctIds_iff {store : σ}
    (hempty : (MemoryBacked.memory store).revisions = [])
    (hrun : ServiceRun (ServiceState.start store) trs t) (hsized : SizedRun (2 ^ 32 - 1) trs) :
    (∀ snapshot, Committed trs snapshot → DistinctIds snapshot) ↔
      ∀ tr ∈ trs, ∀ actor transaction entry next,
        Commits tr (.write actor transaction entry next) →
          AddsDistinct transaction.operations := by
  constructor
  · intro hdistinct tr htr actor transaction entry next hcommits
    obtain ⟨hgate, rfl⟩ := hcommits.gates
    exact ((distinctIds_applyOperations hgate).mp
      (hdistinct _ ⟨tr, htr, _, hcommits, rfl⟩)).2
  · intro hadds
    have hwrite : ∀ tr ∈ trs, ∀ actor transaction entry next,
        Commits tr (.write actor transaction entry next) →
          DistinctIds entry.state → DistinctIds next := by
      intro tr htr actor transaction entry next hcommits hentry
      obtain ⟨hgate, rfl⟩ := hcommits.gates
      exact (distinctIds_applyOperations hgate).mpr
        ⟨hentry, hadds tr htr actor transaction entry _ hcommits⟩
    obtain ⟨-, -, hcommitted⟩ := rooted_of_sizedRun (Q := DistinctIds) (by norm_num)
      (by norm_num) hempty hrun hsized genesis_distinctIds
      (fun _ h => ⟨h.decisions, h.conflicts, h.profiles⟩) hwrite
    exact fun snapshot hsnapshot => (hcommitted snapshot hsnapshot).own

end Run

section Twice

open scoped QivenContext.Reference

/-- Declare a profile under each id. -/
def declareProfiles (ids : List ContentId) : List Operation :=
  ids.map fun id => {
    kind := .upsertProfile
    title := id
    scope := lit "kind"
    payload := lit "summary" }

/-- The first write of a chain may declare any profiles, under what ids it likes. -/
theorem exists_declared (ids : List ContentId) (hne : ids ≠ []) (hnamed : ∀ id ∈ ids, id ≠ []) :
    ∃ trs s m t m', ServiceRun (ServiceState.start ({} : MemoryStore)) trs s ∧ NoWrites trs ∧
      m.state = makeGenesis ∧
      OnHead.Wrote s m { base := m.revision, operations := declareProfiles ids } t m' := by
  obtain ⟨trs, s, m, hrun, honHead, hstate, -, -, -, -, hnone⟩ := exists_onHead
  have hkind : ∀ operation ∈ declareProfiles ids, operation.kind = .upsertProfile := by
    intro operation hmem
    obtain ⟨id, -, rfl⟩ := List.mem_map.mp hmem
    rfl
  have hgate : ∀ operation ∈ declareProfiles ids,
      invariantGate makeGenesis operation = .ok () := by
    intro operation hmem
    obtain ⟨id, hid, rfl⟩ := List.mem_map.mp hmem
    have hscope : lit "kind" ≠ [] := by decide
    have hpayload : lit "summary" ≠ [] := by decide
    simp [invariantGate, upsertProfileGate, findProfile, makeGenesis, hnamed id hid, hscope,
      hpayload]
    rfl
  obtain ⟨t, m', hwrote, -⟩ := honHead.write_plain hstate genesis_quiet (declareProfiles ids) _
    (by simpa [declareProfiles] using hne)
    (fun operation hmem => by simp [hkind operation hmem, opClassOf])
    (fun operation hmem => by simp [hkind operation hmem]) hgate rfl
  exact ⟨trs, s, m, t, m', hrun, hnone, hstate, hwrote⟩

/-- Two profiles are declared under ids of their own. -/
theorem twoProfiles_distinctIds :
    ∃ (trs : List (ServiceTransition MemoryStore)) (t : ServiceState MemoryStore)
      (snapshot : Snapshot), ServiceRun (ServiceState.start {}) trs t ∧ Committed trs snapshot ∧
        snapshot.profiles.length = 2 ∧
        ∀ snapshot, Committed trs snapshot → DistinctIds snapshot := by
  obtain ⟨trs, s, m, t, m', hrun, hnone, hstate, hwrote⟩ :=
    exists_declared [lit "first", lit "second"] (List.cons_ne_nil _ _) (by decide)
  have hrun' := hwrote.run hrun
  refine ⟨_, t, m'.state, hrun', hwrote.committed_last _, ?_,
    (committed_distinctIds_iff rfl hrun' ?_).mpr (hwrote.forall_commits hnone.forall_commits ?_)⟩
  · rw [hwrote.state, hstate]
    rfl
  · refine hwrote.sizedRun hnone ⟨short_nil, ?_⟩ ?_
    · change ∀ operation ∈ declareProfiles [lit "first", lit "second"], ShortOperation operation
      intro operation hmem
      simp only [declareProfiles, List.map_cons, List.map_nil, List.mem_cons, List.not_mem_nil,
        or_false] at hmem
      rcases hmem with rfl | rfl <;> exact ⟨by decide, by decide, by decide, by decide⟩
    · rw [hstate]
      constructor <;> simp [makeGenesis, declareProfiles, countKind, standingViews, amendIds]
  · change AddsDistinct (declareProfiles [lit "first", lit "second"])
    exact ⟨by decide, by decide, by decide⟩

/-- One id, declared twice in one transaction, is used twice. -/
theorem declaredTwice_not_distinct :
    ∃ (trs : List (ServiceTransition MemoryStore)) (t : ServiceState MemoryStore)
      (snapshot : Snapshot), ServiceRun (ServiceState.start {}) trs t ∧
        Committed trs snapshot ∧ ¬ DistinctIds snapshot := by
  obtain ⟨trs, s, m, t, m', hrun, -, hstate, hwrote⟩ :=
    exists_declared [lit "profile", lit "profile"] (List.cons_ne_nil _ _) (by decide)
  refine ⟨_, t, m'.state, hwrote.run hrun, hwrote.committed_last _, fun hdistinct => ?_⟩
  have hprofiles := hdistinct.profiles
  rw [hwrote.state, profileIds_applyOperations, hstate] at hprofiles
  exact absurd hprofiles.of_append_right
    (by decide : ¬ [lit "profile", lit "profile"].Nodup)

end Twice

end QivenContext
