import QivenContext.Fresh

/-!
# Cold boots

A fresh process sees nothing but the store. It can boot the head of any run
whose committing writes stay under the resource guard of the decoder. The
write gates do not know that guard: a write past it is committed, and only
the next boot fails.
-/

namespace QivenContext

open Library Snapshot ServiceState

section Boot

variable [Foundation] {σ : Type} [MemoryBacked σ] {s t : ServiceState σ}
  {trs : List (ServiceTransition σ)} {P : Snapshot → Prop}

/-- A fresh process over the store can boot its head, and sees it before any
materialization is live. -/
structure Restorable (store : σ) : Prop where
  decodes : ∃ snapshot, deserialize
    (CognitionStore.materialize store (CognitionStore.head store)) = .ok snapshot
  boots : ∃ m, ((ServiceState.start store).createCognition {}).1 = .handle m
  seen : (ServiceState.start store).canonicalHead ≠ none

theorem restorable_of_decodes {store : σ} (snapshot : Snapshot)
    (hhead : CognitionStore.head store ≠ {})
    (hparsed : deserialize (CognitionStore.materialize store (CognitionStore.head store)) =
      .ok snapshot) : Restorable store where
  decodes := ⟨snapshot, hparsed⟩
  boots := by
    obtain ⟨-, m, -, hcreate⟩ := createCognition_head (s := ServiceState.start store) hparsed
    exact ⟨m, congrArg Prod.fst hcreate⟩
  seen := by
    have hnamed : (CognitionStore.head store).isEmpty = false :=
      Bool.eq_false_iff.mpr fun hempty => hhead (RevisionId.isEmpty_iff.mp hempty)
    simp [ServiceState.canonicalHead, ServiceState.start, hnamed, hparsed, Except.toOption]

theorem Rooted.head_encodes (h : Rooted P s) (hhead : CognitionStore.head s.store ≠ {}) :
    ∃ snapshot, P snapshot ∧
      CognitionStore.materialize s.store (CognitionStore.head s.store) =
        serializeSnapshot snapshot := by
  rw [head_memory] at hhead
  rw [head_memory, materialize_memory]
  cases hbytes : s.memory.headBytes with
  | none =>
      have hnil := MemoryStore.headBytes_eq_none.mp hbytes
      rw [s.memory.head_eq, hnil] at hhead
      exact (hhead rfl).elim
  | some stateBytes =>
      exact h.stored _ (MemoryStore.materialize_of_mem (MemoryStore.head_mem hbytes))

/-- When every committing write carries short strings and leaves every vector
within the decoder's guard, whatever head the run ends in can be restored. -/
theorem restorable_of_sizedRun {store : σ} (hempty : (MemoryBacked.memory store).revisions = [])
    (hrun : ServiceRun (ServiceState.start store) trs t) (hsized : SizedRun 100000 trs)
    (hhead : CognitionStore.head t.store ≠ {}) : Restorable t.store := by
  obtain ⟨hrooted, -⟩ := rooted_of_sizedRun (Q := fun _ => True) (by norm_num) (by norm_num)
    hempty hrun hsized trivial (fun _ _ => trivial) fun _ _ _ _ _ _ _ _ => trivial
  obtain ⟨snapshot, hsnapshot, hbytes⟩ := hrooted.head_encodes hhead
  refine restorable_of_decodes (restored snapshot) hhead ?_
  rw [hbytes, deserialize_serialize hsnapshot.strings hsnapshot.vectors]

end Boot

section Guard

open scoped QivenContext.Reference

theorem keyedEvidence_restorable :
    ∃ (trs : List (ServiceTransition MemoryStore)) (t : ServiceState MemoryStore),
      ServiceRun (ServiceState.start {}) trs t ∧ CognitionStore.head t.store ≠ {} ∧
        Restorable t.store := by
  obtain ⟨trs, s, m, t, m', hrun, hsized, -, hwrote⟩ := exists_keyedEvidence_sized
  have hhead : CognitionStore.head t.store ≠ {} := by
    rw [show CognitionStore.head t.store = m'.revision from hwrote.onHead.head]
    exact hwrote.onHead.named
  exact ⟨_, t, hrun, hhead, restorable_of_sizedRun rfl hrun hsized hhead⟩

/-- A batch that is larger than the guard is applied, and its revision does not
decode. -/
theorem exists_batch_undecodable {count : ℕ} (hlow : 100000 ≤ count) (hhigh : count < 2 ^ 32 - 1) :
    ∃ (trs : List (ServiceTransition MemoryStore)) (t : ServiceState MemoryStore),
      ServiceRun (ServiceState.start {}) trs t ∧ EveryWrite ShortTransaction trs ∧
        CognitionStore.head t.store ≠ {} ∧
        ∀ snapshot, deserialize (CognitionStore.materialize t.store
          (CognitionStore.head t.store)) ≠ .ok snapshot := by
  obtain ⟨byte, trs, s, m, t, m', hrun, hnone, -, -, hwrote, -, -, hrevisions, hfresh⟩ :=
    exists_fresh_batch hhigh
  have hlength := length_batchEvidence count byte
  have hshort : ∀ record ∈ batchEvidence count byte, ShortEvidence record :=
    fun _ hmem => (mem_batchEvidence hmem).2
  have hfits := genesis_evidence_fits hshort (hlength ▸ by omega)
  have hwide : ¬ VectorsWithin 100000 { makeGenesis with evidence := batchEvidence count byte } :=
    fun hwithin => by
      have hle : (batchEvidence count byte).length ≤ 100000 := hwithin.evidence
      omega
  have hmaterialize : CognitionStore.materialize t.store (CognitionStore.head t.store) =
      serializeSnapshot { makeGenesis with evidence := batchEvidence count byte } := by
    change t.store.materialize t.store.head = _
    rw [hwrote.onHead.head]
    exact MemoryStore.materialize_of_pair hrevisions hfresh
  refine ⟨_, t, hwrote.run hrun, hnone.everyWrite.written (addAll_short hshort), ?_,
    fun snapshot hparsed => ?_⟩
  · rw [show CognitionStore.head t.store = m'.revision from hwrote.onHead.head]
    exact hwrote.onHead.named
  · obtain ⟨error, herror⟩ := deserialize_serialize_error hfits hwide
    rw [hmaterialize, herror] at hparsed
    simp at hparsed

/-- One piece of evidence more than the decoder accepts. -/
theorem overfull_not_restorable :
    ∃ (trs : List (ServiceTransition MemoryStore)) (t : ServiceState MemoryStore),
      ServiceRun (ServiceState.start {}) trs t ∧ EveryWrite ShortTransaction trs ∧
        CognitionStore.head t.store ≠ {} ∧ ¬ Restorable t.store := by
  obtain ⟨trs, t, hrun, hshort, hhead, hparsed⟩ :=
    exists_batch_undecodable (le_refl 100000) (by norm_num)
  refine ⟨trs, t, hrun, hshort, hhead, fun hrestorable => ?_⟩
  obtain ⟨snapshot, hdecodes⟩ := hrestorable.decodes
  exact hparsed snapshot hdecodes

end Guard

end QivenContext
