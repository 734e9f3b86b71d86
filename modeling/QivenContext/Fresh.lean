import QivenContext.Reference
import QivenContext.Scenario

/-!
# Writes with a fresh revision

Two bytes in one place of an encoding give two revisions, so of any two such
snapshots one can be written under a revision that is not in use. The runs
below write evidence in such bytes over genesis.
-/

namespace QivenContext

open Library Snapshot ServiceState

open scoped QivenContext.Reference

/-- A write from the head, in a byte that gives it a revision of its own. -/
theorem OnHead.exists_fresh {s : ServiceState MemoryStore} {m : Materialization}
    {bytes : List UInt8}
    (honHead : OnHead s m) (transaction : UInt8 → ContextTransaction) (next : UInt8 → Snapshot)
    (hwrite : ∀ byte, ∃ t m', OnHead.Wrote s m (transaction byte) t m' ∧ m'.state = next byte)
    (hsplit : ∃ before after, ∀ byte, serializeSnapshot (next byte) = before ++ byte :: after)
    (hnew : ∀ byte, s.store.headBytes ≠ some (serializeSnapshot (next byte)))
    (hnodup : bytes.Nodup) (hlength : s.store.revisions.length < bytes.length) :
    ∃ byte ∈ bytes, ∃ t m', OnHead.Wrote s m (transaction byte) t m' ∧ m'.state = next byte ∧
      t.store.revisions = s.store.revisions ++ [(m'.revision, serializeSnapshot (next byte))] ∧
      m'.revision ∉ s.store.revisions.map Prod.fst := by
  obtain ⟨before, after, hbytes⟩ := hsplit
  obtain ⟨byte, hbyte, hfresh⟩ := Reference.exists_fresh_byte m.revision before after hnodup
    (show (s.store.revisions.map Prod.fst).length < _ by rwa [List.length_map])
  rw [← hbytes] at hfresh
  obtain ⟨t, m', hwrote, hstate⟩ := hwrite byte
  obtain ⟨hafter, hrevision⟩ := hwrote.revisions honHead (hstate ▸ hnew byte)
  refine ⟨byte, hbyte, t, m', hwrote, hstate, hstate ▸ hafter, ?_⟩
  rw [hrevision, hstate]
  exact hfresh

/-- The first write of a first client, in a byte that gives it a revision of
its own. -/
theorem exists_fresh_write (transaction : RevisionId → UInt8 → ContextTransaction)
    (next : UInt8 → Snapshot)
    (hwrite : ∀ s m byte, OnHead s m → m.state = makeGenesis → (∀ key, s.receipts key = none) →
      ∃ t m', OnHead.Wrote s m (transaction m.revision byte) t m' ∧ m'.state = next byte)
    (hsplit : ∃ before after, ∀ byte, serializeSnapshot (next byte) = before ++ byte :: after)
    (hnew : ∀ byte, serializeSnapshot (next byte) ≠ serializeSnapshot makeGenesis) :
    ∃ byte trs s m t m', ServiceRun (ServiceState.start ({} : MemoryStore)) trs s ∧
      NoWrites trs ∧ OnHead s m ∧ m.state = makeGenesis ∧
      OnHead.Wrote s m (transaction m.revision byte) t m' ∧ m'.state = next byte ∧
      s.store.revisions = [(m.revision, serializeSnapshot makeGenesis)] ∧
      t.store.revisions = [(m.revision, serializeSnapshot makeGenesis),
        (m'.revision, serializeSnapshot (next byte))] ∧
      m'.revision ≠ m.revision := by
  obtain ⟨trs, s, m, hrun, honHead, hstate, -, hrevisions, hreceipts, -, hnone⟩ := exists_onHead
  obtain ⟨byte, -, t, m', hwrote, hstate', hafter, hfresh⟩ :=
    honHead.exists_fresh (transaction m.revision) next
      (fun byte => hwrite s m byte honHead hstate hreceipts) hsplit (fun byte hsame => by
        rw [MemoryStore.headBytes, hrevisions] at hsame
        exact hnew byte (Option.some.inj hsame).symm)
      (show ([0, 1] : List UInt8).Nodup by decide) (by simp [hrevisions])
  refine ⟨byte, trs, s, m, t, m', hrun, hnone, honHead, hstate, hwrote, hstate', hrevisions, ?_,
    ?_⟩
  · rw [hafter, hrevisions]
    rfl
  · simpa [hrevisions] using hfresh

/-- The byte of a title stands alone in the encoding. -/
theorem serialize_title (snapshot : Snapshot) (decision : Decision) : ∃ before after, ∀ byte,
    serializeSnapshot { snapshot with decisions := [{ decision with title := [byte] }] } =
      before ++ byte :: after := by
  refine ⟨putU8 serializationVersionLimit ++ putStr snapshot.governance.rootPrincipal ++
      putVector putStr snapshot.constitution.articles ++
      putVector putHandoffPolicy snapshot.policy.handoff ++
      putVector putRecoveryRule snapshot.policy.recovery ++ putState snapshot.state ++
      (putU32 1 ++ putI64 decision.id ++ putEnum decision.status ++ putU32 1),
    putStr decision.content ++ putVector putI64 decision.supersedes ++
      putVector putI64 decision.supersededBy ++ putProvenance decision.provenance ++
      putVector putMemoryRecord snapshot.memory ++ putVector putObligation snapshot.obligations ++
      putVector putEvidence snapshot.evidence ++ afterEvidence snapshot,
    fun byte => ?_⟩
  have hlength : UInt32.ofNat [({ decision with title := [byte] } : Decision)].length = 1 := rfl
  have htitle : putStr [byte] = putU32 1 ++ [byte] := rfl
  have hafter : afterEvidence { snapshot with decisions := [{ decision with title := [byte] }] } =
      afterEvidence snapshot := rfl
  rw [serializeSnapshot_evidence, hafter]
  simp only [beforeEvidence, putVector.eq_def putDecision, hlength, List.flatMap_cons,
    List.flatMap_nil, putDecision, htitle, List.append_assoc, List.append_nil, List.cons_append,
    List.nil_append]

/-! ## Batches of evidence -/

/-- Bind pieces of evidence, each to its boundary. -/
def addAll (base : RevisionId) (evidence : List EvidenceRecord) : ContextTransaction where
  base := base
  operations := evidence.map fun record => addEvidence record.boundTo record.content

theorem map_boundEvidence_addAll (base : RevisionId) (evidence : List EvidenceRecord) :
    (addAll base evidence).operations.map boundEvidence = evidence := by
  rw [addAll, List.map_map]
  exact List.map_id'' (fun _ => rfl) evidence

theorem applyOperations_addAll (base : RevisionId) (evidence : List EvidenceRecord)
    (current : Snapshot) : applyOperations (addAll base evidence) current =
      { current with evidence := current.evidence ++ evidence } := by
  have hkind : ∀ operation ∈ (addAll base evidence).operations, operation.kind = .addEvidence := by
    intro operation hmem
    obtain ⟨record, -, rfl⟩ := List.mem_map.mp hmem
    rfl
  rw [applyOperations_evidence hkind, map_boundEvidence_addAll]

theorem addAll_short {base : RevisionId} {evidence : List EvidenceRecord}
    (hshort : ∀ record ∈ evidence, ShortEvidence record) :
    ShortTransaction (addAll base evidence) := by
  refine ⟨short_nil, fun operation hmem => ?_⟩
  obtain ⟨record, hrecord, rfl⟩ := List.mem_map.mp hmem
  exact ⟨short_nil, (hshort record hrecord).boundTo, (hshort record hrecord).content, short_nil⟩

/-- The gates ask evidence for a boundary and a content. -/
def Bindable (record : EvidenceRecord) : Prop := record.boundTo ≠ [] ∧ record.content ≠ []

theorem addAll_evidenceOnly {base : RevisionId} {evidence : List EvidenceRecord}
    (hbindable : ∀ record ∈ evidence, Bindable record) :
    EvidenceOnly (addAll base evidence).operations := by
  intro operation hmem
  obtain ⟨record, hrecord, rfl⟩ := List.mem_map.mp hmem
  exact ⟨record.boundTo, record.content, (hbindable record hrecord).1,
    (hbindable record hrecord).2, rfl⟩

theorem OnHead.writeAll {s : ServiceState MemoryStore} {m : Materialization} (h : OnHead s m)
    (hquiet : Quiet m.state) (evidence : List EvidenceRecord) (hne : evidence ≠ [])
    (hbindable : ∀ record ∈ evidence, Bindable record) :
    ∃ t m', OnHead.Wrote s m (addAll m.revision evidence) t m' ∧
      m'.state = { m.state with evidence := m.state.evidence ++ evidence } := by
  obtain ⟨t, m', hwrote, -⟩ := h.writeEvidence hquiet (addAll m.revision evidence)
    (by simp [resolveKey, addAll]) rfl (by simpa [addAll] using hne)
    (addAll_evidenceOnly hbindable)
  exact ⟨t, m', hwrote, hwrote.state.trans (applyOperations_addAll _ _ _)⟩

/-- A batch of evidence over genesis, under a revision of its own. -/
theorem exists_fresh_evidence (evidence : UInt8 → List EvidenceRecord)
    (hne : ∀ byte, evidence byte ≠ [])
    (hbindable : ∀ byte, ∀ record ∈ evidence byte, Bindable record)
    (hsplit : ∃ before after, ∀ byte,
      serializeSnapshot { makeGenesis with evidence := evidence byte } = before ++ byte :: after)
    (hnew : ∀ byte, serializeSnapshot { makeGenesis with evidence := evidence byte } ≠
      serializeSnapshot makeGenesis) :
    ∃ byte trs s m t m', ServiceRun (ServiceState.start ({} : MemoryStore)) trs s ∧
      NoWrites trs ∧ OnHead s m ∧ m.state = makeGenesis ∧
      OnHead.Wrote s m (addAll m.revision (evidence byte)) t m' ∧
      m'.state = { makeGenesis with evidence := evidence byte } ∧
      s.store.revisions = [(m.revision, serializeSnapshot makeGenesis)] ∧
      t.store.revisions = [(m.revision, serializeSnapshot makeGenesis),
        (m'.revision, serializeSnapshot { makeGenesis with evidence := evidence byte })] ∧
      m'.revision ≠ m.revision := by
  refine exists_fresh_write (fun base byte => addAll base (evidence byte)) _ ?_ hsplit hnew
  intro s m byte honHead hstate _
  obtain ⟨t, m', hwrote, hstate'⟩ :=
    honHead.writeAll (hstate ▸ genesis_quiet) (evidence byte) (hne byte) (hbindable byte)
  rw [hstate, show makeGenesis.evidence = [] from rfl, List.nil_append] at hstate'
  exact ⟨t, m', hwrote, hstate'⟩

/-- One piece of evidence with the byte for its content, then many others. -/
def batchEvidence (count : ℕ) (byte : UInt8) : List EvidenceRecord :=
  ⟨lit "boundary", [byte]⟩ :: List.replicate count ⟨lit "boundary", lit "content"⟩

theorem mem_batchEvidence {count : ℕ} {byte : UInt8} {record : EvidenceRecord}
    (h : record ∈ batchEvidence count byte) : Bindable record ∧ ShortEvidence record := by
  rcases List.mem_cons.mp h with rfl | h
  · exact ⟨⟨(by decide : lit "boundary" ≠ []), List.cons_ne_nil _ _⟩,
      ⟨(by decide : short (lit "boundary")), by simp [short]⟩⟩
  · rw [List.eq_of_mem_replicate h]
    exact ⟨⟨by decide, by decide⟩, ⟨by decide, by decide⟩⟩

theorem length_batchEvidence (count : ℕ) (byte : UInt8) :
    (batchEvidence count byte).length = count + 1 := by
  rw [batchEvidence, List.length_cons, List.length_replicate]

theorem serialize_batchEvidence (count : ℕ) : ∃ before after, ∀ byte,
    serializeSnapshot { makeGenesis with evidence := batchEvidence count byte } =
      before ++ byte :: after := by
  refine ⟨beforeEvidence makeGenesis ++ (putU32 (UInt32.ofNat (count + 1)) ++
      (putStr (lit "boundary") ++ putU32 1)),
    (List.replicate count (⟨lit "boundary", lit "content"⟩ : EvidenceRecord)).flatMap putEvidence ++
      afterEvidence makeGenesis, fun byte => ?_⟩
  rw [serializeSnapshot_evidence, putVector, length_batchEvidence, batchEvidence,
    List.flatMap_cons]
  simp only [List.append_assoc, putEvidence]
  rfl

theorem exists_fresh_batch {count : ℕ} (hcount : count < 2 ^ 32 - 1) :
    ∃ byte trs s m t m', ServiceRun (ServiceState.start ({} : MemoryStore)) trs s ∧
      NoWrites trs ∧ OnHead s m ∧ m.state = makeGenesis ∧
      OnHead.Wrote s m (addAll m.revision (batchEvidence count byte)) t m' ∧
      m'.state = { makeGenesis with evidence := batchEvidence count byte } ∧
      s.store.revisions = [(m.revision, serializeSnapshot makeGenesis)] ∧
      t.store.revisions = [(m.revision, serializeSnapshot makeGenesis),
        (m'.revision, serializeSnapshot
          { makeGenesis with evidence := batchEvidence count byte })] ∧
      m'.revision ≠ m.revision :=
  exists_fresh_evidence (batchEvidence count) (fun _ => List.cons_ne_nil _ _)
    (fun _ _ hmem => (mem_batchEvidence hmem).1) (serialize_batchEvidence count) fun byte =>
      serialize_evidence_ne (List.cons_ne_nil _ _) (fun _ hmem => (mem_batchEvidence hmem).2)
        (by rw [length_batchEvidence]; omega)

end QivenContext
