import QivenContext.Bundle
import QivenContext.Codec
import QivenContext.Control
import QivenContext.Growth
import QivenContext.Reference
import QivenContext.Steps

/-!
# What survives transport

The format carries neither the epistemic type of a memory record nor the
trigger value of an obligation, so a restored snapshot is the original exactly
when these are the defaults. No consumer of the read plane or of the control
plane looks at either field.
-/

namespace QivenContext

open Library Snapshot

/-! ## What the format drops -/

section Dropped

variable {s : Snapshot}

/-- A snapshot of the format's size comes back as itself exactly when the two
fields the format does not carry have their defaults. -/
theorem deserialize_serialize_eq_self_iff [Foundation] (hstrings : StringsShort s)
    (hvectors : VectorsWithin 100000 s) :
    deserialize (serializeSnapshot s) = .ok s ↔
      (∀ record ∈ s.memory, record.epistemic = .observation) ∧
        ∀ obligation ∈ s.obligations, obligation.triggerValue = [] := by
  rw [deserialize_serialize hstrings hvectors, Except.ok.injEq, restored_eq_self]

end Dropped

/-- The record of one memory operation, as the service writes it. -/
def verifiedLesson : MemoryRecord :=
  verifiedMemory { aux := 1, payload := lit "content", provenanceRef := lit "reference" }

/-- Genesis with one memory record. -/
def genesisWithLesson : Snapshot := { makeGenesis with memory := [verifiedLesson] }

theorem genesisWithLesson_stringsShort : StringsShort genesisWithLesson :=
  { genesis_stringsShort with
    memory := by
      intro record hmem
      obtain rfl := List.mem_singleton.mp hmem
      exact ⟨by decide, by decide, shortProvenance_userStatement (by decide)⟩ }

theorem genesisWithLesson_vectorsWithin : VectorsWithin 100000 genesisWithLesson :=
  { genesis_vectorsWithin (by norm_num) with
    memory := by decide
    record := by
      intro record hmem
      obtain rfl := List.mem_singleton.mp hmem
      decide }

open scoped QivenContext.Reference in
theorem genesisWithLesson_eq_self_iff :
    deserialize (serializeSnapshot genesisWithLesson) = .ok genesisWithLesson ↔
      (∀ record ∈ genesisWithLesson.memory, record.epistemic = .observation) ∧
        ∀ obligation ∈ genesisWithLesson.obligations, obligation.triggerValue = [] :=
  deserialize_serialize_eq_self_iff genesisWithLesson_stringsShort genesisWithLesson_vectorsWithin

open scoped QivenContext.Reference in
/-- A verified memory record comes back as an observation. -/
theorem genesisWithLesson_not_restored :
    StringsShort genesisWithLesson ∧ VectorsWithin 100000 genesisWithLesson ∧
      deserialize (serializeSnapshot genesisWithLesson) ≠ .ok genesisWithLesson := by
  refine ⟨genesisWithLesson_stringsShort, genesisWithLesson_vectorsWithin, fun h => ?_⟩
  rw [deserialize_serialize genesisWithLesson_stringsShort genesisWithLesson_vectorsWithin,
    Except.ok.injEq, restored_eq_self] at h
  exact absurd (h.1 verifiedLesson (List.mem_singleton_self _)) (by decide)

/-! ## What the planes see -/

section Planes

variable (s : Snapshot)

/-- A selection of memory that does not see the epistemic type. -/
theorem memory_restored {β : Type} {p : MemoryRecord → Bool} {g : MemoryRecord → β}
    (hp : ∀ record, p (restoredMemory record) = p record)
    (hg : ∀ record, g (restoredMemory record) = g record) :
    ((restored s).memory.filter p).map g = (s.memory.filter p).map g := by
  have hmemory : (restored s).memory = s.memory.map restoredMemory := rfl
  have hpf : p ∘ restoredMemory = p := funext hp
  have hgf : g ∘ restoredMemory = g := funext hg
  rw [hmemory, List.filter_map, List.map_map, hpf, hgf]

theorem findObligation_restored (id : Int64) :
    findObligation (restored s) id = (findObligation s id).map restoredObligation := by
  simp only [findObligation, restored, List.find?_map]
  rfl

theorem boundaryFloor_restored : boundaryFloor (restored s) = boundaryFloor s := by
  unfold boundaryFloor
  have hstate : (restored s).state = s.state := rfl
  rw [hstate]
  split
  · rfl
  · congr 1
    funext id
    rw [findObligation_restored]
    cases findObligation s id <;> rfl

theorem mandatoryInputs_restored : mandatoryInputs (restored s) = mandatoryInputs s := by
  have hmemory : ((restored s).memory.filter fun record =>
        record.kind = .negativeKnowledge ∧ record.status = .active).map
        (fun record => lit "negative knowledge: " ++ record.statement) =
      (s.memory.filter fun record =>
        record.kind = .negativeKnowledge ∧ record.status = .active).map
        (fun record => lit "negative knowledge: " ++ record.statement) :=
    memory_restored s (fun _ => rfl) fun _ => rfl
  unfold mandatoryInputs
  rw [boundaryFloor_restored, hmemory]
  rfl

theorem offers_restored : offers (restored s) = offers s := by
  have hmemory : ((restored s).memory.filter fun record =>
        record.status = .active ∧ record.kind ≠ .negativeKnowledge).map memoryOffer =
      (s.memory.filter fun record =>
        record.status = .active ∧ record.kind ≠ .negativeKnowledge).map memoryOffer :=
    memory_restored s (fun _ => rfl) fun _ => rfl
  unfold offers
  rw [hmemory]
  rfl

theorem evaluateObligation_restored :
    (restored s).obligations.map evaluateObligation = s.obligations.map evaluateObligation := by
  simp only [restored, List.map_map]
  rfl

theorem findRelatedRecords_restored (fingerprint : FailureFingerprint) :
    findRelatedRecords (restored s) fingerprint = findRelatedRecords s fingerprint :=
  memory_restored s (fun _ => rfl) fun _ => rfl

theorem resolveRequirement_restored :
    resolveRequirement (restored s) = resolveRequirement s := by
  funext packet prepared
  have hrelated : findRelatedRecords (restored s) = findRelatedRecords s :=
    funext (findRelatedRecords_restored s)
  have hlabels : ∀ subject : Str, ((restored s).memory.filter fun record =>
        record.title = subject).map (fun record => labelled record.title record.statement) =
      (s.memory.filter fun record => record.title = subject).map
        (fun record => labelled record.title record.statement) :=
    fun subject => memory_restored s (fun _ => rfl) fun _ => rfl
  have htitles : ∀ subject : Str, ((restored s).memory.filter fun record =>
        record.title = subject).map (fun record => record.title) =
      (s.memory.filter fun record => record.title = subject).map fun record => record.title :=
    fun subject => memory_restored s (fun _ => rfl) fun _ => rfl
  have hprofiles : (restored s).profiles = s.profiles := rfl
  unfold resolveRequirement
  simp only [hrelated, hlabels, htitles, hprofiles]

/-- Two states are the same to everything that reads them. -/
structure SamePlanes (s s' : Snapshot) : Prop where
  bundle : ∀ m m' : Materialization, m.state = s → m'.state = s' → m.revision = m'.revision →
    ∀ query, buildBundle m query = buildBundle m' query
  view : ∀ m m' : Materialization, m.state = s → m'.state = s' →
    ∀ viewId, resolveView m viewId = resolveView m' viewId
  recovery : ∀ reason, recoveryFor s reason = recoveryFor s' reason
  authorities : ∀ actor, effectiveAuthorities s actor = effectiveAuthorities s' actor
  requirements : ∀ intent, deriveRequirements s intent = deriveRequirements s' intent
  packet : ∀ intent needs,
    buildPreparationPacket s intent needs = buildPreparationPacket s' intent needs
  judgment : ∀ intent needs, (buildPreparationPacket s intent needs).readyForJudgment =
    (buildPreparationPacket s' intent needs).readyForJudgment
  execution : ∀ intent needs, (buildPreparationPacket s intent needs).readyForExecution =
    (buildPreparationPacket s' intent needs).readyForExecution

theorem samePlanes_restored : SamePlanes s (restored s) := by
  have hpacket : ∀ intent needs, buildPreparationPacket s intent needs =
      buildPreparationPacket (restored s) intent needs := by
    intro intent needs
    unfold buildPreparationPacket
    rw [resolveRequirement_restored]
    rfl
  refine ⟨?_, ?_, fun _ => rfl, fun _ => rfl, fun _ => rfl, hpacket,
    fun intent needs => by rw [hpacket], fun intent needs => by rw [hpacket]⟩
  · rintro m m' rfl hstate hrevision query
    unfold buildBundle
    dsimp only
    rw [hstate, hrevision, mandatoryInputs_restored, offers_restored,
      evaluateObligation_restored]
    rfl
  · rintro m m' rfl hstate viewId
    unfold resolveView
    rw [hstate]
    rfl

end Planes

/-- A snapshot of the format's size is restored, and nothing that reads it can
tell the restored one apart. -/
theorem restored_samePlanes [Foundation] {s : Snapshot} (hstrings : StringsShort s)
    (hvectors : VectorsWithin 100000 s) :
    ∃ s', deserialize (serializeSnapshot s) = .ok s' ∧ SamePlanes s s' :=
  ⟨restored s, deserialize_serialize hstrings hvectors, samePlanes_restored s⟩

open scoped QivenContext.Reference in
theorem genesisWithLesson_samePlanes :
    ∃ s', deserialize (serializeSnapshot genesisWithLesson) = .ok s' ∧
      SamePlanes genesisWithLesson s' :=
  restored_samePlanes genesisWithLesson_stringsShort genesisWithLesson_vectorsWithin

end QivenContext
