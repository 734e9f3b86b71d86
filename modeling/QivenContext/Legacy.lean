import QivenContext.Accepted
import QivenContext.Control
import QivenContext.Reference

/-!
# Older formats

What was restored from any version of the window is exported as version 8 and
comes back as it is. An artifact that carried no invocation policy restores
to a snapshot without one, and no further export makes one up: control fails
closed on it for every action.
-/

namespace QivenContext

open Library Snapshot

section Restored

variable [Foundation] {bytes : Bytes} {snapshot t : Snapshot}

/-- The snapshot after some exports and restores. -/
inductive Reexported (snapshot : Snapshot) : Snapshot → Prop
  | refl : Reexported snapshot snapshot
  | again (t u : Snapshot) (h : Reexported snapshot t)
      (hrestore : deserialize (serializeSnapshot t) = .ok u) : Reexported snapshot u

theorem Reexported.eq (hstable : deserialize (serializeSnapshot snapshot) = .ok snapshot)
    (h : Reexported snapshot t) : t = snapshot := by
  induction h with
  | refl => rfl
  | again t u _ hrestore ih =>
      rw [ih, hstable] at hrestore
      exact (Except.ok.inj hrestore).symm

/-- An artifact without an invocation policy: version 6, or version 7 without rules. -/
def WithoutPolicy (bytes : Bytes) (snapshot : Snapshot) : Prop :=
  bytes.head? = some 6 ∨ bytes.head? = some 7 ∧ snapshot.invocation.rules = []

theorem present_of_withoutPolicy (h : deserialize bytes = .ok snapshot)
    (hwithout : WithoutPolicy bytes snapshot) : snapshot.invocation.present = false := by
  obtain ⟨version, hlayout⟩ := layout_of_deserialize h
  have hversion {v : UInt8} (hhead : bytes.head? = some v) : version = v :=
    Option.some.inj (hlayout.head.symm.trans hhead)
  rcases hwithout with hsix | ⟨hseven, hrules⟩
  · obtain rfl := hversion hsix
    rw [hlayout.policy.presence (by decide), hlayout.policy.oldest (by decide)]
    rfl
  · obtain rfl := hversion hseven
    rw [hlayout.policy.presence (by decide), hrules]
    rfl

omit [Foundation] in
theorem buildPreparationPacket_absent (habsent : t.invocation.present = false)
    (intent : ActionIntent) (needs : List CognitiveNeed) :
    (buildPreparationPacket t intent needs).failure = .invocationPolicyMissing ∧
      (buildPreparationPacket t intent needs).readyForJudgment = false ∧
      (buildPreparationPacket t intent needs).readyForExecution = false := by
  have hpacket : buildPreparationPacket t intent needs =
      { intent, discretionaryNeeds := needs, failure := .invocationPolicyMissing } := by
    simp [buildPreparationPacket, habsent]
  rw [hpacket]
  simp [PreparationPacket.readyForJudgment, PreparationPacket.readyForExecution]

/-- A restored snapshot is stable under export and restore, and one restored
without a policy never gains one. -/
theorem restored_stable (h : deserialize bytes = .ok snapshot) :
    (serializeSnapshot snapshot).head? = some 8 ∧
      deserialize (serializeSnapshot snapshot) = .ok snapshot ∧
      (WithoutPolicy bytes snapshot → ∀ t, Reexported snapshot t → ∀ intent needs,
        (buildPreparationPacket t intent needs).failure = .invocationPolicyMissing ∧
          (buildPreparationPacket t intent needs).readyForJudgment = false ∧
          (buildPreparationPacket t intent needs).readyForExecution = false) := by
  have hstable := deserialize_serialize_of_deserialize h
  refine ⟨rfl, hstable, fun hwithout t hexported intent needs => ?_⟩
  rw [hexported.eq hstable]
  exact buildPreparationPacket_absent (present_of_withoutPolicy h hwithout) intent needs

end Restored

open scoped QivenContext.Reference

/-- A decision, a lesson, an open obligation and a piece of evidence. -/
def formerWorld : Snapshot where
  governance := makeGenesis.governance
  decisions := [{ id := 1, status := .accepted, title := lit "title", content := lit "content" }]
  memory := [{ title := lit "lesson", statement := lit "statement" }]
  obligations := [{ id := 1, statement := lit "statement" }]
  evidence := [⟨lit "boundary", lit "content"⟩]

/-- It, as version 6 spelled it. -/
def recordedArtifact : Bytes :=
  6 :: (putStr formerWorld.governance.rootPrincipal ++ List.replicate 12 0 ++
    putState formerWorld.state ++ putVector putDecision formerWorld.decisions ++
    putVector putMemoryRecord formerWorld.memory ++
    putVector putObligation formerWorld.obligations ++
    putVector putEvidence formerWorld.evidence ++ List.replicate 16 0)

set_option maxRecDepth 4000 in
theorem deserialize_recordedArtifact : deserialize recordedArtifact = .ok formerWorld := by
  rfl

/-- It restores with its records and comes back from two exports as it is, and
every packet on it fails. -/
theorem recordedArtifact_stable :
    deserialize recordedArtifact = .ok formerWorld ∧
      (serializeSnapshot formerWorld).head? = some 8 ∧
      deserialize (serializeSnapshot formerWorld) = .ok formerWorld ∧
      ∀ t u, deserialize (serializeSnapshot formerWorld) = .ok t →
        deserialize (serializeSnapshot t) = .ok u → ∀ intent needs,
          (buildPreparationPacket u intent needs).failure = .invocationPolicyMissing ∧
            (buildPreparationPacket u intent needs).readyForExecution = false := by
  obtain ⟨hversion, hstable, hwithout⟩ := restored_stable deserialize_recordedArtifact
  refine ⟨deserialize_recordedArtifact, hversion, hstable, fun t u ht hu intent needs => ?_⟩
  obtain ⟨hfails, -, hexecution⟩ :=
    hwithout (.inl rfl) u (.again t u (.again _ t .refl ht) hu) intent needs
  exact ⟨hfails, hexecution⟩

end QivenContext
