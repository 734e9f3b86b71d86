import QivenContext.AppendOnly

/-!
# Readiness along the chain

A packet is ready when every blocking requirement is resolved by the memory
and the profiles, or waits for a later boundary. Memory and profiles only
grow, and the invocation policy is never written, so an action that was
prepared once stays prepared.
-/

namespace QivenContext

open Library Snapshot ServiceState

/-! ## What makes a packet ready -/

/-- Nothing failed, and what blocks at the gated boundaries is satisfied. -/
structure ReadyAt (gates : RequirementBoundary → Prop) (packet : PreparationPacket) : Prop where
  failure : packet.failure = .none
  requirements : ∀ prepared ∈ packet.requirements, prepared.requirement.blocking = true →
    gates prepared.boundary → prepared.status = .satisfied

theorem readyForJudgment_iff {packet : PreparationPacket} :
    packet.readyForJudgment = true ↔
      ReadyAt (fun boundary => boundary = .beforeJudgment) packet := by
  simp only [PreparationPacket.readyForJudgment, decide_eq_true_eq, not_and, not_not]
  exact ⟨fun h => ⟨h.1, h.2⟩, fun h => ⟨h.1, h.2⟩⟩

theorem readyForExecution_iff {packet : PreparationPacket} :
    packet.readyForExecution = true ↔ ReadyAt (fun _ => True) packet := by
  simp only [PreparationPacket.readyForExecution, decide_eq_true_eq, not_and, not_not]
  exact ⟨fun h => ⟨h.1, fun prepared hmem hblocking _ => h.2 prepared hmem hblocking⟩,
    fun h => ⟨h.1, fun prepared hmem hblocking => h.2 prepared hmem hblocking trivial⟩⟩

/-- The requirement resolves against the snapshot, or waits for a boundary that
is not gated. -/
def Clears (gates : RequirementBoundary → Prop) (snapshot : Snapshot) (intent : ActionIntent)
    (prepared : PreparedRequirement) : Prop :=
  match prepared.requirement.kind with
  | .mandatoryRecall =>
      (∃ record ∈ snapshot.memory, record.title = prepared.requirement.subject) ∨
        ∃ profile ∈ snapshot.profiles, profile.id = prepared.requirement.subject
  | .inspectKnownPit => ∃ fingerprint, intent.priorFailure = some fingerprint ∧
      findRelatedRecords snapshot fingerprint ≠ []
  | _ => ¬ gates prepared.boundary

section Builder

variable {gates : RequirementBoundary → Prop} {snapshot next : Snapshot} {intent : ActionIntent}
  {packet : PreparationPacket} {prepared : PreparedRequirement}

theorem readyAt_snoc :
    ReadyAt gates { packet with requirements := packet.requirements ++ [prepared] } ↔
      ReadyAt gates packet ∧ (prepared.requirement.blocking = true → gates prepared.boundary →
        prepared.status = .satisfied) := by
  constructor
  · rintro ⟨hfailure, hall⟩
    exact ⟨⟨hfailure, fun other hmem => hall other (List.mem_append_left _ hmem)⟩,
      hall prepared (List.mem_append_right _ (List.mem_singleton_self _))⟩
  · rintro ⟨⟨hfailure, hall⟩, hlast⟩
    exact ⟨hfailure, forall_mem_append_singleton hall hlast⟩

theorem readyAt_settle : ReadyAt gates (packet.settle prepared) ↔
    ReadyAt gates packet ∧ (prepared.requirement.blocking = true → prepared.evidence ≠ []) := by
  unfold PreparationPacket.settle
  split
  · next hevidence =>
      have hne : prepared.evidence ≠ [] := mt List.isEmpty_iff.mpr hevidence
      rw [readyAt_snoc]
      simp [hne]
  · next hevidence =>
      have hnil : prepared.evidence = [] := by simpa using hevidence
      split
      · next hblocking =>
          refine iff_of_false (fun hready => ?_) (fun hready => hready.2 hblocking hnil)
          have hfailure := hready.failure
          dsimp only at hfailure
          split at hfailure
          · simp at hfailure
          · next hfailed => exact hfailed hfailure
      · next hblocking =>
          rw [readyAt_snoc]
          simp [hblocking]

/-- One round of the loop, on a requirement as it was derived. -/
theorem readyAt_resolve (hpending : prepared.status = .pending) (hnil : prepared.evidence = []) :
    ReadyAt gates (resolveRequirement snapshot packet prepared) ↔ ReadyAt gates packet ∧
      (prepared.requirement.blocking = true → Clears gates snapshot packet.intent prepared) := by
  have hcontext {context pits : List Str} : ReadyAt gates
      { packet with mandatoryContext := context, knownPits := pits } ↔ ReadyAt gates packet :=
    ⟨fun h => ⟨h.failure, h.requirements⟩, fun h => ⟨h.failure, h.requirements⟩⟩
  unfold resolveRequirement Clears
  cases hkind : prepared.requirement.kind with
  | mandatoryRecall =>
      dsimp only
      rw [readyAt_settle, hcontext, hnil]
      refine and_congr_right fun _ => imp_congr_right fun _ => ?_
      simp only [List.nil_append, ne_eq, List.append_eq_nil_iff, List.map_eq_nil_iff,
        List.filter_eq_nil_iff, decide_eq_true_eq, not_and_or, not_forall, not_not, exists_prop]
  | inspectKnownPit =>
      dsimp only
      rw [readyAt_settle, hcontext, hnil]
      refine and_congr_right fun _ => imp_congr_right fun _ => ?_
      cases packet.intent.priorFailure <;> simp
  | _ =>
      dsimp only
      rw [readyAt_snoc, hpending]
      simp

theorem resolveRequirement_intent :
    (resolveRequirement snapshot packet prepared).intent = packet.intent := by
  unfold resolveRequirement PreparationPacket.settle
  split <;> dsimp only <;> split_ifs <;> rfl

theorem readyAt_foldl (requirements : List PreparedRequirement)
    (hderived : ∀ prepared ∈ requirements, prepared.status = .pending ∧ prepared.evidence = []) :
    ReadyAt gates (requirements.foldl (resolveRequirement snapshot) packet) ↔
      ReadyAt gates packet ∧ ∀ prepared ∈ requirements, prepared.requirement.blocking = true →
        Clears gates snapshot packet.intent prepared := by
  induction requirements generalizing packet with
  | nil => simp
  | cons prepared requirements ih =>
      obtain ⟨hpending, hnil⟩ := hderived prepared List.mem_cons_self
      rw [List.foldl_cons, ih fun other hmem => hderived other (List.mem_cons_of_mem _ hmem),
        readyAt_resolve hpending hnil, resolveRequirement_intent, List.forall_mem_cons, and_assoc]

/-- The packet is ready when there is a policy and all that blocks is cleared. -/
theorem readyAt_build {needs : List CognitiveNeed} :
    ReadyAt gates (buildPreparationPacket snapshot intent needs) ↔
      snapshot.invocation.present = true ∧ ∀ prepared ∈ deriveRequirements snapshot intent,
        prepared.requirement.blocking = true → Clears gates snapshot intent prepared := by
  unfold buildPreparationPacket
  dsimp only
  split
  · next habsent =>
      exact iff_of_false (fun hready => by simpa using hready.failure) fun h => habsent h.1
  · next hpresent =>
      rw [readyAt_foldl]
      · simp only [not_not.mp hpresent, true_and]
        refine and_iff_right ⟨rfl, by simp⟩
      · intro prepared hmem
        obtain ⟨rule, -, rfl⟩ := List.mem_map.mp hmem
        exact ⟨rfl, rfl⟩

theorem findRelatedRecords_mono (hmemory : snapshot.memory <+: next.memory)
    {fingerprint : FailureFingerprint} (h : findRelatedRecords snapshot fingerprint ≠ []) :
    findRelatedRecords next fingerprint ≠ [] := by
  obtain ⟨later, hlater⟩ := hmemory
  unfold findRelatedRecords at h ⊢
  rw [← hlater, List.filter_append, List.map_append]
  exact List.append_ne_nil_of_left_ne_nil h _

theorem Clears.mono (h : AppendOnly snapshot next)
    (hclears : Clears gates snapshot intent prepared) : Clears gates next intent prepared := by
  unfold Clears at hclears ⊢
  split at hclears
  · rcases hclears with ⟨record, hmem, htitle⟩ | ⟨profile, hmem, hid⟩
    · exact .inl ⟨record, h.memory.subset hmem, htitle⟩
    · exact .inr ⟨profile, h.profiles.subset hmem, hid⟩
  · obtain ⟨fingerprint, hprior, hrelated⟩ := hclears
    exact ⟨fingerprint, hprior, findRelatedRecords_mono h.memory hrelated⟩
  · exact hclears

theorem ReadyAt.mono {needs : List CognitiveNeed} (h : AppendOnly snapshot next)
    (hready : ReadyAt gates (buildPreparationPacket snapshot intent needs)) :
    ReadyAt gates (buildPreparationPacket next intent needs) := by
  obtain ⟨hpresent, hclears⟩ := readyAt_build.mp hready
  have hderived : deriveRequirements next intent = deriveRequirements snapshot intent := by
    unfold deriveRequirements
    rw [h.government.invocation]
  refine readyAt_build.mpr ⟨h.government.invocation ▸ hpresent, ?_⟩
  rw [hderived]
  exact fun prepared hmem hblocking => (hclears prepared hmem hblocking).mono h

end Builder

/-! ## Whole runs -/

/-- Whatever is prepared in the first snapshot is prepared in the second. -/
structure StaysReady (before after : Snapshot) : Prop where
  judgment : ∀ intent needs, (buildPreparationPacket before intent needs).readyForJudgment = true →
    (buildPreparationPacket after intent needs).readyForJudgment = true
  execution : ∀ intent needs,
    (buildPreparationPacket before intent needs).readyForExecution = true →
      (buildPreparationPacket after intent needs).readyForExecution = true

instance : IsTrans Snapshot StaysReady where
  trans _ _ _ h h' :=
    ⟨fun intent needs hready => h'.judgment intent needs (h.judgment intent needs hready),
      fun intent needs hready => h'.execution intent needs (h.execution intent needs hready)⟩

theorem AppendOnly.staysReady {before after : Snapshot} (h : AppendOnly before after) :
    StaysReady before after where
  judgment _ _ hready := readyForJudgment_iff.mpr ((readyForJudgment_iff.mp hready).mono h)
  execution _ _ hready := readyForExecution_iff.mpr ((readyForExecution_iff.mp hready).mono h)

/-- The format keeps what a packet is built from. -/
theorem staysReady_of_restored {before current : Snapshot}
    (h : restored current = restored before) : StaysReady before current := by
  have hpacket (intent : ActionIntent) (needs : List CognitiveNeed) :
      buildPreparationPacket before intent needs = buildPreparationPacket current intent needs :=
    calc buildPreparationPacket before intent needs
        = buildPreparationPacket (restored before) intent needs :=
          (samePlanes_restored before).packet intent needs
      _ = buildPreparationPacket (restored current) intent needs := by rw [h]
      _ = buildPreparationPacket current intent needs :=
          ((samePlanes_restored current).packet intent needs).symm
  exact ⟨fun intent needs hready => hpacket intent needs ▸ hready,
    fun intent needs hready => hpacket intent needs ▸ hready⟩

theorem staysReady_rule : ChainRule (fun _ => True) (fun _ => True) StaysReady
    fun _ _ => True where
  genesis := trivial
  boot _ _ := trivial
  apply _ _ _ _ := trivial
  first := trivial
  step _ _ transaction _ _ _ h _ := ⟨iff_of_true (IsTrans.trans _ _ _ (staysReady_of_restored h)
    (appendOnly_applyOperations transaction _).staysReady) trivial, fun _ => trivial⟩

/-- Along a run whose committing writes keep every count and length below
`2 ^ 32`, with revision ids that do not collide, an action that one committed
snapshot prepares is prepared by every later one. -/
theorem commits_stayReady [Foundation] {σ : Type} [MemoryBacked σ] {t : ServiceState σ}
    {trs : List (ServiceTransition σ)} {store : σ}
    (hempty : (MemoryBacked.memory store).revisions = [])
    (hrun : ServiceRun (ServiceState.start store) trs t) (hsized : SizedRun (2 ^ 32 - 1) trs)
    (hfree : Collisionless t) : (committedSnapshots trs).Pairwise StaysReady := by
  rw [← List.isChain_iff_pairwise]
  exact (staysReady_rule.run hempty hrun hsized hfree).mpr fun _ _ _ _ _ _ _ => trivial

/-! ## A policy, before and after a boot -/

section Counted

open scoped QivenContext.Reference

theorem batch_staysReady :
    ∃ (trs : List (ServiceTransition MemoryStore)) (t : ServiceState MemoryStore),
      ServiceRun (ServiceState.start {}) trs t ∧ t.memory.revisions.length = 2 ∧
        (committedSnapshots trs).Pairwise StaysReady := by
  obtain ⟨byte, trs, s, m, t, m', hrun, hsized, hfree, hnone, hwrote, hstate, -, hlength⟩ :=
    exists_sized_batch
  exact ⟨_, t, hrun, hlength, commits_stayReady rfl hrun hsized hfree⟩

/-- A task may begin over the pieces of evidence, and over what they are booted
as no action may. -/
theorem counted_not_staysReady :
    ∃ (trs : List (ServiceTransition MemoryStore)) (t : ServiceState MemoryStore),
      ServiceRun (ServiceState.start {}) trs t ∧
        ¬ (committedSnapshots trs).Pairwise StaysReady := by
  obtain ⟨byte, trs, s, m, t, m', hrun, -, hwrote, hstate, -, -, -, hparsed⟩ :=
    exists_counted_write
  obtain ⟨m'', u, hstep, hsubmits, honHead, hbooted, -⟩ := hwrote.onHead.boot hparsed rfl
  obtain ⟨v, last, hwrote', hlast⟩ := honHead.writeAll (hbooted ▸ foldedWorld_quiet byte)
    [⟨[1], [1]⟩] (List.cons_ne_nil _ _) (by
      intro record hmem
      obtain rfl := List.mem_singleton.mp hmem
      exact ⟨List.cons_ne_nil _ _, List.cons_ne_nil _ _⟩)
  refine ⟨_, v, hwrote'.run ((hwrote.run hrun).snoc hstep), fun hpairwise => ?_⟩
  rw [hwrote'.committedSnapshots, committedSnapshots_booted hsubmits,
    hwrote.committedSnapshots] at hpairwise
  have hstays : StaysReady m'.state last.state :=
    (List.pairwise_append.mp hpairwise).2.2 _ (List.mem_append_right _ List.mem_cons_self) _
      List.mem_cons_self
  have hbefore : ReadyAt (fun boundary => boundary = .beforeJudgment)
      (buildPreparationPacket m'.state {} []) := by
    have hnone : deriveRequirements (countedWorld byte) {} = [] := rfl
    rw [hstate, readyAt_build, hnone]
    exact ⟨rfl, by simp⟩
  have hafter := readyForJudgment_iff.mp
    (hstays.judgment {} [] (readyForJudgment_iff.mpr hbefore))
  have hpresent := (readyAt_build.mp hafter).1
  rw [hlast, hbooted] at hpresent
  exact Bool.false_ne_true hpresent

end Counted

end QivenContext
