import QivenContext.Marking

/-!
# Superseded memory

What a memory record contributes shows when it is taken out. The bundle shows
active records only. The packet asks for the title, or for a selector, and not
for the status: a superseded record answers a recall as an active one does.
-/

namespace QivenContext

/-- The snapshot without the memory record at the position. -/
def Snapshot.withoutRecord (snapshot : Snapshot) (index : ℕ) : Snapshot :=
  { snapshot with memory := snapshot.memory.eraseIdx index }

section Filter

variable {α : Type} {p : α → Bool} {as : List α} {index : ℕ} {a : α}

theorem filter_eraseIdx (hget : as[index]? = some a) (ha : p a = false) :
    (as.eraseIdx index).filter p = as.filter p := by
  obtain ⟨hlt, rfl⟩ := List.getElem?_eq_some_iff.mp hget
  conv_rhs => rw [← List.take_append_drop index as, List.drop_eq_getElem_cons hlt]
  rw [List.eraseIdx_eq_take_drop_succ, List.filter_append, List.filter_append,
    List.filter_cons_of_neg (by simp [ha])]

theorem length_filter_eraseIdx (hget : as[index]? = some a) (ha : p a = true) :
    ((as.eraseIdx index).filter p).length + 1 = (as.filter p).length := by
  obtain ⟨hlt, rfl⟩ := List.getElem?_eq_some_iff.mp hget
  conv_rhs => rw [← List.take_append_drop index as, List.drop_eq_getElem_cons hlt]
  rw [List.eraseIdx_eq_take_drop_succ, List.filter_append, List.filter_append,
    List.filter_cons_of_pos ha]
  simp [Nat.add_assoc]

end Filter

/-! ## The bundle -/

/-- A record that is not active leaves no trace in any bundle. -/
theorem buildBundle_withoutRecord {handle : Materialization} {index : ℕ} {record : MemoryRecord}
    (hget : handle.state.memory[index]? = some record) (hstatus : record.status ≠ .active)
    (query : Query) :
    buildBundle { handle with state := handle.state.withoutRecord index } query =
      buildBundle handle query := by
  have hfloors : mandatoryInputs (handle.state.withoutRecord index) =
      mandatoryInputs handle.state := by
    unfold mandatoryInputs
    simp only [Snapshot.withoutRecord]
    rw [filter_eraseIdx hget (by simp [hstatus])]
    rfl
  have hoffers : offers (handle.state.withoutRecord index) = offers handle.state := by
    unfold offers
    simp only [Snapshot.withoutRecord]
    rw [filter_eraseIdx hget (by simp [hstatus])]
  unfold buildBundle
  simp only [hfloors, hoffers]
  rfl

/-! ## The packet -/

section Packet

variable {snapshot : Snapshot} {intent : ActionIntent} {requirement : CognitiveRequirement}
  {index : ℕ} {record : MemoryRecord}

theorem length_matchedEvidence :
    (matchedEvidence snapshot intent requirement).length =
      (matchedRecords snapshot intent requirement).length +
        (matchedProfiles snapshot requirement).length := by
  unfold matchedEvidence matchedEntries
  split <;> simp

/-- A record that matches takes its evidence with it. -/
theorem matchedEvidence_withoutRecord_ne (hget : snapshot.memory[index]? = some record)
    (hmatch : requirement.matchesRecord intent record = true) :
    matchedEvidence (snapshot.withoutRecord index) intent requirement ≠
      matchedEvidence snapshot intent requirement := by
  intro heq
  have hlength := congrArg List.length heq
  have hless : (matchedRecords (snapshot.withoutRecord index) intent requirement).length + 1 =
      (matchedRecords snapshot intent requirement).length := length_filter_eraseIdx hget hmatch
  have hprofiles : matchedProfiles (snapshot.withoutRecord index) requirement =
    matchedProfiles snapshot requirement := rfl
  rw [length_matchedEvidence, length_matchedEvidence, hprofiles] at hlength
  omega

theorem matchedRecords_withoutRecord (hget : snapshot.memory[index]? = some record)
    (hmatch : requirement.matchesRecord intent record = false) :
    matchedRecords (snapshot.withoutRecord index) intent requirement =
      matchedRecords snapshot intent requirement :=
  filter_eraseIdx hget hmatch

theorem answered_iff_matched : Answered snapshot intent requirement ↔
    matchedRecords snapshot intent requirement ≠ [] ∨
      matchedProfiles snapshot requirement ≠ [] := by
  simp [Answered, matchedRecords, matchedProfiles, List.filter_eq_nil_iff]

/-- Where every rule matches the same, the packet is the same. -/
theorem add_congr {next : Snapshot} {packet : PreparationPacket} {rules : List InvocationRule}
    (hrecords : ∀ rule ∈ rules, matchedRecords next packet.intent rule.demand =
      matchedRecords snapshot packet.intent rule.demand)
    (hprofiles : next.profiles = snapshot.profiles) :
    packet.add next rules = packet.add snapshot rules := by
  have hmatched (requirement : CognitiveRequirement) :
      matchedProfiles next requirement = matchedProfiles snapshot requirement := by
    rw [matchedProfiles, matchedProfiles, hprofiles]
  have hstatus : ∀ rule ∈ rules, settledStatus next packet.intent rule.demand =
      settledStatus snapshot packet.intent rule.demand := by
    intro rule hrule
    simp only [settledStatus, answered_iff_matched, hrecords rule hrule, hmatched]
  unfold PreparationPacket.add
  congr 1
  · refine congrArg _ (List.map_congr_left fun rule hrule => ?_)
    simp only [InvocationRule.settled, hstatus rule hrule, matchedEvidence, matchedEntries,
      hrecords rule hrule, hmatched]
  · refine congrArg _ (List.flatMap_congr fun rule hrule => ?_)
    simp only [contextEntries, matchedEntries, hrecords rule hrule, hmatched]
  · refine congrArg _ (List.flatMap_congr fun rule hrule => ?_)
    simp only [pitEntries, matchedEntries, hrecords rule hrule, hmatched]
  · have hfailed : (∃ rule ∈ rules, settledStatus next packet.intent rule.demand = .failed) ↔
        ∃ rule ∈ rules, settledStatus snapshot packet.intent rule.demand = .failed :=
      exists_congr fun rule => and_congr_right fun hrule => by rw [hstatus rule hrule]
    simp only [hfailed]

end Packet

/-- A record that no applying rule matches leaves no trace in the packet. -/
theorem buildPreparationPacket_withoutRecord {snapshot : Snapshot} {intent : ActionIntent}
    (needs : List CognitiveNeed) {index : ℕ} {record : MemoryRecord}
    (hget : snapshot.memory[index]? = some record)
    (hmatch : snapshot.invocation.present = true → ∀ rule ∈ applyingRules snapshot intent,
      rule.demand.matchesRecord intent record = false) :
    buildPreparationPacket (snapshot.withoutRecord index) intent needs =
      buildPreparationPacket snapshot intent needs := by
  by_cases hpresent : snapshot.invocation.present = true
  · have hpresent' : (snapshot.withoutRecord index).invocation.present = true := hpresent
    rw [buildPreparationPacket_eq _ _ hpresent, buildPreparationPacket_eq _ _ hpresent']
    exact add_congr (fun rule hrule =>
      matchedRecords_withoutRecord hget (hmatch hpresent rule hrule)) rfl
  · simp [buildPreparationPacket, Snapshot.withoutRecord, hpresent]

/-- A blocking recall that nothing answers fails, and its packet with it. -/
theorem recall_failed {snapshot : Snapshot} {intent : ActionIntent} {needs : List CognitiveNeed}
    {rule : InvocationRule} (hpresent : snapshot.invocation.present = true)
    (hrule : rule ∈ applyingRules snapshot intent) (hblocking : rule.demand.blocking = true)
    (hkind : rule.demand.kind = .mandatoryRecall)
    (hunanswered : ¬ Answered snapshot intent rule.demand) :
    (rule.settled snapshot intent).status = .failed ∧
      (buildPreparationPacket snapshot intent needs).readyForJudgment = false ∧
      (buildPreparationPacket snapshot intent needs).readyForExecution = false := by
  have hstatus : settledStatus snapshot intent rule.demand = .failed :=
    settledStatus_eq_failed.mpr ⟨hblocking, .inl hkind, hunanswered⟩
  have hfailure : (buildPreparationPacket snapshot intent needs).failure ≠ .none := by
    rw [buildPreparationPacket_eq _ _ hpresent, PreparationPacket.add]
    dsimp only
    rw [if_pos ⟨rfl, rule, hrule, hstatus⟩]
    simp
  refine ⟨hstatus, ?_, ?_⟩
  · rw [Bool.eq_false_iff, ne_eq, readyForJudgment_iff]
    exact fun hready => hfailure hready.failure
  · rw [Bool.eq_false_iff, ne_eq, readyForExecution_iff]
    exact fun hready => hfailure hready.failure

/-! ## Active memory only -/

/-- Taking the record out changes what the packet found. -/
def Contributes (snapshot : Snapshot) (intent : ActionIntent) (needs : List CognitiveNeed)
    (index : ℕ) : Prop :=
  let packet := buildPreparationPacket snapshot intent needs
  let without := buildPreparationPacket (snapshot.withoutRecord index) intent needs
  without.mandatoryContext ≠ packet.mandatoryContext ∨ without.knownPits ≠ packet.knownPits ∨
    without.requirements.map (fun prepared => prepared.evidence) ≠
      packet.requirements.map fun prepared => prepared.evidence

/-- Only active records contribute, so a blocking recall that no other answers
is failed, and the packet is not ready. -/
structure ActiveOnly (snapshot : Snapshot) (intent : ActionIntent) (needs : List CognitiveNeed) :
    Prop where
  contributors : ∀ index record, snapshot.memory[index]? = some record →
    Contributes snapshot intent needs index → record.status = .active
  mandates : ∀ prepared ∈ (buildPreparationPacket snapshot intent needs).requirements,
    prepared.requirement.blocking = true → prepared.requirement.kind = .mandatoryRecall →
    (∀ record ∈ snapshot.memory, record.title = prepared.requirement.subject →
      record.status = .superseded) →
    (∀ profile ∈ snapshot.profiles, profile.id ≠ prepared.requirement.subject) →
      prepared.status = .failed ∧
        (buildPreparationPacket snapshot intent needs).readyForJudgment = false ∧
        (buildPreparationPacket snapshot intent needs).readyForExecution = false

/-- No bundle shows a record that is not active. Of a packet the same holds
exactly when no rule that applies matches such a record. -/
theorem activeOnly_iff (snapshot : Snapshot) (intent : ActionIntent)
    (needs : List CognitiveNeed) :
    (∀ (handle : Materialization) (index : ℕ) (record : MemoryRecord) (query : Query),
      handle.state = snapshot → snapshot.memory[index]? = some record → record.status ≠ .active →
        buildBundle { handle with state := snapshot.withoutRecord index } query =
          buildBundle handle query) ∧
    (ActiveOnly snapshot intent needs ↔ (snapshot.invocation.present = true →
      ∀ rule ∈ applyingRules snapshot intent, ∀ record ∈ snapshot.memory,
        rule.demand.matchesRecord intent record = true → record.status = .active)) := by
  refine ⟨fun handle index record query hstate hget hstatus => ?_, ?_⟩
  · subst hstate
    exact buildBundle_withoutRecord hget hstatus query
  constructor
  · intro h hpresent rule hrule record hmem hmatch
    obtain ⟨index, hget⟩ := List.mem_iff_getElem?.mp hmem
    refine h.contributors index record hget (.inr (.inr fun heq => ?_))
    have hpresent' : (snapshot.withoutRecord index).invocation.present = true := hpresent
    rw [buildPreparationPacket_eq _ _ hpresent, buildPreparationPacket_eq _ _ hpresent'] at heq
    simp only [PreparationPacket.add, List.nil_append, List.map_map] at heq
    exact matchedEvidence_withoutRecord_ne hget hmatch (List.map_inj_left.mp heq rule hrule)
  · intro h
    constructor
    · intro index record hget hcontributes
      by_contra hstatus
      have hsame := buildPreparationPacket_withoutRecord needs hget
        fun hpresent rule hrule => by
          rw [Bool.eq_false_iff]
          exact fun hmatch =>
            hstatus (h hpresent rule hrule record (List.mem_of_getElem? hget) hmatch)
      simp [Contributes, hsame] at hcontributes
    · intro prepared hmem hblocking hkind hsuperseded hprofiles
      by_cases hpresent : snapshot.invocation.present = true
      · have hprepared := hmem
        rw [buildPreparationPacket_eq _ _ hpresent] at hprepared
        obtain ⟨rule, hrule, rfl⟩ := List.mem_map.mp hprepared
        refine recall_failed hpresent hrule hblocking hkind ?_
        rintro (⟨record, hrecord, hmatch⟩ | ⟨profile, hprofile, hmatch⟩)
        · have htitle : record.title = rule.demand.subject := by
            have hrecall : rule.demand.kind = .mandatoryRecall := hkind
            simpa [CognitiveRequirement.matchesRecord, hrecall] using hmatch
          have hactive := h hpresent rule hrule record hrecord hmatch
          rw [hsuperseded record hrecord htitle] at hactive
          simp at hactive
        · exact hprofiles profile hprofile (of_decide_eq_true hmatch).2
      · simp [buildPreparationPacket, hpresent] at hmem

/-- A record under a title, and after it the naming policy in a status. -/
def recordedWorld (status : MemoryRecord.Status) : Snapshot :=
  { makeGenesis with memory := [
      { status := .superseded, title := lit "naming", statement := lit "an older one" },
      { status, title := lit "naming policy", statement := lit "names" }] }

def recordedHandle (status : MemoryRecord.Status) : Materialization where
  address := 0
  state := recordedWorld status

theorem recorded_activeOnly :
    (∀ query, buildBundle { recordedHandle .active with
        state := (recordedWorld .active).withoutRecord 0 } query =
      buildBundle (recordedHandle .active) query) ∧
    ActiveOnly (recordedWorld .active) { kind := .createCppSymbol } [] := by
  obtain ⟨hbundle, hpacket⟩ :=
    activeOnly_iff (recordedWorld .active) { kind := .createCppSymbol } []
  refine ⟨fun query => ?_, hpacket.mpr fun _ => by decide⟩
  exact hbundle (recordedHandle .active) 0 _ query rfl rfl (by decide)

theorem superseded_recalled :
    ¬ ActiveOnly (recordedWorld .superseded) { kind := .createCppSymbol } [] := by
  intro h
  have hactive := h.contributors 1 _ rfl (.inl (by decide))
  exact absurd hactive (by decide)

end QivenContext
