import QivenContext.Readiness

/-!
# The preparation packet

The resolver loop settles one requirement after another and collects what it
found in the packet. Here the loop is put in closed form: what a requirement
matches depends on the snapshot and the intent only, and the packet lists the
matches of all requirements in rule order.
-/

namespace QivenContext

/-! ## What a requirement matches -/

def InvocationRule.applies (rule : InvocationRule) (intent : ActionIntent) : Bool :=
  rule.action = intent.kind ∧ (rule.claimClass = none ∨ rule.claimClass = some intent.claimClass)

/-- The rules that demand something of the intent. -/
def applyingRules (snapshot : Snapshot) (intent : ActionIntent) : List InvocationRule :=
  snapshot.invocation.rules.filter fun rule => rule.applies intent

def InvocationRule.demand (rule : InvocationRule) : CognitiveRequirement where
  kind := rule.requirement
  subject := rule.subject
  blocking := rule.blocking

/-- Exact key for a recall, a shared selector for a known pit. -/
def CognitiveRequirement.matchesRecord (requirement : CognitiveRequirement)
    (intent : ActionIntent) (record : MemoryRecord) : Bool :=
  match requirement.kind with
  | .mandatoryRecall => record.title = requirement.subject
  | .inspectKnownPit => intent.priorFailure.any fun fingerprint =>
      (record.kind = .risk ∨ record.kind = .lesson) ∧
        (record.mentions fingerprint.tool ∨ record.mentions fingerprint.category)
  | _ => false

def CognitiveRequirement.matchesProfile (requirement : CognitiveRequirement)
    (profile : ProfileRecord) : Bool :=
  requirement.kind = .mandatoryRecall ∧ profile.id = requirement.subject

/-- Recall and known pits are settled by the builder, the rest later. -/
def CognitiveRequirement.resolvable (requirement : CognitiveRequirement) : Prop :=
  requirement.kind = .mandatoryRecall ∨ requirement.kind = .inspectKnownPit

instance (requirement : CognitiveRequirement) : Decidable requirement.resolvable := by
  unfold CognitiveRequirement.resolvable
  infer_instance

section Matches

variable (snapshot : Snapshot) (intent : ActionIntent) (requirement : CognitiveRequirement)

def matchedRecords : List MemoryRecord :=
  snapshot.memory.filter fun record => requirement.matchesRecord intent record

def matchedProfiles : List ProfileRecord :=
  snapshot.profiles.filter fun profile => requirement.matchesProfile profile

/-- Some memory record or profile answers the requirement. -/
def Answered : Prop :=
  (∃ record ∈ snapshot.memory, requirement.matchesRecord intent record = true) ∨
    ∃ profile ∈ snapshot.profiles, requirement.matchesProfile profile = true

instance : Decidable (Answered snapshot intent requirement) := by
  unfold Answered
  infer_instance

def matchedEntries : List Str :=
  (matchedRecords snapshot intent requirement).map (fun record =>
    labelled record.title record.statement) ++
  (matchedProfiles snapshot requirement).map (fun profile => labelled profile.id profile.summary)

def contextEntries : List Str :=
  if requirement.kind = .mandatoryRecall then matchedEntries snapshot intent requirement else []

def pitEntries : List Str :=
  if requirement.kind = .inspectKnownPit then matchedEntries snapshot intent requirement else []

/-- A recall is evidenced by its keys, a known pit by its entries. -/
def matchedEvidence : List Str :=
  if requirement.kind = .mandatoryRecall then
    (matchedRecords snapshot intent requirement).map (fun record => record.title) ++
      (matchedProfiles snapshot requirement).map fun profile => profile.id
  else matchedEntries snapshot intent requirement

def settledStatus : RequirementStatus :=
  if Answered snapshot intent requirement then .satisfied
  else if requirement.blocking ∧ requirement.resolvable then .failed
  else .pending

/-- What the loop makes of a requirement that is derived from the rule. -/
def InvocationRule.settled (rule : InvocationRule) : PreparedRequirement where
  requirement := rule.demand
  boundary := rule.boundary
  status := settledStatus snapshot intent rule.demand
  evidence := matchedEvidence snapshot intent rule.demand

variable {snapshot intent requirement}

theorem matchedEntries_eq_nil :
    matchedEntries snapshot intent requirement = [] ↔ ¬ Answered snapshot intent requirement := by
  simp [matchedEntries, matchedRecords, matchedProfiles, Answered, List.filter_eq_nil_iff]

theorem matchedEvidence_eq_nil :
    matchedEvidence snapshot intent requirement = [] ↔ ¬ Answered snapshot intent requirement := by
  unfold matchedEvidence
  split
  · simp [matchedRecords, matchedProfiles, Answered, List.filter_eq_nil_iff]
  · exact matchedEntries_eq_nil

theorem Answered.resolvable (h : Answered snapshot intent requirement) :
    requirement.resolvable := by
  unfold CognitiveRequirement.resolvable
  rcases h with ⟨record, -, hmatch⟩ | ⟨profile, -, hmatch⟩
  · unfold CognitiveRequirement.matchesRecord at hmatch
    split at hmatch
    · next hkind => exact .inl hkind
    · next hkind => exact .inr hkind
    · simp at hmatch
  · unfold CognitiveRequirement.matchesProfile at hmatch
    exact .inl (of_decide_eq_true hmatch).1

@[simp] theorem settledStatus_eq_satisfied :
    settledStatus snapshot intent requirement = .satisfied ↔
      Answered snapshot intent requirement := by
  unfold settledStatus
  split_ifs <;> simp_all

@[simp] theorem settledStatus_eq_failed :
    settledStatus snapshot intent requirement = .failed ↔
      requirement.blocking = true ∧ requirement.resolvable ∧
        ¬ Answered snapshot intent requirement := by
  unfold settledStatus
  split_ifs <;> simp_all

end Matches

/-! ## The loop in closed form -/

section Loop

variable {snapshot : Snapshot} {intent : ActionIntent} {packet : PreparationPacket}
  {rule : InvocationRule} {needs : List CognitiveNeed}

/-- The requirement as `derive_requirements` lists it. -/
def InvocationRule.derived (rule : InvocationRule) : PreparedRequirement where
  requirement := rule.demand
  boundary := rule.boundary

theorem deriveRequirements_eq (snapshot : Snapshot) (intent : ActionIntent) :
    deriveRequirements snapshot intent =
      (applyingRules snapshot intent).map InvocationRule.derived :=
  rfl

/-- What one rule adds to the packet. -/
def PreparationPacket.add (packet : PreparationPacket) (snapshot : Snapshot)
    (rules : List InvocationRule) : PreparationPacket :=
  { packet with
    requirements := packet.requirements ++ rules.map (InvocationRule.settled snapshot packet.intent)
    mandatoryContext := packet.mandatoryContext ++
      rules.flatMap fun rule => contextEntries snapshot packet.intent rule.demand
    knownPits := packet.knownPits ++
      rules.flatMap fun rule => pitEntries snapshot packet.intent rule.demand
    failure :=
      if packet.failure = .none ∧
          ∃ rule ∈ rules, settledStatus snapshot packet.intent rule.demand = .failed then
        .requiredRecallMissing
      else packet.failure }

/-- A requirement that the builder settles, with all that it matches. -/
theorem resolveRequirement_of_resolvable (packet : PreparationPacket)
    (hresolvable : rule.demand.resolvable) :
    resolveRequirement snapshot packet rule.derived =
      PreparationPacket.settle
        { packet with
          mandatoryContext :=
            packet.mandatoryContext ++ contextEntries snapshot packet.intent rule.demand
          knownPits := packet.knownPits ++ pitEntries snapshot packet.intent rule.demand }
        { rule.derived with evidence := matchedEvidence snapshot packet.intent rule.demand } := by
  rcases hresolvable with hkind | hkind
  · have hderived : rule.derived.requirement.kind = .mandatoryRecall := hkind
    simp only [resolveRequirement, hderived, contextEntries, pitEntries, matchedEvidence,
      matchedEntries, matchedRecords, matchedProfiles, CognitiveRequirement.matchesRecord,
      CognitiveRequirement.matchesProfile, hkind, if_true, true_and, List.append_assoc,
      reduceCtorEq, if_false, List.append_nil]
    rfl
  · cases hprior : packet.intent.priorFailure <;>
      simp [resolveRequirement, InvocationRule.derived, contextEntries, pitEntries,
        matchedEvidence, matchedEntries, matchedRecords, matchedProfiles, findRelatedRecords,
        CognitiveRequirement.matchesRecord, CognitiveRequirement.matchesProfile, hkind, hprior]

theorem settle_matched (packet : PreparationPacket) (hresolvable : rule.demand.resolvable) :
    packet.settle
        { rule.derived with evidence := matchedEvidence snapshot intent rule.demand } =
      { packet with
        requirements := packet.requirements ++ [rule.settled snapshot intent]
        failure :=
          if packet.failure = .none ∧ settledStatus snapshot intent rule.demand = .failed then
            .requiredRecallMissing
          else packet.failure } := by
  unfold PreparationPacket.settle InvocationRule.settled InvocationRule.derived
  by_cases hanswered : Answered snapshot intent rule.demand
  · have hne := mt matchedEvidence_eq_nil.mp (not_not.mpr hanswered)
    simp [hne, hanswered, settledStatus]
  · have hnil := matchedEvidence_eq_nil.mpr hanswered
    by_cases hblocking : rule.demand.blocking = true
    · simp [hnil, hanswered, settledStatus, hblocking, hresolvable]
    · simp [hnil, hanswered, settledStatus, hblocking]

theorem resolveRequirement_derived (snapshot : Snapshot) (packet : PreparationPacket)
    (rule : InvocationRule) :
    resolveRequirement snapshot packet rule.derived = packet.add snapshot [rule] := by
  by_cases hresolvable : rule.demand.resolvable
  · rw [resolveRequirement_of_resolvable packet hresolvable, settle_matched _ hresolvable]
    simp [PreparationPacket.add]
  · have hunanswered : ¬ Answered snapshot packet.intent rule.demand :=
      mt Answered.resolvable hresolvable
    have hnil := matchedEvidence_eq_nil.mpr hunanswered
    obtain ⟨hrecall, hpit⟩ := not_or.mp hresolvable
    have hpending : resolveRequirement snapshot packet rule.derived =
        { packet with requirements := packet.requirements ++ [rule.derived] } := by
      unfold resolveRequirement
      split
      · next hkind => exact (hrecall hkind).elim
      · next hkind => exact (hpit hkind).elim
      · rfl
    rw [hpending]
    simp [PreparationPacket.add, contextEntries, pitEntries, hrecall, hpit, hresolvable,
      InvocationRule.settled, InvocationRule.derived, settledStatus, hunanswered, hnil]

theorem add_cons (packet : PreparationPacket) (snapshot : Snapshot) (rule : InvocationRule)
    (rules : List InvocationRule) :
    (packet.add snapshot [rule]).add snapshot rules = packet.add snapshot (rule :: rules) := by
  unfold PreparationPacket.add
  simp only [List.map_cons, List.map_nil, List.flatMap_cons, List.flatMap_nil, List.append_assoc,
    List.append_nil, List.singleton_append, List.mem_cons, exists_eq_left,
    exists_eq_or_imp, List.not_mem_nil, or_false]
  congr 1
  by_cases hfailure : packet.failure = .none <;>
    by_cases hfailed : settledStatus snapshot packet.intent rule.demand = .failed <;>
      simp [hfailure, hfailed]

theorem foldl_resolveRequirement (packet : PreparationPacket) (snapshot : Snapshot)
    (rules : List InvocationRule) :
    (rules.map InvocationRule.derived).foldl (resolveRequirement snapshot) packet =
      packet.add snapshot rules := by
  induction rules generalizing packet with
  | nil => simp [PreparationPacket.add]
  | cons rule rules ih =>
      rw [List.map_cons, List.foldl_cons, resolveRequirement_derived, ih, add_cons]

theorem buildPreparationPacket_eq (intent : ActionIntent) (needs : List CognitiveNeed)
    (hpresent : snapshot.invocation.present = true) :
    buildPreparationPacket snapshot intent needs =
      PreparationPacket.add { intent, discretionaryNeeds := needs } snapshot
        (applyingRules snapshot intent) := by
  unfold buildPreparationPacket
  rw [if_neg (not_not.mpr hpresent), deriveRequirements_eq, foldl_resolveRequirement]

/-- The needs are carried and looked at by nothing. -/
theorem buildPreparationPacket_needs (snapshot : Snapshot) (intent : ActionIntent)
    (needs : List CognitiveNeed) :
    buildPreparationPacket snapshot intent needs =
      { buildPreparationPacket snapshot intent [] with discretionaryNeeds := needs } := by
  by_cases hpresent : snapshot.invocation.present = true
  · rw [buildPreparationPacket_eq _ _ hpresent, buildPreparationPacket_eq _ _ hpresent]
    rfl
  · simp [buildPreparationPacket, hpresent]

theorem answered_iff {requirement : CognitiveRequirement} :
    Answered snapshot intent requirement ↔
      (requirement.kind = .mandatoryRecall ∧
        ((∃ record ∈ snapshot.memory, record.title = requirement.subject) ∨
          ∃ profile ∈ snapshot.profiles, profile.id = requirement.subject)) ∨
      (requirement.kind = .inspectKnownPit ∧ ∃ failure, intent.priorFailure = some failure ∧
        ∃ record ∈ snapshot.memory, (record.kind = .risk ∨ record.kind = .lesson) ∧
          (record.mentions failure.tool ∨ record.mentions failure.category)) := by
  unfold Answered CognitiveRequirement.matchesRecord CognitiveRequirement.matchesProfile
  cases hkind : requirement.kind with
  | mandatoryRecall => simp
  | inspectKnownPit => cases intent.priorFailure <;> simp
  | _ => simp

theorem contextEntries_demand : contextEntries snapshot intent rule.demand =
    if rule.requirement = .mandatoryRecall then
      (snapshot.memory.filter fun record => record.title = rule.subject).map
        (fun record => labelled record.title record.statement) ++
      (snapshot.profiles.filter fun profile => profile.id = rule.subject).map
        (fun profile => labelled profile.id profile.summary)
    else [] := by
  unfold contextEntries
  by_cases hkind : rule.requirement = .mandatoryRecall
  · simp [InvocationRule.demand, hkind, matchedEntries, matchedRecords, matchedProfiles,
      CognitiveRequirement.matchesRecord, CognitiveRequirement.matchesProfile]
  · simp [InvocationRule.demand, hkind]

theorem pitEntries_demand : pitEntries snapshot intent rule.demand =
    if rule.requirement = .inspectKnownPit then
      (snapshot.memory.filter fun record => intent.priorFailure.any fun failure =>
        (record.kind = .risk ∨ record.kind = .lesson) ∧
          (record.mentions failure.tool ∨ record.mentions failure.category)).map
        fun record => labelled record.title record.statement
    else [] := by
  unfold pitEntries
  by_cases hkind : rule.requirement = .inspectKnownPit
  · simp [InvocationRule.demand, hkind, matchedEntries, matchedRecords, matchedProfiles,
      CognitiveRequirement.matchesRecord, CognitiveRequirement.matchesProfile]
  · simp [InvocationRule.demand, hkind]

end Loop

/-! ## The packet -/

/-- A present policy is resolved rule by rule: recalls by exact key, known pits
by the prior failure, and the rest is left pending. -/
theorem buildPreparationPacket_resolves {snapshot : Snapshot} {intent : ActionIntent}
    {needs : List CognitiveNeed} {packet : PreparationPacket} {rules : List InvocationRule}
    (hpresent : snapshot.invocation.present = true)
    (hpacket : packet = buildPreparationPacket snapshot intent needs)
    (hrules : rules = snapshot.invocation.rules.filter fun rule => rule.action = intent.kind ∧
      (rule.claimClass = none ∨ rule.claimClass = some intent.claimClass)) :
    packet.requirements.map (fun prepared => (prepared.requirement, prepared.boundary)) =
        rules.map (fun rule => (rule.demand, rule.boundary)) ∧
      (∀ prepared ∈ packet.requirements,
        (prepared.status = .satisfied ↔
          (prepared.requirement.kind = .mandatoryRecall ∧
            ((∃ record ∈ snapshot.memory, record.title = prepared.requirement.subject) ∨
              ∃ profile ∈ snapshot.profiles, profile.id = prepared.requirement.subject)) ∨
          (prepared.requirement.kind = .inspectKnownPit ∧
            ∃ failure, intent.priorFailure = some failure ∧ ∃ record ∈ snapshot.memory,
              (record.kind = .risk ∨ record.kind = .lesson) ∧
                (record.mentions failure.tool ∨ record.mentions failure.category))) ∧
        (prepared.status = .failed ↔ prepared.requirement.blocking = true ∧
          (prepared.requirement.kind = .mandatoryRecall ∨
            prepared.requirement.kind = .inspectKnownPit) ∧ prepared.status ≠ .satisfied)) ∧
      (packet.failure = .requiredRecallMissing ↔
        ∃ prepared ∈ packet.requirements, prepared.status = .failed) ∧
      packet.failure ≠ .invocationPolicyMissing ∧
      packet.mandatoryContext = rules.flatMap (fun rule =>
        if rule.requirement = .mandatoryRecall then
          (snapshot.memory.filter fun record => record.title = rule.subject).map
            (fun record => labelled record.title record.statement) ++
          (snapshot.profiles.filter fun profile => profile.id = rule.subject).map
            (fun profile => labelled profile.id profile.summary)
        else []) ∧
      packet.knownPits = rules.flatMap (fun rule =>
        if rule.requirement = .inspectKnownPit then
          (snapshot.memory.filter fun record => intent.priorFailure.any fun failure =>
            (record.kind = .risk ∨ record.kind = .lesson) ∧
              (record.mentions failure.tool ∨ record.mentions failure.category)).map
            fun record => labelled record.title record.statement
        else []) ∧
      ∀ others, buildPreparationPacket snapshot intent others =
        { packet with discretionaryNeeds := others } := by
  have hclosed : packet = PreparationPacket.add { intent, discretionaryNeeds := needs } snapshot
      rules := by
    rw [hpacket, buildPreparationPacket_eq _ _ hpresent, hrules]
    rfl
  have hsettled : ∀ prepared ∈ packet.requirements,
      ∃ rule ∈ rules, prepared = rule.settled snapshot intent := by
    intro prepared hmem
    rw [hclosed] at hmem
    obtain ⟨rule, hrule, rfl⟩ := List.mem_map.mp hmem
    exact ⟨rule, hrule, rfl⟩
  refine ⟨?_, ?_, ?_, ?_, ?_, ?_, ?_⟩
  · rw [hclosed]
    simp [PreparationPacket.add, InvocationRule.settled, InvocationRule.demand]
  · intro prepared hmem
    obtain ⟨rule, hrule, rfl⟩ := hsettled prepared hmem
    have hstatus : (rule.settled snapshot intent).status = .satisfied ↔
        Answered snapshot intent (rule.settled snapshot intent).requirement :=
      settledStatus_eq_satisfied
    refine ⟨hstatus.trans answered_iff, ?_⟩
    rw [ne_eq, hstatus]
    exact settledStatus_eq_failed
  · rw [hclosed]
    simp [PreparationPacket.add, InvocationRule.settled]
  · rw [hclosed]
    unfold PreparationPacket.add
    dsimp only
    split_ifs <;> simp
  · rw [hclosed]
    exact List.flatMap_congr fun rule _ => contextEntries_demand
  · rw [hclosed]
    exact List.flatMap_congr fun rule _ => pitEntries_demand
  · intro others
    rw [hpacket, buildPreparationPacket_needs snapshot intent others,
      buildPreparationPacket_needs snapshot intent needs]

theorem genesis_recall_failed :
    (buildPreparationPacket makeGenesis { kind := .createCppSymbol } []).failure =
      .requiredRecallMissing := by
  have hpresent : makeGenesis.invocation.present = true := rfl
  exact (buildPreparationPacket_resolves hpresent rfl rfl).2.2.1.mpr (by decide)

end QivenContext
