import QivenContext.Packet

/-!
# Readiness after satisfaction

A requirement is marked satisfied from outside, any number of times and in any
order. The failure of the packet is decided while it is built and stays.
-/

namespace QivenContext

/-- `mark_satisfied`. -/
def PreparedRequirement.markSatisfied (prepared : PreparedRequirement) (evidence : Str) :
    PreparedRequirement :=
  { prepared with status := .satisfied, evidence := prepared.evidence ++ [evidence] }

/-- One requirement of the packet, by its position, with the evidence for it. -/
abbrev Mark := ℕ × Str

namespace PreparationPacket

def mark (packet : PreparationPacket) (mark : Mark) : PreparationPacket :=
  { packet with
    requirements := packet.requirements.modify mark.1 fun prepared =>
      prepared.markSatisfied mark.2 }

def markAll (packet : PreparationPacket) (marks : List Mark) : PreparationPacket :=
  marks.foldl PreparationPacket.mark packet

/-- Every blocking requirement at a gated boundary is satisfied. -/
def BlockersSatisfied (gates : RequirementBoundary → Prop) (packet : PreparationPacket) : Prop :=
  ∀ prepared ∈ packet.requirements, prepared.requirement.blocking = true →
    gates prepared.boundary → prepared.status = .satisfied

theorem readyAt_iff {gates : RequirementBoundary → Prop} {packet : PreparationPacket} :
    ReadyAt gates packet ↔ packet.failure = .none ∧ packet.BlockersSatisfied gates :=
  ⟨fun h => ⟨h.failure, h.requirements⟩, fun h => ⟨h.1, h.2⟩⟩

variable {packet : PreparationPacket} {marks : List Mark}

@[simp] theorem markAll_failure : (packet.markAll marks).failure = packet.failure := by
  induction marks generalizing packet with
  | nil => rfl
  | cons first marks ih => exact @ih (packet.mark first)

/-- A mark changes the status and the evidence of its requirement only. -/
theorem getElem?_markAll (packet : PreparationPacket) (marks : List Mark) (index : ℕ) :
    ∃ update : PreparedRequirement → PreparedRequirement,
      (packet.markAll marks).requirements[index]? = packet.requirements[index]?.map update ∧
      ∀ prepared, (update prepared).requirement = prepared.requirement ∧
        (update prepared).boundary = prepared.boundary ∧
        (update prepared).status =
          if index ∈ marks.map Prod.fst then .satisfied else prepared.status := by
  induction marks generalizing packet with
  | nil => exact ⟨fun prepared => prepared, by simp [markAll], by simp⟩
  | cons first marks ih =>
      obtain ⟨update, hget, hupdate⟩ := @ih (packet.mark first)
      have hfirst : (packet.mark first).requirements[index]? = packet.requirements[index]?.map
          fun prepared => if first.1 = index then prepared.markSatisfied first.2 else prepared := by
        simp [mark, List.getElem?_modify]
      refine ⟨_, by rw [markAll, List.foldl_cons, ← markAll, hget, hfirst, Option.map_map], ?_⟩
      intro prepared
      by_cases hindex : first.1 = index
      · simp [hindex, hupdate, PreparedRequirement.markSatisfied]
      · have hne : index ≠ first.1 := Ne.symm hindex
        simp only [Function.comp_apply, if_neg hindex, hupdate, List.map_cons, List.mem_cons, hne,
          false_or, and_self]

/-- What blocks after the marks blocked before and was not marked. -/
theorem not_blockersSatisfied_markAll {gates : RequirementBoundary → Prop} :
    ¬ (packet.markAll marks).BlockersSatisfied gates ↔
      ∃ index prepared, packet.requirements[index]? = some prepared ∧
        prepared.requirement.blocking = true ∧ gates prepared.boundary ∧
        prepared.status ≠ .satisfied ∧ index ∉ marks.map Prod.fst := by
  simp only [BlockersSatisfied, not_forall, exists_prop]
  constructor
  · rintro ⟨marked, hmem, hblocking, hgates, hstatus⟩
    obtain ⟨index, hindex⟩ := List.mem_iff_getElem?.mp hmem
    obtain ⟨update, hget, hupdate⟩ := getElem?_markAll packet marks index
    rw [hget, Option.map_eq_some_iff] at hindex
    obtain ⟨prepared, hprepared, rfl⟩ := hindex
    obtain ⟨hrequirement, hboundary, hstatus'⟩ := hupdate prepared
    rw [hstatus'] at hstatus
    split at hstatus
    · exact (hstatus rfl).elim
    · next hunmarked =>
        exact ⟨index, prepared, hprepared, hrequirement ▸ hblocking, hboundary ▸ hgates, hstatus,
          hunmarked⟩
  · rintro ⟨index, prepared, hprepared, hblocking, hgates, hstatus, hunmarked⟩
    obtain ⟨update, hget, hupdate⟩ := getElem?_markAll packet marks index
    obtain ⟨hrequirement, hboundary, hstatus'⟩ := hupdate prepared
    have hmem : (packet.markAll marks).requirements[index]? = some (update prepared) := by
      rw [hget, hprepared, Option.map_some]
    refine ⟨update prepared, List.mem_of_getElem? hmem, hrequirement ▸ hblocking,
      hboundary ▸ hgates, ?_⟩
    rwa [hstatus', if_neg hunmarked]

end PreparationPacket

/-! ## Readiness as the contract has it -/

/-- Each question of readiness is answered by the blocking requirements. -/
structure PreparationPacket.MeetsContract (packet : PreparationPacket) : Prop where
  judgment : packet.readyForJudgment = true ↔ ∀ prepared ∈ packet.requirements,
    prepared.requirement.blocking = true → prepared.boundary = .beforeJudgment →
      prepared.status = .satisfied
  execution : packet.readyForExecution = true ↔ ∀ prepared ∈ packet.requirements,
    prepared.requirement.blocking = true → prepared.status = .satisfied

open PreparationPacket

/-- The contract holds of a packet that did not fail, and of one that has work
left before judgment. -/
theorem PreparationPacket.meetsContract_iff {packet : PreparationPacket} :
    packet.MeetsContract ↔ packet.failure = .none ∨
      ¬ packet.BlockersSatisfied fun boundary => boundary = .beforeJudgment := by
  have hexecution : (∀ prepared ∈ packet.requirements,
      prepared.requirement.blocking = true → prepared.status = .satisfied) ↔
        packet.BlockersSatisfied fun _ => True := by
    simp [BlockersSatisfied]
  constructor
  · intro h
    by_cases hblockers : packet.BlockersSatisfied fun boundary => boundary = .beforeJudgment
    · exact .inl (readyForJudgment_iff.mp (h.judgment.mpr hblockers)).failure
    · exact .inr hblockers
  · rintro (hnone | hblocked)
    · constructor
      · rw [readyForJudgment_iff, readyAt_iff, and_iff_right hnone]
        rfl
      · rw [readyForExecution_iff, readyAt_iff, and_iff_right hnone, hexecution]
    · constructor
      · rw [readyForJudgment_iff, readyAt_iff]
        exact iff_of_false (fun hready => hblocked hready.2) hblocked
      · rw [readyForExecution_iff, readyAt_iff, hexecution]
        have hall : ¬ packet.BlockersSatisfied fun _ => True := fun hall => hblocked
          fun prepared hmem hblocking _ => hall prepared hmem hblocking trivial
        exact iff_of_false (fun hready => hall hready.2) hall

/-- After any marks the contract holds exactly when no blocking rule failed, or
some blocking rule before judgment is neither answered nor marked. -/
theorem meetsContract_markAll_iff {snapshot : Snapshot} {intent : ActionIntent}
    {needs : List CognitiveNeed} {marks : List Mark} {rules : List InvocationRule}
    (hpresent : snapshot.invocation.present = true)
    (hrules : rules = applyingRules snapshot intent) :
    ((buildPreparationPacket snapshot intent needs).markAll marks).MeetsContract ↔
      (∀ rule ∈ rules, rule.blocking = true → rule.demand.resolvable →
        Answered snapshot intent rule.demand) ∨
      ∃ index rule, rules[index]? = some rule ∧ rule.blocking = true ∧
        rule.boundary = .beforeJudgment ∧ ¬ Answered snapshot intent rule.demand ∧
        index ∉ marks.map Prod.fst := by
  rw [meetsContract_iff, markAll_failure, not_blockersSatisfied_markAll,
    buildPreparationPacket_eq _ _ hpresent, ← hrules]
  refine or_congr ?_ ?_
  · simp only [PreparationPacket.add, true_and, ite_eq_right_iff, reduceCtorEq, imp_false,
      settledStatus_eq_failed, not_exists, not_and, not_not]
    rfl
  · simp only [PreparationPacket.add, List.nil_append, List.getElem?_map, Option.map_eq_some_iff]
    constructor
    · rintro ⟨index, prepared, ⟨rule, hrule, rfl⟩, hblocking, hboundary, hstatus, hunmarked⟩
      exact ⟨index, rule, hrule, hblocking, hboundary, mt settledStatus_eq_satisfied.mpr hstatus,
        hunmarked⟩
    · rintro ⟨index, rule, hrule, hblocking, hboundary, hanswered, hunmarked⟩
      exact ⟨index, _, ⟨rule, hrule, rfl⟩, hblocking, hboundary,
        mt settledStatus_eq_satisfied.mp hanswered, hunmarked⟩

theorem genesis_publish_meetsContract :
    ((buildPreparationPacket makeGenesis { kind := .publish } []).markAll
      [(0, lit "receipt"), (1, lit "review")]).MeetsContract := by
  have hpresent : makeGenesis.invocation.present = true := rfl
  exact (meetsContract_markAll_iff hpresent rfl).mpr (.inl (by decide))

/-- The recall of the naming policy is marked, and the packet stays failed. -/
theorem genesis_recall_marked :
    ¬ ((buildPreparationPacket makeGenesis { kind := .createCppSymbol } []).markAll
      [(0, lit "naming policy")]).MeetsContract := by
  intro h
  have hready := h.judgment.mpr (by decide)
  exact Bool.false_ne_true hready

end QivenContext
