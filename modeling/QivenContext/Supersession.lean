import QivenContext.Ids
import QivenContext.Library.Layered

/-!
# Supersession

The gate only lets an accepted decision be superseded by an accepted one, as
they stand before the transaction. An accepted decision has no successor yet,
so no new link leaves a decision that an old one points to: the old links
and the new ones lie in layers. Whether the new ones have a cycle among
themselves, or name one decision twice, no gate looks at.
-/

namespace QivenContext

open Library Snapshot ServiceState

/-- Some decision with the first id lists the second. -/
def Supersedes (snapshot : Snapshot) (a b : Int64) : Prop :=
  ∃ decision ∈ snapshot.decisions, decision.id = a ∧ b ∈ decision.supersedes

/-- The links between decisions are acyclic and reciprocal, and a decision is
superseded exactly when it has its one successor. -/
structure Lineage (snapshot : Snapshot) : Prop where
  acyclic : Acyclic (Supersedes snapshot)
  reciprocal : ∀ d ∈ snapshot.decisions, ∀ e ∈ snapshot.decisions,
    e.id ∈ d.supersedes ↔ d.id ∈ e.supersededBy
  successor : ∀ d ∈ snapshot.decisions, d.supersededBy.length ≤ 1 ∧
    (d.status = .superseded ↔ d.supersededBy.length = 1)

/-- A lineage whose links lead to decisions that are there, and where an id
determines the links; ids themselves may be used twice. -/
structure ClosedLineage (snapshot : Snapshot) : Prop extends Lineage snapshot where
  supersedes : ∀ d ∈ snapshot.decisions, ∀ id ∈ d.supersedes,
    ∃ e ∈ snapshot.decisions, e.id = id
  supersededBy : ∀ d ∈ snapshot.decisions, ∀ id ∈ d.supersededBy,
    ∃ e ∈ snapshot.decisions, e.id = id
  uniform : ∀ d ∈ snapshot.decisions, ∀ e ∈ snapshot.decisions, d.id = e.id →
    d.supersedes = e.supersedes ∧ d.supersededBy = e.supersededBy ∧ d.status = e.status

/-- The transaction records the first id as the successor of the second. -/
def NewLink (operations : List Operation) (a b : Int64) : Prop :=
  ∃ operation ∈ operations, operation.kind = .supersedeDecision ∧
    operation.successorRecordId = a ∧ operation.recordId = b

/-- The transaction supersedes no decision twice, and its links have no cycle. -/
structure SupersedesSoundly (operations : List Operation) : Prop where
  once : ∀ id, (successorIds id operations).length ≤ 1
  acyclic : Acyclic (NewLink operations)

theorem mem_supersededIds {a b : Int64} {operations : List Operation} :
    b ∈ supersededIds a operations ↔ NewLink operations a b := by
  simp [supersededIds, NewLink, and_assoc]

theorem mem_successorIds {a b : Int64} {operations : List Operation} :
    a ∈ successorIds b operations ↔ NewLink operations a b := by
  simp only [successorIds, NewLink, List.mem_map, List.mem_filter, decide_eq_true_eq]
  constructor
  · rintro ⟨operation, ⟨hmem, hkind, hrecord⟩, hsuccessor⟩
    exact ⟨operation, hmem, hkind, hsuccessor, hrecord⟩
  · rintro ⟨operation, hmem, hkind, hsuccessor, hrecord⟩
    exact ⟨operation, ⟨hmem, hkind, hrecord⟩, hsuccessor⟩

section Step

variable {s : Snapshot} {transaction : ContextTransaction}

theorem NewLink.accepted {a b : Int64}
    (hgate : ∀ operation ∈ transaction.operations, invariantGate s operation = .ok ())
    (h : NewLink transaction.operations a b) :
    (∃ d ∈ s.decisions, d.id = a ∧ d.status = .accepted) ∧
      ∃ e ∈ s.decisions, e.id = b ∧ e.status = .accepted := by
  obtain ⟨operation, hmem, hkind, rfl, rfl⟩ := h
  obtain ⟨superseded, successor, hsuperseded, hsuccessor, -, hstatus, hstatus', -⟩ :=
    supersedeDecision_passed (hgate operation hmem) hkind
  obtain ⟨hmem', hid⟩ := findDecision_some hsuperseded
  obtain ⟨hmem'', hid'⟩ := findDecision_some hsuccessor
  exact ⟨⟨successor, hmem'', hid', hstatus'⟩, ⟨superseded, hmem', hid, hstatus⟩⟩

/-- Under a closed lineage every decision with the id of an accepted one is
accepted, and nothing points to it. -/
theorem ClosedLineage.accepted (h : ClosedLineage s) {e : Decision} (he : e ∈ s.decisions)
    (haccepted : ∃ d ∈ s.decisions, d.id = e.id ∧ d.status = .accepted) :
    e.status = .accepted ∧ e.supersededBy = [] := by
  obtain ⟨d, hd, hid, hstatus⟩ := haccepted
  have heq : e.status = .accepted := ((h.uniform d hd e he hid).2.2 ▸ hstatus)
  obtain ⟨hle, hiff⟩ := h.successor e he
  refine ⟨heq, List.eq_nil_of_length_eq_zero ?_⟩
  have hne : e.supersededBy.length ≠ 1 := fun hone => by
    rw [hiff.mpr hone] at heq
    simp at heq
  omega

/-- Every id there was still names a decision, with the links it had and the
new ones. -/
theorem exists_kept (hgate : ∀ operation ∈ transaction.operations,
      invariantGate s operation = .ok ()) {before : Decision} (hbefore : before ∈ s.decisions) :
    ∃ decision ∈ (applyOperations transaction s).decisions, decision.id = before.id ∧
      ∃ same ∈ s.decisions, same.id = before.id ∧
        decision.supersedes =
          same.supersedes ++ supersededIds before.id transaction.operations ∧
        decision.supersededBy =
          same.supersededBy ++ successorIds before.id transaction.operations := by
  have hid : before.id ∈
      (applyOperations transaction s).decisions.map fun decision => decision.id := by
    rw [decisionIds_applyOperations]
    exact List.mem_append_left _ (List.mem_map_of_mem hbefore)
  obtain ⟨decision, hdecision, hsame⟩ := List.mem_map.mp hid
  refine ⟨decision, hdecision, hsame, ?_⟩
  cases (grown_applyOperations hgate).decision decision hdecision with
  | kept same hmem hid hsupersedes hsupersededBy _ _ =>
      have hids : same.id = before.id := hid.symm.trans hsame
      exact ⟨same, hmem, hids, hids ▸ hsupersedes, hids ▸ hsupersededBy⟩
  | added hfresh _ _ _ _ => exact (hfresh before hbefore hsame.symm).elim

/-- The links of the successor are the old ones and the new ones. -/
theorem supersedes_applyOperations
    (hgate : ∀ operation ∈ transaction.operations, invariantGate s operation = .ok ())
    {a b : Int64} (h : Supersedes (applyOperations transaction s) a b) :
    Supersedes s a b ∨ NewLink transaction.operations a b := by
  obtain ⟨decision, hdecision, rfl, hb⟩ := h
  cases (grown_applyOperations hgate).decision decision hdecision with
  | kept before hmem hid hsupersedes _ _ _ =>
      rw [hsupersedes] at hb
      rcases List.mem_append.mp hb with hb | hb
      · exact .inl ⟨before, hmem, hid.symm, hb⟩
      · exact .inr (hid ▸ mem_supersededIds.mp hb)
  | added _ hsupersedes _ _ _ => simp [hsupersedes] at hb

theorem NewLink.supersedes
    (hgate : ∀ operation ∈ transaction.operations, invariantGate s operation = .ok ())
    {a b : Int64} (h : NewLink transaction.operations a b) :
    Supersedes (applyOperations transaction s) a b := by
  obtain ⟨⟨before, hbefore, rfl, -⟩, -⟩ := h.accepted hgate
  obtain ⟨decision, hdecision, hid, same, -, -, hsupersedes, -⟩ := exists_kept hgate hbefore
  exact ⟨decision, hdecision, hid,
    hsupersedes ▸ List.mem_append_right _ (mem_supersededIds.mpr h)⟩

/-- A decision of the successor that is linked to one there was, was there. -/
theorem ClosedLineage.not_fresh (h : ClosedLineage s)
    (hgate : ∀ operation ∈ transaction.operations, invariantGate s operation = .ok ())
    {before : Decision} (hbefore : before ∈ s.decisions) (id : Int64)
    (hfresh : ∀ d ∈ s.decisions, d.id ≠ id) :
    id ∉ before.supersedes ++ supersededIds before.id transaction.operations ∧
      id ∉ before.supersededBy ++ successorIds before.id transaction.operations := by
  constructor
  · intro hid
    rcases List.mem_append.mp hid with hid | hid
    · obtain ⟨d, hd, hsame⟩ := h.supersedes before hbefore id hid
      exact hfresh d hd hsame
    · obtain ⟨-, d, hd, hsame, -⟩ := (mem_supersededIds.mp hid).accepted hgate
      exact hfresh d hd hsame
  · intro hid
    rcases List.mem_append.mp hid with hid | hid
    · obtain ⟨d, hd, hsame⟩ := h.supersededBy before hbefore id hid
      exact hfresh d hd hsame
    · obtain ⟨⟨d, hd, hsame, -⟩, -⟩ := (mem_successorIds.mp hid).accepted hgate
      exact hfresh d hd hsame

theorem ClosedLineage.reciprocal_apply (h : ClosedLineage s)
    (hgate : ∀ operation ∈ transaction.operations, invariantGate s operation = .ok ()) :
    ∀ d ∈ (applyOperations transaction s).decisions,
      ∀ e ∈ (applyOperations transaction s).decisions,
        e.id ∈ d.supersedes ↔ d.id ∈ e.supersededBy := by
  intro d hd e he
  cases (grown_applyOperations hgate).decision d hd with
  | kept d' hd' hdid hsupersedes _ _ _ =>
      rw [hsupersedes]
      cases (grown_applyOperations hgate).decision e he with
      | kept e' he' heid _ hsupersededBy _ _ =>
          rw [hsupersededBy, List.mem_append, List.mem_append, mem_supersededIds,
            mem_successorIds, hdid, heid, h.reciprocal d' hd' e' he']
      | added hfresh _ hsupersededBy _ _ =>
          simp only [hsupersededBy, List.not_mem_nil, iff_false]
          exact (h.not_fresh hgate hd' _ hfresh).1
  | added hfresh hsupersedes _ _ _ =>
      simp only [hsupersedes, List.not_mem_nil, false_iff]
      cases (grown_applyOperations hgate).decision e he with
      | kept e' he' _ _ hsupersededBy _ _ =>
          rw [hsupersededBy]
          exact (h.not_fresh hgate he' _ hfresh).2
      | added _ _ hsupersededBy _ _ => simp [hsupersededBy]

theorem ClosedLineage.successor_apply (h : ClosedLineage s)
    (hgate : ∀ operation ∈ transaction.operations, invariantGate s operation = .ok ())
    (honce : ∀ id, (successorIds id transaction.operations).length ≤ 1) :
    ∀ d ∈ (applyOperations transaction s).decisions, d.supersededBy.length ≤ 1 ∧
      (d.status = .superseded ↔ d.supersededBy.length = 1) := by
  intro d hd
  cases (grown_applyOperations hgate).decision d hd with
  | kept d' hd' _ _ hsupersededBy hstatus _ =>
      by_cases hnone : successorIds d'.id transaction.operations = []
      · rw [if_pos hnone] at hstatus
        rw [hsupersededBy, hnone, List.append_nil, hstatus]
        exact h.successor d' hd'
      · obtain ⟨a, ha⟩ := List.exists_mem_of_ne_nil _ hnone
        obtain ⟨-, haccepted⟩ := (mem_successorIds.mp ha).accepted hgate
        obtain ⟨-, hfree⟩ := h.accepted hd' haccepted
        have hone : (successorIds d'.id transaction.operations).length = 1 :=
          le_antisymm (honce _) (List.length_pos_of_mem ha)
        rw [if_neg hnone] at hstatus
        rw [hsupersededBy, hfree, List.nil_append, hstatus, hone]
        simp
  | added _ _ hsupersededBy hstatus _ => simp [hsupersededBy, hstatus]

theorem ClosedLineage.acyclic_apply (h : ClosedLineage s)
    (hgate : ∀ operation ∈ transaction.operations, invariantGate s operation = .ok ())
    (hnew : Acyclic (NewLink transaction.operations)) :
    Acyclic (Supersedes (applyOperations transaction s)) := by
  have hlayer : ∀ a b c, Supersedes s a b → ¬ NewLink transaction.operations b c := by
    rintro a b c ⟨d, hd, rfl, hb⟩ hlink
    obtain ⟨haccepted, -⟩ := hlink.accepted hgate
    obtain ⟨e, he, rfl⟩ := h.supersedes d hd b hb
    have hfree := (h.accepted he haccepted).2
    have hback := (h.reciprocal d hd e he).mp hb
    simp [hfree] at hback
  exact (acyclic_layered hlayer h.acyclic hnew).mono fun a b => supersedes_applyOperations hgate

theorem ClosedLineage.apply (h : ClosedLineage s)
    (hgate : ∀ operation ∈ transaction.operations, invariantGate s operation = .ok ())
    (hsound : SupersedesSoundly transaction.operations) :
    ClosedLineage (applyOperations transaction s) where
  acyclic := h.acyclic_apply hgate hsound.acyclic
  reciprocal := h.reciprocal_apply hgate
  successor := h.successor_apply hgate hsound.once
  supersedes d hd id hid := by
    cases (grown_applyOperations hgate).decision d hd with
    | kept d' hd' _ hsupersedes _ _ _ =>
        rw [hsupersedes] at hid
        by_contra hmissing
        refine (h.not_fresh hgate hd' id fun e he hsame => ?_).1 hid
        obtain ⟨decision, hdecision, hkept, -⟩ := exists_kept hgate he
        exact hmissing ⟨decision, hdecision, hkept.trans hsame⟩
    | added _ hsupersedes _ _ _ => simp [hsupersedes] at hid
  supersededBy d hd id hid := by
    cases (grown_applyOperations hgate).decision d hd with
    | kept d' hd' _ _ hsupersededBy _ _ =>
        rw [hsupersededBy] at hid
        by_contra hmissing
        refine (h.not_fresh hgate hd' id fun e he hsame => ?_).2 hid
        obtain ⟨decision, hdecision, hkept, -⟩ := exists_kept hgate he
        exact hmissing ⟨decision, hdecision, hkept.trans hsame⟩
    | added _ _ hsupersededBy _ _ => simp [hsupersededBy] at hid
  uniform d hd e he hid := by
    cases (grown_applyOperations hgate).decision d hd with
    | kept d' hd' hdid hsupersedes hsupersededBy hstatus _ =>
        cases (grown_applyOperations hgate).decision e he with
        | kept e' he' heid hsupersedes' hsupersededBy' hstatus' _ =>
            have hids : d'.id = e'.id := hdid.symm.trans (hid.trans heid)
            obtain ⟨h₁, h₂, h₃⟩ := h.uniform d' hd' e' he' hids
            exact ⟨by rw [hsupersedes, hsupersedes', h₁, hids],
              by rw [hsupersededBy, hsupersededBy', h₂, hids],
              by rw [hstatus, hstatus', h₃, hids]⟩
        | added hfresh _ _ _ _ => exact (hfresh d' hd' (hdid.symm.trans hid)).elim
    | added hfresh hsupersedes hsupersededBy hstatus _ =>
        cases (grown_applyOperations hgate).decision e he with
        | kept e' he' heid _ _ _ _ => exact (hfresh e' he' (heid.symm.trans hid.symm)).elim
        | added _ hsupersedes' hsupersededBy' hstatus' _ =>
            exact ⟨by rw [hsupersedes, hsupersedes'], by rw [hsupersededBy, hsupersededBy'],
              by rw [hstatus, hstatus']⟩

/-- Only a sound transaction leaves a lineage. -/
theorem Lineage.soundly (h : Lineage (applyOperations transaction s))
    (hgate : ∀ operation ∈ transaction.operations, invariantGate s operation = .ok ()) :
    SupersedesSoundly transaction.operations where
  once id := by
    by_contra hmany
    obtain ⟨a, ha⟩ := List.exists_mem_of_length_pos (by omega : 0 <
      (successorIds id transaction.operations).length)
    obtain ⟨-, before, hbefore, rfl, -⟩ := (mem_successorIds.mp ha).accepted hgate
    obtain ⟨d, hd, -, same, -, -, -, hsupersededBy⟩ := exists_kept hgate hbefore
    have hle := (h.successor d hd).1
    rw [hsupersededBy, List.length_append] at hle
    omega
  acyclic := h.acyclic.mono fun _ _ hlink => hlink.supersedes hgate

theorem genesis_closedLineage : ClosedLineage makeGenesis := by
  have hnil : ∀ d, d ∉ makeGenesis.decisions := by simp [makeGenesis]
  refine ⟨⟨fun a hcycle => ?_, fun d hd => (hnil d hd).elim, fun d hd => (hnil d hd).elim⟩,
    fun d hd => (hnil d hd).elim, fun d hd => (hnil d hd).elim, fun d hd => (hnil d hd).elim⟩
  obtain ⟨b, d, hd, -⟩ := exists_first_step hcycle
  exact hnil d hd

end Step

section Run

variable [Foundation] {σ : Type} [MemoryBacked σ] {t : ServiceState σ}
  {trs : List (ServiceTransition σ)}

/-- Along a run of sized writes, every committed snapshot is a lineage exactly
when every committing transaction supersedes soundly. -/
theorem committed_lineage_iff {store : σ} (hempty : (MemoryBacked.memory store).revisions = [])
    (hrun : ServiceRun (ServiceState.start store) trs t) (hsized : SizedRun (2 ^ 32 - 1) trs) :
    (∀ snapshot, Committed trs snapshot → Lineage snapshot) ↔
      ∀ tr ∈ trs, ∀ actor transaction entry next,
        Commits tr (.write actor transaction entry next) →
          SupersedesSoundly transaction.operations := by
  constructor
  · intro hlineage tr htr actor transaction entry next hcommits
    obtain ⟨hgate, rfl⟩ := hcommits.gates
    exact (hlineage _ ⟨tr, htr, _, hcommits, rfl⟩).soundly hgate
  · intro hsound
    have hwrite : ∀ tr ∈ trs, ∀ actor transaction entry next,
        Commits tr (.write actor transaction entry next) →
          ClosedLineage entry.state → ClosedLineage next := by
      intro tr htr actor transaction entry next hcommits hentry
      obtain ⟨hgate, rfl⟩ := hcommits.gates
      exact hentry.apply hgate (hsound tr htr actor transaction entry _ hcommits)
    obtain ⟨-, -, hcommitted⟩ := rooted_of_sizedRun (Q := ClosedLineage) (by norm_num)
      (by norm_num) hempty hrun hsized genesis_closedLineage
      (fun _ h => ⟨⟨h.acyclic, h.reciprocal, h.successor⟩, h.supersedes, h.supersededBy,
        h.uniform⟩) hwrite
    exact fun snapshot hsnapshot => (hcommitted snapshot hsnapshot).own.toLineage

end Run

/-! ## Two decisions -/

section Decisions

open scoped QivenContext.Reference

def appendDecision (id : Int64) : Operation where
  kind := .appendDecision
  recordId := id
  title := lit "title"
  payload := lit "content"

def supersedeDecision (superseded successor : Int64) : Operation where
  kind := .supersedeDecision
  recordId := superseded
  successorRecordId := successor
  payload := lit "reason"

/-- Genesis with the decisions 1 and 2. -/
def twoDecisions : Snapshot := { makeGenesis with
  decisions := [acceptedDecision (lit "handoff") (appendDecision 1),
    acceptedDecision (lit "handoff") (appendDecision 2)] }

/-- A first client gets the decisions 1 and 2 accepted, and then writes a
reviewed transaction that keeps the invariants. -/
theorem exists_twoDecisions (operations : List Operation) (hoperations : operations ≠ [])
    (hboundary : ∀ operation ∈ operations, operation.kind ≠ .setNextBoundary)
    (hinvariant : ∀ operation ∈ operations, invariantGate twoDecisions operation = .ok ()) :
    ∃ trs s m t m' u m'',
      ServiceRun (ServiceState.start ({} : MemoryStore)) trs s ∧ NoWrites trs ∧
        m.state = makeGenesis ∧ m'.state = twoDecisions ∧
        OnHead.Wrote s m (reviewed m.revision [appendDecision 1, appendDecision 2]) t m' ∧
        OnHead.Wrote t m' (reviewed m'.revision operations) u m'' := by
  obtain ⟨trs, s, m, hrun, honHead, hstate, -, -, -, -, hnone⟩ := exists_onHead
  obtain ⟨t, m', hwrote⟩ := honHead.write_reviewed (hstate ▸ genesis_quiet)
    [appendDecision 1, appendDecision 2] (List.cons_ne_nil _ _) (by decide) (by rw [hstate]; decide)
  have hstate' : m'.state = twoDecisions := by
    rw [hwrote.state, hstate]
    rfl
  obtain ⟨u, m'', hwrote'⟩ := hwrote.onHead.write_reviewed
    (hstate' ▸ ⟨rfl, by simp [twoDecisions, makeGenesis], rfl⟩) operations hoperations hboundary
    (hstate' ▸ hinvariant)
  exact ⟨trs, s, m, t, m', u, m'', hrun, hnone, hstate, hstate', hwrote, hwrote'⟩

theorem room_twoDecisions :
    Room 100000 makeGenesis [appendDecision 1, appendDecision 2] :=
  ⟨by decide, by decide, by decide, by decide, by decide, by decide, by decide, by decide,
    by decide⟩

theorem room_supersedeDecision : Room 100000 twoDecisions [supersedeDecision 1 2] :=
  ⟨by decide, by decide, by decide, by decide, by decide, by decide, by decide, by decide,
    by decide⟩

theorem shortOperation_decisions : ∀ operation ∈ [appendDecision 1, appendDecision 2,
    supersedeDecision 1 2], ShortOperation operation := by
  intro operation hmem
  simp only [List.mem_cons, List.not_mem_nil, or_false] at hmem
  rcases hmem with rfl | rfl | rfl <;> exact ⟨by decide, by decide, by decide, by decide⟩

/-- A sized run in which decision 2 supersedes decision 1. -/
theorem exists_superseded :
    ∃ trs s m t m' u m'',
      ServiceRun (ServiceState.start ({} : MemoryStore))
        (trs ++ [OnHead.written s m (reviewed m.revision [appendDecision 1, appendDecision 2]) t m']
          ++ [OnHead.written t m' (reviewed m'.revision [supersedeDecision 1 2]) u m'']) u ∧
      SizedRun 100000
        (trs ++ [OnHead.written s m (reviewed m.revision [appendDecision 1, appendDecision 2]) t m']
          ++ [OnHead.written t m' (reviewed m'.revision [supersedeDecision 1 2]) u m'']) ∧
      NoWrites trs ∧
      OnHead.Wrote s m (reviewed m.revision [appendDecision 1, appendDecision 2]) t m' ∧
      OnHead.Wrote t m' (reviewed m'.revision [supersedeDecision 1 2]) u m'' ∧
      Supersedes m''.state 2 1 := by
  have hgate : ∀ operation ∈ [supersedeDecision 1 2],
      invariantGate twoDecisions operation = .ok () := by decide
  obtain ⟨trs, s, m, t, m', u, m'', hrun, hnone, hstate, hstate', hwrote, hwrote'⟩ :=
    exists_twoDecisions [supersedeDecision 1 2] (List.cons_ne_nil _ _) (by decide) hgate
  refine ⟨trs, s, m, t, m', u, m'', hwrote'.run (hwrote.run hrun), ?_, hnone, hwrote, hwrote',
    ?_⟩
  · refine hwrote'.forall_commits (hwrote.forall_commits hnone.forall_commits
      ⟨ShortTransaction.stored ⟨?_, ?_⟩, ?_⟩) ⟨ShortTransaction.stored ⟨?_, ?_⟩, ?_⟩
    · exact (by decide : short (lit "handoff"))
    · exact fun operation hmem => shortOperation_decisions operation
        (List.mem_append_left [supersedeDecision 1 2] hmem)
    · exact hstate ▸ room_twoDecisions
    · exact (by decide : short (lit "handoff"))
    · exact fun operation hmem => shortOperation_decisions operation
        (List.mem_append_right [appendDecision 1, appendDecision 2] hmem)
    · exact hstate' ▸ room_supersedeDecision
  · exact hwrote'.state ▸ NewLink.supersedes (s := m'.state) (hstate' ▸ hgate)
      ⟨supersedeDecision 1 2, List.mem_singleton_self _, rfl, rfl, rfl⟩

theorem supersedesSoundly_appendDecision :
    SupersedesSoundly [appendDecision 1, appendDecision 2] where
  once id := by simp [successorIds, appendDecision]
  acyclic a hcycle := by
    obtain ⟨b, operation, hmem, hkind, -⟩ := exists_first_step hcycle
    rcases List.mem_pair.mp hmem with rfl | rfl <;> simp [appendDecision] at hkind

theorem supersedesSoundly_supersedeDecision {a b : Int64} (hne : a ≠ b) :
    SupersedesSoundly [supersedeDecision a b] where
  once id := by
    unfold successorIds
    rw [List.length_map]
    exact List.length_filter_le _ _
  acyclic c hcycle := by
    have hlink : ∀ x y, NewLink [supersedeDecision a b] x y → x = b ∧ y = a := by
      rintro x y ⟨operation, hmem, -, rfl, rfl⟩
      obtain rfl := List.mem_singleton.mp hmem
      exact ⟨rfl, rfl⟩
    obtain ⟨_, hfirst⟩ := exists_first_step hcycle
    obtain ⟨_, hlast⟩ := exists_last_step hcycle
    exact hne ((hlink _ _ hlast).2.symm.trans (hlink _ _ hfirst).1)

/-- Where decision 2 supersedes decision 1, every committed snapshot is a lineage. -/
theorem superseded_lineage :
    ∃ (trs : List (ServiceTransition MemoryStore)) (t : ServiceState MemoryStore),
      ServiceRun (ServiceState.start {}) trs t ∧
        (∃ snapshot, Committed trs snapshot ∧ Supersedes snapshot 2 1) ∧
        ∀ snapshot, Committed trs snapshot → Lineage snapshot := by
  obtain ⟨trs, s, m, t, m', u, m'', hrun, hsized, hnone, hwrote, hwrote', hlink⟩ :=
    exists_superseded
  refine ⟨_, u, hrun, ⟨m''.state, hwrote'.committed_last _, hlink⟩, ?_⟩
  refine (committed_lineage_iff rfl hrun (hsized.mono (by norm_num))).mpr
    (hwrote'.forall_commits (hwrote.forall_commits hnone.forall_commits
      supersedesSoundly_appendDecision) (supersedesSoundly_supersedeDecision (by decide)))

/-- Both directions in one transaction pass the gates, and leave a cycle. -/
theorem superseded_both_ways :
    ∃ (trs : List (ServiceTransition MemoryStore)) (t : ServiceState MemoryStore)
      (snapshot : Snapshot), ServiceRun (ServiceState.start {}) trs t ∧
        Committed trs snapshot ∧ Supersedes snapshot 2 1 ∧ Supersedes snapshot 1 2 ∧
        ¬ Lineage snapshot := by
  have hgate : ∀ operation ∈ [supersedeDecision 1 2, supersedeDecision 2 1],
      invariantGate twoDecisions operation = .ok () := by decide
  obtain ⟨trs, s, m, t, m', u, m'', hrun, -, -, hstate', hwrote, hwrote'⟩ :=
    exists_twoDecisions [supersedeDecision 1 2, supersedeDecision 2 1]
      (List.cons_ne_nil _ _) (by decide) hgate
  have hlink : ∀ {a b : Int64},
      NewLink [supersedeDecision 1 2, supersedeDecision 2 1] a b → Supersedes m''.state a b :=
    fun hnew => hwrote'.state ▸ NewLink.supersedes (s := m'.state) (hstate' ▸ hgate) hnew
  have hforth : Supersedes m''.state 2 1 :=
    hlink ⟨supersedeDecision 1 2, List.mem_cons_self, rfl, rfl, rfl⟩
  have hback : Supersedes m''.state 1 2 :=
    hlink ⟨supersedeDecision 2 1, List.mem_cons_of_mem _ (List.mem_singleton_self _), rfl, rfl, rfl⟩
  exact ⟨_, u, m''.state, hwrote'.run (hwrote.run hrun), hwrote'.committed_last _, hforth, hback,
    fun hlineage => hlineage.acyclic 2 (.tail (.single hforth) hback)⟩

end Decisions

end QivenContext
