import QivenContext.Supersession
import QivenContext.Library.Search

/-!
# Reachability of decisions

The walk of the supersession gate is a search without a memory over the links
that lead to a decision. Where the links have no cycle it returns within the
depth of the table, and it says whether the target is ahead; a write over such
links returns.
-/

namespace QivenContext

open Library ServiceState

/-- The second decision is found under an id that the first one supersedes. -/
def Links (snapshot : Snapshot) (a b : Decision) : Prop :=
  ∃ id ∈ a.supersedes, findDecision snapshot id = some b

/-- The decisions that the links of a decision lead to. -/
def priors (snapshot : Snapshot) (decision : Decision) : List Decision :=
  decision.supersedes.filterMap (findDecision snapshot)

section Reach

variable {snapshot : Snapshot} {start prior : Decision} {target : Int64} {depth : ℕ}

theorem mem_priors : prior ∈ priors snapshot start ↔ Links snapshot start prior :=
  List.mem_filterMap

theorem Links.mem (h : Links snapshot start prior) : prior ∈ snapshot.decisions := by
  obtain ⟨id, -, hfind⟩ := h
  exact (findDecision_some hfind).1

theorem Links.supersedes (hstart : start ∈ snapshot.decisions) (h : Links snapshot start prior) :
    Supersedes snapshot start.id prior.id := by
  obtain ⟨id, hid, hfind⟩ := h
  exact ⟨start, hstart, rfl, (findDecision_some hfind).2 ▸ hid⟩

/-- A cycle of decisions is one of their ids. -/
theorem acyclic_links (h : Acyclic (Supersedes snapshot)) : Acyclic (Links snapshot) := by
  intro start hcycle
  have hids : ∀ prior, Relation.TransGen (Links snapshot) start prior →
      Relation.TransGen (Supersedes snapshot) start.id prior.id := by
    intro prior hchain
    induction hchain with
    | single hlink =>
        obtain ⟨_, hlast⟩ := exists_last_step hcycle
        exact .single (hlink.supersedes hlast.mem)
    | tail hchain hlink ih =>
        obtain ⟨_, hlast⟩ := exists_last_step hchain
        exact ih.tail (hlink.supersedes hlast.mem)
  exact h start.id (hids start hcycle)

theorem reachesDecision_eq_search (snapshot : Snapshot) (target : Int64) (depth : ℕ)
    (start : Decision) :
    reachesDecision snapshot target depth start =
      search (priors snapshot) (fun decision => decide (decision.id = target)) depth start := by
  induction depth generalizing start with
  | zero => rfl
  | succ depth ih =>
      rw [reachesDecision, search, priors, anyM_filterMap]
      simp only [decide_eq_true_eq]
      refine if_congr Iff.rfl rfl (congrArg (start.supersedes.anyM ·) (funext fun id => ?_))
      cases findDecision snapshot id with
      | none => rfl
      | some prior => exact ih prior

theorem priors_closed : ∀ x ∈ snapshot.decisions.toFinset, ∀ y ∈ priors snapshot x,
    y ∈ snapshot.decisions.toFinset :=
  fun _ _ _ hy => List.mem_toFinset.mpr (mem_priors.mp hy).mem

/-- What the walk says, wherever it returns. -/
theorem reachesDecision_right {reached : Bool}
    (h : reachesDecision snapshot target depth start = some reached) :
    reached = true ↔
      ∃ prior, Relation.ReflTransGen (Links snapshot) start prior ∧ prior.id = target := by
  rw [reachesDecision_eq_search] at h
  rw [search_right h]
  simp only [Hits, mem_priors, decide_eq_true_eq]

/-- The walk over links without a cycle returns, and says whether a decision with the
target id is ahead. -/
theorem reachesDecision_decides (snapshot : Snapshot) (hacyclic : Acyclic (Links snapshot))
    (start : Decision) (hstart : start ∈ snapshot.decisions) (target : Int64) :
    ∃ reached, (∀ depth, snapshot.decisions.length ≤ depth →
        reachesDecision snapshot target depth start = some reached) ∧
      (reached = true ↔
        ∃ prior, Relation.ReflTransGen (Links snapshot) start prior ∧ prior.id = target) := by
  have hpriors : Acyclic fun x y => y ∈ priors snapshot x :=
    hacyclic.mono fun _ _ => mem_priors.mp
  obtain ⟨reached, hreached⟩ : ∃ reached,
      reachesDecision snapshot target snapshot.decisions.length start = some reached := by
    rw [reachesDecision_eq_search]
    exact search_answers hpriors priors_closed (List.mem_toFinset.mpr hstart)
      (List.toFinset_card_le _)
  refine ⟨reached, fun depth hdepth => ?_, reachesDecision_right hreached⟩
  rw [reachesDecision_eq_search] at hreached ⊢
  exact search_mono hreached hdepth

/-- A decision that supersedes an earlier one, and the earlier one. -/
def chainedDecisions : Snapshot :=
  { makeGenesis with decisions := [{ id := 2, supersedes := [1] }, { id := 1 }] }

theorem acyclic_chainedDecisions : Acyclic (Links chainedDecisions) := by
  have hids : ∀ a b, Supersedes chainedDecisions a b → a = 2 ∧ b = 1 := by
    rintro a b ⟨decision, hmem, rfl, hb⟩
    simp only [chainedDecisions, List.mem_cons, List.not_mem_nil, or_false] at hmem
    rcases hmem with rfl | rfl
    · exact ⟨rfl, List.mem_singleton.mp hb⟩
    · simp at hb
  refine acyclic_links fun a hcycle => ?_
  obtain ⟨_, hfirst⟩ := exists_first_step hcycle
  obtain ⟨_, hlast⟩ := exists_last_step hcycle
  exact absurd ((hids _ _ hfirst).1.symm.trans (hids _ _ hlast).2) (by decide)

/-- The earlier one is reached. -/
theorem chainedDecisions_reached :
    reachesDecision chainedDecisions 1 2 { id := 2, supersedes := [1] } = some true := by
  obtain ⟨reached, hreturns, hreached⟩ := reachesDecision_decides chainedDecisions
    acyclic_chainedDecisions { id := 2, supersedes := [1] } List.mem_cons_self 1
  obtain rfl := hreached.mpr ⟨{ id := 1 }, .single ⟨1, List.mem_singleton_self 1, rfl⟩, rfl⟩
  exact hreturns 2 le_rfl

end Reach

/-! ## The gated write returns -/

section Returns

variable [Foundation] {σ : Type} [CognitionStore σ] {s : ServiceState σ} {current : Snapshot}
  {handle : CognitionHandle} {transaction : ContextTransaction} {grant : ExecutionGrant}

omit [Foundation] in
theorem walkEnds_of_acyclic (hacyclic : Acyclic (Links current)) (operation : Operation)
    (halt : Halt) : WalkEnds current operation halt := by
  intro successor hsuccessor hnone
  obtain ⟨reached, hreached, -⟩ := reachesDecision_decides current hacyclic successor
    (findDecision_some hsuccessor).1 operation.recordId
  rw [hreached _ le_rfl] at hnone
  simp at hnone

theorem successorOf_returns (hacyclic : Acyclic (Links current)) (rootPrincipal : PrincipalId)
    (actorBinding : Str) (transaction : ContextTransaction) :
    successorOf current rootPrincipal actorBinding transaction ≠ .error .crash := by
  have hconflict (operation : Operation) : conflictGate current operation ≠ .error .crash := by
    unfold conflictGate
    split
    · simp
    · exact refuseIf_ne (by simp)
  unfold successorOf
  refine bind_ne (forM_gate_ne fun _ => policyGate_ne (by simp) (by simp) (by simp)) fun _ _ => ?_
  refine bind_ne (forM_gate_ne hconflict) fun _ _ => ?_
  refine bind_ne (forM_gate_ne fun operation => invariantGate_ne (by simp)
    (walkEnds_of_acyclic hacyclic operation _)) fun _ _ => ?_
  exact check_ne (by simp) (by simp [pure, Except.pure])

theorem leaseGates_returns : s.leaseGates handle grant ≠ .error .crash := by
  unfold leaseGates
  repeat' split
  all_goals simp

/-- A write from a handle whose links have no cycle returns. -/
theorem writeToCognition_returns
    (hacyclic : ∀ entry, s.findLive handle = some entry → Acyclic (Links entry.state)) :
    ∃ verdict t, s.writeToCognition handle transaction grant = some (verdict, t) := by
  have hadmission : s.admission handle transaction grant ≠ .error .crash := by
    refine bind_ne leaseGates_returns fun ⟨entry, governance⟩ hlease => ?_
    refine check_ne (by simp) (check_ne (by simp) ?_)
    have hlinks := hacyclic entry (leaseGates_eq_ok.mp hlease).1
    split
    · simp [pure, Except.pure]
    · exact bind_ne (successorOf_returns hlinks _ _ _) fun _ _ => by simp [pure, Except.pure]
  unfold writeToCognition
  split
  · exact ⟨_, _, rfl⟩
  · split
    · exact ⟨_, _, rfl⟩
    · next hcrash => exact (hadmission hcrash).elim
    · exact ⟨_, _, rfl⟩
    · exact ⟨_, _, rfl⟩

end Returns

end QivenContext
