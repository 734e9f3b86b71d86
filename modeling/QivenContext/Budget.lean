import QivenContext.Library.Greedy
import QivenContext.Bundle
import QivenContext.Gates
import QivenContext.Genesis

/-!
# The bundle under a budget

Decisions and then active memory compete for one budget. The two loops are one
greedy selection over all that is offered; floors, constraints and obligations
take no part in it. The source counts in `std::size_t`, which is exact for
texts that lie in one address space.
-/

namespace QivenContext

open Library

def exactCost (text : Str) : ℕ := (text.length + 3) / 4

def Offer.cost (offer : Offer) : ℕ := exactCost offer.candidate.summary

/-- How an offer is explained that does not fit. -/
def Offer.omission (offer : Offer) : BundleOmission where
  what := offer.what
  reason := lit "token budget; floors and constraints were never touched"

/-- The budget that a query sets. -/
def Query.budget (query : Query) : ℕ :=
  if query.tokenBudget = 0 then 512 else query.tokenBudget.toNat

/-- All offers in order, each with whether the budget keeps it. -/
def selected (snapshot : Snapshot) (budget : ℕ) : List (Offer × Bool) :=
  greedy Offer.cost budget 0 (offers snapshot)

/-- The bytes that the titles of the decisions and the statements of the memory
take at least: each is an object with a pointer and a size. -/
def Snapshot.footprint (snapshot : Snapshot) : ℕ :=
  total (fun decision => decision.title.length + 16) snapshot.decisions +
    total (fun record => record.statement.length + 16) snapshot.memory

/-- The texts lie in one 64-bit address space. -/
def Addressable (snapshot : Snapshot) : Prop := snapshot.footprint < 2 ^ 64

instance (snapshot : Snapshot) : Decidable (Addressable snapshot) :=
  inferInstanceAs (Decidable (_ < _))

section Costs

variable {snapshot : Snapshot} {offer : Offer} {budget : UInt64}

theorem estimate_toNat {text : Str} (h : text.length + 3 < 2 ^ 64) :
    (estimate text).toNat = exactCost text := by
  unfold estimate exactCost
  rw [UInt64.toNat_div, UInt64.toNat_add, UInt64.toNat_ofNat']
  have hlength : text.length % 2 ^ 64 = text.length := Nat.mod_eq_of_lt (by omega)
  rw [hlength]
  simp only [UInt64.reduceToNat]
  rw [Nat.mod_eq_of_lt h]

theorem total_le_total {α β : Type} {f : α → ℕ} {g : β → ℕ} {h : α → β} {as : List α}
    (hle : ∀ a ∈ as, g (h a) ≤ f a) : total g (as.map h) ≤ total f as := by
  induction as with
  | nil => simp
  | cons a as ih =>
      obtain ⟨ha, hrest⟩ := List.forall_mem_cons.mp hle
      rw [List.map_cons, total_cons, total_cons]
      exact Nat.add_le_add ha (ih hrest)

theorem length_decisionOffer (decision : Decision) :
    (decisionOffer decision).candidate.summary.length + 5 ≤ decision.title.length + 16 := by
  unfold decisionOffer
  dsimp only
  split
  · have hprefix : (lit "accepted: ").length = 10 := by decide
    rw [List.length_append, hprefix]
    omega
  · have hprefix : (lit "lifecycle: ").length = 11 := by decide
    rw [List.length_append, hprefix]
    omega

/-- The texts of all offers together, with five bytes for each. -/
theorem total_offers_le (snapshot : Snapshot) :
    total (fun offer => offer.candidate.summary.length + 5) (offers snapshot) ≤
      snapshot.footprint := by
  unfold offers Snapshot.footprint
  rw [total_append]
  refine Nat.add_le_add (total_le_total fun decision _ => length_decisionOffer decision) ?_
  calc total (fun offer => offer.candidate.summary.length + 5)
        ((snapshot.memory.filter fun record =>
          record.status = .active ∧ record.kind ≠ .negativeKnowledge).map memoryOffer)
      ≤ total (fun record => record.statement.length + 16) (snapshot.memory.filter fun record =>
          record.status = .active ∧ record.kind ≠ .negativeKnowledge) :=
        total_le_total fun record _ => by
          change record.statement.length + 5 ≤ record.statement.length + 16
          omega
    _ ≤ total (fun record => record.statement.length + 16) snapshot.memory :=
        total_mono List.filter_sublist

/-! ## The two loops -/

theorem Offer.cost_le (offer : Offer) :
    offer.cost ≤ offer.candidate.summary.length + 5 := by
  unfold Offer.cost exactCost
  omega

/-- Where the texts fit, the running total is exact. -/
theorem used_toNat (used : UInt64) (offer : Offer)
    (hfits : used.toNat + (offer.candidate.summary.length + 5) < 2 ^ 64) :
    (used + estimate offer.candidate.summary).toNat = used.toNat + offer.cost := by
  have hcost := offer.cost_le
  rw [UInt64.toNat_add, estimate_toNat (by omega), ← Offer.cost, Nat.mod_eq_of_lt (by omega)]

theorem Selection.offer_eq {selection : Selection}
    (hfits : selection.used.toNat + (offer.candidate.summary.length + 5) < 2 ^ 64) :
    selection.offer budget offer =
      if selection.used.toNat + offer.cost ≤ budget.toNat then
        { used := selection.used + estimate offer.candidate.summary
          candidates := selection.candidates ++ [offer.candidate]
          omissions := selection.omissions }
      else { selection with omissions := selection.omissions ++ [offer.omission] } := by
  unfold Selection.offer
  simp only [UInt64.le_iff_toNat_le, used_toNat _ _ hfits]
  rfl

theorem foldl_offer (budget : UInt64) (selection : Selection) {offers : List Offer}
    (hfits : selection.used.toNat +
      total (fun offer => offer.candidate.summary.length + 5) offers < 2 ^ 64) :
    (offers.foldl (Selection.offer budget) selection).candidates = selection.candidates ++
        (kept (greedy Offer.cost budget.toNat selection.used.toNat offers)).map
          (fun offer => offer.candidate) ∧
      (offers.foldl (Selection.offer budget) selection).omissions = selection.omissions ++
        (passedOver (greedy Offer.cost budget.toNat selection.used.toNat offers)).map
          Offer.omission := by
  induction offers generalizing selection with
  | nil => simp [passedOver]
  | cons offer offers ih =>
      rw [total_cons] at hfits
      rw [List.foldl_cons, Selection.offer_eq (by omega), greedy]
      split
      · have hused := used_toNat selection.used offer (by omega)
        have hcost := offer.cost_le
        have ih := ih {
          used := selection.used + estimate offer.candidate.summary
          candidates := selection.candidates ++ [offer.candidate]
          omissions := selection.omissions } (by dsimp only; omega)
        dsimp only at ih
        rw [hused] at ih
        simpa using ih
      · simpa using ih { selection with
          omissions := selection.omissions ++ [offer.omission] } (by dsimp only; omega)

theorem buildBundle_eq_ok {handle : Materialization} {query : Query} {bundle : ContextBundle}
    (haddress : Addressable handle.state) (hbuild : buildBundle handle query = .ok bundle) :
    mandatoryInputs handle.state = .ok bundle.mandatoryInputs ∧
      bundle = {
        snapshot := handle.revision
        mandatoryInputs := bundle.mandatoryInputs
        protectedConstraints := protectedConstraints handle.state.policy
        candidates :=
          (kept (selected handle.state query.budget)).map fun offer => offer.candidate
        obligations := handle.state.obligations.map evaluateObligation
        omissions := (passedOver (selected handle.state query.budget)).map Offer.omission } := by
  have hfits : total (fun offer => offer.candidate.summary.length + 5) (offers handle.state) <
      2 ^ 64 := (total_offers_le handle.state).trans_lt haddress
  have hbudget : (if query.tokenBudget = 0 then 512 else query.tokenBudget).toNat =
      query.budget := by
    unfold Query.budget
    split <;> rfl
  obtain ⟨hcandidates, homissions⟩ := foldl_offer
    (if query.tokenBudget = 0 then 512 else query.tokenBudget) {} (by simpa using hfits)
  unfold buildBundle at hbuild
  rw [except_bind_eq_ok] at hbuild
  obtain ⟨inputs, hinputs, hbuild⟩ := hbuild
  simp only [hcandidates, homissions, hbudget] at hbuild
  obtain rfl := Except.ok.inj hbuild
  exact ⟨hinputs, rfl⟩

end Costs

/-! ## What a bundle keeps -/

section Bundle

variable {handle : Materialization} {query query' : Query} {bundle bundle' : ContextBundle}

/-- A bundle that completes completes under any other query, with the same
floors, constraints and obligations. -/
theorem buildBundle_other (hbuild : buildBundle handle query = .ok bundle) (other : Query) :
    ∃ bundle', buildBundle handle other = .ok bundle' ∧
      bundle'.mandatoryInputs = bundle.mandatoryInputs ∧
      bundle'.protectedConstraints = bundle.protectedConstraints ∧
      bundle'.obligations = bundle.obligations := by
  unfold buildBundle at hbuild ⊢
  rw [except_bind_eq_ok] at hbuild
  obtain ⟨inputs, hinputs, hbuild⟩ := hbuild
  obtain rfl := Except.ok.inj hbuild
  simp only [hinputs]
  exact ⟨_, rfl, rfl, rfl, rfl⟩

theorem mandatoryInputs_eq_ok {snapshot : Snapshot} {inputs : List Str}
    (h : mandatoryInputs snapshot = .ok inputs) :
    ∃ boundary, boundaryFloor snapshot = .ok boundary ∧
      inputs = [lit "governance: " ++ snapshot.governance.rootPrincipal] ++
        snapshot.constitution.articles.map (fun article => lit "constitution: " ++ article) ++
        [lit "objective: " ++ snapshot.state.objective] ++ boundary ++
        (snapshot.conflicts.filter fun conflict => conflict.status = .isOpen).map (fun conflict =>
          lit "OPEN CONFLICT " ++ conflict.id ++ lit ": " ++ conflict.description) ++
        (snapshot.memory.filter fun record =>
          record.kind = .negativeKnowledge ∧ record.status = .active).map (fun record =>
          lit "negative knowledge: " ++ record.statement) := by
  unfold mandatoryInputs at h
  rw [except_bind_eq_ok] at h
  obtain ⟨boundary, hboundary, h⟩ := h
  exact ⟨boundary, hboundary, (Except.ok.inj h).symm⟩

/-- Every offer is a candidate or an omission, an omission exactly when it does
not fit after the candidates before it, and nothing else depends on the budget. -/
theorem buildBundle_partitions (haddress : Addressable handle.state)
    (hbuild : buildBundle handle query = .ok bundle) :
    (∃ marked : List (Offer × Bool),
      marked.map Prod.fst = handle.state.decisions.map decisionOffer ++
        (handle.state.memory.filter fun record =>
          record.status = .active ∧ record.kind ≠ .negativeKnowledge).map memoryOffer ∧
      bundle.candidates = (kept marked).map (fun offer => offer.candidate) ∧
      bundle.omissions = (passedOver marked).map Offer.omission ∧
      ∀ before offer keep after, marked = before ++ (offer, keep) :: after →
        (keep = false ↔ query.budget - total Offer.cost (kept before) < offer.cost)) ∧
    total (fun candidate => exactCost candidate.summary) bundle.candidates ≤ query.budget ∧
    (∃ boundary, boundaryFloor handle.state = .ok boundary ∧
      bundle.mandatoryInputs = [lit "governance: " ++ handle.state.governance.rootPrincipal] ++
        handle.state.constitution.articles.map (fun article => lit "constitution: " ++ article) ++
        [lit "objective: " ++ handle.state.state.objective] ++ boundary ++
        (handle.state.conflicts.filter fun conflict => conflict.status = .isOpen).map
          (fun conflict => lit "OPEN CONFLICT " ++ conflict.id ++ lit ": " ++
            conflict.description) ++
        (handle.state.memory.filter fun record =>
          record.kind = .negativeKnowledge ∧ record.status = .active).map (fun record =>
          lit "negative knowledge: " ++ record.statement)) ∧
    ∀ other, ∃ bundle', buildBundle handle other = .ok bundle' ∧
      bundle'.mandatoryInputs = bundle.mandatoryInputs ∧
      bundle'.protectedConstraints = bundle.protectedConstraints ∧
      bundle'.obligations = bundle.obligations := by
  obtain ⟨hinputs, hbundle⟩ := buildBundle_eq_ok haddress hbuild
  have hspent : total Offer.cost (kept (selected handle.state query.budget)) ≤ query.budget := by
    simpa [selected] using
      total_kept_greedy_le Offer.cost (Nat.zero_le query.budget) (offers handle.state)
  refine ⟨⟨selected handle.state query.budget, map_fst_greedy _ _, by rw [hbundle],
    by rw [hbundle], ?_⟩, ?_, mandatoryInputs_eq_ok hinputs, buildBundle_other hbuild⟩
  · intro before offer keep after hmarked
    have hmark := greedy_mark hmarked
    rw [hmarked, kept_append, total_append] at hspent
    rw [← Bool.not_eq_true, hmark]
    omega
  · rw [hbundle]
    exact (total_le_total fun offer _ => le_refl offer.cost).trans hspent

/-- A larger budget keeps what a smaller one keeps as long as what it keeps in
addition costs no more than the difference of the two. -/
theorem candidates_mono (haddress : Addressable handle.state) (hne : query.tokenBudget ≠ 0)
    (hle : query.tokenBudget ≤ query'.tokenBudget)
    (hbuild : buildBundle handle query = .ok bundle)
    (hbuild' : buildBundle handle query' = .ok bundle') :
    bundle.candidates =
      (kept (selected handle.state query.budget)).map (fun offer => offer.candidate) ∧
    bundle'.candidates =
      (kept (selected handle.state query'.budget)).map (fun offer => offer.candidate) ∧
    (∀ before offer after before' offer' keep after',
      selected handle.state query.budget = before ++ (offer, true) :: after →
      selected handle.state query'.budget = before' ++ (offer', keep) :: after' →
      before.length = before'.length →
      total Offer.cost (gained before before') ≤ query'.budget - query.budget →
        offer' = offer ∧ keep = true) ∧
    (total Offer.cost (gained (selected handle.state query.budget)
        (selected handle.state query'.budget)) ≤ query'.budget - query.budget →
      bundle.candidates.Sublist bundle'.candidates) := by
  obtain ⟨-, hbundle⟩ := buildBundle_eq_ok haddress hbuild
  obtain ⟨-, hbundle'⟩ := buildBundle_eq_ok haddress hbuild'
  have hbudget : query.budget ≤ query'.budget := by
    have hle := UInt64.le_iff_toNat_le.mp hle
    have hzero : query'.tokenBudget ≠ 0 := by
      intro hzero
      rw [hzero] at hle
      exact hne (UInt64.toNat_inj.mp (Nat.le_zero.mp hle))
    unfold Query.budget
    rwa [if_neg hne, if_neg hzero]
  refine ⟨by rw [hbundle], by rw [hbundle'], ?_, ?_⟩
  · intro before offer after before' offer' keep after' hsmall hlarge hlength hgained
    exact greedy_mark_mono hbudget hsmall hlarge hlength hgained
  · intro hgained
    rw [hbundle, hbundle']
    exact (kept_greedy_sublist hbudget (by simpa [selected] using hgained)).map _

end Bundle

/-! ## A decision and a lesson -/

/-- The decision costs three tokens and the lesson two. -/
def contestedHandle : Materialization where
  address := 0
  state := { makeGenesis with
    decisions := [{ id := 1, status := .accepted, title := lit "a" }]
    memory := [{ kind := .lesson, title := lit "b", statement := lit "short" }] }

theorem contested_partitions :
    ∃ bundle, buildBundle contestedHandle { tokenBudget := 2 } = .ok bundle ∧
      total (fun candidate => exactCost candidate.summary) bundle.candidates ≤ 2 := by
  have haddress : Addressable contestedHandle.state := by decide
  exact ⟨_, rfl, (buildBundle_partitions haddress rfl).2.1⟩

theorem contested_mono :
    ∃ bundle bundle', buildBundle contestedHandle { tokenBudget := 2 } = .ok bundle ∧
      buildBundle contestedHandle { tokenBudget := 5 } = .ok bundle' ∧
      bundle.candidates.Sublist bundle'.candidates := by
  have haddress : Addressable contestedHandle.state := by decide
  exact ⟨_, _, rfl, rfl, (candidates_mono haddress (by decide) (by decide) rfl rfl).2.2.2
    (by decide)⟩

/-- With one token more, the decision takes the room of the lesson. -/
theorem contested_dropped :
    ∃ bundle bundle', buildBundle contestedHandle { tokenBudget := 2 } = .ok bundle ∧
      buildBundle contestedHandle { tokenBudget := 3 } = .ok bundle' ∧
      ∃ candidate ∈ bundle.candidates, candidate ∉ bundle'.candidates := by
  refine ⟨_, _, rfl, rfl,
    { kind := lit "memory", id := lit "b", summary := lit "short" }, ?_⟩
  decide

end QivenContext
