import QivenContext.Boundary

/-!
# Closing one obligation

The gate of a closing operation looks for any open obligation with the id, and
the apply loop marks the first one. They mean the same obligation exactly when
the first one is open.
-/

namespace QivenContext

open Library ServiceState

/-- The position holds an open obligation with the id, and a done one after. -/
def ClosedAt (id : Int64) (before after : List Obligation) (i : ℕ) : Prop :=
  ∃ obligation later, before[i]? = some obligation ∧ obligation.id = id ∧
    obligation.status = .isOpen ∧ after[i]? = some later ∧ later.status = .done

def openCount (obligations : List Obligation) : ℕ :=
  obligations.countP fun obligation => obligation.status = .isOpen

/-- One open obligation with the id is closed, and nothing else happens. -/
structure ClosesOne (id : Int64) (before after : List Obligation) : Prop where
  one : ∃! i, ClosedAt id before after i
  others : ∀ i, ¬ ClosedAt id before after i → after[i]? = before[i]?
  fewer : openCount before = openCount after + 1

theorem updateFirst_append {α : Type} {p : α → Bool} {f : α → α} {before after : List α} {a : α}
    (hbefore : ∀ b ∈ before, p b = false) (ha : p a) :
    updateFirst p f (before ++ a :: after) = before ++ f a :: after := by
  induction before with
  | nil => simp [updateFirst, ha]
  | cons b before ih =>
      obtain ⟨hb, hrest⟩ := List.forall_mem_cons.mp hbefore
      simp [updateFirst, hb, ih hrest]

section Close

variable {operation : Operation} {obligations : List Obligation} {first : Obligation}

/-- The loop marks the first obligation with the id and leaves the others. -/
theorem closeFirst_split
    (hfirst : obligations.find? (fun other => other.id = operation.recordId) = some first) :
    ∃ before after, obligations = before ++ first :: after ∧ first.id = operation.recordId ∧
      closeFirst operation obligations = before ++ { first with status := .done } :: after := by
  obtain ⟨hid, before, after, rfl, hbefore⟩ := List.find?_eq_some_iff_append.mp hfirst
  refine ⟨before, after, rfl, by simpa using hid, updateFirst_append (fun other hother => ?_) hid⟩
  simpa using hbefore other hother

theorem closesOne_of_open
    (hfirst : obligations.find? (fun other => other.id = operation.recordId) = some first)
    (hopen : first.status = .isOpen) :
    ClosesOne operation.recordId obligations (closeFirst operation obligations) := by
  obtain ⟨before, after, rfl, hid, hclosed⟩ := closeFirst_split hfirst
  rw [hclosed]
  have hat : ClosedAt operation.recordId (before ++ first :: after)
      (before ++ { first with status := .done } :: after) before.length :=
    ⟨first, { first with status := .done }, by simp, hid, hopen, by simp, rfl⟩
  have hothers : ∀ i, i ≠ before.length →
      (before ++ { first with status := .done } :: after)[i]? =
        (before ++ first :: after)[i]? := by
    intro i hi
    rcases Nat.lt_trichotomy i before.length with hlt | heq | hgt
    · rw [List.getElem?_append_left hlt, List.getElem?_append_left hlt]
    · exact (hi heq).elim
    · obtain ⟨k, hk⟩ : ∃ k, i - before.length = k + 1 := ⟨i - before.length - 1, by omega⟩
      rw [List.getElem?_append_right hgt.le, List.getElem?_append_right hgt.le, hk,
        List.getElem?_cons_succ, List.getElem?_cons_succ]
  refine ⟨⟨before.length, hat, ?_⟩, fun i hi => hothers i ?_, ?_⟩
  · rintro i ⟨obligation, later, hobligation, -, hstill, hlater, hdone⟩
    by_contra hi
    rw [hothers i hi, hobligation] at hlater
    obtain rfl := Option.some.inj hlater
    rw [hstill] at hdone
    exact absurd hdone (by decide)
  · rintro rfl
    exact hi hat
  · simp [openCount, List.countP_append, hopen]
    omega

/-- Marking an obligation that is not open closes none. -/
theorem openCount_closeFirst
    (hfirst : obligations.find? (fun other => other.id = operation.recordId) = some first)
    (hclosed : first.status ≠ .isOpen) :
    openCount (closeFirst operation obligations) = openCount obligations := by
  obtain ⟨before, after, rfl, -, hsame⟩ := closeFirst_split hfirst
  rw [hsame]
  simp [openCount, List.countP_append, hclosed]

end Close

theorem closeObligation_passed {current : Snapshot} {operation : Operation}
    (h : invariantGate current operation = .ok ()) (hkind : operation.kind = .closeObligation) :
    ∃ obligation ∈ current.obligations,
      obligation.id = operation.recordId ∧ obligation.status = .isOpen := by
  simpa only [invariantGate, hkind, closeObligationGate, refuseIf_eq_ok, not_not] using h

section Writes

variable [Foundation] {σ : Type} [CognitionStore σ] {tr : ServiceTransition σ}
  {actor : AuthenticatedActor} {transaction : ContextTransaction} {entry : Materialization}
  {next : Snapshot} {operation : Operation}

/-- A committed transaction of one closing operation closes one obligation
exactly when the first obligation with its id is open. -/
theorem closesOne_iff (hcommits : Commits tr (.write actor transaction entry next))
    (hone : transaction.operations = [operation]) (hkind : operation.kind = .closeObligation) :
    ClosesOne operation.recordId entry.state.obligations next.obligations ↔
      ∃ first, findObligation entry.state operation.recordId = some first ∧
        first.status = .isOpen := by
  obtain ⟨hgates, rfl⟩ := hcommits.gates
  have hnext : (applyOperations transaction entry.state).obligations =
      closeFirst operation entry.state.obligations := by
    simp [applyOperations, hone, applyOperation, hkind]
  obtain ⟨obligation, hmem, hid, -⟩ :=
    closeObligation_passed (hgates operation (by simp [hone])) hkind
  obtain ⟨first, hfirst⟩ : ∃ first, findObligation entry.state operation.recordId = some first := by
    refine Option.isSome_iff_exists.mp (List.find?_isSome.mpr ⟨obligation, hmem, ?_⟩)
    simpa using hid
  rw [hnext]
  constructor
  · intro hcloses
    refine ⟨first, hfirst, ?_⟩
    by_contra hclosed
    have hsame := openCount_closeFirst hfirst hclosed
    have hfewer := hcloses.fewer
    omega
  · rintro ⟨first', hfirst', hopen⟩
    exact closesOne_of_open hfirst' hopen

end Writes

/-! ## The obligation that was put off, and the open one -/

section PutOff

open scoped QivenContext.Reference

theorem openOne_closesOne :
    ∃ (trs : List (ServiceTransition MemoryStore)) (t : ServiceState MemoryStore)
      (tr : ServiceTransition MemoryStore) (actor : AuthenticatedActor)
      (transaction : ContextTransaction) (entry : Materialization) (next : Snapshot),
      ServiceRun (ServiceState.start {}) trs t ∧ tr ∈ trs ∧
        Commits tr (.write actor transaction entry next) ∧ transaction.operations = [closeOne] ∧
        ClosesOne 1 entry.state.obligations next.obligations := by
  obtain ⟨trs, s, m, t, m', u, m'', hrun, -, -, hstate', hopened, hclosed⟩ :=
    exists_obliged [closeOne] (List.cons_ne_nil _ _) fun _ => rfl
  refine ⟨_, u, _, _, _, _, _, hclosed.run (hopened.run hrun), List.mem_append_right _
    (List.mem_singleton_self _), hclosed.commits, rfl, ?_⟩
  refine (closesOne_iff hclosed.commits rfl rfl).mpr ⟨openedObligation openOne, ?_, rfl⟩
  rw [hstate']
  rfl

/-- The closing operation is applied, and the open obligation stays open. -/
theorem deferred_closed_instead :
    ∃ (trs : List (ServiceTransition MemoryStore)) (t : ServiceState MemoryStore)
      (tr : ServiceTransition MemoryStore) (actor : AuthenticatedActor)
      (transaction : ContextTransaction) (entry : Materialization) (next : Snapshot)
      (successor : CognitionHandle),
      ServiceRun (ServiceState.start {}) trs t ∧ tr ∈ trs ∧
        tr.answer = .verdict { outcome := .applied, successor := successor } ∧
        Commits tr (.write actor transaction entry next) ∧ transaction.operations = [closeOne] ∧
        ¬ ClosesOne 1 entry.state.obligations next.obligations := by
  obtain ⟨trs, s, m, t, m', u, m'', hrun, -, -, hstate', hopened, hdeferred⟩ :=
    exists_obliged [deferOne, openOne] (List.cons_ne_nil _ _) fun _ => rfl
  have hstate'' : m''.state = obligedWorld [deferredOne, openedObligation openOne] :=
    hdeferred.state.trans (by rw [hstate']; rfl)
  obtain ⟨v, last, hclosed, -⟩ := hdeferred.onHead.write_plain hstate'' (obligedWorld_quiet _)
    [closeOne] _ (List.cons_ne_nil _ _) (by decide) (by decide) (by decide) rfl
  refine ⟨_, v, _, _, _, _, _, _, hclosed.run (hdeferred.run (hopened.run hrun)),
    List.mem_append_right _ (List.mem_singleton_self _), rfl, hclosed.commits, rfl,
    fun hcloses => ?_⟩
  have hfewer := hcloses.fewer
  rw [hclosed.state, hstate''] at hfewer
  have hone : (1 : ℕ) = 1 + 1 := hfewer
  exact absurd hone (by decide)

end PutOff

end QivenContext
