import QivenContext.AppendOnly

/-!
# Lifecycles

A status only moves forward, as long as a closing operation finds the record
that its gate saw. The gate looks for any open obligation with the id; the
loop closes the first one. Where an id is used again after it was put off, the
record that was put off is closed, and the open one stays open.
-/

namespace QivenContext

open Library Snapshot ServiceState

/-! ## Forward moves -/

/-- An accepted decision may be superseded. -/
def DecisionForward (before after : Decision) : Prop :=
  after.status = before.status ∨ before.status = .accepted ∧ after.status = .superseded

/-- An obligation that is not open keeps its status and its completion. -/
def ObligationForward (before after : Obligation) : Prop :=
  before.status = .isOpen ∨
    after.status = before.status ∧ after.completionCriteria = before.completionCriteria

/-- An open conflict may be resolved, and a resolution stands. -/
def ConflictForward (before after : Conflict) : Prop :=
  (after.status = before.status ∨ before.status = .isOpen ∧ after.status = .resolved) ∧
    (before.status = .resolved → after.resolution = before.resolution)

structure Forward (before after : Snapshot) : Prop where
  decisions : Extends DecisionForward before.decisions after.decisions
  obligations : Extends ObligationForward before.obligations after.obligations
  conflicts : Extends ConflictForward before.conflicts after.conflicts

/-! ## Ids that are open together -/

section OpenTogether

variable {α κ : Type} [DecidableEq κ] {key : α → κ} {isOpen : α → Prop} {as bs : List α}

/-- Where the first record of an id is open, all its records are. -/
def OpenTogether (key : α → κ) (isOpen : α → Prop) (as : List α) : Prop :=
  ∀ a ∈ as, ∀ first, as.find? (fun b => key b = key a) = some first → isOpen first → isOpen a

theorem OpenTogether.append (h : OpenTogether key isOpen as) {new : α} (hnew : isOpen new) :
    OpenTogether key isOpen (as ++ [new]) := by
  intro a ha first hfirst hopen
  rcases List.mem_append.mp ha with ha | ha
  · refine h a ha first ?_ hopen
    cases hfind : as.find? fun b => key b = key a with
    | none =>
        have hnone := List.find?_eq_none.mp hfind a ha
        simp at hnone
    | some other =>
        rw [List.find?_append, hfind] at hfirst
        exact hfirst
  · exact List.mem_singleton.mp ha ▸ hnew

/-- The records of one id move, and the first of them is closed. -/
theorem OpenTogether.move (h : OpenTogether key isOpen as) {k : κ}
    (hother : bs.filter (fun b => key b ≠ k) = as.filter fun b => key b ≠ k)
    (hfirst : ∀ first, bs.find? (fun b => key b = k) = some first → ¬ isOpen first) :
    OpenTogether key isOpen bs := by
  intro b hb first hfind hopen
  by_cases hkey : key b = k
  · rw [hkey] at hfind
    exact (hfirst first hfind hopen).elim
  · have hsame : ∀ records : List α, records.find? (fun c => key c = key b) =
        (records.filter fun c => key c ≠ k).find? fun c => key c = key b := by
      intro records
      rw [List.find?_filter]
      congr 1
      funext c
      by_cases hc : key c = key b <;> simp [hc, hkey]
    have hmem : b ∈ as.filter fun c => key c ≠ k := by
      rw [← hother]
      exact List.mem_filter.mpr ⟨hb, by simpa using hkey⟩
    refine h b (List.mem_filter.mp hmem).1 first ?_ hopen
    rw [hsame as, ← hother, ← hsame bs]
    exact hfind

/-- A change of all records of one id. -/
theorem OpenTogether.map (h : OpenTogether key isOpen as) {k : κ} {f : α → α}
    (hkey : ∀ a, key (f a) = key a) (hsame : ∀ a, key a ≠ k → f a = a)
    (hclosed : ∀ a, key a = k → ¬ isOpen (f a)) : OpenTogether key isOpen (as.map f) := by
  refine h.move (k := k) ?_ fun first hfirst => ?_
  · rw [List.filter_map, map_eq_self.mpr]
    · congr 1
      funext a
      simp [hkey]
    · intro a ha
      exact hsame a (by simpa [hkey] using (List.mem_filter.mp ha).2)
  · obtain ⟨a, -, rfl⟩ := List.mem_map.mp (List.mem_of_find?_eq_some hfirst)
    have hfound := List.find?_some hfirst
    exact hclosed a (by simpa [hkey] using hfound)

/-- A change of the first record of one id. -/
theorem OpenTogether.updateFirst (h : OpenTogether key isOpen as) {k : κ} {f : α → α}
    (hkey : ∀ a, key (f a) = key a) (hclosed : ∀ a, ¬ isOpen (f a)) :
    OpenTogether key isOpen (updateFirst (fun a => key a = k) f as) := by
  refine h.move (k := k) (filter_updateFirst (fun a ha => ?_) as) fun first hfirst => ?_
  · simpa [hkey] using ha
  · rw [find?_updateFirst (fun a ha => by simpa [hkey] using ha)] at hfirst
    obtain ⟨a, -, rfl⟩ := Option.map_eq_some_iff.mp hfirst
    exact hclosed a

/-- A change of nothing that is looked at. -/
theorem OpenTogether.copy (h : OpenTogether key isOpen as) {f : α → α}
    (hkey : ∀ a, key (f a) = key a) (hopen : ∀ a, isOpen (f a) ↔ isOpen a) :
    OpenTogether key isOpen (as.map f) := by
  intro b hb first hfind hfirst
  obtain ⟨a, ha, rfl⟩ := List.mem_map.mp hb
  rw [List.find?_map] at hfind
  obtain ⟨original, horiginal, rfl⟩ := Option.map_eq_some_iff.mp hfind
  refine (hopen a).mpr (h a ha original ?_ ((hopen original).mp hfirst))
  rw [← horiginal]
  congr 1
  funext c
  simp [hkey]

end OpenTogether

/-! ## The apply loop -/

section Apply

variable {current before next : Snapshot} {operation : Operation}
  {transaction : ContextTransaction} {handoffEvidenceRef : Str}

/-- What the write path keeps of the statuses of every snapshot. -/
structure Orderly (snapshot : Snapshot) : Prop where
  decisions : ∀ decision ∈ snapshot.decisions,
    decision.status = .accepted ∨ decision.status = .superseded
  obligations : OpenTogether Obligation.id (fun obligation => obligation.status = .isOpen)
    snapshot.obligations
  conflicts : OpenTogether Conflict.id (fun conflict => conflict.status = .isOpen)
    snapshot.conflicts

theorem orderly_genesis : Orderly makeGenesis :=
  ⟨by simp [makeGenesis], by simp [OpenTogether, makeGenesis],
    by simp [OpenTogether, makeGenesis]⟩

theorem orderly_restored (h : Orderly current) : Orderly (restored current) :=
  ⟨h.decisions, h.obligations.copy (fun _ => rfl) fun _ => Iff.rfl, h.conflicts⟩

theorem transitioned_ne_open {aux : UInt8} (hle : aux ≤ 5) (hne : aux ≠ 0) :
    (Enumerated.ofByte aux : Obligation.Status) ≠ .isOpen := by
  intro hopen
  have hbyte := Enumerated.toByte_ofByte (E := Obligation.Status) (b := aux)
    (Nat.lt_succ_of_le (UInt8.le_iff_toNat_le.mp hle))
  rw [hopen] at hbyte
  exact hne hbyte.symm

theorem Orderly.applyOperation (h : Orderly next)
    (hgate : invariantGate current operation = .ok ()) :
    Orderly (applyOperation handoffEvidenceRef next operation) := by
  refine ⟨?_, ?_, ?_⟩
  · rw [applyOperation_decisions]
    split
    · exact forall_mem_append_singleton h.decisions (.inl rfl)
    · intro decision hmem
      obtain ⟨earlier, hearlier, rfl⟩ := List.mem_map.mp hmem
      rw [supersedeIn_status]
      split
      · exact .inr rfl
      · exact h.decisions earlier hearlier
    · exact h.decisions
  · rw [applyOperation_obligations]
    split
    · exact h.obligations.append rfl
    · exact h.obligations.updateFirst (fun _ => rfl) fun _ => by simp
    · next hkind =>
        obtain ⟨-, haux, hzero⟩ := transitionObligation_passed hgate hkind
        refine h.obligations.map (k := operation.recordId) (fun obligation => ?_)
          (fun obligation hid => if_neg hid) fun obligation hid => ?_
        · unfold transitionIn
          split <;> rfl
        · rw [transitionIn, if_pos hid]
          exact transitioned_ne_open haux hzero
    · exact h.obligations
  · rw [applyOperation_conflicts]
    split
    · exact h.conflicts.append rfl
    · refine h.conflicts.map (k := operation.title) (fun conflict => ?_)
        (fun conflict hid => if_neg hid) fun conflict hid => ?_
      · unfold resolveIn
        split <;> rfl
      · rw [resolveIn, if_pos hid]
        simp
    · exact h.conflicts

theorem orderly_applyOperations (h : Orderly current)
    (hgates : ∀ operation ∈ transaction.operations, invariantGate current operation = .ok ()) :
    Orderly (applyOperations transaction current) :=
  applyOperations_preserves h fun operation hmem _ hnext => hnext.applyOperation
    (hgates operation hmem)

/-- The first obligation with the id of a closing operation is the open one that
the gate asks for, or is done already. -/
def ClosesForward (current : Snapshot) (transaction : ContextTransaction) : Prop :=
  ∀ operation ∈ transaction.operations, operation.kind = .closeObligation →
    ∀ first, findObligation current operation.recordId = some first →
      first.status = .isOpen ∨ first.status = .done

/-- The statuses moved forward, and the ids are where they were. -/
structure ForwardSoFar (current next : Snapshot) : Prop where
  decisions : Extends DecisionForward current.decisions next.decisions
  obligations : Extends (fun obligation later => later.id = obligation.id ∧
    ObligationForward obligation later) current.obligations next.obligations
  conflicts : Extends (fun conflict later => later.id = conflict.id ∧
    ConflictForward conflict later) current.conflicts next.conflicts

theorem ForwardSoFar.applyOperation_decisions (h : ForwardSoFar current next)
    (horderly : Orderly current) : Extends DecisionForward current.decisions
      (applyOperation handoffEvidenceRef next operation).decisions := by
  rw [QivenContext.applyOperation_decisions]
  split
  · exact h.decisions.append _
  · refine h.decisions.map fun decision hmem later hforward => ?_
    unfold DecisionForward at hforward ⊢
    rw [supersedeIn_status]
    split
    · rcases horderly.decisions decision hmem with haccepted | hsuperseded
      · exact .inr ⟨haccepted, rfl⟩
      · exact .inl hsuperseded.symm
    · exact hforward
  · exact h.decisions

theorem ForwardSoFar.applyOperation_obligations (h : ForwardSoFar current next)
    (horderly : Orderly current) (hgate : invariantGate current operation = .ok ())
    (hcloses : operation.kind = .closeObligation →
      ∀ first, findObligation current operation.recordId = some first →
        first.status = .isOpen ∨ first.status = .done) :
    Extends (fun obligation later => later.id = obligation.id ∧ ObligationForward obligation later)
      current.obligations (applyOperation handoffEvidenceRef next operation).obligations := by
  rw [QivenContext.applyOperation_obligations]
  split
  · exact h.obligations.append _
  · next hkind =>
      refine h.obligations.updateFirst (fun _ _ hforward => by rw [hforward.1]) ?_
      intro first hfirst later hforward
      refine ⟨hforward.1, ?_⟩
      rcases hcloses hkind first hfirst with hopen | hdone
      · exact .inl hopen
      · rcases hforward.2 with hopen | ⟨-, hcompletion⟩
        · exact .inl hopen
        · exact .inr ⟨hdone.symm, hcompletion⟩
  · next hkind =>
      obtain ⟨⟨first, hfirst, hopen⟩, -⟩ := transitionObligation_passed hgate hkind
      refine h.obligations.map fun obligation hmem later hforward => ?_
      unfold transitionIn
      split
      · next hid =>
          -- all records with the id of the transition are open with the first
          refine ⟨hforward.1, .inl (horderly.obligations obligation hmem first ?_ hopen)⟩
          rw [← hforward.1, hid]
          exact hfirst
      · exact hforward
  · exact h.obligations

theorem ForwardSoFar.applyOperation_conflicts (h : ForwardSoFar current next)
    (horderly : Orderly current) (hgate : invariantGate current operation = .ok ()) :
    Extends (fun conflict later => later.id = conflict.id ∧ ConflictForward conflict later)
      current.conflicts (applyOperation handoffEvidenceRef next operation).conflicts := by
  rw [QivenContext.applyOperation_conflicts]
  split
  · exact h.conflicts.append _
  · next hkind =>
      obtain ⟨first, hfirst, hopen⟩ := resolveConflict_passed hgate hkind
      refine h.conflicts.map fun conflict hmem later hforward => ?_
      unfold resolveIn
      split
      · next hid =>
          have hthis := horderly.conflicts conflict hmem first (by
            rw [← hforward.1, hid]
            exact hfirst) hopen
          exact ⟨hforward.1, .inr ⟨hthis, rfl⟩, fun hresolved => by simp [hthis] at hresolved⟩
      · exact hforward
  · exact h.conflicts

theorem forward_applyOperations (horderly : Orderly current)
    (hgates : ∀ operation ∈ transaction.operations, invariantGate current operation = .ok ())
    (hcloses : ClosesForward current transaction) :
    ForwardSoFar current (applyOperations transaction current) := by
  refine applyOperations_preserves (P := ForwardSoFar current)
    ⟨.refl (fun _ => .inl rfl) _, .refl (fun _ => ⟨rfl, .inr ⟨rfl, rfl⟩⟩) _,
      .refl (fun _ => ⟨rfl, .inl rfl, fun _ => rfl⟩) _⟩ ?_
  intro operation hmem next hnext
  have hgate := hgates operation hmem
  exact ⟨hnext.applyOperation_decisions horderly,
    hnext.applyOperation_obligations horderly hgate (hcloses operation hmem),
    hnext.applyOperation_conflicts horderly hgate⟩

theorem find?_closeFirst (operation : Operation) (obligations : List Obligation) :
    (closeFirst operation obligations).find? (fun other => other.id = operation.recordId) =
      (obligations.find? fun other => other.id = operation.recordId).map
        fun other => { other with status := .done } := by
  refine find?_updateFirst ?_ obligations
  exact fun _ hother => hother

theorem findObligation_append {id : Int64} {obligation : Obligation} (new : Obligation)
    (hfind : findObligation next id = some obligation) :
    (next.obligations ++ [new]).find? (fun other => other.id = id) = some obligation := by
  have hfound : next.obligations.find? (fun other => other.id = id) = some obligation := hfind
  rw [List.find?_append, hfound, Option.some_or]

theorem findObligation_transitionIn {id : Int64} {obligation : Obligation}
    (hid : id ≠ operation.recordId) (hfind : findObligation next id = some obligation) :
    (next.obligations.map (transitionIn operation)).find? (fun other => other.id = id) =
      some obligation := by
  have hfound : next.obligations.find? (fun other => other.id = id) = some obligation := hfind
  have hsame : transitionIn operation obligation = obligation := by
    have hthis : obligation.id = id := by simpa using List.find?_some hfound
    exact if_neg (hthis ▸ hid)
  have hkey : (fun other : Obligation => decide (other.id = id)) ∘ transitionIn operation =
      fun other => decide (other.id = id) := by
    funext other
    unfold transitionIn
    by_cases hother : other.id = operation.recordId <;> simp [hother]
  rw [List.find?_map, hkey, hfound, Option.map_some, hsame]

/-- Where the first obligation with an id was not open to begin with, it stays what
it is until a closing operation with the id leaves it done. -/
theorem findObligation_applyOperation (hgate : invariantGate current operation = .ok ())
    {id : Int64} {first obligation : Obligation} (hfirst : findObligation current id = some first)
    (hclosed : first.status ≠ .isOpen) (hfind : findObligation next id = some obligation) :
    ∃ later, findObligation (applyOperation handoffEvidenceRef next operation) id = some later ∧
      if operation.kind = .closeObligation ∧ operation.recordId = id then later.status = .done
      else later = obligation := by
  unfold findObligation
  rw [applyOperation_obligations]
  split
  · next hkind => exact ⟨obligation, findObligation_append _ hfind, by simp [hkind]⟩
  · next hkind =>
      by_cases hid : operation.recordId = id
      · subst hid
        refine ⟨{ obligation with status := .done }, ?_, by simp [hkind]⟩
        exact (find?_closeFirst ..).trans (congrArg _ hfind)
      · refine ⟨obligation, ?_, by simp [hid]⟩
        rw [closeFirst, find?_updateFirst_of_ne (fun other hother => ?_)]
        · exact hfind
        · have hthis : other.id = operation.recordId := by simpa using hother
          simp [hthis, hid]
  · next hkind =>
      obtain ⟨⟨found, hfound, hopen⟩, -⟩ := transitionObligation_passed hgate hkind
      have hid : id ≠ operation.recordId := by
        rintro rfl
        rw [hfirst] at hfound
        exact hclosed (Option.some.inj hfound ▸ hopen)
      exact ⟨obligation, findObligation_transitionIn hid hfind, by simp [hkind]⟩
  · next hclose _ => exact ⟨obligation, hfind, by rw [if_neg fun hthis => hclose hthis.1]⟩

/-- A closing operation leaves the first obligation with its id done: where it is
not open, no transition of the transaction has the id. -/
theorem closed_of_applyOperations
    (hgates : ∀ operation ∈ transaction.operations, invariantGate current operation = .ok ())
    {id : Int64} {first : Obligation} (hfirst : findObligation current id = some first)
    (hclosed : first.status ≠ .isOpen)
    (hcloses : ∃ operation ∈ transaction.operations,
      operation.kind = .closeObligation ∧ operation.recordId = id) :
    ∃ obligation, findObligation (applyOperations transaction current) id = some obligation ∧
      obligation.status = .done := by
  have hloop : ∃ obligation, findObligation (applyOperations transaction current) id =
      some obligation ∧ ((∃ operation ∈ transaction.operations,
        operation.kind = .closeObligation ∧ operation.recordId = id) →
          obligation.status = .done) := by
    refine applyOperations_induction (motive := fun past next =>
      ∃ obligation, findObligation next id = some obligation ∧ ((∃ operation ∈ past,
        operation.kind = .closeObligation ∧ operation.recordId = id) →
          obligation.status = .done)) ⟨first, hfirst, by simp⟩ ?_
    rintro past operation next hpast ⟨obligation, hfind, hdone⟩
    have hgate := hgates operation (hpast.subset (by simp))
    obtain ⟨later, hlater, hstatus⟩ := findObligation_applyOperation hgate hfirst hclosed hfind
    refine ⟨later, hlater, ?_⟩
    rintro ⟨earlier, hmem, hkind, hid⟩
    split at hstatus
    · exact hstatus
    · next hother =>
        rcases List.mem_append.mp hmem with hmem | hmem
        · exact hstatus ▸ hdone ⟨earlier, hmem, hkind, hid⟩
        · obtain rfl := List.mem_singleton.mp hmem
          exact (hother ⟨hkind, hid⟩).elim
  obtain ⟨obligation, hfind, hdone⟩ := hloop
  exact ⟨obligation, hfind, hdone hcloses⟩

/-- The successor of a copy moves the original forward exactly when every closing
operation finds what it closes. -/
theorem forward_iff_closesForward (h : restored current = restored before)
    (horderly : Orderly current)
    (hgates : ∀ operation ∈ transaction.operations, invariantGate current operation = .ok ()) :
    Forward before (applyOperations transaction current) ↔ ClosesForward current transaction := by
  have hobligations : current.obligations.map restoredObligation =
      before.obligations.map restoredObligation := congrArg Snapshot.obligations h
  constructor
  · intro hforward operation hmem hkind first hfirst
    by_contra hother
    simp only [not_or] at hother
    obtain ⟨obligation, hfind, hdone⟩ := closed_of_applyOperations hgates hfirst hother.1
      ⟨operation, hmem, hkind, rfl⟩
    obtain ⟨i, later, hi, hlater, hfound⟩ :=
      (appendOnly_applyOperations transaction current).obligations.find?
        (p := fun obligation => obligation.id = operation.recordId)
        (fun _ _ hkept => by rw [hkept.id]) hfirst
    obtain rfl : later = obligation := Option.some.inj (hfound.symm.trans hfind)
    obtain ⟨copy, hcopy, hstatus⟩ := Extends.of_map_eq
      (R := fun obligation copy => copy.status = obligation.status) hobligations
      (fun _ _ hsame => (congrArg Obligation.status hsame).symm) i first hi
    obtain ⟨moved, hmoved, hforward⟩ := hforward.obligations i copy hcopy
    obtain rfl : moved = later := Option.some.inj (hmoved.symm.trans hlater)
    rcases hforward with hopen | ⟨hkept, -⟩
    · exact hother.1 (hstatus ▸ hopen)
    · exact hother.2 (hstatus ▸ hkept ▸ hdone)
  · intro hcloses
    obtain ⟨hdecisions, hforward, hconflicts⟩ := forward_applyOperations horderly hgates hcloses
    have hdecisions' : current.decisions = before.decisions :=
      show (restored current).decisions = (restored before).decisions from congrArg _ h
    have hconflicts' : current.conflicts = before.conflicts :=
      show (restored current).conflicts = (restored before).conflicts from congrArg _ h
    refine ⟨hdecisions' ▸ hdecisions, fun i obligation hi => ?_,
      hconflicts' ▸ hconflicts.mono fun _ _ hthis => hthis.2⟩
    obtain ⟨copy, hcopy, hstatus, hcompletion⟩ := Extends.of_map_eq
      (R := fun obligation copy => copy.status = obligation.status ∧
        copy.completionCriteria = obligation.completionCriteria) hobligations.symm
      (fun _ _ hsame => ⟨(congrArg Obligation.status hsame).symm,
        (congrArg Obligation.completionCriteria hsame).symm⟩) i obligation hi
    obtain ⟨later, hlater, -, hthis⟩ := hforward i copy hcopy
    unfold ObligationForward at hthis ⊢
    rw [hstatus, hcompletion] at hthis
    exact ⟨later, hlater, hthis⟩

theorem forward_rule : ChainRule Orderly (fun _ => True) Forward ClosesForward where
  genesis := orderly_genesis
  boot _ := orderly_restored
  apply _ _ := orderly_applyOperations
  first := trivial
  step _ _ _ _ hcurrent _ h hgates :=
    ⟨forward_iff_closesForward h hcurrent hgates, fun _ => trivial⟩

end Apply

/-! ## Whole runs -/

/-- Along a run whose committing writes keep every count and length below
`2 ^ 32`, with revision ids that do not collide, every commit moves the one
before it forward exactly when every closing operation finds what it closes. -/
theorem commits_forward_iff [Foundation] {σ : Type} [MemoryBacked σ] {t : ServiceState σ}
    {trs : List (ServiceTransition σ)} {store : σ}
    (hempty : (MemoryBacked.memory store).revisions = [])
    (hrun : ServiceRun (ServiceState.start store) trs t) (hsized : SizedRun (2 ^ 32 - 1) trs)
    (hfree : Collisionless t) :
    (committedSnapshots trs).IsChain Forward ↔ EveryCommit ClosesForward trs :=
  forward_rule.run hempty hrun hsized hfree

/-! ## An obligation that was put off -/

section PutOff

open scoped QivenContext.Reference

def openOne : Operation where
  kind := .upsertObligation
  recordId := 1
  payload := lit "statement"

def deferOne : Operation where
  kind := .transitionObligation
  recordId := 1
  payload := lit "later"
  aux := 1

def closeOne : Operation where
  kind := .closeObligation
  recordId := 1

/-- Genesis with obligations. -/
def obligedWorld (obligations : List Obligation) : Snapshot :=
  { makeGenesis with obligations := obligations }

theorem obligedWorld_quiet (obligations : List Obligation) : Quiet (obligedWorld obligations) :=
  ⟨rfl, by simp [obligedWorld, makeGenesis], rfl⟩

/-- Genesis with obligation 1 in a status, and a piece of evidence for each byte. -/
def workedWorld (status : Obligation.Status) (bytes : List UInt8) : Snapshot :=
  { obligedWorld [{ openedObligation openOne with status := status }] with
    evidence := bytes.map fun byte => ⟨[byte], [1]⟩ }

theorem workedWorld_fits (status : Obligation.Status) {bytes : List UInt8}
    (hlength : bytes.length ≤ 18) : Fits (workedWorld status bytes) := by
  refine ⟨{ genesis_stringsShort with obligations := ?_, evidence := ?_ },
    { genesis_vectorsWithin (by norm_num) with
      obligations := by simp [workedWorld, obligedWorld]
      evidence := ?_ }⟩
  · intro obligation hmem
    obtain rfl := List.mem_singleton.mp hmem
    exact ⟨short_nil, (by decide : short (lit "statement")), short_nil⟩
  · intro record hmem
    obtain ⟨byte, -, rfl⟩ := List.mem_map.mp hmem
    exact ⟨by simp [short], by simp [short]⟩
  · have hle : (workedWorld status bytes).evidence.length ≤ 18 := by
      simpa [workedWorld] using hlength
    omega

/-- An operation, marked by a piece of evidence with the byte. -/
def marked (base : RevisionId) (operation : Operation) (byte : UInt8) : ContextTransaction where
  base := base
  operations := [operation, addEvidence [byte] [1]]

theorem marked_short {operation : Operation} (h : ShortOperation operation) (base : RevisionId)
    (byte : UInt8) : ShortTransaction (marked base operation byte) := by
  refine ⟨short_nil, fun other hother => ?_⟩
  rcases List.mem_pair.mp hother with rfl | rfl
  · exact h
  · exact ⟨short_nil, by simp [addEvidence, short], by simp [addEvidence, short], short_nil⟩

theorem room_marked_openOne (base : RevisionId) (byte : UInt8) :
    Room (2 ^ 32 - 1) makeGenesis (marked base openOne byte).operations := by
  constructor <;> simp [makeGenesis, marked, openOne, addEvidence, countKind, standingViews,
    amendIds]

theorem room_marked_closeOne (base : RevisionId) (byte more : UInt8) :
    Room (2 ^ 32 - 1) (workedWorld .isOpen [byte]) (marked base closeOne more).operations := by
  constructor <;> simp [workedWorld, obligedWorld, makeGenesis, marked, closeOne, addEvidence,
    countKind, standingViews, amendIds]

theorem OnHead.write_marked {s : ServiceState MemoryStore} {m : Materialization}
    {current : Snapshot} (honHead : OnHead s m) (hstate : m.state = current)
    (hquiet : Quiet current) (operation : Operation)
    (hclass : opClassOf operation.kind ≠ .decisionAcceptance)
    (hboundary : operation.kind ≠ .setNextBoundary)
    (hinvariant : invariantGate current operation = .ok ()) (byte : UInt8) :
    ∃ t m', OnHead.Wrote s m (marked m.revision operation byte) t m' ∧
      m'.state = applyOperations (marked m.revision operation byte) current := by
  have hmem (P : Operation → Prop) (hthis : P operation) (hmark : P (addEvidence [byte] [1])) :
      ∀ other ∈ (marked m.revision operation byte).operations, P other := by
    intro other hother
    rcases List.mem_pair.mp hother with rfl | rfl
    · exact hthis
    · exact hmark
  exact honHead.write_plain hstate hquiet _ _ (List.cons_ne_nil _ _)
    (hmem _ hclass (by simp [addEvidence, opClassOf]))
    (hmem _ hboundary (by simp [addEvidence]))
    (hmem _ hinvariant (addEvidence_passes (List.cons_ne_nil _ _) (List.cons_ne_nil _ _))) rfl

/-- Obligation 1 is opened and then closed, each under a revision of its own. -/
theorem exists_closed :
    ∃ byte more trs s m t m' u m'', ServiceRun (ServiceState.start ({} : MemoryStore)) trs s ∧
      NoWrites trs ∧ m.state = makeGenesis ∧
      OnHead.Wrote s m (marked m.revision openOne byte) t m' ∧
      m'.state = workedWorld .isOpen [byte] ∧
      OnHead.Wrote t m' (marked m'.revision closeOne more) u m'' ∧
      m''.state = workedWorld .done [byte, more] ∧ (u.store.revisions.map Prod.fst).Nodup := by
  obtain ⟨byte, trs, s, m, t, m', hrun, hnone, -, hstate, hwrote, hstate', -, hrevisions,
    hfresh⟩ := exists_fresh_write (fun base byte => marked base openOne byte)
      (fun byte => workedWorld .isOpen [byte])
      (fun s m byte honHead hstate _ => honHead.write_marked hstate genesis_quiet openOne
        (by decide) (by decide) rfl byte)
      (serialize_evidence_last _ []) fun byte =>
        serialize_ne_of_evidence (workedWorld_fits _ (by simp)) genesis_fits (List.cons_ne_nil _ _)
  have hhead : t.store.headBytes = some (serializeSnapshot (workedWorld .isOpen [byte])) := by
    simp [MemoryStore.headBytes, hrevisions]
  obtain ⟨more, -, u, m'', hwrote', hstate'', hafter, hlast⟩ := hwrote.onHead.exists_fresh
    (marked m'.revision closeOne) (fun more => workedWorld .done [byte, more])
    (hwrote.onHead.write_marked hstate' ⟨rfl, by simp [workedWorld, obligedWorld, makeGenesis], rfl⟩
      closeOne (by decide) (by decide) rfl)
    (serialize_evidence_last _ [⟨[byte], [1]⟩]) (fun more hsame => by
      rw [hhead] at hsame
      refine serialize_ne_of_evidence (workedWorld_fits .done ?_) (workedWorld_fits .isOpen ?_) ?_
        (Option.some.inj hsame).symm <;> simp [workedWorld])
    (show ([0, 1, 2] : List UInt8).Nodup by decide) (by simp [hrevisions])
  refine ⟨byte, more, trs, s, m, t, m', u, m'', hrun, hnone, hstate, hwrote, hstate', hwrote',
    hstate'', ?_⟩
  rw [hafter, List.map_append, List.nodup_append]
  rw [hrevisions] at hlast ⊢
  simpa [Ne.symm hfresh, eq_comm] using hlast

theorem closed_forward :
    ∃ (trs : List (ServiceTransition MemoryStore)) (t : ServiceState MemoryStore)
      (before after : Snapshot), ServiceRun (ServiceState.start {}) trs t ∧
        [before, after] <:+: committedSnapshots trs ∧
        before.obligations.map Obligation.status = [.isOpen] ∧
        after.obligations.map Obligation.status = [.done] ∧
        (committedSnapshots trs).IsChain Forward := by
  obtain ⟨byte, more, trs, s, m, t, m', u, m'', hrun, hnone, hstate, hwrote, hstate', hwrote',
    hstate'', hnodup⟩ := exists_closed
  have hrun' := hwrote'.run (hwrote.run hrun)
  have hopen : ShortOperation openOne :=
    ⟨by decide, by decide, by decide, by decide⟩
  have hclose : ShortOperation closeOne :=
    ⟨by decide, by decide, by decide, by decide⟩
  have hsized : SizedRun (2 ^ 32 - 1) (trs ++ [OnHead.written s m (marked m.revision openOne byte)
      t m'] ++ [OnHead.written t m' (marked m'.revision closeOne more) u m'']) :=
    hwrote'.forall_commits (hwrote.forall_commits hnone.forall_commits
      ⟨(marked_short hopen _ byte).stored, hstate ▸ room_marked_openOne _ byte⟩)
      ⟨(marked_short hclose _ more).stored, hstate' ▸ room_marked_closeOne _ byte more⟩
  have hcommitted : committedSnapshots (trs ++ [OnHead.written s m (marked m.revision openOne byte)
      t m'] ++ [OnHead.written t m' (marked m'.revision closeOne more) u m'']) =
      committedSnapshots trs ++ [m'.state] ++ [m''.state] := by
    rw [hwrote'.committedSnapshots, hwrote.committedSnapshots]
  refine ⟨_, u, m'.state, m''.state, hrun', ⟨committedSnapshots trs, [], by rw [hcommitted]; simp⟩,
    by rw [hstate']; rfl, by rw [hstate'']; rfl, (commits_forward_iff rfl hrun' hsized
      ((chained_of_run rfl hrun').collisionFree hnodup)).mpr ?_⟩
  refine hwrote'.forall_commits (W := fun _ transaction entry _ =>
    ClosesForward entry.state transaction) (hwrote.everyCommit hnone fun operation hmem hkind => ?_)
      fun operation hmem hkind first hfirst => ?_
  · rcases List.mem_pair.mp hmem with rfl | rfl <;>
      simp [openOne, addEvidence] at hkind
  · rcases List.mem_pair.mp hmem with rfl | rfl
    · rw [hstate'] at hfirst
      obtain rfl := Option.some.inj hfirst
      exact .inl rfl
    · simp [addEvidence] at hkind

def deferredOne : Obligation := transitionIn deferOne (openedObligation openOne)

/-- The id of an obligation that was put off is used again. The gate lets the
closing operation pass for the new obligation, and the old one is closed. -/
theorem deferred_not_forward :
    ∃ (trs : List (ServiceTransition MemoryStore)) (t : ServiceState MemoryStore),
      ServiceRun (ServiceState.start {}) trs t ∧
        ¬ (committedSnapshots trs).IsChain Forward := by
  obtain ⟨trs, s, m, hrun, honHead, hstate, -⟩ := exists_onHead
  obtain ⟨t, m₁, hopened, hone⟩ := honHead.write_plain hstate genesis_quiet [openOne]
    (obligedWorld [openedObligation openOne])
    (List.cons_ne_nil _ _) (by decide) (by decide) (by decide) rfl
  obtain ⟨u, m₂, hdeferred, htwo⟩ := hopened.onHead.write_plain hone (obligedWorld_quiet _)
    [deferOne, openOne] (obligedWorld [deferredOne, openedObligation openOne])
    (List.cons_ne_nil _ _) (by decide) (by decide) (by decide) rfl
  obtain ⟨v, m₃, hclosed, hthree⟩ := hdeferred.onHead.write_plain htwo (obligedWorld_quiet _)
    [closeOne] (obligedWorld [{ deferredOne with status := .done }, openedObligation openOne])
    (List.cons_ne_nil _ _) (by decide) (by decide) (by decide) rfl
  refine ⟨_, v, hclosed.run (hdeferred.run (hopened.run hrun)), fun hchain => ?_⟩
  rw [hclosed.committedSnapshots, hdeferred.committedSnapshots] at hchain
  have hforward : Forward m₂.state m₃.state :=
    (List.isChain_append.mp hchain).2.2 m₂.state (by simp) m₃.state (by simp)
  obtain ⟨later, hlater, hmoved⟩ := hforward.obligations 0 deferredOne (by rw [htwo]; rfl)
  rw [hthree] at hlater
  obtain rfl := Option.some.inj hlater
  rcases hmoved with hopen | ⟨hsame, -⟩
  · exact absurd hopen (by decide)
  · exact absurd hsame (by decide)

end PutOff

end QivenContext
