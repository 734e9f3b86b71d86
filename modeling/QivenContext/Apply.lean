import Mathlib.Data.List.Induction
import QivenContext.Codec
import QivenContext.Gates
import QivenContext.Library.Extension

/-!
# What applying a transaction changes

One induction rule for the apply loop, one equation for each table, and what
the loop does to the part of a snapshot that the format carries.
-/

namespace QivenContext

open Library Snapshot

variable {next s t : Snapshot} {operation : Operation} {transaction : ContextTransaction}
  {handoffEvidenceRef : Str}

/-- Induction along the apply loop, with the operations applied so far. -/
theorem applyOperations_induction {motive : List Operation → Snapshot → Prop}
    (hnil : motive [] s)
    (hsnoc : ∀ past operation next, past ++ [operation] <+: transaction.operations →
      motive past next →
        motive (past ++ [operation])
          (applyOperation transaction.handoffEvidenceRef next operation)) :
    motive transaction.operations (applyOperations transaction s) := by
  have hprefix : ∀ past, past <+: transaction.operations →
      motive past (past.foldl (applyOperation transaction.handoffEvidenceRef) s) := by
    intro past
    induction past using List.reverseRecOn with
    | nil => exact fun _ => hnil
    | append_singleton past operation ih =>
        intro hpast
        rw [List.foldl_append]
        exact hsnoc past operation _ hpast (ih ((List.prefix_append _ _).trans hpast))
  exact hprefix _ (List.prefix_refl _)

/-- What every operation of the transaction preserves, the transaction preserves. -/
theorem applyOperations_preserves {P : Snapshot → Prop} (hinit : P s)
    (hstep : ∀ operation ∈ transaction.operations, ∀ next, P next →
      P (applyOperation transaction.handoffEvidenceRef next operation)) :
    P (applyOperations transaction s) :=
  applyOperations_induction (motive := fun _ next => P next) hinit
    fun _ operation next hpast hnext =>
      hstep operation (hpast.subset (by simp)) next hnext

/-- A change of the first record that a predicate finds, when the relation
allows it where the other list has its first one. -/
theorem Library.Extends.updateFirst {α : Type} {R : α → α → Prop} {as bs : List α} {p : α → Bool}
    {f : α → α} (h : Extends R as bs) (hp : ∀ a b, R a b → p b = p a)
    (hf : ∀ a, as.find? p = some a → ∀ b, R a b → R a (f b)) :
    Extends R as (QivenContext.updateFirst p f bs) := by
  induction bs generalizing as with
  | nil => exact h
  | cons b bs ih =>
      have htail : Extends R as.tail bs := fun i a ha => h (i + 1) a (by
        rw [← ha]
        cases as <;> simp)
      unfold QivenContext.updateFirst
      split
      · next hb =>
          rintro (_ | i) a ha
          · obtain ⟨b', hb', hab⟩ := h 0 a ha
            obtain rfl : b = b' := by simpa using hb'
            refine ⟨f b, rfl, hf a ?_ b hab⟩
            cases as with
            | nil => simp at ha
            | cons a' as =>
                obtain rfl : a' = a := by simpa using ha
                rw [List.find?_cons_of_pos ((hp a' b hab) ▸ hb)]
          · exact h (i + 1) a ha
      · next hb =>
          rintro (_ | i) a ha
          · exact h 0 a ha
          · refine ih htail (fun a' hfind => hf a' ?_) i a (by
              rw [← ha]
              cases as <;> simp)
            cases as with
            | nil => simp at hfind
            | cons first as =>
                obtain ⟨b', hb', hab⟩ := h 0 first rfl
                obtain rfl : b = b' := by simpa using hb'
                rw [List.find?_cons_of_neg ((hp first b hab) ▸ hb)]
                exact hfind

/-! ## One equation for each table -/

theorem applyOperation_decisions :
    (applyOperation handoffEvidenceRef next operation).decisions =
      match operation.kind with
      | .appendDecision => next.decisions ++ [acceptedDecision handoffEvidenceRef operation]
      | .supersedeDecision => next.decisions.map (supersedeIn operation)
      | _ => next.decisions := by
  unfold applyOperation
  cases operation.kind <;> try rfl
  dsimp only
  split <;> rfl

theorem applyOperation_memory :
    (applyOperation handoffEvidenceRef next operation).memory =
      if operation.kind = .addMemory then next.memory ++ [verifiedMemory operation]
      else next.memory := by
  unfold applyOperation
  cases operation.kind <;> try rfl
  dsimp only
  split <;> rfl

theorem applyOperation_obligations :
    (applyOperation handoffEvidenceRef next operation).obligations =
      match operation.kind with
      | .upsertObligation => next.obligations ++ [openedObligation operation]
      | .closeObligation => closeFirst operation next.obligations
      | .transitionObligation => next.obligations.map (transitionIn operation)
      | _ => next.obligations := by
  unfold applyOperation
  cases operation.kind <;> try rfl
  dsimp only
  split <;> rfl

theorem applyOperation_evidence :
    (applyOperation handoffEvidenceRef next operation).evidence =
      if operation.kind = .addEvidence then next.evidence ++ [boundEvidence operation]
      else next.evidence := by
  unfold applyOperation
  cases operation.kind <;> try rfl
  dsimp only
  split <;> rfl

theorem applyOperation_conflicts :
    (applyOperation handoffEvidenceRef next operation).conflicts =
      match operation.kind with
      | .openConflict => next.conflicts ++ [openedConflict operation]
      | .resolveConflict => next.conflicts.map (resolveIn operation)
      | _ => next.conflicts := by
  unfold applyOperation
  cases operation.kind <;> try rfl
  dsimp only
  split <;> rfl

theorem applyOperation_profiles :
    (applyOperation handoffEvidenceRef next operation).profiles =
      if operation.kind = .upsertProfile then next.profiles ++ [declaredProfile operation]
      else next.profiles := by
  unfold applyOperation
  cases operation.kind <;> try rfl
  dsimp only
  split <;> rfl

theorem applyOperation_views :
    (applyOperation handoffEvidenceRef next operation).views =
      if operation.kind = .amendViewSpec then
        if operation.aux = 1 then next.views.filter fun view => view.id ≠ operation.title
        else next.views ++ [amendedView operation]
      else next.views := by
  unfold applyOperation
  cases operation.kind <;> try rfl
  dsimp only [if_true]
  split <;> rfl

theorem applyOperation_state :
    (applyOperation handoffEvidenceRef next operation).state =
      match operation.kind with
      | .updateState => { next.state with current := operation.payload }
      | .setNextBoundary =>
          { next.state with nextBoundaryRef := toStringInt64 operation.recordId }
      | _ => next.state := by
  unfold applyOperation
  cases operation.kind <;> try rfl
  dsimp only
  split <;> rfl

/-- What no operation touches. -/
theorem applyOperation_governed :
    (applyOperation handoffEvidenceRef next operation).governance = next.governance ∧
      (applyOperation handoffEvidenceRef next operation).constitution = next.constitution ∧
      (applyOperation handoffEvidenceRef next operation).policy = next.policy ∧
      (applyOperation handoffEvidenceRef next operation).invocation = next.invocation ∧
      (applyOperation handoffEvidenceRef next operation).roles = next.roles := by
  unfold applyOperation
  cases operation.kind <;> try exact ⟨rfl, rfl, rfl, rfl, rfl⟩
  dsimp only
  split <;> exact ⟨rfl, rfl, rfl, rfl, rfl⟩

/-! ## What the format carries, along the loop -/

theorem restored_applyOperation :
    restored (applyOperation handoffEvidenceRef next operation) =
      restored (applyOperation handoffEvidenceRef (restored next) operation) := by
  have hmemory : ∀ record, restoredMemory (restoredMemory record) = restoredMemory record :=
    fun _ => rfl
  have hobligation : ∀ obligation,
      restoredObligation (restoredObligation obligation) = restoredObligation obligation :=
    fun _ => rfl
  have htransition : ∀ obligation, restoredObligation (transitionIn operation obligation) =
      restoredObligation (transitionIn operation (restoredObligation obligation)) := by
    intro obligation
    unfold transitionIn restoredObligation
    dsimp only
    split <;> rfl
  have hclose : ∀ obligations : List Obligation,
      (closeFirst operation obligations).map restoredObligation =
        closeFirst operation (obligations.map restoredObligation) :=
    map_updateFirst (fun _ => rfl) fun _ => rfl
  unfold applyOperation
  cases operation.kind <;>
    simp [restored, hmemory, hobligation, Function.comp_def, ← htransition, hclose]
  split <;> simp [hmemory, hobligation, Function.comp_def]

/-- Snapshots with one encoding have successors with one encoding. -/
theorem restored_applyOperations (h : restored s = restored t) :
    restored (applyOperations transaction s) = restored (applyOperations transaction t) := by
  unfold applyOperations
  induction transaction.operations generalizing s t with
  | nil => exact h
  | cons operation rest ih =>
      refine ih ?_
      rw [restored_applyOperation, h, ← restored_applyOperation]

end QivenContext
