import QivenContext.Library.Transition
import Mathlib.Data.List.Forall2
import Mathlib.Data.Option.Basic

/-!
# Two systems in lockstep

Two step functions keep in lockstep when from related states related actions
both return, with related answers and states, or both do not. What one of them
can run, the other can then run in step with it.
-/

namespace QivenContext.Library

variable {σ σ' α α' β β' : Type*}

/-- The relation of the states is kept, and the answers are related. -/
def Lockstep (step : σ → α → Option (β × σ)) (step' : σ' → α' → Option (β' × σ'))
    (R : σ → σ' → Prop) (A : α → α' → Prop) (B : β → β' → Prop) : Prop :=
  ∀ ⦃s s' a a'⦄, R s s' → A a a' →
    Option.Rel (fun x y => B x.1 y.1 ∧ R x.2 y.2) (step s a) (step' s' a')

/-- The two transitions are related in all their parts. -/
structure InStep (R : σ → σ' → Prop) (A : α → α' → Prop) (B : β → β' → Prop)
    (tr : Transition σ α β) (tr' : Transition σ' α' β') : Prop where
  before : R tr.before tr'.before
  action : A tr.action tr'.action
  answer : B tr.answer tr'.answer
  after : R tr.after tr'.after

namespace Lockstep

variable {step : σ → α → Option (β × σ)} {step' : σ' → α' → Option (β' × σ')}
  {R : σ → σ' → Prop} {A : α → α' → Prop} {B : β → β' → Prop} {s t : σ} {s' : σ'}

/-- A step that returns has a step of the other system beside it. -/
theorem exists_step (h : Lockstep step step' R A B) {a : α} {a' : α'} {b : β} (hR : R s s')
    (hA : A a a') (hstep : step s a = some (b, t)) :
    ∃ b' t', step' s' a' = some (b', t') ∧ B b b' ∧ R t t' := by
  have hrel := h hR hA
  rw [hstep] at hrel
  cases hstep' : step' s' a' with
  | none =>
      rw [hstep'] at hrel
      cases hrel
  | some result =>
      rw [hstep'] at hrel
      cases hrel with
      | some hboth => exact ⟨result.1, result.2, rfl, hboth.1, hboth.2⟩

/-- A run has a run of the other system beside it, whichever related actions
are taken there, where each of its transitions has one. -/
theorem exists_run_of {trs : List (Transition σ α β)} (hrun : Run step s trs t) (hR : R s s')
    {actions : List α'}
    (hactions : List.Forall₂ (fun tr action => A (Transition.action tr) action) trs actions)
    (hstep : ∀ tr ∈ trs, tr.Valid step → ∀ u a', R tr.before u → A tr.action a' →
      ∃ b' u', step' u a' = some (b', u') ∧ B tr.answer b' ∧ R tr.after u') :
    ∃ trs' t', Run step' s' trs' t' ∧ trs'.map Transition.action = actions ∧
      List.Forall₂ (InStep R A B) trs trs' ∧ R t t' := by
  induction hrun generalizing s' actions with
  | nil s =>
      cases hactions
      exact ⟨[], s', .nil s', rfl, .nil, hR⟩
  | cons tr rest t hvalid _ ih =>
      obtain - | ⟨hA, hrest⟩ := hactions
      obtain ⟨b', u', hstep', hB, hafter⟩ := hstep tr List.mem_cons_self hvalid _ _ hR hA
      obtain ⟨trs', t', hrun', hactions', hinstep, hlast⟩ :=
        ih hafter hrest fun other hother => hstep other (List.mem_cons_of_mem _ hother)
      refine ⟨⟨s', _, b', u'⟩ :: trs', t', .cons ⟨s', _, b', u'⟩ trs' t' hstep' hrun',
        ?_, .cons ⟨hR, hA, hB, hafter⟩ hinstep, hlast⟩
      rw [List.map_cons, hactions']

theorem exists_run (h : Lockstep step step' R A B) {trs : List (Transition σ α β)}
    (hrun : Run step s trs t) (hR : R s s') {actions : List α'}
    (hactions : List.Forall₂ (fun tr action => A (Transition.action tr) action) trs actions) :
    ∃ trs' t', Run step' s' trs' t' ∧ trs'.map Transition.action = actions ∧
      List.Forall₂ (InStep R A B) trs trs' ∧ R t t' :=
  exists_run_of hrun hR hactions fun _ _ hvalid _ _ hbefore hA => h.exists_step hbefore hA hvalid

/-- Runs in step whose answers are related by equality have the same answers. -/
theorem answers_eq {R : σ → σ' → Prop} {A : α → α' → Prop} {trs : List (Transition σ α β)}
    {trs' : List (Transition σ' α' β)} (h : List.Forall₂ (InStep R A Eq) trs trs') :
    trs'.map Transition.answer = trs.map Transition.answer := by
  induction h with
  | nil => rfl
  | cons hfirst _ ih => rw [List.map_cons, List.map_cons, hfirst.answer, ih]

end Lockstep

end QivenContext.Library
