import Mathlib.Logic.Relation

/-!
# Acyclic relations in layers

When no step of an upper relation starts where a step of a lower one ends, a
chain through both runs up to its last upper step and stays below from there.
So two such relations without cycles have none together.
-/

namespace QivenContext.Library

variable {α : Type*} {lower upper : α → α → Prop}

def Acyclic (r : α → α → Prop) : Prop := ∀ a, ¬ Relation.TransGen r a a

theorem Acyclic.mono {r : α → α → Prop} (h : Acyclic upper) (hsub : ∀ a b, r a b → upper a b) :
    Acyclic r :=
  fun a hcycle => h a (Relation.TransGen.mono hsub _ _ hcycle)

theorem exists_last_step {r : α → α → Prop} {a b : α} (h : Relation.TransGen r a b) :
    ∃ c, r c b := by
  cases h with
  | single hab => exact ⟨a, hab⟩
  | tail _ hcb => exact ⟨_, hcb⟩

theorem exists_first_step {r : α → α → Prop} {a b : α} (h : Relation.TransGen r a b) :
    ∃ c, r a c := by
  obtain ⟨c, hac, -⟩ := Relation.TransGen.head'_iff.mp h
  exact ⟨c, hac⟩

/-- A chain through both layers runs above, or goes down once. -/
theorem transGen_layered (hlayer : ∀ a b c, lower a b → ¬ upper b c) {a b : α}
    (h : Relation.TransGen (fun x y => lower x y ∨ upper x y) a b) :
    Relation.TransGen upper a b ∨
      ∃ c, (c = a ∨ Relation.TransGen upper a c) ∧ Relation.TransGen lower c b := by
  induction h with
  | single hab =>
      rcases hab with hlower | hupper
      · exact .inr ⟨a, .inl rfl, .single hlower⟩
      · exact .inl (.single hupper)
  | tail _ hbc ih =>
      rcases ih with habove | ⟨c, hc, hdown⟩
      · rcases hbc with hlower | hupper
        · exact .inr ⟨_, .inr habove, .single hlower⟩
        · exact .inl (.tail habove hupper)
      · rcases hbc with hlower | hupper
        · exact .inr ⟨c, hc, .tail hdown hlower⟩
        · obtain ⟨_, hlast⟩ := exists_last_step hdown
          exact (hlayer _ _ _ hlast hupper).elim

theorem acyclic_layered (hlayer : ∀ a b c, lower a b → ¬ upper b c) (hlower : Acyclic lower)
    (hupper : Acyclic upper) : Acyclic fun a b => lower a b ∨ upper a b := by
  intro a hcycle
  rcases transGen_layered hlayer hcycle with habove | ⟨c, rfl | hc, hdown⟩
  · exact hupper a habove
  · exact hlower c hdown
  · obtain ⟨_, hfirst⟩ := exists_first_step hc
    obtain ⟨_, hlast⟩ := exists_last_step hdown
    exact hlayer _ _ _ hlast hfirst

end QivenContext.Library
