import Mathlib.Data.List.Infix
import Mathlib.Order.Defs.Unbundled

/-!
# Extensions of a list

A list extends another along a relation when it has a related element at every
position of the other, and possibly more. Tables that are appended to, and
whose records change in place, extend what they were.
-/

namespace QivenContext.Library

variable {α β : Type*} {R S : α → α → Prop} {as bs cs : List α}

/-- At every position of the first list the second has a related element. -/
def Extends (R : α → α → Prop) (as bs : List α) : Prop :=
  ∀ (i : ℕ) (a : α), as[i]? = some a → ∃ b, bs[i]? = some b ∧ R a b

namespace Extends

theorem refl (hR : ∀ a, R a a) (as : List α) : Extends R as as :=
  fun _ a ha => ⟨a, ha, hR a⟩

theorem trans [IsTrans α R] (h : Extends R as bs) (h' : Extends R bs cs) : Extends R as cs := by
  intro i a ha
  obtain ⟨b, hb, hab⟩ := h i a ha
  obtain ⟨c, hc, hbc⟩ := h' i b hb
  exact ⟨c, hc, IsTrans.trans a b c hab hbc⟩

theorem mono (h : Extends R as bs) (hRS : ∀ a b, R a b → S a b) : Extends S as bs := by
  intro i a ha
  obtain ⟨b, hb, hab⟩ := h i a ha
  exact ⟨b, hb, hRS a b hab⟩

theorem append (h : Extends R as bs) (rest : List α) : Extends R as (bs ++ rest) := by
  intro i a ha
  obtain ⟨b, hb, hab⟩ := h i a ha
  exact ⟨b, by rw [List.getElem?_append_left (List.getElem?_eq_some_iff.mp hb).1, hb], hab⟩

/-- A change of the records that the relation allows. -/
theorem map (h : Extends R as bs) {f : α → α} (hf : ∀ a ∈ as, ∀ b, R a b → R a (f b)) :
    Extends R as (bs.map f) := by
  intro i a ha
  obtain ⟨b, hb, hab⟩ := h i a ha
  exact ⟨f b, by rw [List.getElem?_map, hb, Option.map_some],
    hf a (List.mem_of_getElem? ha) b hab⟩

/-- Related lists of which each has what the other has at every position. -/
theorem of_map_eq {f : α → β} (h : as.map f = bs.map f) (hR : ∀ a b, f a = f b → R a b) :
    Extends R as bs := by
  intro i a ha
  have hget : (bs.map f)[i]? = some (f a) := by rw [← h, List.getElem?_map, ha, Option.map_some]
  rw [List.getElem?_map] at hget
  obtain ⟨b, hb, hfb⟩ := Option.map_eq_some_iff.mp hget
  exact ⟨b, hb, hR a b hfb.symm⟩

/-- Where the relation keeps a predicate, the first match stays at its position. -/
theorem find? (h : Extends R as bs) {p : α → Bool} (hp : ∀ a b, R a b → p b = p a) {a : α}
    (hfind : as.find? p = some a) :
    ∃ (i : ℕ) (b : α), as[i]? = some a ∧ bs[i]? = some b ∧ bs.find? p = some b := by
  obtain ⟨ha, i, hi, rfl, hbefore⟩ := List.find?_eq_some_iff_getElem.mp hfind
  obtain ⟨b, hb, hab⟩ := h i _ (List.getElem?_eq_getElem hi)
  obtain ⟨hi', rfl⟩ := List.getElem?_eq_some_iff.mp hb
  refine ⟨i, bs[i], List.getElem?_eq_getElem hi, hb, List.find?_eq_some_iff_getElem.mpr
    ⟨by rw [hp _ _ hab, ha], i, hi', rfl, fun j hj => ?_⟩⟩
  obtain ⟨c, hc, hac⟩ := h j _ (List.getElem?_eq_getElem (hj.trans hi))
  obtain ⟨hj', rfl⟩ := List.getElem?_eq_some_iff.mp hc
  rw [hp _ _ hac]
  exact hbefore j hj

end Extends

end QivenContext.Library
