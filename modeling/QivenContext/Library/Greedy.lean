import Mathlib.Data.List.Basic

/-!
# Greedy selection under a budget

Items are offered in order. One that still fits is kept and its cost is spent,
one that does not fit is passed over, and the selection goes on. A larger
budget may keep an early item that leaves no room for a later one.
-/

namespace QivenContext.Library

variable {α : Type*} {cost : α → ℕ} {budget used : ℕ} {items : List α}

/-- Every item with whether it is kept, given what is spent already. -/
def greedy (cost : α → ℕ) (budget : ℕ) : ℕ → List α → List (α × Bool)
  | _, [] => []
  | used, a :: items =>
      if used + cost a ≤ budget then (a, true) :: greedy cost budget (used + cost a) items
      else (a, false) :: greedy cost budget used items

def kept (marked : List (α × Bool)) : List α :=
  (marked.filter fun mark => mark.2).map Prod.fst

def passedOver (marked : List (α × Bool)) : List α :=
  (marked.filter fun mark => !mark.2).map Prod.fst

def total (cost : α → ℕ) : List α → ℕ
  | [] => 0
  | a :: items => cost a + total cost items

section Simp

variable (a : α) (first second : List α) (marked marked' : List (α × Bool))

@[simp] theorem total_nil : total cost [] = 0 := rfl

@[simp] theorem total_cons : total cost (a :: items) = cost a + total cost items := rfl

@[simp] theorem total_append :
    total cost (first ++ second) = total cost first + total cost second := by
  induction first with
  | nil => simp
  | cons a first ih => simp [ih, Nat.add_assoc]

@[simp] theorem kept_nil : kept ([] : List (α × Bool)) = [] := rfl

@[simp] theorem kept_cons_true : kept ((a, true) :: marked) = a :: kept marked := by
  simp [kept]

@[simp] theorem kept_cons_false : kept ((a, false) :: marked) = kept marked := by
  simp [kept]

@[simp] theorem kept_append : kept (marked ++ marked') = kept marked ++ kept marked' := by
  simp [kept]

@[simp] theorem passedOver_cons_true : passedOver ((a, true) :: marked) = passedOver marked := by
  simp [passedOver]

@[simp] theorem passedOver_cons_false :
    passedOver ((a, false) :: marked) = a :: passedOver marked := by
  simp [passedOver]

@[simp] theorem greedy_nil : greedy cost budget used [] = [] := rfl

end Simp

theorem total_map {β : Type} (cost : β → ℕ) (f : α → β) (items : List α) :
    total cost (items.map f) = total (fun item => cost (f item)) items := by
  induction items with
  | nil => rfl
  | cons item items ih => rw [List.map_cons, total_cons, total_cons, ih]

theorem total_mono {first second : List α} (h : first.Sublist second) :
    total cost first ≤ total cost second := by
  induction h with
  | slnil => exact Nat.le_refl _
  | cons a _ ih =>
      rw [total_cons]
      omega
  | cons_cons a _ ih =>
      rw [total_cons, total_cons]
      omega

/-- No mark is lost, whichever way it fell. -/
theorem kept_append_passedOver_perm (marked : List (α × Bool)) :
    (kept marked ++ passedOver marked).Perm (marked.map Prod.fst) := by
  have hparts := List.filter_append_perm (fun mark : α × Bool => mark.2) marked
  simpa [kept, passedOver] using hparts.map Prod.fst

/-- Every item is marked, in order. -/
@[simp] theorem map_fst_greedy (used : ℕ) (items : List α) :
    (greedy cost budget used items).map Prod.fst = items := by
  induction items generalizing used with
  | nil => rfl
  | cons a items ih =>
      unfold greedy
      split <;> simp [ih]

/-- The budget is never exceeded. -/
theorem total_kept_greedy_le (cost : α → ℕ) (hused : used ≤ budget) (items : List α) :
    used + total cost (kept (greedy cost budget used items)) ≤ budget := by
  induction items generalizing used with
  | nil => simpa using hused
  | cons a items ih =>
      unfold greedy
      split
      · next hfits =>
          rw [kept_cons_true, total_cons, ← Nat.add_assoc]
          exact ih hfits
      · rw [kept_cons_false]
        exact ih hused

/-- An item is kept exactly when it fits after those kept before it. -/
theorem greedy_mark {before after : List (α × Bool)} {a : α} {keep : Bool}
    (h : greedy cost budget used items = before ++ (a, keep) :: after) :
    keep = true ↔ used + total cost (kept before) + cost a ≤ budget := by
  induction items generalizing used before with
  | nil => simp at h
  | cons b items ih =>
      unfold greedy at h
      cases before with
      | nil =>
          split at h
          · next hfits =>
              simp only [List.nil_append, List.cons.injEq, Prod.mk.injEq] at h
              obtain ⟨⟨rfl, rfl⟩, -⟩ := h
              simpa using hfits
          · next hfits =>
              simp only [List.nil_append, List.cons.injEq, Prod.mk.injEq] at h
              obtain ⟨⟨rfl, rfl⟩, -⟩ := h
              simpa using hfits
      | cons mark before =>
          split at h <;>
            · rw [List.cons_append, List.cons.injEq] at h
              obtain ⟨rfl, h⟩ := h
              simpa [Nat.add_assoc] using ih h

/-! ## Two budgets -/

/-- The items that only the second of two markings keeps. -/
def gained (small large : List (α × Bool)) : List α :=
  ((small.zip large).filter fun marks => !marks.1.2 && marks.2.2).map fun marks => marks.2.1

theorem total_kept_le_gained (cost : α → ℕ) {small large : List (α × Bool)}
    (hsame : small.map Prod.fst = large.map Prod.fst) :
    total cost (kept large) ≤ total cost (kept small) + total cost (gained small large) := by
  induction small generalizing large with
  | nil =>
      have hnil : large = [] := by simpa using hsame.symm
      simp [hnil]
  | cons mark small ih =>
      cases large with
      | nil => simp at hsame
      | cons mark' large =>
          obtain ⟨a, keep⟩ := mark
          obtain ⟨a', keep'⟩ := mark'
          simp only [List.map_cons, List.cons.injEq] at hsame
          obtain ⟨rfl, hsame⟩ := hsame
          have ih := ih hsame
          unfold gained at ih ⊢
          cases keep <;> cases keep' <;> simp <;> omega

/-- What a smaller budget keeps a larger one keeps too, unless what it kept
before in addition costs more than the difference. -/
theorem greedy_mark_mono {small large : ℕ} (hle : small ≤ large)
    {before before' after after' : List (α × Bool)} {a a' : α} {keep : Bool}
    (hsmall : greedy cost small used items = before ++ (a, true) :: after)
    (hlarge : greedy cost large used items = before' ++ (a', keep) :: after')
    (hlength : before.length = before'.length)
    (hgained : total cost (gained before before') ≤ large - small) : a' = a ∧ keep = true := by
  have hitems : before.map Prod.fst ++ a :: after.map Prod.fst =
      before'.map Prod.fst ++ a' :: after'.map Prod.fst := by
    calc before.map Prod.fst ++ a :: after.map Prod.fst
        = (greedy cost small used items).map Prod.fst := by simp [hsmall]
      _ = (greedy cost large used items).map Prod.fst := by simp
      _ = before'.map Prod.fst ++ a' :: after'.map Prod.fst := by simp [hlarge]
  obtain ⟨hbefore, hrest⟩ := List.append_inj hitems (by simpa using hlength)
  obtain ⟨rfl, -⟩ := List.cons.inj hrest
  have hfits := (greedy_mark hsmall).mp rfl
  have hspent := total_kept_le_gained cost hbefore
  exact ⟨rfl, (greedy_mark hlarge).mpr (by omega)⟩

theorem kept_greedy_sublist {small large used' : ℕ} (hle : small ≤ large)
    (hgained : used' + total cost (gained (greedy cost small used items)
      (greedy cost large used' items)) ≤ used + (large - small)) :
    (kept (greedy cost small used items)).Sublist (kept (greedy cost large used' items)) := by
  induction items generalizing used used' with
  | nil => simp
  | cons a items ih =>
      unfold greedy at hgained ⊢
      by_cases hsmall : used + cost a ≤ small
      · have hlarge : used' + cost a ≤ large := by omega
        rw [if_pos hsmall, if_pos hlarge] at hgained ⊢
        rw [kept_cons_true, kept_cons_true]
        refine (ih ?_).cons_cons a
        simp only [gained, List.zip_cons_cons, Bool.not_true, Bool.false_and, List.filter_cons,
          Bool.false_eq_true, if_false] at hgained ⊢
        omega
      · rw [if_neg hsmall] at hgained ⊢
        by_cases hlarge : used' + cost a ≤ large
        · rw [if_pos hlarge] at hgained ⊢
          rw [kept_cons_false, kept_cons_true]
          refine (ih ?_).cons a
          simp only [gained, List.zip_cons_cons, Bool.not_false, Bool.and_self, List.filter_cons,
            if_true, List.map_cons, total_cons] at hgained ⊢
          omega
        · rw [if_neg hlarge] at hgained ⊢
          rw [kept_cons_false, kept_cons_false]
          refine ih ?_
          simpa [gained] using hgained

end QivenContext.Library
