import Mathlib.Data.List.Induction
import Mathlib.Order.Basic

/-!
# Runs of a partial step function

A step takes a state and an action to an answer and a state, or does not
return. A run records its transitions with the states around them, so that a
statement about a run can name the moment it speaks of. An invariant of a
run is carried by induction on its last transition, together with whatever
the past transitions say.
-/

namespace QivenContext.Library

/-- One action together with its answer and the states around it. -/
structure Transition (σ α β : Type*) where
  before : σ
  action : α
  answer : β
  after : σ

variable {σ α β : Type*}

/-- The transition is one the step function makes. -/
def Transition.Valid (step : σ → α → Option (β × σ)) (tr : Transition σ α β) : Prop :=
  step tr.before tr.action = some (tr.answer, tr.after)

/-- The transitions lead from the first state to the last, one after another. -/
inductive Run (step : σ → α → Option (β × σ)) : σ → List (Transition σ α β) → σ → Prop
  | nil (s : σ) : Run step s [] s
  | cons (tr : Transition σ α β) (rest : List (Transition σ α β)) (t : σ)
      (hvalid : tr.Valid step) (hrest : Run step tr.after rest t) :
      Run step tr.before (tr :: rest) t

namespace Run

variable {step : σ → α → Option (β × σ)} {s t u : σ} {trs trs' : List (Transition σ α β)}

theorem append (h : Run step s trs t) (h' : Run step t trs' u) :
    Run step s (trs ++ trs') u := by
  induction h with
  | nil s => exact h'
  | cons tr rest t hvalid _ ih => exact .cons tr _ u hvalid (ih h')

theorem single {tr : Transition σ α β} (hvalid : tr.Valid step) :
    Run step tr.before [tr] tr.after :=
  .cons tr [] tr.after hvalid (.nil tr.after)

theorem snoc (h : Run step s trs t) {a : α} {b : β} (hstep : step t a = some (b, u)) :
    Run step s (trs ++ [⟨t, a, b, u⟩]) u :=
  h.append (single (show Transition.Valid step ⟨t, a, b, u⟩ from hstep))

theorem nil_inv (h : Run step s [] t) : s = t := by
  cases h
  rfl

theorem cons_inv {tr : Transition σ α β} (h : Run step s (tr :: trs) t) :
    s = tr.before ∧ tr.Valid step ∧ Run step tr.after trs t := by
  cases h with
  | cons _ _ _ hvalid hrest => exact ⟨rfl, hvalid, hrest⟩

theorem append_inv (h : Run step s (trs ++ trs') t) :
    ∃ m, Run step s trs m ∧ Run step m trs' t := by
  induction trs generalizing s with
  | nil => exact ⟨s, .nil s, h⟩
  | cons tr rest ih =>
      obtain ⟨rfl, hvalid, hrest⟩ := h.cons_inv
      obtain ⟨m, hm, hm'⟩ := ih hrest
      exact ⟨m, .cons tr rest m hvalid hm, hm'⟩

theorem snoc_inv {tr : Transition σ α β} (h : Run step s (trs ++ [tr]) t) :
    Run step s trs tr.before ∧ tr.Valid step ∧ tr.after = t := by
  obtain ⟨m, hm, hm'⟩ := h.append_inv
  obtain ⟨rfl, hvalid, hrest⟩ := hm'.cons_inv
  exact ⟨hm, hvalid, hrest.nil_inv⟩

/-- Induction on the last transition of a run. -/
theorem history_induction {motive : List (Transition σ α β) → σ → Prop}
    (h : Run step s trs t) (hnil : motive [] s)
    (hsnoc : ∀ past (tr : Transition σ α β), Run step s past tr.before → tr.Valid step →
      motive past tr.before → motive (past ++ [tr]) tr.after) : motive trs t := by
  induction trs using List.reverseRecOn generalizing t with
  | nil => exact h.nil_inv ▸ hnil
  | append_singleton past tr ih =>
      obtain ⟨hpast, hvalid, rfl⟩ := h.snoc_inv
      exact hsnoc past tr hpast hvalid (ih hpast)

theorem valid_of_mem (h : Run step s trs t) {tr : Transition σ α β} (htr : tr ∈ trs) :
    tr.Valid step := by
  induction h with
  | nil => simp at htr
  | cons _ _ _ hvalid _ ih =>
      rcases List.mem_cons.mp htr with rfl | htr
      · exact hvalid
      · exact ih htr

theorem split_of_getElem? (h : Run step s trs t) {i : ℕ} {tr : Transition σ α β}
    (htr : trs[i]? = some tr) :
    Run step s (trs.take i) tr.before ∧ Run step tr.after (trs.drop (i + 1)) t := by
  have hlt : i < trs.length := (List.getElem?_eq_some_iff.mp htr).1
  have hget : trs[i] = tr := (List.getElem?_eq_some_iff.mp htr).2
  have hsplit : trs = trs.take i ++ tr :: trs.drop (i + 1) := by
    rw [← hget, List.getElem_cons_drop, List.take_append_drop]
  rw [hsplit] at h
  obtain ⟨m, hm, hm'⟩ := h.append_inv
  obtain ⟨rfl, _, hrest⟩ := hm'.cons_inv
  exact ⟨hm, hrest⟩

/-- An invariant of the states of a run, under a condition on its transitions. -/
theorem invariant {P : σ → Prop} {C : Transition σ α β → Prop} (h : Run step s trs t)
    (hC : ∀ tr ∈ trs, C tr) (hinit : P s)
    (hstep : ∀ tr : Transition σ α β, tr.Valid step → C tr → P tr.before → P tr.after) :
    P t := by
  induction h with
  | nil => exact hinit
  | cons tr rest t hvalid _ ih =>
      exact ih (fun x hx => hC x (List.mem_cons_of_mem tr hx))
        (hstep tr hvalid (hC tr List.mem_cons_self) hinit)

/-- A deed that leaves a mark, which stays and which no later deed of the kind
finds, is done at most once in a run. -/
theorem at_most_once {M : σ → Prop} {C D : Transition σ α β → Prop} (h : Run step s trs t)
    (hC : ∀ tr ∈ trs, C tr)
    (hstays : ∀ tr : Transition σ α β, tr.Valid step → C tr → M tr.before → M tr.after)
    (hdoes : ∀ tr : Transition σ α β, tr.Valid step → C tr → D tr →
      ¬ M tr.before ∧ M tr.after) :
    trs.Pairwise fun tr tr' => ¬ (D tr ∧ D tr') := by
  suffices hmarked : (∀ tr ∈ trs, C tr) →
      (trs.Pairwise fun tr tr' => ¬ (D tr ∧ D tr')) ∧ ((∃ tr ∈ trs, D tr) → M t) from
    (hmarked hC).1
  refine h.history_induction (motive := fun trs t => (∀ tr ∈ trs, C tr) →
    (trs.Pairwise fun tr tr' => ¬ (D tr ∧ D tr')) ∧ ((∃ tr ∈ trs, D tr) → M t))
    (fun _ => ⟨.nil, by simp⟩) ?_
  intro past tr _ hvalid ih hC
  obtain ⟨hpairwise, hmark⟩ := ih fun other hother => hC other (List.mem_append_left _ hother)
  have hthis := hC tr (List.mem_append_right _ (List.mem_singleton_self tr))
  constructor
  · refine List.pairwise_append.mpr ⟨hpairwise, List.pairwise_singleton _ _, ?_⟩
    rintro earlier hearlier last hlast ⟨hdid, hagain⟩
    obtain rfl := List.mem_singleton.mp hlast
    exact (hdoes last hvalid hthis hagain).1 (hmark ⟨earlier, hearlier, hdid⟩)
  · rintro ⟨other, hother, hdid⟩
    rcases List.mem_append.mp hother with hother | hother
    · exact hstays tr hvalid hthis (hmark ⟨other, hother, hdid⟩)
    · obtain rfl := List.mem_singleton.mp hother
      exact (hdoes other hvalid hthis hdid).2

/-- What every step can only raise is raised by a run. -/
theorem monotone {γ : Type*} [Preorder γ] (f : σ → γ) (h : Run step s trs t)
    (hstep : ∀ tr : Transition σ α β, tr.Valid step → f tr.before ≤ f tr.after) :
    f s ≤ f t := by
  induction h with
  | nil => exact le_rfl
  | cons tr rest t hvalid _ ih => exact (hstep tr hvalid).trans ih

/-- A system whose every step is a step of another one, or leaves that one alone,
runs as the other does. -/
theorem project {σ' α' β' : Type*} {step' : σ' → α' → Option (β' × σ')} (f : σ → σ')
    (g : Transition σ α β → Option (Transition σ' α' β')) (h : Run step s trs t)
    (hstep : ∀ tr : Transition σ α β, tr.Valid step →
      (g tr = none ∧ f tr.after = f tr.before) ∨
        ∃ tr', g tr = some tr' ∧ tr'.Valid step' ∧ tr'.before = f tr.before ∧
          tr'.after = f tr.after) : Run step' (f s) (trs.filterMap g) (f t) := by
  induction h with
  | nil s => exact .nil (f s)
  | cons tr rest t hvalid _ ih =>
      rcases hstep tr hvalid with ⟨hnone, hsame⟩ | ⟨tr', hsome, hvalid', hbefore, hafter⟩
      · rw [List.filterMap_cons_none hnone, ← hsame]
        exact ih
      · rw [List.filterMap_cons_some hsome, ← hbefore]
        exact .cons tr' _ _ hvalid' (hafter ▸ ih)

end Run

end QivenContext.Library
