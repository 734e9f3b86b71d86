import QivenContext.Library.Layered
import Mathlib.Data.Finset.Card

/-!
# Depth-first search without a memory

A search that does not remember where it has been answers reachability
wherever it answers at all. On a finite graph without cycles it does answer:
the nodes on the path to where it stands are all different.
-/

namespace QivenContext.Library

/-! ## The first success in a list, where a test may not return -/

section AnyM

variable {α β : Type*} {f : α → Option Bool} {l : List α}

theorem anyM_cons (a : α) (l : List α) :
    (a :: l).anyM f = (f a).bind fun found => if found then some true else l.anyM f := by
  rw [List.anyM]
  refine congrArg (Option.bind (f a)) (funext fun found => ?_)
  cases found <;> rfl

theorem exists_of_anyM_true (h : l.anyM f = some true) : ∃ a ∈ l, f a = some true := by
  induction l with
  | nil => simp [List.anyM] at h
  | cons a l ih =>
      rw [anyM_cons] at h
      obtain ⟨found, hfound, h⟩ := Option.bind_eq_some_iff.mp h
      cases found with
      | true => exact ⟨a, List.mem_cons_self, hfound⟩
      | false =>
          obtain ⟨b, hmem, hb⟩ := ih h
          exact ⟨b, List.mem_cons_of_mem a hmem, hb⟩

theorem forall_of_anyM_false (h : l.anyM f = some false) : ∀ a ∈ l, f a = some false := by
  induction l with
  | nil => simp
  | cons a l ih =>
      rw [anyM_cons] at h
      obtain ⟨found, hfound, h⟩ := Option.bind_eq_some_iff.mp h
      cases found with
      | true => simp at h
      | false => exact List.forall_mem_cons.mpr ⟨hfound, ih h⟩

theorem exists_anyM (h : ∀ a ∈ l, ∃ found, f a = some found) : ∃ found, l.anyM f = some found := by
  induction l with
  | nil => exact ⟨false, rfl⟩
  | cons a l ih =>
      obtain ⟨⟨found, hfound⟩, hrest⟩ := List.forall_mem_cons.mp h
      rw [anyM_cons, hfound, Option.bind_some]
      cases found with
      | true => exact ⟨true, rfl⟩
      | false => exact ih hrest

theorem anyM_filterMap (g : β → Option α) (l : List β) :
    (l.filterMap g).anyM f = l.anyM fun b => (g b).elim (some false) f := by
  induction l with
  | nil => rfl
  | cons b l ih =>
      cases hb : g b with
      | none => rw [List.filterMap_cons_none hb, anyM_cons, hb, ih]; rfl
      | some a => rw [List.filterMap_cons_some hb, anyM_cons, anyM_cons, hb, ih]; rfl

/-- What the tests that return say is enough, for the list as for each of its elements. -/
theorem anyM_of_returns {f' : α → Option Bool} {found : Bool} (h : l.anyM f = some found)
    (hreturns : ∀ a ∈ l, ∀ found, f a = some found → f' a = some found) :
    l.anyM f' = some found := by
  induction l with
  | nil => exact h
  | cons a l ih =>
      rw [anyM_cons] at h ⊢
      obtain ⟨first, hfirst, h⟩ := Option.bind_eq_some_iff.mp h
      rw [hreturns a List.mem_cons_self first hfirst, Option.bind_some]
      cases first with
      | true => exact h
      | false => exact ih h fun b hb => hreturns b (List.mem_cons_of_mem a hb)

end AnyM

/-! ## The search -/

variable {α : Type*} {next : α → List α} {hit : α → Bool} {a : α} {depth : ℕ}

/-- There is no answer where the depth runs out. -/
def search (next : α → List α) (hit : α → Bool) : ℕ → α → Option Bool
  | 0, _ => none
  | depth + 1, a => if hit a then some true else (next a).anyM (search next hit depth)

/-- The search has a hit ahead. -/
def Hits (next : α → List α) (hit : α → Bool) (a : α) : Prop :=
  ∃ b, Relation.ReflTransGen (fun x y => y ∈ next x) a b ∧ hit b = true

theorem hits_iff : Hits next hit a ↔ hit a = true ∨ ∃ b ∈ next a, Hits next hit b := by
  constructor
  · rintro ⟨c, hreach, hc⟩
    rcases hreach.cases_head with rfl | ⟨b, hab, hbc⟩
    · exact .inl hc
    · exact .inr ⟨b, hab, c, hbc, hc⟩
  · rintro (ha | ⟨b, hab, c, hbc, hc⟩)
    · exact ⟨a, .refl, ha⟩
    · exact ⟨c, hbc.head hab, hc⟩

/-- An answer is right, whatever the graph. -/
theorem search_right {found : Bool} (h : search next hit depth a = some found) :
    found = true ↔ Hits next hit a := by
  induction depth generalizing a found with
  | zero => simp [search] at h
  | succ depth ih =>
      rw [search] at h
      split at h
      · next ha =>
          obtain rfl := Option.some.inj h
          exact iff_of_true rfl (hits_iff.mpr (.inl ha))
      · next ha =>
          rw [hits_iff, or_iff_right ha]
          cases found with
          | true =>
              obtain ⟨b, hmem, hb⟩ := exists_of_anyM_true h
              exact iff_of_true rfl ⟨b, hmem, (ih hb).mp rfl⟩
          | false =>
              refine iff_of_false Bool.false_ne_true ?_
              rintro ⟨b, hmem, hits⟩
              exact Bool.false_ne_true ((ih (forall_of_anyM_false h b hmem)).mpr hits)

theorem search_succ {found : Bool} (h : search next hit depth a = some found) :
    search next hit (depth + 1) a = some found := by
  induction depth generalizing a found with
  | zero => simp [search] at h
  | succ depth ih =>
      rw [search] at h ⊢
      split
      · next ha => rwa [if_pos ha] at h
      · next ha =>
          rw [if_neg ha] at h
          exact anyM_of_returns h fun b _ first => ih

theorem search_mono {found : Bool} {deeper : ℕ} (h : search next hit depth a = some found)
    (hle : depth ≤ deeper) : search next hit deeper a = some found := by
  induction hle with
  | refl => exact h
  | step _ ih => exact search_succ ih

/-- Without cycles the path never comes back: each step uses up a node. -/
theorem search_answers (hacyclic : Acyclic fun x y => y ∈ next x) {nodes : Finset α}
    (hclosed : ∀ x ∈ nodes, ∀ y ∈ next x, y ∈ nodes) (ha : a ∈ nodes)
    (hdepth : nodes.card ≤ depth) : ∃ found, search next hit depth a = some found := by
  classical
  -- the path holds the nodes above, each of which leads to where the search stands
  suffices hpath : ∀ (depth : ℕ) (path : Finset α) (a : α), a ∈ nodes →
      (∀ x ∈ path, Relation.TransGen (fun x y => y ∈ next x) x a) →
      (nodes \ path).card ≤ depth → ∃ found, search next hit depth a = some found from
    hpath depth ∅ a ha (by simp) (by simpa using hdepth)
  intro depth
  induction depth with
  | zero =>
      intro path a ha hpath hdepth
      have hempty : nodes \ path = ∅ := Finset.card_eq_zero.mp (Nat.le_zero.mp hdepth)
      have hmem : a ∈ path := Finset.sdiff_eq_empty_iff_subset.mp hempty ha
      exact (hacyclic a (hpath a hmem)).elim
  | succ depth ih =>
      intro path a ha hpath hdepth
      rw [search]
      split
      · exact ⟨true, rfl⟩
      · refine exists_anyM fun b hb => ih (insert a path) b (hclosed a ha b hb) ?_ ?_
        · intro x hx
          rcases Finset.mem_insert.mp hx with rfl | hx
          · exact .single hb
          · exact (hpath x hx).tail hb
        · have hfresh : a ∈ nodes \ path :=
            Finset.mem_sdiff.mpr ⟨ha, fun hmem => hacyclic a (hpath a hmem)⟩
          rw [Finset.sdiff_insert, Finset.card_erase_of_mem hfresh]
          omega

end QivenContext.Library
