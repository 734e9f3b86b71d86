import Mathlib.Data.List.Nodup

/-!
# Append-only hash chains

A chain is a list of entries, each keyed by the link of the key before it and
its own payload. When the link does not collide on the pairs the chain itself
hashed, and the root is no entry's key, the keys are pairwise different: two
equal keys have equal predecessors, and the descent ends at the root.
-/

namespace QivenContext.Library.HashChain

variable {K V : Type}

/-- The key that entry `i` is linked to: the root, then the entry before it. -/
def baseAt (root : K) (chain : List (K × V)) : ℕ → K
  | 0 => root
  | i + 1 => (chain[i]?.map Prod.fst).getD root

/-- Every key is the link of its base and its payload. -/
def Linked (link : K → V → K) (root : K) (chain : List (K × V)) : Prop :=
  ∀ i entry, chain[i]? = some entry → entry.1 = link (baseAt root chain i) entry.2

/-- The link does not collide on the pairs this chain hashed. -/
def CollisionFree (link : K → V → K) (root : K) (chain : List (K × V)) : Prop :=
  ∀ i j p q, chain[i]? = some p → chain[j]? = some q →
    link (baseAt root chain i) p.2 = link (baseAt root chain j) q.2 →
      baseAt root chain i = baseAt root chain j ∧ p.2 = q.2

variable {link : K → V → K} {root : K} {chain : List (K × V)}

@[simp] theorem baseAt_zero : baseAt root chain 0 = root := rfl

theorem baseAt_succ {i : ℕ} {entry : K × V} (h : chain[i]? = some entry) :
    baseAt root chain (i + 1) = entry.1 := by
  simp [baseAt, h]

theorem baseAt_append {tail : List (K × V)} {i : ℕ} (h : i ≤ chain.length) :
    baseAt root (chain ++ tail) i = baseAt root chain i := by
  cases i with
  | zero => rfl
  | succ i => simp [baseAt, List.getElem?_append_left (Nat.lt_of_succ_le h)]

theorem baseAt_length :
    baseAt root chain chain.length = (chain.getLast?.map Prod.fst).getD root := by
  cases hn : chain.length with
  | zero => simp [List.length_eq_zero_iff.mp hn]
  | succ n => simp [baseAt, List.getLast?_eq_getElem?, hn]

theorem exists_before {i : ℕ} {entry : K × V} (h : chain[i + 1]? = some entry) :
    ∃ before, chain[i]? = some before := by
  have hlt : i + 1 < chain.length := (List.getElem?_eq_some_iff.mp h).1
  exact ⟨_, List.getElem?_eq_getElem (Nat.lt_of_succ_lt hlt)⟩

theorem linked_nil : Linked link root ([] : List (K × V)) := by
  intro i entry h
  simp at h

theorem Linked.append (h : Linked link root chain) (v : V) :
    Linked link root (chain ++ [(link (baseAt root chain chain.length) v, v)]) := by
  intro i entry hi
  rcases Nat.lt_trichotomy i chain.length with hlt | rfl | hgt
  · rw [List.getElem?_append_left hlt] at hi
    rw [baseAt_append (Nat.le_of_lt hlt)]
    exact h i entry hi
  · simp only [List.getElem?_concat_length, Option.some.injEq] at hi
    subst hi
    rw [baseAt_append (Nat.le_refl _)]
  · rw [List.getElem?_eq_none (by simp; omega)] at hi
    simp at hi

theorem Linked.of_append {tail : List (K × V)} (h : Linked link root (chain ++ tail)) :
    Linked link root chain := by
  intro i entry hi
  have hlt : i < chain.length := (List.getElem?_eq_some_iff.mp hi).1
  have happ := h i entry (by rw [List.getElem?_append_left hlt, hi])
  rwa [baseAt_append (Nat.le_of_lt hlt)] at happ

theorem CollisionFree.of_append {tail : List (K × V)}
    (h : CollisionFree link root (chain ++ tail)) : CollisionFree link root chain := by
  intro i j p q hi hj heq
  have hlti : i < chain.length := (List.getElem?_eq_some_iff.mp hi).1
  have hltj : j < chain.length := (List.getElem?_eq_some_iff.mp hj).1
  have happ := h i j p q (by rw [List.getElem?_append_left hlti, hi])
    (by rw [List.getElem?_append_left hltj, hj])
  rw [baseAt_append (Nat.le_of_lt hlti), baseAt_append (Nat.le_of_lt hltj)] at happ
  exact happ heq

theorem position_unique (hlink : Linked link root chain)
    (hfree : CollisionFree link root chain) (hroot : ∀ entry ∈ chain, entry.1 ≠ root)
    {i j : ℕ} {p q : K × V} (hi : chain[i]? = some p) (hj : chain[j]? = some q)
    (hkey : p.1 = q.1) : i = j := by
  induction i generalizing j p q with
  | zero =>
      have hbase := (hfree 0 j p q hi hj (by rw [← hlink 0 p hi, ← hlink j q hj, hkey])).1
      cases j with
      | zero => rfl
      | succ j =>
          obtain ⟨r, hr⟩ := exists_before hj
          rw [baseAt_succ hr] at hbase
          exact (hroot r (List.mem_of_getElem? hr) hbase.symm).elim
  | succ i ih =>
      have hbase := (hfree (i + 1) j p q hi hj
        (by rw [← hlink (i + 1) p hi, ← hlink j q hj, hkey])).1
      obtain ⟨r, hr⟩ := exists_before hi
      rw [baseAt_succ hr] at hbase
      cases j with
      | zero => exact (hroot r (List.mem_of_getElem? hr) hbase).elim
      | succ j =>
          obtain ⟨t, ht⟩ := exists_before hj
          rw [baseAt_succ ht] at hbase
          rw [ih hr ht hbase]

theorem Linked.keys_nodup (hlink : Linked link root chain)
    (hfree : CollisionFree link root chain) (hroot : ∀ entry ∈ chain, entry.1 ≠ root) :
    (chain.map Prod.fst).Nodup := by
  refine List.nodup_iff_getElem?_ne_getElem?.mpr fun i j hij hlt hsame => ?_
  rw [List.length_map] at hlt
  have hj := List.getElem?_eq_getElem hlt
  have hi := List.getElem?_eq_getElem (Nat.lt_trans hij hlt)
  rw [List.getElem?_map, List.getElem?_map, hi, hj] at hsame
  have heq := position_unique hlink hfree hroot hi hj (Option.some.inj hsame)
  omega

/-- A chain whose keys are pairwise different has no collision. -/
theorem Linked.collisionFree (hlink : Linked link root chain)
    (hnodup : (chain.map Prod.fst).Nodup) : CollisionFree link root chain := by
  intro i j p q hi hj heq
  have hkey : p.1 = q.1 := by rw [hlink i p hi, hlink j q hj, heq]
  have hlt : i < (chain.map Prod.fst).length := by
    rw [List.length_map]
    exact (List.getElem?_eq_some_iff.mp hi).1
  have hij : i = j := (List.getElem?_inj hlt hnodup).mp (by
    rw [List.getElem?_map, List.getElem?_map, hi, hj, Option.map_some, Option.map_some, hkey])
  subst hij
  rw [hi] at hj
  obtain rfl := Option.some.inj hj
  exact ⟨rfl, rfl⟩

end QivenContext.Library.HashChain
