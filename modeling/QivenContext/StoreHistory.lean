import QivenContext.Reference
import QivenContext.Library.HashChain
import QivenContext.Library.Transition

/-!
# The history of the in-memory store

The calls of compare-and-swap on the in-memory store, from the empty one. A call
that appends has the head for its base, so the revisions are a hash chain from
the empty id, and an id that the chain gave out is never given out again.
-/

namespace QivenContext.StoreHistory

open Library

structure SwapCall where
  base : RevisionId
  stateBytes : Bytes
  deriving DecidableEq

abbrev Swap := Transition MemoryStore SwapCall StoreReceipt

def Committed (swap : Swap) : Prop := swap.answer.kind = .committed

def Appends (swap : Swap) : Prop := swap.after.revisions ≠ swap.before.revisions

instance : DecidablePred Appends := fun swap =>
  inferInstanceAs (Decidable (swap.after.revisions ≠ swap.before.revisions))

/-- What a swap that appends adds. -/
def entryOf (swap : Swap) : RevisionId × Bytes := (swap.answer.revision, swap.action.stateBytes)

section Runs

variable [Foundation] {swap : Swap} {swaps : List Swap} {t : MemoryStore}

def swapStep (store : MemoryStore) (call : SwapCall) :
    Option (StoreReceipt × MemoryStore) :=
  some (store.compareAndSwap call.base call.stateBytes)

abbrev SwapRun (s : MemoryStore) (swaps : List Swap) (t : MemoryStore) : Prop :=
  Run swapStep s swaps t

/-! ## One swap -/

theorem swap_cases (hvalid : swap.Valid swapStep) :
    (swap.before.revisions ≠ [] ∧ swap.action.base ≠ swap.before.head ∧
      swap.answer.kind = .compareFailed ∧ swap.after = swap.before) ∨
    (swap.action.base = swap.before.head ∧
      swap.before.headBytes = some swap.action.stateBytes ∧ Committed swap ∧
      swap.answer.revision = swap.before.head ∧ swap.after = swap.before) ∨
    ((swap.before.revisions = [] ∨ swap.action.base = swap.before.head) ∧
      swap.before.headBytes ≠ some swap.action.stateBytes ∧ Committed swap ∧
      swap.answer.revision = revisionOf swap.action.base swap.action.stateBytes ∧
      swap.after.revisions = swap.before.revisions ++ [entryOf swap]) := by
  obtain ⟨before, ⟨base, stateBytes⟩, answer, after⟩ := swap
  have hcas : before.compareAndSwap base stateBytes = (answer, after) := Option.some.inj hvalid
  rcases before.compareAndSwap_cases base stateBytes with ⟨hne, hstale, hcase⟩ |
    ⟨hbase, hsame, hcase⟩ | ⟨hbase, hnew, hcase⟩
  · obtain ⟨rfl, rfl⟩ := Prod.mk.inj (hcase.symm.trans hcas)
    exact .inl ⟨hne, hstale, rfl, rfl⟩
  · obtain ⟨rfl, rfl⟩ := Prod.mk.inj (hcase.symm.trans hcas)
    exact .inr (.inl ⟨hbase, hsame, rfl, rfl, rfl⟩)
  · obtain ⟨rfl, rfl⟩ := Prod.mk.inj (hcase.symm.trans hcas)
    exact .inr (.inr ⟨hbase, hnew, rfl, rfl, rfl⟩)

theorem Appends.cases (hvalid : swap.Valid swapStep) (h : Appends swap) :
    (swap.before.revisions = [] ∨ swap.action.base = swap.before.head) ∧ Committed swap ∧
      swap.answer.revision = revisionOf swap.action.base swap.action.stateBytes ∧
      swap.after.revisions = swap.before.revisions ++ [entryOf swap] := by
  rcases swap_cases hvalid with ⟨-, -, -, hafter⟩ | ⟨-, -, -, -, hafter⟩ |
    ⟨hbase, -, hcommitted, hrevision, hafter⟩
  · exact (h (congrArg MemoryStore.revisions hafter)).elim
  · exact (h (congrArg MemoryStore.revisions hafter)).elim
  · exact ⟨hbase, hcommitted, hrevision, hafter⟩

/-- A swap adds its entry at the end, or nothing. -/
theorem revisions_after (hvalid : swap.Valid swapStep) :
    swap.after.revisions =
      swap.before.revisions ++ ([swap].filter fun swap => Appends swap).map entryOf := by
  by_cases happends : Appends swap
  · rw [(happends.cases hvalid).2.2.2]
    simp [happends]
  · simpa [happends] using not_not.mp happends

/-- A swap that commits leaves what it was given under the id that it answers. -/
theorem entry_mem (hvalid : swap.Valid swapStep) (hcommitted : Committed swap) :
    entryOf swap ∈ swap.after.revisions := by
  rcases swap_cases hvalid with ⟨-, -, hfailed, -⟩ | ⟨-, hsame, -, hrevision, hafter⟩ |
    ⟨-, -, -, -, hafter⟩
  · rw [Committed, hfailed] at hcommitted
    simp at hcommitted
  · rw [hafter, entryOf, hrevision]
    exact MemoryStore.head_mem hsame
  · rw [hafter]
    exact List.mem_append_right _ (List.mem_singleton_self _)

/-! ## Runs from the empty store -/

/-- What the swaps of a run appended, in their order. -/
theorem revisions_of_run (hrun : SwapRun default swaps t) :
    t.revisions = (swaps.filter fun swap => Appends swap).map entryOf := by
  refine hrun.history_induction (motive := fun swaps t =>
    t.revisions = (swaps.filter fun swap => Appends swap).map entryOf) rfl ?_
  intro past swap _ hvalid ih
  rw [revisions_after hvalid, ih, List.filter_append, List.map_append]

theorem revisions_extend {s : MemoryStore} (hrun : SwapRun s swaps t) :
    s.revisions <+: t.revisions := by
  induction hrun with
  | nil => exact List.prefix_refl _
  | cons swap rest t hvalid _ ih =>
      rw [revisions_after hvalid] at ih
      exact (List.prefix_append _ _).trans ih

/-- The first swap has the empty base, as in the genesis path. -/
def GenesisFirst (swaps : List Swap) : Prop :=
  ∀ swap, swaps.head? = some swap → swap.action.base = {}

omit [Foundation] in
theorem GenesisFirst.past {past later : List Swap} (h : GenesisFirst (past ++ later)) :
    GenesisFirst past := by
  intro first hfirst
  exact h first (by rw [List.head?_append, hfirst, Option.some_or])

theorem revisions_ne_nil (hrun : SwapRun default swaps t) (hne : swaps ≠ []) :
    t.revisions ≠ [] := by
  obtain ⟨first, rest, rfl⟩ := List.exists_cons_of_ne_nil hne
  obtain ⟨hbefore, hvalid, hrest⟩ := hrun.cons_inv
  have hempty : first.before.revisions = [] := by rw [← hbefore]; rfl
  have hafter : first.after.revisions ≠ [] := by
    rcases swap_cases hvalid with ⟨hfull, -⟩ | ⟨-, hsame, -⟩ | ⟨-, -, -, -, hafter⟩
    · exact (hfull hempty).elim
    · rw [MemoryStore.headBytes_eq_none.mpr hempty] at hsame
      simp at hsame
    · rw [hafter]
      simp
  exact fun hnil => hafter (List.prefix_nil.mp (hnil ▸ revisions_extend hrest))

/-- Every swap that appends has the head for its base. -/
theorem base_of_appends {past later : List Swap} (hpast : SwapRun default past swap.before)
    (hgenesis : GenesisFirst (past ++ swap :: later)) (hvalid : swap.Valid swapStep)
    (happends : Appends swap) : swap.action.base = swap.before.head := by
  rcases (happends.cases hvalid).1 with hempty | hbase
  · -- only the first swap finds the store empty
    have hnil : past = [] := by_contra fun hne => revisions_ne_nil hpast hne hempty
    subst hnil
    rw [hgenesis swap rfl, swap.before.head_eq, hempty]
    rfl
  · exact hbase

/-- The revisions are linked, each by the base and the bytes of a swap of the run. -/
structure Based (swaps : List Swap) (revisions : List (RevisionId × Bytes)) : Prop where
  linked : HashChain.Linked revisionOf {} revisions
  calls : ∀ i entry, revisions[i]? = some entry →
    ∃ swap ∈ swaps, swap.action = ⟨HashChain.baseAt {} revisions i, entry.2⟩

theorem Based.keep {past : List Swap} {revisions : List (RevisionId × Bytes)}
    (h : Based past revisions) (swap : Swap) : Based (past ++ [swap]) revisions where
  linked := h.linked
  calls i entry hi := by
    obtain ⟨earlier, hmem, hearlier⟩ := h.calls i entry hi
    exact ⟨earlier, List.mem_append_left _ hmem, hearlier⟩

theorem Based.append {past : List Swap} (h : Based past swap.before.revisions)
    (hbase : swap.action.base = swap.before.head)
    (hrevision : swap.answer.revision = revisionOf swap.action.base swap.action.stateBytes) :
    Based (past ++ [swap]) (swap.before.revisions ++ [entryOf swap]) := by
  have hlast : HashChain.baseAt {} swap.before.revisions swap.before.revisions.length =
      swap.action.base := by
    rw [HashChain.baseAt_length, hbase, swap.before.head_eq]
  have hentry : entryOf swap = (revisionOf (HashChain.baseAt {} swap.before.revisions
      swap.before.revisions.length) swap.action.stateBytes, swap.action.stateBytes) := by
    rw [hlast, entryOf, hrevision]
  refine ⟨hentry ▸ h.linked.append swap.action.stateBytes, fun i entry hi => ?_⟩
  rcases Nat.lt_trichotomy i swap.before.revisions.length with hlt | rfl | hgt
  · rw [List.getElem?_append_left hlt] at hi
    obtain ⟨earlier, hmem, hearlier⟩ := h.calls i entry hi
    rw [HashChain.baseAt_append (Nat.le_of_lt hlt)]
    exact ⟨earlier, List.mem_append_left _ hmem, hearlier⟩
  · rw [List.getElem?_concat_length] at hi
    obtain rfl := Option.some.inj hi
    rw [HashChain.baseAt_append (Nat.le_refl _), hlast]
    exact ⟨swap, List.mem_append_right _ (List.mem_singleton_self _), rfl⟩
  · rw [List.getElem?_eq_none (by simp; omega)] at hi
    simp at hi

theorem based_of_run (hrun : SwapRun default swaps t) (hgenesis : GenesisFirst swaps) :
    Based swaps t.revisions := by
  have hempty : Based [] (default : MemoryStore).revisions :=
    ⟨HashChain.linked_nil, fun i entry hi => by simp [default] at hi⟩
  refine hrun.history_induction
    (motive := fun swaps t => GenesisFirst swaps → Based swaps t.revisions)
    (fun _ => hempty) ?_ hgenesis
  intro past swap hpast hvalid ih hgenesis
  by_cases happends : Appends swap
  · obtain ⟨-, -, hrevision, hafter⟩ := happends.cases hvalid
    rw [hafter]
    exact (ih hgenesis.past).append (base_of_appends hpast hgenesis hvalid happends) hrevision
  · rw [not_not.mp happends]
    exact (ih hgenesis.past).keep swap

/-- The chained hash does not collide on the pairs of base and bytes of the run. -/
def HashFree (swaps : List Swap) : Prop :=
  ∀ swap ∈ swaps, ∀ other ∈ swaps,
    Foundation.fnv1a64Chain Foundation.fnv1a64OffsetBasis swap.action.base.value
        swap.action.stateBytes =
      Foundation.fnv1a64Chain Foundation.fnv1a64OffsetBasis other.action.base.value
        other.action.stateBytes →
    swap.action = other.action

theorem chain_of_revisionOf {base base' : RevisionId} {stateBytes stateBytes' : Bytes}
    (h : revisionOf base stateBytes = revisionOf base' stateBytes') :
    Foundation.fnv1a64Chain Foundation.fnv1a64OffsetBasis base.value stateBytes =
      Foundation.fnv1a64Chain Foundation.fnv1a64OffsetBasis base'.value stateBytes' := by
  have hvalue := congrArg RevisionId.value h
  exact Foundation.toHexU64_injective (List.append_cancel_left hvalue)

/-- The ids of a run are pairwise different. -/
theorem ids_nodup (hrun : SwapRun default swaps t) (hgenesis : GenesisFirst swaps)
    (hfree : HashFree swaps) : (t.revisions.map Prod.fst).Nodup := by
  obtain ⟨hlinked, hcalls⟩ := based_of_run hrun hgenesis
  refine hlinked.keys_nodup ?_ ?_
  · -- entries with one id were hashed from one pair
    intro i j p q hi hj hsame
    obtain ⟨first, hfirst, hfirst'⟩ := hcalls i p hi
    obtain ⟨second, hsecond, hsecond'⟩ := hcalls j q hj
    have hcall : first.action = second.action := hfree first hfirst second hsecond (by
      rw [hfirst', hsecond']
      exact chain_of_revisionOf hsame)
    rw [hfirst', hsecond'] at hcall
    exact ⟨congrArg SwapCall.base hcall, congrArg SwapCall.stateBytes hcall⟩
  · intro entry hmem
    obtain ⟨i, hi⟩ := List.mem_iff_getElem?.mp hmem
    rw [hlinked i entry hi]
    exact revisionOf_ne_empty _ _

/-! ## The linear history -/

/-- What the calls of a run from the empty store leave behind. -/
structure LinearHistory (swaps : List Swap) (t : MemoryStore) : Prop where
  distinct : swaps.Pairwise fun swap other =>
    Appends swap → Appends other → swap.answer.revision ≠ other.answer.revision
  stale : ∀ swap ∈ swaps, swap.action.base ≠ swap.before.head →
    swap.answer.kind = .compareFailed ∧ swap.after = swap.before
  repeated : ∀ swap ∈ swaps, swap.action.base = swap.before.head →
    swap.before.headBytes = some swap.action.stateBytes →
      Committed swap ∧ swap.answer.revision = swap.before.head ∧ swap.after = swap.before
  appended : ∀ swap ∈ swaps, swap.action.base = swap.before.head →
    swap.before.headBytes ≠ some swap.action.stateBytes →
      Committed swap ∧ swap.after.revisions =
        swap.before.revisions ++ [(swap.answer.revision, swap.action.stateBytes)]
  head : t.head =
    ((swaps.filter fun swap => Appends swap).getLast?.map fun swap => swap.answer.revision).getD {}
  materialize : ∀ swap ∈ swaps, Committed swap →
    t.materialize swap.answer.revision = swap.action.stateBytes
  verify : ∀ revision, t.verify revision = true ↔
    ∃ swap ∈ swaps, Committed swap ∧ swap.answer.revision = revision

theorem stale_of_run (hrun : SwapRun default swaps t) (hgenesis : GenesisFirst swaps)
    (hmem : swap ∈ swaps) (hstale : swap.action.base ≠ swap.before.head) :
    swap.answer.kind = .compareFailed ∧ swap.after = swap.before := by
  obtain ⟨past, later, rfl⟩ := List.append_of_mem hmem
  obtain ⟨_, hpast, hrest⟩ := hrun.append_inv
  obtain ⟨rfl, hvalid, -⟩ := hrest.cons_inv
  rcases swap_cases hvalid with ⟨-, -, hfailed, hafter⟩ | ⟨hbase, -⟩ | ⟨-, -, -, -, hafter⟩
  · exact ⟨hfailed, hafter⟩
  · exact (hstale hbase).elim
  · have happends : Appends swap := by simp [Appends, hafter]
    exact (hstale (base_of_appends hpast hgenesis hvalid happends)).elim

/-- What a call commits is there for every later one. -/
theorem entry_mem_of_run (hrun : SwapRun default swaps t) (hmem : swap ∈ swaps)
    (hcommitted : Committed swap) : entryOf swap ∈ t.revisions := by
  obtain ⟨past, later, rfl⟩ := List.append_of_mem hmem
  obtain ⟨_, -, hrest⟩ := hrun.append_inv
  obtain ⟨rfl, hvalid, hlater⟩ := hrest.cons_inv
  exact (revisions_extend hlater).subset (entry_mem hvalid hcommitted)

omit [Foundation] in
theorem materialize_of_nodup (hnodup : (t.revisions.map Prod.fst).Nodup)
    {entry : RevisionId × Bytes} (hmem : entry ∈ t.revisions) :
    t.materialize entry.1 = entry.2 := by
  have hfound := MemoryStore.materialize_of_mem hmem
  exact congrArg Prod.snd (List.inj_on_of_nodup_map hnodup hfound hmem rfl)

theorem linear_history (hrun : SwapRun default swaps t) (hgenesis : GenesisFirst swaps)
    (hfree : HashFree swaps) : LinearHistory swaps t where
  distinct := by
    have hnodup := ids_nodup hrun hgenesis hfree
    rw [revisions_of_run hrun, List.map_map] at hnodup
    have hpairwise := List.pairwise_filter.mp (List.pairwise_map.mp hnodup)
    simp only [decide_eq_true_eq] at hpairwise
    exact hpairwise
  stale swap hmem := stale_of_run hrun hgenesis hmem
  repeated swap hmem hbase hsame := by
    rcases swap_cases (hrun.valid_of_mem hmem) with ⟨-, hstale, -⟩ | ⟨-, -, hrepeated⟩ |
      ⟨-, hnew, -⟩
    · exact (hstale hbase).elim
    · exact hrepeated
    · exact (hnew hsame).elim
  appended swap hmem hbase hnew := by
    rcases swap_cases (hrun.valid_of_mem hmem) with ⟨-, hstale, -⟩ | ⟨-, hsame, -⟩ |
      ⟨-, -, hcommitted, -, hafter⟩
    · exact (hstale hbase).elim
    · exact (hnew hsame).elim
    · exact ⟨hcommitted, hafter⟩
  head := by
    rw [t.head_eq, revisions_of_run hrun, List.getLast?_map, Option.map_map]
    rfl
  materialize swap hmem hcommitted :=
    materialize_of_nodup (ids_nodup hrun hgenesis hfree) (entry_mem_of_run hrun hmem hcommitted)
  verify revision := by
    rw [MemoryStore.verify, List.any_eq_true]
    constructor
    · rintro ⟨entry, hmem, hrevision⟩
      rw [revisions_of_run hrun] at hmem
      obtain ⟨swap, hswap, rfl⟩ := List.mem_map.mp hmem
      obtain ⟨hswap, happends⟩ := List.mem_filter.mp hswap
      have hcases := Appends.cases (hrun.valid_of_mem hswap) (of_decide_eq_true happends)
      exact ⟨swap, hswap, hcases.2.1, of_decide_eq_true hrevision⟩
    · rintro ⟨swap, hmem, hcommitted, rfl⟩
      exact ⟨entryOf swap, entry_mem_of_run hrun hmem hcommitted, decide_eq_true rfl⟩

/-- The store answers any sequence of calls. -/
theorem exists_swapRun (s : MemoryStore) (calls : List SwapCall) :
    ∃ swaps t, SwapRun s swaps t ∧ swaps.map (fun swap => swap.action) = calls := by
  induction calls generalizing s with
  | nil => exact ⟨[], s, .nil s, rfl⟩
  | cons call calls ih =>
      obtain ⟨swaps, t, hrun, hcalls⟩ := ih (s.compareAndSwap call.base call.stateBytes).2
      let swap : Swap := ⟨s, call, (s.compareAndSwap call.base call.stateBytes).1,
        (s.compareAndSwap call.base call.stateBytes).2⟩
      have hvalid : swap.Valid swapStep := rfl
      exact ⟨swap :: swaps, t, .cons swap swaps t hvalid hrun, by rw [List.map_cons, hcalls]⟩

end Runs

open scoped QivenContext.Reference

/-- Two states in turn, then a call from a stale base and the head's own state again. -/
def returningCalls : List SwapCall :=
  let first := revisionOf {} [1]
  let second := revisionOf first [2]
  let third := revisionOf second [1]
  [⟨{}, [1]⟩, ⟨first, [2]⟩, ⟨second, [1]⟩, ⟨first, [3]⟩, ⟨third, [1]⟩]

theorem returningCalls_linear :
    ∃ swaps t, SwapRun default swaps t ∧ swaps.map (fun swap => swap.action) = returningCalls ∧
      LinearHistory swaps t := by
  obtain ⟨swaps, t, hrun, hcalls⟩ := exists_swapRun default returningCalls
  have hmem (swap : Swap) (hswap : swap ∈ swaps) : swap.action ∈ returningCalls :=
    hcalls ▸ List.mem_map_of_mem hswap
  have hdifferent : ∀ call ∈ returningCalls, ∀ other ∈ returningCalls,
      Foundation.fnv1a64Chain Foundation.fnv1a64OffsetBasis call.base.value call.stateBytes =
        Foundation.fnv1a64Chain Foundation.fnv1a64OffsetBasis other.base.value
          other.stateBytes → call = other := by
    decide +kernel
  refine ⟨swaps, t, hrun, hcalls, linear_history hrun (fun swap hfirst => ?_) ?_⟩
  · have hhead := congrArg List.head? hcalls
    rw [List.head?_map, hfirst] at hhead
    exact congrArg SwapCall.base (Option.some.inj hhead)
  · intro swap hswap other hother
    exact hdifferent _ (hmem swap hswap) _ (hmem other hother)

end QivenContext.StoreHistory
