import QivenContext.Bundle
import QivenContext.Chain
import QivenContext.Emptied

/-!
# Views

The references of a view are checked against the snapshot that its writer
holds. Profiles are never removed, so they still resolve in what the
transaction leaves and in every later snapshot.
-/

namespace QivenContext

open Library Snapshot ServiceState

/-- The view has references, without repetition, and each names a profile. -/
structure Resolves (snapshot : Snapshot) (view : ViewSpec) : Prop where
  nonempty : view.profileRefs ≠ []
  nodup : view.profileRefs.Nodup
  named : ∀ ref ∈ view.profileRefs, ∃ profile ∈ snapshot.profiles, profile.id = ref

def ViewsResolve (snapshot : Snapshot) : Prop :=
  ∀ view ∈ snapshot.views, Resolves snapshot view

theorem findProfile_ne_none {snapshot : Snapshot} {ref : Str} :
    findProfile snapshot ref ≠ none ↔ ∃ profile ∈ snapshot.profiles, profile.id = ref := by
  simp [findProfile, List.find?_eq_none]

theorem Resolves.mono {snapshot next : Snapshot} {view : ViewSpec} (h : Resolves snapshot view)
    (hprofiles : ∀ profile ∈ snapshot.profiles, profile ∈ next.profiles) :
    Resolves next view where
  nonempty := h.nonempty
  nodup := h.nodup
  named ref href := by
    obtain ⟨profile, hmem, hid⟩ := h.named ref href
    exact ⟨profile, hprofiles profile hmem, hid⟩

/-- Where the views resolve, a view is found under its id or not at all. -/
theorem ViewsResolve.resolveView {handle : Materialization} (h : ViewsResolve handle.state)
    (viewId : Str) :
    (∃ view, view.id = viewId ∧ resolveView handle viewId = (some view, .none)) ∨
      resolveView handle viewId = (none, .notFound) := by
  unfold QivenContext.resolveView
  cases hfind : handle.state.views.find? fun view => view.id = viewId with
  | none => exact .inr rfl
  | some view =>
      have hresolves := h view (List.mem_of_find?_eq_some hfind)
      have hid : view.id = viewId := by simpa using List.find?_some hfind
      have hnamed : ¬ ∃ ref ∈ view.profileRefs, findProfile handle.state ref = none := by
        rintro ⟨ref, href, hnone⟩
        exact findProfile_ne_none.mpr (hresolves.named ref href) hnone
      refine .inl ⟨view, hid, ?_⟩
      dsimp only
      rw [if_neg (mt List.isEmpty_iff.mp hresolves.nonempty), if_neg hnamed]

/-! ## The apply loop -/

section Apply

variable {current : Snapshot} {transaction : ContextTransaction}

theorem profiles_subset_applyOperations :
    ∀ profile ∈ current.profiles, profile ∈ (applyOperations transaction current).profiles := by
  refine applyOperations_preserves (P := fun next =>
    ∀ profile ∈ current.profiles, profile ∈ next.profiles) (fun _ hmem => hmem) ?_
  intro operation _ next hnext profile hmem
  rw [applyOperation_profiles]
  split
  · exact List.mem_append_left _ (hnext profile hmem)
  · exact hnext profile hmem

/-- The views that a transaction leaves resolve in the snapshot it was checked
against. -/
theorem resolves_applyOperations (h : ViewsResolve current)
    (hgates : ∀ operation ∈ transaction.operations, invariantGate current operation = .ok ()) :
    ∀ view ∈ (applyOperations transaction current).views, Resolves current view := by
  refine applyOperations_preserves (P := fun next => ∀ view ∈ next.views, Resolves current view)
    h ?_
  intro operation hmem next hnext
  rw [applyOperation_views]
  split
  · next hkind =>
      split
      · exact fun view hview => hnext view (List.mem_of_mem_filter hview)
      · obtain ⟨hne, hresolve, hnodup⟩ := amendViewSpec_passed (hgates operation hmem) hkind
        exact forall_mem_append_singleton hnext
          ⟨hne, hnodup, fun ref href => findProfile_ne_none.mp (hresolve ref href)⟩
  · exact hnext

theorem viewsResolve_applyOperations (h : ViewsResolve current)
    (hgates : ∀ operation ∈ transaction.operations, invariantGate current operation = .ok ()) :
    ViewsResolve (applyOperations transaction current) := fun view hview =>
  (resolves_applyOperations h hgates view hview).mono profiles_subset_applyOperations

end Apply

/-! ## Whole runs -/

/-- Along a run whose committing writes keep every count and length below
`2 ^ 32`, the views of every committed snapshot resolve, and so do those of
every authoritative handle that was ever given out. -/
theorem committed_viewsResolve [Foundation] {σ : Type} [MemoryBacked σ] {t : ServiceState σ}
    {trs : List (ServiceTransition σ)} {store : σ}
    (hempty : (MemoryBacked.memory store).revisions = [])
    (hrun : ServiceRun (ServiceState.start store) trs t) (hsized : SizedRun (2 ^ 32 - 1) trs) :
    (∀ snapshot, Committed trs snapshot → ViewsResolve snapshot) ∧
      ∀ tr ∈ trs, ∀ m ∈ tr.after.live, m.quarantine = .promoted → ∀ viewId,
        (∃ view, view.id = viewId ∧ resolveView m viewId = (some view, .none)) ∨
          resolveView m viewId = (none, .notFound) := by
  obtain ⟨-, hrooted, hcommitted⟩ := rooted_of_sizedRun (Q := ViewsResolve) (by norm_num)
    (by norm_num) hempty hrun hsized (by simp [ViewsResolve, makeGenesis])
    (fun _ h view hview => ⟨(h view hview).nonempty, (h view hview).nodup, (h view hview).named⟩)
    (by
      intro tr htr actor transaction entry next hcommits hentry
      obtain ⟨hgates, rfl⟩ := hcommits.gates
      exact viewsResolve_applyOperations hentry hgates)
  refine ⟨fun snapshot hsnapshot => (hcommitted snapshot hsnapshot).own, ?_⟩
  intro tr htr m hm hpromoted viewId
  exact ((hrooted tr htr).2.live m hm hpromoted).own.resolveView viewId

/-! ## A view of a profile, and a view of nothing -/

section Viewed

open scoped QivenContext.Reference

def profileOne : Operation where
  kind := .upsertProfile
  scope := lit "kind"
  title := lit "profile"
  payload := lit "summary"

def viewOne : Operation where
  kind := .amendViewSpec
  scope := lit "agent:human"
  title := lit "view"
  provenanceRef := lit "profile"

def profiledWorld : Snapshot := { makeGenesis with profiles := [declaredProfile profileOne] }

theorem room_profileOne : Room 100000 makeGenesis [profileOne] :=
  ⟨by decide, by decide, by decide, by decide, by decide, by decide, by decide, by decide,
    by decide⟩

theorem room_viewOne : Room 100000 profiledWorld [viewOne] :=
  ⟨by decide, by decide, by decide, by decide, by decide, by decide, by decide, by decide,
    by decide⟩

/-- The profile is declared, and then the view is made of it. -/
theorem exists_viewed :
    ∃ trs s m t m' u m'', ServiceRun (ServiceState.start ({} : MemoryStore)) trs s ∧
      NoWrites trs ∧ m.state = makeGenesis ∧
      OnHead.Wrote s m { base := m.revision, operations := [profileOne] } t m' ∧
      m'.state = profiledWorld ∧
      OnHead.Wrote t m' { base := m'.revision, operations := [viewOne] } u m'' := by
  obtain ⟨trs, s, m, hrun, honHead, hstate, -, -, -, -, hnone⟩ := exists_onHead
  obtain ⟨t, m', hprofiled, hstate'⟩ := honHead.write_plain hstate genesis_quiet [profileOne]
    profiledWorld (List.cons_ne_nil _ _) (by decide) (by decide) (by decide) rfl
  obtain ⟨u, m'', hviewed, -⟩ := hprofiled.onHead.write_plain hstate'
    ⟨rfl, by simp [profiledWorld, makeGenesis], rfl⟩ [viewOne] _
    (List.cons_ne_nil _ _) (by decide) (by decide) (by decide) rfl
  exact ⟨trs, s, m, t, m', u, m'', hrun, hnone, hstate, hprofiled, hstate', hviewed⟩

theorem short_profileOne (base : RevisionId) :
    ShortTransaction { base := base, operations := [profileOne] } := by
  refine ⟨short_nil, fun operation hmem => ?_⟩
  obtain rfl := List.mem_singleton.mp hmem
  exact ⟨by decide, by decide, by decide, by decide⟩

theorem short_viewOne (base : RevisionId) :
    ShortTransaction { base := base, operations := [viewOne] } := by
  refine ⟨short_nil, fun operation hmem => ?_⟩
  obtain rfl := List.mem_singleton.mp hmem
  exact ⟨by decide, by decide, by decide, by decide⟩

theorem viewed_resolves :
    ∃ (trs : List (ServiceTransition MemoryStore)) (t : ServiceState MemoryStore)
      (snapshot : Snapshot), ServiceRun (ServiceState.start {}) trs t ∧
        Committed trs snapshot ∧ snapshot.views ≠ [] ∧
        (∀ snapshot, Committed trs snapshot → ViewsResolve snapshot) := by
  obtain ⟨trs, s, m, t, m', u, m'', hrun, hnone, hstate, hprofiled, hstate', hviewed⟩ :=
    exists_viewed
  have hrun' := hviewed.run (hprofiled.run hrun)
  have hviews : m''.state.views ≠ [] := by
    rw [hviewed.state, hstate']
    exact List.cons_ne_nil _ _
  refine ⟨_, u, m''.state, hrun', hviewed.committed_last _, hviews,
    (committed_viewsResolve rfl hrun' ?_).1⟩
  exact hviewed.forall_commits (hprofiled.forall_commits hnone.forall_commits
    ⟨(short_profileOne _).stored, hstate ▸ room_profileOne.mono (by norm_num)⟩)
    ⟨(short_viewOne _).stored, hstate' ▸ room_viewOne.mono (by norm_num)⟩

theorem afterCurrent_genesis_short : short (afterCurrent makeGenesis) := by
  decide +kernel

/-- The text is booted as a view whose references name no profile, and the next
write commits it. -/
theorem emptied_view_committed :
    ∃ (trs : List (ServiceTransition MemoryStore)) (t : ServiceState MemoryStore)
      (m : Materialization) (snapshot : Snapshot), ServiceRun (ServiceState.start {}) trs t ∧
        (∃ tr ∈ trs, m ∈ tr.after.live) ∧ m.quarantine = .promoted ∧
        (∃ viewId, resolveView m viewId = (none, .invalidRefs)) ∧
        Committed trs snapshot ∧ ¬ ViewsResolve snapshot := by
  obtain ⟨byte, trs, s, m, t, m', u, m'', hrun, -, -, hwrote, hstep, -, honHead, hstate⟩ :=
    exists_emptied (fun base byte => updateState base (emptyingText byte makeGenesis))
      genesis_stringsShort (genesis_vectorsWithin (by norm_num)) afterCurrent_genesis_short rfl (by
      intro s m byte honHead hstate
      exact honHead.writeState hstate genesis_quiet (emptyingText_ne_nil _ _))
  obtain ⟨v, last, hwrote', hstate'⟩ := honHead.writeAll
    (hstate ▸ ⟨rfl, by simp [emptied], rfl⟩) [⟨[1], [1]⟩] (List.cons_ne_nil _ _) (by
      intro record hmem
      obtain rfl := List.mem_singleton.mp hmem
      exact ⟨List.cons_ne_nil _ _, List.cons_ne_nil _ _⟩)
  refine ⟨_, v, m'', last.state, hwrote'.run ((hwrote.run hrun).snoc hstep),
    ⟨_, List.mem_append_left _ (List.mem_append_right _ (List.mem_singleton_self _)),
      honHead.live⟩, honHead.promoted, ⟨[byte], ?_⟩, hwrote'.committed_last _, ?_⟩
  · rw [resolveView, hstate]
    simp [emptied, openView, findProfile]
  · intro hresolve
    have hview : openView byte makeGenesis ∈ last.state.views := by
      rw [hstate', hstate]
      exact List.mem_singleton_self _
    obtain ⟨profile, hmem, -⟩ := (hresolve _ hview).named emptyFill List.mem_cons_self
    rw [hstate', hstate] at hmem
    exact List.not_mem_nil hmem

end Viewed

end QivenContext
