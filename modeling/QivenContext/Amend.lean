import QivenContext.Ids
import QivenContext.ViewRefs

/-!
# Amended views

An amendment appends a view, unless it retires one. Only the value 0 of the
byte that tells them apart is checked against the ids there are, and only
against those before the transaction; the resolver takes the first view with
the id. So an id may stand twice, and the amended view is not the one found.
-/

namespace QivenContext

open Library Snapshot ServiceState

def Operation.Retires (operation : Operation) (id : ContentId) : Prop :=
  operation.kind = .amendViewSpec ∧ operation.aux = 1 ∧ operation.title = id

def Operation.Amends (operation : Operation) (id : ContentId) : Prop :=
  operation.kind = .amendViewSpec ∧ operation.aux ≠ 1 ∧ operation.title = id

/-- An id is amended while it does not stand, or retired again after that. -/
def AmendsFresh (ids : List ContentId) (operations : List Operation) : Prop :=
  ∀ id past operation rest, operations = past ++ operation :: rest → operation.Amends id →
    (∀ later ∈ rest, ¬ later.Retires id) → id ∉ standingViews ids past

section Standing

variable {ids : List ContentId} {id : ContentId} {operations past : List Operation}
  {operation : Operation}

theorem not_mem_amendIds (h : operation.Retires id) : id ∉ amendIds ids operation := by
  obtain ⟨hkind, haux, htitle⟩ := h
  simp [amendIds, hkind, haux, htitle]

theorem amendIds_of_amends (h : operation.Amends id) : amendIds ids operation = ids ++ [id] := by
  obtain ⟨hkind, haux, htitle⟩ := h
  simp [amendIds, hkind, haux, htitle]

theorem count_amendIds (hretires : ¬ operation.Retires id) (hamends : ¬ operation.Amends id) :
    (amendIds ids operation).count id = ids.count id := by
  unfold amendIds
  by_cases hkind : operation.kind = .amendViewSpec
  · rw [if_pos hkind]
    by_cases haux : operation.aux = 1
    · have htitle : operation.title ≠ id := fun htitle => hretires ⟨hkind, haux, htitle⟩
      rw [if_pos haux, List.count_filter (by simpa using Ne.symm htitle)]
    · have htitle : operation.title ≠ id := fun htitle => hamends ⟨hkind, haux, htitle⟩
      simp [haux, htitle]
  · rw [if_neg hkind]

/-- One id of the list is fresh where it is amended. -/
def AmendsFreshAt (id : ContentId) (ids : List ContentId) (operations : List Operation) : Prop :=
  ∀ past operation rest, operations = past ++ operation :: rest → operation.Amends id →
    (∀ later ∈ rest, ¬ later.Retires id) → id ∉ standingViews ids past

/-- What the last operation adds to the condition. -/
theorem amendsFreshAt_snoc : AmendsFreshAt id ids (past ++ [operation]) ↔
    (operation.Amends id → id ∉ standingViews ids past) ∧
      (¬ operation.Retires id → AmendsFreshAt id ids past) := by
  constructor
  · intro h
    refine ⟨fun hamends => h past operation [] rfl hamends (by simp), fun hkept => ?_⟩
    intro earlier amendment rest hsplit hamends hrest
    refine h earlier amendment (rest ++ [operation]) (by simp [hsplit]) hamends ?_
    exact forall_mem_append_singleton hrest hkept
  · rintro ⟨hlast, hpast⟩ earlier amendment rest hsplit hamends hrest
    rcases List.eq_nil_or_concat rest with rfl | ⟨rest, last, rfl⟩
    · obtain ⟨rfl, hsame⟩ := List.append_inj' hsplit rfl
      obtain rfl : operation = amendment := by simpa using hsame
      exact hlast hamends
    · have hsplit' : past ++ [operation] = (earlier ++ amendment :: rest) ++ [last] := by
        simpa using hsplit
      obtain ⟨rfl, hsame⟩ := List.append_inj' hsplit' rfl
      obtain rfl : operation = last := by simpa using hsame
      refine hpast (hrest operation (by simp)) earlier amendment rest rfl hamends ?_
      exact fun later hlater => hrest later (by simp [hlater])

/-- An id stands at most once exactly when it is fresh where it is amended. -/
theorem count_standingViews_le_one (hids : ids.count id ≤ 1) :
    (standingViews ids operations).count id ≤ 1 ↔ AmendsFreshAt id ids operations := by
  induction operations using List.reverseRecOn with
  | nil => simpa [standingViews, AmendsFreshAt] using hids
  | append_singleton past operation ih =>
      rw [standingViews_append_singleton, amendsFreshAt_snoc]
      by_cases hretires : operation.Retires id
      · have hnot : ¬ operation.Amends id := fun hamends => hamends.2.1 hretires.2.1
        simp [List.count_eq_zero.mpr (not_mem_amendIds hretires), hnot, hretires]
      · by_cases hamends : operation.Amends id
        · rw [amendIds_of_amends hamends, List.count_append, List.count_singleton_self]
          simp only [hamends, hretires, true_implies, not_false_eq_true]
          constructor
          · intro hone
            have hzero : (standingViews ids past).count id = 0 := by omega
            exact ⟨List.count_eq_zero.mp hzero, ih.mp (by omega)⟩
          · rintro ⟨hnot, -⟩
            rw [List.count_eq_zero.mpr hnot]
        · rw [count_amendIds hretires hamends, ih]
          simp [hamends, hretires]

theorem nodup_standingViews (hids : ids.Nodup) :
    (standingViews ids operations).Nodup ↔ AmendsFresh ids operations := by
  rw [List.nodup_iff_count_le_one]
  exact forall_congr' fun id =>
    count_standingViews_le_one (List.nodup_iff_count_le_one.mp hids id)

end Standing

/-! ## The view ids of a snapshot -/

def viewIds (snapshot : Snapshot) : List ContentId := snapshot.views.map fun view => view.id

section Step

variable {s : Snapshot} {transaction : ContextTransaction} {operation : Operation}

theorem viewIds_applyOperations
    (hgates : ∀ operation ∈ transaction.operations, invariantGate s operation = .ok ()) :
    viewIds (applyOperations transaction s) =
      standingViews (viewIds s) transaction.operations :=
  (grown_applyOperations hgates).views

/-- The view that resolves after a single amendment is the one it wrote. -/
def ResolvesAmended (m : Materialization) (operation : Operation) : Prop :=
  if operation.aux = 1 then resolveView m operation.title = (none, .notFound)
  else resolveView m operation.title = (some (amendedView operation), .none)

theorem resolvesAmended_applyOperations {m : Materialization}
    (hoperations : transaction.operations = [operation]) (hkind : operation.kind = .amendViewSpec)
    (hgate : invariantGate s operation = .ok ())
    (hfresh : AmendsFresh (viewIds s) transaction.operations)
    (hstate : m.state = applyOperations transaction s) : ResolvesAmended m operation := by
  have hviews : m.state.views =
      if operation.aux = 1 then s.views.filter fun view => view.id ≠ operation.title
      else s.views ++ [amendedView operation] := by
    rw [hstate]
    simp only [applyOperations, hoperations, List.foldl_cons, List.foldl_nil,
      applyOperation_views, hkind]
    rfl
  unfold ResolvesAmended
  split
  · next haux =>
      have hnone : m.state.views.find? (fun view => view.id = operation.title) = none := by
        rw [hviews, if_pos haux]
        simp [List.find?_eq_none]
      rw [resolveView, hnone]
  · next haux =>
      have hnew : operation.title ∉ viewIds s :=
        hfresh operation.title [] operation [] hoperations ⟨hkind, haux, rfl⟩ (by simp)
      have hold : s.views.find? (fun view => view.id = operation.title) = none := by
        rw [List.find?_eq_none]
        intro view hmem hid
        exact hnew (List.mem_map.mpr ⟨view, hmem, by simpa using hid⟩)
      have hfind : m.state.views.find? (fun view => view.id = operation.title) =
          some (amendedView operation) := by
        rw [hviews, if_neg haux, List.find?_append, hold]
        simp [amendedView]
      obtain ⟨hne, hresolve, -⟩ := amendViewSpec_passed hgate hkind
      have hrefs : ¬ ∃ ref ∈ (amendedView operation).profileRefs,
          findProfile m.state ref = none := by
        rintro ⟨ref, href, hnone⟩
        obtain ⟨profile, hmem, hid⟩ := findProfile_ne_none.mp (hresolve ref href)
        refine findProfile_ne_none.mpr ⟨profile, ?_, hid⟩ hnone
        rw [hstate]
        exact profiles_subset_applyOperations profile hmem
      have hsome : (amendedView operation).profileRefs ≠ [] := hne
      rw [resolveView_found hfind, if_neg (not_or.mpr ⟨hsome, hrefs⟩)]

end Step

/-! ## Whole runs -/

section Run

variable [Foundation] {σ : Type} [MemoryBacked σ] {t : ServiceState σ}
  {trs : List (ServiceTransition σ)}

/-- The amended view is the one that resolves: committed view ids are distinct,
and after a single amendment the successor resolves to what it wrote. -/
structure AmendedResolve (trs : List (ServiceTransition σ)) : Prop where
  distinct : ∀ snapshot, Committed trs snapshot → (viewIds snapshot).Nodup
  resolves : ∀ tr ∈ trs, ∀ actor transaction entry next operation,
    Commits tr (.write actor transaction entry next) → transaction.operations = [operation] →
      operation.kind = .amendViewSpec → ∀ m : Materialization, m.state = next →
        ResolvesAmended m operation

/-- Along a run of sized writes, that holds exactly when every committing
transaction amends fresh ids. -/
theorem amendedResolve_iff {store : σ} (hempty : (MemoryBacked.memory store).revisions = [])
    (hrun : ServiceRun (ServiceState.start store) trs t) (hsized : SizedRun (2 ^ 32 - 1) trs) :
    AmendedResolve trs ↔ ∀ tr ∈ trs, ∀ actor transaction entry next,
      Commits tr (.write actor transaction entry next) →
        AmendsFresh (viewIds entry.state) transaction.operations := by
  have hgenesis : (viewIds makeGenesis).Nodup := List.nodup_nil
  constructor
  · intro h tr htr actor transaction entry next hcommits
    obtain ⟨-, hrooted, -⟩ := rooted_of_sizedRun (Q := fun snapshot => (viewIds snapshot).Nodup)
      (by norm_num) (by norm_num) hempty hrun hsized hgenesis (fun _ hids => hids)
      fun tr htr actor transaction entry next hcommits _ =>
        h.distinct next ⟨tr, htr, _, hcommits, rfl⟩
    obtain ⟨handle, grant, governance, -, -, -, hadmitted⟩ := submits_write hcommits.1
    have hentry : (viewIds entry.state).Nodup :=
      ((hrooted tr htr).1.live entry (findLive_some hadmitted.live).1 hadmitted.promoted).own
    obtain ⟨hgates, rfl⟩ := hcommits.gates
    rw [← nodup_standingViews hentry, ← viewIds_applyOperations hgates]
    exact h.distinct _ ⟨tr, htr, _, hcommits, rfl⟩
  · intro hfresh
    obtain ⟨-, -, hcommitted⟩ := rooted_of_sizedRun
      (Q := fun snapshot => (viewIds snapshot).Nodup) (by norm_num) (by norm_num) hempty hrun
      hsized hgenesis (fun _ hids => hids) (by
        intro tr htr actor transaction entry next hcommits hentry
        obtain ⟨hgates, rfl⟩ := hcommits.gates
        rw [viewIds_applyOperations hgates, nodup_standingViews hentry]
        exact hfresh tr htr actor transaction entry _ hcommits)
    refine ⟨fun snapshot hsnapshot => (hcommitted snapshot hsnapshot).own, ?_⟩
    intro tr htr actor transaction entry next operation hcommits hoperations hkind m hstate
    obtain ⟨hgates, rfl⟩ := hcommits.gates
    exact resolvesAmended_applyOperations hoperations hkind
      (hgates operation (hoperations ▸ List.mem_singleton_self operation))
      (hfresh tr htr actor transaction entry _ hcommits) hstate

end Run

/-! ## One view, amended once more -/

section Amended

open scoped QivenContext.Reference

/-- The same view again, with another summary and the byte 2. -/
def viewTwo : Operation :=
  { viewOne with payload := lit "other", aux := 2 }

theorem viewed_amended :
    ∃ (trs : List (ServiceTransition MemoryStore)) (t : ServiceState MemoryStore)
      (snapshot : Snapshot), ServiceRun (ServiceState.start {}) trs t ∧
        Committed trs snapshot ∧ snapshot.views ≠ [] ∧ AmendedResolve trs := by
  obtain ⟨trs, s, m, t, m', u, m'', hrun, hnone, hstate, hprofiled, hstate', hviewed⟩ :=
    exists_viewed
  have hrun' := hviewed.run (hprofiled.run hrun)
  have hviews : m''.state.views ≠ [] := by
    rw [hviewed.state, hstate']
    exact List.cons_ne_nil _ _
  refine ⟨_, u, m''.state, hrun', hviewed.committed_last _, hviews,
    (amendedResolve_iff rfl hrun' ?_).mpr ?_⟩
  · exact hviewed.forall_commits (hprofiled.forall_commits hnone.forall_commits
      ⟨(short_profileOne _).stored, hstate ▸ room_profileOne.mono (by norm_num)⟩)
      ⟨(short_viewOne _).stored, hstate' ▸ room_viewOne.mono (by norm_num)⟩
  · refine hviewed.forall_commits (hprofiled.forall_commits hnone.forall_commits ?_) ?_
    · have hids : (viewIds makeGenesis).Nodup := List.nodup_nil
      rw [hstate, ← nodup_standingViews hids]
      exact (by decide : (standingViews (viewIds makeGenesis) [profileOne]).Nodup)
    · have hids : (viewIds profiledWorld).Nodup := List.nodup_nil
      rw [hstate', ← nodup_standingViews hids]
      exact (by decide : (standingViews (viewIds profiledWorld) [viewOne]).Nodup)

/-- The second amendment is applied, and the first one is what resolves. -/
theorem amended_hidden :
    ∃ (trs : List (ServiceTransition MemoryStore)) (t : ServiceState MemoryStore),
      ServiceRun (ServiceState.start {}) trs t ∧ ¬ AmendedResolve trs := by
  obtain ⟨trs, s, m, t, m', u, m'', hrun, hnone, hstate, hprofiled, hstate', hviewed⟩ :=
    exists_viewed
  have hstate'' : m''.state = { profiledWorld with views := [amendedView viewOne] } :=
    hviewed.state.trans (by rw [hstate']; rfl)
  obtain ⟨v, last, hamended, hlast⟩ := hviewed.onHead.write_plain hstate''
    ⟨rfl, by simp [profiledWorld, makeGenesis], rfl⟩ [viewTwo]
    { profiledWorld with views := [amendedView viewOne, amendedView viewTwo] }
    (List.cons_ne_nil _ _) (by decide) (by decide) (by decide) rfl
  refine ⟨_, v, hamended.run (hviewed.run (hprofiled.run hrun)), fun h => ?_⟩
  have hresolves := h.resolves _ (List.mem_append_right _ (List.mem_singleton_self _)) _ _ _ _
    viewTwo hamended.commits rfl rfl last rfl
  rw [ResolvesAmended, if_neg (by decide), resolveView, hlast] at hresolves
  exact absurd hresolves (by decide)

end Amended

end QivenContext
