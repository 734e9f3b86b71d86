import QivenContext.Library.Words
import QivenContext.Views

/-!
# The references of a view, written and read

The gate parses the references of an amendment and checks that there are some,
that each names a profile and that none is repeated. The resolver checks the
stored references, all but the repetition.
-/

namespace QivenContext

open Library

/-! ## The references of an amendment -/

theorem splitRefs_eq_wordsOf (text : Str) :
    splitRefs text = wordsOf (fun c => c == comma) text := by
  unfold splitRefs wordsOf
  rw [List.splitOn_eq_splitOnP]

/-- References that are not empty and hold no comma are parsed back. -/
theorem splitRefs_joinWords {refs : List Str}
    (hrefs : ∀ ref ∈ refs, ref ≠ [] ∧ comma ∉ ref) :
    splitRefs (joinWords comma refs) = refs := by
  rw [splitRefs_eq_wordsOf]
  refine wordsOf_joinWords (by simp) fun ref href => ⟨(hrefs ref href).1, fun c hc => ?_⟩
  have hne : c ≠ comma := fun heq => (hrefs ref href).2 (heq ▸ hc)
  simpa using hne

/-- An amendment that can only fail for its references. -/
structure AmendsWith (snapshot : Snapshot) (operation : Operation) (refs : List Str) : Prop where
  kind : operation.kind = .amendViewSpec
  title : operation.title ≠ []
  scope : operation.scope.contains colon = true
  fresh : operation.aux = 0 → ∀ view ∈ snapshot.views, view.id ≠ operation.title
  refs : operation.provenanceRef = joinWords comma refs

/-- The references are some, each once, and each names a profile. -/
structure RefsValid (snapshot : Snapshot) (refs : List Str) : Prop where
  nonempty : refs ≠ []
  nodup : refs.Nodup
  resolve : ∀ ref ∈ refs, findProfile snapshot ref ≠ none

section Agreement

variable {snapshot : Snapshot} {operation : Operation} {refs : List Str}
  {handle : Materialization} {view : ViewSpec} {viewId : Str}

theorem AmendsWith.gate_eq_ok (h : AmendsWith snapshot operation refs)
    (hrefs : ∀ ref ∈ refs, ref ≠ [] ∧ comma ∉ ref) :
    invariantGate snapshot operation = .ok () ↔ RefsValid snapshot refs := by
  have hsplit : splitRefs operation.provenanceRef = refs := by
    rw [h.refs, splitRefs_joinWords hrefs]
  have hscope : operation.scope ≠ [] := by
    intro hnil
    have hcontains := h.scope
    simp [hnil] at hcontains
  simp only [invariantGate, h.kind, amendViewSpecGate, gate_bind_eq_ok, refuseIf_eq_ok, hsplit]
  constructor
  · rintro ⟨-, -, hne, hresolve, hnodup⟩
    exact ⟨by simpa using hne, not_not.mp hnodup, fun ref href hnone => hresolve ⟨ref, href, hnone⟩⟩
  · rintro ⟨hne, hnodup, hresolve⟩
    refine ⟨?_, ?_, by simpa using hne, ?_, not_not.mpr hnodup⟩
    · simpa [h.title, hscope] using h.scope
    · rintro ⟨existing, hmem, hid, haux⟩
      exact h.fresh haux existing hmem hid
    · rintro ⟨ref, href, hnone⟩
      exact hresolve ref href hnone

/-- The resolver on a view that is found. -/
theorem resolveView_found
    (hfind : (handle.state.views.find? fun view => view.id = viewId) = some view) :
    resolveView handle viewId =
      if view.profileRefs = [] ∨ ∃ ref ∈ view.profileRefs, findProfile handle.state ref = none then
        (none, .invalidRefs)
      else (some view, .none) := by
  unfold resolveView
  rw [hfind]
  dsimp only
  by_cases hempty : view.profileRefs = []
  · simp [hempty]
  · simp [hempty]

/-- The gate and the resolver judge the references alike, by the rule that both
are written for. -/
structure JudgedAlike (handle : Materialization) (viewId : Str) (view : ViewSpec)
    (operation : Operation) : Prop where
  compiles : resolveView handle viewId = (some view, .none) ↔
    invariantGate handle.state operation = .ok ()
  rule : invariantGate handle.state operation = .ok () ↔
    RefsValid handle.state view.profileRefs
  otherwise : invariantGate handle.state operation ≠ .ok () →
    resolveView handle viewId = (none, .invalidRefs)

/-- A stored view is judged as the gate judges its references, except where a
reference is repeated and all of them resolve. -/
theorem judgedAlike_iff
    (hfind : (handle.state.views.find? fun view => view.id = viewId) = some view)
    (hrefs : ∀ ref ∈ view.profileRefs, ref ≠ [] ∧ comma ∉ ref)
    (hamends : AmendsWith handle.state operation view.profileRefs) :
    JudgedAlike handle viewId view operation ↔
      view.profileRefs.Nodup ∨ ∃ ref ∈ view.profileRefs, findProfile handle.state ref = none := by
  have hgate := hamends.gate_eq_ok hrefs
  have hfound := resolveView_found hfind
  constructor
  · intro h
    by_contra hneither
    obtain ⟨hrepeated, hresolve⟩ := not_or.mp hneither
    have hne : view.profileRefs ≠ [] := fun hnil => hrepeated (hnil ▸ List.nodup_nil)
    rw [if_neg (not_or.mpr ⟨hne, hresolve⟩)] at hfound
    exact hrepeated (h.rule.mp (h.compiles.mp hfound)).nodup
  · intro h
    have hinvalid : RefsValid handle.state view.profileRefs ↔ ¬ (view.profileRefs = [] ∨
        ∃ ref ∈ view.profileRefs, findProfile handle.state ref = none) := by
      constructor
      · rintro ⟨hne, -, hresolve⟩ (hnil | ⟨ref, href, hnone⟩)
        · exact hne hnil
        · exact hresolve ref href hnone
      · intro hvalid
        obtain ⟨hne, hresolve⟩ := not_or.mp hvalid
        exact ⟨hne, h.resolve_right hresolve, fun ref href hnone => hresolve ⟨ref, href, hnone⟩⟩
    constructor
    · rw [hgate, hinvalid, hfound]
      split <;> simp_all
    · exact hgate
    · rw [ne_eq, hgate, hinvalid, not_not, hfound]
      exact fun hbad => if_pos hbad

end Agreement

/-! ## Two profiles, and one of them twice -/

def refsView (refs : List Str) : ViewSpec where
  id := lit "view"
  agent := lit "agent"
  human := lit "human"
  summary := lit "summary"
  profileRefs := refs

def refsHandle (refs : List Str) : Materialization where
  address := 0
  state := { makeGenesis with
    profiles :=
      [declaredProfile profileOne, declaredProfile { profileOne with title := lit "second" }]
    views := [refsView refs] }

def amendRefs (refs : List Str) : Operation where
  kind := .amendViewSpec
  scope := lit "agent:human"
  title := lit "other"
  provenanceRef := joinWords comma refs

theorem amendsWith_refs (refs : List Str) :
    AmendsWith (refsHandle refs).state (amendRefs refs) refs where
  kind := rfl
  title := by
    change lit "other" ≠ []
    decide
  scope := by
    change (lit "agent:human").contains colon = true
    decide
  fresh _ view hview := by
    obtain rfl := List.mem_singleton.mp hview
    change lit "view" ≠ lit "other"
    decide
  refs := rfl

/-- References to two profiles. -/
theorem apart_judgedAlike :
    JudgedAlike (refsHandle [lit "profile", lit "second"]) (lit "view")
      (refsView [lit "profile", lit "second"]) (amendRefs [lit "profile", lit "second"]) := by
  have hrefs : ∀ ref ∈ [lit "profile", lit "second"], ref ≠ [] ∧ comma ∉ ref := by decide
  have hnodup : [lit "profile", lit "second"].Nodup := by decide
  exact (judgedAlike_iff rfl hrefs (amendsWith_refs [lit "profile", lit "second"])).mpr
    (.inl hnodup)

theorem twice_not_judgedAlike :
    ¬ JudgedAlike (refsHandle [lit "profile", lit "profile"]) (lit "view")
      (refsView [lit "profile", lit "profile"]) (amendRefs [lit "profile", lit "profile"]) := by
  intro h
  have hvalid := h.rule.mp (h.compiles.mp (by decide))
  exact absurd hvalid.nodup (by decide)

end QivenContext
