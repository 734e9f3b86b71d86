import QivenContext.Transaction

/-!
# Sizes

A string is short when its four-byte length prefix can express its length. A
snapshot has its vectors within a cap when no vector of it, at any nesting
level, has more elements.
-/

namespace QivenContext

/-- The length fits the four-byte prefix. -/
def short (text : Str) : Prop := text.length < 2 ^ 32

instance : DecidablePred short := fun text => inferInstanceAs (Decidable (text.length < 2 ^ 32))

/-! ## Strings -/

namespace Snapshot

def ShortProvenance (provenance : Provenance) : Prop :=
  ∀ source ∈ provenance.sources, short source.reference ∧ short source.note

structure ShortState (state : StateView) : Prop where
  objective : short state.objective
  current : short state.current
  checkpointRef : short state.checkpointRef
  candidateRef : short state.candidateRef
  nextBoundaryRef : short state.nextBoundaryRef
  repositories : short state.repositories
  roadmap : short state.roadmap

structure ShortDecision (decision : Decision) : Prop where
  title : short decision.title
  content : short decision.content
  provenance : ShortProvenance decision.provenance

structure ShortMemory (record : MemoryRecord) : Prop where
  title : short record.title
  statement : short record.statement
  provenance : ShortProvenance record.provenance

structure ShortObligation (obligation : Obligation) : Prop where
  triggerValue : short obligation.triggerValue
  statement : short obligation.statement
  completionCriteria : short obligation.completionCriteria

structure ShortEvidence (evidence : EvidenceRecord) : Prop where
  boundTo : short evidence.boundTo
  content : short evidence.content

structure ShortConflict (conflict : Conflict) : Prop where
  id : short conflict.id
  scope : short conflict.scope
  description : short conflict.description
  resolution : short conflict.resolution

structure ShortProfile (profile : ProfileRecord) : Prop where
  id : short profile.id
  kind : short profile.kind
  summary : short profile.summary

structure ShortView (view : ViewSpec) : Prop where
  id : short view.id
  agent : short view.agent
  human : short view.human
  summary : short view.summary
  profileRefs : ∀ ref ∈ view.profileRefs, short ref

structure ShortRole (role : RoleSpec) : Prop where
  duties : ∀ duty ∈ role.duties, short duty
  provenance : ShortProvenance role.provenance

/-- Every string of the snapshot is short. -/
structure StringsShort (snapshot : Snapshot) : Prop where
  rootPrincipal : short snapshot.governance.rootPrincipal
  articles : ∀ article ∈ snapshot.constitution.articles, short article
  rules : ∀ rule ∈ snapshot.invocation.rules, short rule.subject
  state : ShortState snapshot.state
  decisions : ∀ decision ∈ snapshot.decisions, ShortDecision decision
  memory : ∀ record ∈ snapshot.memory, ShortMemory record
  obligations : ∀ obligation ∈ snapshot.obligations, ShortObligation obligation
  evidence : ∀ evidence ∈ snapshot.evidence, ShortEvidence evidence
  conflicts : ∀ conflict ∈ snapshot.conflicts, ShortConflict conflict
  profiles : ∀ profile ∈ snapshot.profiles, ShortProfile profile
  views : ∀ view ∈ snapshot.views, ShortView view
  roles : ∀ role ∈ snapshot.roles, ShortRole role

/-! ## Vectors -/

structure DecisionWithin (cap : ℕ) (decision : Decision) : Prop where
  supersedes : decision.supersedes.length ≤ cap
  supersededBy : decision.supersededBy.length ≤ cap
  provenance : decision.provenance.sources.length ≤ cap

structure RoleWithin (cap : ℕ) (role : RoleSpec) : Prop where
  authorities : role.authorities.length ≤ cap
  duties : role.duties.length ≤ cap
  provenance : role.provenance.sources.length ≤ cap

/-- No vector of the snapshot has more than `cap` elements. -/
structure VectorsWithin (cap : ℕ) (snapshot : Snapshot) : Prop where
  articles : snapshot.constitution.articles.length ≤ cap
  handoff : snapshot.policy.handoff.length ≤ cap
  recovery : snapshot.policy.recovery.length ≤ cap
  rules : snapshot.invocation.rules.length ≤ cap
  decisions : snapshot.decisions.length ≤ cap
  decision : ∀ decision ∈ snapshot.decisions, DecisionWithin cap decision
  memory : snapshot.memory.length ≤ cap
  record : ∀ record ∈ snapshot.memory, record.provenance.sources.length ≤ cap
  obligations : snapshot.obligations.length ≤ cap
  evidence : snapshot.evidence.length ≤ cap
  conflicts : snapshot.conflicts.length ≤ cap
  profiles : snapshot.profiles.length ≤ cap
  views : snapshot.views.length ≤ cap
  view : ∀ view ∈ snapshot.views, view.profileRefs.length ≤ cap
  roles : snapshot.roles.length ≤ cap
  role : ∀ role ∈ snapshot.roles, RoleWithin cap role

theorem VectorsWithin.mono {cap cap' : ℕ} {snapshot : Snapshot}
    (h : VectorsWithin cap snapshot) (hle : cap ≤ cap') : VectorsWithin cap' snapshot where
  articles := h.articles.trans hle
  handoff := h.handoff.trans hle
  recovery := h.recovery.trans hle
  rules := h.rules.trans hle
  decisions := h.decisions.trans hle
  decision decision hmem := by
    have hdecision := h.decision decision hmem
    exact ⟨hdecision.supersedes.trans hle, hdecision.supersededBy.trans hle,
      hdecision.provenance.trans hle⟩
  memory := h.memory.trans hle
  record record hmem := (h.record record hmem).trans hle
  obligations := h.obligations.trans hle
  evidence := h.evidence.trans hle
  conflicts := h.conflicts.trans hle
  profiles := h.profiles.trans hle
  views := h.views.trans hle
  view view hmem := (h.view view hmem).trans hle
  roles := h.roles.trans hle
  role role hmem := by
    have hrole := h.role role hmem
    exact ⟨hrole.authorities.trans hle, hrole.duties.trans hle, hrole.provenance.trans hle⟩

/-- The four-byte prefixes of the format can express every size. -/
structure Fits (snapshot : Snapshot) : Prop where
  strings : StringsShort snapshot
  vectors : VectorsWithin (2 ^ 32 - 1) snapshot

end Snapshot

end QivenContext
