import QivenContext.Committed

/-!
# The root principal

The name of the root principal stands at the front of every encoding, before
anything whose size could wrap. So whatever the stored bytes decode to, they
name the principal of genesis, and so does every authoritative state.
-/

namespace QivenContext

open Library Snapshot ServiceState

variable [Foundation]

/-! ## The front of an encoding -/

/-- The bytes of every encoding up to the root principal. -/
def front (rootPrincipal : PrincipalId) : Bytes :=
  putU8 serializationVersionLimit ++ putStr rootPrincipal

omit [Foundation] in
theorem serializeSnapshot_front (snapshot : Snapshot) :
    ∃ rest, serializeSnapshot snapshot = front snapshot.governance.rootPrincipal ++ rest := by
  simp only [serializeSnapshot, List.append_assoc]
  exact ⟨_, (List.append_assoc ..).symm⟩

/-- All of a body after the name of its principal. -/
def bodyAfter (limit : UInt32) (version : UInt8) (rootPrincipal : PrincipalId) :
    Reader Snapshot := do
  let articles ← Reader.stringVector limit (lit "constitution articles")
  let handoff ← Reader.vector limit (lit "handoff policy rows") Reader.handoffPolicy
  let recovery ← Reader.vector limit (lit "recovery rows") Reader.recoveryRule
  let state ← Reader.state
  let decisions ← Reader.vector limit (lit "decision count") (Reader.decision limit)
  let memory ← Reader.vector limit (lit "memory count") (Reader.memoryRecord limit)
  let obligations ← Reader.vector limit (lit "obligation count") Reader.obligation
  let evidence ← Reader.vector limit (lit "evidence count") Reader.evidence
  let conflicts ← Reader.vector limit (lit "conflict count") Reader.conflict
  let profiles ← Reader.vector limit (lit "profile count") Reader.profile
  let views ← Reader.vector limit (lit "view count") (Reader.view limit)
  let invocation ← Reader.invocation limit version
  let roles ← Reader.vector limit (lit "role count") (Reader.role limit)
  return ⟨⟨rootPrincipal⟩, ⟨articles⟩, ⟨handoff, recovery⟩, invocation, state, decisions, memory,
    obligations, evidence, conflicts, profiles, views, roles⟩

theorem body_eq (limit : UInt32) (version : UInt8) : Reader.body limit version =
    Reader.str (lit "root principal") >>= bodyAfter limit version :=
  rfl

theorem yields_bodyAfter (limit : UInt32) (version : UInt8) (rootPrincipal : PrincipalId) :
    Yields (bodyAfter limit version rootPrincipal)
      fun snapshot => snapshot.governance.rootPrincipal = rootPrincipal := by
  unfold bodyAfter
  iterate 13 apply Yields.bind; intro _
  exact Yields.pure rfl

theorem rootPrincipal_of_body {limit : UInt32} {version : UInt8} {rootPrincipal : PrincipalId}
    (hshort : short rootPrincipal) {rest : Bytes} {c c' : Foundation.Cursor} {snapshot : Snapshot}
    (hc : Unread.unread c = putStr rootPrincipal ++ rest)
    (hrun : Reader.body limit version c = .ok (snapshot, c')) :
    snapshot.governance.rootPrincipal = rootPrincipal := by
  rw [body_eq] at hrun
  obtain ⟨c₁, hstep, -⟩ :=
    (Reader.reads_str hshort (lit "root principal")).bind_eq (bodyAfter limit version) hc
  rw [hstep] at hrun
  exact yields_bodyAfter limit version rootPrincipal c₁ snapshot c' hrun

theorem rootPrincipal_of_deserialize {rootPrincipal : PrincipalId} (hshort : short rootPrincipal)
    {rest : Bytes} {snapshot : Snapshot}
    (h : deserialize (front rootPrincipal ++ rest) = .ok snapshot) :
    snapshot.governance.rootPrincipal = rootPrincipal := by
  unfold deserialize deserializeWithin at h
  split at h
  · simp at h
  · next decoded cursor hrun =>
      have hdecoded : decoded = snapshot := by
        split at h
        · exact Except.ok.inj h
        · simp at h
      subst hdecoded
      unfold Reader.snapshot at hrun
      have hunread : Unread.unread (Foundation.cursor (front rootPrincipal ++ rest)) =
          putU8 serializationVersionLimit ++ (putStr rootPrincipal ++ rest) := by
        rw [← List.append_assoc]
        exact Foundation.unread_cursor _
      obtain ⟨c, hstep, hc⟩ := Reader.reads_version.bind_eq _ hunread
      rw [hstep] at hrun
      exact rootPrincipal_of_body hshort hc hrun

/-! ## Along a run -/

section Ruled

variable {σ : Type} [MemoryBacked σ] {s s' t : ServiceState σ}
  {trs : List (ServiceTransition σ)} {m : Materialization}

/-- Everything stored and everything authoritative names the principal of genesis. -/
structure Ruled (s : ServiceState σ) : Prop where
  stored : ∀ entry ∈ s.memory.revisions, ∃ rest,
    entry.2 = front makeGenesis.governance.rootPrincipal ++ rest
  live : ∀ m ∈ s.live, m.quarantine = .promoted → m.state.governance = makeGenesis.governance
  settled : ∀ m ∈ s.live, m.quarantine ≠ .authorityPending

theorem ruled_start {store : σ} (hempty : (MemoryBacked.memory store).revisions = []) :
    Ruled (ServiceState.start store) where
  stored entry hentry := by
    have hnil : entry ∈ (MemoryBacked.memory store).revisions := hentry
    simp [hempty] at hnil
  live m hm := by simp [ServiceState.start] at hm
  settled m hm := by simp [ServiceState.start] at hm

omit [Foundation] in
theorem governance_ext {before after : Governance}
    (h : after.rootPrincipal = before.rootPrincipal) : after = before := by
  cases before
  cases after
  exact congrArg Governance.mk h

theorem Ruled.decoded (h : Ruled s) {revision : RevisionId} {snapshot : Snapshot}
    (hparsed : deserialize (CognitionStore.materialize s.store revision) = .ok snapshot) :
    snapshot.governance = makeGenesis.governance := by
  rw [materialize_memory] at hparsed
  rcases s.memory.materialize_cases revision with ⟨hnil, -⟩ | hmem
  · exact (ne_nil_of_deserialize hparsed hnil).elim
  · obtain ⟨rest, hrest⟩ := h.stored _ hmem
    rw [show s.memory.materialize revision = _ from hrest] at hparsed
    exact governance_ext (rootPrincipal_of_deserialize (by decide) hparsed)

/-- A submission names the principal, as what it applies to does. -/
theorem Ruled.submission (h : Ruled s) {call : Call} {submission : Submission}
    (hsubmits : s.submits call = some submission) :
    submission.snapshot.governance = makeGenesis.governance := by
  cases submission with
  | genesis => rfl
  | write actor transaction entry next =>
      obtain ⟨handle, grant, governance, -, -, -, hadmitted⟩ := submits_write hsubmits
      obtain ⟨-, -, -, -, rfl⟩ := successorOf_eq_ok.mp hadmitted.successor
      exact applyOperations_preserves (P := fun next => next.governance = makeGenesis.governance)
        (h.live entry (findLive_some hadmitted.live).1 hadmitted.promoted)
        fun operation _ next hnext => applyOperation_governed.1.trans hnext

theorem Ruled.step (h : Ruled s) {call : Call} {answer : Answer}
    (hstep : s.step call = some (answer, s')) : Ruled s' := by
  have hstored : ∀ entry ∈ s'.memory.revisions, ∃ rest,
      entry.2 = front makeGenesis.governance.rootPrincipal ++ rest := by
    intro entry hentry
    rcases mem_revisions_step hstep hentry with hold | ⟨submission, hsubmits, -, rfl⟩
    · exact h.stored entry hold
    · rw [← h.submission hsubmits]
      exact serializeSnapshot_front submission.snapshot
  have hlive : ∀ m ∈ s'.live, m.quarantine ≠ .authorityPending ∧
      (m.quarantine = .promoted → m.state.governance = makeGenesis.governance) := by
    intro m hm
    rcases mem_live_step hstep hm with hold | hnew
    · exact ⟨h.settled m hold, h.live m hold⟩
    · cases hnew with
      | artifact hparsed => exact ⟨by simp [minted], by simp [minted]⟩
      | booted hbytes hne hparsed =>
          exact ⟨by simp [minted], fun _ => h.decoded (hbytes ▸ hparsed)⟩
      | genesis hsubmits => exact ⟨by simp [minted], fun _ => rfl⟩
      | successor hsubmits hcommitted =>
          obtain ⟨_, _, _, -, -, -, hadmitted⟩ := submits_write hsubmits
          exact ⟨by simp [successorMaterialization, hadmitted.promoted],
            fun _ => h.submission hsubmits⟩
      | verified hold hisolated => exact ⟨by simp, by simp⟩
      | promoted hold hpending => exact (h.settled _ hold hpending).elim
  exact ⟨hstored, fun m hm => (hlive m hm).2, fun m hm => (hlive m hm).1⟩

/-- Whatever path the canonical head takes, it names the principal. -/
theorem Ruled.canonicalHead (h : Ruled s) {governance : Snapshot}
    (hhead : s.canonicalHead = some governance) :
    governance.governance = makeGenesis.governance := by
  rcases canonicalHead_cases hhead with ⟨entry, hlive, rfl⟩ | hparsed
  · obtain ⟨hmem, -, hpromoted⟩ := liveHead_some hlive
    exact h.live entry hmem hpromoted
  · exact h.decoded hparsed

end Ruled

end QivenContext
