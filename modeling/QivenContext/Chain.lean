import Mathlib.Data.List.Chain
import QivenContext.Review

/-!
# The chain of commits

The snapshots that a run commits, in order. Every write commits the
application of its transaction to a copy of the last of them, equal to it as
far as bytes tell, so a relation between neighbours is settled by one write.
-/

namespace QivenContext

open Library Snapshot ServiceState

section Chain

variable [Foundation] {σ : Type} [MemoryBacked σ] {s t : ServiceState σ}
  {trs past : List (ServiceTransition σ)} {tr : ServiceTransition σ}
  {P Q : Snapshot → Prop} {R : Snapshot → Snapshot → Prop}
  {C : Snapshot → ContextTransaction → Prop}

/-- The snapshots that the run committed, in order. -/
def committedSnapshots (trs : List (ServiceTransition σ)) : List Snapshot :=
  trs.filterMap fun tr => (commitOf tr).map Submission.snapshot

theorem mem_committedSnapshots {snapshot : Snapshot} :
    snapshot ∈ committedSnapshots trs ↔ Committed trs snapshot := by
  simp [committedSnapshots, Committed, commitOf_eq_some]

theorem committedSnapshots_snoc (past : List (ServiceTransition σ)) (tr : ServiceTransition σ) :
    committedSnapshots (past ++ [tr]) =
      committedSnapshots past ++ ((commitOf tr).map Submission.snapshot).toList := by
  cases hcommit : commitOf tr <;> simp [committedSnapshots, hcommit]

theorem committedSnapshots_split (past rest : List (ServiceTransition σ)) {submission : Submission}
    (hcommits : Commits tr submission) : committedSnapshots (past ++ tr :: rest) =
      committedSnapshots past ++ submission.snapshot :: committedSnapshots rest := by
  simp [committedSnapshots, commitOf_eq_some.mpr hcommits]

/-- The commits are a chain when each is related to the last one before it. -/
theorem isChain_committedSnapshots_iff : (committedSnapshots trs).IsChain R ↔
    ∀ past tr rest, trs = past ++ tr :: rest → ∀ last submission,
      (committedSnapshots past).getLast? = some last → Commits tr submission →
        R last submission.snapshot := by
  induction trs using List.reverseRecOn with
  | nil => simp [committedSnapshots]
  | append_singleton trs tr ih =>
      rw [committedSnapshots_snoc, List.isChain_append, ih]
      constructor
      · rintro ⟨hpast, -, hlast⟩
        refine forall_split_snoc hpast fun last submission hsome hcommits => ?_
        exact hlast last hsome _ (by simp [commitOf_eq_some.mpr hcommits])
      · intro h
        refine ⟨fun past other rest hsplit => h past other (rest ++ [tr]) (by simp [hsplit]),
          ?_, ?_⟩
        · cases commitOf tr <;> simp
        · intro last hsome next hnext
          cases hcommit : commitOf tr with
          | none => simp [hcommit] at hnext
          | some submission =>
              obtain rfl : submission.snapshot = next := by simpa [hcommit] using hnext
              exact h trs tr [] rfl last submission hsome (commitOf_eq_some.mp hcommit)

/-- Every committing write meets the condition on its pinned snapshot. -/
def EveryCommit (C : Snapshot → ContextTransaction → Prop) (trs : List (ServiceTransition σ)) :
    Prop :=
  ∀ tr ∈ trs, ∀ actor transaction entry next,
    Commits tr (.write actor transaction entry next) → C entry.state transaction

theorem everyCommit_snoc : EveryCommit C (past ++ [tr]) ↔ EveryCommit C past ∧
    ∀ actor transaction entry next, Commits tr (.write actor transaction entry next) →
      C entry.state transaction := by
  constructor
  · exact fun h => ⟨fun other hother => h other (List.mem_append_left _ hother),
      h tr (List.mem_append_right _ (List.mem_singleton_self _))⟩
  · rintro ⟨hpast, hlast⟩ other hother
    rcases List.mem_append.mp hother with hother | hother
    · exact hpast other hother
    · exact List.mem_singleton.mp hother ▸ hlast

/-! ## Writes from the head -/

/-- The write goes through a handle that stands for the head of the memory. -/
structure FromHead (P : Snapshot → Prop) (tr : ServiceTransition σ) (entry : Materialization)
    (next : Snapshot) : Prop where
  pinned : P entry.state
  successor : P next
  pinnedFits : Fits entry.state
  successorFits : Fits next
  headBytes : tr.before.memory.headBytes = some (serializeSnapshot entry.state)

/-- No revision is nameless, and what commits here is written from the head. -/
structure Grounded (P : Snapshot → Prop) (tr : ServiceTransition σ) : Prop where
  named : ∀ entry ∈ tr.before.memory.revisions, entry.1 ≠ {}
  write : ∀ {actor transaction entry next}, Commits tr (.write actor transaction entry next) →
    FromHead P tr entry next

/-- Along a run whose committing writes keep every count and length below
`2 ^ 32`, with revision ids that do not collide, every commit is grounded. -/
theorem grounded_of_sizedRun {store : σ} (hempty : (MemoryBacked.memory store).revisions = [])
    (hrun : ServiceRun (ServiceState.start store) trs t) (hsized : SizedRun (2 ^ 32 - 1) trs)
    (hfree : Collisionless t) (hgenesis : P makeGenesis)
    (hboot : ∀ snapshot, P snapshot → P (restored snapshot))
    (happly : ∀ current transaction, P current →
      (∀ operation ∈ transaction.operations, invariantGate current operation = .ok ()) →
        P (applyOperations transaction current)) : ∀ tr ∈ trs, Grounded P tr := by
  have hseed : Seed (Sized (2 ^ 32 - 1) P) :=
    seed_sized (by norm_num) (by norm_num) hgenesis hboot
  have hpreserves : ∀ {trs : List (ServiceTransition σ)}, ∀ tr ∈ trs,
      ∀ actor transaction entry next, Commits tr (.write actor transaction entry next) →
        P entry.state → P next := by
    intro _ _ _ _ _ _ _ hcommits hentry
    obtain ⟨hgates, rfl⟩ := hcommits.gates
    exact happly _ _ hentry hgates
  refine sized_induction (motive := fun trs _ => ∀ tr ∈ trs, Grounded P tr) hrun hsized hfree
    (by simp) ?_
  intro past tr hpast hvalid hsized' hsized hfree' ih
  obtain ⟨hrooted, -⟩ := rooted_of_sizedRun (by norm_num) (by norm_num) hempty hpast hsized'
    hgenesis hboot hpreserves
  obtain ⟨-, -, hcommitted⟩ := rooted_of_sizedRun (by norm_num) (by norm_num) hempty
    (hpast.append (Run.single hvalid)) hsized hgenesis hboot hpreserves
  refine fun other hother => (List.mem_append.mp hother).elim (ih other) fun hother => ?_
  obtain rfl := List.mem_singleton.mp hother
  refine ⟨hrooted.named, fun {actor transaction entry next} hcommits => ?_⟩
  obtain ⟨handle, grant, governance, -, -, -, hadmitted⟩ := submits_write hcommits.1
  have hlive := (findLive_some hadmitted.live).1
  have hP := hrooted.live entry hlive hadmitted.promoted
  have hnext := hcommitted next ⟨other, List.mem_append_right _ (List.mem_singleton_self _),
    _, hcommits, rfl⟩
  exact ⟨hP.own, hnext.own, hseed.fits _ hP, hseed.fits _ hnext,
    hrooted.headBytes (chained_of_run hempty hpast) hfree' hlive hadmitted.promoted
      hcommits.base (revisions_ne_nil_of_admitted hadmitted)⟩

/-! ## The rule -/

/-- `P` holds of everything committed or booted; `Q` of what was committed as
long as the writes meet the condition `C`; and a write that meets it is exactly
one that takes the last commit to the next in the relation `R`. -/
structure ChainRule (P Q : Snapshot → Prop) (R : Snapshot → Snapshot → Prop)
    (C : Snapshot → ContextTransaction → Prop) : Prop where
  genesis : P makeGenesis
  boot : ∀ snapshot, P snapshot → P (restored snapshot)
  apply : ∀ current transaction, P current →
    (∀ operation ∈ transaction.operations, invariantGate current operation = .ok ()) →
      P (applyOperations transaction current)
  first : Q makeGenesis
  step : ∀ before current transaction, P before → P current → Q before →
    restored current = restored before →
    (∀ operation ∈ transaction.operations, invariantGate current operation = .ok ()) →
      (R before (applyOperations transaction current) ↔ C current transaction) ∧
        (C current transaction → Q (applyOperations transaction current))

/-- What the induction on the run carries: the last commit is at the head. -/
structure ChainSoFar (P Q : Snapshot → Prop) (R : Snapshot → Snapshot → Prop)
    (C : Snapshot → ContextTransaction → Prop) (past : List (ServiceTransition σ))
    (s : ServiceState σ) : Prop where
  empty : committedSnapshots past = [] → s.memory.revisions = []
  head : ∀ last, (committedSnapshots past).getLast? = some last → Fits last ∧ P last ∧
    (EveryCommit C past → Q last) ∧ s.memory.headBytes = some (serializeSnapshot last)
  chain : (committedSnapshots past).IsChain R ↔ EveryCommit C past

theorem ChainSoFar.keep (h : ChainSoFar P Q R C past tr.before)
    (hvalid : tr.Valid ServiceState.step) (hcommit : commitOf tr = none) :
    ChainSoFar P Q R C (past ++ [tr]) tr.after := by
  have hsame := memory_eq_of_not_commits hvalid hcommit
  have hevery : EveryCommit C (past ++ [tr]) ↔ EveryCommit C past := by
    rw [everyCommit_snoc]
    refine and_iff_left fun actor transaction entry next hcommits => ?_
    rw [commitOf_eq_some.mpr hcommits] at hcommit
    simp at hcommit
  have hsnapshots : committedSnapshots (past ++ [tr]) = committedSnapshots past := by
    simp [committedSnapshots_snoc, hcommit]
  exact ⟨by rw [hsnapshots, hsame]; exact h.empty, by rw [hsnapshots, hsame, hevery]; exact h.head,
    by rw [hsnapshots, hevery]; exact h.chain⟩

theorem ChainSoFar.boot (h : ChainSoFar P Q R C past tr.before) (hrule : ChainRule P Q R C)
    (hvalid : tr.Valid ServiceState.step)
    (hnamed : ∀ entry ∈ tr.before.memory.revisions, entry.1 ≠ {}) (hcommits : Commits tr .genesis) :
    ChainSoFar P Q R C (past ++ [tr]) tr.after := by
  have hnil := MemoryStore.revisions_eq_nil hnamed hcommits.base.symm
  have hempty : committedSnapshots past = [] := by
    by_contra hne
    obtain ⟨last, hlast⟩ := Option.ne_none_iff_exists'.mp (mt List.getLast?_eq_none_iff.mp hne)
    obtain ⟨-, -, -, hbytes⟩ := h.head last hlast
    rw [MemoryStore.headBytes_eq_none.mpr hnil] at hbytes
    simp at hbytes
  have hpast : EveryCommit C past := h.chain.mp (by rw [hempty]; exact .nil)
  have hevery : EveryCommit C (past ++ [tr]) := by
    refine everyCommit_snoc.mpr ⟨hpast, fun actor transaction entry next hwrite => ?_⟩
    have hsame := hcommits.1.symm.trans hwrite.1
    simp at hsame
  have hsnapshots : committedSnapshots (past ++ [tr]) = [makeGenesis] := by
    rw [committedSnapshots_snoc, hempty, commitOf_eq_some.mpr hcommits]
    rfl
  refine ⟨by simp [hsnapshots], fun last hlast => ?_, ?_⟩
  · rw [hsnapshots] at hlast
    obtain rfl : makeGenesis = last := by simpa using hlast
    exact ⟨genesis_fits, hrule.genesis, fun _ => hrule.first, hcommits.headBytes hvalid⟩
  · rw [hsnapshots]
    exact iff_of_true (.singleton _) hevery

/-- A handle that stands for the head is a copy of the last commit. -/
theorem ChainSoFar.last (h : ChainSoFar P Q R C past tr.before) {entry : Materialization}
    {next : Snapshot} (hwrite : FromHead P tr entry next) :
    ∃ last, (committedSnapshots past).getLast? = some last ∧ P last ∧
      (EveryCommit C past → Q last) ∧ restored entry.state = restored last := by
  obtain ⟨last, hlast⟩ : ∃ last, (committedSnapshots past).getLast? = some last := by
    refine Option.ne_none_iff_exists'.mp fun hnone => ?_
    have hnil := h.empty (List.getLast?_eq_none_iff.mp hnone)
    have hbytes := hwrite.headBytes
    rw [MemoryStore.headBytes_eq_none.mpr hnil] at hbytes
    simp at hbytes
  obtain ⟨hlastFits, hlastP, hlastQ, hhead⟩ := h.head last hlast
  exact ⟨last, hlast, hlastP, hlastQ, restored_eq_of_serialize_eq hwrite.pinnedFits hlastFits
    (Option.some.inj (hwrite.headBytes.symm.trans hhead))⟩

/-- A write commits the successor of the last commit. -/
theorem ChainSoFar.write (h : ChainSoFar P Q R C past tr.before) (hrule : ChainRule P Q R C)
    (hvalid : tr.Valid ServiceState.step) {actor : AuthenticatedActor}
    {transaction : ContextTransaction} {entry : Materialization} {next : Snapshot}
    (hcommits : Commits tr (.write actor transaction entry next))
    (hwrite : FromHead P tr entry next) : ChainSoFar P Q R C (past ++ [tr]) tr.after := by
  obtain ⟨last, hlast, hlastP, hlastQ, hrestored⟩ := h.last hwrite
  obtain ⟨hgates, rfl⟩ := hcommits.gates
  have hevery : EveryCommit C (past ++ [tr]) ↔ EveryCommit C past ∧ C entry.state transaction := by
    rw [everyCommit_snoc]
    refine and_congr_right fun _ => ⟨fun hall => hall _ _ _ _ hcommits, ?_⟩
    intro hthis actor' transaction' entry' next' hcommits'
    have hsame := hcommits.1.symm.trans hcommits'.1
    simp only [Option.some.injEq, Submission.write.injEq] at hsame
    obtain ⟨-, rfl, rfl, -⟩ := hsame
    exact hthis
  have hsnapshots : committedSnapshots (past ++ [tr]) =
      committedSnapshots past ++ [applyOperations transaction entry.state] := by
    rw [committedSnapshots_snoc, commitOf_eq_some.mpr hcommits]
    rfl
  have hstep (hpast : EveryCommit C past) :=
    hrule.step last entry.state transaction hlastP hwrite.pinned (hlastQ hpast) hrestored hgates
  refine ⟨by simp [hsnapshots], fun new hnew => ?_, ?_⟩
  · rw [hsnapshots] at hnew
    obtain rfl : applyOperations transaction entry.state = new := by simpa using hnew
    refine ⟨hwrite.successorFits, hwrite.successor, fun hall => ?_, hcommits.headBytes hvalid⟩
    obtain ⟨hpast, hthis⟩ := hevery.mp hall
    exact (hstep hpast).2 hthis
  · rw [hsnapshots, List.isChain_append, hevery, h.chain]
    refine and_congr_right fun hpast => ?_
    rw [← (hstep hpast).1, hlast]
    simp

/-- What commits here is written through a copy of the last commit. -/
def Follows (P : Snapshot → Prop) (past : List (ServiceTransition σ)) (tr : ServiceTransition σ) :
    Prop :=
  ∀ {actor transaction entry next}, Commits tr (.write actor transaction entry next) →
    ∃ last, (committedSnapshots past).getLast? = some last ∧ P last ∧ P entry.state ∧
      restored entry.state = restored last

theorem ChainRule.soFar (hrule : ChainRule P Q R C) {store : σ}
    (hempty : (MemoryBacked.memory store).revisions = [])
    (hrun : ServiceRun (ServiceState.start store) trs t) (hsized : SizedRun (2 ^ 32 - 1) trs)
    (hfree : Collisionless t) : ChainSoFar P Q R C trs t ∧
      ∀ past tr rest, trs = past ++ tr :: rest → Follows P past tr := by
  have hgrounded := grounded_of_sizedRun hempty hrun hsized hfree hrule.genesis hrule.boot
    hrule.apply
  refine hrun.history_induction (motive := fun trs t => (∀ tr ∈ trs, Grounded P tr) →
    ChainSoFar P Q R C trs t ∧ ∀ past tr rest, trs = past ++ tr :: rest → Follows P past tr)
    ?_ ?_ hgrounded
  · exact fun _ => ⟨⟨fun _ => hempty, by simp [committedSnapshots],
      iff_of_true .nil (by simp [EveryCommit])⟩, by simp⟩
  · intro past tr _ hvalid ih hgrounded
    obtain ⟨hpast, hfollows⟩ :=
      ih fun other hother => hgrounded other (List.mem_append_left _ hother)
    have hthis := hgrounded tr (List.mem_append_right _ (List.mem_singleton_self _))
    refine ⟨?_, forall_split_snoc hfollows fun {_ _ entry next} hcommits => ?_⟩
    · cases hcommit : commitOf tr with
      | none => exact hpast.keep hvalid hcommit
      | some submission =>
          have hcommits := commitOf_eq_some.mp hcommit
          cases submission with
          | genesis => exact hpast.boot hrule hvalid hthis.named hcommits
          | write actor transaction entry next =>
              exact hpast.write hrule hvalid hcommits (hthis.write hcommits)
    · obtain ⟨last, hlast, hlastP, -, hrestored⟩ := hpast.last (hthis.write hcommits)
      exact ⟨last, hlast, hlastP, (hthis.write hcommits).pinned, hrestored⟩

/-- Along a run whose committing writes keep every count and length below
`2 ^ 32`, with revision ids that do not collide, the commits are a chain of the
relation exactly when every write meets the condition. -/
theorem ChainRule.run (hrule : ChainRule P Q R C) {store : σ}
    (hempty : (MemoryBacked.memory store).revisions = [])
    (hrun : ServiceRun (ServiceState.start store) trs t) (hsized : SizedRun (2 ^ 32 - 1) trs)
    (hfree : Collisionless t) : (committedSnapshots trs).IsChain R ↔ EveryCommit C trs :=
  (hrule.soFar hempty hrun hsized hfree).1.chain

end Chain

section Built

variable [Foundation] {s t : ServiceState MemoryStore} {m m' : Materialization}
  {transaction : ContextTransaction} {trs : List (ServiceTransition MemoryStore)}

theorem OnHead.Wrote.committedSnapshots (h : OnHead.Wrote s m transaction t m')
    (trs : List (ServiceTransition MemoryStore)) :
    committedSnapshots (trs ++ [OnHead.written s m transaction t m']) =
      QivenContext.committedSnapshots trs ++ [m'.state] := by
  rw [committedSnapshots_snoc, commitOf_eq_some.mpr h.commits]
  rfl

/-- Calls that are no writes commit genesis at most. -/
theorem NoWrites.eq_genesis (hnone : NoWrites trs) :
    ∀ snapshot ∈ committedSnapshots trs, snapshot = makeGenesis := by
  intro snapshot hmem
  obtain ⟨tr, htr, submission, hcommits, rfl⟩ := mem_committedSnapshots.mp hmem
  cases submission with
  | genesis => rfl
  | write actor transaction entry next =>
      exact (hnone.not_commits tr htr actor transaction entry next hcommits).elim

/-- After calls that are no writes, only this write has a condition to meet. -/
theorem OnHead.Wrote.everyCommit {C : Snapshot → ContextTransaction → Prop} (hnone : NoWrites trs)
    (h : OnHead.Wrote s m transaction t m') (hthis : C m.state transaction) :
    EveryCommit C (trs ++ [OnHead.written s m transaction t m']) :=
  h.forall_commits (W := fun _ transaction entry _ => C entry.state transaction)
    hnone.forall_commits hthis

theorem committedSnapshots_booted {source : CognitionSource} {answer : Answer}
    (h : s.submits (.createCognition source) = none)
    (trs : List (ServiceTransition MemoryStore)) :
    committedSnapshots (trs ++ [⟨s, .createCognition source, answer, t⟩]) =
      committedSnapshots trs := by
  have hcommit : commitOf (⟨s, .createCognition source, answer, t⟩ :
      ServiceTransition MemoryStore) = none := by
    simp [commitOf, h]
  rw [committedSnapshots_snoc, hcommit, Option.map_none, Option.toList_none, List.append_nil]

end Built

end QivenContext
