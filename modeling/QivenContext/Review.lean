import QivenContext.History

/-!
# Reviewed decisions

Only two kinds of operation touch decisions, and the policy table of genesis
asks both for the evidence of a review. The table and the root principal are
never written, so whatever a chain of commits says about decisions goes back
to transactions that the root principal reviewed.
-/

namespace QivenContext

open Library Snapshot ServiceState

/-! ## What a review is -/

section Transactions

variable [Foundation] {actor : AuthenticatedActor} {transaction : ContextTransaction}
  {s : Snapshot} {decision : Decision}

/-- The root principal reviewed exactly these operations, through a binding
that is not the author's. -/
structure ReviewedBy (actor : AuthenticatedActor) (transaction : ContextTransaction) : Prop where
  evidence : ∃ h2, transaction.h2 = some h2 ∧
    h2.reviewer = makeGenesis.governance.rootPrincipal ∧ h2.reviewerBinding ≠ actor.binding ∧
    h2.reviewRef ≠ [] ∧ h2.reviewedDeltaDigest = digestOperations transaction.operations
  handoff : transaction.handoffEvidenceRef ≠ []

/-- The transaction appended the decision, with its handoff evidence for the
provenance. -/
def AppendedBy (transaction : ContextTransaction) (decision : Decision) : Prop :=
  ∃ operation ∈ transaction.operations, operation.kind = .appendDecision ∧
    operation.recordId = decision.id ∧ operation.title = decision.title ∧
    operation.payload = decision.content ∧
    decision.provenance = userStatement transaction.handoffEvidenceRef

/-- The decision was there, up to its status and its links. -/
def KeptFrom (before : List Decision) (decision : Decision) : Prop :=
  ∃ earlier ∈ before, earlier.id = decision.id ∧ earlier.title = decision.title ∧
    earlier.content = decision.content ∧ earlier.provenance = decision.provenance

omit [Foundation] in
theorem AppendedBy.of_kept {earlier : Decision} (h : AppendedBy transaction earlier)
    (hid : earlier.id = decision.id) (htitle : earlier.title = decision.title)
    (hcontent : earlier.content = decision.content)
    (hprovenance : earlier.provenance = decision.provenance) : AppendedBy transaction decision := by
  unfold AppendedBy at h ⊢
  rwa [← hid, ← htitle, ← hcontent, ← hprovenance]

theorem reviewedBy_of_h2Gate
    (h : h2Gate makeGenesis.governance.rootPrincipal actor.binding transaction = .ok ()) :
    ReviewedBy actor transaction := by
  unfold h2Gate at h
  split at h
  · simp at h
  · next h2 hsome =>
      simp only [gate_bind_eq_ok, refuseIf_eq_ok, not_or, not_not] at h
      obtain ⟨⟨-, -, href, hhandoff⟩, hbinding, hreviewer, hdigest⟩ := h
      exact ⟨⟨h2, hsome, hreviewer, hbinding, by simpa using href, hdigest⟩,
        by simpa using hhandoff⟩

/-- The default policy asks every decision operation for a review. -/
theorem reviewedBy_of_policyGate {operation : Operation} (hpolicy : s.policy = makeDefaultPolicy)
    (hclass : opClassOf operation.kind = .decisionAcceptance)
    (h : policyGate s makeGenesis.governance.rootPrincipal actor.binding transaction operation =
      .ok ()) : ReviewedBy actor transaction := by
  have hrow : (makeDefaultPolicy.handoff.find? fun row => row.opClass = .decisionAcceptance) =
      some ⟨.decisionAcceptance, .h2Review, false⟩ := rfl
  unfold policyGate at h
  rw [hpolicy, hclass, hrow] at h
  exact reviewedBy_of_h2Gate h

omit [Foundation] in
theorem decisions_of_no_acceptance
    (h : ∀ operation ∈ transaction.operations, opClassOf operation.kind ≠ .decisionAcceptance) :
    (applyOperations transaction s).decisions = s.decisions := by
  refine applyOperations_preserves (P := fun next => next.decisions = s.decisions) rfl ?_
  intro operation hmem next hnext
  have hclass := h operation hmem
  rw [applyOperation_decisions]
  split
  · next hkind => simp [hkind, opClassOf] at hclass
  · next hkind => simp [hkind, opClassOf] at hclass
  · exact hnext

omit [Foundation] in
/-- A decision of the successor was kept, or appended by the transaction. -/
theorem kept_or_appended :
    ∀ decision ∈ (applyOperations transaction s).decisions,
      KeptFrom s.decisions decision ∨ AppendedBy transaction decision := by
  refine applyOperations_preserves (P := fun next => ∀ decision ∈ next.decisions,
    KeptFrom s.decisions decision ∨ AppendedBy transaction decision)
    (fun decision hmem => .inl ⟨decision, hmem, rfl, rfl, rfl, rfl⟩) ?_
  intro operation hmem next hnext
  rw [applyOperation_decisions]
  split
  · next hkind =>
      exact forall_mem_append_singleton hnext
        (.inr ⟨operation, hmem, hkind, rfl, rfl, rfl, rfl⟩)
  · intro decision hdecision
    obtain ⟨earlier, hearlier, rfl⟩ := List.mem_map.mp hdecision
    have hsame : (supersedeIn operation earlier).id = earlier.id ∧
        (supersedeIn operation earlier).title = earlier.title ∧
        (supersedeIn operation earlier).content = earlier.content ∧
        (supersedeIn operation earlier).provenance = earlier.provenance := by
      unfold supersedeIn
      dsimp only
      split <;> split <;> exact ⟨rfl, rfl, rfl, rfl⟩
    unfold KeptFrom AppendedBy
    rw [hsame.1, hsame.2.1, hsame.2.2.1, hsame.2.2.2]
    exact hnext earlier hearlier
  · exact hnext

end Transactions

/-! ## The commits of a run -/

section Commits

variable [Foundation] {σ : Type} [MemoryBacked σ] {s t : ServiceState σ}
  {trs past : List (ServiceTransition σ)} {tr : ServiceTransition σ}

/-- What the call got past the comparison of the store. -/
def commitOf (tr : ServiceTransition σ) : Option Submission :=
  (tr.before.submits tr.action).filter fun submission =>
    (tr.before.submit submission).1.kind ≠ .compareFailed

theorem commitOf_eq_some {submission : Submission} :
    commitOf tr = some submission ↔ Commits tr submission := by
  simp [commitOf, Commits, Option.filter_eq_some_iff]

/-- The calls of a run that committed, in order. -/
def commits (trs : List (ServiceTransition σ)) : List (ServiceTransition σ) :=
  trs.filter fun tr => (commitOf tr).isSome

/-- The decisions of the snapshot the call committed. -/
def decisionsOf (tr : ServiceTransition σ) : List Decision :=
  (commitOf tr).elim [] fun submission => submission.snapshot.decisions

/-- The decisions of the last snapshot committed. -/
def lastDecisions (past : List (ServiceTransition σ)) : List Decision :=
  past.getLast?.elim [] decisionsOf

/-- The call is a reviewed write, by the holder of the lease. -/
structure ReviewedWrite (tr : ServiceTransition σ) (transaction : ContextTransaction) : Prop where
  action : ∃ handle grant, tr.action = .writeToCognition handle transaction grant
  reviewed : ReviewedBy tr.before.grantActor transaction

/-- A commit left the decisions as they were, or was a reviewed write that kept
the decisions there were and appended its own. -/
def ReviewedCommit (before : List Decision) (tr : ServiceTransition σ) : Prop :=
  decisionsOf tr = before ∨ ∃ transaction, ReviewedWrite tr transaction ∧
    ∀ decision ∈ decisionsOf tr, KeptFrom before decision ∨ AppendedBy transaction decision

/-- Every change of the decisions between two commits was reviewed, and every
decision goes back to a reviewed write that appended it. -/
structure Reviewed (history : List (ServiceTransition σ)) : Prop where
  changes : ∀ past tr rest, history = past ++ tr :: rest → ReviewedCommit (lastDecisions past) tr
  origins : ∀ past tr rest, history = past ++ tr :: rest → ∀ decision ∈ decisionsOf tr,
    ∃ origin ∈ past ++ [tr], ∃ transaction, ReviewedWrite origin transaction ∧
      AppendedBy transaction decision

theorem Commits.decisionsOf {submission : Submission} (h : Commits tr submission) :
    decisionsOf tr = submission.snapshot.decisions := by
  rw [QivenContext.decisionsOf, commitOf_eq_some.mpr h]
  rfl

theorem commits_snoc (past : List (ServiceTransition σ)) (tr : ServiceTransition σ) :
    commits (past ++ [tr]) = commits past ++ if (commitOf tr).isSome then [tr] else [] := by
  rw [commits, List.filter_append, ← commits]
  by_cases h : (commitOf tr).isSome <;> simp [h]

/-- When every change was reviewed, every decision goes back to a review. -/
theorem reviewed_of_changes {history : List (ServiceTransition σ)}
    (h : ∀ past tr rest, history = past ++ tr :: rest → ReviewedCommit (lastDecisions past) tr) :
    Reviewed history := by
  refine ⟨h, fun past => ?_⟩
  induction past using List.reverseRecOn with
  | nil =>
      intro tr rest hsplit decision hdecision
      rcases h [] tr rest hsplit with hsame | ⟨transaction, hwrite, hdecisions⟩
      · rw [hsame] at hdecision
        simp [lastDecisions] at hdecision
      · rcases hdecisions decision hdecision with ⟨earlier, hearlier, -⟩ | happended
        · simp [lastDecisions] at hearlier
        · exact ⟨tr, List.mem_singleton_self _, transaction, hwrite, happended⟩
  | append_singleton past last ih =>
      intro tr rest hsplit decision hdecision
      have hlast : lastDecisions (past ++ [last]) = decisionsOf last := by
        simp [lastDecisions]
      have hearlier := ih last (tr :: rest) (by rw [hsplit, List.append_assoc]; rfl)
      rcases h (past ++ [last]) tr rest hsplit with hsame | ⟨transaction, hwrite, hdecisions⟩
      · rw [hsame, hlast] at hdecision
        obtain ⟨origin, horigin, hwrote⟩ := hearlier decision hdecision
        exact ⟨origin, List.mem_append_left _ horigin, hwrote⟩
      · rcases hdecisions decision hdecision with ⟨earlier, hmem, hid, htitle, hcontent,
          hprovenance⟩ | happended
        · obtain ⟨origin, horigin, transaction, hwrote, happended⟩ :=
            hearlier earlier (hlast ▸ hmem)
          exact ⟨origin, List.mem_append_left _ horigin, transaction, hwrote,
            happended.of_kept hid htitle hcontent hprovenance⟩
        · exact ⟨tr, List.mem_append_right _ (List.mem_singleton_self _), transaction, hwrite,
            happended⟩

/-- Where a decision is committed, some call carried the evidence of a review. -/
theorem Reviewed.exists_h2 (h : Reviewed (commits trs)) {snapshot : Snapshot}
    (hcommitted : Committed trs snapshot) (hne : snapshot.decisions ≠ []) :
    ∃ tr ∈ trs, ∃ handle transaction grant,
      tr.action = .writeToCognition handle transaction grant ∧ transaction.h2 ≠ none := by
  obtain ⟨tr, htr, submission, hcommits, rfl⟩ := hcommitted
  have hmem : tr ∈ commits trs :=
    List.mem_filter.mpr ⟨htr, by rw [commitOf_eq_some.mpr hcommits]; rfl⟩
  obtain ⟨past, rest, hsplit⟩ := List.append_of_mem hmem
  obtain ⟨decision, hdecision⟩ := List.exists_mem_of_ne_nil _ hne
  obtain ⟨origin, horigin, transaction, ⟨⟨handle, grant, haction⟩, ⟨⟨h2, hsome, -⟩, -⟩⟩, -⟩ :=
    h.origins past tr rest hsplit decision (hcommits.decisionsOf ▸ hdecision)
  have hprefix : origin ∈ commits trs := by
    rw [hsplit, ← List.singleton_append, ← List.append_assoc]
    exact List.mem_append_left _ horigin
  exact ⟨origin, (List.mem_filter.mp hprefix).1, handle, transaction, grant, haction,
    by simp [hsome]⟩

/-! ## Along a run -/

/-- What every snapshot of a genesis chain keeps. -/
structure Governed (snapshot : Snapshot) : Prop where
  policy : snapshot.policy = makeDefaultPolicy
  governance : snapshot.governance = makeGenesis.governance

/-- The head of the memory stands for the last commit. -/
structure ReviewSoFar (history : List (ServiceTransition σ)) (s : ServiceState σ) : Prop where
  changes : ∀ past tr rest, history = past ++ tr :: rest → ReviewedCommit (lastDecisions past) tr
  empty : history = [] → s.memory.revisions = []
  head : ∀ tr, history.getLast? = some tr → ∃ snapshot, Fits snapshot ∧
    decisionsOf tr = snapshot.decisions ∧ s.memory.headBytes = some (serializeSnapshot snapshot)

theorem Commits.headBytes (hvalid : tr.Valid ServiceState.step) {submission : Submission}
    (h : Commits tr submission) :
    tr.after.memory.headBytes = some (serializeSnapshot submission.snapshot) := by
  have hmemory := memory_of_submits hvalid h.1
  rcases submit_cases tr.before submission with ⟨-, -, hfailed, -⟩ | ⟨-, hbytes, -, -, hsame⟩ |
    ⟨-, -, -, -, -, happend⟩
  · exact (h.2 hfailed).elim
  · rw [hmemory, hsame, hbytes]
  · rw [hmemory, happend]
    simp [MemoryStore.headBytes]

theorem Commits.base {submission : Submission} (h : Commits tr submission) :
    submission.base = tr.before.memory.head := by
  rcases submit_cases tr.before submission with ⟨-, -, hfailed, -⟩ | ⟨hbase, -⟩ | ⟨hbase, -⟩
  · exact (h.2 hfailed).elim
  · exact hbase
  · exact base_of_append h.1 hbase

theorem memory_eq_of_not_commits (hvalid : tr.Valid ServiceState.step) (h : commitOf tr = none) :
    tr.after.memory = tr.before.memory := by
  by_contra hchange
  obtain ⟨submission, hsubmits, hkind, -⟩ := submits_of_memory_ne hvalid hchange
  rw [commitOf_eq_some.mpr ⟨hsubmits, hkind⟩] at h
  simp at h

omit [Foundation] [MemoryBacked σ] in
/-- What holds at every split of a list and at its new end. -/
theorem forall_split_snoc {α : Type} {R : List α → α → Prop} {as : List α} {a : α}
    (has : ∀ past x rest, as = past ++ x :: rest → R past x) (ha : R as a) :
    ∀ past x rest, as ++ [a] = past ++ x :: rest → R past x := by
  intro past x rest hsplit
  rcases List.eq_nil_or_concat rest with rfl | ⟨rest', last, rfl⟩
  · obtain ⟨rfl, hlast⟩ := List.append_inj' hsplit rfl
    obtain rfl := List.singleton_inj.mp hlast
    exact ha
  · have hsplit' : as ++ [a] = (past ++ x :: rest') ++ [last] := by simpa using hsplit
    obtain ⟨rfl, -⟩ := List.append_inj' hsplit' rfl
    exact has past x rest' rfl

/-- A committed write from a governed head changes decisions under review only. -/
theorem reviewedCommit_of_write {actor : AuthenticatedActor} {transaction : ContextTransaction}
    {entry : Materialization} {next : Snapshot}
    (hcommits : Commits tr (.write actor transaction entry next)) (hentry : Governed entry.state)
    (hhead : ∀ governance, tr.before.canonicalHead = some governance → Governed governance) :
    ReviewedCommit entry.state.decisions tr := by
  obtain ⟨handle, grant, governance, haction, -, rfl, hadmitted⟩ := submits_write hcommits.1
  obtain ⟨hpolicy, -, -, -, rfl⟩ := successorOf_eq_ok.mp hadmitted.successor
  rw [(hhead governance hadmitted.head).governance] at hpolicy
  have hdecisions : decisionsOf tr = (applyOperations transaction entry.state).decisions :=
    hcommits.decisionsOf
  by_cases hclass : ∃ operation ∈ transaction.operations,
      opClassOf operation.kind = .decisionAcceptance
  · obtain ⟨operation, hmem, hclass⟩ := hclass
    refine .inr ⟨transaction, ⟨⟨handle, grant, haction⟩,
      reviewedBy_of_policyGate hentry.policy hclass (hpolicy operation hmem)⟩, ?_⟩
    rw [hdecisions]
    exact kept_or_appended
  · refine .inl (hdecisions.trans (decisions_of_no_acceptance fun operation hmem hkind => ?_))
    exact hclass ⟨operation, hmem, hkind⟩

theorem ReviewSoFar.lastDecisions_of_nil {history : List (ServiceTransition σ)}
    (h : ReviewSoFar history s) (hnil : s.memory.revisions = []) : lastDecisions history = [] := by
  cases hlast : history.getLast? with
  | none => rw [lastDecisions, hlast, Option.elim_none]
  | some last =>
      obtain ⟨snapshot, -, -, hbytes⟩ := h.head last hlast
      rw [MemoryStore.headBytes_eq_none.mpr hnil] at hbytes
      simp at hbytes

/-- The bytes at the head tell the decisions of the last commit. -/
theorem ReviewSoFar.lastDecisions_of_head {history : List (ServiceTransition σ)}
    (h : ReviewSoFar history s) {snapshot : Snapshot} (hfits : Fits snapshot)
    (hbytes : s.memory.headBytes = some (serializeSnapshot snapshot)) :
    lastDecisions history = snapshot.decisions := by
  cases hlast : history.getLast? with
  | none =>
      have hnil := h.empty (List.getLast?_eq_none_iff.mp hlast)
      rw [MemoryStore.headBytes_eq_none.mpr hnil] at hbytes
      simp at hbytes
  | some last =>
      obtain ⟨committed, hcommitted, hdecisions, hhead⟩ := h.head last hlast
      rw [hhead] at hbytes
      have hrestored := restored_eq_of_serialize_eq hcommitted hfits (Option.some.inj hbytes)
      rw [lastDecisions, hlast, Option.elim_some, hdecisions]
      have hkept : (restored committed).decisions = (restored snapshot).decisions :=
        congrArg Snapshot.decisions hrestored
      exact hkept

theorem ReviewSoFar.step {P : Snapshot → Prop}
    (h : ReviewSoFar (commits past) tr.before) (hvalid : tr.Valid ServiceState.step)
    (hseed : Seed P) (hgoverned : ∀ snapshot, P snapshot → Governed snapshot)
    (hrooted : Rooted P tr.before)
    (hsnapshot : ∀ submission, Commits tr submission → P submission.snapshot)
    (hchained : Chained tr.before) (hfree : Collisionless tr.before) :
    ReviewSoFar (commits (past ++ [tr])) tr.after := by
  rw [commits_snoc]
  cases hcommit : commitOf tr with
  | none =>
      have hsame := memory_eq_of_not_commits hvalid hcommit
      simp only [Option.isSome_none, Bool.false_eq_true, if_false, List.append_nil]
      exact ⟨h.changes, fun hnil => hsame ▸ h.empty hnil,
        fun last hlast => hsame ▸ h.head last hlast⟩
  | some submission =>
      have hcommits := commitOf_eq_some.mp hcommit
      simp only [Option.isSome_some, if_true]
      refine ⟨forall_split_snoc h.changes ?_, by simp, ?_⟩
      · cases submission with
        | genesis =>
            have hnil := MemoryStore.revisions_eq_nil hrooted.named hcommits.base.symm
            refine .inl (hcommits.decisionsOf.trans ?_)
            rw [h.lastDecisions_of_nil hnil]
            rfl
        | write actor transaction entry next =>
            obtain ⟨handle, grant, governance, -, -, -, hadmitted⟩ := submits_write hcommits.1
            have hlive := (findLive_some hadmitted.live).1
            have hP := hrooted.live entry hlive hadmitted.promoted
            have hbytes := hrooted.headBytes hchained hfree hlive hadmitted.promoted
              hcommits.base (revisions_ne_nil_of_admitted hadmitted)
            rw [h.lastDecisions_of_head (hseed.fits _ hP) hbytes]
            exact reviewedCommit_of_write hcommits (hgoverned _ hP)
              fun governance hhead => hgoverned _ (hrooted.canonicalHead hseed hhead)
      · intro last hlast
        obtain rfl : tr = last := by simpa using hlast
        exact ⟨submission.snapshot, hseed.fits _ (hsnapshot _ hcommits), hcommits.decisionsOf,
          hcommits.headBytes hvalid⟩

omit [Foundation] in
theorem governed_genesis : Governed makeGenesis := ⟨rfl, rfl⟩

omit [Foundation] in
theorem governed_applyOperations {transaction : ContextTransaction} {snapshot : Snapshot}
    (h : Governed snapshot) : Governed (applyOperations transaction snapshot) := by
  refine applyOperations_preserves h fun operation _ next hnext => ?_
  obtain ⟨hgovernance, -, hpolicy, -, -⟩ :=
    @applyOperation_governed next operation transaction.handoffEvidenceRef
  exact ⟨hpolicy.trans hnext.policy, hgovernance.trans hnext.governance⟩

theorem reviewSoFar_of_run {store : σ} (hempty : (MemoryBacked.memory store).revisions = [])
    (hrun : ServiceRun (ServiceState.start store) trs t) (hsized : SizedRun (2 ^ 32 - 1) trs)
    (hfree : Collisionless t) : ReviewSoFar (commits trs) t := by
  have hrestored : ∀ snapshot, Governed snapshot → Governed (restored snapshot) :=
    fun _ h => ⟨h.policy, h.governance⟩
  have hseed : Seed (Sized (2 ^ 32 - 1) Governed) :=
    seed_sized (by norm_num) (by norm_num) governed_genesis hrestored
  refine sized_induction (motive := fun trs t => ReviewSoFar (commits trs) t)
    hrun hsized hfree ?_ ?_
  · have hnil : (ServiceState.start store).memory.revisions = [] := hempty
    exact ⟨by simp [commits], fun _ => hnil, by simp [commits]⟩
  · intro past tr hpast hvalid hsized' hsized hfree' ih
    have hrun' : ServiceRun (ServiceState.start store) (past ++ [tr]) tr.after :=
      hpast.append (Run.single hvalid)
    have hpreserves : ∀ {trs : List (ServiceTransition σ)}, ∀ tr ∈ trs,
        ∀ actor transaction entry next, Commits tr (.write actor transaction entry next) →
          Governed entry.state → Governed next := by
      intro _ _ _ _ _ _ _ hcommits hentry
      rw [hcommits.gates.2]
      exact governed_applyOperations hentry
    obtain ⟨hrooted, -⟩ := rooted_of_sizedRun (by norm_num) (by norm_num) hempty hpast hsized'
      governed_genesis hrestored hpreserves
    obtain ⟨-, -, hcommitted⟩ := rooted_of_sizedRun (by norm_num) (by norm_num) hempty hrun' hsized
      governed_genesis hrestored hpreserves
    refine ih.step hvalid hseed (fun _ h => h.own) hrooted ?_
      (chained_of_run hempty hpast) hfree'
    exact fun submission hcommits => hcommitted _ ⟨tr, List.mem_append_right _
      (List.mem_singleton_self _), submission, hcommits, rfl⟩

/-- Along a run whose committing writes keep every count and length below
`2 ^ 32`, with revision ids that do not collide, no decision is made and none
changes without a review of exactly the operations that do it. -/
theorem decisions_reviewed {store : σ} (hempty : (MemoryBacked.memory store).revisions = [])
    (hrun : ServiceRun (ServiceState.start store) trs t) (hsized : SizedRun (2 ^ 32 - 1) trs)
    (hfree : Collisionless t) : Reviewed (commits trs) :=
  reviewed_of_changes (reviewSoFar_of_run hempty hrun hsized hfree).changes

end Commits

/-! ## A reviewed decision, and one that nobody saw -/

section Decisions

open scoped QivenContext.Reference

def titledDecision (byte : UInt8) : Operation where
  kind := .appendDecision
  recordId := 1
  title := [byte]
  payload := lit "content"

/-- Genesis with the decision. -/
def titledWorld (byte : UInt8) : Snapshot :=
  { makeGenesis with decisions := [acceptedDecision (lit "handoff") (titledDecision byte)] }

theorem titledWorld_fits (byte : UInt8) :
    StringsShort (titledWorld byte) ∧ VectorsWithin 100000 (titledWorld byte) := by
  refine ⟨{ genesis_stringsShort with decisions := ?_ },
    { (genesis_vectorsWithin (by norm_num) : VectorsWithin 100000 makeGenesis) with
      decisions := by simp [titledWorld]
      decision := ?_ }⟩
  · intro decision hmem
    obtain rfl := List.mem_singleton.mp hmem
    exact ⟨by simp [acceptedDecision, titledDecision, short],
      (by decide : short (lit "content")),
      shortProvenance_userStatement (by decide : short (lit "handoff"))⟩
  · intro decision hmem
    obtain rfl := List.mem_singleton.mp hmem
    exact ⟨by simp [acceptedDecision], by simp [acceptedDecision],
      by simp [acceptedDecision, userStatement]⟩

theorem serialize_titledWorld_ne (byte : UInt8) :
    serializeSnapshot (titledWorld byte) ≠ serializeSnapshot makeGenesis := by
  intro hsame
  obtain ⟨hstrings, hvectors⟩ := titledWorld_fits byte
  have hrestored := restored_eq_of_serialize_eq ⟨hstrings, hvectors.mono (by norm_num)⟩
    genesis_fits hsame
  exact List.cons_ne_nil _ _ (congrArg Snapshot.decisions hrestored)

theorem titledDecision_passes {current : Snapshot} (hnone : current.decisions = [])
    (byte : UInt8) : invariantGate current (titledDecision byte) = .ok () := by
  simp only [invariantGate, titledDecision, appendDecisionGate, gate_bind_eq_ok]
  refine ⟨refuseIf_eq_ok.mpr ?_, refuseIf_eq_ok.mpr (by simp [hnone])⟩
  rintro (hid | htitle | hpayload)
  · exact absurd hid (by decide)
  · simp at htitle
  · exact absurd hpayload (by decide)

/-- A first client gets the decision accepted, under a revision of its own. -/
theorem exists_titled :
    ∃ byte trs s m t m', ServiceRun (ServiceState.start ({} : MemoryStore)) trs s ∧
      NoWrites trs ∧ OnHead s m ∧ m.state = makeGenesis ∧
      OnHead.Wrote s m (reviewed m.revision [titledDecision byte]) t m' ∧
      m'.state = titledWorld byte ∧
      s.store.revisions = [(m.revision, serializeSnapshot makeGenesis)] ∧
      t.store.revisions = [(m.revision, serializeSnapshot makeGenesis),
        (m'.revision, serializeSnapshot (titledWorld byte))] ∧
      m'.revision ≠ m.revision := by
  refine exists_fresh_write (fun base byte => reviewed base [titledDecision byte]) titledWorld ?_
    (serialize_title makeGenesis (acceptedDecision (lit "handoff") (titledDecision 0)))
    serialize_titledWorld_ne
  intro s m byte honHead hstate _
  obtain ⟨t, m', hwrote⟩ := honHead.write_reviewed (hstate ▸ genesis_quiet)
    [titledDecision byte] (List.cons_ne_nil _ _) (by simp [titledDecision]) (by
      intro operation hmem
      obtain rfl := List.mem_singleton.mp hmem
      rw [hstate]
      exact titledDecision_passes rfl byte)
  exact ⟨t, m', hwrote, by rw [hwrote.state, hstate]; rfl⟩

theorem titled_sizedRun {trs : List (ServiceTransition MemoryStore)}
    {s t : ServiceState MemoryStore}
    {m m' : Materialization} {byte : UInt8} (hnone : NoWrites trs) (hstate : m.state = makeGenesis)
    (hwrote : OnHead.Wrote s m (reviewed m.revision [titledDecision byte]) t m') :
    SizedRun (2 ^ 32 - 1) (trs ++ [OnHead.written s m (reviewed m.revision [titledDecision byte])
      t m']) := by
  have hshort : ShortTransaction (reviewed m.revision [titledDecision byte]) := by
    refine ⟨(by decide : short (lit "handoff")), fun operation hmem => ?_⟩
    obtain rfl := List.mem_singleton.mp hmem
    exact ⟨short_nil, by simp [titledDecision, short], (by decide : short (lit "content")),
      short_nil⟩
  have hroom : Room (2 ^ 32 - 1) m.state [titledDecision byte] := by
    rw [hstate]
    refine ⟨?_, ?_, ?_, ?_, ?_, ?_, ?_, ?_, ?_⟩ <;>
      simp [makeGenesis, countKind, standingViews, amendIds, titledDecision]
  exact hwrote.sizedRun hnone hshort hroom

/-- The decision of a reviewed write goes back to it. -/
theorem titled_reviewed :
    ∃ (trs : List (ServiceTransition MemoryStore)) (t : ServiceState MemoryStore)
      (snapshot : Snapshot), ServiceRun (ServiceState.start {}) trs t ∧
        Committed trs snapshot ∧ snapshot.decisions ≠ [] ∧ Reviewed (commits trs) := by
  obtain ⟨byte, trs, s, m, t, m', hrun, hnone, -, hstate, hwrote, hstate', -, hrevisions,
    hfresh⟩ := exists_titled
  have hrun' := hwrote.run hrun
  have hfree : Collisionless t := collisionless_of_pair rfl hrun' hrevisions hfresh
  refine ⟨_, t, m'.state, hrun', hwrote.committed_last _, ?_,
    decisions_reviewed rfl hrun' (titled_sizedRun hnone hstate hwrote) hfree⟩
  rw [hstate']
  exact List.cons_ne_nil _ _

def updateState (base : RevisionId) (text : Str) : ContextTransaction where
  base := base
  operations := [{ kind := .updateState, payload := text }]

theorem applyOperations_updateState (base : RevisionId) (text : Str) (snapshot : Snapshot) :
    applyOperations (updateState base text) snapshot =
      { snapshot with state := { snapshot.state with current := text } } := rfl

theorem updateState_passes {text : Str} (hne : text ≠ []) (snapshot : Snapshot) :
    invariantGate snapshot { kind := .updateState, payload := text } = .ok () := by
  simp [invariantGate, updateStateGate, hne]

theorem OnHead.writeState {s : ServiceState MemoryStore} {m : Materialization}
    {current : Snapshot} (h : OnHead s m) (hstate : m.state = current) (hquiet : Quiet current)
    {text : Str} (hne : text ≠ []) :
    ∃ t m', OnHead.Wrote s m (updateState m.revision text) t m' ∧
      m'.state = { current with state := { current.state with current := text } } :=
  h.write_plain hstate hquiet (updateState m.revision text).operations _ (List.cons_ne_nil _ _)
    (by simp [updateState, opClassOf]) (by simp [updateState])
    (List.forall_mem_singleton.mpr (updateState_passes hne current))
    (applyOperations_updateState m.revision _ _)

/-- The text is written as the current state of genesis. -/
theorem exists_forged :
    ∃ byte trs s m t m', ServiceRun (ServiceState.start ({} : MemoryStore)) trs s ∧
      NoWrites trs ∧ OnHead s m ∧ m.state = makeGenesis ∧
      OnHead.Wrote s m (updateState m.revision (forgedText byte)) t m' ∧
      m'.state = writtenWorld byte ∧
      s.store.revisions = [(m.revision, serializeSnapshot makeGenesis)] ∧
      t.store.revisions = [(m.revision, serializeSnapshot makeGenesis),
        (m'.revision, serializeSnapshot (writtenWorld byte))] ∧
      m'.revision ≠ m.revision := by
  refine exists_fresh_write (fun base byte => updateState base (forgedText byte)) writtenWorld ?_
    serialize_writtenWorld_split serialize_writtenWorld_ne
  intro s m byte honHead hstate _
  have hne : forgedText byte ≠ [] := by
    intro hnil
    have hlength := length_forgedText byte
    rw [hnil] at hlength
    simp at hlength
  exact honHead.writeState hstate genesis_quiet hne

/-- The text is booted as a decision, and the next write commits it. -/
theorem exists_forged_committed :
    ∃ (trs : List (ServiceTransition MemoryStore)) (t : ServiceState MemoryStore)
      (snapshot : Snapshot), ServiceRun (ServiceState.start {}) trs t ∧
        EveryWrite (fun transaction => transaction.h2 = none) trs ∧ Committed trs snapshot ∧
        snapshot.decisions ≠ [] := by
  obtain ⟨byte, trs, s, m, t, m', hrun, hnone, -, -, hwrote, -, -, hrevisions, hfresh⟩ :=
    exists_forged
  have hparsed : deserialize (t.store.materialize t.store.head) = .ok (readWorld byte) := by
    rw [hwrote.onHead.head, MemoryStore.materialize_of_pair hrevisions hfresh,
      deserialize_writtenWorld]
  obtain ⟨m'', u, hstep, -, honHead, hstate, -⟩ := hwrote.onHead.boot hparsed rfl
  obtain ⟨v, last, hwrote', hstate'⟩ := honHead.writeAll
    (hstate ▸ ⟨rfl, by simp [readWorld, makeGenesis], rfl⟩) [⟨[1], [1]⟩] (List.cons_ne_nil _ _) (by
      intro record hmem
      obtain rfl := List.mem_singleton.mp hmem
      exact ⟨List.cons_ne_nil _ _, List.cons_ne_nil _ _⟩)
  refine ⟨_, v, last.state, hwrote'.run ((hwrote.run hrun).snoc hstep), ?_,
    hwrote'.committed_last _, ?_⟩
  · exact EveryWrite.written (EveryWrite.booted (hnone.everyWrite.written rfl)) rfl
  · rw [hstate', hstate]
    exact List.cons_ne_nil _ _

/-- A decision is committed, and no write carried a review. -/
theorem forged_decision_committed :
    ∃ (trs : List (ServiceTransition MemoryStore)) (t : ServiceState MemoryStore)
      (snapshot : Snapshot), ServiceRun (ServiceState.start {}) trs t ∧
        EveryWrite (fun transaction => transaction.h2 = none) trs ∧ Committed trs snapshot ∧
        snapshot.decisions ≠ [] ∧ ¬ Reviewed (commits trs) := by
  obtain ⟨trs, t, snapshot, hrun, hunreviewed, hcommitted, hne⟩ := exists_forged_committed
  refine ⟨trs, t, snapshot, hrun, hunreviewed, hcommitted, hne, fun hreviewed => ?_⟩
  obtain ⟨tr, htr, handle, transaction, grant, haction, hsome⟩ :=
    hreviewed.exists_h2 hcommitted hne
  exact hsome (hunreviewed tr htr handle transaction grant haction)

end Decisions

end QivenContext
