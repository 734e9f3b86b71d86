import QivenContext.Ledger

/-!
# The chain is a function of the ledger

Of a committed transaction the chain keeps the operations and the reference
that decisions are filed under. Two services that committed the same of these
in the same order have one memory between them, revision ids included, however
their clients, leases, refusals, boots and lost acknowledgements differ.
-/

namespace QivenContext

open Library Snapshot ServiceState

/-- What the apply loop reads of a transaction. -/
def ContextTransaction.effect (transaction : ContextTransaction) : List Operation × Str :=
  (transaction.operations, transaction.handoffEvidenceRef)

theorem applyOperations_effect {transaction transaction' : ContextTransaction}
    (h : transaction.effect = transaction'.effect) (current : Snapshot) :
    applyOperations transaction current = applyOperations transaction' current := by
  obtain ⟨hoperations, hreference⟩ := Prod.mk.inj h
  unfold applyOperations
  rw [hoperations, hreference]

/-! ## The memory that a ledger leaves -/

section Memory

variable [Foundation]

/-- Commit a snapshot on top of the head. -/
def MemoryStore.commit (store : MemoryStore) (snapshot : Snapshot) : MemoryStore :=
  (store.compareAndSwap store.head (serializeSnapshot snapshot)).2

/-- One transaction on a memory and the snapshot at its head. -/
def chainStep (chain : MemoryStore × Snapshot) (transaction : ContextTransaction) :
    MemoryStore × Snapshot :=
  let next := applyOperations transaction chain.2
  (chain.1.commit next, next)

/-- Genesis, then one commit for each transaction. -/
def chainOf (ledger : List ContextTransaction) : MemoryStore × Snapshot :=
  ledger.foldl chainStep ((default : MemoryStore).commit makeGenesis, makeGenesis)

theorem chainOf_snoc (ledger : List ContextTransaction) (transaction : ContextTransaction) :
    chainOf (ledger ++ [transaction]) = chainStep (chainOf ledger) transaction := by
  rw [chainOf, List.foldl_append]
  rfl

theorem chainOf_snapshot (ledger : List ContextTransaction) :
    (chainOf ledger).2 = replay ledger := by
  induction ledger using List.reverseRecOn with
  | nil => rfl
  | append_singleton ledger transaction ih =>
      rw [chainOf_snoc, replay_snoc, ← ih]
      rfl

/-- The chain reads no more of a ledger than its effects. -/
theorem chainOf_congr {ledger ledger' : List ContextTransaction}
    (h : ledger.map ContextTransaction.effect = ledger'.map ContextTransaction.effect) :
    chainOf ledger = chainOf ledger' := by
  induction ledger using List.reverseRecOn generalizing ledger' with
  | nil =>
      obtain rfl : ledger' = [] := List.map_eq_nil_iff.mp h.symm
      rfl
  | append_singleton ledger transaction ih =>
      rw [List.map_append] at h
      obtain ⟨before, last, rfl, hbefore, hlast⟩ := List.map_eq_append_iff.mp h.symm
      obtain ⟨transaction', rfl, hsame⟩ := List.map_eq_singleton_iff.mp hlast
      rw [chainOf_snoc, chainOf_snoc, ih hbefore.symm]
      unfold chainStep
      rw [applyOperations_effect hsame.symm]

end Memory

/-! ## Whole runs -/

section Runs

variable [Foundation] {σ : Type} [MemoryBacked σ] {t : ServiceState σ}
  {trs past : List (ServiceTransition σ)} {tr : ServiceTransition σ} {store : σ}

/-- A commit commits to the memory. -/
theorem Commits.memory {submission : Submission} (hvalid : tr.Valid ServiceState.step)
    (h : Commits tr submission) :
    tr.after.memory = tr.before.memory.commit submission.snapshot := by
  have hmemory := memory_of_submits hvalid h.1
  rw [hmemory, MemoryStore.commit, ← h.base]
  exact MemoryBacked.memory_compareAndSwap _ _ _

theorem MemoryStore.commit_restored (store : MemoryStore) {snapshot next : Snapshot}
    (h : restored snapshot = restored next) : store.commit snapshot = store.commit next := by
  unfold MemoryStore.commit
  rw [← serialize_restored snapshot, h, serialize_restored]

/-- The memory is the chain of the ledger, once genesis is committed. -/
def OnChain (past : List (ServiceTransition σ)) (s : ServiceState σ) : Prop :=
  committedSnapshots past ≠ [] → s.memory = (chainOf (ledger past)).1

theorem OnChain.keep (h : OnChain past tr.before) (hvalid : tr.Valid ServiceState.step)
    (hcommit : commitOf tr = none) : OnChain (past ++ [tr]) tr.after := by
  have hledger : ledger (past ++ [tr]) = ledger past := by
    simp [ledger_snoc, committedTransaction, hcommit]
  have hsnapshots : committedSnapshots (past ++ [tr]) = committedSnapshots past := by
    simp [committedSnapshots_snoc, hcommit]
  intro hne
  rw [hsnapshots] at hne
  rw [memory_eq_of_not_commits hvalid hcommit, hledger]
  exact h hne

theorem onChain_boot (hreplays : Replays past) (hempty : committedSnapshots past = [])
    (hnil : tr.before.memory.revisions = []) (hvalid : tr.Valid ServiceState.step)
    (hcommits : Commits tr .genesis) : OnChain (past ++ [tr]) tr.after := by
  have hledger : ledger (past ++ [tr]) = [] := by
    simp [ledger_snoc, committedTransaction, commitOf_eq_some.mpr hcommits,
      hreplays.empty hempty]
  have hmemory : tr.before.memory = {} := MemoryStore.ext hnil
  intro _
  rw [hcommits.memory hvalid, hledger, hmemory]
  rfl

theorem OnChain.write (h : OnChain past tr.before) (hreplays : Replays past)
    (hfollows : Follows (fun _ => True) past tr) (hvalid : tr.Valid ServiceState.step)
    {actor : AuthenticatedActor} {transaction : ContextTransaction} {entry : Materialization}
    {next : Snapshot} (hcommits : Commits tr (.write actor transaction entry next)) :
    OnChain (past ++ [tr]) tr.after := by
  obtain ⟨before, hbefore, -, -, hrestored⟩ := hfollows hcommits
  obtain ⟨-, rfl⟩ := hcommits.gates
  have hledger : ledger (past ++ [tr]) = ledger past ++ [transaction] := by
    simp [ledger_snoc, committedTransaction, commitOf_eq_some.mpr hcommits]
  have hne : committedSnapshots past ≠ [] := by
    intro hnil
    rw [hnil] at hbefore
    simp at hbefore
  have hnext : restored (applyOperations transaction entry.state) =
      restored (applyOperations transaction (replay (ledger past))) :=
    restored_applyOperations (hrestored.trans (hreplays.last before hbefore))
  intro _
  rw [hcommits.memory hvalid, hledger, chainOf_snoc, h hne]
  unfold chainStep
  rw [chainOf_snapshot]
  exact MemoryStore.commit_restored _ hnext

theorem onChain_of_sizedRun (hempty : (MemoryBacked.memory store).revisions = [])
    (hrun : ServiceRun (ServiceState.start store) trs t) (hsized : SizedRun (2 ^ 32 - 1) trs)
    (hfree : Collisionless t) : OnChain trs t := by
  refine hrun.history_induction (motive := fun trs t => SizedRun (2 ^ 32 - 1) trs →
    Collisionless t → OnChain trs t) ?_ ?_ hsized hfree
  · intro _ _ hne
    exact (hne rfl).elim
  · intro past tr hpast hvalid ih hsized hfree
    have hsized' := hsized.subset (List.subset_append_left past [tr])
    have hfree' := hfree.before hvalid
    have hbefore := ih hsized' hfree'
    have hreplays := replays_of_sizedRun hempty hpast hsized' hfree'
    obtain ⟨-, hfollows⟩ := any_rule.soFar hempty (hpast.append (Run.single hvalid)) hsized hfree
    cases hcommit : commitOf tr with
    | none => exact hbefore.keep hvalid hcommit
    | some submission =>
        have hcommits := commitOf_eq_some.mp hcommit
        cases submission with
        | genesis =>
            have hnamed := named_of_run hempty hpast
            have hsoFar := (any_rule.soFar hempty hpast hsized' hfree').1
            exact onChain_boot hreplays (hsoFar.boot_first hnamed hcommits)
              (MemoryStore.revisions_eq_nil hnamed hcommits.base.symm) hvalid hcommits
        | write actor transaction entry next =>
            exact hbefore.write hreplays (hfollows past tr [] rfl) hvalid hcommits

end Runs

/-- A run from an empty memory whose writes have room and whose revision ids do
not collide, with a head at its end. -/
structure Recorded {σ : Type} [Foundation] [MemoryBacked σ] (trs : List (ServiceTransition σ))
    (t : ServiceState σ) : Prop where
  run : ∃ store : σ, (MemoryBacked.memory store).revisions = [] ∧
    ServiceRun (ServiceState.start store) trs t
  sized : SizedRun (2 ^ 32 - 1) trs
  free : Collisionless t
  booted : t.memory.revisions ≠ []

theorem Recorded.memory {σ : Type} [Foundation] [MemoryBacked σ]
    {trs : List (ServiceTransition σ)} {t : ServiceState σ} (h : Recorded trs t) :
    t.memory = (chainOf (ledger trs)).1 := by
  obtain ⟨store, hempty, hrun⟩ := h.run
  apply onChain_of_sizedRun hempty hrun h.sized h.free
  intro hnil
  exact h.booted ((any_rule.soFar hempty hrun h.sized h.free).1.empty hnil)

/-- What was committed, and in which order, is all that the memory, its
revision ids and the planes over its head depend on. -/
theorem same_ledger_same_chain {σ σ' : Type} [Foundation] [MemoryBacked σ] [MemoryBacked σ']
    {trs : List (ServiceTransition σ)} {trs' : List (ServiceTransition σ')} {t : ServiceState σ}
    {t' : ServiceState σ'} (h : Recorded trs t) (h' : Recorded trs' t')
    (hsame : (ledger trs).map ContextTransaction.effect =
      (ledger trs').map ContextTransaction.effect) :
    t.memory = t'.memory ∧ ∀ snapshot snapshot', StandsForHead t snapshot →
      StandsForHead t' snapshot' → SamePlanes snapshot snapshot' := by
  have hchain := chainOf_congr hsame
  refine ⟨by rw [h.memory, h'.memory, hchain], fun snapshot snapshot' hhead hhead' => ?_⟩
  obtain ⟨store, hempty, hrun⟩ := h.run
  obtain ⟨store', hempty', hrun'⟩ := h'.run
  have hreplay : replay (ledger trs) = replay (ledger trs') := by
    rw [← chainOf_snapshot, hchain, chainOf_snapshot]
  apply samePlanes_of_restored
  calc restored snapshot
      = restored (replay (ledger trs)) := hhead.replayed hempty hrun h.sized h.free
    _ = restored (replay (ledger trs')) := by rw [hreplay]
    _ = restored snapshot' := (hhead'.replayed hempty' hrun' h'.sized h'.free).symm

/-! ## One write, with and without a review -/

section Attested

open scoped QivenContext.Reference

variable {s t u : ServiceState MemoryStore} {m m' n : Materialization}
  {transaction attested : ContextTransaction} {trs : List (ServiceTransition MemoryStore)}

/-- The first write of a run, under a revision of its own. -/
theorem OnHead.Wrote.recorded (h : OnHead.Wrote s m transaction t m')
    (hrun : ServiceRun (ServiceState.start ({} : MemoryStore)) trs s) (hnone : NoWrites trs)
    (honHead : OnHead s m) (hgenesis : s.store.revisions =
      [(m.revision, serializeSnapshot makeGenesis)]) (hfresh : m'.revision ≠ m.revision)
    (hshort : ShortTransaction transaction)
    (hroom : Room (2 ^ 32 - 1) m.state transaction.operations) :
    Recorded (trs ++ [OnHead.written s m transaction t m']) t := by
  have hnew : s.store.headBytes ≠ some (serializeSnapshot m'.state) :=
    fun hsame => hfresh (h.unmoved honHead hsame)
  have hrevisions := (h.revisions honHead hnew).1
  rw [hgenesis] at hrevisions
  refine ⟨⟨{}, rfl, h.run hrun⟩, h.sizedRun hnone hshort hroom,
    collisionless_of_pair rfl (h.run hrun) hrevisions hfresh, ?_⟩
  intro hnil
  exact List.cons_ne_nil _ _ (hrevisions.symm.trans hnil)

/-- Two writes of one effect from one head give its successor one revision. -/
theorem OnHead.Wrote.same_revision (h : OnHead.Wrote s m transaction t m')
    (h' : OnHead.Wrote s m attested u n) (honHead : OnHead s m)
    (heffect : transaction.effect = attested.effect) (hfresh : m'.revision ≠ m.revision) :
    n.revision = m'.revision := by
  have hstate : n.state = m'.state := by
    rw [h'.state, h.state, applyOperations_effect heffect]
  have hnew : s.store.headBytes ≠ some (serializeSnapshot m'.state) :=
    fun hsame => hfresh (h.unmoved honHead hsame)
  have hnew' : s.store.headBytes ≠ some (serializeSnapshot n.state) := hstate ▸ hnew
  rw [(h.revisions honHead hnew).2, (h'.revisions honHead hnew').2, hstate]

/-- A review that no gate asked for leaves no trace in the memory. -/
theorem attested_same_chain :
    ∃ (trs trs' : List (ServiceTransition MemoryStore)) (t u : ServiceState MemoryStore),
      ServiceRun (ServiceState.start {}) trs t ∧ ServiceRun (ServiceState.start {}) trs' u ∧
        ledger trs ≠ ledger trs' ∧ t.memory = u.memory ∧ t.memory.revisions.length = 2 := by
  obtain ⟨byte, trs, s, m, t, m', hrun, hnone, honHead, hstate, hwrote, -, hrevisions, hafter,
    hfresh⟩ := exists_fresh_batch (show 1 < 2 ^ 32 - 1 by norm_num)
  let plain := addAll m.revision (batchEvidence 1 byte)
  let attested : ContextTransaction := { plain with h2 := some default }
  have hevidence : EvidenceOnly plain.operations :=
    addAll_evidenceOnly fun _ hmem => (mem_batchEvidence hmem).1
  have hshort : ShortTransaction plain :=
    addAll_short fun _ hmem => (mem_batchEvidence hmem).2
  have hroom : Room (2 ^ 32 - 1) m.state plain.operations := by
    rw [hstate]
    exact hevidence.room (by simp [plain, addAll, length_batchEvidence])
  obtain ⟨u, n, hwrote', -⟩ := honHead.writeEvidence (hstate ▸ genesis_quiet) attested
    (by simp [resolveKey, attested, plain, addAll]) rfl (List.cons_ne_nil _ _) hevidence
  have hfresh' : n.revision ≠ m.revision := by
    rw [hwrote.same_revision hwrote' honHead rfl hfresh]
    exact hfresh
  have hrecorded := hwrote.recorded hrun hnone honHead hrevisions hfresh hshort hroom
  have hrecorded' := hwrote'.recorded hrun hnone honHead hrevisions hfresh'
    ⟨hshort.handoffEvidenceRef, hshort.operations⟩ hroom
  have hledger : ledger (trs ++ [OnHead.written s m plain t m']) = ledger trs ++ [plain] :=
    hwrote.ledger
  have hledger' : ledger (trs ++ [OnHead.written s m attested u n]) = ledger trs ++ [attested] :=
    hwrote'.ledger
  have hne : plain ≠ attested := by
    intro hsame
    simpa [plain, attested, addAll] using congrArg ContextTransaction.h2 hsame
  refine ⟨_, _, t, u, hwrote.run hrun, hwrote'.run hrun, ?_,
    (same_ledger_same_chain hrecorded hrecorded' ?_).1, congrArg List.length hafter⟩
  · rw [hledger, hledger']
    intro hsame
    exact hne (List.singleton_inj.mp (List.append_cancel_left hsame))
  · rw [hledger, hledger', List.map_append, List.map_append]
    rfl

end Attested

end QivenContext
