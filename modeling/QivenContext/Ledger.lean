import QivenContext.Accepted
import QivenContext.Boot
import QivenContext.Packet

/-!
# What the ledger tells the control plane

The transactions that a run committed are its ledger. Replayed over genesis
they give the head as far as bytes tell, whoever wrote them and through which
handle. Of a replay the control plane sees no more than the memory and the
profiles that were added, under the rules of genesis.
-/

namespace QivenContext

open Library Snapshot ServiceState

/-! ## Replaying a ledger -/

def replay (ledger : List ContextTransaction) : Snapshot :=
  ledger.foldl (fun current transaction => applyOperations transaction current) makeGenesis

theorem replay_snoc (ledger : List ContextTransaction) (transaction : ContextTransaction) :
    replay (ledger ++ [transaction]) = applyOperations transaction (replay ledger) := by
  rw [replay, List.foldl_append]
  rfl

section Ledger

variable [Foundation] {σ : Type} [MemoryBacked σ] {t : ServiceState σ}
  {trs past : List (ServiceTransition σ)} {tr : ServiceTransition σ} {store : σ}
  {snapshot : Snapshot}

/-- The transaction that the call committed, unless it committed genesis. -/
def committedTransaction (tr : ServiceTransition σ) : Option ContextTransaction :=
  (commitOf tr).bind fun submission =>
    match submission with
    | .genesis => none
    | .write _ transaction _ _ => some transaction

/-- The transactions that the run committed, in order. -/
def ledger (trs : List (ServiceTransition σ)) : List ContextTransaction :=
  trs.filterMap committedTransaction

theorem ledger_snoc (past : List (ServiceTransition σ)) (tr : ServiceTransition σ) :
    ledger (past ++ [tr]) = ledger past ++ (committedTransaction tr).toList := by
  cases hcommit : committedTransaction tr <;> simp [ledger, hcommit]

omit [Foundation] in
/-- No condition, for what a run of commits has in any case. -/
theorem any_rule : ChainRule (fun _ => True) (fun _ => True) (fun _ _ => True)
    fun _ _ => True where
  genesis := trivial
  boot _ _ := trivial
  apply _ _ _ _ := trivial
  first := trivial
  step _ _ _ _ _ _ _ _ := ⟨iff_of_true trivial trivial, fun _ => trivial⟩

/-- The last commit is the replay of the ledger, as far as bytes tell. -/
structure Replays (past : List (ServiceTransition σ)) : Prop where
  empty : committedSnapshots past = [] → ledger past = []
  last : ∀ last, (committedSnapshots past).getLast? = some last →
    restored last = restored (replay (ledger past))

theorem Replays.keep (h : Replays past) (hcommit : commitOf tr = none) :
    Replays (past ++ [tr]) := by
  have hledger : ledger (past ++ [tr]) = ledger past := by
    simp [ledger_snoc, committedTransaction, hcommit]
  have hsnapshots : committedSnapshots (past ++ [tr]) = committedSnapshots past := by
    simp [committedSnapshots_snoc, hcommit]
  exact ⟨by rw [hledger, hsnapshots]; exact h.empty, by rw [hledger, hsnapshots]; exact h.last⟩

theorem Replays.boot (h : Replays past) (hempty : committedSnapshots past = [])
    (hcommits : Commits tr .genesis) : Replays (past ++ [tr]) := by
  have hcommit := commitOf_eq_some.mpr hcommits
  have hledger : ledger (past ++ [tr]) = [] := by
    simp [ledger_snoc, committedTransaction, hcommit, h.empty hempty]
  have hsnapshots : committedSnapshots (past ++ [tr]) = [makeGenesis] := by
    rw [committedSnapshots_snoc, hempty, hcommit]
    rfl
  refine ⟨fun _ => hledger, fun last hlast => ?_⟩
  rw [hsnapshots] at hlast
  obtain rfl : makeGenesis = last := by simpa using hlast
  rw [hledger]
  rfl

theorem Replays.write (h : Replays past) (hfollows : Follows (fun _ => True) past tr)
    {actor : AuthenticatedActor} {transaction : ContextTransaction} {entry : Materialization}
    {next : Snapshot} (hcommits : Commits tr (.write actor transaction entry next)) :
    Replays (past ++ [tr]) := by
  obtain ⟨before, hbefore, -, -, hrestored⟩ := hfollows hcommits
  obtain ⟨-, rfl⟩ := hcommits.gates
  have hcommit := commitOf_eq_some.mpr hcommits
  have hledger : ledger (past ++ [tr]) = ledger past ++ [transaction] := by
    simp [ledger_snoc, committedTransaction, hcommit]
  have hsnapshots : committedSnapshots (past ++ [tr]) =
      committedSnapshots past ++ [applyOperations transaction entry.state] := by
    rw [committedSnapshots_snoc, hcommit]
    rfl
  refine ⟨by simp [hsnapshots], fun last hlast => ?_⟩
  rw [hsnapshots] at hlast
  obtain rfl : applyOperations transaction entry.state = last := by simpa using hlast
  rw [hledger, replay_snoc]
  exact restored_applyOperations (hrestored.trans (h.last before hbefore))

/-- Before genesis is committed, nothing is. -/
theorem ChainSoFar.boot_first {P Q : Snapshot → Prop} {R : Snapshot → Snapshot → Prop}
    {C : Snapshot → ContextTransaction → Prop} (h : ChainSoFar P Q R C past tr.before)
    (hnamed : ∀ entry ∈ tr.before.memory.revisions, entry.1 ≠ {}) (hcommits : Commits tr .genesis) :
    committedSnapshots past = [] := by
  by_contra hne
  obtain ⟨last, hlast⟩ := Option.ne_none_iff_exists'.mp (mt List.getLast?_eq_none_iff.mp hne)
  obtain ⟨-, -, -, hbytes⟩ := h.head last hlast
  have hnil := MemoryStore.revisions_eq_nil hnamed hcommits.base.symm
  rw [MemoryStore.headBytes_eq_none.mpr hnil] at hbytes
  simp at hbytes

theorem replays_of_sizedRun (hempty : (MemoryBacked.memory store).revisions = [])
    (hrun : ServiceRun (ServiceState.start store) trs t) (hsized : SizedRun (2 ^ 32 - 1) trs)
    (hfree : Collisionless t) : Replays trs := by
  refine hrun.history_induction (motive := fun trs t => SizedRun (2 ^ 32 - 1) trs →
    Collisionless t → Replays trs) ?_ ?_ hsized hfree
  · exact fun _ _ => ⟨fun _ => rfl, by simp [committedSnapshots]⟩
  · intro past tr hpast hvalid ih hsized hfree
    have hsized' := hsized.subset (List.subset_append_left past [tr])
    have hfree' := hfree.before hvalid
    have hbefore := ih hsized' hfree'
    obtain ⟨-, hfollows⟩ := any_rule.soFar hempty (hpast.append (Run.single hvalid)) hsized hfree
    cases hcommit : commitOf tr with
    | none => exact hbefore.keep hcommit
    | some submission =>
        have hcommits := commitOf_eq_some.mp hcommit
        cases submission with
        | genesis =>
            have hnamed := named_of_run hempty hpast
            have hsoFar := (any_rule.soFar hempty hpast hsized' hfree').1
            exact hbefore.boot (hsoFar.boot_first hnamed hcommits) hcommits
        | write actor transaction entry next =>
            exact hbefore.write (hfollows past tr [] rfl) hcommits

/-- The snapshot of an authoritative handle on the head, or of a fresh boot of it. -/
inductive StandsForHead (t : ServiceState σ) : Snapshot → Prop
  | registered {m : Materialization} (hlive : m ∈ t.live) (hpromoted : m.quarantine = .promoted)
      (hhead : m.revision = t.memory.head) : StandsForHead t m.state
  | stored {snapshot : Snapshot} (h : t.storedHead = .ok snapshot) : StandsForHead t snapshot

/-- What is stored under the head's name are the bytes of the last commit. -/
theorem exists_last_of_mem (hempty : (MemoryBacked.memory store).revisions = [])
    (hrun : ServiceRun (ServiceState.start store) trs t) (hsized : SizedRun (2 ^ 32 - 1) trs)
    (hfree : Collisionless t) {bytes : Bytes}
    (hmem : (t.memory.head, bytes) ∈ t.memory.revisions) :
    ∃ last, (committedSnapshots trs).getLast? = some last ∧ Fits last ∧
      bytes = serializeSnapshot last := by
  have hsoFar := (any_rule.soFar hempty hrun hsized hfree).1
  have hne : committedSnapshots trs ≠ [] := by
    intro hnil
    rw [hsoFar.empty hnil] at hmem
    simp at hmem
  obtain ⟨last, hlast⟩ := Option.ne_none_iff_exists'.mp (mt List.getLast?_eq_none_iff.mp hne)
  obtain ⟨hfits, -, -, hbytes⟩ := hsoFar.head last hlast
  exact ⟨last, hlast, hfits, bytes_unique (chained_of_run hempty hrun) hfree
    (named_of_run hempty hrun) hmem (MemoryStore.head_mem hbytes) rfl⟩

/-- What stands for the head is the last commit, as far as bytes tell. -/
theorem StandsForHead.exists_last (h : StandsForHead t snapshot)
    (hempty : (MemoryBacked.memory store).revisions = [])
    (hrun : ServiceRun (ServiceState.start store) trs t) (hsized : SizedRun (2 ^ 32 - 1) trs)
    (hfree : Collisionless t) : ∃ last, (committedSnapshots trs).getLast? = some last ∧
      restored snapshot = restored last := by
  obtain ⟨hrooted, -⟩ := rooted_of_sizedRun (Q := fun _ => True) (by norm_num) (by norm_num)
    hempty hrun hsized trivial (fun _ _ => trivial) fun _ _ _ _ _ _ _ _ => trivial
  have hseed : Seed (Sized (2 ^ 32 - 1) fun _ => True) :=
    seed_sized (by norm_num) (by norm_num) trivial fun _ _ => trivial
  cases h with
  | registered hlive hpromoted hhead =>
      have hmem := hrooted.faithful _ hlive hpromoted
      rw [hhead] at hmem
      obtain ⟨last, hlast, hfits, hsame⟩ := exists_last_of_mem hempty hrun hsized hfree hmem
      have hown := hseed.fits _ (hrooted.live _ hlive hpromoted)
      exact ⟨last, hlast, restored_eq_of_serialize_eq hown hfits hsame⟩
  | stored hstored =>
      obtain ⟨hmem, -⟩ := hrooted.materialized rfl (ne_nil_of_deserialize hstored)
      rw [head_memory] at hmem
      obtain ⟨last, hlast, hfits, hsame⟩ := exists_last_of_mem hempty hrun hsized hfree hmem
      have hdecoded : snapshot = restored last := by
        rw [storedHead, head_memory, hsame] at hstored
        exact (eq_restored_of_deserialize hfits hstored).1
      obtain ⟨version, hlayout⟩ := layout_of_deserialize hstored
      exact ⟨last, hlast, hlayout.carried.restored.trans hdecoded⟩

theorem StandsForHead.replayed (h : StandsForHead t snapshot)
    (hempty : (MemoryBacked.memory store).revisions = [])
    (hrun : ServiceRun (ServiceState.start store) trs t) (hsized : SizedRun (2 ^ 32 - 1) trs)
    (hfree : Collisionless t) : restored snapshot = restored (replay (ledger trs)) := by
  obtain ⟨last, hlast, hrestored⟩ := h.exists_last hempty hrun hsized hfree
  exact hrestored.trans ((replays_of_sizedRun hempty hrun hsized hfree).last last hlast)

end Ledger

/-- Genesis with what the operations added to the memory and the profiles. -/
def recalledBy (operations : List Operation) : Snapshot :=
  { makeGenesis with
    memory := (operations.filter fun operation => operation.kind = .addMemory).map verifiedMemory
    profiles := (operations.filter fun operation => operation.kind = .upsertProfile).map
      declaredProfile }

def operationsOf (ledger : List ContextTransaction) : List Operation :=
  ledger.flatMap ContextTransaction.operations

section Projection

variable {s next : Snapshot}

/-- What holds of genesis and is kept by every operation holds of a replay. -/
theorem replay_induction {motive : List Operation → Snapshot → Prop} (hnil : motive [] makeGenesis)
    (hsnoc : ∀ past operation next handoffEvidenceRef, motive past next →
      motive (past ++ [operation]) (applyOperation handoffEvidenceRef next operation))
    (ledger : List ContextTransaction) : motive (operationsOf ledger) (replay ledger) := by
  induction ledger using List.reverseRecOn with
  | nil => exact hnil
  | append_singleton ledger transaction ih =>
      have hoperations : operationsOf (ledger ++ [transaction]) =
          operationsOf ledger ++ transaction.operations := by
        simp [operationsOf]
      rw [replay_snoc, hoperations]
      refine applyOperations_induction (motive := fun past next =>
        motive (operationsOf ledger ++ past) next) (by simpa using ih) ?_
      intro past operation next _ hnext
      rw [← List.append_assoc]
      exact hsnoc _ operation next _ hnext

/-- Two snapshots that the control plane cannot tell apart. -/
structure SameRecall (s next : Snapshot) : Prop where
  invocation : s.invocation = next.invocation
  memory : s.memory = next.memory
  profiles : s.profiles = next.profiles

theorem sameRecall_replay (ledger : List ContextTransaction) :
    SameRecall (replay ledger) (recalledBy (operationsOf ledger)) := by
  refine replay_induction (motive := fun operations next =>
    SameRecall next (recalledBy operations)) ⟨rfl, rfl, rfl⟩ ?_ ledger
  intro past operation next _ ih
  refine ⟨applyOperation_governed.2.2.2.1.trans ih.invocation, ?_, ?_⟩
  · rw [applyOperation_memory, ih.memory]
    by_cases hkind : operation.kind = .addMemory <;> simp [recalledBy, hkind]
  · rw [applyOperation_profiles, ih.profiles]
    by_cases hkind : operation.kind = .upsertProfile <;> simp [recalledBy, hkind]

theorem SameRecall.packet (h : SameRecall s next) (intent : ActionIntent)
    (needs : List CognitiveNeed) :
    buildPreparationPacket s intent needs = buildPreparationPacket next intent needs := by
  have hderived : deriveRequirements s intent = deriveRequirements next intent := by
    unfold deriveRequirements
    rw [h.invocation]
  have hresolve : resolveRequirement s = resolveRequirement next := by
    have hrelated : findRelatedRecords s = findRelatedRecords next := by
      funext fingerprint
      unfold findRelatedRecords
      rw [h.memory]
    funext packet prepared
    unfold resolveRequirement
    rw [h.memory, h.profiles, hrelated]
  unfold buildPreparationPacket
  rw [hderived, hresolve, h.invocation]

end Projection

/-! ## What was recorded, and what is demanded -/

/-- The operation adds a lesson or a risk that mentions the failure. -/
def Operation.warnsOf (operation : Operation) (failure : FailureFingerprint) : Bool :=
  operation.kind = .addMemory ∧
    ((verifiedMemory operation).kind = .risk ∨ (verifiedMemory operation).kind = .lesson) ∧
    ((verifiedMemory operation).mentions failure.tool ∨
      (verifiedMemory operation).mentions failure.category)

/-- The operations answer the rule, or it waits for a boundary that is not gated. -/
def Cleared (gates : RequirementBoundary → Prop) (operations : List Operation)
    (intent : ActionIntent) (rule : InvocationRule) : Prop :=
  match rule.requirement with
  | .mandatoryRecall => ∃ operation ∈ operations,
      (operation.kind = .addMemory ∨ operation.kind = .upsertProfile) ∧
        operation.title = rule.subject
  | .inspectKnownPit => ∃ failure, intent.priorFailure = some failure ∧
      ∃ operation ∈ operations, operation.warnsOf failure = true
  | _ => ¬ gates rule.boundary

section Demands

variable {gates : RequirementBoundary → Prop} {operations : List Operation}
  {intent : ActionIntent} {rule : InvocationRule} {needs : List CognitiveNeed}

theorem findRelatedRecords_recalledBy (failure : FailureFingerprint) :
    findRelatedRecords (recalledBy operations) failure =
      (operations.filter fun operation => operation.warnsOf failure).map fun operation =>
        labelled operation.title operation.payload := by
  unfold findRelatedRecords recalledBy
  dsimp only
  rw [List.filter_map, List.map_map, List.filter_filter]
  congr 1
  apply List.filter_congr
  intro operation _
  simp only [Operation.warnsOf, Function.comp_apply, Bool.decide_and, Bool.and_comm]

theorem clears_recalledBy : Clears gates (recalledBy operations) intent rule.derived ↔
    Cleared gates operations intent rule := by
  have hkind : rule.derived.requirement.kind = rule.requirement := rfl
  have hsubject : rule.derived.requirement.subject = rule.subject := rfl
  have hboundary : rule.derived.boundary = rule.boundary := rfl
  unfold Clears Cleared
  rw [hkind, hsubject, hboundary]
  cases rule.requirement with
  | mandatoryRecall =>
      simp only [recalledBy, List.mem_map, List.mem_filter, decide_eq_true_eq]
      constructor
      · rintro (⟨-, ⟨operation, ⟨hmem, hkind⟩, rfl⟩, htitle⟩ |
          ⟨-, ⟨operation, ⟨hmem, hkind⟩, rfl⟩, htitle⟩)
        · exact ⟨operation, hmem, .inl hkind, htitle⟩
        · exact ⟨operation, hmem, .inr hkind, htitle⟩
      · rintro ⟨operation, hmem, hkind | hkind, htitle⟩
        · exact .inl ⟨_, ⟨operation, ⟨hmem, hkind⟩, rfl⟩, htitle⟩
        · exact .inr ⟨_, ⟨operation, ⟨hmem, hkind⟩, rfl⟩, htitle⟩
  | inspectKnownPit =>
      apply exists_congr
      intro failure
      rw [findRelatedRecords_recalledBy]
      simp [List.filter_eq_nil_iff]
  | _ => exact Iff.rfl

/-- An action is ready when every rule of genesis for its kind is cleared. -/
theorem readyAt_recalledBy :
    ReadyAt gates (buildPreparationPacket (recalledBy operations) intent needs) ↔
      ∀ rule ∈ defaultInvocationPolicy.rules, rule.action = intent.kind →
        Cleared gates operations intent rule := by
  have hrules : ∀ rule ∈ defaultInvocationPolicy.rules,
      rule.blocking = true ∧ rule.claimClass = none := by decide
  have happlies : ∀ rule ∈ defaultInvocationPolicy.rules,
      (rule.applies intent = true ↔ rule.action = intent.kind) := by
    intro rule hmem
    simp [InvocationRule.applies, (hrules rule hmem).2]
  have hpresent : (recalledBy operations).invocation.present = true := rfl
  rw [readyAt_build, deriveRequirements_eq, and_iff_right hpresent]
  constructor
  · intro h rule hmem hkind
    have happlying : rule ∈ applyingRules (recalledBy operations) intent :=
      List.mem_filter.mpr ⟨hmem, (happlies rule hmem).mpr hkind⟩
    exact clears_recalledBy.mp (h _ (List.mem_map_of_mem happlying) (hrules rule hmem).1)
  · intro h prepared hprepared _
    obtain ⟨rule, happlying, rfl⟩ := List.mem_map.mp hprepared
    obtain ⟨hmem, hrule⟩ := List.mem_filter.mp happlying
    exact clears_recalledBy.mpr (h rule hmem ((happlies rule hmem).mp hrule))

/-- A retry is shown the warnings of its failure, in the order they were recorded. -/
theorem knownPits_recalledBy {failure : FailureFingerprint} (hkind : intent.kind = .retryFailure)
    (hprior : intent.priorFailure = some failure) :
    (buildPreparationPacket (recalledBy operations) intent needs).knownPits =
      (operations.filter fun operation => operation.warnsOf failure).map fun operation =>
        labelled operation.title operation.payload := by
  have hrules : applyingRules (recalledBy operations) intent =
      [{ action := .retryFailure, requirement := .inspectKnownPit, boundary := .beforeJudgment,
          subject := lit "failure fingerprint" }] := by
    simp [applyingRules, recalledBy, makeGenesis, defaultInvocationPolicy, InvocationRule.applies,
      hkind]
  rw [buildPreparationPacket_eq _ _ rfl, hrules, ← findRelatedRecords_recalledBy]
  simp [PreparationPacket.add, pitEntries_demand, hprior, findRelatedRecords]

end Demands

/-! ## Whole runs -/

/-- The control plane over the snapshot answers from these operations alone. -/
structure ToldBy (operations : List Operation) (snapshot : Snapshot) : Prop where
  packet : ∀ intent needs, buildPreparationPacket snapshot intent needs =
    buildPreparationPacket (recalledBy operations) intent needs
  judgment : ∀ intent needs,
    (buildPreparationPacket snapshot intent needs).readyForJudgment = true ↔
      ∀ rule ∈ defaultInvocationPolicy.rules, rule.action = intent.kind →
        Cleared (fun boundary => boundary = .beforeJudgment) operations intent rule
  execution : ∀ intent needs,
    (buildPreparationPacket snapshot intent needs).readyForExecution = true ↔
      ∀ rule ∈ defaultInvocationPolicy.rules, rule.action = intent.kind →
        Cleared (fun _ => True) operations intent rule
  pits : ∀ intent needs failure, intent.kind = .retryFailure →
    intent.priorFailure = some failure →
      (buildPreparationPacket snapshot intent needs).knownPits =
        (operations.filter fun operation => operation.warnsOf failure).map fun operation =>
          labelled operation.title operation.payload

/-- What bytes do not tell apart, no plane tells apart. -/
theorem samePlanes_of_restored {s s' : Snapshot} (h : restored s = restored s') :
    SamePlanes s s' where
  bundle m m' hstate hstate' hrevision query := by
    let between : Materialization := { m with state := restored s }
    exact ((samePlanes_restored s).bundle m between hstate rfl rfl query).trans
      ((samePlanes_restored s').bundle m' between hstate' h hrevision.symm query).symm
  view m m' hstate hstate' viewId := by
    let between : Materialization := { m with state := restored s }
    exact ((samePlanes_restored s).view m between hstate rfl viewId).trans
      ((samePlanes_restored s').view m' between hstate' h viewId).symm
  recovery reason := by
    rw [(samePlanes_restored s).recovery, h, (samePlanes_restored s').recovery]
  authorities actor := by
    rw [(samePlanes_restored s).authorities, h, (samePlanes_restored s').authorities]
  requirements intent := by
    rw [(samePlanes_restored s).requirements, h, (samePlanes_restored s').requirements]
  packet intent needs := by
    rw [(samePlanes_restored s).packet, h, (samePlanes_restored s').packet]
  judgment intent needs := by
    rw [(samePlanes_restored s).judgment, h, (samePlanes_restored s').judgment]
  execution intent needs := by
    rw [(samePlanes_restored s).execution, h, (samePlanes_restored s').execution]

theorem toldBy_of_restored {ledger : List ContextTransaction} {snapshot : Snapshot}
    (h : restored snapshot = restored (replay ledger)) :
    ToldBy (operationsOf ledger) snapshot := by
  have hpacket (intent : ActionIntent) (needs : List CognitiveNeed) :
      buildPreparationPacket snapshot intent needs =
        buildPreparationPacket (recalledBy (operationsOf ledger)) intent needs :=
    ((samePlanes_of_restored h).packet intent needs).trans
      ((sameRecall_replay ledger).packet intent needs)
  refine ⟨hpacket, fun intent needs => ?_, fun intent needs => ?_, ?_⟩
  · rw [hpacket, readyForJudgment_iff, readyAt_recalledBy]
  · rw [hpacket, readyForExecution_iff, readyAt_recalledBy]
  · intro intent needs failure hkind hprior
    rw [hpacket, knownPits_recalledBy hkind hprior]

/-- Along a run whose committing writes keep every count and length below
`2 ^ 32`, with revision ids that do not collide, the control plane over the
head answers from the committed operations alone. -/
theorem head_told_by_ledger [Foundation] {σ : Type} [MemoryBacked σ] {t : ServiceState σ}
    {trs : List (ServiceTransition σ)} {store : σ} {snapshot : Snapshot}
    (hempty : (MemoryBacked.memory store).revisions = [])
    (hrun : ServiceRun (ServiceState.start store) trs t) (hsized : SizedRun (2 ^ 32 - 1) trs)
    (hfree : Collisionless t) (hhead : StandsForHead t snapshot) :
    ToldBy (operationsOf (ledger trs)) snapshot :=
  toldBy_of_restored (hhead.replayed hempty hrun hsized hfree)

/-! ## A lesson -/

section Lesson

open scoped QivenContext.Reference

/-- A first client records the lesson, in a write that has room, and the two
revisions do not collide. -/
theorem exists_sized_taught :
    ∃ byte trs s m t m', ServiceRun (ServiceState.start ({} : MemoryStore))
        (trs ++ [OnHead.written s m (teach m.revision byte) t m']) t ∧
      SizedRun (2 ^ 32 - 1) (trs ++ [OnHead.written s m (teach m.revision byte) t m']) ∧
      Collisionless t ∧ NoWrites trs ∧ m.state = makeGenesis ∧
        OnHead.Wrote s m (teach m.revision byte) t m' := by
  obtain ⟨byte, trs, s, m, t, m', hrun, hnone, -, hstate, hwrote, -, -, hrevisions, hfresh⟩ :=
    exists_fresh_write teach taughtWorld (by
      intro s m byte honHead hstate _
      exact honHead.write_plain hstate genesis_quiet
        (teach m.revision byte).operations _ (List.cons_ne_nil _ _)
        (by simp [teach, addLesson, addEvidence, opClassOf])
        (by simp [teach, addLesson, addEvidence]) (fun operation hmem => by
          rcases List.mem_pair.mp hmem with rfl | rfl
          · rfl
          · exact addEvidence_passes (List.cons_ne_nil _ _) (List.cons_ne_nil _ _)) rfl)
      ⟨_, _, serialize_evidence_byte genesisWithLesson⟩ serialize_taughtWorld_ne
  have hrun' := hwrote.run hrun
  have hshort : ShortTransaction (teach m.revision byte) := by
    refine ⟨short_nil, fun operation hmem => ?_⟩
    rcases List.mem_pair.mp hmem with rfl | rfl
    · exact ⟨by decide, by decide, by decide, by decide⟩
    · exact ⟨short_nil, by simp [addEvidence, short], by simp [addEvidence, short], short_nil⟩
  have hroom : Room (2 ^ 32 - 1) m.state (teach m.revision byte).operations := by
    rw [hstate]
    constructor <;> simp [makeGenesis, teach, addLesson, addEvidence, countKind, standingViews,
      amendIds]
  exact ⟨byte, trs, s, m, t, m', hrun', hwrote.sizedRun hnone hshort hroom,
    collisionless_of_pair rfl hrun' hrevisions hfresh, hnone, hstate, hwrote⟩

theorem NoWrites.ledger_eq_nil {trs : List (ServiceTransition MemoryStore)} (h : NoWrites trs) :
    ledger trs = [] := by
  apply List.filterMap_eq_nil_iff.mpr
  intro tr htr
  cases hcommit : commitOf tr with
  | none => simp [committedTransaction, hcommit]
  | some submission =>
      cases submission with
      | genesis => simp [committedTransaction, hcommit]
      | write actor transaction entry next =>
          exact (h.not_commits tr htr _ _ _ _ (commitOf_eq_some.mp hcommit)).elim

theorem OnHead.Wrote.ledger {s t : ServiceState MemoryStore} {m m' : Materialization}
    {transaction : ContextTransaction} {trs : List (ServiceTransition MemoryStore)}
    (h : OnHead.Wrote s m transaction t m') :
    ledger (trs ++ [OnHead.written s m transaction t m']) =
      QivenContext.ledger trs ++ [transaction] := by
  simp [ledger_snoc, committedTransaction, commitOf_eq_some.mpr h.commits]

/-- A retry of what a tool failed at. -/
def retryOf (tool : Str) : ActionIntent where
  kind := .retryFailure
  priorFailure := some { tool := tool }

/-- A retry is shown the lesson that was recorded of its tool. -/
theorem lesson_told :
    ∃ (trs : List (ServiceTransition MemoryStore)) (t : ServiceState MemoryStore) (s : Snapshot),
      ServiceRun (ServiceState.start {}) trs t ∧ ToldBy (operationsOf (ledger trs)) s ∧
        (buildPreparationPacket s (retryOf (lit "content")) []).knownPits =
          [lit ": content"] := by
  obtain ⟨byte, trs, s, m, t, m', hrun, hsized, hfree, hnone, -, hwrote⟩ := exists_sized_taught
  have honHead := hwrote.onHead
  have htold := head_told_by_ledger rfl hrun hsized hfree
    (.registered honHead.live honHead.promoted honHead.head.symm)
  refine ⟨_, t, m'.state, hrun, htold, ?_⟩
  have hlesson : addLesson.warnsOf { tool := lit "content" } = true := by decide
  have hevidence : (addEvidence [byte] [1]).warnsOf { tool := lit "content" } = false := by
    simp [Operation.warnsOf, addEvidence]
  rw [htold.pits _ _ _ rfl rfl, hwrote.ledger, hnone.ledger_eq_nil]
  simp [operationsOf, teach, hlesson, hevidence]
  rfl

end Lesson

end QivenContext
