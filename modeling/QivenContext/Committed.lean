import QivenContext.Growth
import QivenContext.Steps

/-!
# Committed snapshots

A snapshot is committed by the call that submits it to the store, unless the
store answers that the comparison failed. Over a store backed by one memory,
what holds of genesis, survives a restore and is preserved by every
committing transaction, holds of every committed snapshot and of every live
authoritative state.
-/

namespace QivenContext

open Library Snapshot ServiceState

variable [Foundation] {σ : Type}

section Store

variable [CognitionStore σ]

/-- The call of this transition got the submission past the comparison. -/
def Commits (tr : ServiceTransition σ) (submission : Submission) : Prop :=
  tr.before.submits tr.action = some submission ∧
    (tr.before.submit submission).1.kind ≠ .compareFailed

/-- The snapshot was committed by some call of the run. -/
def Committed (trs : List (ServiceTransition σ)) (snapshot : Snapshot) : Prop :=
  ∃ tr ∈ trs, ∃ submission, Commits tr submission ∧ submission.snapshot = snapshot

/-- A committing write passed its gates, and its successor is its application. -/
theorem Commits.gates {tr : ServiceTransition σ} {actor : AuthenticatedActor}
    {transaction : ContextTransaction} {entry : Materialization} {next : Snapshot}
    (h : Commits tr (.write actor transaction entry next)) :
    (∀ operation ∈ transaction.operations, invariantGate entry.state operation = .ok ()) ∧
      next = applyOperations transaction entry.state := by
  obtain ⟨handle, grant, governance, -, -, -, hadmitted⟩ := submits_write h.1
  obtain ⟨-, -, hgates, -, hnext⟩ := successorOf_eq_ok.mp hadmitted.successor
  exact ⟨hgates, hnext⟩

end Store

variable [MemoryBacked σ] {P : Snapshot → Prop} {s s' t : ServiceState σ}
  {trs : List (ServiceTransition σ)}

/-- The linear memory behind the store. -/
def ServiceState.memory (s : ServiceState σ) : MemoryStore := MemoryBacked.memory s.store

/-- What the memory does with a submission, and what the caller learns. -/
theorem submit_cases (s : ServiceState σ) (submission : Submission) :
    (s.memory.revisions ≠ [] ∧ submission.base ≠ s.memory.head ∧
      (s.submit submission).1.kind = .compareFailed ∧
      MemoryBacked.memory (s.submit submission).2 = s.memory) ∨
    (submission.base = s.memory.head ∧
      s.memory.headBytes = some (serializeSnapshot submission.snapshot) ∧
      (s.submit submission).1.kind ≠ .compareFailed ∧
      ((s.submit submission).1.kind = .committed →
        (s.submit submission).1.revision = s.memory.head) ∧
      MemoryBacked.memory (s.submit submission).2 = s.memory) ∨
    ((s.memory.revisions = [] ∨ submission.base = s.memory.head) ∧
      s.memory.headBytes ≠ some (serializeSnapshot submission.snapshot) ∧
      (s.submit submission).1.kind ≠ .compareFailed ∧
      (s.memory.revisions = [] → (s.submit submission).1.kind = .committed) ∧
      ((s.submit submission).1.kind = .committed → (s.submit submission).1.revision =
        revisionOf submission.base (serializeSnapshot submission.snapshot)) ∧
      MemoryBacked.memory (s.submit submission).2 =
        s.memory.append (revisionOf submission.base (serializeSnapshot submission.snapshot))
          (serializeSnapshot submission.snapshot)) := by
  have hmemory := MemoryBacked.memory_compareAndSwap s.store submission.base
    (serializeSnapshot submission.snapshot)
  have hreceipt := MemoryBacked.receipt_cases s.store submission.base
    (serializeSnapshot submission.snapshot)
  change MemoryBacked.memory (s.submit submission).2 = _ at hmemory
  change (s.submit submission).1 = _ ∨ (s.submit submission).1.kind = _ ∧ _ at hreceipt
  rcases s.memory.compareAndSwap_cases submission.base (serializeSnapshot submission.snapshot) with
    ⟨hne, hstale, hcas⟩ | ⟨hbase, hsame, hcas⟩ | ⟨hbase, hnew, hcas⟩
  all_goals
    change (MemoryBacked.memory s.store).compareAndSwap _ _ = _ at hcas
    rw [hcas] at hmemory hreceipt
  · refine .inl ⟨hne, hstale, ?_, hmemory⟩
    rcases hreceipt with hreceipt | ⟨-, hcommitted, -⟩
    · rw [hreceipt]
    · simp at hcommitted
  · refine .inr (.inl ⟨hbase, hsame, ?_, fun hkind => ?_, hmemory⟩)
    · rcases hreceipt with hreceipt | ⟨hlost, -⟩
      · simp [hreceipt]
      · simp [hlost]
    · rcases hreceipt with hreceipt | ⟨hlost, -⟩
      · rw [hreceipt]
      · simp [hlost] at hkind
  · refine .inr (.inr ⟨hbase, hnew, ?_, fun hempty => ?_, fun hkind => ?_, hmemory⟩)
    · rcases hreceipt with hreceipt | ⟨hlost, -⟩
      · simp [hreceipt]
      · simp [hlost]
    · rcases hreceipt with hreceipt | ⟨-, -, hne⟩
      · rw [hreceipt]
      · exact (hne hempty).elim
    · rcases hreceipt with hreceipt | ⟨hlost, -⟩
      · rw [hreceipt]
      · simp [hlost] at hkind

theorem memory_step {call : Call} {answer : Answer} (h : s.step call = some (answer, s')) :
    s'.memory = match s.submits call with
      | none => s.memory
      | some submission => MemoryBacked.memory (s.submit submission).2 := by
  have hstore := step_store h
  cases hsubmits : s.submits call with
  | none =>
      rw [hsubmits] at hstore
      exact congrArg MemoryBacked.memory hstore
  | some submission =>
      rw [hsubmits] at hstore
      exact congrArg MemoryBacked.memory hstore

theorem memory_of_submits {call : Call} {answer : Answer} {submission : Submission}
    (h : s.step call = some (answer, s')) (hsubmits : s.submits call = some submission) :
    s'.memory = MemoryBacked.memory (s.submit submission).2 := by
  have hmemory := memory_step h
  rw [hsubmits] at hmemory
  exact hmemory

theorem submits_of_memory_ne {call : Call} {answer : Answer}
    (h : s.step call = some (answer, s')) (hchange : s'.memory ≠ s.memory) :
    ∃ submission, s.submits call = some submission ∧
      (s.submit submission).1.kind ≠ .compareFailed ∧
      (s.memory.revisions = [] ∨ submission.base = s.memory.head) ∧
      s'.memory = s.memory.append
        (revisionOf submission.base (serializeSnapshot submission.snapshot))
        (serializeSnapshot submission.snapshot) := by
  cases hsubmits : s.submits call with
  | none =>
      have hmemory := memory_step h
      rw [hsubmits] at hmemory
      exact (hchange hmemory).elim
  | some submission =>
      have hmemory := memory_of_submits h hsubmits
      rcases submit_cases s submission with ⟨-, -, -, hsame⟩ | ⟨-, -, -, -, hsame⟩ |
        ⟨hbase, -, hkind, -, -, happend⟩
      · exact (hchange (hmemory.trans hsame)).elim
      · exact (hchange (hmemory.trans hsame)).elim
      · exact ⟨submission, rfl, hkind, hbase, hmemory.trans happend⟩

theorem materialize_memory (s : ServiceState σ) (revision : RevisionId) :
    CognitionStore.materialize s.store revision = s.memory.materialize revision :=
  MemoryBacked.materialize_eq s.store revision

theorem head_memory (s : ServiceState σ) : CognitionStore.head s.store = s.memory.head :=
  MemoryBacked.head_eq s.store

theorem memory_prefix_step {call : Call} {answer : Answer}
    (h : s.step call = some (answer, s')) : s.memory.revisions <+: s'.memory.revisions := by
  by_cases hsame : s'.memory = s.memory
  · rw [hsame]
  · obtain ⟨submission, -, -, -, happend⟩ := submits_of_memory_ne h hsame
    rw [happend]
    exact List.prefix_append _ _

theorem memory_prefix_of_run (hrun : ServiceRun s trs t) :
    s.memory.revisions <+: t.memory.revisions := by
  induction hrun with
  | nil s => exact List.prefix_rfl
  | cons tr rest t hvalid _ ih => exact (memory_prefix_step hvalid).trans ih

/-- A revision that a step adds is the one that its call submitted. -/
theorem mem_revisions_step {call : Call} {answer : Answer} {entry : RevisionId × Bytes}
    (h : s.step call = some (answer, s')) (hentry : entry ∈ s'.memory.revisions) :
    entry ∈ s.memory.revisions ∨ ∃ submission, s.submits call = some submission ∧
      (s.submit submission).1.kind ≠ .compareFailed ∧
      entry = (revisionOf submission.base (serializeSnapshot submission.snapshot),
        serializeSnapshot submission.snapshot) := by
  by_cases hsame : s'.memory = s.memory
  · exact .inl (hsame ▸ hentry)
  · obtain ⟨submission, hsubmits, hkind, -, happend⟩ := submits_of_memory_ne h hsame
    rw [happend, MemoryStore.append_revisions] at hentry
    rcases List.mem_append.mp hentry with hold | hnew
    · exact .inl hold
    · exact .inr ⟨submission, hsubmits, hkind, List.mem_singleton.mp hnew⟩

theorem head_of_submits_genesis {source : CognitionSource}
    (h : s.submits (.createCognition source) = some .genesis) : s.memory.head = {} := by
  simp only [submits] at h
  split at h
  · next hboot =>
      obtain ⟨-, hid, -⟩ := hboot
      unfold bootId at hid
      split at hid
      · rw [← head_memory]
        exact RevisionId.isEmpty_iff.mp hid
      · next hrevision => exact (hrevision hid).elim
  · simp at h

theorem genesis_committed {source : CognitionSource}
    (hnamed : ∀ entry ∈ s.memory.revisions, entry.1 ≠ {})
    (h : s.submits (.createCognition source) = some .genesis) :
    (s.submit .genesis).1.kind = .committed := by
  have hempty := MemoryStore.revisions_eq_nil hnamed (head_of_submits_genesis h)
  rcases submit_cases s .genesis with ⟨hne, -⟩ | ⟨-, hsame, -⟩ | ⟨-, -, -, hkind, -⟩
  · exact (hne hempty).elim
  · rw [MemoryStore.headBytes_eq_none.mpr hempty] at hsame
    simp at hsame
  · exact hkind hempty

theorem canonicalHead_of_head (h : CognitionStore.head s.store = {}) : s.canonicalHead = none := by
  unfold ServiceState.canonicalHead
  dsimp only
  rw [h]
  rfl

/-- A write only reaches the store when there is a revision to be canonical. -/
theorem revisions_ne_nil_of_admitted {handle : CognitionHandle}
    {transaction : ContextTransaction} {grant : ExecutionGrant} {entry : Materialization}
    {governance next : Snapshot} (h : s.Admitted handle transaction grant entry governance next) :
    s.memory.revisions ≠ [] := by
  intro hnil
  have hhead : CognitionStore.head s.store = {} := by
    rw [head_memory, s.memory.head_eq, hnil]
    rfl
  have hsome := h.head
  rw [canonicalHead_of_head hhead] at hsome
  simp at hsome

theorem base_of_append {submission : Submission} {call : Call}
    (hsubmits : s.submits call = some submission)
    (hbase : s.memory.revisions = [] ∨ submission.base = s.memory.head) :
    submission.base = s.memory.head := by
  rcases hbase with hnil | hbase
  · cases submission with
    | genesis =>
        rw [s.memory.head_eq, hnil]
        rfl
    | write actor transaction entry next =>
        obtain ⟨handle, grant, governance, -, -, -, hadmitted⟩ := submits_write hsubmits
        exact (revisions_ne_nil_of_admitted hadmitted hnil).elim
  · exact hbase

theorem named_of_run {store : σ} (hempty : (MemoryBacked.memory store).revisions = [])
    (hrun : ServiceRun (ServiceState.start store) trs t) :
    ∀ entry ∈ t.memory.revisions, entry.1 ≠ {} := by
  refine hrun.invariant (P := fun s => ∀ entry ∈ s.memory.revisions, entry.1 ≠ {})
    (C := fun _ => True) (fun _ _ => trivial) ?_ ?_
  · intro entry hentry
    have hnil : entry ∈ (MemoryBacked.memory store).revisions := hentry
    simp [hempty] at hnil
  · intro tr hvalid _ hbefore entry hentry
    rcases mem_revisions_step hvalid hentry with hold | ⟨submission, -, -, rfl⟩
    · exact hbefore entry hold
    · exact revisionOf_ne_empty _ _

/-- The transition commits genesis to an empty memory. -/
def Boots (tr : ServiceTransition σ) : Prop :=
  ∃ source, tr.action = .createCognition source ∧ tr.before.memory.revisions = [] ∧
    tr.after.memory.revisions =
      [(revisionOf {} (serializeSnapshot makeGenesis), serializeSnapshot makeGenesis)]

theorem boots_of_submits_genesis {tr : ServiceTransition σ}
    (hnamed : ∀ entry ∈ tr.before.memory.revisions, entry.1 ≠ {})
    (hsubmits : tr.before.submits tr.action = some .genesis)
    (hmemory : tr.after.memory = tr.before.memory.append
      (revisionOf {} (serializeSnapshot makeGenesis)) (serializeSnapshot makeGenesis)) :
    Boots tr := by
  have hcreate : ∃ source, tr.action = .createCognition source := by
    cases haction : tr.action with
    | createCognition source => exact ⟨source, rfl⟩
    | writeToCognition handle transaction grant =>
        rw [haction] at hsubmits
        simp only [submits] at hsubmits
        split at hsubmits <;> simp at hsubmits
    | _ =>
        rw [haction] at hsubmits
        simp [submits] at hsubmits
  obtain ⟨source, haction⟩ := hcreate
  rw [haction] at hsubmits
  have hnil := MemoryStore.revisions_eq_nil hnamed (head_of_submits_genesis hsubmits)
  refine ⟨source, haction, hnil, ?_⟩
  rw [hmemory, MemoryStore.append_revisions, hnil]
  rfl

/-! ## Decoding a stored encoding -/

theorem eq_restored_of_deserialize {snapshot decoded : Snapshot} (hfit : Fits snapshot)
    (h : deserialize (serializeSnapshot snapshot) = .ok decoded) :
    decoded = restored snapshot ∧ VectorsWithin 100000 snapshot := by
  by_cases hwithin : VectorsWithin 100000 snapshot
  · rw [deserialize_serialize hfit.strings hwithin] at h
    exact ⟨(Except.ok.inj h).symm, hwithin⟩
  · obtain ⟨error, herror⟩ := deserialize_serialize_error hfit hwithin
    rw [herror] at h
    simp at h

/-! ## The invariant -/

/-- Everything in the store and every authoritative entry is rooted in `P`;
an authoritative entry stands for the bytes of its revision. -/
structure Rooted (P : Snapshot → Prop) (s : ServiceState σ) : Prop where
  stored : ∀ entry ∈ s.memory.revisions, ∃ snapshot, P snapshot ∧
    entry.2 = serializeSnapshot snapshot
  live : ∀ m ∈ s.live, m.quarantine = .promoted → P m.state
  faithful : ∀ m ∈ s.live, m.quarantine = .promoted →
    (m.revision, serializeSnapshot m.state) ∈ s.memory.revisions
  settled : ∀ m ∈ s.live, m.quarantine ≠ .authorityPending
  named : ∀ entry ∈ s.memory.revisions, entry.1 ≠ {}

/-- `P` fits the format, holds of genesis and survives a restore. -/
structure Seed (P : Snapshot → Prop) : Prop where
  fits : ∀ snapshot, P snapshot → Fits snapshot
  genesis : P makeGenesis
  restored : ∀ snapshot, P snapshot → P (restored snapshot)

theorem rooted_start {store : σ} (hempty : (MemoryBacked.memory store).revisions = []) :
    Rooted P (ServiceState.start store) where
  stored entry hentry := by
    have hnil : entry ∈ (MemoryBacked.memory store).revisions := hentry
    simp [hempty] at hnil
  live m hm := by simp [ServiceState.start] at hm
  faithful m hm := by simp [ServiceState.start] at hm
  settled m hm := by simp [ServiceState.start] at hm
  named entry hentry := by
    have hnil : entry ∈ (MemoryBacked.memory store).revisions := hentry
    simp [hempty] at hnil

namespace Rooted

theorem materialized (h : Rooted P s) {revision : RevisionId} {bytes : Bytes}
    (hbytes : bytes = CognitionStore.materialize s.store revision) (hne : bytes ≠ []) :
    (revision, bytes) ∈ s.memory.revisions ∧
      ∃ snapshot, P snapshot ∧ bytes = serializeSnapshot snapshot := by
  rw [materialize_memory] at hbytes
  rcases s.memory.materialize_cases revision with ⟨hnil, -⟩ | hmem
  · exact (hne (hbytes.trans hnil)).elim
  · rw [← hbytes] at hmem
    exact ⟨hmem, h.stored _ hmem⟩

/-- The snapshot that the identity port and the H2 gate look at is rooted. -/
theorem canonicalHead (hseed : Seed P) (h : Rooted P s) {governance : Snapshot}
    (hhead : s.canonicalHead = some governance) : P governance := by
  rcases canonicalHead_cases hhead with ⟨entry, hlive, rfl⟩ | hparsed
  · obtain ⟨hmem, -, hpromoted⟩ := liveHead_some hlive
    exact h.live entry hmem hpromoted
  · obtain ⟨-, snapshot, hP, hbytes⟩ := h.materialized rfl (ne_nil_of_deserialize hparsed)
    rw [storedHead, hbytes] at hparsed
    rw [(eq_restored_of_deserialize (hseed.fits _ hP) hparsed).1]
    exact hseed.restored _ hP

/-- What the call submits is rooted, when what it commits is. -/
theorem submission (hseed : Seed P) (h : Rooted P s) {call : Call} {submission : Submission}
    (hsubmits : s.submits call = some submission)
    (hwrite : ∀ actor transaction entry next, submission = .write actor transaction entry next →
      P entry.state → P next) : P submission.snapshot := by
  cases submission with
  | genesis => exact hseed.genesis
  | write actor transaction entry next =>
      obtain ⟨handle, grant, governance, -, -, -, hadmitted⟩ := submits_write hsubmits
      exact hwrite _ _ _ _ rfl
        (h.live entry (findLive_some hadmitted.live).1 hadmitted.promoted)

/-- A revision the store hands out stands for the submitted bytes. -/
theorem receipt_mem (submission : Submission)
    (hcommitted : (s.submit submission).1.kind = .committed) :
    ((s.submit submission).1.revision, serializeSnapshot submission.snapshot) ∈
      (MemoryBacked.memory (s.submit submission).2).revisions := by
  rcases submit_cases s submission with ⟨-, -, hfailed, -⟩ | ⟨-, hsame, -, hrevision, hmemory⟩ |
    ⟨-, -, -, -, hrevision, hmemory⟩
  · simp [hfailed] at hcommitted
  · rw [hmemory, hrevision hcommitted]
    exact MemoryStore.head_mem hsame
  · rw [hmemory, hrevision hcommitted]
    simp

/-- One call keeps the invariant, when it commits a rooted snapshot at most. -/
theorem step (hseed : Seed P) (h : Rooted P s) {call : Call} {answer : Answer}
    (hstep : s.step call = some (answer, s'))
    (hwrite : ∀ actor transaction entry next,
      Commits ⟨s, call, answer, s'⟩ (.write actor transaction entry next) →
      P entry.state → P next) : Rooted P s' := by
  have hprefix := memory_prefix_step hstep
  have hrooted : ∀ submission, s.submits call = some submission →
      (s.submit submission).1.kind ≠ .compareFailed → P submission.snapshot :=
    fun submission hsubmits hkind => h.submission hseed hsubmits
      fun actor transaction entry next heq =>
        hwrite actor transaction entry next (heq ▸ ⟨hsubmits, hkind⟩)
  have hstored : ∀ entry ∈ s'.memory.revisions, (entry.1 ≠ {} ∧ ∃ snapshot, P snapshot ∧
      entry.2 = serializeSnapshot snapshot) := by
    intro entry hentry
    rcases mem_revisions_step hstep hentry with hold | ⟨submission, hsubmits, hkind, rfl⟩
    · exact ⟨h.named entry hold, h.stored entry hold⟩
    · exact ⟨revisionOf_ne_empty _ _, submission.snapshot, hrooted submission hsubmits hkind, rfl⟩
  have hlive : ∀ m ∈ s'.live, m.quarantine ≠ .authorityPending ∧ (m.quarantine = .promoted →
      P m.state ∧ (m.revision, serializeSnapshot m.state) ∈ s'.memory.revisions) := by
    intro m hm
    rcases mem_live_step hstep hm with hold | hnew
    · exact ⟨h.settled m hold, fun hpromoted =>
        ⟨h.live m hold hpromoted, hprefix.subset (h.faithful m hold hpromoted)⟩⟩
    · cases hnew with
      | artifact hparsed => exact ⟨by simp [minted], by simp [minted]⟩
      | booted hbytes hne hparsed =>
          obtain ⟨hmem, snapshot, hP, rfl⟩ := h.materialized hbytes hne
          obtain ⟨rfl, -⟩ := eq_restored_of_deserialize (hseed.fits _ hP) hparsed
          refine ⟨by simp [minted], fun _ => ⟨hseed.restored _ hP, ?_⟩⟩
          change (_, serializeSnapshot (restored snapshot)) ∈ _
          rw [serialize_restored]
          exact hprefix.subset hmem
      | genesis hsubmits =>
          refine ⟨by simp [minted], fun _ => ⟨hseed.genesis, ?_⟩⟩
          rw [memory_of_submits hstep hsubmits]
          exact receipt_mem .genesis (genesis_committed h.named hsubmits)
      | @successor _ transaction _ entry next hsubmits hcommitted =>
          refine ⟨?_, fun _ => ⟨hrooted _ hsubmits (by simp [hcommitted]), ?_⟩⟩
          · obtain ⟨_, _, _, -, -, -, hadmitted⟩ := submits_write hsubmits
            simp [successorMaterialization, hadmitted.promoted]
          · rw [memory_of_submits hstep hsubmits]
            exact receipt_mem _ hcommitted
      | verified hold hisolated => exact ⟨by simp, by simp⟩
      | promoted hold hpending => exact (h.settled _ hold hpending).elim
  exact ⟨fun entry hentry => (hstored entry hentry).2,
    fun m hm hpromoted => ((hlive m hm).2 hpromoted).1,
    fun m hm hpromoted => ((hlive m hm).2 hpromoted).2,
    fun m hm => (hlive m hm).1, fun entry hentry => (hstored entry hentry).1⟩

/-- Along a run whose committing writes preserve `P`, every state is rooted and
every committed snapshot satisfies `P`. -/
theorem run (hseed : Seed P) (hrun : ServiceRun s trs t) (h : Rooted P s)
    (hwrite : ∀ tr ∈ trs, ∀ actor transaction entry next,
      Commits tr (.write actor transaction entry next) → P entry.state → P next) :
    Rooted P t ∧ (∀ tr ∈ trs, Rooted P tr.before ∧ Rooted P tr.after) ∧
      ∀ snapshot, Committed trs snapshot → P snapshot := by
  induction hrun with
  | nil s => exact ⟨h, by simp, by simp [Committed]⟩
  | cons tr rest t hvalid hrest ih =>
      have hfirst := hwrite tr List.mem_cons_self
      have hafter : Rooted P tr.after := h.step hseed hvalid hfirst
      obtain ⟨hend, hall, hcommitted⟩ :=
        ih hafter fun tr htr => hwrite tr (List.mem_cons_of_mem _ htr)
      refine ⟨hend, fun other hother => ?_, ?_⟩
      · rcases List.mem_cons.mp hother with rfl | hother
        · exact ⟨h, hafter⟩
        · exact hall other hother
      · rintro snapshot ⟨other, hother, submission, hcommits, rfl⟩
        rcases List.mem_cons.mp hother with rfl | hother
        · exact h.submission hseed hcommits.1 fun actor transaction entry next heq =>
            hfirst actor transaction entry next (heq ▸ hcommits)
        · exact hcommitted _ ⟨other, hother, submission, hcommits, rfl⟩

end Rooted

/-! ## Runs whose committing writes are sized -/

/-- Every committing write stores short strings and has room under the cap. -/
def SizedRun (cap : ℕ) (trs : List (ServiceTransition σ)) : Prop :=
  ∀ tr ∈ trs, ∀ actor transaction entry next, Commits tr (.write actor transaction entry next) →
    ShortStored transaction ∧ Room cap entry.state transaction.operations

theorem SizedRun.mono {cap cap' : ℕ} (h : SizedRun cap trs) (hle : cap ≤ cap') :
    SizedRun cap' trs := by
  intro tr htr actor transaction entry next hcommits
  obtain ⟨hshort, hroom⟩ := h tr htr actor transaction entry next hcommits
  exact ⟨hshort, hroom.mono hle⟩

theorem SizedRun.subset {cap : ℕ} {part : List (ServiceTransition σ)} (h : SizedRun cap trs)
    (hsubset : part ⊆ trs) : SizedRun cap part :=
  fun tr htr => h tr (hsubset htr)

theorem SizedRun.snoc_release {cap : ℕ} {before after : ServiceState σ} {answer : Answer}
    (h : SizedRun cap trs) (grant : ExecutionGrant) :
    SizedRun cap (trs ++ [⟨before, .releaseGrant grant, answer, after⟩]) := by
  intro tr htr actor transaction entry next hcommits
  rcases List.mem_append.mp htr with htr | htr
  · exact h tr htr actor transaction entry next hcommits
  · obtain rfl := List.mem_singleton.mp htr
    simp [Commits, submits] at hcommits

/-- Sized, and a property of its own. -/
structure Sized (cap : ℕ) (Q : Snapshot → Prop) (snapshot : Snapshot) : Prop where
  strings : StringsShort snapshot
  vectors : VectorsWithin cap snapshot
  own : Q snapshot

omit [Foundation] in
theorem stringsShort_restored {snapshot : Snapshot} (h : StringsShort snapshot) :
    StringsShort (restored snapshot) where
  rootPrincipal := h.rootPrincipal
  articles := h.articles
  rules := h.rules
  state := h.state
  decisions := h.decisions
  memory := forall_mem_map h.memory fun _ hrecord =>
    ⟨hrecord.title, hrecord.statement, hrecord.provenance⟩
  obligations := forall_mem_map h.obligations fun _ hobligation =>
    ⟨short_nil, hobligation.statement, hobligation.completionCriteria⟩
  evidence := h.evidence
  conflicts := h.conflicts
  profiles := h.profiles
  views := h.views
  roles := h.roles

omit [Foundation] in
theorem vectorsWithin_restored {cap : ℕ} {snapshot : Snapshot} :
    VectorsWithin cap (restored snapshot) ↔ VectorsWithin cap snapshot := by
  have hmemory : (restored snapshot).memory.length = snapshot.memory.length := by
    simp [restored]
  have hobligations : (restored snapshot).obligations.length = snapshot.obligations.length := by
    simp [restored]
  have hrecord : (∀ record ∈ (restored snapshot).memory,
      record.provenance.sources.length ≤ cap) ↔
      ∀ record ∈ snapshot.memory, record.provenance.sources.length ≤ cap := by
    simp [restored, restoredMemory]
  constructor
  · intro h
    exact ⟨h.articles, h.handoff, h.recovery, h.rules, h.decisions, h.decision,
      hmemory ▸ h.memory, hrecord.mp h.record, hobligations ▸ h.obligations, h.evidence,
      h.conflicts, h.profiles, h.views, h.view, h.roles, h.role⟩
  · intro h
    exact ⟨h.articles, h.handoff, h.recovery, h.rules, h.decisions, h.decision,
      hmemory.symm ▸ h.memory, hrecord.mpr h.record, hobligations.symm ▸ h.obligations,
      h.evidence, h.conflicts, h.profiles, h.views, h.view, h.roles, h.role⟩

omit [Foundation] in
theorem seed_sized {cap : ℕ} {Q : Snapshot → Prop} (hlow : 18 ≤ cap) (hhigh : cap < 2 ^ 32)
    (hgenesis : Q makeGenesis) (hrestored : ∀ snapshot, Q snapshot → Q (restored snapshot)) :
    Seed (Sized cap Q) where
  fits _ h := ⟨h.strings, h.vectors.mono (Nat.le_pred_of_lt hhigh)⟩
  genesis := ⟨genesis_stringsShort, genesis_vectorsWithin hlow, hgenesis⟩
  restored _ h := ⟨stringsShort_restored h.strings, vectorsWithin_restored.mpr h.vectors,
    hrestored _ h.own⟩

/-- Along a sized run, what genesis has, a restore keeps and every committing
write preserves, holds of everything committed and everything authoritative. -/
theorem Rooted.sizedRun {cap : ℕ} {Q : Snapshot → Prop} (hlow : 18 ≤ cap)
    (hhigh : cap < 2 ^ 32) (hrun : ServiceRun s trs t) (hstart : Rooted (Sized cap Q) s)
    (hsized : SizedRun cap trs) (hgenesis : Q makeGenesis)
    (hrestored : ∀ snapshot, Q snapshot → Q (restored snapshot))
    (hwrite : ∀ tr ∈ trs, ∀ actor transaction entry next,
      Commits tr (.write actor transaction entry next) → Q entry.state → Q next) :
    Rooted (Sized cap Q) t ∧
      (∀ tr ∈ trs, Rooted (Sized cap Q) tr.before ∧ Rooted (Sized cap Q) tr.after) ∧
      ∀ snapshot, Committed trs snapshot → Sized cap Q snapshot := by
  refine Rooted.run (seed_sized hlow hhigh hgenesis hrestored) hrun hstart ?_
  intro tr htr actor transaction entry next hcommits hentry
  obtain ⟨hshort, hroom⟩ := hsized tr htr actor transaction entry next hcommits
  obtain ⟨hgates, hnext⟩ := hcommits.gates
  refine ⟨?_, ?_, hwrite tr htr actor transaction entry next hcommits hentry.own⟩
  · exact hnext ▸ stringsShort_applyOperations hentry.strings hshort
  · exact hnext ▸ vectorsWithin_applyOperations hentry.vectors (by omega) hgates hroom

theorem rooted_of_sizedRun {cap : ℕ} {Q : Snapshot → Prop} {store : σ} (hlow : 18 ≤ cap)
    (hhigh : cap < 2 ^ 32) (hempty : (MemoryBacked.memory store).revisions = [])
    (hrun : ServiceRun (ServiceState.start store) trs t) (hsized : SizedRun cap trs)
    (hgenesis : Q makeGenesis) (hrestored : ∀ snapshot, Q snapshot → Q (restored snapshot))
    (hwrite : ∀ tr ∈ trs, ∀ actor transaction entry next,
      Commits tr (.write actor transaction entry next) → Q entry.state → Q next) :
    Rooted (Sized cap Q) t ∧
      (∀ tr ∈ trs, Rooted (Sized cap Q) tr.before ∧ Rooted (Sized cap Q) tr.after) ∧
      ∀ snapshot, Committed trs snapshot → Sized cap Q snapshot :=
  Rooted.sizedRun hlow hhigh hrun (rooted_start hempty) hsized hgenesis hrestored hwrite

end QivenContext
