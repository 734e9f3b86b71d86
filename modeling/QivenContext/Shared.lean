import QivenContext.Fresh

/-!
# A store that is not the service's own

The store is attached from outside and can be exchanged at any time, and who
else holds it commits to it directly. Between two calls anything may have
happened to it. What a handle stands for is named by its revision alone, so a
write lands on the content that its handle was materialized from, or not at
all.
-/

namespace QivenContext

open Library ServiceState

/-- What happens to a service: a call, the attachment of a store, or a commit
of another holder of its store. -/
inductive Event (σ : Type) where
  | call (call : Call)
  | attachStore (store : σ)
  | swap (base : RevisionId) (stateBytes : Bytes)

section Events

variable [Foundation] {σ : Type} [CognitionStore σ]

def ServiceState.attachStore (s : ServiceState σ) (store : σ) : ServiceState σ :=
  { s with store := store }

def ServiceState.happen (s : ServiceState σ) : Event σ → Option (Option Answer × ServiceState σ)
  | .call call => (s.step call).map fun result => (some result.1, result.2)
  | .attachStore store => some (none, s.attachStore store)
  | .swap base stateBytes =>
      some (none, s.attachStore (CognitionStore.compareAndSwap s.store base stateBytes).2)

abbrev Occurrence (σ : Type) := Transition (ServiceState σ) (Event σ) (Option Answer)

/-- A run of calls among whatever happens to the store. -/
abbrev OpenRun (s : ServiceState σ) (occurrences : List (Occurrence σ)) (t : ServiceState σ) :
    Prop :=
  Run ServiceState.happen s occurrences t

theorem happen_call {s s' : ServiceState σ} {call : Call} {answer : Option Answer}
    (h : s.happen (.call call) = some (answer, s')) :
    ∃ result, answer = some result ∧ s.step call = some (result, s') := by
  obtain ⟨⟨result, after⟩, hstep, hresult⟩ := Option.map_eq_some_iff.mp h
  obtain ⟨rfl, rfl⟩ := Prod.mk.inj hresult
  exact ⟨result, rfl, hstep⟩

end Events

section Shared

variable [Foundation] {σ : Type} [MemoryBacked σ] {s s' t : ServiceState σ}
  {occurrences : List (Occurrence σ)} {W : RevisionId → Bytes → Prop} {m : Materialization}
  {bytes : Bytes} {snapshot : Snapshot}

/-- A revision that some store of the run held. -/
def Seen (occurrences : List (Occurrence σ)) (revision : RevisionId) (bytes : Bytes) : Prop :=
  ∃ o ∈ occurrences, (revision, bytes) ∈ o.before.memory.revisions ∨
    (revision, bytes) ∈ o.after.memory.revisions

/-- A revision id names one content. -/
structure Names (W : RevisionId → Bytes → Prop) : Prop where
  named : ∀ revision bytes, W revision bytes → revision ≠ {}
  unique : ∀ revision bytes bytes', W revision bytes → W revision bytes' → bytes = bytes'

/-- The bytes are what the snapshot was read from, or what it is written as. -/
def Denotes (bytes : Bytes) (snapshot : Snapshot) : Prop :=
  deserialize bytes = .ok snapshot ∨ bytes = serializeSnapshot snapshot

/-- What an authoritative entry was materialized from was in some store. -/
structure Backed (W : RevisionId → Bytes → Prop) (s : ServiceState σ) : Prop where
  backed : ∀ m ∈ s.live, m.quarantine = .promoted → ∃ bytes, W m.revision bytes ∧
    Denotes bytes m.state
  settled : ∀ m ∈ s.live, m.quarantine ≠ .authorityPending

/-- Everything in the store is one of the revisions. -/
def Within (W : RevisionId → Bytes → Prop) (s : ServiceState σ) : Prop :=
  ∀ entry ∈ s.memory.revisions, W entry.1 entry.2

theorem Within.mem_of_materialize (h : Within W s) {revision : RevisionId}
    (hne : s.memory.materialize revision ≠ []) : W revision (s.memory.materialize revision) := by
  rcases s.memory.materialize_cases revision with ⟨hnil, -⟩ | hmem
  · exact (hne hnil).elim
  · exact h _ hmem

/-- A call keeps what its entries were materialized from. -/
theorem Backed.step (h : Backed W s) (hnames : Names W) (hwithin : Within W s)
    (hwithin' : Within W s') {call : Call} {answer : Answer}
    (hstep : s.step call = some (answer, s')) : Backed W s' := by
  have hnamed : ∀ entry ∈ s.memory.revisions, entry.1 ≠ {} := fun entry hentry =>
    hnames.named _ _ (hwithin entry hentry)
  have hlive : ∀ m ∈ s'.live, (m.quarantine = .promoted → ∃ bytes, W m.revision bytes ∧
      Denotes bytes m.state) ∧ m.quarantine ≠ .authorityPending := by
    intro m hm
    rcases mem_live_step hstep hm with hold | hnew
    · exact ⟨h.backed m hold, h.settled m hold⟩
    · cases hnew with
      | artifact hparsed => exact ⟨by simp [minted], by simp [minted]⟩
      | booted hbytes hne hparsed =>
          refine ⟨fun _ => ⟨_, ?_, .inl hparsed⟩, by simp [minted]⟩
          rw [hbytes, materialize_memory] at hne ⊢
          exact hwithin.mem_of_materialize hne
      | genesis hsubmits =>
          refine ⟨fun _ => ⟨_, ?_, .inr rfl⟩, by simp [minted]⟩
          have hmem := Rooted.receipt_mem .genesis (genesis_committed hnamed hsubmits)
          rw [← memory_of_submits hstep hsubmits] at hmem
          exact hwithin' _ hmem
      | successor hsubmits hcommitted =>
          refine ⟨fun _ => ⟨_, ?_, .inr rfl⟩, ?_⟩
          · have hmem := Rooted.receipt_mem _ hcommitted
            rw [← memory_of_submits hstep hsubmits] at hmem
            exact hwithin' _ hmem
          · obtain ⟨_, _, _, -, -, -, hadmitted⟩ := submits_write hsubmits
            simp [successorMaterialization, hadmitted.promoted]
      | verified hold hisolated => exact ⟨by simp, by simp⟩
      | promoted hold hpending => exact (h.settled _ hold hpending).elim
  exact ⟨fun m hm => (hlive m hm).1, fun m hm => (hlive m hm).2⟩

theorem Backed.happen (h : Backed W s) (hnames : Names W) (hwithin : Within W s)
    (hwithin' : Within W s') {event : Event σ} {answer : Option Answer}
    (hstep : s.happen event = some (answer, s')) : Backed W s' := by
  cases event with
  | call call =>
      obtain ⟨result, -, hcall⟩ := happen_call hstep
      exact h.step hnames hwithin hwithin' hcall
  | attachStore store =>
      obtain ⟨-, rfl⟩ := Prod.mk.inj (Option.some.inj hstep)
      exact ⟨h.backed, h.settled⟩
  | swap base stateBytes =>
      obtain ⟨-, rfl⟩ := Prod.mk.inj (Option.some.inj hstep)
      exact ⟨h.backed, h.settled⟩

theorem within_of_seen {o : Occurrence σ} (ho : o ∈ occurrences) :
    Within (Seen occurrences) o.before ∧ Within (Seen occurrences) o.after :=
  ⟨fun _ hentry => ⟨o, ho, .inl hentry⟩, fun _ hentry => ⟨o, ho, .inr hentry⟩⟩

theorem backed_of_run {store : σ} (hrun : OpenRun (ServiceState.start store) occurrences t)
    (hnames : Names (Seen occurrences)) {o : Occurrence σ} (ho : o ∈ occurrences) :
    Backed (Seen occurrences) o.before := by
  obtain ⟨past, rest, hsplit⟩ := List.append_of_mem ho
  have hrun' : OpenRun (ServiceState.start store) (past ++ o :: rest) t := hsplit ▸ hrun
  obtain ⟨_, hpast, hrest⟩ := hrun'.append_inv
  obtain ⟨rfl, -, -⟩ := hrest.cons_inv
  refine hpast.invariant (P := Backed (Seen occurrences)) (C := fun o => o ∈ occurrences) ?_ ?_ ?_
  · intro o ho
    rw [hsplit]
    exact List.mem_append_left _ ho
  · exact ⟨by simp [ServiceState.start], by simp [ServiceState.start]⟩
  · intro o hvalid ho h
    obtain ⟨hbefore, hafter⟩ := within_of_seen ho
    exact h.happen hnames hbefore hafter hvalid

/-! ## One write -/

/-- The write turned the head, which is what its handle was materialized from,
into its successor: one revision more, or none where the bytes are the same. -/
structure LandsOn (s s' : ServiceState σ) (handle : CognitionHandle)
    (transaction : ContextTransaction) (entry : Materialization) (base : Bytes) : Prop where
  live : s.findLive handle = some entry
  named : transaction.base = entry.revision
  head : s.memory.head = entry.revision
  bytes : s.memory.headBytes = some base
  denotes : Denotes base entry.state
  stored : let next := serializeSnapshot (applyOperations transaction entry.state)
    (next = base ∧ s'.memory = s.memory) ∨
      s'.memory = s.memory.append (revisionOf entry.revision next) next

/-- Neither the service nor the memory behind it is touched. -/
structure Untouched (s s' : ServiceState σ) : Prop where
  memory : s'.memory = s.memory
  live : s'.live = s.live
  receipts : s'.receipts = s.receipts
  lease : s'.activeGrantId = s.activeGrantId

/-- What can happen to a write, and what it means that a new one is applied. -/
structure WriteOutcome (s s' : ServiceState σ) (handle : CognitionHandle)
    (transaction : ContextTransaction) (verdict : Verdict) : Prop where
  cases : Untouched s s' ∨ ∃ entry base, LandsOn s s' handle transaction entry base
  applied : verdict.outcome = .applied → s.resolveKey transaction = none →
    transaction.operations ≠ [] → ∃ entry base m, LandsOn s s' handle transaction entry base ∧
      verdict.successor = some m ∧ m.state = applyOperations transaction entry.state ∧
      (m.revision, serializeSnapshot m.state) ∈ s'.memory.revisions

section Write

variable {handle : CognitionHandle} {transaction : ContextTransaction} {grant : ExecutionGrant}
  {entry : Materialization} {next : Snapshot} {answer : Answer} {verdict : Verdict}

theorem landsOn_of_admission (hnames : Names W) (hbacked : Backed W s) (hwithin : Within W s)
    (hstep : s.step (.writeToCognition handle transaction grant) = some (answer, s'))
    (hkey : s.resolveKey transaction = none)
    (hadmission : s.admission handle transaction grant = .ok (entry, some next))
    (hkind : (s.submit (.write s.grantActor transaction entry next)).1.kind ≠ .compareFailed) :
    ∃ base, LandsOn s s' handle transaction entry base ∧
      next = applyOperations transaction entry.state := by
  obtain ⟨governance, hadmitted⟩ := admission_eq_ok.mp hadmission
  obtain ⟨-, -, -, -, hnext⟩ := successorOf_eq_ok.mp hadmitted.successor
  have hmemory := memory_of_submits hstep (submits_of_admission hkey hadmission)
  have hne := revisions_ne_nil_of_admitted hadmitted
  obtain ⟨base, hbase⟩ := Option.ne_none_iff_exists'.mp
    (mt MemoryStore.headBytes_eq_none.mp hne)
  obtain ⟨bytes, hbytes, hdenotes⟩ :=
    hbacked.backed entry (findLive_some hadmitted.live).1 hadmitted.promoted
  have hheadMem : W s.memory.head base := hwithin _ (MemoryStore.head_mem hbase)
  rcases submit_cases s (.write s.grantActor transaction entry next) with ⟨-, -, hfailed, -⟩ |
    ⟨hhead, hsame, -, -, hafter⟩ | ⟨hhead, -, -, -, -, hafter⟩
  · exact (hkind hfailed).elim
  · have hhead' : s.memory.head = entry.revision := hhead.symm
    -- one id, so the head holds what the entry was materialized from
    obtain rfl := hnames.unique _ _ _ hheadMem (hhead' ▸ hbytes)
    refine ⟨base, ⟨hadmitted.live, hadmitted.base, hhead', hbase, hdenotes, .inl ⟨?_, ?_⟩⟩, hnext⟩
    · rw [← hnext]
      exact Option.some.inj (hsame.symm.trans hbase)
    · exact hmemory.trans hafter
  · have hhead' : s.memory.head = entry.revision := (hhead.resolve_left hne).symm
    obtain rfl := hnames.unique _ _ _ hheadMem (hhead' ▸ hbytes)
    refine ⟨base, ⟨hadmitted.live, hadmitted.base, hhead', hbase, hdenotes, .inr ?_⟩, hnext⟩
    rw [← hnext]
    exact hmemory.trans hafter

theorem untouched_of_diverged (hcommit : (verdict, s') = s.commit handle entry transaction next)
    (hkind : (s.submit (.write s.grantActor transaction entry next)).1.kind = .compareFailed) :
    Untouched s s' := by
  rcases commit_cases hcommit with ⟨-, -, rfl⟩ | ⟨hlost, -⟩ | ⟨hcommitted, -⟩
  · refine ⟨?_, rfl, rfl, rfl⟩
    rcases submit_cases s (.write s.grantActor transaction entry next) with ⟨-, -, -, hsame⟩ |
      ⟨-, -, hother, -⟩ | ⟨-, -, hother, -⟩
    · exact hsame
    · exact (hother hkind).elim
    · exact (hother hkind).elim
  · simp [hlost] at hkind
  · simp [hcommitted] at hkind

theorem writeOutcome (hnames : Names W) (hbacked : Backed W s) (hwithin : Within W s)
    (hstep : s.step (.writeToCognition handle transaction grant) = some (.verdict verdict, s')) :
    WriteOutcome s s' handle transaction verdict := by
  obtain ⟨verdict', hverdict, hwrite⟩ := step_writeToCognition hstep
  obtain rfl : verdict = verdict' := Answer.verdict.inj hverdict
  constructor
  · rcases write_cases hwrite with ⟨-, rfl⟩ | ⟨-, reason, -, rfl, -⟩ | ⟨-, rfl, -⟩ |
      ⟨hkey, entry, next, hadmission, hcommit⟩
    · exact .inl ⟨rfl, rfl, rfl, rfl⟩
    · exact .inl ⟨rfl, rfl, rfl, rfl⟩
    · exact .inl ⟨rfl, rfl, rfl, rfl⟩
    · by_cases hkind : (s.submit (.write s.grantActor transaction entry next)).1.kind =
          .compareFailed
      · exact .inl (untouched_of_diverged hcommit hkind)
      · obtain ⟨base, hlands, -⟩ :=
          landsOn_of_admission hnames hbacked hwithin hstep hkey hadmission hkind
        exact .inr ⟨entry, base, hlands⟩
  · intro happlied hkey hoperations
    obtain ⟨entry, next, hadmission, hcommit, hcommitted⟩ :=
      admission_of_applied hwrite happlied hkey hoperations
    obtain ⟨base, hlands, hnext⟩ := landsOn_of_admission hnames hbacked hwithin hstep hkey
      hadmission (by simp [hcommitted])
    have hmem := Rooted.receipt_mem _ hcommitted
    rw [← memory_of_submits hstep (submits_of_admission hkey hadmission)] at hmem
    rcases commit_cases hcommit with ⟨hfailed, -, -⟩ | ⟨hlost, -, -⟩ | ⟨-, m, rfl, hverdict, -⟩
    · simp [hfailed] at hcommitted
    · simp [hlost] at hcommitted
    · exact ⟨entry, base, _, hlands, congrArg Verdict.successor hverdict, hnext, hmem⟩

end Write

/-- Whatever happens to the store between the calls, as long as a revision id
names one content: no call takes back what is stored, and a write lands on what
its handle was materialized from, or touches nothing. -/
theorem writes_land_or_leave {store : σ}
    (hrun : OpenRun (ServiceState.start store) occurrences t) (hnames : Names (Seen occurrences)) :
    ∀ o ∈ occurrences, ∀ call answer, o.action = .call call → o.answer = some answer →
      o.before.memory.revisions <+: o.after.memory.revisions ∧
      ∀ handle transaction grant verdict, call = .writeToCognition handle transaction grant →
        answer = .verdict verdict → WriteOutcome o.before o.after handle transaction verdict := by
  intro o ho call answer haction hanswer
  have hvalid : o.before.happen o.action = some (o.answer, o.after) := hrun.valid_of_mem ho
  rw [haction, hanswer] at hvalid
  obtain ⟨result, hresult, hstep⟩ := happen_call hvalid
  obtain rfl := Option.some.inj hresult
  refine ⟨memory_prefix_step hstep, ?_⟩
  rintro handle transaction grant verdict rfl rfl
  exact writeOutcome hnames (backed_of_run hrun hnames ho) (within_of_seen ho).1 hstep

end Shared

/-! ## A store that is given back -/

section Built

variable [Foundation]

/-- A transition of the service among the events. -/
def occurrence (tr : ServiceTransition MemoryStore) : Occurrence MemoryStore :=
  ⟨tr.before, .call tr.action, some tr.answer, tr.after⟩

theorem openRun_of_serviceRun {s t : ServiceState MemoryStore}
    {trs : List (ServiceTransition MemoryStore)} (hrun : ServiceRun s trs t) :
    OpenRun s (trs.map occurrence) t := by
  induction hrun with
  | nil s => exact .nil s
  | cons tr rest t hvalid _ ih =>
      refine .cons (occurrence tr) _ t ?_ ih
      have hstep : tr.before.step tr.action = some (tr.answer, tr.after) := hvalid
      simp [Transition.Valid, occurrence, happen, hstep]

theorem seen_occurrence {s t : ServiceState MemoryStore}
    {trs : List (ServiceTransition MemoryStore)} (hrun : ServiceRun s trs t)
    {o : Occurrence MemoryStore} (ho : o ∈ trs.map occurrence) {entry : RevisionId × Bytes}
    (hentry : entry ∈ o.before.memory.revisions ∨ entry ∈ o.after.memory.revisions) :
    entry ∈ t.memory.revisions := by
  obtain ⟨tr, htr, rfl⟩ := List.mem_map.mp ho
  obtain ⟨past, rest, rfl⟩ := List.append_of_mem htr
  obtain ⟨_, -, hrest⟩ := hrun.append_inv
  obtain ⟨rfl, hvalid, hrest⟩ := hrest.cons_inv
  rcases hentry with hentry | hentry
  · exact (memory_prefix_of_run hrest).subset ((memory_prefix_step hvalid).subset hentry)
  · exact (memory_prefix_of_run hrest).subset hentry

omit [Foundation] in
/-- Two revisions with ids of their own name what is seen of them. -/
theorem names_of_pair {W : RevisionId → Bytes → Prop} {first second : RevisionId × Bytes}
    (hseen : ∀ revision bytes, W revision bytes → (revision, bytes) ∈ [first, second])
    (hnamed : ∀ revision bytes, W revision bytes → revision ≠ {}) (hne : second.1 ≠ first.1) :
    Names W where
  named := hnamed
  unique revision bytes bytes' h h' := by
    rcases List.mem_pair.mp (hseen revision bytes h) with hfirst | hfirst <;>
      rcases List.mem_pair.mp (hseen revision bytes' h') with hsecond | hsecond
    · rw [← hsecond] at hfirst
      exact (Prod.mk.inj hfirst).2
    · rw [← hfirst, ← hsecond] at hne
      exact (hne rfl).elim
    · rw [← hfirst, ← hsecond] at hne
      exact (hne rfl).elim
    · rw [← hsecond] at hfirst
      exact (Prod.mk.inj hfirst).2

end Built

open scoped QivenContext.Reference in
/-- A service is bound to another store for a while, and given its own back. -/
theorem returned_store_written :
    ∃ (occurrences : List (Occurrence MemoryStore)) (t : ServiceState MemoryStore)
      (o : Occurrence MemoryStore) (transaction : ContextTransaction) (entry m : Materialization)
      (base : Bytes),
      OpenRun (ServiceState.start {}) occurrences t ∧ o ∈ occurrences ∧
        .attachStore {} ∈ occurrences.map Transition.action ∧
        LandsOn o.before o.after (some entry) transaction entry base ∧
        m.state = applyOperations transaction entry.state ∧
        (m.revision, serializeSnapshot m.state) ∈ o.after.memory.revisions := by
  obtain ⟨byte, trs, s, m, t, m', hrun, -, honHead, hstate, hwrote, -, hrevisions, hafter,
    hfresh⟩ := exists_fresh_batch (show 1 < 2 ^ 32 - 1 by norm_num)
  let transaction := addAll m.revision (batchEvidence 1 byte)
  let write : Occurrence MemoryStore := occurrence (OnHead.written s m transaction t m')
  let occurrences : List (Occurrence MemoryStore) :=
    ((trs.map occurrence ++ [⟨s, .attachStore {}, none, s.attachStore {}⟩]) ++
      [⟨s.attachStore {}, .attachStore s.store, none, s⟩]) ++ [write]
  have hrun' := hwrote.run hrun
  have hempty : s.happen (.attachStore {}) = some (none, s.attachStore {}) := rfl
  have hback : (s.attachStore {}).happen (.attachStore s.store) = some (none, s) := rfl
  have hlast := openRun_of_serviceRun ((Run.nil s).snoc hwrote.step)
  have hall : OpenRun (ServiceState.start {}) occurrences t := (((openRun_of_serviceRun
    hrun).snoc hempty).snoc hback).append hlast
  have hkept : ∀ entry ∈ s.memory.revisions, entry ∈ t.memory.revisions := fun entry hentry =>
    (memory_prefix_step hwrote.step).subset hentry
  have hseen : ∀ revision bytes, Seen occurrences revision bytes →
      (revision, bytes) ∈ t.memory.revisions := by
    rintro revision bytes ⟨o, ho, hentry⟩
    have hnone : (revision, bytes) ∉ (s.attachStore {}).memory.revisions := List.not_mem_nil
    rcases List.mem_append.mp ho with ho | ho
    · rcases List.mem_append.mp ho with ho | ho
      · rcases List.mem_append.mp ho with ho | ho
        · exact hkept _ (seen_occurrence hrun ho hentry)
        · obtain rfl := List.mem_singleton.mp ho
          exact hkept _ (hentry.resolve_right hnone)
      · obtain rfl := List.mem_singleton.mp ho
        exact hkept _ (hentry.resolve_left hnone)
    · exact seen_occurrence ((Run.nil s).snoc hwrote.step) ho hentry
  have hnames : Names (Seen occurrences) := by
    have hpair (revision : RevisionId) (bytes : Bytes) (h : Seen occurrences revision bytes) :
        (revision, bytes) ∈ t.store.revisions := hseen revision bytes h
    rw [hafter] at hpair
    exact names_of_pair hpair
      (fun revision bytes h => named_of_run rfl hrun' _ (hseen revision bytes h)) hfresh
  have hmem : write ∈ occurrences := List.mem_append_right _ (List.mem_singleton_self write)
  obtain ⟨-, houtcome⟩ := writes_land_or_leave hall hnames write hmem _ _ rfl rfl
  have hkey : s.resolveKey transaction = none := by simp [resolveKey, transaction, addAll]
  obtain ⟨entry, base, successor, hlands, -, hsuccessor, hstored⟩ :=
    (houtcome (some m) transaction firstGrant _ rfl rfl).applied rfl hkey (List.cons_ne_nil _ _)
  obtain rfl : entry = m := Option.some.inj (hlands.live.symm.trans honHead.findLive)
  exact ⟨occurrences, t, write, transaction, entry, successor, base, hall, hmem, by
    simp [occurrences], hlands, hsuccessor, hstored⟩

end QivenContext
