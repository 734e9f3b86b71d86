import QivenContext.Fresh

/-!
# Calls that fail

A call that is refused, or that returns nothing, leaves the service as it
found it, whatever the state and whatever store answers the comparison. A
lost acknowledgement moves the store and the one receipt of its key.
-/

namespace QivenContext

open Library ServiceState

section Failures

variable [Foundation] {σ : Type} [CognitionStore σ] {s s' : ServiceState σ}
  {handle : CognitionHandle} {transaction : ContextTransaction} {grant : ExecutionGrant}

/-- The store, the registry, the receipts, the lease and the epoch are the same. -/
structure Unchanged (s s' : ServiceState σ) : Prop where
  store : s'.store = s.store
  live : s'.live = s.live
  receipts : s'.receipts = s.receipts
  activeGrantId : s'.activeGrantId = s.activeGrantId
  grantActor : s'.grantActor = s.grantActor
  epoch : s'.epoch = s.epoch

/-- All but the store is the same, and the receipts but for this key. -/
structure OnlyStoreAnd (key : Str) (s s' : ServiceState σ) : Prop where
  live : s'.live = s.live
  receipts : ∀ other, other ≠ key ∨ key = [] → s'.receipts other = s.receipts other
  activeGrantId : s'.activeGrantId = s.activeGrantId
  grantActor : s'.grantActor = s.grantActor
  epoch : s'.epoch = s.epoch

omit [Foundation] [CognitionStore σ] in
theorem Unchanged.refl (s : ServiceState σ) : Unchanged s s := ⟨rfl, rfl, rfl, rfl, rfl, rfl⟩

omit [Foundation] [CognitionStore σ] in
theorem Unchanged.withIdentity (s : ServiceState σ) : Unchanged s s.withIdentity :=
  ⟨rfl, rfl, rfl, rfl, rfl, rfl⟩

omit [Foundation] [CognitionStore σ] in
theorem Unchanged.onlyStoreAnd (h : Unchanged s s') (key : Str) : OnlyStoreAnd key s s' :=
  ⟨h.live, fun _ _ => congrFun h.receipts _, h.activeGrantId, h.grantActor, h.epoch⟩

/-- A store that leaves itself unchanged when it fails a comparison. -/
def FailsClean (σ : Type) [CognitionStore σ] : Prop :=
  ∀ (store : σ) base stateBytes,
    (CognitionStore.compareAndSwap store base stateBytes).1.kind = .compareFailed →
      (CognitionStore.compareAndSwap store base stateBytes).2 = store

omit [CognitionStore σ] in
@[simp] theorem record_epoch (verdict : Verdict) :
    (s.record transaction verdict).epoch = s.epoch := by
  unfold record
  split <;> rfl

omit [CognitionStore σ] in
theorem record_onlyStoreAnd (s : ServiceState σ) (store : σ) (verdict : Verdict) :
    OnlyStoreAnd transaction.idempotencyKey s
      (({ s with store := store } : ServiceState σ).record transaction verdict) := by
  refine ⟨by simp, fun other hother => ?_, by simp, by simp, by simp⟩
  by_cases hkey : transaction.idempotencyKey = []
  · rw [record_unkeyed hkey]
  · rw [record_receipts rfl hkey,
      Function.update_of_ne (hother.resolve_right hkey)]

/-! ## The write -/

theorem write_refused (hstore : FailsClean σ) {verdict : Verdict}
    (h : s.writeToCognition handle transaction grant = some (verdict, s'))
    (hrefused : verdict.outcome = .refused) : Unchanged s s' := by
  rcases write_cases h with ⟨-, rfl⟩ | ⟨-, reason, -, rfl, -⟩ | ⟨-, rfl, -, -⟩ |
    ⟨-, entry, next, -, hcommit⟩
  · exact .refl s'
  · exact .refl s'
  · exact .refl s'
  · rcases commit_cases hcommit with ⟨hfailed, -, rfl⟩ | ⟨-, rfl, -⟩ | ⟨-, m, -, rfl, -⟩
    · exact ⟨hstore _ _ _ hfailed, rfl, rfl, rfl, rfl, rfl⟩
    · simp at hrefused
    · simp at hrefused

theorem write_unknown {verdict : Verdict}
    (h : s.writeToCognition handle transaction grant = some (verdict, s'))
    (hunknown : verdict.outcome = .outcomeUnknown) :
    OnlyStoreAnd transaction.idempotencyKey s s' := by
  rcases write_cases h with ⟨-, rfl⟩ | ⟨-, reason, rfl, -, -⟩ | ⟨-, rfl, -, rfl⟩ |
    ⟨-, entry, next, -, hcommit⟩
  · exact (Unchanged.refl s').onlyStoreAnd _
  · simp [Verdict.refuse] at hunknown
  · simp at hunknown
  · rcases commit_cases hcommit with ⟨-, rfl, -⟩ | ⟨-, -, rfl⟩ | ⟨-, m, -, rfl, -⟩
    · simp [Verdict.refuse] at hunknown
    · exact record_onlyStoreAnd s _ verdict
    · simp at hunknown

/-! ## The other calls -/

theorem create_failed {source : CognitionSource} {creation : Creation}
    (h : s.createCognition source = (creation, s')) (hfailed : ∀ m, creation ≠ .handle m) :
    Unchanged s s' := by
  rcases createCognition_cases h with ⟨rfl, -, -⟩ | ⟨-, -, snapshot, m, -, -, hhandle, -⟩ |
    ⟨-, -, snapshot, m, bytes, -, -, -, -, hhandle, -⟩ | ⟨-, m, -, hhandle, -⟩
  · exact .refl s'
  · exact (hfailed m hhandle).elim
  · exact (hfailed m hhandle).elim
  · exact (hfailed m hhandle).elim

theorem acquire_nothing {actor : AuthenticatedActor} {mode : WorkMode}
    (h : s.acquireGrant actor mode = (none, s')) : Unchanged s s' := by
  rcases acquireGrant_cases h with ⟨-, rfl | rfl⟩ | ⟨id, -, -, -, hgranted, -⟩
  · exact .refl s'
  · exact .withIdentity s
  · simp at hgranted

theorem moveQuarantine_nothing {actor : AuthenticatedActor} {source target : QuarantineState}
    (h : s.moveQuarantine handle actor source target = (none, s')) : Unchanged s s' := by
  rcases moveQuarantine_cases h with ⟨-, rfl⟩ | ⟨entry, m, -, -, -, hmoved, -⟩
  · exact .withIdentity s
  · simp at hmoved

omit [Foundation] [CognitionStore σ] in
theorem retire_nothing (h : s.retireCognition handle = (false, s')) : Unchanged s s' := by
  unfold retireCognition at h
  split at h
  · simp at h
  · obtain ⟨-, rfl⟩ := Prod.mk.inj h
    exact .refl s

/-- Whatever the state and the arguments, a call that fails changes nothing,
and a lost acknowledgement nothing but the store and its own receipt. -/
theorem failed_call_unchanged (hstore : FailsClean σ) (s : ServiceState σ) :
    (∀ handle transaction grant verdict s',
      s.writeToCognition handle transaction grant = some (verdict, s') →
        (verdict.outcome = .refused → Unchanged s s') ∧
        (verdict.outcome = .outcomeUnknown → OnlyStoreAnd transaction.idempotencyKey s s')) ∧
    (∀ source creation s', s.createCognition source = (creation, s') →
      (∀ m, creation ≠ .handle m) → Unchanged s s') ∧
    (∀ actor mode s', s.acquireGrant actor mode = (none, s') → Unchanged s s') ∧
    (∀ handle actor s', s.verifyRestored handle actor = (none, s') → Unchanged s s') ∧
    (∀ handle actor s', s.promoteAuthority handle actor = (none, s') → Unchanged s s') ∧
    ∀ handle s', s.retireCognition handle = (false, s') → Unchanged s s' :=
  ⟨fun _ _ _ _ _ h => ⟨write_refused hstore h, write_unknown h⟩, fun _ _ _ => create_failed,
    fun _ _ _ => acquire_nothing, fun _ _ _ => moveQuarantine_nothing,
    fun _ _ _ => moveQuarantine_nothing, fun _ _ => retire_nothing⟩

theorem memoryStore_failsClean : FailsClean MemoryStore := by
  intro store base stateBytes hfailed
  rcases store.compareAndSwap_cases base stateBytes with ⟨-, -, hcas⟩ | ⟨-, -, hcas⟩ |
    ⟨-, -, hcas⟩
  · exact congrArg Prod.snd hcas
  · have hkind : (store.compareAndSwap base stateBytes).1.kind = .compareFailed := hfailed
    simp [hcas] at hkind
  · have hkind : (store.compareAndSwap base stateBytes).1.kind = .compareFailed := hfailed
    simp [hcas] at hkind

theorem faultInjectionStore_failsClean : FailsClean FaultInjectionStore := by
  intro store base stateBytes hfailed
  simp only [CognitionStore.compareAndSwap, FaultInjectionStore.compareAndSwap] at hfailed ⊢
  by_cases hcommitted : (store.inner.compareAndSwap base stateBytes).1.kind = .committed
  · rw [if_pos hcommitted] at hfailed
    split at hfailed <;> simp [hcommitted] at hfailed
  · rw [if_neg hcommitted] at hfailed ⊢
    have hinner : (store.inner.compareAndSwap base stateBytes).2 = store.inner :=
      memoryStore_failsClean store.inner base stateBytes hfailed
    dsimp only
    rw [hinner]

end Failures

/-! ## A lost acknowledgement -/

section Lost

variable [Foundation]

/-- The fault-injecting store that loses every acknowledgement. -/
def losing (inner : MemoryStore) (commits : ℕ) : FaultInjectionStore where
  inner := inner
  loses _ := true
  commits := commits

/-- The service with that store attached over its memory. -/
def attachLosing (s : ServiceState MemoryStore) : ServiceState FaultInjectionStore where
  store := losing s.store 0
  identity := s.identity
  live := s.live
  activeGrantId := s.activeGrantId
  grantActor := s.grantActor
  grantGeneration := s.grantGeneration
  receipts := s.receipts
  epoch := s.epoch
  nextAddress := s.nextAddress

variable {s t : ServiceState MemoryStore} {m m' : Materialization}
  {transaction : ContextTransaction}

theorem compareAndSwap_losing {store : MemoryStore} {base : RevisionId} {stateBytes : Bytes}
    (hcommitted : (store.compareAndSwap base stateBytes).1.kind = .committed)
    (hsome : store.revisions ≠ []) (commits : ℕ) :
    CognitionStore.compareAndSwap (losing store commits) base stateBytes =
      ({ kind := .outcomeUnknown },
        losing (store.compareAndSwap base stateBytes).2 (commits + 1)) := by
  simp only [CognitionStore.compareAndSwap, FaultInjectionStore.compareAndSwap, losing]
  rw [if_pos hcommitted, if_pos ⟨trivial, hsome⟩]

/-- What the memory would have applied is recorded as lost. -/
theorem OnHead.Wrote.lost (h : OnHead.Wrote s m transaction t m')
    (hsome : s.store.revisions ≠ []) :
    ∃ u, (attachLosing s).writeToCognition (some m) transaction firstGrant =
        some ({ outcome := .outcomeUnknown, reason := .outcomeUnresolved }, u) ∧
      u.store = losing t.store 1 ∧ u.identity = s.identity := by
  obtain ⟨handle, grant, governance, hcall, hkey, -, hadmitted⟩ := submits_write h.submits
  obtain ⟨rfl, -, rfl⟩ := Call.writeToCognition.inj hcall
  have hadmitted' : (attachLosing s).Admitted (some m) transaction firstGrant m governance
      m'.state := { hadmitted with }
  have hadmission := admission_eq_ok.mpr ⟨governance, hadmitted'⟩
  have hkey' : (attachLosing s).resolveKey transaction = none := hkey
  have hcommitted : (s.store.compareAndSwap m.revision (serializeSnapshot m'.state)).1.kind =
      .committed := h.committed
  have hcas := compareAndSwap_losing hcommitted hsome 0
  rw [← h.store] at hcas
  refine ⟨({ attachLosing s with store := losing t.store 1 } :
    ServiceState FaultInjectionStore).record transaction
      { outcome := .outcomeUnknown, reason := .outcomeUnresolved }, ?_, by simp, by simp; rfl⟩
  simp only [writeToCognition, hkey', hadmission]
  rw [commit, show (attachLosing s).store = losing s.store 0 from rfl, hcas]

/-- The store refuses a base that it has moved on from. -/
theorem compareAndSwap_losing_stale {store : MemoryStore} {base : RevisionId}
    (hnamed : store.head ≠ {}) (hstale : base ≠ store.head) (stateBytes : Bytes) (commits : ℕ) :
    CognitionStore.compareAndSwap (losing store commits) base stateBytes =
      ({ kind := .compareFailed }, losing store commits) := by
  have hsome : store.revisions ≠ [] := by
    intro hnil
    have hempty := store.head_eq
    rw [hnil] at hempty
    exact hnamed hempty
  have hrefused : store.compareAndSwap base stateBytes =
      ({ kind := .compareFailed }, store) := by
    rw [MemoryStore.compareAndSwap, if_pos ⟨hsome, hstale⟩]
  simp only [CognitionStore.compareAndSwap, FaultInjectionStore.compareAndSwap, losing, hrefused]
  rfl

/-- The head that the lost write left is governed as the registry is. -/
theorem OnHead.Wrote.lost_governed (h : OnHead.Wrote s m transaction t m')
    (honHead : OnHead s m) {snapshot : Snapshot}
    (hparsed : deserialize (t.store.materialize m'.revision) = .ok snapshot)
    (hgoverned : snapshot.governance = makeGenesis.governance)
    {u : ServiceState FaultInjectionStore} (hlive : u.live = s.live)
    (hstore : u.store = losing t.store 1) :
    ∃ governance, u.canonicalHead = some governance ∧
      governance.governance = makeGenesis.governance := by
  have hhead : CognitionStore.head u.store = m'.revision := by
    rw [hstore]
    exact h.onHead.head
  have hdecodes : u.storedHead = .ok snapshot := by
    rw [storedHead, hhead, hstore]
    exact hparsed
  obtain ⟨governance, hcanonical⟩ :=
    exists_canonicalHead_of (hhead ▸ h.onHead.named) ⟨snapshot, hdecodes⟩
  refine ⟨governance, hcanonical, ?_⟩
  rcases canonicalHead_cases hcanonical with ⟨entry, hentry, rfl⟩ | hstored
  · exact honHead.governed entry (hlive ▸ (liveHead_some hentry).1)
  · rw [hdecodes] at hstored
    exact Except.ok.inj hstored ▸ hgoverned

/-- The head has moved on under the handle, and the store refuses its next write. -/
theorem OnHead.Wrote.diverges (h : OnHead.Wrote s m transaction t m') (honHead : OnHead s m)
    (hfresh : m'.revision ≠ m.revision) {snapshot : Snapshot}
    (hparsed : deserialize (t.store.materialize m'.revision) = .ok snapshot)
    (hgoverned : snapshot.governance = makeGenesis.governance)
    {u : ServiceState FaultInjectionStore} {key : Str}
    (hkept : OnlyStoreAnd key (attachLosing s) u) (hstore : u.store = losing t.store 1)
    (hport : u.identity = s.identity) :
    u.writeToCognition (some m) { transaction with idempotencyKey := [] } firstGrant =
      some (.refuse .storeDiverged, u) := by
  have hlive : u.live = s.live := hkept.live
  have hlease : u.activeGrantId = s.activeGrantId := hkept.activeGrantId
  have hactor : u.grantActor = s.grantActor := hkept.grantActor
  obtain ⟨governance, hcanonical, hroot⟩ :=
    h.lost_governed honHead hparsed hgoverned hlive hstore
  obtain ⟨handle, grant, before, hcall, -, -, hadmitted⟩ := submits_write h.submits
  obtain ⟨rfl, -, rfl⟩ := Call.writeToCognition.inj hcall
  have hbefore : before.governance = makeGenesis.governance := by
    obtain ⟨found, hfound, hsame⟩ := honHead.canonicalHead
    rw [Option.some.inj (hadmitted.head.symm.trans hfound), hsame]
  -- the gates read the registry, the lease and the governance, all as they were
  have hadmitted' : u.Admitted (some m) { transaction with idempotencyKey := [] } firstGrant m
      governance m'.state := by
    have hfind : u.findLive (some m) = some m := by
      unfold ServiceState.findLive
      rw [hlive]
      exact honHead.findLive
    refine ⟨hfind, honHead.promoted, hlease ▸ hadmitted.lease, hlease ▸ hadmitted.grantId,
      hcanonical, ⟨rootPrincipalVerifier, hport ▸ honHead.identity, ?_⟩, hadmitted.supervised,
      hadmitted.base, hadmitted.nonempty, ?_⟩
    · rw [hactor, honHead.actor]
      simp only [rootPrincipalVerifier, hroot]
      decide
    · rw [hroot, ← hbefore, hactor]
      exact hadmitted.successor
  have hadmission := admission_eq_ok.mpr ⟨governance, hadmitted'⟩
  have hkey : u.resolveKey { transaction with idempotencyKey := [] } = none := by
    simp [resolveKey]
  have hcas : CognitionStore.compareAndSwap u.store m.revision (serializeSnapshot m'.state) =
      ({ kind := .compareFailed }, u.store) := by
    have hmoved : t.store.head = m'.revision := h.onHead.head
    rw [hstore]
    exact compareAndSwap_losing_stale (hmoved ▸ h.onHead.named) (hmoved ▸ hfresh.symm) _ _
  simp only [writeToCognition, hkey, hadmission]
  rw [commit, hcas]

end Lost

section Reference

open scoped QivenContext.Reference

/-- Two pieces of evidence under a key. -/
def keyedBatch (base : RevisionId) (byte : UInt8) : ContextTransaction :=
  { addAll base (batchEvidence 1 byte) with idempotencyKey := lit "key" }

/-- The acknowledgement of a first write is lost: the memory has moved and the
key is recorded. The next write through the handle is refused by the store, and
moves nothing. -/
theorem lost_then_diverged_unchanged :
    ∃ (trs : List (ServiceTransition MemoryStore)) (s : ServiceState MemoryStore)
      (m : Materialization) (transaction : ContextTransaction)
      (u v : ServiceState FaultInjectionStore),
      ServiceRun (ServiceState.start {}) trs s ∧ OnHead s m ∧
        (attachLosing s).writeToCognition (some m) transaction firstGrant =
          some ({ outcome := .outcomeUnknown, reason := .outcomeUnresolved }, u) ∧
        u.store.inner ≠ s.store ∧ OnlyStoreAnd (lit "key") (attachLosing s) u ∧
        u.writeToCognition (some m) { transaction with idempotencyKey := [] } firstGrant =
          some (.refuse .storeDiverged, v) ∧ Unchanged u v := by
  obtain ⟨byte, trs, s, m, t, m', hrun, -, honHead, hstate, hwrote, hstate', hrevisions, hafter,
    hfresh⟩ := exists_fresh_write keyedBatch _ (by
      intro s m byte honHead hstate hreceipts
      obtain ⟨t, m', hwrote, -⟩ := honHead.writeEvidence (hstate ▸ genesis_quiet)
        (keyedBatch m.revision byte) (resolveKey_fresh (hreceipts _)) rfl (List.cons_ne_nil _ _)
        (@addAll_evidenceOnly m.revision _ fun _ hmem => (mem_batchEvidence hmem).1)
      refine ⟨t, m', hwrote, hwrote.state.trans ?_⟩
      rw [hstate]
      exact applyOperations_addAll m.revision (batchEvidence 1 byte) makeGenesis)
    (serialize_batchEvidence 1) fun byte => serialize_evidence_ne (List.cons_ne_nil _ _)
      (fun _ hmem => (mem_batchEvidence hmem).2) (by rw [length_batchEvidence]; norm_num)
  have hshort : ∀ record ∈ batchEvidence 1 byte, Snapshot.ShortEvidence record :=
    fun _ hmem => (mem_batchEvidence hmem).2
  have hparsed : deserialize (t.store.materialize m'.revision) =
      .ok (restored { makeGenesis with evidence := batchEvidence 1 byte }) := by
    rw [MemoryStore.materialize_of_pair hafter hfresh]
    exact deserialize_serialize { genesis_stringsShort with evidence := hshort }
      { genesis_vectorsWithin (by norm_num) with
        evidence := by rw [length_batchEvidence]; norm_num }
  obtain ⟨hfirst, -⟩ := failed_call_unchanged faultInjectionStore_failsClean (attachLosing s)
  obtain ⟨u, hlost, hstore, hport⟩ := hwrote.lost (by simp [hrevisions])
  have hkept := (hfirst _ _ _ _ _ hlost).2 rfl
  have hdiverges := hwrote.diverges honHead hfresh hparsed rfl hkept hstore hport
  obtain ⟨hsecond, -⟩ := failed_call_unchanged faultInjectionStore_failsClean u
  refine ⟨trs, s, m, _, u, u, hrun, honHead, hlost, fun hsame => ?_, hkept, hdiverges,
    (hsecond _ _ _ _ _ hdiverges).1 rfl⟩
  have hlength := congrArg (fun store => store.revisions.length) hsame
  simp [hstore, losing, hafter, hrevisions] at hlength

end Reference

end QivenContext
