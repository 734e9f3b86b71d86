import QivenContext.Committed
import QivenContext.Idempotency
import QivenContext.Lease

/-!
# Commit authority

The lease of a state was minted by an earlier call for an actor that the
identity port accepted, and no call since has released it. The store only
moves at genesis, or under that lease.
-/

namespace QivenContext

open Library ServiceState

/-! ## The store -/

section Store

variable [Foundation] {σ : Type} [MemoryBacked σ] {s s' t : ServiceState σ}
  {trs past rest : List (ServiceTransition σ)} {tr : ServiceTransition σ}

/-- All that a write needs at the moment it moves the store. -/
structure Authorized (past : List (ServiceTransition σ)) (s : ServiceState σ)
    (handle : CognitionHandle) (transaction : ContextTransaction) (grant : ExecutionGrant) :
    Prop where
  registered : ∃ entry, s.findLive handle = some entry ∧ entry.quarantine = .promoted ∧
    transaction.base = entry.revision
  active : s.activeGrantId.isEmpty = false ∧ s.activeGrantId = grant.id
  leased : Leased past grant.id s.grantActor
  verified : s.verifies s.grantActor = true
  supervised : grant.mode = .supervisedForeground
  base : transaction.base = CognitionStore.head s.store

theorem Leased.grant {handle : CognitionHandle} {transaction : ContextTransaction}
    {grant : ExecutionGrant} {entry : Materialization} {governance next : Snapshot} {store : σ}
    (hrun : ServiceRun (ServiceState.start store) past s)
    (h : s.Admitted handle transaction grant entry governance next) :
    Leased past grant.id s.grantActor :=
  h.grantId ▸ leased_of_run hrun h.lease

/-- In a run over an empty store, the memory moves only by the genesis commit
of a creation, or by a write with all of the authority. -/
theorem memory_moves_with_authority {store : σ}
    (hempty : (MemoryBacked.memory store).revisions = [])
    (hrun : ServiceRun (ServiceState.start store) (past ++ tr :: rest) t)
    (hchange : tr.after.memory ≠ tr.before.memory) :
    Boots tr ∨
    ∃ handle transaction grant, tr.action = .writeToCognition handle transaction grant ∧
      Authorized past tr.before handle transaction grant := by
  obtain ⟨m, hpast, hrest⟩ := hrun.append_inv
  obtain ⟨rfl, hvalid, -⟩ := hrest.cons_inv
  obtain ⟨submission, hsubmits, -, hbase, hmemory⟩ := submits_of_memory_ne hvalid hchange
  cases submission with
  | genesis =>
      exact .inl (boots_of_submits_genesis (named_of_run hempty hpast) hsubmits hmemory)
  | write actor transaction entry next =>
      obtain ⟨handle, grant, governance, haction, -, -, hadmitted⟩ := submits_write hsubmits
      refine .inr ⟨handle, transaction, grant, haction, ?_⟩
      have hhead := base_of_append hsubmits hbase
      have hverified : tr.before.verifies tr.before.grantActor = true := by
        obtain ⟨verifier, hidentity, hverified⟩ := hadmitted.verified
        simp only [verifies, hadmitted.head, hidentity, hverified]
      refine ⟨⟨entry, hadmitted.live, hadmitted.promoted, hadmitted.base⟩,
        ⟨hadmitted.lease, hadmitted.grantId⟩, Leased.grant hpast hadmitted, hverified,
        hadmitted.supervised, ?_⟩
      rw [head_memory, hadmitted.base]
      exact hhead

end Store

open scoped QivenContext.Reference in
/-- The keyed write moves the store, and had all of the authority. -/
theorem keyedEvidence_moves_with_authority :
    ∃ (past : List (ServiceTransition MemoryStore)) (tr : ServiceTransition MemoryStore)
      (t : ServiceState MemoryStore),
      ServiceRun (ServiceState.start {}) (past ++ tr :: []) t ∧
        tr.after.memory ≠ tr.before.memory ∧
        ∃ handle transaction grant, tr.action = .writeToCognition handle transaction grant ∧
          Authorized past tr.before handle transaction grant := by
  obtain ⟨past, s, m, t, m', hrun, -, hwrote, -, hmoved, -⟩ := exists_keyedEvidence
  refine ⟨past, _, t, hwrote.run hrun, hmoved, ?_⟩
  rcases memory_moves_with_authority rfl (hwrote.run hrun) hmoved with
    ⟨source, haction, -⟩ | hauthorized
  · simp [OnHead.written] at haction
  · exact hauthorized

end QivenContext
