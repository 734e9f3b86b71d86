import QivenContext.Freeze
import QivenContext.Idempotency

/-!
# A resolution beside the work it unblocks

The conflict gate looks at the snapshot before the transaction, and skips the
operations on conflicts without looking at what they resolve. A transaction
that resolves every conflict in its way is refused for them all the same.
-/

namespace QivenContext

open Library Snapshot ServiceState

/-! ## Which gate refuses with what -/

section Gates

variable {operations : List Operation}
  {current : Snapshot} {transaction : ContextTransaction} {operation : Operation}

theorem forM_gate_cases {gate : Operation → Gate} {halt : Halt}
    (h : ∀ operation ∈ operations, gate operation = .ok () ∨ gate operation = .error halt) :
    forM operations gate = .ok () ∨ forM operations gate = .error halt := by
  induction operations with
  | nil => exact .inl rfl
  | cons operation rest ih =>
      obtain ⟨hthis, hrest⟩ := List.forall_mem_cons.mp h
      rw [List.forM_cons]
      rcases hthis with hok | herror
      · rw [hok]
        exact ih hrest
      · rw [herror]
        exact .inr rfl

theorem conflictGate_cases (current : Snapshot) (operation : Operation) :
    conflictGate current operation = .ok () ∨
      conflictGate current operation = .error (.refuse .conflictUnresolved) := by
  unfold conflictGate refuseIf
  split_ifs <;> simp

/-- The gate lets every operation through exactly when the transaction leaves
the scopes of the open conflicts alone. -/
theorem respects_iff_gate : Respects current transaction ↔
    ∀ operation ∈ transaction.operations, conflictGate current operation = .ok () := by
  refine ⟨fun h operation hoperation => ?_, respects_of_gate⟩
  unfold conflictGate
  split
  · rfl
  · next hother =>
      rw [refuseIf_eq_ok]
      rintro ⟨conflict, hmem, hopen, hscope⟩
      obtain ⟨hne, hne'⟩ := h conflict hmem hopen operation hoperation hother
      rcases hscope with hempty | hsame
      · exact hne (List.isEmpty_iff.mp hempty)
      · exact hne' hsame.symm

theorem successorOf_conflictUnresolved [Foundation] {rootPrincipal : PrincipalId}
    {actorBinding : Str} :
    successorOf current rootPrincipal actorBinding transaction =
        .error (.refuse .conflictUnresolved) ↔
      (∀ operation ∈ transaction.operations,
        policyGate current rootPrincipal actorBinding transaction operation = .ok ()) ∧
      ¬ Respects current transaction := by
  rw [respects_iff_gate, ← forM_gate_eq_ok, ← forM_gate_eq_ok]
  have hpolicy : forM transaction.operations
      (policyGate current rootPrincipal actorBinding transaction) ≠
        .error (.refuse .conflictUnresolved) :=
    forM_gate_ne fun _ => policyGate_ne (by decide) (by decide) (by decide)
  have hrest : (do
      forM transaction.operations (invariantGate current)
      boundaryGate (applyOperations transaction current)
      return applyOperations transaction current) ≠
        (.error (.refuse .conflictUnresolved) : Except Halt Snapshot) :=
    bind_ne (forM_gate_ne fun _ => invariantGate_ne (by decide) fun _ _ _ => by decide)
      fun _ _ => check_ne (by decide) (by simp [pure, Except.pure])
  unfold successorOf
  rcases forM_gate_cases fun operation _ => conflictGate_cases current operation with hok | herror
  · rw [hok]
    refine iff_of_false ?_ fun h => h.2 rfl
    exact bind_ne hpolicy fun _ _ => hrest
  · rw [herror]
    cases hgate : forM transaction.operations
        (policyGate current rootPrincipal actorBinding transaction) with
    | error halt =>
        rw [hgate] at hpolicy
        exact iff_of_false (fun h => hpolicy (by simpa [bind, Except.bind] using h)) (by simp)
    | ok done => exact iff_of_true rfl ⟨rfl, by simp⟩

end Gates

section Write

variable [Foundation] {σ : Type} [MemoryBacked σ] {s : ServiceState σ} {handle : CognitionHandle}
  {transaction : ContextTransaction} {grant : ExecutionGrant} {entry : Materialization}
  {trs : List (ServiceTransition σ)}

/-- Receipt, lease, mode, base and policy leave the verdict to the conflicts. -/
structure ReachesConflicts (s : ServiceState σ) (handle : CognitionHandle)
    (transaction : ContextTransaction) (grant : ExecutionGrant) (entry : Materialization) :
    Prop where
  key : s.resolveKey transaction = none
  base : transaction.base = entry.revision
  supervised : grant.mode = .unattended → transaction.operations = []
  lease : ∃ governance, s.leaseGates handle grant = .ok (entry, governance) ∧
    ∀ operation ∈ transaction.operations, policyGate entry.state
      governance.governance.rootPrincipal s.grantActor.binding transaction operation = .ok ()

theorem leaseGates_ne :
    s.leaseGates handle grant ≠ .error (.refuse .conflictUnresolved) := by
  rcases leaseGates_cases s handle grant with ⟨-, h⟩ | ⟨entry, -, ⟨-, h⟩ | ⟨-, -, h⟩ |
    ⟨-, -, -, -, h⟩ | ⟨-, -, -, -, governance, h⟩⟩ <;> simp [h]

theorem admission_conflictUnresolved :
    s.admission handle transaction grant = .error (.refuse .conflictUnresolved) ↔
      ∃ entry governance, s.leaseGates handle grant = .ok (entry, governance) ∧
        (grant.mode = .unattended → transaction.operations = []) ∧
        transaction.base = entry.revision ∧
        successorOf entry.state governance.governance.rootPrincipal s.grantActor.binding
          transaction = .error (.refuse .conflictUnresolved) := by
  unfold admission
  constructor
  · intro h
    obtain ⟨⟨entry, governance⟩, hlease, h⟩ :=
      (except_bind_eq_error.mp h).resolve_left leaseGates_ne
    obtain ⟨_, hmode, h⟩ := (except_bind_eq_error.mp h).resolve_left (refuseIf_ne (by decide))
    obtain ⟨_, hbase, h⟩ := (except_bind_eq_error.mp h).resolve_left (refuseIf_ne (by decide))
    rw [refuseIf_eq_ok] at hmode hbase
    split at h
    · simp [pure, Except.pure] at h
    · obtain hsuccessor | ⟨_, -, h⟩ := except_bind_eq_error.mp h
      · exact ⟨entry, governance, hlease, by simpa using hmode, not_not.mp hbase, hsuccessor⟩
      · simp [pure, Except.pure] at h
  · rintro ⟨entry, governance, hlease, hmode, hbase, hsuccessor⟩
    have hne : transaction.operations ≠ [] := by
      intro hnil
      obtain ⟨-, hrespects⟩ := successorOf_conflictUnresolved.mp hsuccessor
      exact hrespects fun _ _ _ operation hmem => by simp [hnil] at hmem
    refine except_bind_eq_error.mpr (.inr ⟨(entry, governance), hlease, ?_⟩)
    refine except_bind_eq_error.mpr (.inr ⟨(), refuseIf_eq_ok.mpr (by simpa using hmode), ?_⟩)
    refine except_bind_eq_error.mpr (.inr ⟨(), refuseIf_eq_ok.mpr (by simp [hbase]), ?_⟩)
    rw [if_neg (by simpa using hne), hsuccessor]
    rfl

/-- No receipt of a reachable state names a conflict. -/
theorem resolveKey_ne {store : σ} (hrun : ServiceRun (ServiceState.start store) trs s) :
    s.resolveKey transaction ≠ some (.refuse .conflictUnresolved) := by
  intro h
  unfold resolveKey at h
  split at h
  · simp at h
  · obtain ⟨receipt, hreceipt, houtcome⟩ := Option.map_eq_some_iff.mp h
    split at houtcome
    · simp [Verdict.refuse] at houtcome
    · exact receipt_not_refused hrun receipt hreceipt (by rw [houtcome]; rfl)

theorem commit_ne {next : Snapshot} :
    (s.commit handle entry transaction next).1 ≠ .refuse .conflictUnresolved := by
  unfold commit
  dsimp only
  split <;> simp [Verdict.refuse]

/-- A reachable state refuses a write for a conflict exactly when gate 7.5 is
reached and some operation is in the scope of an open one. -/
theorem refuses_conflictUnresolved {store : σ}
    (hrun : ServiceRun (ServiceState.start store) trs s) :
    Refuses s handle transaction grant .conflictUnresolved ↔
      ∃ entry, ReachesConflicts s handle transaction grant entry ∧
        ¬ Respects entry.state transaction := by
  constructor
  · rintro ⟨s', hwrite⟩
    rcases write_cases hwrite with ⟨hreplayed, -⟩ | ⟨hkey, reason, hverdict, -, hadmission⟩ |
      ⟨-, -, -, hverdict⟩ | ⟨-, entry, next, -, hcommit⟩
    · exact (resolveKey_ne hrun hreplayed).elim
    · obtain rfl : .conflictUnresolved = reason := by simpa [Verdict.refuse] using hverdict
      obtain ⟨entry, governance, hlease, hmode, hbase, hsuccessor⟩ :=
        admission_conflictUnresolved.mp hadmission
      obtain ⟨hpolicy, hrespects⟩ := successorOf_conflictUnresolved.mp hsuccessor
      exact ⟨entry, ⟨hkey, hbase, hmode, governance, hlease, hpolicy⟩, hrespects⟩
    · simp [Verdict.refuse] at hverdict
    · exact (commit_ne (congrArg Prod.fst hcommit).symm).elim
  · rintro ⟨entry, hreaches, hrespects⟩
    obtain ⟨governance, hlease, hpolicy⟩ := hreaches.lease
    have hadmission := admission_conflictUnresolved.mpr ⟨entry, governance, hlease,
      hreaches.supervised, hreaches.base,
      successorOf_conflictUnresolved.mpr ⟨hpolicy, hrespects⟩⟩
    exact ⟨s, by simp only [writeToCognition, hreaches.key, hadmission]⟩

/-! ## Resolving what is in the way -/

/-- The conflict is open on the scope of the operation, or on every scope. -/
def Conflict.Blocks (conflict : Conflict) (operation : Operation) : Prop :=
  conflict.status = .isOpen ∧ (conflict.scope = [] ∨ conflict.scope = operation.scope)

/-- The transaction resolves every conflict that some operation of it meets. -/
def ResolvesAll (current : Snapshot) (transaction : ContextTransaction) : Prop :=
  ∀ operation ∈ transaction.operations, ∀ conflict ∈ current.conflicts,
    conflict.Blocks operation → Settles conflict.id transaction.operations

/-- A transaction that resolves all it meets passes the conflicts exactly when
it does nothing in their scopes but open and resolve, or when something before
them answers it. -/
theorem resolution_unblocks_iff {store : σ} (hrun : ServiceRun (ServiceState.start store) trs s)
    (hlive : s.findLive handle = some entry) :
    (ResolvesAll entry.state transaction →
      ¬ Refuses s handle transaction grant .conflictUnresolved) ↔
    (ResolvesAll entry.state transaction → ReachesConflicts s handle transaction grant entry →
      ∀ operation ∈ transaction.operations, ¬ operation.OnConflicts →
        ∀ conflict ∈ entry.state.conflicts, ¬ conflict.Blocks operation) := by
  have hrespects : Respects entry.state transaction ↔
      ∀ operation ∈ transaction.operations, ¬ operation.OnConflicts →
        ∀ conflict ∈ entry.state.conflicts, ¬ conflict.Blocks operation := by
    unfold Respects Conflict.Blocks
    constructor
    · rintro h operation hoperation hother conflict hmem ⟨hopen, hscope⟩
      obtain ⟨hne, hne'⟩ := h conflict hmem hopen operation hoperation hother
      exact hscope.elim hne fun hsame => hne' hsame.symm
    · intro h conflict hmem hopen operation hoperation hother
      have hnot := h operation hoperation hother conflict hmem
      exact ⟨fun hempty => hnot ⟨hopen, .inl hempty⟩, fun hsame => hnot ⟨hopen, .inr hsame.symm⟩⟩
  refine imp_congr_right fun _ => ?_
  rw [refuses_conflictUnresolved hrun, ← hrespects]
  constructor
  · intro h hreaches
    by_contra hblocked
    exact h ⟨entry, hreaches, hblocked⟩
  · rintro h ⟨found, hreaches, hblocked⟩
    obtain ⟨governance, hlease, -⟩ := hreaches.lease
    obtain rfl : entry = found := Option.some.inj (hlive.symm.trans (leaseGates_eq_ok.mp hlease).1)
    exact hblocked (h hreaches)

end Write

/-! ## Evidence beside a resolution -/

section Resolved

open scoped QivenContext.Reference

def resolveOpened : Operation where
  kind := .resolveConflict
  title := lit "conflict"
  payload := lit "resolution"

def resolving (base : RevisionId) (operations : List Operation) : ContextTransaction where
  base := base
  operations := resolveOpened :: operations

theorem resolving_resolvesAll (base : RevisionId) (operations : List Operation) (byte : UInt8) :
    ResolvesAll (openedWorld [opened (lit "conflict") byte]) (resolving base operations) := by
  intro operation _ conflict hmem _
  obtain rfl := List.mem_singleton.mp hmem
  exact ⟨resolveOpened, List.mem_cons_self, rfl, rfl⟩

theorem OnHead.leaseGates {s : ServiceState MemoryStore} {m : Materialization}
    (h : OnHead s m) : ∃ governance, s.leaseGates (some m) firstGrant = .ok (m, governance) ∧
      governance.governance = makeGenesis.governance := by
  obtain ⟨governance, hhead, hgoverned⟩ := h.canonicalHead
  refine ⟨governance, leaseGates_eq_ok.mpr ⟨h.findLive, h.promoted, ?_, h.lease, hhead,
    rootPrincipalVerifier, h.identity, ?_⟩, hgoverned⟩
  · rw [h.lease]
    decide
  · rw [h.actor]
    simp only [rootPrincipalVerifier, hgoverned]
    decide

theorem resolution_alone_passes :
    ∃ (trs : List (ServiceTransition MemoryStore)) (s : ServiceState MemoryStore)
      (m : Materialization), ServiceRun (ServiceState.start {}) trs s ∧
        m.state.conflicts ≠ [] ∧ ResolvesAll m.state (resolving m.revision []) ∧
        ¬ Refuses s (some m) (resolving m.revision []) firstGrant .conflictUnresolved := by
  obtain ⟨byte, more, trs, s, m, t, m', u, m'', hrun, -, -, hwrote, hstate', -⟩ := exists_opened
  have hresolves : ResolvesAll m'.state (resolving m'.revision []) :=
    hstate' ▸ resolving_resolvesAll _ _ byte
  refine ⟨_, t, m', hwrote.run hrun, by rw [hstate']; exact List.cons_ne_nil _ _, hresolves,
    (resolution_unblocks_iff (hwrote.run hrun) hwrote.onHead.findLive).mpr ?_ hresolves⟩
  intro _ _ operation hmem hother
  obtain rfl := List.mem_singleton.mp hmem
  exact (hother (.inr rfl)).elim

/-- The conflict is resolved by the transaction, and the evidence next to the
resolution is refused for it. -/
theorem resolution_refused :
    ∃ (trs : List (ServiceTransition MemoryStore)) (s : ServiceState MemoryStore)
      (m : Materialization) (transaction : ContextTransaction),
        ServiceRun (ServiceState.start {}) trs s ∧ s.findLive (some m) = some m ∧
        m.quarantine = .promoted ∧ ResolvesAll m.state transaction ∧
        Refuses s (some m) transaction firstGrant .conflictUnresolved := by
  obtain ⟨byte, more, trs, s, m, t, m', u, m'', hrun, -, -, hwrote, hstate', -⟩ := exists_opened
  refine ⟨_, t, m', resolving m'.revision [addEvidence (lit "boundary") (lit "content")],
    hwrote.run hrun, hwrote.onHead.findLive, hwrote.onHead.promoted,
    hstate' ▸ resolving_resolvesAll _ _ byte,
    (refuses_conflictUnresolved (hwrote.run hrun)).mpr ⟨m', ?_, ?_⟩⟩
  · obtain ⟨governance, hlease, hgoverned⟩ := hwrote.onHead.leaseGates
    refine ⟨by simp [resolveKey, resolving], rfl, by simp [firstGrant], governance, hlease, ?_⟩
    intro operation hmem
    refine policyGate_default (by rw [hstate']; rfl) ?_
    rcases List.mem_pair.mp hmem with rfl | rfl <;> decide
  · intro hrespects
    have hconflict : opened (lit "conflict") byte ∈ m'.state.conflicts := by
      rw [hstate']
      exact List.mem_singleton_self _
    exact (hrespects _ hconflict rfl (addEvidence (lit "boundary") (lit "content"))
      (List.mem_cons_of_mem _ (List.mem_singleton_self _))
      (by simp [Operation.OnConflicts, addEvidence])).1 rfl

end Resolved

end QivenContext
