import QivenContext.Bundle
import QivenContext.Idempotency
import QivenContext.Participants
import QivenContext.Reference
import QivenContext.Scenario

/-!
# The causal work cycle

`LLM::work` takes the lease, reads, asks the generator for a delta, hands it to
the gated write and releases the lease; a refusal is looked up in the recovery
table. The time a turn took is an argument. Every delta is stamped with the
revision of the handle, and an applied one moves the handle: so the cycle never
presents the same request twice, unless the head stayed where it was.
-/

namespace QivenContext

open Library ServiceState

inductive CheckpointTrigger where
  | turnBoundary | materialTransaction | asyncExit | sessionClose
  deriving DecidableEq, Inhabited

/-- In seconds. -/
structure TurnBudget where
  soft : ℤ := 26 * 60
  hard : ℤ := 2 * soft

structure EvidenceGap where
  what : Str := []
  whyUnknown : Str := []
  deriving DecidableEq, Inhabited

/-- The sidecar of a session, as far as the cycle writes it. -/
structure SessionCheckpoint where
  acceptedRefs : List RevisionId := []
  unacceptedCandidates : List RevisionId := []
  evidenceGaps : List EvidenceGap := []
  knownGaps : Str := []
  nextAction : Str := []
  lastTrigger : CheckpointTrigger := .turnBoundary
  servingDisclosure : Str := []
  deriving DecidableEq, Inhabited

/-- The model with what its work cycle uses. -/
structure WorkingLLM extends LLM where
  turnBudget : TurnBudget := {}
  queryBuilder : Option (Str → Query) := none
  deltaGenerator : Option (Str → Snapshot → ContextTransaction) := none
  checkpoint : SessionCheckpoint := {}
  parkedDeltas : List ContextTransaction := []

/-- The switch has no case for an unresolved conflict. -/
def refusalName : RefusalReason → Str
  | .grantRefused => lit "grant-refused"
  | .unverifiedActor => lit "unverified-actor"
  | .staleBase => lit "stale-base"
  | .handoffMissing => lit "handoff-missing"
  | .handoffInvalid => lit "handoff-invalid"
  | .unattendedMutation => lit "unattended-mutation"
  | .invariantFailed => lit "invariant-failed"
  | .governanceDenied => lit "governance-denied"
  | .storeDiverged => lit "store-diverged"
  | .outcomeUnresolved => lit "outcome-unresolved"
  | .keyConflict => lit "key-conflict"
  | .conflictUnresolved => lit "unknown"

def RecoveryAction.nextAction : RecoveryAction → Str
  | .rereadRethink => lit "re-read, re-think; never blind-retry"
  | .haltEscalate => lit "halt; escalate for typed handoff; retry is forbidden"
  | .deferToSupervised => lit "defer to a supervised session"
  | .designReview => lit "design review required (constitution 17)"
  | .failClosed => lit "fail closed"
  | .block => lit "outcome unknown; dependent mutations stopped"

/-- The fencing token: the revision that the thinking assumed. -/
def ContextTransaction.stamped (transaction : ContextTransaction) (handle : Materialization) :
    ContextTransaction :=
  { transaction with base := handle.revision }

namespace WorkingLLM

/-! ## What a turn does to the session -/

def query (llm : WorkingLLM) (prompt : Str) : Query :=
  match llm.queryBuilder with
  | some queryBuilder => queryBuilder prompt
  | none => { taskScope := prompt, tokenBudget := 0 }

/-- No generator is an empty transaction. -/
def propose (llm : WorkingLLM) (prompt : Str) (snapshot : Snapshot) : ContextTransaction :=
  match llm.deltaGenerator with
  | some deltaGenerator => deltaGenerator prompt snapshot
  | none => {}

def refuseGrant (llm : WorkingLLM) : WorkingLLM :=
  { llm with
    checkpoint := { llm.checkpoint with
      lastTrigger := .turnBoundary
      nextAction := lit "fail closed: a competing flow holds the chain" } }

def disclose (llm : WorkingLLM) (actor : AuthenticatedActor) : WorkingLLM :=
  { llm with
    checkpoint := { llm.checkpoint with
      servingDisclosure := actor.servingModel ++ lit "/" ++ actor.binding } }

def continued (llm : WorkingLLM) : WorkingLLM :=
  { llm with checkpoint := { llm.checkpoint with nextAction := lit "continue" } }

/-- The write minted a successor; the handle is rebound to it. -/
def accept (llm : WorkingLLM) (successor : Materialization) : WorkingLLM :=
  { llm with
    pCognition := some successor
    checkpoint := { llm.checkpoint with
      acceptedRefs := llm.checkpoint.acceptedRefs ++ [successor.revision]
      lastTrigger := .materialTransaction
      nextAction := lit "continue" } }

/-- The recovery table of the pinned snapshot mandates what comes next. -/
def recover (llm : WorkingLLM) (snapshot : Snapshot) (transaction : ContextTransaction)
    (verdict : Verdict) : WorkingLLM :=
  let action := recoveryFor snapshot verdict.reason
  { llm with
    parkedDeltas :=
      if action = .rereadRethink then llm.parkedDeltas ++ [transaction] else llm.parkedDeltas
    checkpoint := { llm.checkpoint with
      unacceptedCandidates := llm.checkpoint.unacceptedCandidates ++ [transaction.base]
      evidenceGaps :=
        if verdict.outcome = .outcomeUnknown then
          llm.checkpoint.evidenceGaps ++ [{
            what := lit "commit outcome for key " ++ transaction.idempotencyKey
            whyUnknown :=
              lit "store acknowledgement lost; the receipt records it as unresolved" }]
        else llm.checkpoint.evidenceGaps
      knownGaps :=
        if action = .rereadRethink then lit "delta parked: admission gate refused"
        else llm.checkpoint.knownGaps
      nextAction := action.nextAction } }

def appliedText (llm : WorkingLLM) (successor : Materialization) : Str :=
  llm.name ++ lit ": delta applied; head=" ++ successor.revision.value

def refusedText (llm : WorkingLLM) (reason : RefusalReason) : Str :=
  llm.name ++ lit ": refused (" ++ refusalName reason ++ lit "); next: " ++
    llm.checkpoint.nextAction

/-- Steps 6 and 7, after the verdict; an applied verdict is dereferenced at its
successor. -/
def conclude (llm : WorkingLLM) (snapshot : Snapshot) (transaction : ContextTransaction)
    (verdict : Verdict) : Option (WorkingLLM × Str) :=
  if verdict.outcome = .applied then
    match verdict.successor with
    | some successor => some (llm.accept successor, llm.appliedText successor)
    | none => none
  else
    let llm := llm.recover snapshot transaction verdict
    some (llm, llm.refusedText verdict.reason)

def annotateBudget (llm : WorkingLLM) (elapsed : ℤ) : WorkingLLM :=
  if llm.turnBudget.hard ≤ elapsed then
    { llm with
      checkpoint := { llm.checkpoint with
        nextAction := llm.checkpoint.nextAction ++ lit "; HARD budget exceeded: halt" } }
  else if llm.turnBudget.soft ≤ elapsed then
    { llm with
      checkpoint := { llm.checkpoint with
        nextAction := llm.checkpoint.nextAction ++
          lit "; soft budget reached: finish the safe checkpoint" } }
  else llm

/-- The budget is heard in the next action only. -/
theorem annotateBudget_eq (llm : WorkingLLM) (elapsed : ℤ) : ∃ nextAction,
    llm.annotateBudget elapsed =
      { llm with checkpoint := { llm.checkpoint with nextAction := nextAction } } := by
  unfold annotateBudget
  split
  · exact ⟨_, rfl⟩
  · split
    · exact ⟨_, rfl⟩
    · exact ⟨llm.checkpoint.nextAction, rfl⟩

@[simp] theorem annotateBudget_pCognition (llm : WorkingLLM) (elapsed : ℤ) :
    (llm.annotateBudget elapsed).pCognition = llm.pCognition := by
  obtain ⟨_, h⟩ := llm.annotateBudget_eq elapsed
  rw [h]

@[simp] theorem annotateBudget_acceptedRefs (llm : WorkingLLM) (elapsed : ℤ) :
    (llm.annotateBudget elapsed).checkpoint.acceptedRefs = llm.checkpoint.acceptedRefs := by
  obtain ⟨_, h⟩ := llm.annotateBudget_eq elapsed
  rw [h]

@[simp] theorem annotateBudget_evidenceGaps (llm : WorkingLLM) (elapsed : ℤ) :
    (llm.annotateBudget elapsed).checkpoint.evidenceGaps = llm.checkpoint.evidenceGaps := by
  obtain ⟨_, h⟩ := llm.annotateBudget_eq elapsed
  rw [h]

@[simp] theorem annotateBudget_parkedDeltas (llm : WorkingLLM) (elapsed : ℤ) :
    (llm.annotateBudget elapsed).parkedDeltas = llm.parkedDeltas := by
  obtain ⟨_, h⟩ := llm.annotateBudget_eq elapsed
  rw [h]

theorem conclude_cases {llm concluded : WorkingLLM} {snapshot : Snapshot}
    {transaction : ContextTransaction} {verdict : Verdict} {text : Str}
    (h : llm.conclude snapshot transaction verdict = some (concluded, text)) :
    (∃ successor, verdict.outcome = .applied ∧ verdict.successor = some successor ∧
      concluded = llm.accept successor) ∨
    verdict.outcome ≠ .applied ∧ concluded = llm.recover snapshot transaction verdict := by
  unfold conclude at h
  split at h
  · next happlied =>
      split at h
      · next successor hsuccessor =>
          obtain ⟨rfl, -⟩ := Prod.mk.inj (Option.some.inj h)
          exact .inl ⟨successor, happlied, hsuccessor, rfl⟩
      · simp at h
  · next hrefused =>
      obtain ⟨rfl, -⟩ := Prod.mk.inj (Option.some.inj h)
      exact .inr ⟨hrefused, rfl⟩

/-! ## The cycle -/

section Cycle

variable [Foundation] {σ : Type} [CognitionStore σ]

/-- The causal body. There is no result where the gated write crashes, or where
an applied verdict without a successor is dereferenced. -/
def workImpl (llm : WorkingLLM) (s : ServiceState σ) (prompt : Str) (actor : AuthenticatedActor)
    (mode : WorkMode) : Option (WorkingLLM × Str × ServiceState σ) :=
  match llm.pCognition with
  | none => some (llm, llm.name ++ lit ": no cognition bound", s)
  | some handle =>
      match s.acquireGrant actor mode with
      | (none, s) => some (llm.refuseGrant, llm.name ++ lit ": grant refused", s)
      | (some grant, s) =>
          let llm := llm.disclose actor
          -- the thinking over what was read is opaque
          let _data := readFromCognition handle (llm.query prompt)
          let transaction := llm.propose prompt handle.state
          if transaction.operations.isEmpty then
            some (llm.continued, llm.name ++ lit ": no material cognition this turn",
              s.releaseGrant grant)
          else
            let transaction := transaction.stamped handle
            match s.writeToCognition (some handle) transaction grant with
            | none => none
            | some (verdict, s) =>
                match llm.conclude handle.state transaction verdict with
                | none => none
                | some (llm, result) => some (llm, result, s.releaseGrant grant)

def work (llm : WorkingLLM) (s : ServiceState σ) (prompt : Str) (actor : AuthenticatedActor)
    (mode : WorkMode) (elapsed : ℤ) : Option (WorkingLLM × Str × ServiceState σ) :=
  match llm.workImpl s prompt actor mode with
  | none => none
  | some (llm, result, s) => some (llm.annotateBudget elapsed, result, s)

end Cycle

end WorkingLLM

/-! ## The service under a turn -/

section Service

variable [Foundation] {σ : Type} [CognitionStore σ] {s t leased after : ServiceState σ}
  {handle : CognitionHandle} {transaction : ContextTransaction} {grant : ExecutionGrant}
  {actor : AuthenticatedActor} {mode : WorkMode} {verdict : Verdict}

/-- Where a keyed delta that is applied leaves the service, but for its receipt:
with the successor on record, or with what the store acknowledges. -/
def ServiceState.settled (s : ServiceState σ) (handle : CognitionHandle)
    (transaction : ContextTransaction) : CognitionHandle × ServiceState σ :=
  match s.receipts transaction.idempotencyKey, s.findLive handle with
  | some receipt, _ => (receipt.outcome.successor, s)
  | none, none => (none, s)
  | none, some entry =>
      let next := applyOperations transaction entry.state
      let (receipt, store) :=
        CognitionStore.compareAndSwap s.store entry.revision (serializeSnapshot next)
      let successor := s.successorMaterialization entry next receipt.revision
      (some successor, { s with store := store }.replaceEntry handle successor)

namespace ServiceState

/-- A grant would be decided by the same port on the same head. -/
structure SameHead (s t : ServiceState σ) : Prop where
  store : t.store = s.store
  live : t.live = s.live
  identity : t.withIdentity.identity = s.withIdentity.identity

omit [Foundation] [CognitionStore σ] in
theorem SameHead.trans {u : ServiceState σ} (h : SameHead s t) (h' : SameHead t u) :
    SameHead s u :=
  ⟨h'.store.trans h.store, h'.live.trans h.live, h'.identity.trans h.identity⟩

theorem SameHead.verifies (h : SameHead s t) (actor : AuthenticatedActor) :
    t.withIdentity.verifies actor = s.withIdentity.verifies actor := by
  have hhead : t.withIdentity.canonicalHead = s.withIdentity.canonicalHead := by
    unfold canonicalHead
    simp only [withIdentity, h.store, h.live]
    rfl
  unfold ServiceState.verifies
  rw [hhead, h.identity]

omit [Foundation] [CognitionStore σ] in
theorem releaseGrant_sameHead : SameHead s (s.releaseGrant grant) := by
  unfold releaseGrant
  split <;> exact ⟨rfl, rfl, rfl⟩

omit [Foundation] [CognitionStore σ] in
theorem releaseGrant_receipts : (s.releaseGrant grant).receipts = s.receipts := by
  unfold releaseGrant
  split <;> rfl

omit [Foundation] [CognitionStore σ] in
theorem releaseGrant_free (h : s.activeGrantId = grant.id) :
    (s.releaseGrant grant).activeGrantId.isEmpty = true := by
  rw [releaseGrant, if_pos h]
  rfl

theorem leased_of_acquireGrant (h : s.acquireGrant actor mode = (some grant, leased)) :
    s.withIdentity.verifies actor = true ∧ leased.activeGrantId = grant.id ∧
      SameHead s leased ∧ leased.receipts = s.receipts := by
  rcases acquireGrant_cases h with ⟨hnone, -⟩ | ⟨id, rfl, -, hverified, hgrant, rfl⟩
  · simp at hnone
  · obtain rfl := Option.some.inj hgrant
    exact ⟨hverified, rfl, ⟨rfl, rfl, rfl⟩, rfl⟩

theorem settled_recorded {receipt : Receipt}
    (hreceipt : s.receipts transaction.idempotencyKey = some receipt) :
    s.settled handle transaction = (receipt.outcome.successor, s) := by
  unfold settled
  rw [hreceipt]

theorem settled_unknown (hreceipt : s.receipts transaction.idempotencyKey = none)
    (hlive : s.findLive handle = none) : s.settled handle transaction = (none, s) := by
  unfold settled
  rw [hreceipt, hlive]

theorem settled_new {entry m : Materialization} {receipt : StoreReceipt} {store : σ}
    (hreceipt : s.receipts transaction.idempotencyKey = none)
    (hlive : s.findLive handle = some entry)
    (hcas : CognitionStore.compareAndSwap s.store entry.revision
      (serializeSnapshot (applyOperations transaction entry.state)) = (receipt, store))
    (hm : m = s.successorMaterialization entry (applyOperations transaction entry.state)
      receipt.revision) :
    s.settled handle transaction =
      (some m, ({ s with store := store } : ServiceState σ).replaceEntry handle m) := by
  unfold settled
  rw [hreceipt, hlive, hm]
  simp only [hcas]

theorem acquireGrant_unverified (mode : WorkMode)
    (hverified : s.withIdentity.verifies actor = false) :
    ∃ leased, s.acquireGrant actor mode = (none, leased) := by
  rcases hgrant : s.acquireGrant actor mode with ⟨granted, leased⟩
  rcases acquireGrant_cases hgrant with ⟨rfl, -⟩ | ⟨-, -, -, hthis, -⟩
  · exact ⟨leased, rfl⟩
  · simp [hverified] at hthis

/-- The lease has no part in where a delta settles. -/
theorem settled_of_acquireGrant (handle : CognitionHandle) (transaction : ContextTransaction)
    (h : s.acquireGrant actor mode = (some grant, leased)) :
    (leased.settled handle transaction).1 = (s.settled handle transaction).1 ∧
      SameHead (s.settled handle transaction).2 (leased.settled handle transaction).2 := by
  rcases acquireGrant_cases h with ⟨hnone, -⟩ | ⟨id, rfl, -, -, -, hleased⟩
  · simp at hnone
  · have hreceipts : leased.receipts = s.receipts := by rw [hleased]; rfl
    have hfind : leased.findLive handle = s.findLive handle := by rw [hleased]; rfl
    cases hreceipt : s.receipts transaction.idempotencyKey with
    | some receipt =>
        rw [settled_recorded hreceipt, settled_recorded (hreceipts ▸ hreceipt), hleased]
        exact ⟨rfl, rfl, rfl, rfl⟩
    | none =>
        cases hlive : s.findLive handle with
        | none =>
            rw [settled_unknown hreceipt hlive,
              settled_unknown (hreceipts ▸ hreceipt) (hfind.trans hlive), hleased]
            exact ⟨rfl, rfl, rfl, rfl⟩
        | some entry =>
            rw [settled_new hreceipt hlive rfl rfl,
              settled_new (hreceipts ▸ hreceipt) (hfind.trans hlive) rfl rfl, hleased]
            exact ⟨rfl, rfl, rfl, rfl⟩

/-- No write moves the lease. -/
theorem writeToCognition_lease
    (h : s.writeToCognition handle transaction grant = some (verdict, after)) :
    after.activeGrantId = s.activeGrantId := by
  rcases write_cases h with ⟨-, rfl⟩ | ⟨-, reason, -, rfl, -⟩ | ⟨-, rfl, -⟩ |
    ⟨-, entry, next, -, hcommit⟩
  · rfl
  · rfl
  · rfl
  · rcases commit_cases hcommit with ⟨-, -, rfl⟩ | ⟨-, -, rfl⟩ | ⟨-, m, -, -, rfl⟩
    · rfl
    · exact (record_lease _).1
    · exact (record_lease _).1

/-- A keyed delta is applied from its receipt or by a commit; either way its
verdict is on record. -/
theorem settled_of_applied
    (h : s.writeToCognition handle transaction grant = some (verdict, after))
    (happlied : verdict.outcome = .applied) (hkeyed : transaction.idempotencyKey ≠ [])
    (hoperations : transaction.operations ≠ []) :
    after.receipts transaction.idempotencyKey = some ⟨requestDigestOf transaction, verdict⟩ ∧
      verdict.successor = (s.settled handle transaction).1 ∧
      SameHead (s.settled handle transaction).2 after := by
  cases hreceipt : s.receipts transaction.idempotencyKey with
  | some receipt =>
      rw [(write_of_receipt handle grant hkeyed hreceipt).1] at h
      obtain ⟨hverdict, rfl⟩ := Prod.mk.inj (Option.some.inj h)
      have hdigest : requestDigestOf transaction = receipt.requestDigest := by
        by_contra hne
        rw [if_neg hne] at hverdict
        rw [← hverdict] at happlied
        simp [Verdict.refuse] at happlied
      rw [if_pos hdigest] at hverdict
      subst hverdict
      rw [settled_recorded hreceipt, hdigest]
      exact ⟨hreceipt, rfl, rfl, rfl, rfl⟩
  | none =>
      obtain ⟨entry, next, hadmission, hcommit, hkind⟩ := admission_of_applied h happlied
        (by simp [resolveKey, hreceipt]) hoperations
      obtain ⟨governance, hadmitted⟩ := admission_eq_ok.mp hadmission
      obtain ⟨-, -, -, -, rfl⟩ := successorOf_eq_ok.mp hadmitted.successor
      rcases commit_cases hcommit with ⟨hfailed, -⟩ | ⟨hlost, -⟩ | ⟨-, m, hm, rfl, rfl⟩
      · simp [hkind] at hfailed
      · simp [hkind] at hlost
      · have hsettled : s.settled handle transaction = (some m,
            ({ s with store := (s.submit (.write s.grantActor transaction entry
              (applyOperations transaction entry.state))).2 } :
                ServiceState σ).replaceEntry handle m) :=
          settled_new hreceipt hadmitted.live rfl hm
        rw [hsettled, record_receipts rfl hkeyed, Function.update_self]
        refine ⟨rfl, rfl, record_store _, record_live _, ?_⟩
        rw [withIdentity, record_identity]
        rfl

/-- So it is for a turn that took the lease first. -/
theorem settled_of_turn (hgrant : s.acquireGrant actor mode = (some grant, leased))
    (hwrite : leased.writeToCognition handle transaction grant = some (verdict, after))
    (happlied : verdict.outcome = .applied) (hkeyed : transaction.idempotencyKey ≠ [])
    (hoperations : transaction.operations ≠ []) :
    after.receipts transaction.idempotencyKey = some ⟨requestDigestOf transaction, verdict⟩ ∧
      verdict.successor = (s.settled handle transaction).1 ∧
      SameHead (s.settled handle transaction).2 after ∧ after.activeGrantId = grant.id := by
  obtain ⟨hreceipt, hmoved, hhead⟩ := settled_of_applied hwrite happlied hkeyed hoperations
  obtain ⟨hsettled, hheads⟩ := settled_of_acquireGrant handle transaction hgrant
  exact ⟨hreceipt, hmoved.trans hsettled, hheads.trans hhead,
    (writeToCognition_lease hwrite).trans (leased_of_acquireGrant hgrant).2.1⟩

end ServiceState

end Service

/-! ## A turn as a run

What holds over every run of service calls holds over every session. -/

section Turn

variable [Foundation] {σ : Type} [CognitionStore σ] {s t : ServiceState σ}
  {llm llm' : WorkingLLM} {actor : AuthenticatedActor} {mode : WorkMode} {prompt result : Str}
  {elapsed : ℤ}

namespace WorkingLLM

/-- The exits of a turn: without a handle, without the lease, without a delta, and
after one write that is applied or is not. -/
theorem work_exits (h : llm.work s prompt actor mode elapsed = some (llm', result, t)) :
    (llm.pCognition = none ∧ llm' = llm.annotateBudget elapsed ∧ t = s) ∨
    ∃ handle, llm.pCognition = some handle ∧
      (s.acquireGrant actor mode = (none, t) ∧ llm' = llm.refuseGrant.annotateBudget elapsed ∨
      ∃ grant leased, s.acquireGrant actor mode = (some grant, leased) ∧
        ((llm.propose prompt handle.state).operations = [] ∧
          llm' = (llm.disclose actor).continued.annotateBudget elapsed ∧
          t = leased.releaseGrant grant ∨
        (llm.propose prompt handle.state).operations ≠ [] ∧ ∃ verdict after,
          leased.writeToCognition (some handle)
            ((llm.propose prompt handle.state).stamped handle) grant = some (verdict, after) ∧
          t = after.releaseGrant grant ∧
          ((∃ successor, verdict.outcome = .applied ∧ verdict.successor = some successor ∧
              llm' = ((llm.disclose actor).accept successor).annotateBudget elapsed) ∨
            verdict.outcome ≠ .applied ∧ llm' = ((llm.disclose actor).recover handle.state
              ((llm.propose prompt handle.state).stamped handle) verdict).annotateBudget
                elapsed))) := by
  obtain ⟨llm'', himpl, rfl⟩ : ∃ llm'', llm.workImpl s prompt actor mode =
      some (llm'', result, t) ∧ llm''.annotateBudget elapsed = llm' := by
    unfold work at h
    split at h
    · simp at h
    · next llm'' result' s' himpl =>
        obtain ⟨hllm, rfl, rfl⟩ : _ = llm' ∧ result' = result ∧ s' = t := by
          simpa only [Option.some.injEq, Prod.mk.injEq] using h
        exact ⟨llm'', himpl, hllm⟩
  unfold workImpl at himpl
  split at himpl
  · next hbound =>
      simp only [Option.some.injEq, Prod.mk.injEq] at himpl
      exact .inl ⟨hbound, himpl.1 ▸ rfl, himpl.2.2.symm⟩
  · next handle hbound =>
      refine .inr ⟨handle, hbound, ?_⟩
      split at himpl
      · next leased hgrant =>
          simp only [Option.some.injEq, Prod.mk.injEq] at himpl
          exact .inl ⟨himpl.2.2 ▸ hgrant, himpl.1 ▸ rfl⟩
      · next grant leased hgrant =>
          refine .inr ⟨grant, leased, hgrant, ?_⟩
          dsimp only at himpl
          split at himpl
          · next hempty =>
              simp only [Option.some.injEq, Prod.mk.injEq] at himpl
              exact .inl ⟨List.isEmpty_iff.mp hempty, himpl.1 ▸ rfl, himpl.2.2.symm⟩
          · next hmaterial =>
              refine .inr ⟨mt List.isEmpty_iff.mpr hmaterial, ?_⟩
              split at himpl
              · simp at himpl
              · next verdict after hwrite =>
                  split at himpl
                  · simp at himpl
                  · next concluded text hconclude =>
                      simp only [Option.some.injEq, Prod.mk.injEq] at himpl
                      obtain ⟨rfl, -, rfl⟩ := himpl
                      refine ⟨verdict, after, hwrite, rfl, ?_⟩
                      rcases conclude_cases hconclude with ⟨successor, happlied, hsuccessor, rfl⟩ |
                        ⟨hrefused, rfl⟩
                      · exact .inl ⟨successor, happlied, hsuccessor, rfl⟩
                      · exact .inr ⟨hrefused, rfl⟩

/-- A turn stops without a handle or without the lease, gives the lease back
unused, or gives it back after one write. -/
theorem work_cases (h : llm.work s prompt actor mode elapsed = some (llm', result, t)) :
    (llm.pCognition = none ∧ t = s) ∨
    ∃ handle, llm.pCognition = some handle ∧
      (s.acquireGrant actor mode = (none, t) ∨
      ∃ grant leased, s.acquireGrant actor mode = (some grant, leased) ∧
        ((llm.propose prompt handle.state).operations = [] ∧ t = leased.releaseGrant grant ∨
        ∃ verdict after, leased.writeToCognition (some handle)
          ((llm.propose prompt handle.state).stamped handle) grant = some (verdict, after) ∧
          t = after.releaseGrant grant)) := by
  rcases work_exits h with ⟨hbound, -, hafter⟩ | ⟨handle, hbound, ⟨hgrant, -⟩ | ⟨grant, leased,
    hgrant, ⟨hempty, -, hafter⟩ | ⟨-, verdict, after, hwrite, hafter, -⟩⟩⟩
  · exact .inl ⟨hbound, hafter⟩
  · exact .inr ⟨handle, hbound, .inl hgrant⟩
  · exact .inr ⟨handle, hbound, .inr ⟨grant, leased, hgrant, .inl ⟨hempty, hafter⟩⟩⟩
  · exact .inr ⟨handle, hbound, .inr ⟨grant, leased, hgrant, .inr ⟨verdict, after, hwrite,
      hafter⟩⟩⟩

theorem work_run (h : llm.work s prompt actor mode elapsed = some (llm', result, t)) :
    ∃ trs, ServiceRun s trs t := by
  rcases work_cases h with ⟨-, rfl⟩ | ⟨handle, -, hgrant | ⟨grant, leased, hgrant, hrest⟩⟩
  · exact ⟨[], Run.nil t⟩
  · have hstep : s.step (.acquireGrant actor mode) = some (.granted none, t) := by
      simp only [step, hgrant]
    exact ⟨_, (Run.nil s).snoc hstep⟩
  · have hstep : s.step (.acquireGrant actor mode) = some (.granted (some grant), leased) := by
      simp only [step, hgrant]
    rcases hrest with ⟨-, rfl⟩ | ⟨verdict, after, hwrite, rfl⟩
    · have hrelease : leased.step (.releaseGrant grant) =
          some (.done, leased.releaseGrant grant) := rfl
      exact ⟨_, ((Run.nil s).snoc hstep).snoc hrelease⟩
    · have hwritten : leased.step (.writeToCognition (some handle)
          ((llm.propose prompt handle.state).stamped handle) grant) =
            some (.verdict verdict, after) := by
        simp only [step, hwrite]
      have hrelease : after.step (.releaseGrant grant) =
          some (.done, after.releaseGrant grant) := rfl
      exact ⟨_, (((Run.nil s).snoc hstep).snoc hwritten).snoc hrelease⟩

/-- Every turn leaves the lease as it found it. -/
theorem work_lease (h : llm.work s prompt actor mode elapsed = some (llm', result, t)) :
    t.activeGrantId = s.activeGrantId := by
  rcases work_cases h with ⟨-, rfl⟩ | ⟨handle, -, hgrant | ⟨grant, leased, hgrant, hrest⟩⟩
  · rfl
  · rcases acquireGrant_cases hgrant with ⟨-, rfl | rfl⟩ | ⟨id, -, -, -, hnone, -⟩
    · rfl
    · rfl
    · simp at hnone
  · have hleased := (leased_of_acquireGrant hgrant).2.1
    have hfree : s.activeGrantId = {} := by
      rcases acquireGrant_cases hgrant with ⟨hnone, -⟩ | ⟨id, -, hfree, -⟩
      · simp at hnone
      · exact GrantId.isEmpty_iff.mp hfree
    rw [hfree]
    rcases hrest with ⟨-, rfl⟩ | ⟨verdict, after, hwrite, rfl⟩
    · exact GrantId.isEmpty_iff.mp (releaseGrant_free hleased)
    · have hafter : after.activeGrantId = grant.id := (writeToCognition_lease hwrite).trans hleased
      exact GrantId.isEmpty_iff.mp (releaseGrant_free hafter)

end WorkingLLM

end Turn

/-! ## Repeating a turn -/

section Retry

variable [Foundation] {σ : Type} [CognitionStore σ] {s t leased after : ServiceState σ}
  {llm llm' : WorkingLLM} {handle successor : Materialization}
  {transaction : ContextTransaction} {grant : ExecutionGrant} {actor : AuthenticatedActor}
  {mode : WorkMode} {verdict : Verdict} {prompt result : Str} {elapsed : ℤ}

namespace WorkingLLM

/-- The turn gets as far as the gated write of this delta, and this is the verdict. -/
structure Proposed (llm : WorkingLLM) (s : ServiceState σ) (prompt : Str)
    (actor : AuthenticatedActor) (mode : WorkMode) (handle : Materialization)
    (transaction : ContextTransaction) (verdict : Verdict) : Prop where
  bound : llm.pCognition = some handle
  delta : llm.propose prompt handle.state = transaction
  material : transaction.operations ≠ []
  written : ∃ grant leased after, s.acquireGrant actor mode = (some grant, leased) ∧
    leased.writeToCognition (some handle) (transaction.stamped handle) grant =
      some (verdict, after)

/-- The turn reports the delta as applied with this successor, to which the
handle is then bound, and leaves the store as it was. -/
def Resolves (llm : WorkingLLM) (s : ServiceState σ) (prompt : Str) (actor : AuthenticatedActor)
    (mode : WorkMode) (elapsed : ℤ) (successor : Materialization) : Prop :=
  ∃ llm' t, llm.work s prompt actor mode elapsed = some (llm', llm.appliedText successor, t) ∧
    llm'.pCognition = some successor ∧ t.store = s.store

/-- The actor passes the identity port on the head that the delta leaves, and
stamped with the revision it settles at, the delta is the same request. -/
structure Repeatable (s : ServiceState σ) (actor : AuthenticatedActor) (handle : Materialization)
    (transaction : ContextTransaction) : Prop where
  accepted : (s.settled (some handle)
    (transaction.stamped handle)).2.withIdentity.verifies actor = true
  unmoved : ∀ successor, (s.settled (some handle) (transaction.stamped handle)).1 =
    some successor → requestDigestOf (transaction.stamped successor) =
      requestDigestOf (transaction.stamped handle)

/-- A turn without the lease says so. -/
theorem work_of_refused (hbound : llm.pCognition = some handle)
    (hgrant : s.acquireGrant actor mode = (none, leased)) :
    llm.work s prompt actor mode elapsed =
      some (llm.refuseGrant.annotateBudget elapsed, llm.name ++ lit ": grant refused", leased) := by
  simp only [work, workImpl, hbound, hgrant]

/-- A turn with the lease and a delta concludes from the verdict. -/
theorem work_of_write (hbound : llm.pCognition = some handle)
    (hdelta : llm.propose prompt handle.state = transaction)
    (hmaterial : transaction.operations ≠ [])
    (hgrant : s.acquireGrant actor mode = (some grant, leased))
    (hwrite : leased.writeToCognition (some handle) (transaction.stamped handle) grant =
      some (verdict, after)) :
    llm.work s prompt actor mode elapsed =
      ((llm.disclose actor).conclude handle.state (transaction.stamped handle) verdict).map
        fun concluded => (concluded.1.annotateBudget elapsed, concluded.2,
          after.releaseGrant grant) := by
  have hdelta' : (llm.disclose actor).propose prompt handle.state = transaction := hdelta
  have hnonempty : transaction.operations.isEmpty = false := by simpa using hmaterial
  simp only [work, workImpl, hbound, hgrant, hdelta', hnonempty, hwrite]
  cases (llm.disclose actor).conclude handle.state (transaction.stamped handle) verdict <;> rfl

theorem work_of_applied (hbound : llm.pCognition = some handle)
    (hdelta : llm.propose prompt handle.state = transaction)
    (hmaterial : transaction.operations ≠ [])
    (hgrant : s.acquireGrant actor mode = (some grant, leased))
    (hwrite : leased.writeToCognition (some handle) (transaction.stamped handle) grant =
      some (verdict, after))
    (happlied : verdict.outcome = .applied) (hsuccessor : verdict.successor = some successor) :
    llm.work s prompt actor mode elapsed =
      some (((llm.disclose actor).accept successor).annotateBudget elapsed,
        llm.appliedText successor, after.releaseGrant grant) := by
  rw [work_of_write hbound hdelta hmaterial hgrant hwrite, conclude, if_pos happlied, hsuccessor]
  rfl

omit [Foundation] in
/-- The report of an applied delta is not that of any other turn. -/
theorem appliedText_ne (text : Str) (hlength : 3 ≤ text.length)
    (hne : text.take 3 ≠ lit ": d") (rest : Str) :
    llm.appliedText successor ≠ llm.name ++ text ++ rest := by
  intro h
  rw [appliedText, List.append_assoc, List.append_assoc] at h
  have htake := congrArg (List.take 3) (List.append_cancel_left h)
  rw [List.take_append_of_le_length (by decide), List.take_append_of_le_length hlength] at htake
  exact hne (htake.symm.trans (by decide))

omit [Foundation] in
theorem appliedText_ne_refusedText {reason : RefusalReason} (hname : llm'.name = llm.name) :
    llm.appliedText successor ≠ llm'.refusedText reason := by
  rw [refusedText, hname, List.append_assoc, List.append_assoc]
  exact appliedText_ne (lit ": refused (") (by decide) (by decide) _

/-- Once the verdict of a key is on record, a turn with its delta resolves to
it where the lease is granted and the request is the recorded one. -/
theorem resolves_iff_of_receipt {digest : Str} (hbound : llm.pCognition = some successor)
    (hdelta : llm.propose prompt successor.state = transaction)
    (hmaterial : transaction.operations ≠ []) (hfree : t.activeGrantId.isEmpty = true)
    (hkeyed : transaction.idempotencyKey ≠ [])
    (hreceipt : t.receipts transaction.idempotencyKey = some ⟨digest, verdict⟩)
    (happlied : verdict.outcome = .applied) (hsuccessor : verdict.successor = some successor) :
    llm.Resolves t prompt actor mode elapsed successor ↔
      t.withIdentity.verifies actor = true ∧
        requestDigestOf (transaction.stamped successor) = digest := by
  cases hverified : t.withIdentity.verifies actor with
  | false =>
      refine iff_of_false ?_ (by simp)
      obtain ⟨leased, hgrant⟩ := acquireGrant_unverified mode hverified
      rintro ⟨llm', t', hwork, -⟩
      rw [work_of_refused hbound hgrant] at hwork
      have htext : llm.appliedText successor = llm.name ++ lit ": grant refused" ++ [] := by
        simp only [Option.some.injEq, Prod.mk.injEq] at hwork
        rw [List.append_nil, hwork.2.1]
      exact appliedText_ne _ (by decide) (by decide) [] htext
  | true =>
      obtain ⟨grant, leased, hgrant⟩ := acquireGrant_free mode hfree hverified
      obtain ⟨-, -, hhead, hreceipts⟩ := leased_of_acquireGrant hgrant
      have hrecorded : leased.receipts (transaction.stamped successor).idempotencyKey =
          some ⟨digest, verdict⟩ := by
        rw [hreceipts]
        exact hreceipt
      have hkeyed' : (transaction.stamped successor).idempotencyKey ≠ [] := hkeyed
      have hwrite := (write_of_receipt (some successor) grant hkeyed' hrecorded).1
      by_cases hdigest : requestDigestOf (transaction.stamped successor) = digest
      · rw [if_pos hdigest] at hwrite
        refine iff_of_true ⟨_, _, work_of_applied hbound hdelta hmaterial hgrant hwrite happlied
          hsuccessor, by rw [annotateBudget_pCognition]; rfl, ?_⟩ ⟨rfl, hdigest⟩
        exact releaseGrant_sameHead.store.trans hhead.store
      · rw [if_neg hdigest] at hwrite
        refine iff_of_false ?_ fun h => hdigest h.2
        rintro ⟨llm', t', hwork, -⟩
        rw [work_of_write hbound hdelta hmaterial hgrant hwrite, conclude,
          if_neg (by simp [Verdict.refuse])] at hwork
        simp only [Option.map_some, Option.some.injEq, Prod.mk.injEq] at hwork
        have hname : ((llm.disclose actor).recover successor.state (transaction.stamped successor)
            (.refuse .keyConflict)).name = llm.name := rfl
        exact appliedText_ne_refusedText hname hwork.2.1.symm

/-- After a turn whose keyed delta was applied, its verdict is on record and the
service stands where the delta settles. -/
theorem Proposed.settles (elapsed : ℤ)
    (h : llm.Proposed s prompt actor mode handle transaction verdict)
    (happlied : verdict.outcome = .applied) (hkeyed : transaction.idempotencyKey ≠ [])
    (hsuccessor : verdict.successor = some successor) :
    ∃ after, llm.work s prompt actor mode elapsed =
        some (((llm.disclose actor).accept successor).annotateBudget elapsed,
          llm.appliedText successor, after) ∧
      after.receipts transaction.idempotencyKey =
        some ⟨requestDigestOf (transaction.stamped handle), verdict⟩ ∧
      after.activeGrantId.isEmpty = true ∧
      (s.settled (some handle) (transaction.stamped handle)).1 = some successor ∧
      SameHead (s.settled (some handle) (transaction.stamped handle)).2 after := by
  obtain ⟨grant, leased, after, hgrant, hwrite⟩ := h.written
  obtain ⟨hreceipt, hmoved, hhead, hlease⟩ :=
    settled_of_turn hgrant hwrite happlied hkeyed h.material
  exact ⟨after.releaseGrant grant,
    work_of_applied h.bound h.delta h.material hgrant hwrite happlied hsuccessor,
    (congrFun releaseGrant_receipts _).trans hreceipt, releaseGrant_free hlease,
    hmoved.symm.trans hsuccessor, hhead.trans releaseGrant_sameHead⟩

/-- A keyed delta was applied: its repetition resolves to the recorded outcome
exactly where the delta is repeatable. -/
theorem retry_resolves_iff (hfirst : llm.work s prompt actor mode elapsed = some (llm', result, t))
    (hproposed : llm.Proposed s prompt actor mode handle transaction verdict)
    (happlied : verdict.outcome = .applied) (hkeyed : transaction.idempotencyKey ≠ [])
    (hsuccessor : verdict.successor = some successor)
    (generator : Str → Snapshot → ContextTransaction)
    (hsame : generator prompt successor.state = transaction) (again : ℤ) :
    Resolves { llm' with deltaGenerator := some generator } t prompt actor mode again successor ↔
      Repeatable s actor handle transaction := by
  obtain ⟨after, hwork, hreceipt, hfree, hstands, hhead⟩ :=
    hproposed.settles elapsed happlied hkeyed hsuccessor
  rw [hwork] at hfirst
  obtain ⟨rfl, -, rfl⟩ : _ = llm' ∧ _ = result ∧ after = t := by
    simpa only [Option.some.injEq, Prod.mk.injEq] using hfirst
  have hbound : ({ ((llm.disclose actor).accept successor).annotateBudget elapsed with
      deltaGenerator := some generator } : WorkingLLM).pCognition = some successor :=
    annotateBudget_pCognition _ _
  refine (resolves_iff_of_receipt hbound hsame hproposed.material hfree hkeyed hreceipt happlied
    hsuccessor).trans ?_
  rw [hhead.verifies actor]
  constructor
  · rintro ⟨haccepted, hdigest⟩
    refine ⟨haccepted, fun other hother => ?_⟩
    obtain rfl := Option.some.inj (hstands.symm.trans hother)
    exact hdigest
  · rintro ⟨haccepted, hunmoved⟩
    exact ⟨haccepted, hunmoved successor hstands⟩

end WorkingLLM

end Retry

/-! ## A delta that moves the head, and one that does not -/

section Turns

open scoped QivenContext.Reference

theorem OnHead.verifies {s : ServiceState MemoryStore} {m : Materialization} (h : OnHead s m) :
    s.withIdentity.verifies rootActor = true := by
  obtain ⟨governance, hhead, hgoverned⟩ := h.canonicalHead
  have hhead' : s.withIdentity.canonicalHead = some governance := hhead
  have hport : s.withIdentity.identity = some rootPrincipalVerifier := by
    rw [withIdentity, h.identity]
    rfl
  unfold ServiceState.verifies
  rw [hhead', hport]
  simp only [rootPrincipalVerifier, hgoverned]
  decide

/-- A model on the handle that proposes this delta at every turn. -/
def insisting (handle : Materialization) (transaction : ContextTransaction) : WorkingLLM where
  address := 0
  pCognition := some handle
  deltaGenerator := some fun _ _ => transaction

theorem OnHead.Wrote.proposed {booted leased after : ServiceState MemoryStore}
    {m m' : Materialization} {transaction : ContextTransaction}
    (hacquired : booted.step (.acquireGrant rootActor .supervisedForeground) =
      some (.granted (some firstGrant), leased))
    (h : OnHead.Wrote leased m (transaction.stamped m) after m')
    (hmaterial : transaction.operations ≠ []) (hkeyed : transaction.idempotencyKey ≠ []) :
    (insisting m transaction).Proposed booted [] rootActor .supervisedForeground m transaction
        { outcome := .applied, successor := some m' } ∧
      (booted.settled (some m) (transaction.stamped m)).1 = some m' ∧
      SameHead (booted.settled (some m) (transaction.stamped m)).2 after := by
  obtain ⟨granted, hgranted, hgrant⟩ := step_acquireGrant hacquired
  obtain rfl := Answer.granted.inj hgranted
  obtain ⟨verdict, hverdict, hwrite⟩ := step_writeToCognition h.step
  obtain rfl := Answer.verdict.inj hverdict
  obtain ⟨-, hmoved, hhead, -⟩ := settled_of_turn hgrant hwrite rfl hkeyed hmaterial
  exact ⟨⟨rfl, rfl, hmaterial, firstGrant, leased, after, hgrant, hwrite⟩, hmoved.symm, hhead⟩

/-- Genesis with a text as its current state. -/
def resumedWorld : Snapshot :=
  { makeGenesis with state := { makeGenesis.state with current := lit "resumed" } }

theorem deserialize_resumedWorld :
    deserialize (serializeSnapshot resumedWorld) = .ok resumedWorld := by
  have hstrings : Snapshot.StringsShort resumedWorld := { genesis_stringsShort with
    state := { genesis_stringsShort.state with current := by decide } }
  have hvectors : Snapshot.VectorsWithin 100000 resumedWorld :=
    { (genesis_vectorsWithin (by norm_num) : Snapshot.VectorsWithin 100000 makeGenesis) with }
  rw [deserialize_serialize hstrings hvectors]
  rfl

/-- The update to that text, under a key. -/
def keyedResume : ContextTransaction where
  operations := [{ kind := .updateState, payload := lit "resumed" }]
  idempotencyKey := lit "key"

/-- It is repeated with success where that already is the text. -/
theorem resumed_retried :
    ∃ (trs : List (ServiceTransition MemoryStore)) (s t : ServiceState MemoryStore)
      (m successor : Materialization) (llm' : WorkingLLM) (result : Str),
      ServiceRun (ServiceState.start (preexisting resumedWorld)) trs s ∧
        (insisting m keyedResume).work s [] rootActor .supervisedForeground 0 =
          some (llm', result, t) ∧
        (insisting m keyedResume).Proposed s [] rootActor .supervisedForeground m keyedResume
          { outcome := .applied, successor := some successor } ∧
        WorkingLLM.Resolves { llm' with deltaGenerator := some fun _ _ => keyedResume } t []
          rootActor .supervisedForeground 0 successor := by
  obtain ⟨trs, booted, leased, m, hrun, hacquired, honHead, hstate, -, hstore, hreceipts⟩ :=
    exists_booted deserialize_resumedWorld rfl
  have hquiet : Quiet m.state := hstate ▸ ⟨rfl, by simp [resumedWorld, makeGenesis], rfl⟩
  have hpasses : ∀ operation ∈ (keyedResume.stamped m).operations,
      operation = { kind := .updateState, payload := lit "resumed" } := by
    intro operation hmem
    exact List.mem_singleton.mp hmem
  obtain ⟨after, m', hwrote⟩ := honHead.write_quiet hquiet (keyedResume.stamped m)
    (resolveKey_fresh (hreceipts _)) rfl (List.cons_ne_nil _ _)
    (fun operation hmem =>
      policyGate_default hquiet.policy (by rw [hpasses operation hmem]; decide))
    (fun operation hmem => by rw [hpasses operation hmem]; decide)
    (fun operation hmem => by rw [hpasses operation hmem]; rfl)
  have hsame : m'.state = resumedWorld := by
    rw [hwrote.state, hstate]
    rfl
  have hunmoved : m'.revision = m.revision :=
    hwrote.unmoved honHead (by rw [hstore, hsame]; rfl)
  obtain ⟨hproposed, hstands, hhead⟩ :=
    hwrote.proposed hacquired (List.cons_ne_nil _ _) (by decide)
  obtain ⟨t, hwork, -⟩ := hproposed.settles 0 rfl (by decide) rfl
  refine ⟨trs, booted, t, m, m', _, _, hrun, hwork, hproposed,
    (WorkingLLM.retry_resolves_iff hwork hproposed rfl (by decide) rfl (fun _ _ => keyedResume) rfl
      0).mpr ⟨?_, fun successor hsuccessor => ?_⟩⟩
  · rw [← hhead.verifies rootActor]
    exact hwrote.onHead.verifies
  · obtain rfl := Option.some.inj (hstands.symm.trans hsuccessor)
    simp only [ContextTransaction.stamped, hunmoved]

/-- The same delta is refused when the turn is repeated, where it is new. -/
theorem evidence_not_retried :
    ∃ (trs : List (ServiceTransition MemoryStore)) (s t : ServiceState MemoryStore)
      (m successor : Materialization) (llm' : WorkingLLM) (result : Str),
      ServiceRun (ServiceState.start (preexisting makeGenesis)) trs s ∧
        (insisting m (keyedEvidence {})).work s [] rootActor .supervisedForeground 0 =
          some (llm', result, t) ∧
        (insisting m (keyedEvidence {})).Proposed s [] rootActor .supervisedForeground m
          (keyedEvidence {}) { outcome := .applied, successor := some successor } ∧
        llm'.propose [] successor.state = keyedEvidence {} ∧
        ¬ llm'.Resolves t [] rootActor .supervisedForeground 0 successor := by
  obtain ⟨trs, booted, leased, m, hrun, hacquired, honHead, hstate, hrevision, hstore,
    hreceipts⟩ := exists_booted deserialize_genesis rfl
  obtain ⟨after, m', hwrote, hstate'⟩ :=
    honHead.writeEvidence (hstate ▸ genesis_quiet) ((keyedEvidence {}).stamped m)
      (resolveKey_fresh (hreceipts _)) rfl (by simp [keyedEvidence, ContextTransaction.stamped])
      (keyedEvidence_evidenceOnly _)
  obtain ⟨hproposed, -, -⟩ := hwrote.proposed hacquired (List.cons_ne_nil _ _) (by decide)
  obtain ⟨t, hwork, hreceipt, hfree, -⟩ := hproposed.settles 0 rfl (by decide) rfl
  refine ⟨trs, booted, t, m, m', _, _, hrun, hwork, hproposed, rfl, fun hresolves => ?_⟩
  have hdelta : ((((insisting m (keyedEvidence {})).disclose rootActor).accept m').annotateBudget
      0).propose [] m'.state = keyedEvidence {} := rfl
  have hdigest := ((WorkingLLM.resolves_iff_of_receipt (WorkingLLM.annotateBudget_pCognition _ _)
    hdelta hproposed.material hfree (by decide) hreceipt rfl rfl).mp hresolves).2
  have hbytes : leased.store.headBytes ≠ some (serializeSnapshot m'.state) := by
    rw [hstore, hstate', hstate]
    exact fun hsame => keyedEvidence_new {} (Option.some.inj hsame).symm
  have hmoved := (hwrote.revisions honHead hbytes).2
  rw [hstate', hstate, hrevision] at hmoved
  simp only [ContextTransaction.stamped, hmoved, hrevision] at hdigest
  exact absurd hdigest (by decide +kernel)

end Turns

end QivenContext
