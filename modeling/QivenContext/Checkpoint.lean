import QivenContext.Continuation
import QivenContext.Idempotency

/-!
# What a checkpoint says

The sidecar of a session is a record of its turns. What the turns came to is
stated apart from the model and from its checkpoint; the checkpoint is then an
account of it, and what it calls accepted can be restored.
-/

namespace QivenContext

open Library ServiceState

/-- What a turn came to. -/
inductive TurnOutcome where
  | unbound
  | denied
  | immaterial
  | submitted (transaction : ContextTransaction) (action : RecoveryAction) (verdict : Verdict)

namespace TurnOutcome

def accepted : TurnOutcome → Option RevisionId
  | .submitted _ _ verdict =>
      if verdict.outcome = .applied then verdict.successor.map Materialization.revision else none
  | _ => none

def candidate : TurnOutcome → Option RevisionId
  | .submitted transaction _ verdict =>
      if verdict.outcome = .applied then none else some transaction.base
  | _ => none

def gap : TurnOutcome → Option EvidenceGap
  | .submitted transaction _ verdict =>
      if verdict.outcome = .outcomeUnknown then some {
        what := lit "commit outcome for key " ++ transaction.idempotencyKey
        whyUnknown := lit "store acknowledgement lost; the receipt records it as unresolved" }
      else none
  | _ => none

def parked : TurnOutcome → Option ContextTransaction
  | .submitted transaction action verdict =>
      if verdict.outcome ≠ .applied ∧ action = .rereadRethink then some transaction else none
  | _ => none

/-- A delta was handed to the gated write. -/
def isSubmitted : TurnOutcome → Bool
  | .submitted _ _ _ => true
  | _ => false

end TurnOutcome

/-- The later checkpoint is the earlier one with an account of the turns. -/
structure Accounts (llm : WorkingLLM) (log : List TurnOutcome) (llm' : WorkingLLM) : Prop where
  accepted : llm'.checkpoint.acceptedRefs =
    llm.checkpoint.acceptedRefs ++ log.filterMap TurnOutcome.accepted
  candidates : llm'.checkpoint.unacceptedCandidates =
    llm.checkpoint.unacceptedCandidates ++ log.filterMap TurnOutcome.candidate
  gaps : llm'.checkpoint.evidenceGaps =
    llm.checkpoint.evidenceGaps ++ log.filterMap TurnOutcome.gap
  parked : llm'.parkedDeltas = llm.parkedDeltas ++ log.filterMap TurnOutcome.parked

theorem Accounts.refl (llm : WorkingLLM) : Accounts llm [] llm := by
  constructor <;> simp

theorem Accounts.append {llm llm' llm'' : WorkingLLM} {log log' : List TurnOutcome}
    (h : Accounts llm log llm') (h' : Accounts llm' log' llm'') :
    Accounts llm (log ++ log') llm'' where
  accepted := by rw [h'.accepted, h.accepted, List.filterMap_append, List.append_assoc]
  candidates := by rw [h'.candidates, h.candidates, List.filterMap_append, List.append_assoc]
  gaps := by rw [h'.gaps, h.gaps, List.filterMap_append, List.append_assoc]
  parked := by rw [h'.parked, h.parked, List.filterMap_append, List.append_assoc]

theorem Accounts.annotateBudget {llm llm' : WorkingLLM} {log : List TurnOutcome}
    (h : Accounts llm log llm') (elapsed : ℤ) :
    Accounts llm log (llm'.annotateBudget elapsed) := by
  obtain ⟨_, heq⟩ := llm'.annotateBudget_eq elapsed
  rw [heq]
  exact ⟨h.accepted, h.candidates, h.gaps, h.parked⟩

/-- A delta that was handed to the gated write is accepted or a candidate. -/
theorem length_submitted {log : List TurnOutcome} (h : ∀ outcome ∈ log, outcome.isSubmitted = true →
    (outcome.accepted.isSome = true ↔ outcome.candidate = none)) :
    (log.filterMap TurnOutcome.accepted).length + (log.filterMap TurnOutcome.candidate).length =
      log.countP TurnOutcome.isSubmitted := by
  induction log with
  | nil => rfl
  | cons outcome log ih =>
      have hrest := ih fun other hother => h other (List.mem_cons_of_mem _ hother)
      rw [List.countP_cons]
      cases hsubmitted : outcome.isSubmitted with
      | false =>
          cases outcome with
          | submitted _ _ _ => simp [TurnOutcome.isSubmitted] at hsubmitted
          | _ =>
              simpa [List.filterMap_cons, TurnOutcome.accepted, TurnOutcome.candidate]
                using hrest
      | true =>
          have hone := h outcome List.mem_cons_self hsubmitted
          cases haccepted : outcome.accepted with
          | none =>
              cases hcandidate : outcome.candidate with
              | none => simp [haccepted, hcandidate] at hone
              | some base =>
                  simp only [List.filterMap_cons, haccepted, hcandidate, List.length_cons, if_true]
                  omega
          | some revision =>
              have hnone : outcome.candidate = none := hone.mp (by rw [haccepted]; rfl)
              simp only [List.filterMap_cons, haccepted, hnone, List.length_cons, if_true]
              omega

section Service

variable [Foundation] {σ : Type} [CognitionStore σ] {s t : ServiceState σ}
  {llm llm' : WorkingLLM} {prompt result : Str} {actor : AuthenticatedActor} {mode : WorkMode}
  {elapsed : ℤ}

/-- What a turn comes to, read off the service; there is none where the gated write does
not return. -/
def WorkingLLM.outcome (llm : WorkingLLM) (s : ServiceState σ) (prompt : Str)
    (actor : AuthenticatedActor) (mode : WorkMode) : Option TurnOutcome :=
  match llm.pCognition with
  | none => some .unbound
  | some handle =>
      match s.acquireGrant actor mode with
      | (none, _) => some .denied
      | (some grant, leased) =>
          let transaction := (llm.propose prompt handle.state).stamped handle
          if transaction.operations.isEmpty then some .immaterial
          else
            match leased.writeToCognition (some handle) transaction grant with
            | none => none
            | some (verdict, _) => some (.submitted transaction
                (recoveryFor handle.state verdict.reason) verdict)

/-- A turn adds its own outcome to the account. -/
theorem turn_accounts (h : llm.work s prompt actor mode elapsed = some (llm', result, t)) :
    ∃ outcome, llm.outcome s prompt actor mode = some outcome ∧ Accounts llm [outcome] llm' := by
  rcases WorkingLLM.work_exits h with ⟨hbound, rfl, -⟩ | ⟨handle, hbound, ⟨hgrant, rfl⟩ |
    ⟨grant, leased, hgrant, hrest⟩⟩
  · refine ⟨.unbound, by simp only [WorkingLLM.outcome, hbound], .annotateBudget ?_ _⟩
    constructor <;> simp [TurnOutcome.accepted, TurnOutcome.candidate, TurnOutcome.gap,
      TurnOutcome.parked]
  · refine ⟨.denied, by simp only [WorkingLLM.outcome, hbound, hgrant], .annotateBudget ?_ _⟩
    constructor <;> simp [WorkingLLM.refuseGrant, TurnOutcome.accepted, TurnOutcome.candidate,
      TurnOutcome.gap, TurnOutcome.parked]
  · rcases hrest with ⟨hempty, rfl, -⟩ | ⟨hmaterial, verdict, after, hwrite, -, hconclude⟩
    · have hnone : ((llm.propose prompt handle.state).stamped handle).operations.isEmpty = true :=
        List.isEmpty_iff.mpr hempty
      refine ⟨.immaterial, by simp only [WorkingLLM.outcome, hbound, hgrant, hnone, if_true],
        .annotateBudget ?_ _⟩
      constructor <;> simp [WorkingLLM.continued, WorkingLLM.disclose, TurnOutcome.accepted,
        TurnOutcome.candidate, TurnOutcome.gap, TurnOutcome.parked]
    · have hsome : ((llm.propose prompt handle.state).stamped handle).operations.isEmpty =
          false := List.isEmpty_eq_false_iff.mpr hmaterial
      refine ⟨.submitted ((llm.propose prompt handle.state).stamped handle)
        (recoveryFor handle.state verdict.reason) verdict, ?_, ?_⟩
      · simp only [WorkingLLM.outcome, hbound, hgrant, hsome, hwrite]
        rfl
      · rcases hconclude with ⟨successor, happlied, hsuccessor, rfl⟩ | ⟨hrefused, rfl⟩
        · refine .annotateBudget ?_ _
          constructor <;> simp [WorkingLLM.accept, WorkingLLM.disclose, TurnOutcome.accepted,
            TurnOutcome.candidate, TurnOutcome.gap, TurnOutcome.parked, happlied, hsuccessor]
        · refine .annotateBudget ?_ _
          constructor
          · simp [WorkingLLM.recover, WorkingLLM.disclose, TurnOutcome.accepted, hrefused]
          · simp [WorkingLLM.recover, WorkingLLM.disclose, TurnOutcome.candidate, hrefused]
          · by_cases hunknown : verdict.outcome = .outcomeUnknown <;>
              simp [WorkingLLM.recover, WorkingLLM.disclose, TurnOutcome.gap, hunknown]
          · by_cases haction : recoveryFor handle.state verdict.reason = .rereadRethink <;>
              simp [WorkingLLM.recover, WorkingLLM.disclose, TurnOutcome.parked, hrefused,
                haction]

/-- An unknown outcome under a key is on record. -/
theorem unknown_recorded {handle : CognitionHandle} {transaction : ContextTransaction}
    {grant : ExecutionGrant} {verdict : Verdict}
    (h : s.writeToCognition handle transaction grant = some (verdict, t))
    (hunknown : verdict.outcome = .outcomeUnknown) (hkeyed : transaction.idempotencyKey ≠ []) :
    ∃ receipt, t.receipts transaction.idempotencyKey = some receipt ∧
      receipt.outcome.outcome = .outcomeUnknown := by
  rcases write_cases h with ⟨hreplay, rfl⟩ | ⟨-, reason, rfl, -⟩ | ⟨-, -, -, rfl⟩ |
    ⟨-, entry, next, -, hcommit⟩
  · unfold resolveKey at hreplay
    rw [if_neg (mt List.isEmpty_iff.mp hkeyed)] at hreplay
    obtain ⟨receipt, hreceipt, hverdict⟩ := Option.map_eq_some_iff.mp hreplay
    split at hverdict
    · rw [← hverdict] at hunknown
      simp [Verdict.refuse] at hunknown
    · exact ⟨receipt, hreceipt, hverdict ▸ hunknown⟩
  · simp [Verdict.refuse] at hunknown
  · simp at hunknown
  · rcases commit_cases hcommit with ⟨-, rfl, -⟩ | ⟨-, rfl, rfl⟩ | ⟨-, m, -, rfl, -⟩
    · simp [Verdict.refuse] at hunknown
    · rw [record_receipts rfl hkeyed, Function.update_self]
      exact ⟨_, rfl, rfl⟩
    · simp at hunknown

/-- Turns of one session; in between other calls reach the service. -/
inductive Worked (llm : WorkingLLM) (s : ServiceState σ) :
    List TurnOutcome → WorkingLLM → ServiceState σ → List (ServiceTransition σ) → Prop
  | nil : Worked llm s [] llm s []
  | turn {log : List TurnOutcome} {past last : WorkingLLM} {before after : ServiceState σ}
      {trs : List (ServiceTransition σ)} {prompt result : Str} {actor : AuthenticatedActor}
      {mode : WorkMode} {elapsed : ℤ} {outcome : TurnOutcome}
      (hpast : Worked llm s log past before trs)
      (hwork : past.work before prompt actor mode elapsed = some (last, result, after))
      (houtcome : past.outcome before prompt actor mode = some outcome) :
      Worked llm s (log ++ [outcome]) last after (trs ++ past.calls before prompt actor mode)
  | others {log : List TurnOutcome} {past : WorkingLLM} {before after : ServiceState σ}
      {trs calls : List (ServiceTransition σ)} (hpast : Worked llm s log past before trs)
      (hcalls : ServiceRun before calls after) : Worked llm s log past after (trs ++ calls)

theorem Worked.run {log : List TurnOutcome} {trs : List (ServiceTransition σ)}
    (h : Worked llm s log llm' t trs) : ServiceRun s trs t := by
  induction h with
  | nil => exact .nil s
  | turn _ hwork _ ih => exact ih.append (WorkingLLM.run_calls hwork)
  | others _ hcalls ih => exact ih.append hcalls

theorem Worked.accounts {log : List TurnOutcome} {trs : List (ServiceTransition σ)}
    (h : Worked llm s log llm' t trs) : Accounts llm log llm' := by
  induction h with
  | nil => exact .refl llm
  | turn _ hwork houtcome ih =>
      obtain ⟨outcome, houtcome', hturn⟩ := turn_accounts hwork
      obtain rfl := Option.some.inj (houtcome'.symm.trans houtcome)
      exact ih.append hturn
  | others _ _ ih => exact ih

end Service

section Truth

variable [Foundation] {σ : Type} [MemoryBacked σ] {s t : ServiceState σ} {llm llm' : WorkingLLM}
  {past trs : List (ServiceTransition σ)} {log : List TurnOutcome}

/-- What an outcome says is so in the state of the service. -/
structure Borne (t : ServiceState σ) (outcome : TurnOutcome) : Prop where
  decided : outcome.isSubmitted = true →
    (outcome.accepted.isSome = true ↔ outcome.candidate = none)
  kept : ∀ revision, outcome.accepted = some revision → ∃ m, m.revision = revision ∧ Kept t m
  recorded : ∀ transaction action verdict, outcome = .submitted transaction action verdict →
    verdict.outcome = .outcomeUnknown → transaction.idempotencyKey ≠ [] →
      ∃ receipt, t.receipts transaction.idempotencyKey = some receipt ∧
        receipt.outcome.outcome = .outcomeUnknown

theorem Borne.mono {outcome : TurnOutcome} (h : Borne s outcome) (hrun : ServiceRun s trs t) :
    Borne t outcome := by
  refine ⟨h.decided, fun revision hrevision => ?_, fun transaction action verdict houtcome
    hunknown hkeyed => ?_⟩
  · obtain ⟨m, hm, hkept⟩ := h.kept revision hrevision
    exact ⟨m, hm, hkept.mono (memory_prefix_of_run hrun)⟩
  · obtain ⟨receipt, hreceipt, hsame⟩ := h.recorded transaction action verdict houtcome hunknown
      hkeyed
    exact ⟨receipt, receipt_persists hrun hreceipt hkeyed, hsame⟩

theorem turn_borne {store : σ} {prompt result : Str} {actor : AuthenticatedActor}
    {mode : WorkMode} {elapsed : ℤ} {outcome : TurnOutcome}
    (hempty : (MemoryBacked.memory store).revisions = [])
    (hrun : ServiceRun (ServiceState.start store) past s)
    (hsized : SizedRun 100000 (past ++ llm.calls s prompt actor mode))
    (hwork : llm.work s prompt actor mode elapsed = some (llm', result, t))
    (houtcome : llm.outcome s prompt actor mode = some outcome) : Borne t outcome := by
  have hsilent (hnot : outcome.isSubmitted = false) : Borne t outcome := by
    cases outcome with
    | submitted _ _ _ => simp [TurnOutcome.isSubmitted] at hnot
    | _ => exact ⟨by simp [TurnOutcome.isSubmitted], by simp [TurnOutcome.accepted], by simp⟩
  rcases WorkingLLM.work_exits hwork with ⟨hbound, -, -⟩ | ⟨handle, hbound, ⟨hgrant, -⟩ |
    ⟨grant, leased, hgrant, hrest⟩⟩
  · simp only [WorkingLLM.outcome, hbound, Option.some.injEq] at houtcome
    exact hsilent (houtcome ▸ rfl)
  · simp only [WorkingLLM.outcome, hbound, hgrant, Option.some.injEq] at houtcome
    exact hsilent (houtcome ▸ rfl)
  · rcases hrest with ⟨hempty', -, -⟩ | ⟨hmaterial, verdict, after, hwrite, rfl, hconclude⟩
    · have hnone : ((llm.propose prompt handle.state).stamped handle).operations.isEmpty = true :=
        List.isEmpty_iff.mpr hempty'
      simp only [WorkingLLM.outcome, hbound, hgrant, hnone, if_true, Option.some.injEq] at houtcome
      exact hsilent (houtcome ▸ rfl)
    · have hsome : ((llm.propose prompt handle.state).stamped handle).operations.isEmpty =
          false := List.isEmpty_eq_false_iff.mpr hmaterial
      simp only [WorkingLLM.outcome, hbound, hgrant, hsome, hwrite, Bool.false_eq_true, if_false,
        Option.some.injEq] at houtcome
      subst houtcome
      refine ⟨fun _ => ?_, fun revision hrevision => ?_, ?_⟩
      · rcases hconclude with ⟨successor, happlied, hsuccessor, -⟩ | ⟨hrefused, -⟩
        · simp [TurnOutcome.accepted, TurnOutcome.candidate, happlied, hsuccessor]
        · simp [TurnOutcome.accepted, TurnOutcome.candidate, hrefused]
      · simp only [TurnOutcome.accepted, Option.ite_none_right_eq_some,
          Option.map_eq_some_iff] at hrevision
        obtain ⟨happlied, successor, hsuccessor, rfl⟩ := hrevision
        exact ⟨successor, rfl, applied_kept hempty hrun hsized hbound hgrant hmaterial hwrite
          happlied hsuccessor⟩
      · rintro _ _ _ hsame hunknown hkeyed
        obtain ⟨rfl, -, rfl⟩ := TurnOutcome.submitted.inj hsame
        rw [releaseGrant_receipts]
        exact unknown_recorded hwrite hunknown hkeyed

/-- The checkpoint of a session accounts for its turns: every delta that was handed to
the gated write is on exactly one of the lists, what is called accepted is stored with
a state that may go on, and a gap under a key is on record as unresolved. -/
theorem checkpoint_truthful {store : σ} (hempty : (MemoryBacked.memory store).revisions = [])
    (hrun : ServiceRun (ServiceState.start store) past s) (h : Worked llm s log llm' t trs)
    (hsized : SizedRun 100000 (past ++ trs)) :
    Accounts llm log llm' ∧ (∀ outcome ∈ log, Borne t outcome) ∧
      (log.filterMap TurnOutcome.accepted).length + (log.filterMap TurnOutcome.candidate).length =
        log.countP TurnOutcome.isSubmitted := by
  have hborne : ∀ outcome ∈ log, Borne t outcome := by
    induction h with
    | nil => simp
    | @turn log past' last before after trs prompt result actor mode elapsed outcome hpast hwork
        houtcome ih =>
        intro other hother
        have hbefore := hrun.append hpast.run
        rw [← List.append_assoc] at hsized
        rcases List.mem_append.mp hother with hother | hother
        · have hthen := ih (hsized.subset (List.subset_append_left _ _)) other hother
          exact hthen.mono (WorkingLLM.run_calls hwork)
        · obtain rfl := List.mem_singleton.mp hother
          exact turn_borne hempty hbefore hsized hwork houtcome
    | others hpast hcalls ih =>
        intro other hother
        exact (ih (hsized.subset (by simp [← List.append_assoc])) other hother).mono hcalls
  exact ⟨h.accounts, hborne, length_submitted fun outcome hmem => (hborne outcome hmem).decided⟩

end Truth

open scoped QivenContext.Reference in
/-- The account of a turn whose delta was applied. -/
theorem applied_turn_truthful :
    ∃ (past trs : List (ServiceTransition MemoryStore)) (s t : ServiceState MemoryStore)
      (llm llm' : WorkingLLM) (outcome : TurnOutcome) (m' : Materialization),
      ServiceRun (ServiceState.start {}) past s ∧ Worked llm s [outcome] llm' t trs ∧
        llm'.pCognition = some m' ∧ outcome.accepted = some m'.revision ∧
        Accounts llm [outcome] llm' ∧ Borne t outcome := by
  obtain ⟨booted, leased, m, hfirst, hacquired, honHead, -, hstate, -, -, -, hreceipts⟩ :=
    exists_boot
  obtain ⟨after, m', hwrote, -⟩ :=
    honHead.writeEvidence (hstate ▸ genesis_quiet) ((keyedEvidence {}).stamped m)
      (resolveKey_fresh (hreceipts _)) rfl (by simp [keyedEvidence, ContextTransaction.stamped])
      (keyedEvidence_evidenceOnly _)
  obtain ⟨hproposed, -, -⟩ := hwrote.proposed hacquired (List.cons_ne_nil _ _) (by decide)
  obtain ⟨t, hwork, -⟩ := hproposed.settles 0 rfl (by decide) rfl
  have hrun := (Run.nil (ServiceState.start ({} : MemoryStore))).snoc hfirst
  have hgrant : booted.acquireGrant rootActor .supervisedForeground =
      (some firstGrant, leased) := by
    simp only [step, Option.some.injEq, Prod.mk.injEq, Answer.granted.injEq] at hacquired
    exact Prod.ext hacquired.1 hacquired.2
  have hwrite : leased.writeToCognition (some m) ((keyedEvidence {}).stamped m) firstGrant =
      some ({ outcome := .applied, successor := some m' }, after) := by
    have hstep := hwrote.step
    simp only [step] at hstep
    split at hstep
    · simp at hstep
    · next verdict u hwrite =>
        obtain ⟨rfl, rfl⟩ : verdict = _ ∧ u = after := by
          simpa only [Option.some.injEq, Prod.mk.injEq, Answer.verdict.injEq] using hstep
        exact hwrite
  have hbound : (insisting m (keyedEvidence {})).pCognition = some m := rfl
  have hdelta : (insisting m (keyedEvidence {})).propose [] m.state = keyedEvidence {} := rfl
  have hcalls : (insisting m (keyedEvidence {})).calls booted [] rootActor .supervisedForeground =
      [⟨booted, .acquireGrant rootActor .supervisedForeground, .granted (some firstGrant), leased⟩,
        OnHead.written leased m ((keyedEvidence {}).stamped m) after m',
        ⟨after, .releaseGrant firstGrant, .done, after.releaseGrant firstGrant⟩] := by
    simp only [WorkingLLM.calls, hbound, hgrant, hdelta, hwrite]
    rfl
  have houtcome : (insisting m (keyedEvidence {})).outcome booted [] rootActor
      .supervisedForeground = some (.submitted ((keyedEvidence {}).stamped m)
        (recoveryFor m.state .storeDiverged)
        { outcome := .applied, successor := some m' }) := by
    simp only [WorkingLLM.outcome, hbound, hgrant, hdelta, hwrite]
    rfl
  have hnone : NoWrites [(⟨ServiceState.start ({} : MemoryStore), .createCognition {},
      .created (.handle m), booted⟩ : ServiceTransition MemoryStore),
      ⟨booted, .acquireGrant rootActor .supervisedForeground, .granted (some firstGrant),
        leased⟩] := by
    simp [NoWrites]
  have hroom : Room 100000 m.state (keyedEvidence {}).operations :=
    hstate ▸ (keyedEvidence_evidenceOnly {}).room (by simp [keyedEvidence])
  have hwritten := hwrote.sizedRun hnone (keyedEvidence_short m.revision) hroom
  have hworked := Worked.turn .nil hwork houtcome
  rw [hcalls] at hworked
  obtain ⟨haccounts, hborne, -⟩ := checkpoint_truthful rfl hrun hworked
    (hwritten.snoc_release firstGrant)
  exact ⟨_, _, booted, t, _, _, _, m', hrun, hworked, WorkingLLM.annotateBudget_pCognition _ _,
    rfl, haccounts, hborne _ (List.mem_singleton.mpr rfl)⟩

end QivenContext
