import QivenContext.Lease
import QivenContext.Reach
import QivenContext.Work

/-!
# Sessions of turns

A turn has five exits, three of them with the lease taken. On each of them the
service is as free as it was and at most one commit happened, and the session
follows the verdict: it is bound to the successor of an applied delta, and
parks, or records a gap, where the verdict says so. So over a session the handle
is the last one accepted.
-/

namespace QivenContext

open Library ServiceState

section Service

variable [Foundation] {σ : Type} [CognitionStore σ] {s t after : ServiceState σ}
  {trs : List (ServiceTransition σ)} {handle : CognitionHandle} {transaction : ContextTransaction}
  {grant : ExecutionGrant} {verdict : Verdict}

/-! ## The service between turns -/

/-- Without a lease there is no lease actor. -/
theorem grantActor_idle {store : σ} (hrun : ServiceRun (ServiceState.start store) trs s) :
    s.activeGrantId = {} → s.grantActor = {} := by
  refine hrun.invariant (P := fun s => s.activeGrantId = {} → s.grantActor = {})
    (C := fun _ => True) (fun _ _ => trivial) (fun _ => rfl) ?_
  intro tr hvalid _ hbefore
  obtain ⟨before, call, answer, after⟩ := tr
  have h : before.step call = some (answer, after) := hvalid
  cases effect h with
  | leased hid _ _ =>
      -- a granted lease has an id
      intro hfree
      have hempty := grantIdOf_isEmpty (before.grantGeneration + 1)
      rw [grantIdOf, ← hid, GrantId.isEmpty_iff.mpr hfree] at hempty
      simp at hempty
  | released _ => exact fun _ => rfl
  | unknown verdict _ _ _ _ =>
      intro hfree
      rw [(record_lease verdict).1] at hfree
      rw [(record_lease verdict).2.1]
      exact hbefore hfree
  | published verdict _ _ _ _ _ _ _ =>
      intro hfree
      rw [(record_lease verdict).1] at hfree
      rw [(record_lease verdict).2.1]
      exact hbefore hfree
  | _ => exact hbefore

/-- Every applied verdict on record names its successor. -/
def Receipted (s : ServiceState σ) : Prop :=
  ∀ key receipt, s.receipts key = some receipt → receipt.outcome.outcome = .applied →
    ∃ successor, receipt.outcome.successor = some successor

omit [CognitionStore σ] in
theorem Receipted.record (h : Receipted s)
    (hverdict : verdict.outcome = .applied → ∃ successor, verdict.successor = some successor) :
    Receipted (s.record transaction verdict) := by
  intro key receipt hreceipt happlied
  by_cases hkeyed : transaction.idempotencyKey = []
  · rw [record_unkeyed hkeyed] at hreceipt
    exact h key receipt hreceipt happlied
  · rw [record_receipts rfl hkeyed] at hreceipt
    by_cases hkey : key = transaction.idempotencyKey
    · subst hkey
      rw [Function.update_self] at hreceipt
      obtain rfl := Option.some.inj hreceipt
      exact hverdict happlied
    · rw [Function.update_of_ne hkey] at hreceipt
      exact h key receipt hreceipt happlied

theorem receipted_of_run {store : σ} (hrun : ServiceRun (ServiceState.start store) trs s) :
    Receipted s := by
  refine hrun.invariant (P := Receipted) (C := fun _ => True) (fun _ _ => trivial) ?_ ?_
  · intro key receipt hreceipt
    simp [ServiceState.start] at hreceipt
  · intro tr hvalid _ hbefore
    obtain ⟨before, call, answer, after⟩ := tr
    have h : before.step call = some (answer, after) := hvalid
    cases effect h with
    | unknown verdict _ _ _ hverdict => exact Receipted.record hbefore (by simp [hverdict])
    | published verdict _ _ _ _ _ _ hverdict =>
        exact Receipted.record hbefore (by simp [hverdict])
    | _ => exact hbefore

/-- An applied write names its successor. -/
theorem exists_successor (hreceipted : Receipted s) (hbound : handle ≠ none)
    (h : s.writeToCognition handle transaction grant = some (verdict, after))
    (happlied : verdict.outcome = .applied) : ∃ successor, verdict.successor = some successor := by
  rcases write_cases h with ⟨hkey, -⟩ | ⟨-, reason, rfl, -⟩ | ⟨-, -, -, rfl⟩ |
    ⟨-, entry, next, -, hcommit⟩
  · unfold resolveKey at hkey
    split at hkey
    · simp at hkey
    · obtain ⟨receipt, hreceipt, hverdict⟩ := Option.map_eq_some_iff.mp hkey
      split at hverdict
      · rw [← hverdict] at happlied
        simp [Verdict.refuse] at happlied
      · subst hverdict
        exact hreceipted _ receipt hreceipt happlied
  · simp [Verdict.refuse] at happlied
  · exact Option.ne_none_iff_exists'.mp hbound
  · rcases commit_cases hcommit with ⟨-, rfl, -⟩ | ⟨-, rfl, -⟩ | ⟨-, m, -, rfl, -⟩
    · simp [Verdict.refuse] at happlied
    · simp at happlied
    · exact ⟨m, rfl⟩

omit [Foundation] [CognitionStore σ] in
theorem exists_concluded (llm : WorkingLLM) (snapshot : Snapshot)
    (transaction : ContextTransaction)
    (h : verdict.outcome = .applied → ∃ successor, verdict.successor = some successor) :
    ∃ concluded, llm.conclude snapshot transaction verdict = some concluded := by
  unfold WorkingLLM.conclude
  split
  · next happlied =>
      obtain ⟨successor, hsuccessor⟩ := h happlied
      rw [hsuccessor]
      exact ⟨_, rfl⟩
  · exact ⟨_, rfl⟩

/-- The store was called at most once. -/
def CommitsAtMostOnce (s t : ServiceState σ) : Prop :=
  t.store = s.store ∨ ∃ base stateBytes,
    t.store = (CognitionStore.compareAndSwap s.store base stateBytes).2

theorem write_commits (h : s.writeToCognition handle transaction grant = some (verdict, after)) :
    CommitsAtMostOnce s after := by
  rcases write_cases h with ⟨-, rfl⟩ | ⟨-, -, -, rfl, -⟩ | ⟨-, rfl, -⟩ |
    ⟨-, entry, next, -, hcommit⟩
  · exact .inl rfl
  · exact .inl rfl
  · exact .inl rfl
  · rcases commit_cases hcommit with ⟨-, -, rfl⟩ | ⟨-, -, rfl⟩ | ⟨-, m, -, -, rfl⟩
    · exact .inr ⟨_, _, rfl⟩
    · exact .inr ⟨_, _, record_store _⟩
    · exact .inr ⟨_, _, record_store _⟩

omit [Foundation] [CognitionStore σ] in
theorem releaseGrant_idle (h : s.activeGrantId = grant.id) :
    (s.releaseGrant grant).grantActor = {} := by
  rw [releaseGrant, if_pos h]

end Service

/-! ## One turn -/

section Turn

variable [Foundation] {σ : Type} [CognitionStore σ] {s t : ServiceState σ}
  {trs : List (ServiceTransition σ)} {llm llm' : WorkingLLM} {handle handle' : Materialization}
  {transaction transaction' : ContextTransaction} {verdict verdict' : Verdict}
  {actor : AuthenticatedActor} {mode : WorkMode} {prompt result : Str} {elapsed : ℤ}

theorem WorkingLLM.Proposed.unique
    (h : llm.Proposed s prompt actor mode handle transaction verdict)
    (h' : llm.Proposed s prompt actor mode handle' transaction' verdict') :
    handle' = handle ∧ transaction' = transaction ∧ verdict' = verdict := by
  obtain rfl : handle' = handle := Option.some.inj (h'.bound.symm.trans h.bound)
  obtain rfl : transaction' = transaction := h'.delta.symm.trans h.delta
  obtain ⟨grant, leased, after, hgrant, hwrite⟩ := h.written
  obtain ⟨grant', leased', after', hgrant', hwrite'⟩ := h'.written
  obtain ⟨hsame, rfl⟩ := Prod.mk.inj (hgrant.symm.trans hgrant')
  obtain rfl := Option.some.inj hsame
  obtain ⟨rfl, -⟩ := Prod.mk.inj (Option.some.inj (hwrite.symm.trans hwrite'))
  exact ⟨rfl, rfl, rfl⟩

/-- What a turn does to the service and to the session, by the verdict it got if it got
one. -/
structure TurnLaw (llm : WorkingLLM) (s : ServiceState σ) (prompt : Str)
    (actor : AuthenticatedActor) (mode : WorkMode) (llm' : WorkingLLM) (t : ServiceState σ) :
    Prop where
  activeGrantId : t.activeGrantId = s.activeGrantId
  grantActor : t.grantActor = s.grantActor
  commits : CommitsAtMostOnce s t
  accepted : (∃ handle transaction verdict successor,
      llm.Proposed s prompt actor mode handle transaction verdict ∧
      verdict.outcome = .applied ∧ verdict.successor = some successor ∧
      llm'.pCognition = verdict.successor ∧
      llm'.checkpoint.acceptedRefs = llm.checkpoint.acceptedRefs ++ [successor.revision]) ∨
    (∀ handle transaction verdict, llm.Proposed s prompt actor mode handle transaction verdict →
      verdict.outcome ≠ .applied) ∧
      llm'.pCognition = llm.pCognition ∧
      llm'.checkpoint.acceptedRefs = llm.checkpoint.acceptedRefs
  parked : (∃ handle transaction verdict,
      llm.Proposed s prompt actor mode handle transaction verdict ∧
      verdict.outcome ≠ .applied ∧ recoveryFor handle.state verdict.reason = .rereadRethink ∧
      llm'.parkedDeltas = llm.parkedDeltas ++ [transaction.stamped handle]) ∨
    (∀ handle transaction verdict, llm.Proposed s prompt actor mode handle transaction verdict →
      ¬ (verdict.outcome ≠ .applied ∧
        recoveryFor handle.state verdict.reason = .rereadRethink)) ∧
      llm'.parkedDeltas = llm.parkedDeltas
  gaps : (∃ handle transaction verdict gap,
      llm.Proposed s prompt actor mode handle transaction verdict ∧
      verdict.outcome = .outcomeUnknown ∧
      gap.what = lit "commit outcome for key " ++ transaction.idempotencyKey ∧
      llm'.checkpoint.evidenceGaps = llm.checkpoint.evidenceGaps ++ [gap]) ∨
    (∀ handle transaction verdict, llm.Proposed s prompt actor mode handle transaction verdict →
      verdict.outcome ≠ .outcomeUnknown) ∧
      llm'.checkpoint.evidenceGaps = llm.checkpoint.evidenceGaps

/-- A turn that does not get as far as a verdict leaves the session as it was. -/
theorem TurnLaw.of_unwritten
    (hnone : ∀ handle transaction verdict,
      ¬ llm.Proposed s prompt actor mode handle transaction verdict)
    (hid : t.activeGrantId = s.activeGrantId) (hactor : t.grantActor = s.grantActor)
    (hstore : t.store = s.store) (hbound : llm'.pCognition = llm.pCognition)
    (hrefs : llm'.checkpoint.acceptedRefs = llm.checkpoint.acceptedRefs)
    (hparked : llm'.parkedDeltas = llm.parkedDeltas)
    (hgaps : llm'.checkpoint.evidenceGaps = llm.checkpoint.evidenceGaps) :
    TurnLaw llm s prompt actor mode llm' t where
  activeGrantId := hid
  grantActor := hactor
  commits := .inl hstore
  accepted := .inr ⟨fun _ _ _ h => (hnone _ _ _ h).elim, hbound, hrefs⟩
  parked := .inr ⟨fun _ _ _ h => (hnone _ _ _ h).elim, hparked⟩
  gaps := .inr ⟨fun _ _ _ h => (hnone _ _ _ h).elim, hgaps⟩

/-- A turn whose delta was applied binds the session to the successor. -/
theorem TurnLaw.of_applied (hproposed : llm.Proposed s prompt actor mode handle transaction verdict)
    (hid : t.activeGrantId = s.activeGrantId) (hactor : t.grantActor = s.grantActor)
    (hcommits : CommitsAtMostOnce s t) (happlied : verdict.outcome = .applied)
    {successor : Materialization} (hsuccessor : verdict.successor = some successor) :
    TurnLaw llm s prompt actor mode
      (((llm.disclose actor).accept successor).annotateBudget elapsed) t where
  activeGrantId := hid
  grantActor := hactor
  commits := hcommits
  accepted := by
    refine .inl ⟨handle, transaction, verdict, successor, hproposed, happlied, hsuccessor, ?_,
      WorkingLLM.annotateBudget_acceptedRefs _ _⟩
    rw [WorkingLLM.annotateBudget_pCognition, hsuccessor]
    rfl
  parked := by
    refine .inr ⟨fun _ _ _ hother => ?_, WorkingLLM.annotateBudget_parkedDeltas _ _⟩
    obtain ⟨-, -, rfl⟩ := hproposed.unique hother
    exact fun hnot => hnot.1 happlied
  gaps := by
    refine .inr ⟨fun _ _ _ hother => ?_, WorkingLLM.annotateBudget_evidenceGaps _ _⟩
    obtain ⟨-, -, rfl⟩ := hproposed.unique hother
    simp [happlied]

/-- Any other verdict leaves the binding, and is answered from the recovery table. -/
theorem TurnLaw.of_refused (hproposed : llm.Proposed s prompt actor mode handle transaction verdict)
    (hid : t.activeGrantId = s.activeGrantId) (hactor : t.grantActor = s.grantActor)
    (hcommits : CommitsAtMostOnce s t) (hrefused : verdict.outcome ≠ .applied) :
    TurnLaw llm s prompt actor mode (((llm.disclose actor).recover handle.state
      (transaction.stamped handle) verdict).annotateBudget elapsed) t where
  activeGrantId := hid
  grantActor := hactor
  commits := hcommits
  accepted := by
    refine .inr ⟨fun _ _ _ hother => ?_, WorkingLLM.annotateBudget_pCognition _ _,
      WorkingLLM.annotateBudget_acceptedRefs _ _⟩
    obtain ⟨-, -, rfl⟩ := hproposed.unique hother
    exact hrefused
  parked := by
    rw [WorkingLLM.annotateBudget_parkedDeltas]
    by_cases hreread : recoveryFor handle.state verdict.reason = .rereadRethink
    · exact .inl ⟨handle, transaction, verdict, hproposed, hrefused, hreread, if_pos hreread⟩
    · refine .inr ⟨fun _ _ _ hother => ?_, if_neg hreread⟩
      obtain ⟨rfl, -, rfl⟩ := hproposed.unique hother
      exact fun hnot => hreread hnot.2
  gaps := by
    rw [WorkingLLM.annotateBudget_evidenceGaps]
    by_cases hunknown : verdict.outcome = .outcomeUnknown
    · exact .inl ⟨handle, transaction, verdict, _, hproposed, hunknown, rfl, if_pos hunknown⟩
    · refine .inr ⟨fun _ _ _ hother => ?_, if_neg hunknown⟩
      obtain ⟨-, -, rfl⟩ := hproposed.unique hother
      exact hunknown

/-- A turn that took the lease found no lease actor and leaves none. -/
theorem grantActor_restored {store : σ} (hrun : ServiceRun (ServiceState.start store) trs s)
    {grant : ExecutionGrant} {leased after : ServiceState σ}
    (hgrant : s.acquireGrant actor mode = (some grant, leased))
    (hafter : after.activeGrantId = grant.id) :
    (after.releaseGrant grant).grantActor = s.grantActor := by
  rcases acquireGrant_cases hgrant with ⟨hnone, -⟩ | ⟨id, -, hfree, -⟩
  · simp at hnone
  · rw [releaseGrant_idle hafter, grantActor_idle hrun (GrantId.isEmpty_iff.mp hfree)]

/-- A refused grant leaves the lease and the store. -/
theorem kept_of_refused_grant (hgrant : s.acquireGrant actor mode = (none, t)) :
    t.grantActor = s.grantActor ∧ t.store = s.store := by
  rcases acquireGrant_cases hgrant with ⟨-, rfl | rfl⟩ | ⟨id, -, -, -, hnone, -⟩
  · exact ⟨rfl, rfl⟩
  · exact ⟨rfl, rfl⟩
  · simp at hnone

/-- The law holds at every exit of a turn. -/
theorem work_turnLaw {store : σ} (hrun : ServiceRun (ServiceState.start store) trs s)
    (h : llm.work s prompt actor mode elapsed = some (llm', result, t)) :
    TurnLaw llm s prompt actor mode llm' t := by
  have hid := WorkingLLM.work_lease h
  rcases WorkingLLM.work_exits h with ⟨hbound, rfl, rfl⟩ | ⟨handle, hbound, ⟨hgrant, rfl⟩ |
    ⟨grant, leased, hgrant, hrest⟩⟩
  · refine .of_unwritten (fun _ _ _ hproposed => ?_) hid rfl rfl
      (WorkingLLM.annotateBudget_pCognition _ _) (WorkingLLM.annotateBudget_acceptedRefs _ _)
      (WorkingLLM.annotateBudget_parkedDeltas _ _) (WorkingLLM.annotateBudget_evidenceGaps _ _)
    rw [hproposed.bound] at hbound
    simp at hbound
  · obtain ⟨hactor, hstore⟩ := kept_of_refused_grant hgrant
    refine .of_unwritten (fun _ _ _ hproposed => ?_) hid hactor hstore
      (WorkingLLM.annotateBudget_pCognition _ _) (WorkingLLM.annotateBudget_acceptedRefs _ _)
      (WorkingLLM.annotateBudget_parkedDeltas _ _) (WorkingLLM.annotateBudget_evidenceGaps _ _)
    obtain ⟨grant, leased, after, hgrant', -⟩ := hproposed.written
    rw [hgrant] at hgrant'
    simp at hgrant'
  · obtain ⟨-, hleased, hhead, -⟩ := leased_of_acquireGrant hgrant
    rcases hrest with ⟨hempty, rfl, rfl⟩ | ⟨hmaterial, verdict, after, hwrite, rfl, hconclude⟩
    · refine .of_unwritten (fun _ _ _ hproposed => ?_) hid
        (grantActor_restored hrun hgrant hleased)
        (releaseGrant_sameHead.store.trans hhead.store)
        (WorkingLLM.annotateBudget_pCognition _ _) (WorkingLLM.annotateBudget_acceptedRefs _ _)
        (WorkingLLM.annotateBudget_parkedDeltas _ _) (WorkingLLM.annotateBudget_evidenceGaps _ _)
      obtain rfl := Option.some.inj (hbound.symm.trans hproposed.bound)
      exact hproposed.material (hproposed.delta ▸ hempty)
    · have hproposed : llm.Proposed s prompt actor mode handle
          (llm.propose prompt handle.state) verdict :=
        ⟨hbound, rfl, hmaterial, grant, leased, after, hgrant, hwrite⟩
      have hactor := grantActor_restored hrun hgrant
        ((writeToCognition_lease hwrite).trans hleased)
      have hcommits : CommitsAtMostOnce s (after.releaseGrant grant) := by
        have hwritten := write_commits hwrite
        unfold CommitsAtMostOnce at hwritten ⊢
        rwa [releaseGrant_sameHead.store, ← hhead.store]
      rcases hconclude with ⟨successor, happlied, hsuccessor, rfl⟩ | ⟨hrefused, rfl⟩
      · exact .of_applied hproposed hid hactor hcommits happlied hsuccessor
      · exact .of_refused hproposed hid hactor hcommits hrefused

/-- A turn returns where the links that its handle stands for have no cycle. -/
theorem work_returns {store : σ} (hrun : ServiceRun (ServiceState.start store) trs s)
    (hacyclic : ∀ handle entry, llm.pCognition = some handle →
      s.findLive (some handle) = some entry → Acyclic (Links entry.state)) :
    ∃ llm' result t, llm.work s prompt actor mode elapsed = some (llm', result, t) := by
  cases hbound : llm.pCognition with
  | none => exact ⟨_, _, _, by simp only [WorkingLLM.work, WorkingLLM.workImpl, hbound]; rfl⟩
  | some handle =>
      rcases hgrant : s.acquireGrant actor mode with ⟨granted, leased⟩
      cases granted with
      | none => exact ⟨_, _, _, WorkingLLM.work_of_refused hbound hgrant⟩
      | some grant =>
          by_cases hmaterial : (llm.propose prompt handle.state).operations = []
          · have hempty : ((llm.disclose actor).propose prompt handle.state).operations.isEmpty =
                true := List.isEmpty_iff.mpr hmaterial
            exact ⟨_, _, _, by
              simp only [WorkingLLM.work, WorkingLLM.workImpl, hbound, hgrant, hempty]; rfl⟩
          · obtain ⟨-, -, hhead, hreceipts⟩ := leased_of_acquireGrant hgrant
            have hlive : leased.findLive (some handle) = s.findLive (some handle) := by
              unfold findLive
              rw [hhead.live]
            have hwritten : ∃ verdict after, leased.writeToCognition (some handle)
                ((llm.propose prompt handle.state).stamped handle) grant = some (verdict, after) :=
              writeToCognition_returns fun entry hentry =>
                hacyclic handle entry hbound (hlive ▸ hentry)
            obtain ⟨verdict, after, hwrite⟩ := hwritten
            have hreceipted : Receipted leased := fun key receipt hreceipt =>
              receipted_of_run hrun key receipt (hreceipts ▸ hreceipt)
            obtain ⟨⟨concluded, text⟩, hconclude⟩ := exists_concluded (llm.disclose actor)
              handle.state ((llm.propose prompt handle.state).stamped handle)
              (exists_successor hreceipted (by simp) hwrite)
            refine ⟨concluded.annotateBudget elapsed, text, after.releaseGrant grant, ?_⟩
            rw [WorkingLLM.work_of_write hbound rfl hmaterial hgrant hwrite, hconclude]
            rfl

/-! ## Many turns -/

/-- Turns of one session. Between two of them other calls reach the service, and the
session may be changed except in what it is bound to and has accepted. -/
inductive Turns (llm : WorkingLLM) (s : ServiceState σ) : WorkingLLM → ServiceState σ → Prop
  | nil : Turns llm s llm s
  | snoc {past next last : WorkingLLM} {before during after : ServiceState σ}
      {others : List (ServiceTransition σ)} {prompt result : Str} {actor : AuthenticatedActor}
      {mode : WorkMode} {elapsed : ℤ} (hpast : Turns llm s past before)
      (hothers : ServiceRun before others during) (hbound : next.pCognition = past.pCognition)
      (hrefs : next.checkpoint.acceptedRefs = past.checkpoint.acceptedRefs)
      (hwork : next.work during prompt actor mode elapsed = some (last, result, after)) :
      Turns llm s last after

theorem Turns.run (h : Turns llm s llm' t) : ∃ trs, ServiceRun s trs t := by
  induction h with
  | nil => exact ⟨[], .nil s⟩
  | snoc _ hothers _ _ hwork ih =>
      obtain ⟨trs, hrun⟩ := ih
      obtain ⟨turn, hturn⟩ := WorkingLLM.work_run hwork
      exact ⟨_, (hrun.append hothers).append hturn⟩

/-- The later session is bound to the last revision it accepted since, or where it was. -/
def FollowsAccepted (llm llm' : WorkingLLM) : Prop :=
  ∃ accepted, llm'.checkpoint.acceptedRefs = llm.checkpoint.acceptedRefs ++ accepted ∧
    llm'.pCognition.map (fun handle => handle.revision) =
      accepted.getLast?.or (llm.pCognition.map fun handle => handle.revision)

omit [Foundation] in
theorem FollowsAccepted.of_kept (hbound : llm'.pCognition = llm.pCognition)
    (hrefs : llm'.checkpoint.acceptedRefs = llm.checkpoint.acceptedRefs) :
    FollowsAccepted llm llm' :=
  ⟨[], by rw [hrefs, List.append_nil], by rw [hbound]; rfl⟩

omit [Foundation] in
theorem FollowsAccepted.trans {llm'' : WorkingLLM} (h : FollowsAccepted llm llm')
    (h' : FollowsAccepted llm' llm'') : FollowsAccepted llm llm'' := by
  obtain ⟨first, hrefs, hbound⟩ := h
  obtain ⟨second, hrefs', hbound'⟩ := h'
  refine ⟨first ++ second, by rw [hrefs', hrefs, List.append_assoc], ?_⟩
  rw [hbound', hbound, List.getLast?_append, Option.or_assoc]

theorem TurnLaw.follows (h : TurnLaw llm s prompt actor mode llm' t) :
    FollowsAccepted llm llm' := by
  rcases h.accepted with ⟨_, _, _, successor, -, -, hsuccessor, hbound, hrefs⟩ |
    ⟨-, hbound, hrefs⟩
  · exact ⟨[successor.revision], hrefs, by rw [hbound, hsuccessor]; rfl⟩
  · exact .of_kept hbound hrefs

theorem Turns.follows {store : σ} (hrun : ServiceRun (ServiceState.start store) trs s)
    (h : Turns llm s llm' t) : FollowsAccepted llm llm' := by
  induction h with
  | nil => exact .of_kept rfl rfl
  | snoc hpast hothers hbound hrefs hwork ih =>
      obtain ⟨turns, hturns⟩ := hpast.run
      -- a session is a run of the service, so each of its turns starts in a reachable state
      have hlaw := work_turnLaw ((hrun.append hturns).append hothers) hwork
      exact (ih.trans (.of_kept hbound hrefs)).trans hlaw.follows

/-- Every turn obeys the law, and returns unless the gated write loops in its links; and a
session of turns is bound to what it accepted last. -/
theorem turns_lawful {store : σ} (hrun : ServiceRun (ServiceState.start store) trs s) :
    (∀ (llm : WorkingLLM) prompt actor mode elapsed,
      (∀ handle entry, llm.pCognition = some handle → s.findLive (some handle) = some entry →
        Acyclic (Links entry.state)) →
      ∃ llm' result t, llm.work s prompt actor mode elapsed = some (llm', result, t)) ∧
    (∀ (llm : WorkingLLM) prompt actor mode elapsed llm' result t,
      llm.work s prompt actor mode elapsed = some (llm', result, t) →
      TurnLaw llm s prompt actor mode llm' t) ∧
    ∀ llm llm' t, Turns llm s llm' t → FollowsAccepted llm llm' :=
  ⟨fun _ _ _ _ _ => work_returns hrun, fun _ _ _ _ _ _ _ _ => work_turnLaw hrun,
    fun _ _ _ => Turns.follows hrun⟩

end Turn

open scoped Reference in
/-- A turn that proposes one piece of evidence, on a chain that was there before. -/
theorem evidence_turn_lawful :
    ∃ (trs : List (ServiceTransition MemoryStore)) (s t : ServiceState MemoryStore)
      (llm llm' : WorkingLLM) (successor : Materialization) (result : Str),
      ServiceRun (ServiceState.start (preexisting makeGenesis)) trs s ∧
        llm.work s [] rootActor .supervisedForeground 0 = some (llm', result, t) ∧
        TurnLaw llm s [] rootActor .supervisedForeground llm' t ∧
        llm'.checkpoint.acceptedRefs = [successor.revision] ∧ FollowsAccepted llm llm' := by
  obtain ⟨trs, booted, leased, m, hrun, hacquired, honHead, hstate, -, -, hreceipts⟩ :=
    exists_booted deserialize_genesis rfl
  obtain ⟨after, m', hwrote, -⟩ :=
    honHead.writeEvidence (hstate ▸ genesis_quiet) ((keyedEvidence {}).stamped m)
      (resolveKey_fresh (hreceipts _)) rfl (by simp [keyedEvidence, ContextTransaction.stamped])
      (keyedEvidence_evidenceOnly _)
  obtain ⟨hproposed, -, -⟩ := hwrote.proposed hacquired (List.cons_ne_nil _ _) (by decide)
  obtain ⟨t, hwork, -⟩ := hproposed.settles 0 rfl (by decide) rfl
  obtain ⟨-, hlaw, hsession⟩ := turns_lawful hrun
  exact ⟨trs, booted, t, _, _, m', _, hrun, hwork, hlaw _ _ _ _ _ _ _ _ hwork,
    WorkingLLM.annotateBudget_acceptedRefs _ _,
    hsession _ _ _ (.snoc .nil (.nil booted) rfl rfl hwork)⟩

end QivenContext
