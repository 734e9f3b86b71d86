import QivenContext.Boot
import QivenContext.Readers
import QivenContext.Scenario
import QivenContext.Work

/-!
# Continuation

A human works through a client that points to a model and to a device. Models,
devices and humans are exchanged by turning pointers, the chain is booted again,
and other clients call the service. A graph that may go on may go on after all
of this, and nobody holds it back who finds the lease free.
-/

namespace QivenContext

open Library ServiceState

/-! ## The participants at work -/

/-- The participants, with the models that pointers reach; `role` is that of the
client's binding. -/
structure ParticipantGraph where
  human : Human
  client : LLMClientTool
  role : Role := .worker
  lastFeedback : Str := []
  device : Device
  llms : ℕ → Option WorkingLLM

/-- What participants are exchanged for; all of it is pointers and values of the
graph. -/
inductive Rebind where
  | model (llm : WorkingLLM)
  | device (device : Device)
  | human (human : Human)

namespace ParticipantGraph

def currentLLM (g : ParticipantGraph) : Option WorkingLLM := g.client.pCurrentLLM.bind g.llms

/-- The human's principal, with what the client and the model that is bound disclose. -/
def actor (g : ParticipantGraph) (llm : WorkingLLM) : AuthenticatedActor where
  principal := g.human.verifiedPrincipal
  role := g.role
  binding := g.client.binding.modelId
  servingModel := llm.name
  reasoning := lit "standard"

/-- The model that is pointed to changes in place. -/
def put (g : ParticipantGraph) (address : ℕ) (llm : WorkingLLM) : ParticipantGraph :=
  { g with llms := Function.update g.llms address (some llm) }

/-- A new model takes over the cognition of the current one, and is disclosed. -/
def rebind (g : ParticipantGraph) : Rebind → ParticipantGraph
  | .model llm =>
      let handle := g.currentLLM.bind fun current => current.pCognition
      { g.put llm.address { llm with pCognition := handle } with
        client := { g.client with
          pCurrentLLM := some llm.address, binding := { modelId := llm.name } } }
  | .device device =>
      { g with
        device := device
        client := { g.client with pTargetDevice := some device.address } }
  | .human human => { g with human := human }

/-- The current model is given another materialization. -/
def bindCognition (g : ParticipantGraph) (handle : Materialization) : ParticipantGraph :=
  match g.client.pCurrentLLM, g.currentLLM with
  | some address, some llm => g.put address { llm with pCognition := some handle }
  | _, _ => g

section Service

variable [Foundation] {σ : Type} [CognitionStore σ]

/-- `use_llm_to_work` through `control_llm_from_human` and `collect_feedback`; a
client without a model is dereferenced and crashes. -/
def useLlmToWork (g : ParticipantGraph) (s : ServiceState σ) (prompt : Str) (elapsed : ℤ) :
    Option (Bool × ParticipantGraph × ServiceState σ) :=
  match g.client.pCurrentLLM, g.currentLLM with
  | some address, some llm =>
      match llm.work s prompt (g.actor llm) .supervisedForeground elapsed with
      | none => none
      | some (llm, result, s) =>
          some (true, { g.put address llm with lastFeedback := result }, s)
  | _, _ => none

/-- The whole-graph predicate at the handle of the current model. -/
def isContinueable (g : ParticipantGraph) (s : ServiceState σ) : Bool :=
  s.isContinueable (some g.human) (some g.client) (some g.device)
    (g.currentLLM.map WorkingLLM.toLLM) (g.currentLLM.bind fun llm => llm.pCognition)

end Service

end ParticipantGraph

section Turn

variable [Foundation] {σ : Type} [CognitionStore σ] {s t : ServiceState σ} {llm llm' : WorkingLLM}
  {prompt result : Str} {actor : AuthenticatedActor} {mode : WorkMode} {elapsed : ℤ}

namespace WorkingLLM

/-- The calls of a turn. -/
def calls (llm : WorkingLLM) (s : ServiceState σ) (prompt : Str) (actor : AuthenticatedActor)
    (mode : WorkMode) : List (ServiceTransition σ) :=
  match llm.pCognition with
  | none => []
  | some handle =>
      match s.acquireGrant actor mode with
      | (none, t) => [⟨s, .acquireGrant actor mode, .granted none, t⟩]
      | (some grant, leased) =>
          let transaction := (llm.propose prompt handle.state).stamped handle
          ⟨s, .acquireGrant actor mode, .granted (some grant), leased⟩ ::
            if transaction.operations.isEmpty then
              [⟨leased, .releaseGrant grant, .done, leased.releaseGrant grant⟩]
            else
              match leased.writeToCognition (some handle) transaction grant with
              | none => []
              | some (verdict, after) =>
                  [⟨leased, .writeToCognition (some handle) transaction grant, .verdict verdict,
                    after⟩,
                    ⟨after, .releaseGrant grant, .done, after.releaseGrant grant⟩]

theorem run_calls (h : llm.work s prompt actor mode elapsed = some (llm', result, t)) :
    ServiceRun s (llm.calls s prompt actor mode) t := by
  rcases work_exits h with ⟨hbound, -, rfl⟩ | ⟨handle, hbound, ⟨hgrant, -⟩ |
    ⟨grant, leased, hgrant, hrest⟩⟩
  · simp only [calls, hbound]
    exact .nil _
  · simp only [calls, hbound, hgrant]
    exact (Run.nil s).snoc (by simp only [step, hgrant])
  · have hfirst : s.step (.acquireGrant actor mode) = some (.granted (some grant), leased) := by
      simp only [step, hgrant]
    rcases hrest with ⟨hempty, -, rfl⟩ | ⟨hmaterial, verdict, after, hwrite, rfl, -⟩
    · have hnone : ((llm.propose prompt handle.state).stamped handle).operations.isEmpty = true :=
        List.isEmpty_iff.mpr hempty
      simp only [calls, hbound, hgrant, hnone, if_true]
      exact ((Run.nil s).snoc hfirst).snoc rfl
    · have hsome :
          ((llm.propose prompt handle.state).stamped handle).operations.isEmpty = false :=
        List.isEmpty_eq_false_iff.mpr hmaterial
      simp only [calls, hbound, hgrant, hsome, hwrite]
      refine (((Run.nil s).snoc hfirst).snoc ?_).snoc rfl
      simp only [step, hwrite]

end WorkingLLM

end Turn

/-! ## What may go on -/

section Continueable

variable [Foundation] {σ : Type} {s t : ServiceState σ} {g g' : ParticipantGraph}
  {llm llm' : WorkingLLM} {m m' : Materialization}

/-- The graph is connected to the model and its materialization, whose state may go on. -/
structure Continueable [CognitionStore σ] (g : ParticipantGraph) (s : ServiceState σ)
    (llm : WorkingLLM) (m : Materialization) : Prop where
  current : g.client.pCurrentLLM = some llm.address
  reached : g.llms llm.address = some llm
  target : g.client.pTargetDevice = some g.device.address
  bound : llm.pCognition = some m
  disclosed : g.client.binding.modelId = llm.name
  named : m.revision.isEmpty = false
  verified : CognitionStore.verify s.store m.revision = true
  principal : g.human.verifiedPrincipal ≠ []
  authority : g.human.verifiedPrincipal = m.state.governance.rootPrincipal
  operational : g.client.operational = true
  reachable : g.device.reachable = true
  unblocked : ∀ obligation ∈ m.state.obligations, obligation.status ≠ .blocked

theorem isContinueable_iff [CognitionStore σ] :
    g.isContinueable s = true ↔ ∃ llm m, Continueable g s llm m := by
  constructor
  · intro h
    unfold ParticipantGraph.isContinueable at h
    cases hcurrent : g.currentLLM with
    | none => simp [hcurrent, ServiceState.isContinueable] at h
    | some llm =>
        cases hbound : llm.pCognition with
        | none => simp [hcurrent, hbound, ServiceState.isContinueable] at h
        | some m =>
            simp only [hcurrent, hbound, Option.map_some, Option.bind_some,
              ServiceState.isContinueable] at h
            split_ifs at h with hedges hdisclosed hnamed hauthority hplane
            simp only [not_or, not_not, Bool.not_eq_true] at hedges hdisclosed hnamed hauthority
            simp only [not_or, not_not] at hplane
            rw [ParticipantGraph.currentLLM, hedges.1, Option.bind_some] at hcurrent
            exact ⟨llm, m, hedges.1, hcurrent, hedges.2.1, hbound, hdisclosed, hnamed.1,
              by simpa using hnamed.2, List.isEmpty_eq_false_iff.mp hauthority.1, hauthority.2,
              hplane.1, hplane.2, by simpa using h⟩
  · rintro ⟨llm, m, h⟩
    have hcurrent : g.currentLLM = some llm := by
      rw [ParticipantGraph.currentLLM, h.current, Option.bind_some, h.reached]
    simp only [ParticipantGraph.isContinueable, hcurrent, Option.map_some, Option.bind_some,
      h.bound, ServiceState.isContinueable, h.current, h.target, h.disclosed, h.named, h.verified,
      h.authority, h.operational, h.reachable, Materialization.isAt_some]
    have hprincipal := h.authority ▸ h.principal
    simpa [hprincipal] using h.unblocked

/-! ## States that may go on -/

/-- The chain's own principal rules, and nothing is blocked. -/
structure Workable (snapshot : Snapshot) : Prop where
  governance : snapshot.governance = makeGenesis.governance
  unblocked : ∀ obligation ∈ snapshot.obligations, obligation.status ≠ .blocked

omit [Foundation] in
theorem workable_restored {snapshot : Snapshot} (h : Workable snapshot) :
    Workable (restored snapshot) := by
  refine ⟨h.governance, fun obligation hmem => ?_⟩
  obtain ⟨earlier, hearlier, rfl⟩ := List.mem_map.mp hmem
  exact h.unblocked earlier hearlier

omit [Foundation] in
/-- The gate names `Open` and `Blocked` no transitions. -/
theorem transition_ne_blocked {current : Snapshot} {operation : Operation}
    (h : invariantGate current operation = .ok ())
    (hkind : operation.kind = .transitionObligation) :
    (Enumerated.ofByte operation.aux : Obligation.Status) ≠ .blocked := by
  simp only [invariantGate, hkind, transitionObligationGate, gate_bind_eq_ok, refuseIf_eq_ok,
    not_or, UInt8.not_lt] at h
  obtain ⟨⟨-, -, haux⟩, ⟨-, htwo⟩, -⟩ := h
  intro hblocked
  have hlt : operation.aux.toNat < (Enumerated.values : List Obligation.Status).length := by
    have hle : operation.aux.toNat ≤ 5 := haux
    exact Nat.lt_succ_of_le hle
  have hbyte := Enumerated.toByte_ofByte hlt
  rw [hblocked] at hbyte
  exact htwo (hbyte.symm.trans (by decide))

omit [Foundation] in
theorem workable_applyOperation {current next : Snapshot} {operation : Operation} {ref : Str}
    (hgate : invariantGate current operation = .ok ()) (h : Workable next) :
    Workable (applyOperation ref next operation) := by
  refine ⟨applyOperation_governed.1.trans h.governance, fun obligation hmem => ?_⟩
  rw [applyOperation_obligations] at hmem
  cases hkind : operation.kind with
  | upsertObligation =>
      simp only [hkind, List.mem_append, List.mem_singleton] at hmem
      rcases hmem with hmem | rfl
      · exact h.unblocked obligation hmem
      · simp [openedObligation]
  | closeObligation =>
      simp only [hkind, closeFirst] at hmem
      rcases mem_updateFirst hmem with hmem | ⟨_, -, -, rfl⟩
      · exact h.unblocked obligation hmem
      · simp
  | transitionObligation =>
      simp only [hkind] at hmem
      obtain ⟨earlier, hearlier, rfl⟩ := List.mem_map.mp hmem
      unfold transitionIn
      split
      · exact transition_ne_blocked hgate hkind
      · exact h.unblocked earlier hearlier
  | _ =>
      simp only [hkind] at hmem
      exact h.unblocked obligation hmem

variable [MemoryBacked σ] {trs past : List (ServiceTransition σ)} {cap : ℕ}

/-- The materialization can be restored from the store, and may go on. -/
structure Kept (s : ServiceState σ) (m : Materialization) : Prop where
  workable : Workable m.state
  stored : (m.revision, serializeSnapshot m.state) ∈ s.memory.revisions

theorem Kept.named (h : Kept s m) (hnamed : ∀ entry ∈ s.memory.revisions, entry.1 ≠ {}) :
    m.revision.isEmpty = false :=
  Bool.eq_false_iff.mpr fun hempty => hnamed _ h.stored (RevisionId.isEmpty_iff.mp hempty)

theorem verify_of_mem {revision : RevisionId} {bytes : Bytes}
    (h : (revision, bytes) ∈ s.memory.revisions) :
    CognitionStore.verify s.store revision = true := by
  rw [MemoryBacked.verify_eq, MemoryStore.verify, List.any_eq_true]
  exact ⟨_, h, decide_eq_true rfl⟩

theorem verify_mono (hpre : s.memory.revisions <+: t.memory.revisions) {revision : RevisionId}
    (h : CognitionStore.verify s.store revision = true) :
    CognitionStore.verify t.store revision = true := by
  rw [MemoryBacked.verify_eq, MemoryStore.verify, List.any_eq_true] at h
  obtain ⟨entry, hentry, hrevision⟩ := h
  obtain rfl := of_decide_eq_true hrevision
  exact verify_of_mem (hpre.subset hentry)

/-- The successors on record may go on. -/
def RecordsKept (s : ServiceState σ) : Prop :=
  ∀ key receipt m, s.receipts key = some receipt → receipt.outcome.successor = some m → Kept s m

/-- Authoritative entries may go on, and so do the successors on record. -/
structure Continuing (cap : ℕ) (s : ServiceState σ) : Prop where
  rooted : Rooted (Sized cap Workable) s
  recorded : RecordsKept s

theorem Rooted.kept (h : Rooted (Sized cap Workable) s) (hm : m ∈ s.live)
    (hpromoted : m.quarantine = .promoted) : Kept s m :=
  ⟨(h.live m hm hpromoted).own, h.faithful m hm hpromoted⟩

theorem Kept.mono (h : Kept s m) (hpre : s.memory.revisions <+: t.memory.revisions) :
    Kept t m :=
  ⟨h.workable, hpre.subset h.stored⟩

section Write

variable {handle : CognitionHandle} {transaction : ContextTransaction} {grant : ExecutionGrant}
  {verdict : Verdict} {answer : Answer}

/-- What a new request publishes is registered with authority. -/
theorem published_live (h : s.writeToCognition handle transaction grant = some (verdict, t))
    (hkey : s.resolveKey transaction = none) (hmaterial : transaction.operations ≠ [])
    (hsuccessor : verdict.successor = some m) : m ∈ t.live ∧ m.quarantine = .promoted := by
  rcases write_cases h with ⟨hreplay, -⟩ | ⟨-, reason, rfl, -⟩ | ⟨-, -, ⟨entry, hordinary⟩, -⟩ |
    ⟨-, entry, next, hadmission, hcommit⟩
  · rw [hkey] at hreplay
    simp at hreplay
  · simp [Verdict.refuse] at hsuccessor
  · exact (hmaterial (operations_of_admission_none hordinary)).elim
  · obtain ⟨governance, hadmitted⟩ := admission_eq_ok.mp hadmission
    rcases commit_cases hcommit with ⟨-, rfl, -⟩ | ⟨-, rfl, -⟩ | ⟨-, published, hm, rfl, rfl⟩
    · simp [Verdict.refuse] at hsuccessor
    · simp at hsuccessor
    · obtain rfl := Option.some.inj hsuccessor
      obtain ⟨hentry, hat⟩ := findLive_some hadmitted.live
      rw [record_live]
      exact ⟨mem_updateFirst_const hentry hat, by rw [hm]; exact hadmitted.promoted⟩

theorem material_of_submits {submission : Submission}
    (h : s.submits (.writeToCognition handle transaction grant) = some submission) :
    transaction.operations ≠ [] := by
  simp only [submits] at h
  split at h
  · next entry next _ hadmission =>
      obtain ⟨governance, hadmitted⟩ := admission_eq_ok.mp hadmission
      exact hadmitted.nonempty
  · simp at h

/-- An applied delta leaves a successor that may go on, whether it was published now or
is on record. -/
theorem successor_kept (hbefore : Continuing cap s) (hafter : Rooted (Sized cap Workable) t)
    (h : s.writeToCognition handle transaction grant = some (verdict, t))
    (hmaterial : transaction.operations ≠ []) (happlied : verdict.outcome = .applied)
    (hsuccessor : verdict.successor = some m) : Kept t m := by
  cases hkey : s.resolveKey transaction with
  | none =>
      obtain ⟨hlive, hpromoted⟩ := published_live h hkey hmaterial hsuccessor
      exact hafter.kept hlive hpromoted
  | some replayed =>
      simp only [writeToCognition, hkey] at h
      obtain ⟨rfl, rfl⟩ := Prod.mk.inj (Option.some.inj h)
      unfold resolveKey at hkey
      split at hkey
      · simp at hkey
      · obtain ⟨receipt, hreceipt, hverdict⟩ := Option.map_eq_some_iff.mp hkey
        split at hverdict
        · rw [← hverdict] at happlied
          simp [Verdict.refuse] at happlied
        · exact hbefore.recorded _ receipt m hreceipt (hverdict ▸ hsuccessor)

end Write

theorem recorded_step {tr : ServiceTransition σ} (hvalid : tr.Valid ServiceState.step)
    (hafter : Rooted (Sized cap Workable) tr.after)
    (h : RecordsKept tr.before) : RecordsKept tr.after := by
  intro key receipt m hreceipt hsuccessor
  have hpre := memory_prefix_step hvalid
  rcases receipts_step hvalid with hsame | ⟨handle, transaction, grant, verdict, submission,
    haction, hkeyed, hkey, hanswer, houtcome, hsubmits, -, hupdate⟩
  · exact (h key receipt m (hsame ▸ hreceipt) hsuccessor).mono hpre
  · by_cases hthis : key = transaction.idempotencyKey
    · subst hthis
      rw [hupdate, Function.update_self] at hreceipt
      obtain rfl := Option.some.inj hreceipt
      obtain ⟨s, call, answer, t⟩ := tr
      obtain rfl : call = .writeToCognition handle transaction grant := haction
      obtain rfl : answer = .verdict verdict := hanswer
      obtain ⟨_, hverdict, hwrite⟩ := step_writeToCognition hvalid
      obtain rfl := Answer.verdict.inj hverdict
      obtain ⟨hlive, hpromoted⟩ :=
        published_live hwrite hkey (material_of_submits hsubmits) hsuccessor
      exact hafter.kept hlive hpromoted
    · rw [hupdate, Function.update_of_ne hthis] at hreceipt
      exact (h key receipt m hreceipt hsuccessor).mono hpre

theorem continuing_of_run {store : σ} (hempty : (MemoryBacked.memory store).revisions = [])
    (hrun : ServiceRun (ServiceState.start store) trs t) (hsized : SizedRun 100000 trs) :
    Continuing 100000 t := by
  have hwrite : ∀ tr ∈ trs, ∀ actor transaction entry next,
      Commits tr (.write actor transaction entry next) → Workable entry.state → Workable next := by
    intro tr _ actor transaction entry next hcommits hworkable
    obtain ⟨hgates, rfl⟩ := hcommits.gates
    exact applyOperations_preserves hworkable fun operation hmem next hnext =>
      workable_applyOperation (hgates operation hmem) hnext
  obtain ⟨hrooted, hall, -⟩ := rooted_of_sizedRun (Q := Workable) (by norm_num) (by norm_num)
    hempty hrun hsized ⟨rfl, by simp [makeGenesis]⟩ (fun _ => workable_restored) hwrite
  refine ⟨hrooted, hrun.invariant (P := RecordsKept) (C := fun tr => tr ∈ trs) (fun _ => id) ?_ ?_⟩
  · intro key receipt m hreceipt
    simp [ServiceState.start] at hreceipt
  · exact fun tr hvalid hmem => recorded_step hvalid (hall tr hmem).2

/-! ## Turns and exchanges -/

/-- The successor that a turn is left with may go on. -/
theorem applied_kept {store : σ} {prompt : Str} {actor : AuthenticatedActor} {mode : WorkMode}
    {handle successor : Materialization} {grant : ExecutionGrant}
    {leased after : ServiceState σ} {verdict : Verdict}
    (hempty : (MemoryBacked.memory store).revisions = [])
    (hrun : ServiceRun (ServiceState.start store) past s)
    (hsized : SizedRun 100000 (past ++ llm.calls s prompt actor mode))
    (hbound : llm.pCognition = some handle)
    (hgrant : s.acquireGrant actor mode = (some grant, leased))
    (hmaterial : (llm.propose prompt handle.state).operations ≠ [])
    (hwrite : leased.writeToCognition (some handle)
      ((llm.propose prompt handle.state).stamped handle) grant = some (verdict, after))
    (happlied : verdict.outcome = .applied) (hsuccessor : verdict.successor = some successor) :
    Kept (after.releaseGrant grant) successor := by
  have hsome : ((llm.propose prompt handle.state).stamped handle).operations.isEmpty = false :=
    List.isEmpty_eq_false_iff.mpr hmaterial
  simp only [WorkingLLM.calls, hbound, hgrant, hsome, hwrite] at hsized
  have hleased := hrun.snoc (a := .acquireGrant actor mode) (b := .granted (some grant))
    (u := leased) (by simp only [step, hgrant])
  have hafter := hleased.snoc (a := .writeToCognition (some handle)
    ((llm.propose prompt handle.state).stamped handle) grant) (b := .verdict verdict)
    (u := after) (by simp only [step, hwrite])
  have hkept := successor_kept (continuing_of_run hempty hleased (hsized.subset (by simp)))
    (continuing_of_run hempty hafter (hsized.subset (by simp))).rooted hwrite hmaterial
    happlied hsuccessor
  refine hkept.mono ?_
  rw [ServiceState.memory, ServiceState.memory, releaseGrant_sameHead.store]

/-- A turn leaves its model where it was and what it was called, on its old handle or on
one that may go on. -/
theorem turn_binding {store : σ} {prompt result : Str} {actor : AuthenticatedActor}
    {mode : WorkMode} {elapsed : ℤ} (hempty : (MemoryBacked.memory store).revisions = [])
    (hrun : ServiceRun (ServiceState.start store) past s)
    (hsized : SizedRun 100000 (past ++ llm.calls s prompt actor mode))
    (hwork : llm.work s prompt actor mode elapsed = some (llm', result, t)) :
    llm'.address = llm.address ∧ llm'.name = llm.name ∧
      (llm'.pCognition = llm.pCognition ∨ ∃ m, llm'.pCognition = some m ∧ Kept t m) := by
  have hcontent (last : WorkingLLM) : (last.annotateBudget elapsed).address = last.address ∧
      (last.annotateBudget elapsed).name = last.name := by
    obtain ⟨_, h⟩ := last.annotateBudget_eq elapsed
    rw [h]
    exact ⟨rfl, rfl⟩
  rcases WorkingLLM.work_exits hwork with ⟨-, rfl, -⟩ | ⟨handle, hbound, ⟨-, rfl⟩ |
    ⟨grant, leased, hgrant, hrest⟩⟩
  · exact ⟨(hcontent _).1, (hcontent _).2, .inl (WorkingLLM.annotateBudget_pCognition _ _)⟩
  · exact ⟨(hcontent _).1, (hcontent _).2, .inl (WorkingLLM.annotateBudget_pCognition _ _)⟩
  · rcases hrest with ⟨-, rfl, -⟩ | ⟨hmaterial, verdict, after, hwrite, rfl,
      ⟨successor, happlied, hsuccessor, rfl⟩ | ⟨-, rfl⟩⟩
    · exact ⟨(hcontent _).1, (hcontent _).2, .inl (WorkingLLM.annotateBudget_pCognition _ _)⟩
    · refine ⟨(hcontent _).1, (hcontent _).2, .inr ⟨successor, ?_, ?_⟩⟩
      · rw [WorkingLLM.annotateBudget_pCognition]
        rfl
      · exact applied_kept hempty hrun hsized hbound hgrant hmaterial hwrite happlied hsuccessor
    · exact ⟨(hcontent _).1, (hcontent _).2, .inl (WorkingLLM.annotateBudget_pCognition _ _)⟩

/-- The device can be reached; the human speaks for the same principal. -/
def Rebind.Sound (g : ParticipantGraph) : Rebind → Prop
  | .model _ => True
  | .device other => other.reachable = true
  | .human other => other.verifiedPrincipal = g.human.verifiedPrincipal

/-- The human works, participants are exchanged, the chain is booted again, and other
clients call the service. -/
inductive Continuation (g : ParticipantGraph) (s : ServiceState σ) :
    ParticipantGraph → ServiceState σ → List (ServiceTransition σ) → Prop
  | nil : Continuation g s g s []
  | use {last next : ParticipantGraph} {before after : ServiceState σ}
      {trs : List (ServiceTransition σ)} {llm : WorkingLLM} {prompt : Str} {elapsed : ℤ}
      {delivered : Bool} (hpast : Continuation g s last before trs)
      (hcurrent : last.currentLLM = some llm)
      (huse : last.useLlmToWork before prompt elapsed = some (delivered, next, after)) :
      Continuation g s next after
        (trs ++ llm.calls before prompt (last.actor llm) .supervisedForeground)
  | rebind {last : ParticipantGraph} {before : ServiceState σ}
      {trs : List (ServiceTransition σ)} (hpast : Continuation g s last before trs)
      (rebind : Rebind) (hsound : rebind.Sound last) :
      Continuation g s (last.rebind rebind) before trs
  | restore {last : ParticipantGraph} {before after : ServiceState σ}
      {trs : List (ServiceTransition σ)} {source : CognitionSource} {m : Materialization}
      (hpast : Continuation g s last before trs) (hkind : source.kind = .canonicalRemote)
      (hcreate : before.step (.createCognition source) = some (.created (.handle m), after)) :
      Continuation g s (last.bindCognition m) after
        (trs ++ [⟨before, .createCognition source, .created (.handle m), after⟩])
  | others {last : ParticipantGraph} {before after : ServiceState σ}
      {trs calls : List (ServiceTransition σ)} (hpast : Continuation g s last before trs)
      (hcalls : ServiceRun before calls after) : Continuation g s last after (trs ++ calls)

theorem useLlmToWork_eq_some {prompt : Str} {elapsed : ℤ} {delivered : Bool}
    (hcurrent : g.currentLLM = some llm)
    (h : g.useLlmToWork s prompt elapsed = some (delivered, g', t)) :
    ∃ address llm' result, g.client.pCurrentLLM = some address ∧
      llm.work s prompt (g.actor llm) .supervisedForeground elapsed = some (llm', result, t) ∧
      g' = { g.put address llm' with lastFeedback := result } := by
  unfold ParticipantGraph.useLlmToWork at h
  cases haddress : g.client.pCurrentLLM with
  | none =>
      rw [haddress] at h
      simp at h
  | some address =>
      rw [haddress, hcurrent] at h
      dsimp only at h
      split at h
      · simp at h
      · next llm' result after hwork =>
          obtain ⟨-, rfl, rfl⟩ : true = delivered ∧ _ = g' ∧ after = t := by
            simpa only [Option.some.injEq, Prod.mk.injEq] using h
          exact ⟨address, llm', result, rfl, hwork, rfl⟩

theorem Continuation.run {trs : List (ServiceTransition σ)} (h : Continuation g s g' t trs) :
    ServiceRun s trs t := by
  induction h with
  | nil => exact .nil s
  | use _ hcurrent huse ih =>
      obtain ⟨_, llm', result, -, hwork, -⟩ := useLlmToWork_eq_some hcurrent huse
      exact ih.append (WorkingLLM.run_calls hwork)
  | rebind _ _ _ ih => exact ih
  | restore _ _ hcreate ih => exact ih.snoc hcreate
  | others _ hcalls ih => exact ih.append hcalls

/-- What the predicate asks of a handle and the store. -/
theorem Continueable.keeps (h : Continueable g s llm m)
    (hroot : g.human.verifiedPrincipal = makeGenesis.governance.rootPrincipal)
    (hpre : s.memory.revisions <+: t.memory.revisions)
    (hnamed : ∀ entry ∈ t.memory.revisions, entry.1 ≠ {})
    (hbound : llm'.pCognition = llm.pCognition ∨ ∃ m', llm'.pCognition = some m' ∧ Kept t m') :
    ∃ m', llm'.pCognition = some m' ∧ m'.revision.isEmpty = false ∧
      CognitionStore.verify t.store m'.revision = true ∧
      g.human.verifiedPrincipal = m'.state.governance.rootPrincipal ∧
      ∀ obligation ∈ m'.state.obligations, obligation.status ≠ .blocked := by
  rcases hbound with hsame | ⟨m', hbound, hkept⟩
  · exact ⟨m, hsame.trans h.bound, h.named, verify_mono hpre h.verified, h.authority,
      h.unblocked⟩
  · exact ⟨m', hbound, hkept.named hnamed, verify_of_mem hkept.stored,
      by rw [hroot, hkept.workable.governance], hkept.workable.unblocked⟩

theorem Continueable.put (h : Continueable g s llm m) (llm' : WorkingLLM)
    (hroot : g.human.verifiedPrincipal = makeGenesis.governance.rootPrincipal)
    (hpre : s.memory.revisions <+: t.memory.revisions)
    (hnamed : ∀ entry ∈ t.memory.revisions, entry.1 ≠ {}) (haddress : llm'.address = llm.address)
    (hname : llm'.name = llm.name)
    (hbound : llm'.pCognition = llm.pCognition ∨ ∃ m', llm'.pCognition = some m' ∧ Kept t m')
    (feedback : Str) :
    ∃ m', Continueable { g.put llm.address llm' with lastFeedback := feedback } t llm' m' := by
  obtain ⟨m', hhandle, hrevision, hverified, hauthority, hunblocked⟩ :=
    h.keeps hroot hpre hnamed hbound
  refine ⟨m', ?_, ?_, h.target, hhandle, ?_, hrevision, hverified, h.principal, hauthority,
    h.operational, h.reachable, hunblocked⟩
  · rw [haddress]
    exact h.current
  · rw [haddress]
    exact Function.update_self _ _ _
  · rw [hname]
    exact h.disclosed

theorem Continueable.mono (h : Continueable g s llm m)
    (hpre : s.memory.revisions <+: t.memory.revisions) : Continueable g t llm m :=
  { h with verified := verify_mono hpre h.verified }

theorem Continueable.currentLLM (h : Continueable g s llm m) :
    g.currentLLM = some llm := by
  rw [ParticipantGraph.currentLLM, h.current, Option.bind_some, h.reached]

theorem Continueable.rebind (h : Continueable g s llm m) (rebind : Rebind)
    (hsound : rebind.Sound g) : ∃ llm', Continueable (g.rebind rebind) s llm' m := by
  cases rebind with
  | model other =>
      have hhandle : (g.currentLLM.bind fun current => current.pCognition) = some m := by
        rw [h.currentLLM, Option.bind_some, h.bound]
      refine ⟨{ other with pCognition := some m }, rfl, ?_, h.target, rfl, rfl, h.named, h.verified,
        h.principal, h.authority, h.operational, h.reachable, h.unblocked⟩
      simp only [ParticipantGraph.rebind, ParticipantGraph.put, hhandle]
      exact Function.update_self _ _ _
  | device other =>
      exact ⟨llm, { h with target := rfl, reachable := hsound }⟩
  | human other =>
      have hsame : other.verifiedPrincipal = g.human.verifiedPrincipal := hsound
      exact ⟨llm, { h with
        principal := hsame ▸ h.principal, authority := hsame.trans h.authority }⟩

omit [Foundation] [MemoryBacked σ] in
theorem human_rebind (rebind : Rebind) (hsound : rebind.Sound g) :
    (g.rebind rebind).human.verifiedPrincipal = g.human.verifiedPrincipal := by
  cases rebind with
  | model _ | device _ => rfl
  | human _ => exact hsound

/-- A chain that is booted from the store comes registered with authority. -/
theorem booted_live {source : CognitionSource} (hkind : source.kind = .canonicalRemote)
    (hcreate : s.step (.createCognition source) = some (.created (.handle m), t)) :
    m ∈ t.live ∧ m.quarantine = .promoted := by
  obtain ⟨creation, hcreated, hcreate⟩ := step_createCognition hcreate
  obtain rfl := Answer.created.inj hcreated
  rcases createCognition_cases hcreate with ⟨-, -, hnone⟩ | ⟨hartifact, -⟩ |
    ⟨-, -, _, booted, _, -, -, -, hm, hhandle, rfl⟩ | ⟨-, booted, hm, hhandle, rfl⟩
  · exact (hnone m rfl).elim
  · rw [hkind] at hartifact
    simp at hartifact
  · obtain rfl := Creation.handle.inj hhandle
    exact ⟨by simp [register], by rw [hm]; rfl⟩
  · obtain rfl := Creation.handle.inj hhandle
    exact ⟨by simp [register], by rw [hm]; rfl⟩

/-- Whatever was done, the graph may go on. -/
theorem Continuation.continueable {store : σ} {trs : List (ServiceTransition σ)}
    (hempty : (MemoryBacked.memory store).revisions = [])
    (hrun : ServiceRun (ServiceState.start store) past s) (h : Continuation g s g' t trs)
    (hsized : SizedRun 100000 (past ++ trs))
    (hroot : g.human.verifiedPrincipal = makeGenesis.governance.rootPrincipal)
    (hstart : ∃ llm m, Continueable g s llm m) :
    g'.human.verifiedPrincipal = makeGenesis.governance.rootPrincipal ∧
      ∃ llm m, Continueable g' t llm m := by
  induction h with
  | nil => exact ⟨hroot, hstart⟩
  | @use last next before after trs llm prompt elapsed delivered hpast hcurrent huse ih =>
      obtain ⟨hroot', llm₀, m, hbefore⟩ := ih (hsized.subset (by simp [← List.append_assoc]))
      obtain rfl := Option.some.inj (hcurrent.symm.trans hbefore.currentLLM)
      obtain ⟨address, llm', result, haddress, hwork, rfl⟩ :=
        useLlmToWork_eq_some hcurrent huse
      obtain rfl := Option.some.inj (haddress.symm.trans hbefore.current)
      have hbefore' := hrun.append hpast.run
      have hturn := WorkingLLM.run_calls hwork
      rw [← List.append_assoc] at hsized
      obtain ⟨hsame, hname, hbound⟩ := turn_binding hempty hbefore' hsized hwork
      obtain ⟨m', hafter⟩ := hbefore.put _ hroot' (memory_prefix_of_run hturn)
        (named_of_run hempty (hbefore'.append hturn)) hsame hname hbound result
      exact ⟨hroot', llm', m', hafter⟩
  | rebind _ rebind hsound ih =>
      obtain ⟨hroot', llm, m, hbefore⟩ := ih hsized
      obtain ⟨llm', hafter⟩ := hbefore.rebind rebind hsound
      exact ⟨(human_rebind rebind hsound).trans hroot', llm', m, hafter⟩
  | @restore last before after trs source m hpast hkind hcreate ih =>
      obtain ⟨hroot', llm, m₀, hbefore⟩ := ih (hsized.subset (by simp [← List.append_assoc]))
      have hrun' := (hrun.append hpast.run).snoc hcreate
      obtain ⟨hlive, hpromoted⟩ := booted_live hkind hcreate
      have hkept := (continuing_of_run hempty hrun' (by simpa using hsized)).rooted.kept hlive
        hpromoted
      have hbind : last.bindCognition m = { last.put llm.address
          { llm with pCognition := some m } with lastFeedback := last.lastFeedback } := by
        simp only [ParticipantGraph.bindCognition, hbefore.current, hbefore.currentLLM]
        rfl
      obtain ⟨m', hafter⟩ := hbefore.put { llm with pCognition := some m } hroot'
        (memory_prefix_step hcreate) (named_of_run hempty hrun') rfl rfl (.inr ⟨m, rfl, hkept⟩)
        last.lastFeedback
      rw [hbind]
      exact ⟨hroot', _, m', hafter⟩
  | others hpast hcalls ih =>
      obtain ⟨hroot', llm, m, hbefore⟩ := ih (hsized.subset (by simp [← List.append_assoc]))
      exact ⟨hroot', llm, m, hbefore.mono (memory_prefix_of_run hcalls)⟩

/-- The chain has a canonical head where one of its revisions verifies, and it names the
principal of genesis. -/
theorem exists_canonicalHead {store : σ} {revision : RevisionId}
    (hempty : (MemoryBacked.memory store).revisions = [])
    (hrun : ServiceRun (ServiceState.start store) trs t) (hsized : SizedRun 100000 trs)
    (hverified : CognitionStore.verify t.store revision = true) :
    ∃ governance, t.canonicalHead = some governance ∧
      governance.governance = makeGenesis.governance := by
  have hruled : Ruled t := hrun.invariant (C := fun _ => True) (fun _ _ => trivial)
    (ruled_start hempty) fun _ hvalid _ hbefore => hbefore.step hvalid
  have hhead : CognitionStore.head t.store ≠ {} := by
    rw [head_memory]
    intro hnone
    have hnil := MemoryStore.revisions_eq_nil (named_of_run hempty hrun) hnone
    rw [MemoryBacked.verify_eq, MemoryStore.verify] at hverified
    rw [ServiceState.memory] at hnil
    simp [hnil] at hverified
  obtain ⟨hreadable, -, -⟩ := restorable_of_sizedRun hempty hrun hsized hhead
  obtain ⟨governance, hcanonical⟩ := exists_canonicalHead_of hhead hreadable
  exact ⟨governance, hcanonical, hruled.canonicalHead hcanonical⟩

/-- From a graph that may go on every session ends in one that may: turns, exchanged
participants, new boots and other clients do not matter. Where the lease is then free
and the port is the default one, the human of the graph gets it. -/
theorem continuation_kept {store : σ} {trs : List (ServiceTransition σ)}
    (hempty : (MemoryBacked.memory store).revisions = [])
    (hrun : ServiceRun (ServiceState.start store) past s) (h : Continuation g s g' t trs)
    (hsized : SizedRun 100000 (past ++ trs))
    (hroot : g.human.verifiedPrincipal = makeGenesis.governance.rootPrincipal)
    (hstart : g.isContinueable s = true) :
    g'.isContinueable t = true ∧ (t.activeGrantId.isEmpty = true → DefaultPort t →
      ∀ llm, g'.currentLLM = some llm → llm.name ≠ [] → ∃ grant leased,
        t.acquireGrant (g'.actor llm) .supervisedForeground = (some grant, leased)) := by
  obtain ⟨hroot', llm, m, hend⟩ :=
    h.continueable hempty hrun hsized hroot (isContinueable_iff.mp hstart)
  refine ⟨isContinueable_iff.mpr ⟨llm, m, hend⟩, fun hfree hport other hcurrent hnamed => ?_⟩
  obtain rfl := Option.some.inj (hend.currentLLM.symm.trans hcurrent)
  obtain ⟨governance, hhead, hgoverned⟩ :=
    exists_canonicalHead hempty (hrun.append h.run) hsized hend.verified
  have hprincipal := hend.principal
  have hverified : t.withIdentity.verifies (g'.actor llm) = true := by
    have hhead' : t.withIdentity.canonicalHead = some governance := hhead
    unfold ServiceState.verifies
    rw [hhead', hport.withIdentity]
    have hrootNamed : makeGenesis.governance.rootPrincipal ≠ [] := hroot' ▸ hprincipal
    simp [rootPrincipalVerifier, ParticipantGraph.actor, hend.disclosed, hgoverned, hroot', hnamed,
      hrootNamed]
  exact acquireGrant_free _ hfree hverified

end Continueable

section Built

variable [Foundation]

/-- The graph of the root principal, with one model that has the chain. -/
def rootGraph (m : Materialization) : ParticipantGraph where
  human := { verifiedPrincipal := makeGenesis.governance.rootPrincipal }
  client := { pCurrentLLM := some 0, pTargetDevice := some 0, binding := { modelId := lit "m" } }
  device := { address := 0 }
  llms _ := some { address := 0, name := lit "m", pCognition := some m }

/-- Its model and its device are exchanged. -/
def exchangedGraph (m : Materialization) : ParticipantGraph :=
  ((rootGraph m).rebind (.model { address := 1, name := lit "n" })).rebind
    (.device { address := 1 })

/-- Another client writes in between. -/
theorem exists_continuation :
    ∃ past m s t trs, ServiceRun (ServiceState.start ({} : MemoryStore)) past s ∧
      Continuation (rootGraph m) s (exchangedGraph m) t trs ∧ SizedRun 100000 (past ++ trs) ∧
      (rootGraph m).isContinueable s = true ∧ t.activeGrantId.isEmpty = true ∧ DefaultPort t ∧
      t.store ≠ s.store := by
  obtain ⟨booted, leased, m, hfirst, hsecond, honHead, hlive, hstate, hrevision, hrevisions,
    hstore, hreceipts⟩ := exists_boot
  obtain ⟨t, m', hwrote, hstate'⟩ :=
    honHead.writeEvidence (hstate ▸ genesis_quiet) (keyedEvidence m.revision)
      (resolveKey_fresh (hreceipts _)) rfl (by simp [keyedEvidence])
      (keyedEvidence_evidenceOnly _)
  have hpast := (Run.nil (ServiceState.start ({} : MemoryStore))).snoc hfirst
  have hleased := (Run.nil booted).snoc hsecond
  have hwritten := hwrote.run hleased
  have hcalls := hwritten.snoc (a := .releaseGrant firstGrant) (b := .done) rfl
  have hnone : NoWrites ([] ++ [(⟨ServiceState.start ({} : MemoryStore), .createCognition {},
      .created (.handle m), booted⟩ : ServiceTransition MemoryStore)] ++
      [⟨booted, .acquireGrant rootActor .supervisedForeground, .granted (some firstGrant),
        leased⟩]) := by
    simp [NoWrites]
  have hroom : Room 100000 m.state (keyedEvidence m.revision).operations :=
    hstate ▸ (keyedEvidence_evidenceOnly m.revision).room (by simp [keyedEvidence])
  have hsized := hwrote.sizedRun hnone (keyedEvidence_short m.revision) hroom
  have hnew : leased.store.headBytes ≠ some (serializeSnapshot m'.state) := by
    have hbytes : leased.store.headBytes = some (serializeSnapshot makeGenesis) := by
      simp [MemoryStore.headBytes, hstore, hrevisions]
    rw [hbytes, hstate', hstate]
    exact fun hsame => keyedEvidence_new m.revision (Option.some.inj hsame).symm
  have hroot : makeGenesis.governance.rootPrincipal ≠ [] := by decide
  have hverified : CognitionStore.verify booted.store m.revision = true :=
    verify_of_mem (s := booted) (hrevisions ▸ List.mem_singleton.mpr rfl)
  have hrun := hpast.append hcalls
  have hsteady : Steady t := by
    refine steady_of_run rfl (hwrote.run (hpast.append hleased)) fun tr htr => ?_
    simp only [OnHead.written, List.nil_append, List.cons_append, List.mem_cons,
      List.not_mem_nil, or_false] at htr
    rcases htr with rfl | rfl | rfl <;> simp [KeepsPort]
  have hkeeps : KeepsPort (.releaseGrant firstGrant) := by simp [KeepsPort]
  refine ⟨_, m, booted, _, _, hpast, .rebind (.rebind (.others .nil hcalls) (.model _) trivial)
    (.device _) rfl, ?_, isContinueable_iff.mpr ⟨_, m, rfl, rfl, rfl, rfl, rfl, ?_, hverified,
      hroot, ?_, rfl, rfl, ?_⟩, releaseGrant_free hwrote.onHead.lease,
      hsteady.port.step rfl hkeeps,
      fun hsame => ?_⟩
  · exact hsized.snoc_release firstGrant
  · rw [hrevision]
    exact Bool.eq_false_iff.mpr (mt RevisionId.isEmpty_iff.mp (revisionOf_ne_empty _ _))
  · rw [hstate]
    rfl
  · simp [hstate, makeGenesis]
  · have hlength := congrArg List.length (hwrote.revisions honHead hnew).1
    rw [releaseGrant_sameHead.store.symm.trans hsame, hstore] at hlength
    simp at hlength

end Built

open scoped QivenContext.Reference in
theorem exchanged_continueable :
    ∃ (m : Materialization) (g' : ParticipantGraph) (s t : ServiceState MemoryStore)
      (trs : List (ServiceTransition MemoryStore)) (llm : WorkingLLM) (grant : ExecutionGrant)
      (leased : ServiceState MemoryStore),
      Continuation (rootGraph m) s g' t trs ∧ t.store ≠ s.store ∧
      g'.isContinueable t = true ∧ llm.name = lit "n" ∧
      t.acquireGrant (g'.actor llm) .supervisedForeground = (some grant, leased) := by
  obtain ⟨past, m, s, t, trs, hrun, hsession, hsized, hstart, hfree, hport, hhead⟩ :=
    exists_continuation
  obtain ⟨hcontinueable, hgrant⟩ := continuation_kept rfl hrun hsession hsized rfl hstart
  have hcurrent : (exchangedGraph m).currentLLM =
      some { address := 1, name := lit "n", pCognition := some m } := rfl
  obtain ⟨grant, leased, hacquire⟩ := hgrant hfree hport _ hcurrent (List.cons_ne_nil _ _)
  exact ⟨m, _, s, t, trs, _, grant, leased, hsession, hhead, hcontinueable, rfl, hacquire⟩

end QivenContext
