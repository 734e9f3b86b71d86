import QivenContext.Readers
import QivenContext.Work

/-!
# Turns that contend

A turn is a few calls of the service with the thinking between them, and the
mutex is free while a model thinks: other turns and other clients get in
between. Only a grant can be presented that was handed out. So of all turns one
at most is past its lease, and until it gives the lease back it writes as if
nobody else were there.
-/

namespace QivenContext

open Library ServiceState

/-! ## Turns in steps -/

/-- Where a turn stands between its calls. The delta is what the generator
makes of the prompt and the pinned snapshot. -/
inductive Phase where
  | idle
  | leased (handle : Materialization) (grant : ExecutionGrant) (transaction : ContextTransaction)
  | written (handle : Materialization) (grant : ExecutionGrant) (transaction : ContextTransaction)
      (verdict : Verdict)

/-- The lease that a turn has to give back. -/
def Phase.grant : Phase → Option ExecutionGrant
  | .idle => none
  | .leased _ grant _ => some grant
  | .written _ grant _ _ => some grant

structure Session where
  llm : WorkingLLM
  phase : Phase := .idle
  result : Str := []

/-- The service, the sessions that work on it, and the grants that other
clients were given; a grant is not copied and not made up. -/
structure CognitionLoop (ι σ : Type) where
  service : ServiceState σ
  sessions : ι → Session
  held : List ExecutionGrant := []

/-- One step of a session, or a call by another client. -/
inductive Move (ι : Type) where
  | start (i : ι) (prompt : Str) (actor : AuthenticatedActor) (mode : WorkMode) (elapsed : ℤ)
  | write (i : ι)
  | finish (i : ι) (elapsed : ℤ)
  | rebind (i : ι) (llm : WorkingLLM)
  | call (call : Call)

/-- Whose step it is. -/
def Move.session? {ι : Type} : Move ι → Option ι
  | .start i _ _ _ _ => some i
  | .write i => some i
  | .finish i _ => some i
  | .rebind i _ => some i
  | .call _ => none

/-- The grant that a call presents. -/
def Call.presents : Call → Option ExecutionGrant
  | .releaseGrant grant => some grant
  | .writeToCognition _ _ grant => some grant
  | _ => none

/-- The grant that an answer hands out. -/
def Answer.grant : Answer → Option ExecutionGrant
  | .granted grant => grant
  | _ => none

namespace CognitionLoop

variable {ι σ : Type} [DecidableEq ι] {l l' : CognitionLoop ι σ} {i j : ι}

/-- The service and one session move. -/
def turn (l : CognitionLoop ι σ) (i : ι) (service : ServiceState σ) (session : Session) :
    CognitionLoop ι σ :=
  { l with service := service, sessions := Function.update l.sessions i session }

@[simp] theorem turn_sessions_self (service : ServiceState σ) (session : Session) :
    (l.turn i service session).sessions i = session := by
  simp only [turn, Function.update_self]

@[simp] theorem turn_sessions_ne (hne : j ≠ i) (service : ServiceState σ) (session : Session) :
    (l.turn i service session).sessions j = l.sessions j := by
  simp only [turn, Function.update_of_ne hne]

variable [Foundation] [CognitionStore σ]

/-- One step, and the service call it made. A step that the session is not at
does not happen, nor does one that crashes. -/
def step (l : CognitionLoop ι σ) : Move ι → Option (Option (Call × Answer) × CognitionLoop ι σ)
  | .start i prompt actor mode elapsed =>
      let llm := (l.sessions i).llm
      match (l.sessions i).phase, llm.pCognition with
      | .idle, none =>
          some (none, l.turn i l.service
            { llm := llm.annotateBudget elapsed, result := llm.name ++ lit ": no cognition bound" })
      | .idle, some handle =>
          match l.service.acquireGrant actor mode with
          | (none, s) =>
              some (some (.acquireGrant actor mode, .granted none), l.turn i s
                { llm := llm.refuseGrant.annotateBudget elapsed
                  result := llm.name ++ lit ": grant refused" })
          | (some grant, s) =>
              some (some (.acquireGrant actor mode, .granted (some grant)), l.turn i s
                { llm := llm.disclose actor
                  phase := .leased handle grant (llm.propose prompt handle.state) })
      | _, _ => none
  | .write i =>
      match (l.sessions i).phase with
      | .leased handle grant transaction =>
          if transaction.operations.isEmpty then none
          else
            let transaction := transaction.stamped handle
            match l.service.writeToCognition (some handle) transaction grant with
            | none => none
            | some (verdict, s) =>
                some (some (.writeToCognition (some handle) transaction grant, .verdict verdict),
                  l.turn i s { l.sessions i with
                    phase := .written handle grant transaction verdict })
      | _ => none
  | .finish i elapsed =>
      let llm := (l.sessions i).llm
      match (l.sessions i).phase with
      | .idle => none
      | .leased _ grant transaction =>
          if transaction.operations.isEmpty then
            some (some (.releaseGrant grant, .done), l.turn i (l.service.releaseGrant grant)
              { llm := llm.continued.annotateBudget elapsed
                result := llm.name ++ lit ": no material cognition this turn" })
          else none
      | .written handle grant transaction verdict =>
          match llm.conclude handle.state transaction verdict with
          | none => none
          | some (llm, result) =>
              some (some (.releaseGrant grant, .done), l.turn i (l.service.releaseGrant grant)
                { llm := llm.annotateBudget elapsed, result := result })
  | .rebind i llm =>
      match (l.sessions i).phase with
      | .idle => some (none, l.turn i l.service { l.sessions i with llm := llm })
      | _ => none
  | .call call =>
      if ∀ grant, call.presents = some grant → grant ∈ l.held then
        match l.service.step call with
        | none => none
        | some (answer, s) =>
            some (some (call, answer),
              { l with service := s, held := l.held ++ answer.grant.toList })
      else none

/-- Idle sessions on a service before its first call. -/
def start (store : σ) (llms : ι → WorkingLLM) : CognitionLoop ι σ where
  service := ServiceState.start store
  sessions i := { llm := llms i }

/-! ## What a step can do -/

/-- A step ends a turn before its lease, takes the lease, writes, gives the lease
back, changes an idle session, or is the call of another client. -/
inductive Stepped (l : CognitionLoop ι σ) :
    Move ι → Option (Call × Answer) → CognitionLoop ι σ → Prop
  | unbound {i : ι} {prompt : Str} {actor : AuthenticatedActor} {mode : WorkMode} {elapsed : ℤ}
      (session : Session) (hidle : (l.sessions i).phase = .idle)
      (hbound : (l.sessions i).llm.pCognition = none) (hsession : session =
        { llm := (l.sessions i).llm.annotateBudget elapsed
          result := (l.sessions i).llm.name ++ lit ": no cognition bound" }) :
      Stepped l (.start i prompt actor mode elapsed) none (l.turn i l.service session)
  | refused {i : ι} {prompt : Str} {actor : AuthenticatedActor} {mode : WorkMode} {elapsed : ℤ}
      {handle : Materialization} {s : ServiceState σ} (session : Session)
      (hidle : (l.sessions i).phase = .idle)
      (hbound : (l.sessions i).llm.pCognition = some handle)
      (hgrant : l.service.acquireGrant actor mode = (none, s)) (hsession : session =
        { llm := (l.sessions i).llm.refuseGrant.annotateBudget elapsed
          result := (l.sessions i).llm.name ++ lit ": grant refused" }) :
      Stepped l (.start i prompt actor mode elapsed)
        (some (.acquireGrant actor mode, .granted none)) (l.turn i s session)
  | leased {i : ι} {prompt : Str} {actor : AuthenticatedActor} {mode : WorkMode} {elapsed : ℤ}
      {handle : Materialization} {grant : ExecutionGrant} {s : ServiceState σ} (session : Session)
      (hidle : (l.sessions i).phase = .idle)
      (hbound : (l.sessions i).llm.pCognition = some handle)
      (hgrant : l.service.acquireGrant actor mode = (some grant, s)) (hsession : session =
        { llm := (l.sessions i).llm.disclose actor
          phase := .leased handle grant ((l.sessions i).llm.propose prompt handle.state) }) :
      Stepped l (.start i prompt actor mode elapsed)
        (some (.acquireGrant actor mode, .granted (some grant))) (l.turn i s session)
  | written {i : ι} {handle : Materialization} {grant : ExecutionGrant}
      {transaction : ContextTransaction} {verdict : Verdict} {s : ServiceState σ}
      (session : Session) (hleased : (l.sessions i).phase = .leased handle grant transaction)
      (hmaterial : transaction.operations ≠ [])
      (hwrite : l.service.writeToCognition (some handle) (transaction.stamped handle) grant =
        some (verdict, s))
      (hsession : session = { l.sessions i with
        phase := .written handle grant (transaction.stamped handle) verdict }) :
      Stepped l (.write i)
        (some (.writeToCognition (some handle) (transaction.stamped handle) grant,
          .verdict verdict)) (l.turn i s session)
  | returned {i : ι} {elapsed : ℤ} {handle : Materialization} {grant : ExecutionGrant}
      {transaction : ContextTransaction} (session : Session)
      (hleased : (l.sessions i).phase = .leased handle grant transaction)
      (hempty : transaction.operations = []) (hsession : session =
        { llm := (l.sessions i).llm.continued.annotateBudget elapsed
          result := (l.sessions i).llm.name ++ lit ": no material cognition this turn" }) :
      Stepped l (.finish i elapsed) (some (.releaseGrant grant, .done))
        (l.turn i (l.service.releaseGrant grant) session)
  | concluded {i : ι} {elapsed : ℤ} {handle : Materialization} {grant : ExecutionGrant}
      {transaction : ContextTransaction} {verdict : Verdict} {llm : WorkingLLM} {result : Str}
      (session : Session)
      (hwritten : (l.sessions i).phase = .written handle grant transaction verdict)
      (hconclude : (l.sessions i).llm.conclude handle.state transaction verdict =
        some (llm, result))
      (hsession : session = { llm := llm.annotateBudget elapsed, result := result }) :
      Stepped l (.finish i elapsed) (some (.releaseGrant grant, .done))
        (l.turn i (l.service.releaseGrant grant) session)
  | rebound {i : ι} {llm : WorkingLLM} (session : Session)
      (hidle : (l.sessions i).phase = .idle)
      (hsession : session = { l.sessions i with llm := llm }) :
      Stepped l (.rebind i llm) none (l.turn i l.service session)
  | called {call : Call} {answer : Answer} {s : ServiceState σ}
      (hpresents : ∀ grant, call.presents = some grant → grant ∈ l.held)
      (hstep : l.service.step call = some (answer, s)) :
      Stepped l (.call call) (some (call, answer))
        { l with service := s, held := l.held ++ answer.grant.toList }

theorem stepped {move : Move ι} {done : Option (Call × Answer)}
    (h : l.step move = some (done, l')) : Stepped l move done l' := by
  cases move with
  | start i prompt actor mode elapsed =>
      simp only [step] at h
      split at h
      · next hidle hbound =>
          obtain ⟨rfl, rfl⟩ := Prod.mk.inj (Option.some.inj h)
          exact .unbound _ hidle hbound rfl
      · next handle hidle hbound =>
          split at h
          · next s hgrant =>
              obtain ⟨rfl, rfl⟩ := Prod.mk.inj (Option.some.inj h)
              exact .refused _ hidle hbound hgrant rfl
          · next grant s hgrant =>
              obtain ⟨rfl, rfl⟩ := Prod.mk.inj (Option.some.inj h)
              exact .leased _ hidle hbound hgrant rfl
      · simp at h
  | write i =>
      simp only [step] at h
      split at h
      · next handle grant transaction hleased =>
          split at h
          · simp at h
          · next hmaterial =>
              split at h
              · simp at h
              · next verdict s hwrite =>
                  obtain ⟨rfl, rfl⟩ := Prod.mk.inj (Option.some.inj h)
                  exact .written _ hleased (mt List.isEmpty_iff.mpr hmaterial) hwrite rfl
      · simp at h
  | finish i elapsed =>
      simp only [step] at h
      split at h
      · simp at h
      · next handle grant transaction hleased =>
          split at h
          · next hempty =>
              obtain ⟨rfl, rfl⟩ := Prod.mk.inj (Option.some.inj h)
              exact .returned _ hleased (List.isEmpty_iff.mp hempty) rfl
          · simp at h
      · next handle grant transaction verdict hwritten =>
          split at h
          · simp at h
          · next llm result hconclude =>
              obtain ⟨rfl, rfl⟩ := Prod.mk.inj (Option.some.inj h)
              exact .concluded _ hwritten hconclude rfl
  | rebind i llm =>
      simp only [step] at h
      split at h
      · next hidle =>
          obtain ⟨rfl, rfl⟩ := Prod.mk.inj (Option.some.inj h)
          exact .rebound _ hidle rfl
      · simp at h
  | call call =>
      simp only [step] at h
      split at h
      · next hpresents =>
          split at h
          · simp at h
          · next answer s hstep =>
              obtain ⟨rfl, rfl⟩ := Prod.mk.inj (Option.some.inj h)
              exact .called hpresents hstep
      · simp at h

/-- A step of others leaves a session as it was. -/
theorem session_kept {move : Move ι} {done : Option (Call × Answer)}
    (h : l.step move = some (done, l')) (hother : move.session? ≠ some i) :
    l'.sessions i = l.sessions i := by
  have hkept {j : ι} (hsession : move.session? = some j) (service : ServiceState σ)
      (session : Session) : (l.turn j service session).sessions i = l.sessions i := by
    refine turn_sessions_ne ?_ service session
    rintro rfl
    exact hother hsession
  cases stepped h with
  | unbound _ _ _ _ | refused _ _ _ _ _ | leased _ _ _ _ _ | written _ _ _ _ _
  | returned _ _ _ _ | concluded _ _ _ _ | rebound _ _ _ => exact hkept rfl _ _
  | called _ _ => rfl

end CognitionLoop

abbrev LoopTransition (ι σ : Type) :=
  Transition (CognitionLoop ι σ) (Move ι) (Option (Call × Answer))

section Runs

variable [Foundation] {ι σ : Type} [DecidableEq ι]

abbrev LoopRun [CognitionStore σ] (l : CognitionLoop ι σ) (trs : List (LoopTransition ι σ))
    (l' : CognitionLoop ι σ) : Prop :=
  Run CognitionLoop.step l trs l'

/-- What the service saw of a step. -/
def serviceTransition (tr : LoopTransition ι σ) : Option (ServiceTransition σ) :=
  tr.answer.map fun done => ⟨tr.before.service, done.1, done.2, tr.after.service⟩

/-- What the service saw of a run. -/
def serviceTransitions (trs : List (LoopTransition ι σ)) : List (ServiceTransition σ) :=
  trs.filterMap serviceTransition

omit [Foundation] [DecidableEq ι] in
theorem serviceTransitions_append (trs trs' : List (LoopTransition ι σ)) :
    serviceTransitions (trs ++ trs') = serviceTransitions trs ++ serviceTransitions trs' :=
  List.filterMap_append

variable [CognitionStore σ] {l l' : CognitionLoop ι σ} {trs past : List (LoopTransition ι σ)}
  {tr : LoopTransition ι σ} {i j : ι}

/-- Every step is one call of the service, or none. -/
theorem loop_step (hvalid : tr.Valid CognitionLoop.step) :
    (tr.answer = none ∧ tr.after.service = tr.before.service) ∨
    ∃ call answer, tr.answer = some (call, answer) ∧
      tr.before.service.step call = some (answer, tr.after.service) := by
  obtain ⟨l, move, done, l'⟩ := tr
  have h : l.step move = some (done, l') := hvalid
  cases CognitionLoop.stepped h with
  | unbound _ _ _ _ | rebound _ _ _ => exact .inl ⟨rfl, rfl⟩
  | refused _ _ _ hgrant _ | leased _ _ _ hgrant _ =>
      exact .inr ⟨_, _, rfl, by simp only [ServiceState.step, hgrant, CognitionLoop.turn]⟩
  | written _ _ _ hwrite _ =>
      exact .inr ⟨_, _, rfl, by simp only [ServiceState.step, hwrite, CognitionLoop.turn]⟩
  | returned _ _ _ _ | concluded _ _ _ _ => exact .inr ⟨_, _, rfl, rfl⟩
  | called _ hstep => exact .inr ⟨_, _, rfl, hstep⟩

/-- Sessions and clients together run the service. -/
theorem service_run (hrun : LoopRun l trs l') :
    ServiceRun l.service (serviceTransitions trs) l'.service := by
  refine hrun.project CognitionLoop.service serviceTransition fun tr hvalid => ?_
  rcases loop_step hvalid with ⟨hnone, hsame⟩ | ⟨call, answer, hsome, hstep⟩
  · exact .inl ⟨by rw [serviceTransition, hnone]; rfl, hsame⟩
  · exact .inr ⟨⟨tr.before.service, call, answer, tr.after.service⟩,
      by rw [serviceTransition, hsome]; rfl, hstep, rfl, rfl⟩

/-! ## The lease over turns -/

/-- Whoever is past its lease holds the active one; nobody else does, and no other
client was given its grant. -/
structure Exclusive (past : List (LoopTransition ι σ)) (l : CognitionLoop ι σ) : Prop where
  holder : ∀ i grant, (l.sessions i).phase.grant = some grant →
    l.service.activeGrantId = grant.id ∧ grant.id.isEmpty = false
  alone : ∀ i j grant other, (l.sessions i).phase.grant = some grant →
    (l.sessions j).phase.grant = some other → i = j
  foreign : ∀ i grant other, (l.sessions i).phase.grant = some grant → other ∈ l.held →
    other.id ≠ grant.id
  minted : ∀ other ∈ l.held, other.id ∈ mintedIds (serviceTransitions past)

omit [Foundation] [DecidableEq ι] [CognitionStore σ] in
theorem mem_mintedIds_snoc {id : GrantId} (h : id ∈ mintedIds (serviceTransitions past)) :
    id ∈ mintedIds (serviceTransitions (past ++ [tr])) := by
  rw [serviceTransitions_append, mintedIds_append]
  exact List.mem_append_left _ h

omit [Foundation] [CognitionStore σ] in
theorem mintedId_eq (tr : ServiceTransition σ) :
    mintedId tr = tr.answer.grant.map ExecutionGrant.id := by
  unfold mintedId Answer.grant
  cases tr.answer with
  | granted grant => cases grant <;> rfl
  | _ => rfl

namespace Exclusive

omit [Foundation] [DecidableEq ι] [CognitionStore σ] in
theorem vacant (hnone : ∀ i, (l.sessions i).phase.grant = none)
    (hminted : ∀ other ∈ l.held, other.id ∈ mintedIds (serviceTransitions past)) :
    Exclusive past l where
  holder i grant hgrant := by simp [hnone] at hgrant
  alone i j grant other hgrant := by simp [hnone] at hgrant
  foreign i grant other hgrant := by simp [hnone] at hgrant
  minted := hminted

omit [Foundation] [DecidableEq ι] [CognitionStore σ] in
theorem none_of_free (h : Exclusive past l) (hfree : l.service.activeGrantId.isEmpty = true)
    (i : ι) : (l.sessions i).phase.grant = none := by
  cases hgrant : (l.sessions i).phase.grant with
  | none => rfl
  | some grant =>
      obtain ⟨hactive, hne⟩ := h.holder i grant hgrant
      simp [← hactive, hfree] at hne

omit [Foundation] [DecidableEq ι] [CognitionStore σ] in
theorem none_of_ne (h : Exclusive past l) {grant : ExecutionGrant}
    (hgrant : (l.sessions i).phase.grant = some grant) (hne : j ≠ i) :
    (l.sessions j).phase.grant = none := by
  cases hother : (l.sessions j).phase.grant with
  | none => rfl
  | some other => exact (hne (h.alone j i other grant hother hgrant)).elim

omit [Foundation] [DecidableEq ι] [CognitionStore σ] in
/-- A step that leaves the lease and what everyone holds. -/
theorem keep (h : Exclusive past l)
    (hactive : l'.service.activeGrantId = l.service.activeGrantId)
    (hgrants : ∀ i, (l'.sessions i).phase.grant = (l.sessions i).phase.grant)
    (hheld : l'.held = l.held) : Exclusive (past ++ [tr]) l' where
  holder i grant hgrant := by
    rw [hactive]
    exact h.holder i grant (hgrants i ▸ hgrant)
  alone i j grant other hgrant hother :=
    h.alone i j grant other (hgrants i ▸ hgrant) (hgrants j ▸ hother)
  foreign i grant other hgrant hmem :=
    h.foreign i grant other (hgrants i ▸ hgrant) (hheld ▸ hmem)
  minted other hmem := mem_mintedIds_snoc (h.minted other (hheld ▸ hmem))

omit [Foundation] [CognitionStore σ] in
/-- Nobody was past its lease, and one session gets a grant that is new. -/
theorem take (h : Exclusive past l) {service : ServiceState σ} {session : Session}
    {grant : ExecutionGrant} (hfree : l.service.activeGrantId.isEmpty = true)
    (hactive : service.activeGrantId = grant.id) (hne : grant.id.isEmpty = false)
    (hgrant : session.phase.grant = some grant)
    (hfresh : grant.id ∉ mintedIds (serviceTransitions past)) :
    Exclusive (past ++ [tr]) (l.turn i service session) := by
  have honly : ∀ j other, ((l.turn i service session).sessions j).phase.grant = some other →
      j = i ∧ other = grant := by
    intro j other hother
    by_cases hji : j = i
    · subst hji
      rw [CognitionLoop.turn_sessions_self, hgrant] at hother
      exact ⟨rfl, (Option.some.inj hother).symm⟩
    · rw [CognitionLoop.turn_sessions_ne hji, h.none_of_free hfree] at hother
      simp at hother
  constructor
  · intro j other hother
    obtain ⟨-, rfl⟩ := honly j other hother
    exact ⟨hactive, hne⟩
  · intro j k other another hother hanother
    exact (honly j other hother).1.trans (honly k another hanother).1.symm
  · intro j other foreign hother hmem hsame
    obtain ⟨-, rfl⟩ := honly j other hother
    exact hfresh (hsame ▸ h.minted foreign hmem)
  · exact fun other hmem => mem_mintedIds_snoc (h.minted other hmem)

omit [Foundation] [CognitionStore σ] in
/-- The lease is given back by the one that was past it. -/
theorem give (h : Exclusive past l) {service : ServiceState σ} {session : Session} (i : ι)
    (grant : ExecutionGrant) (hheld : (l.sessions i).phase.grant = some grant)
    (hidle : session.phase.grant = none) :
    Exclusive (past ++ [tr]) (l.turn i service session) := by
  refine .vacant (fun j => ?_) fun other hmem => mem_mintedIds_snoc (h.minted other hmem)
  by_cases hji : j = i
  · subst hji
    rw [CognitionLoop.turn_sessions_self, hidle]
  · rw [CognitionLoop.turn_sessions_ne hji]
    exact h.none_of_ne hheld hji

omit [Foundation] [CognitionStore σ] in
/-- A session that changes, but not in what it holds. -/
theorem turn (h : Exclusive past l) {service : ServiceState σ} {session : Session}
    (hactive : service.activeGrantId = l.service.activeGrantId)
    (hgrant : session.phase.grant = (l.sessions i).phase.grant) :
    Exclusive (past ++ [tr]) (l.turn i service session) := by
  refine h.keep hactive (fun j => ?_) rfl
  by_cases hji : j = i
  · subst hji
    rw [CognitionLoop.turn_sessions_self, hgrant]
  · rw [CognitionLoop.turn_sessions_ne hji]

end Exclusive

omit [DecidableEq ι] in
/-- While a session is past its lease no client has the lease changed. -/
theorem call_keepsLease (h : Exclusive past l) {grant : ExecutionGrant}
    (hgrant : (l.sessions i).phase.grant = some grant) {call : Call} {answer : Answer}
    {s : ServiceState σ} (hpresents : ∀ grant, call.presents = some grant → grant ∈ l.held)
    (hstep : l.service.step call = some (answer, s)) :
    KeepsLease (⟨l.service, call, answer, s⟩ : ServiceTransition σ) := by
  obtain ⟨hactive, hne⟩ := h.holder i grant hgrant
  have hvalid : Transition.Valid ServiceState.step ⟨l.service, call, answer, s⟩ := hstep
  rcases lease_step hvalid with hkept | hdropped | hminted
  · exact hkept
  · obtain ⟨released, haction, hid⟩ := hdropped.released
    obtain rfl : call = .releaseGrant released := haction
    exact (h.foreign i grant released hgrant (hpresents released rfl) (hid.trans hactive)).elim
  · have hfree : l.service.activeGrantId.isEmpty = true := hminted.inactive
    rw [hactive, hne] at hfree
    simp at hfree

/-- One step keeps the lease with one session at most. -/
theorem Exclusive.step (h : Exclusive past tr.before) (hvalid : tr.Valid CognitionLoop.step)
    (hnodup : (mintedIds (serviceTransitions (past ++ [tr]))).Nodup) :
    Exclusive (past ++ [tr]) tr.after := by
  obtain ⟨l, move, done, l'⟩ := tr
  have hstep : l.step move = some (done, l') := hvalid
  cases CognitionLoop.stepped hstep with
  | @unbound i _ _ _ _ session hidle _ hsession | @rebound i _ session hidle hsession =>
      exact h.turn rfl (by simp [hsession, hidle])
  | @refused i _ _ _ _ _ s session hidle _ hgrant hsession =>
      refine h.turn ?_ (by rw [hidle, hsession])
      rcases acquireGrant_cases hgrant with ⟨-, rfl | rfl⟩ | ⟨id, -, -, -, hnone, -⟩
      · rfl
      · rfl
      · simp at hnone
  | @leased i _ actor mode _ handle grant s session hidle _ hgrant hsession =>
      rcases acquireGrant_cases hgrant with ⟨hnone, -⟩ | ⟨id, hid, hfree, -, hsome, rfl⟩
      · simp at hnone
      · have hsame : grant.id = id := by rw [Option.some.inj hsome]
        refine h.take hfree hsame.symm ?_ (by rw [hsession]; rfl) ?_
        · rw [hsame, hid]
          exact grantIdOf_isEmpty _
        · rw [serviceTransitions_append, mintedIds_append] at hnodup
          intro hmem
          refine List.disjoint_of_nodup_append hnodup hmem ?_
          simp [serviceTransitions, serviceTransition, mintedIds, mintedId]
  | @written i handle grant transaction verdict s session hleased _ hwrite hsession =>
      exact h.turn (writeToCognition_lease hwrite) (by rw [hsession, hleased]; rfl)
  | @returned i _ handle grant transaction session hleased _ hsession =>
      exact h.give i grant (by rw [hleased]; rfl) (by rw [hsession]; rfl)
  | @concluded i _ handle grant transaction verdict _ _ session hwritten _ hsession =>
      exact h.give i grant (by rw [hwritten]; rfl) (by rw [hsession]; rfl)
  | @called call answer s hpresents hcall =>
      have hminted : ∀ other ∈ l.held ++ answer.grant.toList, other.id ∈ mintedIds
          (serviceTransitions (past ++ [⟨l, .call call, some (call, answer),
            { l with service := s, held := l.held ++ answer.grant.toList }⟩])) := by
        intro other hmem
        rcases List.mem_append.mp hmem with hmem | hmem
        · exact mem_mintedIds_snoc (h.minted other hmem)
        · rw [serviceTransitions_append, mintedIds_append]
          refine List.mem_append_right _ ?_
          have hanswer : answer.grant = some other := by simpa using hmem
          simp [serviceTransitions, serviceTransition, mintedIds, mintedId_eq, hanswer]
      by_cases hnone : ∀ i, (l.sessions i).phase.grant = none
      · exact .vacant hnone hminted
      · obtain ⟨i, hsome⟩ := not_forall.mp hnone
        obtain ⟨grant, hgrant⟩ := Option.ne_none_iff_exists'.mp hsome
        have hkept := call_keepsLease h hgrant hpresents hcall
        refine h.keep hkept.activeGrantId (fun _ => rfl) ?_
        have hunminted := hkept.unminted
        rw [mintedId_eq, Option.map_eq_none_iff] at hunminted
        rw [hunminted]
        exact List.append_nil _

theorem exclusive_of_run {store : σ} {llms : ι → WorkingLLM}
    (hrun : LoopRun (CognitionLoop.start store llms) trs l)
    (hcount : (mintedIds (serviceTransitions trs)).length < 2 ^ 64) : Exclusive trs l := by
  refine hrun.history_induction (motive := fun trs l =>
    (mintedIds (serviceTransitions trs)).length < 2 ^ 64 → Exclusive trs l)
    (fun _ => .vacant (fun _ => rfl) (by simp [CognitionLoop.start])) ?_ hcount
  intro past tr hpast hvalid ih hcount
  have hbefore : (mintedIds (serviceTransitions past)).length < 2 ^ 64 := by
    rw [serviceTransitions_append, mintedIds_append, List.length_append] at hcount
    omega
  exact (ih hbefore).step hvalid
    (mintedIds_nodup (service_run (hpast.append (Run.single hvalid))) hcount)

end Runs

/-! ## The critical section -/

section Critical

variable [Foundation] {ι σ : Type} [DecidableEq ι] [MemoryBacked σ] {l l' : CognitionLoop ι σ}
  {trs past : List (LoopTransition ι σ)} {tr : LoopTransition ι σ} {i j : ι}
  {grant : ExecutionGrant}

/-- The step left a session past its lease as it was, and all that it is about to
write on; only a client's call can reach its handle. -/
structure Spared (i : ι) (tr : LoopTransition ι σ) : Prop where
  session : tr.after.sessions i = tr.before.sessions i
  store : tr.after.service.store = tr.before.service.store
  receipts : tr.after.service.receipts = tr.before.service.receipts
  activeGrantId : tr.after.service.activeGrantId = tr.before.service.activeGrantId
  grantActor : tr.after.service.grantActor = tr.before.service.grantActor
  registry : tr.after.service.live = tr.before.service.live ∨
    ∃ call, tr.action = .call call ∧ RegistryStep tr.before.service tr.after.service call

/-- Nothing is submitted for a grant that is not the active one. -/
theorem submits_of_foreign {s : ServiceState σ} {call : Call}
    (hhead : (CognitionStore.head s.store).isEmpty = false)
    (hforeign : ∀ grant, call.presents = some grant → grant.id ≠ s.activeGrantId) :
    s.submits call = none := by
  cases call with
  | createCognition source =>
      have hreads : IsReader none {} (.call (.createCognition source)) (.answer .done) :=
        .createCognition source _
      exact hreads.submits_eq_none hhead
  | writeToCognition handle transaction grant =>
      refine submits_eq_none_of_write (.inr fun entry next hadmission => ?_)
      obtain ⟨governance, hadmitted⟩ := admission_eq_ok.mp hadmission
      exact hforeign grant rfl hadmitted.grantId.symm
  | _ => rfl

/-- The identity port accepts nobody without a canonical head. -/
theorem head_of_verifies {s : ServiceState σ} {actor : AuthenticatedActor}
    (h : s.withIdentity.verifies actor = true) :
    (CognitionStore.head s.store).isEmpty = false := by
  refine Bool.eq_false_iff.mpr fun hempty => ?_
  have hhead : s.withIdentity.canonicalHead = none :=
    canonicalHead_of_head (RevisionId.isEmpty_iff.mp hempty)
  simp [verifies, hhead] at h

theorem founded_of_run {store : σ} {trs : List (ServiceTransition σ)} {t : ServiceState σ}
    (hrun : ServiceRun (ServiceState.start store) trs t)
    (hactive : t.activeGrantId.isEmpty = false) : t.memory.revisions ≠ [] := by
  refine hrun.invariant (P := fun s => s.activeGrantId.isEmpty = false → s.memory.revisions ≠ [])
    (C := fun _ => True) (fun _ _ => trivial) ?_ ?_ hactive
  · intro hstart
    simp [ServiceState.start, GrantId.isEmpty] at hstart
  · intro tr hvalid _ hbefore hafter
    have hpre := memory_prefix_step hvalid
    refine fun hnil => ?_
    have hnone : tr.before.memory.revisions = [] := List.prefix_nil.mp (hnil ▸ hpre)
    rcases lease_step hvalid with hkept | hdropped | hminted
    · exact hbefore (hkept.activeGrantId ▸ hafter) hnone
    · simp [hdropped.activeGrantId, GrantId.isEmpty] at hafter
    · obtain ⟨mode, grant, -, -, -, hverified⟩ := hminted.minted
      have hhead := head_of_verifies hverified
      rw [head_memory, MemoryStore.head_eq, hnone] at hhead
      simp [RevisionId.isEmpty] at hhead

/-- Only a client's own grant, or that of the session itself, is ever presented. -/
theorem spared_step (hexclusive : Exclusive past tr.before) (hvalid : tr.Valid CognitionLoop.step)
    (hhead : (CognitionStore.head tr.before.service.store).isEmpty = false)
    (hgrant : (tr.before.sessions i).phase.grant = some grant)
    (hother : tr.action.session? ≠ some i) : Spared i tr := by
  obtain ⟨hactive, hne⟩ := hexclusive.holder i grant hgrant
  obtain ⟨l, move, done, l'⟩ := tr
  have hstep : l.step move = some (done, l') := hvalid
  have hnot (j : ι) (other : ExecutionGrant) (hsession : move.session? = some j)
      (hpast : (l.sessions j).phase.grant = some other) : False :=
    hother (hexclusive.alone j i other grant hpast hgrant ▸ hsession)
  have hkept := CognitionLoop.session_kept hstep hother
  cases CognitionLoop.stepped hstep with
  | unbound _ _ _ _ | rebound _ _ _ => exact ⟨hkept, rfl, rfl, rfl, rfl, .inl rfl⟩
  | refused _ _ _ hrefused _ =>
      rcases acquireGrant_cases hrefused with ⟨-, rfl | rfl⟩ | ⟨id, -, -, -, hnone, -⟩
      · exact ⟨hkept, rfl, rfl, rfl, rfl, .inl rfl⟩
      · exact ⟨hkept, rfl, rfl, rfl, rfl, .inl rfl⟩
      · simp at hnone
  | leased _ _ _ hgranted _ =>
      rcases acquireGrant_cases hgranted with ⟨hnone, -⟩ | ⟨id, -, hfree, -⟩
      · simp at hnone
      · have hfree' : l.service.activeGrantId.isEmpty = true := hfree
        have hactive' : l.service.activeGrantId = grant.id := hactive
        rw [hactive', hne] at hfree'
        simp at hfree'
  | @written j handle own transaction _ _ _ hleased _ _ _ =>
      exact (hnot j own rfl (by rw [hleased]; rfl)).elim
  | @returned j _ handle own transaction _ hleased _ _ =>
      exact (hnot j own rfl (by rw [hleased]; rfl)).elim
  | @concluded j _ handle own transaction _ _ _ _ hwritten _ _ =>
      exact (hnot j own rfl (by rw [hwritten]; rfl)).elim
  | called hpresents hcall =>
      have hkeeps := call_keepsLease hexclusive hgrant hpresents hcall
      have hforeign : ∀ other, Call.presents _ = some other →
          other.id ≠ l.service.activeGrantId := fun other hpresented =>
        hactive ▸ hexclusive.foreign i grant other hgrant (hpresents other hpresented)
      have hsubmits := submits_of_foreign hhead hforeign
      refine ⟨hkept, ?_, ?_, hkeeps.activeGrantId, hkeeps.grantActor,
        .inr ⟨_, rfl, registryStep hcall⟩⟩
      · have hstore := step_store hcall
        rw [hsubmits] at hstore
        exact hstore
      · rcases receipts_step hcall with hsame | ⟨_, _, _, _, submission, -, -, -, -, -, hsome, -⟩
        · exact hsame
        · rw [hsubmits] at hsome
          simp at hsome

/-- Until a session has given its lease back it is spared by all others. -/
theorem spared_of_run {store : σ} {llms : ι → WorkingLLM}
    (hempty : (MemoryBacked.memory store).revisions = [])
    (hrun : LoopRun (CognitionLoop.start store llms) trs l)
    (hcount : (mintedIds (serviceTransitions trs)).length < 2 ^ 64)
    {tr : LoopTransition ι σ} (htr : tr ∈ trs) {i : ι} {grant : ExecutionGrant}
    (hgrant : (tr.before.sessions i).phase.grant = some grant)
    (hother : tr.action.session? ≠ some i) : Spared i tr := by
  obtain ⟨before, after, rfl⟩ := List.append_of_mem htr
  obtain ⟨_, hbefore, hrest⟩ := hrun.append_inv
  obtain ⟨rfl, hvalid, -⟩ := hrest.cons_inv
  have hfew : (mintedIds (serviceTransitions before)).length < 2 ^ 64 := by
    rw [serviceTransitions_append, mintedIds_append, List.length_append] at hcount
    omega
  have hexclusive := exclusive_of_run hbefore hfew
  obtain ⟨hactive, hne⟩ := hexclusive.holder i grant hgrant
  have hservice := service_run hbefore
  have hfounded := founded_of_run hservice (by rw [hactive]; exact hne)
  refine spared_step hexclusive hvalid ?_ hgrant hother
  refine Bool.eq_false_iff.mpr fun hhead => hfounded ?_
  refine MemoryStore.revisions_eq_nil (named_of_run hempty hservice) ?_
  rw [← head_memory]
  exact RevisionId.isEmpty_iff.mp hhead

/-- At most one session is past its lease, whatever the sessions and the clients of a
service do; and until it has given the lease back, no step but its own touches
what is stored, the receipts, or the lease. -/
theorem turns_exclusive {store : σ} {llms : ι → WorkingLLM}
    (hempty : (MemoryBacked.memory store).revisions = [])
    (hrun : LoopRun (CognitionLoop.start store llms) trs l)
    (hcount : (mintedIds (serviceTransitions trs)).length < 2 ^ 64) :
    (∀ i j grant other, (l.sessions i).phase.grant = some grant →
      (l.sessions j).phase.grant = some other → i = j ∧ l.service.activeGrantId = grant.id) ∧
    ∀ tr ∈ trs, ∀ i grant, (tr.before.sessions i).phase.grant = some grant →
      tr.action.session? ≠ some i → Spared i tr := by
  have hlast := exclusive_of_run hrun hcount
  refine ⟨fun i j grant other hgrant hother =>
    ⟨hlast.alone i j grant other hgrant hother, (hlast.holder i grant hgrant).1⟩, ?_⟩
  intro tr htr i grant hgrant hother
  exact spared_of_run hempty hrun hcount htr hgrant hother

end Critical

section Scenario

open scoped QivenContext.Reference

theorem mintedIds_length_le {ι σ : Type} (trs : List (LoopTransition ι σ)) :
    (mintedIds (serviceTransitions trs)).length ≤ trs.length :=
  (List.length_filterMap_le _ _).trans (List.length_filterMap_le _ _)

/-- A turn on an empty store; before it writes another client reads the head. -/
theorem exists_interleaved :
    ∃ (llms : Bool → WorkingLLM) (past : List (LoopTransition Bool MemoryStore))
      (first read write last : LoopTransition Bool MemoryStore)
      (l : CognitionLoop Bool MemoryStore) (m : Materialization),
      LoopRun (CognitionLoop.start {} llms) (past ++ first :: [read, write] ++ [last]) l ∧
      past.map Transition.action =
        [.call (.createCognition {}), .rebind true (insisting m (keyedEvidence {}))] ∧
      first.action = .start true [] rootActor .supervisedForeground 0 ∧
      read.action = .call .canonicalHead ∧ write.action = .write true ∧
      last.action = .finish true 0 ∧
      (first.before.sessions true).llm.pCognition = some m ∧
      first.before.service.findLive (some m) = some m ∧
      first.before.service.storedHead = .ok makeGenesis ∧
      (read.before.sessions true).phase.grant = some firstGrant := by
  obtain ⟨booted, leased, m, hboot, hlease, honHead, hlive, hstate, hrevision, hrevisions, hstore,
    hreceipts⟩ := exists_boot
  obtain ⟨written, m', hwrote, -⟩ :=
    honHead.writeEvidence (hstate ▸ genesis_quiet) ((keyedEvidence {}).stamped m)
      (resolveKey_fresh (hreceipts _)) rfl (by simp [keyedEvidence, ContextTransaction.stamped])
      (keyedEvidence_evidenceOnly _)
  obtain ⟨granted, hgranted, hgrant⟩ := step_acquireGrant hlease
  obtain rfl := Answer.granted.inj hgranted
  obtain ⟨verdict, hverdict, hwrite⟩ := step_writeToCognition hwrote.step
  obtain rfl := Answer.verdict.inj hverdict
  let llm := insisting m (keyedEvidence {})
  let l₀ : CognitionLoop Bool MemoryStore := CognitionLoop.start {} fun _ => { address := 0 }
  let l₁ : CognitionLoop Bool MemoryStore := { l₀ with service := booted }
  let l₂ := l₁.turn true booted { llm := llm }
  let l₃ := l₂.turn true leased
    { llm := llm.disclose rootActor, phase := .leased m firstGrant (keyedEvidence {}) }
  let l₄ := l₃.turn true written
    { llm := llm.disclose rootActor
      phase := .written m firstGrant ((keyedEvidence {}).stamped m)
        { outcome := .applied, successor := some m' } }
  let l₅ := l₄.turn true (written.releaseGrant firstGrant)
    { llm := ((llm.disclose rootActor).accept m').annotateBudget 0
      result := (llm.disclose rootActor).appliedText m' }
  have h₁ : l₀.step (.call (.createCognition {})) =
      some (some (.createCognition {}, .created (.handle m)), l₁) := by
    have hcreate : l₀.service.step (.createCognition {}) = some (.created (.handle m), booted) :=
      hboot
    simp only [CognitionLoop.step, Call.presents, hcreate]
    rfl
  have h₂ : l₁.step (.rebind true llm) = some (none, l₂) := rfl
  have h₃ : l₂.step (.start true [] rootActor .supervisedForeground 0) =
      some (some (.acquireGrant rootActor .supervisedForeground, .granted (some firstGrant)),
        l₃) := by
    have hacquire : l₂.service.acquireGrant rootActor .supervisedForeground =
        (some firstGrant, leased) := hgrant
    simp only [CognitionLoop.step, l₂, CognitionLoop.turn_sessions_self]
    rw [show llm.pCognition = some m from rfl]
    simp only [show (l₁.turn true booted { llm := llm }).service = booted from rfl, hgrant]
    rfl
  have hread : l₃.step (.call .canonicalHead) =
      some (some (.canonicalHead, .head leased.canonicalHead), l₃) := by
    simp only [CognitionLoop.step, Call.presents]
    rfl
  have h₄ : l₃.step (.write true) = some (some (.writeToCognition (some m)
      ((keyedEvidence {}).stamped m) firstGrant,
        .verdict { outcome := .applied, successor := some m' }), l₄) := by
    simp only [CognitionLoop.step, l₃, CognitionLoop.turn_sessions_self]
    simp only [show (l₂.turn true leased _).service = leased from rfl, hwrite]
    rfl
  have h₅ : l₄.step (.finish true 0) = some (some (.releaseGrant firstGrant, .done), l₅) := by
    simp only [CognitionLoop.step, l₄, CognitionLoop.turn_sessions_self]
    rfl
  have hrun := (((((Run.nil l₀).snoc h₁).snoc h₂).snoc h₃).snoc hread).snoc h₄
  refine ⟨fun _ => { address := 0 }, [⟨l₀, _, _, l₁⟩, ⟨l₁, _, _, l₂⟩], ⟨l₂, _, _, l₃⟩,
    ⟨l₃, _, _, l₃⟩, ⟨l₃, _, _, l₄⟩, ⟨l₄, _, _, l₅⟩, l₅, m, hrun.snoc h₅, rfl, rfl, rfl, rfl, rfl,
    ?_, ?_, ?_, ?_⟩
  · simp only [l₂, CognitionLoop.turn_sessions_self]
    rfl
  · have hfind : booted.findLive (some m) = some m := by simp [findLive, hlive]
    exact hfind
  · exact (storedHead_of_genesis hrevisions).2
  · simp only [l₃, CognitionLoop.turn_sessions_self]
    rfl

theorem interleaved_read_spared :
    ∃ (llms : Bool → WorkingLLM) (trs : List (LoopTransition Bool MemoryStore))
      (l : CognitionLoop Bool MemoryStore) (tr : LoopTransition Bool MemoryStore),
      LoopRun (CognitionLoop.start {} llms) trs l ∧ tr ∈ trs ∧ tr.action = .call .canonicalHead ∧
        (tr.before.sessions true).phase.grant = some firstGrant ∧ Spared true tr := by
  obtain ⟨llms, past, first, read, write, last, l, m, hrun, hpast, -, hread, -, -, -, -, -,
    hgrant⟩ := exists_interleaved
  have htwo : past.length = 2 := by simpa using congrArg List.length hpast
  have hcount := (mintedIds_length_le (past ++ first :: [read, write] ++ [last])).trans_lt
    (by simp [htwo] : _ < 2 ^ 64)
  refine ⟨llms, _, l, read, hrun, by simp, hread, hgrant, ?_⟩
  exact (turns_exclusive rfl hrun hcount).2 read (by simp) true firstGrant hgrant
    (by rw [hread]; simp [Move.session?])

end Scenario

end QivenContext
