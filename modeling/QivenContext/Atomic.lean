import QivenContext.Contention

/-!
# Turns that look atomic

A turn whose calls have other turns and other clients in between ends as if it
had run in one piece where it took its lease: with the same result, the same
session and the same store. The gates of its write see what they would have
seen then.
-/

namespace QivenContext

open Library ServiceState

/-! ## Up to addresses -/

/-- The session, wherever its materialization was allocated. -/
def WorkingLLM.content (llm : WorkingLLM) : WorkingLLM :=
  { llm with pCognition := llm.pCognition.map Materialization.content }

theorem WorkingLLM.annotateBudget_content (llm : WorkingLLM) (elapsed : ℤ) :
    (llm.annotateBudget elapsed).content = llm.content.annotateBudget elapsed := by
  have hbudget : llm.content.turnBudget = llm.turnBudget := rfl
  unfold annotateBudget
  rw [hbudget]
  split
  · rfl
  · split <;> rfl

/-- The verdict, wherever its successor was allocated. -/
def Verdict.content (verdict : Verdict) : Verdict :=
  { verdict with successor := verdict.successor.map Materialization.content }

/-- A session concludes from verdicts that agree in content to sessions that do. -/
theorem WorkingLLM.conclude_content (llm : WorkingLLM) (snapshot : Snapshot)
    (transaction : ContextTransaction) {verdict other : Verdict}
    (hsame : other.content = verdict.content) :
    (llm.conclude snapshot transaction other).map (fun concluded =>
        (concluded.1.content, concluded.2)) =
      (llm.conclude snapshot transaction verdict).map fun concluded =>
        (concluded.1.content, concluded.2) := by
  obtain ⟨outcome, reason, successor⟩ := verdict
  obtain ⟨outcome', reason', successor'⟩ := other
  simp only [Verdict.content, Verdict.mk.injEq] at hsame
  obtain ⟨rfl, rfl, hsuccessor⟩ := hsame
  unfold conclude
  split
  · cases successor with
    | none =>
        obtain rfl : successor' = none := by simpa using hsuccessor
        rfl
    | some m =>
        obtain ⟨m', rfl, hm⟩ := Option.map_eq_some_iff.mp hsuccessor
        have hcontent : m'.content.revision = m.content.revision := by rw [hm]
        have hrevision : m'.revision = m.revision := hcontent
        simp only [Option.map_some, accept, appliedText, content, hm, hrevision]
  · rfl

section Atomic

variable [Foundation] {ι σ : Type} [DecidableEq ι] [MemoryBacked σ] {l l' : CognitionLoop ι σ}
  {trs past middle : List (LoopTransition ι σ)} {tr : LoopTransition ι σ} {i : ι}
  {s t : ServiceState σ} {handle entry : Materialization} {grant : ExecutionGrant}
  {transaction : ContextTransaction}

/-! ## The states on the way -/

/-- A session attaches no identity port. -/
theorem keepsPort_of_serviceTransition {call : ServiceTransition σ}
    (hvalid : tr.Valid CognitionLoop.step)
    (hport : ∀ other, tr.action = .call other → KeepsPort other)
    (hcall : serviceTransition tr = some call) : KeepsPort call.action := by
  obtain ⟨l, move, done, l'⟩ := tr
  have hstep : l.step move = some (done, l') := hvalid
  cases CognitionLoop.stepped hstep with
  | unbound _ _ _ _ | rebound _ _ _ => simp [serviceTransition] at hcall
  | refused _ _ _ _ _ | leased _ _ _ _ _ | written _ _ _ _ _ | returned _ _ _ _
  | concluded _ _ _ _ =>
      obtain rfl := Option.some.inj hcall
      simp [KeepsPort]
  | @called other _ _ _ _ =>
      obtain rfl := Option.some.inj hcall
      exact hport other rfl

theorem steady_of_loopRun {store : σ} {llms : ι → WorkingLLM}
    (hempty : (MemoryBacked.memory store).revisions = [])
    (hrun : LoopRun (CognitionLoop.start store llms) trs l)
    (hport : ∀ tr ∈ trs, ∀ call, tr.action = .call call → KeepsPort call) : Steady l.service := by
  refine steady_of_run hempty (service_run hrun) fun call hcall => ?_
  obtain ⟨tr, htr, hsome⟩ := List.mem_filterMap.mp hcall
  exact keepsPort_of_serviceTransition (hrun.valid_of_mem htr) (hport tr htr) hsome

theorem steady_before {store : σ} {llms : ι → WorkingLLM}
    (hempty : (MemoryBacked.memory store).revisions = [])
    (hrun : LoopRun (CognitionLoop.start store llms) trs l)
    (hport : ∀ tr ∈ trs, ∀ call, tr.action = .call call → KeepsPort call) (htr : tr ∈ trs) :
    Steady tr.before.service := by
  obtain ⟨before, after, rfl⟩ := List.append_of_mem htr
  obtain ⟨_, hbefore, hrest⟩ := hrun.append_inv
  obtain ⟨rfl, -, -⟩ := hrest.cons_inv
  exact steady_of_loopRun hempty hbefore fun other hother =>
    hport other (List.mem_append_left _ hother)

omit [DecidableEq ι] in
/-- What spares a session leaves its writer undisturbed, if the handle is not
called on. -/
theorem Spared.undisturbed (h : Spared i tr) (hsteady : Steady tr.before.service)
    (hfind : tr.before.service.findLive (some handle) = some entry)
    (hhandle : ∀ call, tr.action = .call call →
      call.handle.map Materialization.address ≠ some handle.address) :
    Undisturbed (some handle) tr.before.service tr.after.service := by
  refine ⟨h.store, h.receipts, h.activeGrantId, h.grantActor, ?_⟩
  rcases h.registry with hlive | ⟨call, haction, hregistry⟩
  · unfold ServiceState.findLive
    rw [hlive]
  · rw [hfind]
    refine findLive_of_ne hregistry hsteady.addressed hfind ?_
    have hat := (findLive_some hfind).2
    rw [Materialization.isAt_some] at hat
    have hne := hhandle call haction
    cases hcalled : call.handle with
    | none => rfl
    | some other =>
        rw [hcalled] at hne
        refine Bool.eq_false_iff.mpr fun hsame => hne ?_
        rw [Materialization.isAt_some] at hsame
        exact congrArg some (hsame.trans hat.symm)

/-- Undisturbed, the write sees and does what it would have. -/
theorem observed_undisturbed (hs : Steady s) (ht : Steady t)
    (h : Undisturbed (some handle) s t) {head : Snapshot}
    (hhead : (CognitionStore.head s.store).isEmpty = false) (hdecodes : s.storedHead = .ok head)
    (hactive : s.activeGrantId.isEmpty = false) (transaction : ContextTransaction)
    (grant : ExecutionGrant) :
    observed (t.writeToCognition (some handle) transaction grant) =
      observed (s.writeToCognition (some handle) transaction grant) := by
  have hdecodes' : t.storedHead = .ok head := by
    rw [storedHead, h.store]
    exact hdecodes
  obtain ⟨before, hcanonical, hbefore⟩ := hs.canonicalHead hhead hdecodes
  obtain ⟨after, hcanonical', hafter⟩ := ht.canonicalHead (h.store ▸ hhead) hdecodes'
  refine write_undisturbed h (admission_undisturbed h hcanonical hcanonical'
    (hafter.trans hbefore.symm) (hs.port.leased hactive) (ht.port.leased ?_) transaction grant)
  rw [h.activeGrantId]
  exact hactive

/-! ## A turn under way -/

/-- The delta of a turn is still to be written, on what its lease was taken on; or it
was written, as it would have been there. -/
inductive Underway (i : ι) (leased : ServiceState σ) (llm : WorkingLLM) (handle : Materialization)
    (grant : ExecutionGrant) (transaction : ContextTransaction) (l : CognitionLoop ι σ) : Prop
  | thinking (hsession : l.sessions i =
        { llm := llm, phase := .leased handle grant transaction })
      (hsame : Undisturbed (some handle) leased l.service)
  | written {verdict verdict' : Verdict} {after : ServiceState σ} (hsession : l.sessions i =
        { llm := llm, phase := .written handle grant (transaction.stamped handle) verdict })
      (hmaterial : transaction.operations ≠ [])
      (hwrite : leased.writeToCognition (some handle) (transaction.stamped handle) grant =
        some (verdict', after))
      (hverdict : verdict.content = verdict'.content) (hstore : l.service.store = after.store)

variable {llm : WorkingLLM} {leased : ServiceState σ}

/-- The lease was taken on a head that decodes, with the handle registered. -/
structure LeasedOn (leased : ServiceState σ) (handle : Materialization) : Prop where
  steady : Steady leased
  active : leased.activeGrantId.isEmpty = false
  head : (CognitionStore.head leased.store).isEmpty = false
  decodes : ∃ head, leased.storedHead = .ok head
  registered : ∃ entry, leased.findLive (some handle) = some entry

omit [DecidableEq ι] in
theorem Underway.grant_eq (h : Underway i leased llm handle grant transaction l) :
    (l.sessions i).phase.grant = some grant := by
  cases h with
  | thinking hsession _ => rw [hsession]; rfl
  | written hsession _ _ _ _ => rw [hsession]; rfl

theorem Underway.write {session : Session} {verdict : Verdict} {other : Materialization}
    {own : ExecutionGrant} {delta : ContextTransaction} (hleasedOn : LeasedOn leased handle)
    (h : Underway i leased llm handle grant transaction l) (hsteady : Steady l.service)
    (hleased : (l.sessions i).phase = .leased other own delta) (hmaterial : delta.operations ≠ [])
    (hwrite : l.service.writeToCognition (some other) (delta.stamped other) own =
      some (verdict, t))
    (hsession : session = { l.sessions i with
      phase := .written other own (delta.stamped other) verdict }) :
    Underway i leased llm handle grant transaction (l.turn i t session) := by
  cases h with
  | thinking hthinking hsame =>
      rw [hthinking] at hleased hsession
      obtain ⟨rfl, rfl, rfl⟩ : handle = other ∧ grant = own ∧ transaction = delta := by
        simpa using hleased
      obtain ⟨head, hdecodes⟩ := hleasedOn.decodes
      have hobserved := observed_undisturbed hleasedOn.steady hsteady hsame hleasedOn.head
        hdecodes hleasedOn.active (transaction.stamped handle) grant
      rw [hwrite] at hobserved
      obtain ⟨⟨verdict', after⟩, hwrite', hresult⟩ := Option.map_eq_some_iff.mp hobserved.symm
      obtain ⟨hverdict, hstore⟩ := Prod.mk.inj hresult
      refine .written ?_ hmaterial hwrite' hverdict.symm hstore.symm
      rw [CognitionLoop.turn_sessions_self, hsession]
  | written hwritten _ _ _ _ =>
      rw [hwritten] at hleased
      simp at hleased

omit [DecidableEq ι] in
/-- What the others do leaves a turn where it is. -/
theorem Underway.spared (hleasedOn : LeasedOn leased handle)
    (h : Underway i leased llm handle grant transaction tr.before)
    (hsteady : Steady tr.before.service) (hspared : Spared i tr)
    (hhandle : ∀ call, tr.action = .call call →
      call.handle.map Materialization.address ≠ some handle.address) :
    Underway i leased llm handle grant transaction tr.after := by
  cases h with
  | thinking hsession hsame =>
      obtain ⟨entry, hfind⟩ := hleasedOn.registered
      exact .thinking (hspared.session.trans hsession)
        (hsame.trans (hspared.undisturbed hsteady (hsame.entry.trans hfind) hhandle))
  | written hsession hmaterial hwrite hverdict hstore =>
      exact .written (hspared.session.trans hsession) hmaterial hwrite hverdict
        (hspared.store.trans hstore)

theorem Underway.step (hleasedOn : LeasedOn leased handle)
    (h : Underway i leased llm handle grant transaction tr.before)
    (hvalid : tr.Valid CognitionLoop.step) (hsteady : Steady tr.before.service)
    (hspared : tr.action.session? ≠ some i → Spared i tr)
    (hown : tr.action.session? = some i → tr.action = .write i)
    (hhandle : ∀ call, tr.action = .call call →
      call.handle.map Materialization.address ≠ some handle.address) :
    Underway i leased llm handle grant transaction tr.after := by
  by_cases hmine : tr.action.session? = some i
  · obtain ⟨l, move, done, l'⟩ := tr
    have hstep : l.step move = some (done, l') := hvalid
    obtain rfl : move = .write i := hown hmine
    cases CognitionLoop.stepped hstep with
    | written session hleased hmaterial hwrite hsession =>
        exact h.write hleasedOn hsteady hleased hmaterial hwrite hsession
  · exact h.spared hleasedOn hsteady (hspared hmine) hhandle

/-- From its lease to its end a turn does what it would have done at once. -/
theorem Underway.finish {prompt : Str} {actor : AuthenticatedActor} {mode : WorkMode}
    {elapsed : ℤ} {done : Option (Call × Answer)} (hbound : llm.pCognition = some handle)
    (hgrant : s.acquireGrant actor mode = (some grant, leased))
    (h : Underway i leased (llm.disclose actor) handle grant (llm.propose prompt handle.state) l)
    (hstep : l.step (.finish i elapsed) = some (done, l')) :
    ∃ llm' t, llm.work s prompt actor mode elapsed = some (llm', (l'.sessions i).result, t) ∧
      (l'.sessions i).llm.content = llm'.content ∧ (l'.sessions i).phase = .idle ∧
      l'.service.store = t.store := by
  cases CognitionLoop.stepped hstep with
  | returned session hleased hempty hsession =>
      cases h with
      | thinking hthinking hsame =>
          rw [hthinking] at hleased hsession
          obtain ⟨rfl, rfl, rfl⟩ := Phase.leased.inj hleased
          have hnothing : ((llm.disclose actor).propose prompt handle.state).operations.isEmpty =
              true := List.isEmpty_iff.mpr hempty
          refine ⟨(llm.disclose actor).continued.annotateBudget elapsed, leased.releaseGrant grant,
            ?_, ?_, ?_, ?_⟩
          · simp only [WorkingLLM.work, WorkingLLM.workImpl, hbound, hgrant, hnothing,
              CognitionLoop.turn_sessions_self, hsession]
            rfl
          · rw [CognitionLoop.turn_sessions_self, hsession]
          · rw [CognitionLoop.turn_sessions_self, hsession]
          · exact releaseGrant_sameHead.store.trans
              (hsame.store.trans releaseGrant_sameHead.store.symm)
      | written hwritten _ _ _ _ =>
          rw [hwritten] at hleased
          simp at hleased
  | concluded session hphase hconclude hsession =>
      cases h with
      | thinking hthinking _ =>
          rw [hthinking] at hphase
          simp at hphase
      | @written verdict verdict' after hwritten hmaterial hwrite hverdict hstore =>
          rw [hwritten] at hphase hconclude
          obtain ⟨rfl, rfl, rfl, rfl⟩ := Phase.written.inj hphase
          have hcontent := (llm.disclose actor).conclude_content handle.state
            ((llm.propose prompt handle.state).stamped handle) hverdict
          rw [hconclude] at hcontent
          obtain ⟨⟨concluded, text⟩, hconclude', hsame⟩ :=
            Option.map_eq_some_iff.mp hcontent.symm
          obtain ⟨hllm, rfl⟩ := Prod.mk.inj hsame
          refine ⟨concluded.annotateBudget elapsed, after.releaseGrant grant, ?_, ?_, ?_, ?_⟩
          · rw [WorkingLLM.work_of_write hbound rfl hmaterial hgrant hwrite, hconclude',
              CognitionLoop.turn_sessions_self, hsession]
            rfl
          · rw [CognitionLoop.turn_sessions_self, hsession, WorkingLLM.annotateBudget_content,
              WorkingLLM.annotateBudget_content, hllm]
          · rw [CognitionLoop.turn_sessions_self, hsession]
          · exact releaseGrant_sameHead.store.trans
              (hstore.trans releaseGrant_sameHead.store.symm)

theorem leasedOn_of_acquireGrant {actor : AuthenticatedActor} {mode : WorkMode} {head : Snapshot}
    (hsteady : Steady s) (hgrant : s.acquireGrant actor mode = (some grant, leased))
    (hdecodes : s.storedHead = .ok head) (hfind : s.findLive (some handle) = some entry) :
    LeasedOn leased handle := by
  have hstep : s.step (.acquireGrant actor mode) = some (.granted (some grant), leased) := by
    simp only [step, hgrant]
  obtain ⟨hverified, hactive, hsame, -⟩ := leased_of_acquireGrant hgrant
  refine ⟨hsteady.step hstep (by simp [KeepsPort]), ?_, ?_, ⟨head, ?_⟩, ⟨entry, ?_⟩⟩
  · rcases acquireGrant_cases hgrant with ⟨hnone, -⟩ | ⟨id, hid, -, -, -, rfl⟩
    · simp at hnone
    · rw [hid]
      exact grantIdOf_isEmpty _
  · rw [hsame.store]
    exact head_of_verifies hverified
  · rw [storedHead, hsame.store]
    exact hdecodes
  · unfold findLive
    rw [hsame.live]
    exact hfind

/-- A session that could not take its lease stays idle. -/
theorem idle_kept (hmiddle : ∀ tr ∈ middle, tr.action.session? = some i → tr.action = .write i)
    (hrun : LoopRun l middle l') (hidle : (l.sessions i).phase = .idle) :
    (l'.sessions i).phase = .idle := by
  refine hrun.invariant (P := fun l => (l.sessions i).phase = .idle) hmiddle hidle ?_
  rintro ⟨before, move, done, after⟩ hvalid hown hbefore
  have hstep : before.step move = some (done, after) := hvalid
  by_cases hmine : move.session? = some i
  · obtain rfl : move = .write i := hown hmine
    cases CognitionLoop.stepped hstep with
    | written session hleased _ _ _ =>
        have hphase : (before.sessions i).phase = .idle := hbefore
        rw [hleased] at hphase
        simp at hphase
  · have hkept := CognitionLoop.session_kept hstep hmine
    exact (congrArg Session.phase hkept).trans hbefore

theorem finish_ne_idle {elapsed : ℤ} {done : Option (Call × Answer)}
    (hstep : l.step (.finish i elapsed) = some (done, l')) : (l.sessions i).phase ≠ .idle := by
  intro hidle
  cases CognitionLoop.stepped hstep with
  | returned _ hphase _ _ | concluded _ hphase _ _ =>
      rw [hphase] at hidle
      simp at hidle

/-- A turn whose calls have those of other turns and of clients in between, none of
them on its handle, ends as the whole turn would have ended where it took its
lease: the result, the session up to addresses, and the store are the same. -/
theorem turn_atomic {store : σ} {llms : ι → WorkingLLM} {first last : LoopTransition ι σ}
    {prompt : Str} {actor : AuthenticatedActor} {mode : WorkMode} {asked elapsed : ℤ}
    {head : Snapshot} (hempty : (MemoryBacked.memory store).revisions = [])
    (hrun : LoopRun (CognitionLoop.start store llms) (past ++ first :: middle ++ [last]) l)
    (hcount : (mintedIds (serviceTransitions (past ++ first :: middle ++ [last]))).length < 2 ^ 64)
    (hport : ∀ tr ∈ past ++ first :: middle, ∀ call, tr.action = .call call → KeepsPort call)
    (hfirst : first.action = .start i prompt actor mode asked)
    (hlast : last.action = .finish i elapsed)
    (hmiddle : ∀ tr ∈ middle, tr.action.session? = some i → tr.action = .write i)
    (hbound : (first.before.sessions i).llm.pCognition = some handle)
    (hregistered : first.before.service.findLive (some handle) = some entry)
    (hdecodes : first.before.service.storedHead = .ok head)
    (hhandle : ∀ tr ∈ middle, ∀ call, tr.action = .call call →
      call.handle.map Materialization.address ≠ some handle.address) :
    ∃ llm t, (first.before.sessions i).llm.work first.before.service prompt actor mode elapsed =
        some (llm, (l.sessions i).result, t) ∧
      (l.sessions i).llm.content = llm.content ∧ (l.sessions i).phase = .idle ∧
      l.service.store = t.store := by
  obtain ⟨ending, hturn, hend⟩ := hrun.append_inv
  obtain ⟨_, hpast, hopen⟩ := hturn.append_inv
  obtain ⟨rfl, hvalid, hrest⟩ := hopen.cons_inv
  obtain ⟨rfl, hfinish, hnil⟩ := hend.cons_inv
  obtain rfl := hnil.nil_inv
  have hstart : first.before.step (.start i prompt actor mode asked) =
      some (first.answer, first.after) := hfirst ▸ hvalid
  have hstop : last.before.step (.finish i elapsed) = some (last.answer, last.after) :=
    hlast ▸ hfinish
  generalize first.answer = done, first.after = after at hstart hrest
  cases CognitionLoop.stepped hstart with
  | unbound _ _ hnone _ =>
      rw [hbound] at hnone
      simp at hnone
  | refused session _ _ _ hsession =>
      have hidle := idle_kept (i := i) hmiddle hrest
        (by rw [CognitionLoop.turn_sessions_self, hsession])
      exact (finish_ne_idle hstop hidle).elim
  | @leased _ _ _ _ _ _ grant leased session _ hsome hgrant hsession =>
      obtain rfl := Option.some.inj (hbound.symm.trans hsome)
      have hsteady : Steady first.before.service := steady_before hempty hturn hport (by simp)
      have hleasedOn := leasedOn_of_acquireGrant hsteady hgrant hdecodes hregistered
      have hunder : Underway i leased ((first.before.sessions i).llm.disclose actor) handle grant
          ((first.before.sessions i).llm.propose prompt handle.state) last.before := by
        refine hrest.invariant (C := fun tr => tr ∈ middle) (fun _ => id)
          (.thinking (by rw [CognitionLoop.turn_sessions_self, hsession]) (.refl _)) ?_
        intro tr hvalid hmem hbefore
        have hsteady : Steady tr.before.service :=
          steady_before hempty hturn hport (by simp [hmem])
        exact hbefore.step hleasedOn hvalid hsteady
          (spared_of_run hempty hrun hcount (by simp [hmem]) hbefore.grant_eq) (hmiddle tr hmem)
          (hhandle tr hmem)
      exact hunder.finish hsome hgrant hstop

end Atomic

open scoped QivenContext.Reference in
theorem interleaved_turn_atomic :
    ∃ (llms : Bool → WorkingLLM) (trs : List (LoopTransition Bool MemoryStore))
      (l : CognitionLoop Bool MemoryStore) (llm llm' : WorkingLLM)
      (s t : ServiceState MemoryStore), LoopRun (CognitionLoop.start {} llms) trs l ∧
        llm.work s [] rootActor .supervisedForeground 0 =
          some (llm', (l.sessions true).result, t) ∧
        (l.sessions true).llm.content = llm'.content ∧ l.service.store = t.store := by
  obtain ⟨llms, past, first, read, write, last, l, m, hrun, hpast, hfirst, hread, hwrite, hlast,
    hbound, hfind, hdecodes, -⟩ := exists_interleaved
  have htwo : past.length = 2 := by simpa using congrArg List.length hpast
  have hcount := (mintedIds_length_le (past ++ first :: [read, write] ++ [last])).trans_lt
    (by simp [htwo] : _ < 2 ^ 64)
  have hcalls : ∀ tr ∈ past ++ first :: [read, write], ∀ call, tr.action = .call call →
      call = .createCognition {} ∨ call = .canonicalHead := by
    intro tr htr call hcall
    rcases List.mem_append.mp htr with htr | htr
    · have haction := List.mem_map_of_mem (f := Transition.action) htr
      rw [hpast, hcall] at haction
      exact .inl (by simpa using haction)
    · obtain rfl | rfl | rfl : tr = first ∨ tr = read ∨ tr = write := by simpa using htr
      · simp [hfirst] at hcall
      · exact .inr (by simpa [hread, eq_comm] using hcall)
      · simp [hwrite] at hcall
  obtain ⟨llm', t, hwork, hllm, -, hstore⟩ := turn_atomic rfl hrun hcount
    (fun tr htr call hcall => by
      rcases hcalls tr htr call hcall with rfl | rfl <;> simp [KeepsPort])
    hfirst hlast
    (fun tr htr hown => by
      obtain rfl | rfl : tr = read ∨ tr = write := by simpa using htr
      · simp [hread, Move.session?] at hown
      · exact hwrite)
    hbound hfind hdecodes
    (fun tr htr call hcall => by
      rcases hcalls tr (by simp [htr]) call hcall with rfl | rfl <;> simp [Call.handle])
  exact ⟨llms, _, l, _, llm', _, t, hrun, hwork, hllm, hstore⟩

end QivenContext
