import QivenContext.Bundle
import QivenContext.Lease
import QivenContext.Principal
import QivenContext.Reference
import QivenContext.Scenario

/-!
# Readers and the writer

Whoever holds the lease and a registered handle writes the same after any
activity of readers: they boot, read and retire what is theirs, and neither
the store nor the receipts, the lease or the writer's own entry move. The
canonical head may change from the live path to the stored one and back, and
names the same principal on both.
-/

namespace QivenContext

open Library ServiceState

section Readers

variable [Foundation] {σ : Type}

/-! ## What a reader does -/

/-- What a participant does: a call of the service, or a read of a handle. -/
inductive Activity where
  | call (call : Call)
  | readFromCognition (handle : Materialization) (query : Query)
  | buildBundle (handle : Materialization) (query : Query)
  | resolveView (handle : Materialization) (viewId : Str)

inductive Report where
  | answer (answer : Answer)
  | data (data : Bytes)
  | bundle (bundle : Except StollError ContextBundle)
  | view (view : Option ViewSpec × ResolveDiagnostic.Kind)

/-- Reads look at the immutable materialization and nothing else. -/
def ServiceState.act [CognitionStore σ] (s : ServiceState σ) :
    Activity → Option (Report × ServiceState σ)
  | .call call =>
      match s.step call with
      | none => none
      | some (answer, s) => some (.answer answer, s)
  | .readFromCognition handle query => some (.data (QivenContext.readFromCognition handle query), s)
  | .buildBundle handle query => some (.bundle (QivenContext.buildBundle handle query), s)
  | .resolveView handle viewId => some (.view (QivenContext.resolveView handle viewId), s)

abbrev ActivityRun [CognitionStore σ] (s : ServiceState σ)
    (trs : List (Transition (ServiceState σ) Activity Report)) (t : ServiceState σ) : Prop :=
  Run ServiceState.act s trs t

/-- The activities of readers beside a writer at this handle under this lease:
boots, reads, attempts on the lease that are refused, releases of other
grants, and calls on other handles. -/
inductive IsReader (handle : CognitionHandle) (lease : GrantId) : Activity → Report → Prop
  | createCognition (source : CognitionSource) (report : Report) :
      IsReader handle lease (.call (.createCognition source)) report
  | canonicalHead (report : Report) : IsReader handle lease (.call .canonicalHead) report
  | currentEpoch (report : Report) : IsReader handle lease (.call .currentEpoch) report
  | acquireGrant (actor : AuthenticatedActor) (mode : WorkMode) :
      IsReader handle lease (.call (.acquireGrant actor mode)) (.answer (.granted none))
  | releaseGrant (grant : ExecutionGrant) (hstale : grant.id ≠ lease) (report : Report) :
      IsReader handle lease (.call (.releaseGrant grant)) report
  | retireCognition (other : CognitionHandle)
      (hother : other.map Materialization.address ≠ handle.map Materialization.address)
      (report : Report) : IsReader handle lease (.call (.retireCognition other)) report
  | verifyRestored (other : CognitionHandle)
      (hother : other.map Materialization.address ≠ handle.map Materialization.address)
      (actor : AuthenticatedActor) (report : Report) :
      IsReader handle lease (.call (.verifyRestored other actor)) report
  | promoteAuthority (other : CognitionHandle)
      (hother : other.map Materialization.address ≠ handle.map Materialization.address)
      (actor : AuthenticatedActor) (report : Report) :
      IsReader handle lease (.call (.promoteAuthority other actor)) report
  | readFromCognition (pinned : Materialization) (query : Query) (report : Report) :
      IsReader handle lease (.readFromCognition pinned query) report
  | buildBundle (pinned : Materialization) (query : Query) (report : Report) :
      IsReader handle lease (.buildBundle pinned query) report
  | resolveView (pinned : Materialization) (viewId : Str) (report : Report) :
      IsReader handle lease (.resolveView pinned viewId) report

/-- The call attaches no identity port but the default one. -/
def KeepsPort (call : Call) : Prop :=
  ∀ verifier, call = .attachIdentityVerifier verifier →
    verifier.getD rootPrincipalVerifier = rootPrincipalVerifier

namespace IsReader

variable {handle : CognitionHandle} {lease : GrantId} {call : Call} {report : Report}

omit [Foundation] in
theorem keepsPort (h : IsReader handle lease (.call call) report) : KeepsPort call := by
  cases h <;> simp [KeepsPort]

omit [Foundation] in
/-- A reader addresses another entry of the registry, or none. -/
theorem handle_ne (h : IsReader handle lease (.call call) report) {m : Materialization}
    (hat : m.isAt handle = true) : m.isAt call.handle = false := by
  cases handle with
  | none => simp at hat
  | some pointee =>
      rw [Materialization.isAt_some] at hat
      cases h with
      | retireCognition other hother | verifyRestored other hother
      | promoteAuthority other hother =>
          cases other with
          | none => rfl
          | some another =>
              have hne : another.address ≠ pointee.address := by simpa using hother
              refine Bool.eq_false_iff.mpr fun hsame => hne ?_
              rw [Call.handle, Materialization.isAt_some] at hsame
              exact hsame.trans hat.symm
      | _ => rfl

/-- With a head in the store, readers submit nothing. -/
theorem submits_eq_none [CognitionStore σ] {s : ServiceState σ}
    (h : IsReader handle lease (.call call) report)
    (hhead : (CognitionStore.head s.store).isEmpty = false) : s.submits call = none := by
  cases h with
  | createCognition source =>
      have hboot : (s.bootId source).isEmpty = false := by
        unfold bootId
        split
        · exact hhead
        · next hrevision => simpa using hrevision
      simp [submits, hboot]
  | _ => rfl

end IsReader

/-! ## States that readers meet -/

variable {s s' t : ServiceState σ} {handle : CognitionHandle} {entry : Materialization}
  {transaction : ContextTransaction} {grant : ExecutionGrant}

section Port

variable [CognitionStore σ]

/-- The identity port is the default one, attached at the latest with a lease. -/
def DefaultPort (s : ServiceState σ) : Prop :=
  s.identity = some rootPrincipalVerifier ∨ s.identity = none ∧ s.activeGrantId.isEmpty = true

omit [Foundation] [CognitionStore σ] in
theorem DefaultPort.withIdentity (h : DefaultPort s) :
    s.withIdentity.identity = some rootPrincipalVerifier := by
  rcases h with h | ⟨h, -⟩ <;> simp [ServiceState.withIdentity, h]

omit [Foundation] [CognitionStore σ] in
theorem DefaultPort.leased (h : DefaultPort s) (hactive : s.activeGrantId.isEmpty = false) :
    s.identity = some rootPrincipalVerifier := by
  rcases h with h | ⟨-, hempty⟩
  · exact h
  · simp [hempty] at hactive

/-- The identity port changes with its default or with an attachment only, and
no lease is taken without one. -/
theorem identity_step {call : Call} {answer : Answer} (h : s.step call = some (answer, s')) :
    (s'.identity = s.identity ∧
      (s.activeGrantId.isEmpty = true → s'.activeGrantId.isEmpty = true)) ∨
    s'.identity = s.withIdentity.identity ∨
    ∃ verifier, call = .attachIdentityVerifier verifier ∧
      s'.identity = some (verifier.getD rootPrincipalVerifier) := by
  cases effect h with
  | kept _ _ _ | registered _ _ _ | founded _ _ _ | retired _ | diverged _ _ =>
      exact .inl ⟨rfl, fun hempty => hempty⟩
  | released _ => exact .inl ⟨rfl, fun _ => rfl⟩
  | ported _ _ _ | leased _ _ _ | moved _ _ _ _ _ => exact .inr (.inl rfl)
  | attached verifier => exact .inr (.inr ⟨verifier, rfl, rfl⟩)
  | unknown _ _ _ _ _ | published _ _ _ _ _ _ _ _ =>
      refine .inl ⟨record_identity _, fun hempty => ?_⟩
      rw [(record_lease _).1]
      exact hempty

theorem DefaultPort.step (h : DefaultPort s) {call : Call} {answer : Answer}
    (hstep : s.step call = some (answer, s')) (hcall : KeepsPort call) : DefaultPort s' := by
  rcases identity_step hstep with ⟨hidentity, hlease⟩ | hidentity | ⟨verifier, hattach, hidentity⟩
  · rcases h with h | ⟨h, hempty⟩
    · exact .inl (hidentity.trans h)
    · exact .inr ⟨hidentity.trans h, hlease hempty⟩
  · exact .inl (hidentity.trans h.withIdentity)
  · exact .inl (by rw [hidentity, hcall verifier hattach])

end Port

variable [MemoryBacked σ]

/-- What holds along every run over a memory that was empty, under the default port. -/
structure Steady (s : ServiceState σ) : Prop where
  ruled : Ruled s
  addressed : Addressed s
  port : DefaultPort s

theorem Steady.step (h : Steady s) {call : Call} {answer : Answer}
    (hstep : s.step call = some (answer, s')) (hcall : KeepsPort call) : Steady s' :=
  ⟨h.ruled.step hstep, (registryStep hstep).addressed h.addressed, h.port.step hstep hcall⟩

theorem steady_of_run {store : σ} {trs : List (ServiceTransition σ)}
    (hempty : (MemoryBacked.memory store).revisions = [])
    (hrun : ServiceRun (ServiceState.start store) trs t) (hport : ∀ tr ∈ trs, KeepsPort tr.action) :
    Steady t := by
  refine hrun.invariant hport ?_ fun _ hvalid hcall hbefore => hbefore.step hvalid hcall
  exact ⟨ruled_start hempty, addressed_start store, .inr ⟨rfl, rfl⟩⟩

/-! ## What a writer is left with -/

/-- All that a write through this handle depends on, besides the canonical head. -/
structure Undisturbed (handle : CognitionHandle) (s t : ServiceState σ) : Prop where
  store : t.store = s.store
  receipts : t.receipts = s.receipts
  activeGrantId : t.activeGrantId = s.activeGrantId
  grantActor : t.grantActor = s.grantActor
  entry : t.findLive handle = s.findLive handle

omit [Foundation] [MemoryBacked σ] in
theorem Undisturbed.refl (s : ServiceState σ) : Undisturbed handle s s := ⟨rfl, rfl, rfl, rfl, rfl⟩

omit [Foundation] [MemoryBacked σ] in
theorem Undisturbed.trans {u : ServiceState σ} (h : Undisturbed handle s t)
    (h' : Undisturbed handle t u) : Undisturbed handle s u :=
  ⟨h'.store.trans h.store, h'.receipts.trans h.receipts, h'.activeGrantId.trans h.activeGrantId,
    h'.grantActor.trans h.grantActor, h'.entry.trans h.entry⟩

theorem mem_live_of_ne {call : Call} (h : RegistryStep s s' call) (hentry : entry ∈ s.live)
    (hother : entry.isAt call.handle = false) : entry ∈ s'.live := by
  have hnot : ¬ entry.isAt call.handle = true := by simp [hother]
  cases h with
  | kept hlive _ => exact hlive ▸ hentry
  | retired hlive _ =>
      rw [hlive]
      exact (List.mem_eraseP_of_neg (p := fun live => live.isAt call.handle) hnot).mpr hentry
  | registered m _ _ hlive _ =>
      rw [hlive]
      exact List.mem_append_left _ hentry
  | replaced found m _ _ _ hlive _ =>
      rw [hlive]
      exact mem_updateFirst_of_neg hentry hnot

theorem findLive_of_ne {call : Call} (h : RegistryStep s s' call) (haddressed : Addressed s)
    (hfind : s.findLive handle = some entry) (hother : entry.isAt call.handle = false) :
    s'.findLive handle = some entry := by
  obtain ⟨hentry, hat⟩ := findLive_some hfind
  have howns := (haddressed.owns hentry).step h
  have hkept := mem_live_of_ne h hentry hother
  cases hafter : s'.findLive handle with
  | none =>
      have hnone := List.find?_eq_none.mp hafter entry hkept
      exact (hnone hat).elim
  | some found => rw [howns.findLive hat hafter]

/-- One activity of a reader leaves the writer with what it had. -/
theorem IsReader.call_undisturbed {lease : GrantId} {call : Call} {answer : Answer}
    (h : IsReader handle lease (.call call) (.answer answer))
    (hstep : s.step call = some (answer, s')) (hsteady : Steady s)
    (hhead : (CognitionStore.head s.store).isEmpty = false)
    (hlease : s.activeGrantId = lease) (hactive : lease.isEmpty = false)
    (hfind : s.findLive handle = some entry) : Undisturbed handle s s' := by
  have hsubmits := h.submits_eq_none hhead
  have hvalid : Transition.Valid ServiceState.step ⟨s, call, answer, s'⟩ := hstep
  have hkept : KeepsLease (⟨s, call, answer, s'⟩ : ServiceTransition σ) := by
    rcases lease_step hvalid with hkept | hdropped | hminted
    · exact hkept
    · obtain ⟨grant, haction, hid⟩ := hdropped.released
      obtain rfl : call = .releaseGrant grant := haction
      cases h with
      | releaseGrant _ hstale => exact (hstale (hid.trans hlease)).elim
    · have hinactive : s.activeGrantId.isEmpty = true := hminted.inactive
      rw [hlease, hactive] at hinactive
      simp at hinactive
  refine ⟨?_, ?_, hkept.activeGrantId, hkept.grantActor, ?_⟩
  · have hstore := step_store hstep
    rw [hsubmits] at hstore
    exact hstore
  · rcases receipts_step hstep with hsame | ⟨_, _, _, _, submission, -, -, -, -, -, hsome, -⟩
    · exact hsame
    · rw [hsubmits] at hsome
      simp at hsome
  · rw [hfind]
    exact findLive_of_ne (registryStep hstep) hsteady.addressed hfind
      (h.handle_ne (findLive_some hfind).2)

theorem readers_undisturbed {lease : GrantId}
    {trs : List (Transition (ServiceState σ) Activity Report)} (hrun : ActivityRun s trs t)
    (hreaders : ∀ tr ∈ trs, IsReader handle lease tr.action tr.answer) (hsteady : Steady s)
    (hhead : (CognitionStore.head s.store).isEmpty = false)
    (hlease : s.activeGrantId = lease) (hactive : lease.isEmpty = false)
    (hfind : s.findLive handle = some entry) : Steady t ∧ Undisturbed handle s t := by
  refine hrun.invariant (P := fun t => Steady t ∧ Undisturbed handle s t) hreaders
    ⟨hsteady, .refl s⟩ ?_
  rintro ⟨before, activity, report, after⟩ hvalid hreader ⟨hbefore, hsame⟩
  have hstep : before.act activity = some (report, after) := hvalid
  cases activity with
  | call call =>
      simp only [ServiceState.act] at hstep
      split at hstep
      · simp at hstep
      · next answer after' hcall =>
          obtain ⟨rfl, rfl⟩ := Prod.mk.inj (Option.some.inj hstep)
          have hcalled := hreader.call_undisturbed hcall hbefore (hsame.store ▸ hhead)
            (hsame.activeGrantId.trans hlease) hactive (hsame.entry.trans hfind)
          exact ⟨hbefore.step hcall hreader.keepsPort, hsame.trans hcalled⟩
  | readFromCognition pinned query | buildBundle pinned query | resolveView pinned viewId =>
      obtain ⟨-, rfl⟩ := Prod.mk.inj (Option.some.inj hstep)
      exact ⟨hbefore, hsame⟩

/-! ## The write -/

/-- The head of a store whose bytes decode is canonical, on whichever path. -/
theorem Steady.canonicalHead (h : Steady s)
    (hhead : (CognitionStore.head s.store).isEmpty = false) {head : Snapshot}
    (hdecodes : s.storedHead = .ok head) : ∃ governance, s.canonicalHead = some governance ∧
      governance.governance = makeGenesis.governance := by
  have hsome : ∃ governance, s.canonicalHead = some governance := by
    rw [canonicalHead_eq, if_neg (by simp [hhead])]
    cases s.liveHead with
    | none => exact ⟨head, by rw [hdecodes]; rfl⟩
    | some live => exact ⟨live.state, rfl⟩
  obtain ⟨governance, hcanonical⟩ := hsome
  exact ⟨governance, hcanonical, h.ruled.canonicalHead hcanonical⟩

/-- The gates see the same entry, and canonical heads that name the same principal. -/
theorem leaseGates_undisturbed {before after : Snapshot} (h : Undisturbed handle s t)
    (hs : s.canonicalHead = some before) (ht : t.canonicalHead = some after)
    (hsame : after.governance = before.governance)
    (hport : s.identity = some rootPrincipalVerifier)
    (hport' : t.identity = some rootPrincipalVerifier) (grant : ExecutionGrant) :
    (∃ halt, s.leaseGates handle grant = .error halt ∧ t.leaseGates handle grant = .error halt) ∨
    ∃ entry, s.leaseGates handle grant = .ok (entry, before) ∧
      t.leaseGates handle grant = .ok (entry, after) := by
  have hverifier : rootPrincipalVerifier s.grantActor after =
      rootPrincipalVerifier s.grantActor before := by
    simp only [rootPrincipalVerifier, hsame]
  simp only [leaseGates, h.entry, h.activeGrantId, h.grantActor, hs, ht, hport, hport', hverifier]
  cases s.findLive handle with
  | none => exact .inl ⟨_, rfl, rfl⟩
  | some entry =>
      dsimp only
      split
      · exact .inl ⟨_, rfl, rfl⟩
      · split
        · exact .inl ⟨_, rfl, rfl⟩
        · split
          · exact .inr ⟨entry, rfl, rfl⟩
          · exact .inl ⟨_, rfl, rfl⟩

theorem admission_undisturbed {before after : Snapshot} (h : Undisturbed handle s t)
    (hs : s.canonicalHead = some before) (ht : t.canonicalHead = some after)
    (hsame : after.governance = before.governance)
    (hport : s.identity = some rootPrincipalVerifier)
    (hport' : t.identity = some rootPrincipalVerifier) (transaction : ContextTransaction)
    (grant : ExecutionGrant) :
    t.admission handle transaction grant = s.admission handle transaction grant := by
  unfold admission
  rcases leaseGates_undisturbed h hs ht hsame hport hport' grant with ⟨halt, hleft, hright⟩ |
    ⟨entry, hleft, hright⟩
  · rw [hleft, hright]
    rfl
  · rw [hleft, hright]
    simp only [bind, Except.bind, hsame, h.grantActor]

/-- The materialization, wherever it was allocated. -/
def Materialization.content (m : Materialization) : Materialization := { m with address := 0 }

/-- What a write decides and leaves in the store; its crash is no result. -/
def observed (result : Option (Verdict × ServiceState σ)) : Option (Verdict × σ) :=
  result.map fun written =>
    ({ written.1 with successor := written.1.successor.map Materialization.content },
      written.2.store)

theorem commit_undisturbed (h : t.store = s.store) (handle : CognitionHandle)
    (entry : Materialization) (transaction : ContextTransaction) (next : Snapshot) :
    observed (some (t.commit handle entry transaction next)) =
      observed (some (s.commit handle entry transaction next)) := by
  unfold commit
  rw [h]
  dsimp only
  split <;> simp [observed, replaceEntry, successorMaterialization, Materialization.content]

theorem write_undisturbed (h : Undisturbed handle s t)
    (hadmission : t.admission handle transaction grant = s.admission handle transaction grant) :
    observed (t.writeToCognition handle transaction grant) =
      observed (s.writeToCognition handle transaction grant) := by
  have hkey : t.resolveKey transaction = s.resolveKey transaction := by
    simp only [resolveKey, h.receipts]
  simp only [writeToCognition, hkey, hadmission]
  cases s.resolveKey transaction with
  | some verdict => simp [observed, h.store]
  | none =>
      cases s.admission handle transaction grant with
      | error halt =>
          cases halt with
          | refuse reason => simp [observed, h.store]
          | crash => rfl
      | ok admitted =>
          obtain ⟨entry, next⟩ := admitted
          cases next with
          | none => simp [observed, h.store]
          | some next => exact commit_undisturbed h.store handle entry transaction next

/-- From any state of a service that began with an empty memory and kept its
default port, whose head decodes: after any activities of readers a holder of
the lease and of a registered handle writes as before them, for every
transaction. Verdict, revision, successor and stored bytes are the same. -/
theorem readers_preserve_writer {store : σ} {trs : List (ServiceTransition σ)}
    {reads : List (Transition (ServiceState σ) Activity Report)} {head : Snapshot}
    (hempty : (MemoryBacked.memory store).revisions = [])
    (hrun : ServiceRun (ServiceState.start store) trs s)
    (hport : ∀ tr ∈ trs, KeepsPort tr.action)
    (hhead : (CognitionStore.head s.store).isEmpty = false) (hdecodes : s.storedHead = .ok head)
    (hactive : grant.id.isEmpty = false) (hlease : s.activeGrantId = grant.id)
    (hregistered : s.findLive handle = some entry) (hreads : ActivityRun s reads t)
    (hreaders : ∀ tr ∈ reads, IsReader handle grant.id tr.action tr.answer)
    (transaction : ContextTransaction) :
    observed (t.writeToCognition handle transaction grant) =
      observed (s.writeToCognition handle transaction grant) := by
  have hsteady := steady_of_run hempty hrun hport
  obtain ⟨hafter, hsame⟩ :=
    readers_undisturbed hreads hreaders hsteady hhead hlease hactive hregistered
  have hdecodes' : t.storedHead = .ok head := by
    rw [storedHead, hsame.store]
    exact hdecodes
  obtain ⟨before, hs, hbefore⟩ := hsteady.canonicalHead hhead hdecodes
  obtain ⟨after, ht, hgoverned⟩ := hafter.canonicalHead (hsame.store ▸ hhead) hdecodes'
  refine write_undisturbed hsame (admission_undisturbed hsame hs ht ?_ ?_ ?_ transaction grant)
  · exact hgoverned.trans hbefore.symm
  · exact hsteady.port.leased (by rw [hlease]; exact hactive)
  · exact hafter.port.leased (by rw [hsame.activeGrantId, hlease]; exact hactive)

end Readers

open scoped QivenContext.Reference in
/-- A reader boots beside a writer, whose write is applied all the same. -/
theorem booted_writer_preserved :
    ∃ (s t t' : ServiceState MemoryStore) (m reader : Materialization) (verdict : Verdict),
      s.act (.call (.createCognition {})) = some (.answer (.created (.handle reader)), t) ∧
      t.writeToCognition (some m) (keyedEvidence m.revision) firstGrant = some (verdict, t') ∧
      verdict.outcome = .applied := by
  obtain ⟨trs, s, m, hrun, honHead, hstate, -, hrevisions, hreceipts, hactions, -⟩ := exists_onHead
  obtain ⟨s', m', hwrote, -⟩ :=
    honHead.writeEvidence (hstate ▸ genesis_quiet) (keyedEvidence m.revision)
      (resolveKey_fresh (hreceipts _)) rfl (by simp [keyedEvidence])
      (keyedEvidence_evidenceOnly _)
  have hport : ∀ tr ∈ trs, KeepsPort tr.action := by
    intro tr htr
    have haction := List.mem_map_of_mem (f := Transition.action) htr
    rw [hactions] at haction
    rcases List.mem_pair.mp haction with haction | haction <;> rw [haction] <;> simp [KeepsPort]
  have hhead : (CognitionStore.head s.store).isEmpty = false := by
    have hnamed : s.store.head ≠ {} := honHead.head ▸ honHead.named
    exact Bool.eq_false_iff.mpr fun hempty => hnamed (RevisionId.isEmpty_iff.mp hempty)
  have hdecodes : s.storedHead = .ok makeGenesis := by
    have hbytes : s.store.materialize s.store.head = serializeSnapshot makeGenesis := by
      rw [honHead.head, MemoryStore.materialize, hrevisions]
      simp
    exact (congrArg deserialize hbytes).trans deserialize_genesis
  obtain ⟨reader, t, hboot, -⟩ := honHead.boot hdecodes rfl
  have hact : s.act (.call (.createCognition {})) =
      some (.answer (.created (.handle reader)), t) := by
    simp only [ServiceState.act, hboot]
  have hvalid : Transition.Valid ServiceState.act
      ⟨s, .call (.createCognition {}), .answer (.created (.handle reader)), t⟩ := hact
  have hsame := readers_preserve_writer rfl hrun hport hhead hdecodes (grantIdOf_isEmpty 1)
    honHead.lease honHead.findLive (Run.single hvalid)
    (by simpa using IsReader.createCognition {} _) (keyedEvidence m.revision)
  obtain ⟨verdict, hanswer, hwrite⟩ := step_writeToCognition hwrote.step
  obtain rfl := Answer.verdict.inj hanswer
  rw [hwrite] at hsame
  cases hafter : t.writeToCognition (some m) (keyedEvidence m.revision) firstGrant with
  | none =>
      rw [hafter] at hsame
      simp [observed] at hsame
  | some written =>
      obtain ⟨verdict, t'⟩ := written
      refine ⟨s, t, t', m, reader, verdict, hact, hafter, ?_⟩
      rw [hafter] at hsame
      have hverdict := congrArg (fun result => result.1.outcome) (Option.some.inj hsame)
      exact hverdict

end QivenContext
