import QivenContext.Library.Lockstep
import QivenContext.Readers

/-!
# Names that grant nothing

The role, the reasoning effort and the session designation of an actor are
carried for audit. No gate of the service looks at them: two runs whose actors
differ in these names only keep in lockstep, verdict by verdict, under every
identity port that does not look at them either.
-/

namespace QivenContext

open Library ServiceState

/-- The actors differ at most in their role, reasoning effort and designation. -/
structure AuthenticatedActor.Alike (actor other : AuthenticatedActor) : Prop where
  principal : other.principal = actor.principal
  binding : other.binding = actor.binding
  servingModel : other.servingModel = actor.servingModel

theorem AuthenticatedActor.Alike.refl (actor : AuthenticatedActor) : actor.Alike actor :=
  ⟨rfl, rfl, rfl⟩

/-- The port decides without the names. -/
def LabelBlind (verifier : IdentityVerifier) : Prop :=
  ∀ actor other governance, actor.Alike other →
    verifier other governance = verifier actor governance

theorem rootPrincipalVerifier_blind : LabelBlind rootPrincipalVerifier := by
  intro actor other governance h
  simp only [rootPrincipalVerifier, h.principal, h.binding, h.servingModel]

/-- The same call, with actors that go by other names; a port that is attached
does not look at the names. -/
inductive Relabelled : Call → Call → Prop
  | acquireGrant {actor other : AuthenticatedActor} (h : actor.Alike other) (mode : WorkMode) :
      Relabelled (.acquireGrant actor mode) (.acquireGrant other mode)
  | verifyRestored {actor other : AuthenticatedActor} (handle : CognitionHandle)
      (h : actor.Alike other) :
      Relabelled (.verifyRestored handle actor) (.verifyRestored handle other)
  | promoteAuthority {actor other : AuthenticatedActor} (handle : CognitionHandle)
      (h : actor.Alike other) :
      Relabelled (.promoteAuthority handle actor) (.promoteAuthority handle other)
  | attachIdentityVerifier (verifier : Option IdentityVerifier)
      (h : ∀ attached, verifier = some attached → LabelBlind attached) :
      Relabelled (.attachIdentityVerifier verifier) (.attachIdentityVerifier verifier)
  | createCognition (source : CognitionSource) :
      Relabelled (.createCognition source) (.createCognition source)
  | retireCognition (handle : CognitionHandle) :
      Relabelled (.retireCognition handle) (.retireCognition handle)
  | releaseGrant (grant : ExecutionGrant) :
      Relabelled (.releaseGrant grant) (.releaseGrant grant)
  | writeToCognition (handle : CognitionHandle) (transaction : ContextTransaction)
      (grant : ExecutionGrant) : Relabelled (.writeToCognition handle transaction grant)
        (.writeToCognition handle transaction grant)
  | canonicalHead : Relabelled .canonicalHead .canonicalHead
  | currentEpoch : Relabelled .currentEpoch .currentEpoch

section Service

variable {σ : Type} {s t : ServiceState σ} {actor other : AuthenticatedActor}

/-- The state with another lease actor. -/
def ServiceState.leasedTo (s : ServiceState σ) (actor : AuthenticatedActor) : ServiceState σ :=
  { s with grantActor := actor }

/-- The states differ at most in the names of the lease actor, and the port
does not look at names. -/
structure SameButNames (s t : ServiceState σ) : Prop where
  blind : ∀ verifier, s.identity = some verifier → LabelBlind verifier
  alike : s.grantActor.Alike t.grantActor
  same : t = s.leasedTo t.grantActor

theorem SameButNames.intro (hblind : ∀ verifier, s.identity = some verifier → LabelBlind verifier)
    (halike : s.grantActor.Alike other) : SameButNames s (s.leasedTo other) :=
  ⟨hblind, halike, rfl⟩

theorem SameButNames.exists_actor (h : SameButNames s t) :
    ∃ other, s.grantActor.Alike other ∧ t = s.leasedTo other :=
  ⟨t.grantActor, h.alike, h.same⟩

variable [Foundation] [CognitionStore σ]

/-! ## One call -/

omit [CognitionStore σ] in
theorem mint_leasedTo (bytes : Bytes) (revision : RevisionId) (quarantine : QuarantineState) :
    (s.leasedTo other).mint bytes revision quarantine =
      ((s.mint bytes revision quarantine).1,
        (s.mint bytes revision quarantine).2.leasedTo other) := by
  unfold mint
  split
  · rfl
  · split <;> rfl

omit [Foundation] in
theorem loadCanonical_leasedTo (source : CognitionSource) :
    (s.leasedTo other).loadCanonical source =
      ((s.loadCanonical source).1, (s.loadCanonical source).2.leasedTo other) := by
  unfold loadCanonical
  have hid : (s.leasedTo other).bootId source = s.bootId source := rfl
  have hstore : (s.leasedTo other).store = s.store := rfl
  simp only [hid, hstore]
  split
  · rfl
  · split <;> rfl

theorem createCognition_leasedTo (source : CognitionSource) :
    (s.leasedTo other).createCognition source =
      ((s.createCognition source).1, (s.createCognition source).2.leasedTo other) := by
  unfold createCognition
  cases source.kind with
  | canonicalRemote =>
      simp only [loadCanonical_leasedTo]
      rcases s.loadCanonical source with ⟨loaded, s'⟩
      cases loaded with
      | error error => rfl
      | ok loaded => simp only [mint_leasedTo]
  | handoffArtifact =>
      cases loadArtifact source with
      | error error => rfl
      | ok bytes => simp only [mint_leasedTo]
  | compressedStream => rfl

omit [CognitionStore σ] in
theorem record_leasedTo (transaction : ContextTransaction) (verdict : Verdict) :
    (s.leasedTo other).record transaction verdict =
      (s.record transaction verdict).leasedTo other := by
  unfold record
  split <;> rfl

theorem commit_leasedTo (handle : CognitionHandle) (entry : Materialization)
    (transaction : ContextTransaction) (next : Snapshot) :
    (s.leasedTo other).commit handle entry transaction next =
      ((s.commit handle entry transaction next).1,
        (s.commit handle entry transaction next).2.leasedTo other) := by
  unfold commit
  have hstore : (s.leasedTo other).store = s.store := rfl
  rw [hstore]
  dsimp only
  split
  · rfl
  · exact congrArg (Prod.mk _) (record_leasedTo (s := { s with store := _ }) transaction _)
  · exact congrArg (Prod.mk _) (record_leasedTo
      (s := ({ s with store := _ } : ServiceState σ).replaceEntry handle _) transaction _)

/-- The gates ask the port and compare the binding, and see the same. -/
theorem admission_leasedTo (h : s.grantActor.Alike other)
    (hblind : ∀ verifier, s.identity = some verifier → LabelBlind verifier)
    (handle : CognitionHandle) (transaction : ContextTransaction) (grant : ExecutionGrant) :
    (s.leasedTo other).admission handle transaction grant =
      s.admission handle transaction grant := by
  have hgates : (s.leasedTo other).leaseGates handle grant = s.leaseGates handle grant := by
    have hhead : (s.leasedTo other).canonicalHead = s.canonicalHead := rfl
    have hfind : (s.leasedTo other).findLive handle = s.findLive handle := rfl
    have hactive : (s.leasedTo other).activeGrantId = s.activeGrantId := rfl
    have hidentity : (s.leasedTo other).identity = s.identity := rfl
    have hactor : (s.leasedTo other).grantActor = other := rfl
    simp only [leaseGates, hhead, hfind, hactive, hidentity, hactor]
    cases s.canonicalHead with
    | none => rfl
    | some governance =>
        cases hport : s.identity with
        | none => rfl
        | some verifier =>
            have hsame : verifier other governance = verifier s.grantActor governance :=
              hblind verifier hport _ _ governance h
            simp only [hsame]
  have hbinding : (s.leasedTo other).grantActor.binding = s.grantActor.binding := h.binding
  unfold admission
  rw [hgates]
  simp only [hbinding]

theorem writeToCognition_leasedTo (h : s.grantActor.Alike other)
    (hblind : ∀ verifier, s.identity = some verifier → LabelBlind verifier)
    (handle : CognitionHandle) (transaction : ContextTransaction) (grant : ExecutionGrant) :
    (s.leasedTo other).writeToCognition handle transaction grant =
      (s.writeToCognition handle transaction grant).map
        fun written => (written.1, written.2.leasedTo other) := by
  have hkey : (s.leasedTo other).resolveKey transaction = s.resolveKey transaction := rfl
  simp only [writeToCognition, hkey, admission_leasedTo h hblind]
  split
  · rfl
  · split
    · rfl
    · rfl
    · rfl
    · exact congrArg some (commit_leasedTo _ _ _ _)

omit [Foundation] [CognitionStore σ] in
theorem blind_withIdentity (hblind : ∀ verifier, s.identity = some verifier → LabelBlind verifier) :
    ∀ verifier, s.withIdentity.identity = some verifier → LabelBlind verifier := by
  intro verifier hport
  cases hidentity : s.identity with
  | none =>
      obtain rfl : rootPrincipalVerifier = verifier := by
        simpa [withIdentity, hidentity] using hport
      exact rootPrincipalVerifier_blind
  | some attached =>
      obtain rfl : attached = verifier := by simpa [withIdentity, hidentity] using hport
      exact hblind attached hidentity

/-- The port takes actors that are alike for the same. -/
theorem verifies_alike (hblind : ∀ verifier, s.identity = some verifier → LabelBlind verifier)
    (lessee : AuthenticatedActor) (h : actor.Alike other) :
    (s.leasedTo lessee).withIdentity.verifies other = s.withIdentity.verifies actor := by
  have hhead : (s.leasedTo lessee).withIdentity.canonicalHead = s.withIdentity.canonicalHead := rfl
  have hport : (s.leasedTo lessee).withIdentity.identity = s.withIdentity.identity := rfl
  unfold verifies
  rw [hhead, hport]
  cases s.withIdentity.canonicalHead with
  | none => rfl
  | some governance =>
      cases hidentity : s.withIdentity.identity with
      | none => rfl
      | some verifier => exact blind_withIdentity hblind verifier hidentity _ _ governance h

theorem moveQuarantine_leasedTo
    (hblind : ∀ verifier, s.identity = some verifier → LabelBlind verifier)
    (lessee : AuthenticatedActor) (h : actor.Alike other) (handle : CognitionHandle)
    (source target : QuarantineState) :
    (s.leasedTo lessee).moveQuarantine handle other source target =
      ((s.moveQuarantine handle actor source target).1,
        (s.moveQuarantine handle actor source target).2.leasedTo lessee) := by
  unfold moveQuarantine
  have hfind : (s.leasedTo lessee).withIdentity.findLive handle =
      s.withIdentity.findLive handle := rfl
  simp only [verifies_alike hblind lessee h, hfind]
  split
  · rfl
  · split
    · rfl
    · split <;> rfl

omit [Foundation] [CognitionStore σ] in
theorem releaseGrant_leasedTo (h : s.grantActor.Alike other) (grant : ExecutionGrant) :
    ∃ lessee, (s.releaseGrant grant).grantActor.Alike lessee ∧
      (s.leasedTo other).releaseGrant grant = (s.releaseGrant grant).leasedTo lessee := by
  have hactive : (s.leasedTo other).activeGrantId = s.activeGrantId := rfl
  unfold releaseGrant
  rw [hactive]
  split
  · exact ⟨{}, .refl _, rfl⟩
  · exact ⟨other, h, rfl⟩

/-- The same grant goes to whoever is alike. -/
theorem acquireGrant_leasedTo
    (hblind : ∀ verifier, s.identity = some verifier → LabelBlind verifier)
    {lessee : AuthenticatedActor} (hlessee : s.grantActor.Alike lessee) (h : actor.Alike other)
    (mode : WorkMode) :
    ∃ lessee', (s.acquireGrant actor mode).2.grantActor.Alike lessee' ∧
      (s.leasedTo lessee).acquireGrant other mode =
        ((s.acquireGrant actor mode).1, (s.acquireGrant actor mode).2.leasedTo lessee') := by
  have hactive : (s.leasedTo lessee).activeGrantId = s.activeGrantId := rfl
  have hprincipal := h.principal
  unfold acquireGrant
  simp only [hactive, verifies_alike hblind lessee h, hprincipal]
  split
  · exact ⟨lessee, hlessee, rfl⟩
  · split
    · exact ⟨lessee, hlessee, rfl⟩
    · exact ⟨other, h, rfl⟩

/-! ## Whole runs -/

theorem Relabelled.blind_step {call call' : Call} {answer : Answer} (h : Relabelled call call')
    (hblind : ∀ verifier, s.identity = some verifier → LabelBlind verifier)
    (hstep : s.step call = some (answer, t)) :
    ∀ verifier, t.identity = some verifier → LabelBlind verifier := by
  intro verifier hport
  rcases identity_step hstep with ⟨hkept, -⟩ | hkept | ⟨attached, rfl, hattached⟩
  · exact hblind verifier (hkept ▸ hport)
  · exact blind_withIdentity hblind verifier (hkept ▸ hport)
  · cases h with
    | attachIdentityVerifier _ hverifier =>
        obtain rfl := Option.some.inj (hattached.symm.trans hport)
        cases attached with
        | none => exact rootPrincipalVerifier_blind
        | some attached => exact hverifier attached rfl

/-- Only the calls on the lease change whose it is. -/
theorem grantActor_kept {call : Call} {answer : Answer} (hstep : s.step call = some (answer, t))
    (hacquire : ∀ actor mode, call ≠ .acquireGrant actor mode)
    (hrelease : ∀ grant, call ≠ .releaseGrant grant) : t.grantActor = s.grantActor := by
  have hvalid : Transition.Valid ServiceState.step ⟨s, call, answer, t⟩ := hstep
  rcases lease_step hvalid with hkept | hdropped | hminted
  · exact hkept.grantActor
  · obtain ⟨grant, haction, -⟩ := hdropped.released
    exact (hrelease grant haction).elim
  · obtain ⟨mode, grant, haction, -⟩ := hminted.minted
    exact (hacquire _ mode haction).elim

/-- One call and its relabelling return together, with the same answer. -/
theorem step_leasedTo {lessee : AuthenticatedActor} {call call' : Call}
    (hcall : Relabelled call call') (halike : s.grantActor.Alike lessee)
    (hblind : ∀ verifier, s.identity = some verifier → LabelBlind verifier) :
    ((∀ actor mode, call ≠ .acquireGrant actor mode) ∧ (∀ grant, call ≠ .releaseGrant grant) ∧
      (s.leasedTo lessee).step call' =
        (s.step call).map fun result => (result.1, result.2.leasedTo lessee)) ∨
    ∃ answer s' lessee', s.step call = some (answer, s') ∧ s'.grantActor.Alike lessee' ∧
      (s.leasedTo lessee).step call' = some (answer, s'.leasedTo lessee') := by
  cases hcall with
  | acquireGrant hactor mode =>
      obtain ⟨lessee', halike', hacquire⟩ := acquireGrant_leasedTo hblind halike hactor mode
      exact .inr ⟨.granted (s.acquireGrant _ mode).1, (s.acquireGrant _ mode).2, lessee', rfl,
        halike', by simp only [step, hacquire]⟩
  | releaseGrant grant =>
      obtain ⟨lessee', halike', hrelease⟩ := releaseGrant_leasedTo halike grant
      exact .inr ⟨.done, s.releaseGrant grant, lessee', rfl, halike',
        by simp only [step, hrelease]⟩
  | createCognition source =>
      refine .inl ⟨by simp, by simp, ?_⟩
      simp only [step, createCognition_leasedTo, Option.map_some]
  | retireCognition handle =>
      refine .inl ⟨by simp, by simp, ?_⟩
      have hlive : (s.leasedTo lessee).live = s.live := rfl
      simp only [step, retireCognition, hlive]
      split <;> rfl
  | writeToCognition handle transaction grant =>
      refine .inl ⟨by simp, by simp, ?_⟩
      simp only [step, writeToCognition_leasedTo halike hblind]
      cases s.writeToCognition handle transaction grant <;> rfl
  | verifyRestored handle hactor =>
      refine .inl ⟨by simp, by simp, ?_⟩
      simp only [step, verifyRestored, moveQuarantine_leasedTo hblind lessee hactor,
        Option.map_some]
  | promoteAuthority handle hactor =>
      refine .inl ⟨by simp, by simp, ?_⟩
      simp only [step, promoteAuthority, moveQuarantine_leasedTo hblind lessee hactor,
        Option.map_some]
  | attachIdentityVerifier _ _ | canonicalHead | currentEpoch => exact .inl ⟨by simp, by simp, rfl⟩

theorem lockstep_relabelled :
    Lockstep (ServiceState.step (σ := σ)) ServiceState.step SameButNames Relabelled Eq := by
  intro s t call call' hsame hcall
  obtain ⟨lessee, halike, rfl⟩ := hsame.exists_actor
  rcases step_leasedTo hcall halike hsame.blind with ⟨hacquire, hrelease, hstep'⟩ |
    ⟨answer, s', lessee', hstep, halike', hstep'⟩
  · rw [hstep']
    cases hstep : s.step call with
    | none => exact .none
    | some result =>
        refine .some ⟨rfl, .intro (hcall.blind_step hsame.blind hstep) ?_⟩
        rw [grantActor_kept hstep hacquire hrelease]
        exact halike
  · rw [hstep', hstep]
    exact .some ⟨rfl, .intro (hcall.blind_step hsame.blind hstep) halike'⟩

/-- A run whose actors go by other roles, reasoning efforts and designations is
answered the same, call by call, and leaves the same but for the names of who
holds the lease. -/
theorem names_grant_nothing {store : σ} {trs : List (ServiceTransition σ)}
    (hrun : ServiceRun (ServiceState.start store) trs t) {calls : List Call}
    (hcalls : List.Forall₂ (fun tr call => Relabelled (Transition.action tr) call) trs calls) :
    ∃ trs' t', ServiceRun (ServiceState.start store) trs' t' ∧
      trs'.map Transition.action = calls ∧
      trs'.map Transition.answer = trs.map Transition.answer ∧
      List.Forall₂ (fun tr tr' => SameButNames tr.after tr'.after) trs trs' ∧
      SameButNames t t' := by
  obtain ⟨trs', t', hrun', hactions, hinstep, hlast⟩ := lockstep_relabelled.exists_run hrun
    (.intro (by simp [ServiceState.start]) (.refl _)) hcalls
  exact ⟨trs', t', hrun', hactions, Lockstep.answers_eq hinstep,
    hinstep.imp fun _ _ h => h.after, hlast⟩

end Service

open scoped QivenContext.Reference

/-- The root actor in another role, under a session designation. -/
def designatedActor : AuthenticatedActor :=
  { rootActor with role := .owner, designation := lit "jason-extended-cognition" }

theorem designated_lease :
    ∃ (trs trs' : List (ServiceTransition MemoryStore)) (t t' : ServiceState MemoryStore),
      ServiceRun (ServiceState.start {}) trs t ∧ ServiceRun (ServiceState.start {}) trs' t' ∧
        trs'.map Transition.action =
          [.createCognition {}, .acquireGrant designatedActor .supervisedForeground] ∧
        trs'.map Transition.answer = trs.map Transition.answer ∧ SameButNames t t' := by
  obtain ⟨trs, t, m, hrun, -, -, -, -, -, hactions, -⟩ := exists_onHead
  have hcalls : List.Forall₂ (fun tr call => Relabelled (Transition.action tr) call) trs
      [.createCognition {}, .acquireGrant designatedActor .supervisedForeground] := by
    rw [← List.forall₂_map_left_iff (f := Transition.action), hactions]
    have halike : rootActor.Alike designatedActor := ⟨rfl, rfl, rfl⟩
    exact .cons (.createCognition {}) (.cons (.acquireGrant halike _) .nil)
  obtain ⟨trs', t', hrun', hactions', hanswers, -, hlast⟩ := names_grant_nothing hrun hcalls
  exact ⟨trs, trs', t, t', hrun, hrun', hactions', hanswers, hlast⟩

end QivenContext
