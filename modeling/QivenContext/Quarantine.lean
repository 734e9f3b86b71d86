import QivenContext.Participants
import QivenContext.Reference
import QivenContext.Steps

/-!
# Quarantine

What an artifact restores is isolated. It can be verified, and no call takes
it further: nothing ever waits for authority, so nothing is promoted, and the
gates in front of the store, of the canonical head and of the loop keep a
quarantined materialization out.
-/

namespace QivenContext

open Library ServiceState

section Quarantine

variable [Foundation] {σ : Type} [CognitionStore σ] {s s' t : ServiceState σ}
  {trs past : List (ServiceTransition σ)} {tr : ServiceTransition σ} {handle : CognitionHandle}
  {m m₀ : Materialization}

/-- The materialization was restored from an artifact, or came to stand in the
registry by a call on a handle to one that was. -/
inductive FromArtifact : List (ServiceTransition σ) → Materialization → Prop
  | restored (past : List (ServiceTransition σ)) (tr : ServiceTransition σ)
      {source : CognitionSource} {m : Materialization}
      (haction : tr.action = .createCognition source) (hkind : source.kind = .handoffArtifact)
      (hanswer : tr.answer = .created (.handle m)) : FromArtifact (past ++ [tr]) m
  | replaced (past : List (ServiceTransition σ)) (tr : ServiceTransition σ)
      {m₀ m : Materialization} (h : FromArtifact past m₀)
      (hat : m₀.isAt tr.action.handle = true) (hnew : m ∈ tr.after.live)
      (hfresh : m ∉ tr.before.live) : FromArtifact (past ++ [tr]) m
  | earlier (past : List (ServiceTransition σ)) (tr : ServiceTransition σ)
      {m : Materialization} (h : FromArtifact past m) : FromArtifact (past ++ [tr]) m

omit [Foundation] [CognitionStore σ] in
theorem FromArtifact.ne_nil (h : FromArtifact trs m) : trs ≠ [] := by
  cases h <;> simp

omit [Foundation] [CognitionStore σ] in
theorem FromArtifact.snoc_inv (h : FromArtifact (past ++ [tr]) m) :
    FromArtifact past m ∨
    (∃ source, tr.action = .createCognition source ∧ source.kind = .handoffArtifact ∧
      tr.answer = .created (.handle m)) ∨
    ∃ m₀, FromArtifact past m₀ ∧ m₀.isAt tr.action.handle = true ∧ m ∈ tr.after.live ∧
      m ∉ tr.before.live := by
  generalize hall : past ++ [tr] = all at h
  cases h with
  | restored past' tr' haction hkind hanswer =>
      obtain ⟨rfl, hlast⟩ := List.append_inj' hall rfl
      obtain rfl := List.head_eq_of_cons_eq hlast
      exact .inr (.inl ⟨_, haction, hkind, hanswer⟩)
  | replaced past' tr' h hat hnew hfresh =>
      obtain ⟨rfl, hlast⟩ := List.append_inj' hall rfl
      obtain rfl := List.head_eq_of_cons_eq hlast
      exact .inr (.inr ⟨_, h, hat, hnew, hfresh⟩)
  | earlier past' tr' h =>
      obtain ⟨rfl, hlast⟩ := List.append_inj' hall rfl
      exact .inl h

/-! ## The registry -/

/-- In quarantine, and at no revision of the store. -/
structure Quarantined (m : Materialization) : Prop where
  state : m.quarantine = .isolated ∨ m.quarantine = .verified
  revision : m.revision = {}

omit [Foundation] in
theorem Quarantined.ne_promoted (h : Quarantined m) : m.quarantine ≠ .promoted := by
  rcases h.state with hstate | hstate <;> simp [hstate]

omit [Foundation] in
theorem Quarantined.ne_pending (h : Quarantined m) : m.quarantine ≠ .authorityPending := by
  rcases h.state with hstate | hstate <;> simp [hstate]

/-- Every registry entry is promoted or in quarantine. -/
def Settled (s : ServiceState σ) : Prop :=
  ∀ m ∈ s.live, m.quarantine = .promoted ∨ Quarantined m

omit [Foundation] [CognitionStore σ] in
theorem Settled.ne_pending (h : Settled s) (hm : m ∈ s.live) :
    m.quarantine ≠ .authorityPending := by
  rcases h m hm with hpromoted | hquarantined
  · simp [hpromoted]
  · exact hquarantined.ne_pending

theorem ServiceState.NewEntry.settled {call : Call} (h : NewEntry s call m) (hsettled : Settled s) :
    m.quarantine = .promoted ∨ Quarantined m := by
  cases h with
  | artifact _ => exact .inr ⟨.inl rfl, rfl⟩
  | booted _ _ _ => exact .inl rfl
  | genesis _ => exact .inl rfl
  | successor hsubmits _ =>
      obtain ⟨_, _, _, -, -, -, hadmitted⟩ := submits_write hsubmits
      exact .inl hadmitted.promoted
  | @verified _ _ entry hlive hisolated =>
      rcases hsettled entry hlive with hpromoted | hquarantined
      · simp [hisolated] at hpromoted
      · exact .inr ⟨.inr rfl, hquarantined.revision⟩
  | promoted hlive hpending => exact absurd hpending (hsettled.ne_pending hlive)

theorem settled_of_run {store : σ} (hrun : ServiceRun (ServiceState.start store) trs t) :
    Settled t := by
  refine hrun.invariant (C := fun _ => True) (fun _ _ => trivial)
    (by simp [Settled, ServiceState.start]) ?_
  intro tr hvalid _ hbefore m hm
  rcases mem_live_step hvalid hm with hm | hnew
  · exact hbefore m hm
  · exact hnew.settled hbefore

/-! ## The lineage of an artifact -/

theorem quarantined_of_restored {creation : Creation} {source : CognitionSource}
    (h : s.createCognition source = (creation, s')) (hkind : source.kind = .handoffArtifact)
    (hhandle : creation = .handle m) : Quarantined m ∧ m ∈ s'.live := by
  subst hhandle
  rcases createCognition_artifact hkind h with ⟨-, hnone⟩ | ⟨snapshot, new, -, rfl, hnew, rfl⟩
  · exact absurd rfl (hnone m)
  · obtain rfl := Creation.handle.inj hnew
    exact ⟨⟨.inl rfl, rfl⟩, by simp [register]⟩

/-- A call on a handle to a quarantined materialization leaves what it finds
there in quarantine. -/
theorem quarantined_of_replaced {call : Call} {answer : Answer}
    (h : s.step call = some (answer, s')) (hsettled : Settled s) (howns : Owns s m₀)
    (hquarantined : Quarantined m₀) (hat : m₀.isAt call.handle = true) (hnew : m ∈ s'.live)
    (hfresh : m ∉ s.live) : Quarantined m := by
  have hentry : NewEntry s call m := (mem_live_step h hnew).resolve_left hfresh
  cases hentry with
  | artifact _ => simp [Call.handle] at hat
  | booted _ _ _ => simp [Call.handle] at hat
  | genesis _ => simp [Call.handle] at hat
  | successor hsubmits _ =>
      obtain ⟨_, _, _, hcall, -, -, hadmitted⟩ := submits_write hsubmits
      obtain ⟨rfl, -, -⟩ := Call.writeToCognition.inj hcall
      obtain rfl := howns.findLive hat hadmitted.live
      exact absurd hadmitted.promoted hquarantined.ne_promoted
  | @verified _ _ entry hlive hisolated =>
      rcases hsettled entry hlive with hpromoted | hentry
      · simp [hisolated] at hpromoted
      · exact ⟨.inr rfl, hentry.revision⟩
  | promoted hlive hpending => exact absurd hpending (hsettled.ne_pending hlive)

/-- Whatever goes back to an artifact is in quarantine, and its address is its own. -/
theorem fromArtifact_of_run {store : σ} (hrun : ServiceRun (ServiceState.start store) trs t) :
    ∀ m, FromArtifact trs m → Quarantined m ∧ Owns t m := by
  refine hrun.history_induction
    (motive := fun trs t => ∀ m, FromArtifact trs m → Quarantined m ∧ Owns t m)
    (fun m h => absurd rfl h.ne_nil) ?_
  intro past tr hpast hvalid ih m h
  have haddressed := addressed_of_run (hpast.append (Run.single hvalid))
  rcases h.snoc_inv with hearlier | ⟨source, haction, hkind, hanswer⟩ |
    ⟨m₀, hm₀, hat, hnew, hfresh⟩
  · obtain ⟨hquarantined, howns⟩ := ih m hearlier
    exact ⟨hquarantined, howns.step (registryStep hvalid)⟩
  · have hstep : tr.before.step (.createCognition source) = some (tr.answer, tr.after) :=
      haction ▸ hvalid
    obtain ⟨creation, hcreation, hcreate⟩ := step_createCognition hstep
    have hhandle : creation = .handle m :=
      Answer.created.inj (hcreation.symm.trans hanswer)
    obtain ⟨hquarantined, hlive⟩ := quarantined_of_restored hcreate hkind hhandle
    exact ⟨hquarantined, haddressed.owns hlive⟩
  · obtain ⟨hquarantined, howns⟩ := ih m₀ hm₀
    exact ⟨quarantined_of_replaced hvalid (settled_of_run hpast) howns hquarantined hat hnew
      hfresh, haddressed.owns hnew⟩

/-! ## The doors -/

theorem not_admitted_of_quarantined (hquarantined : Quarantined m)
    (howns : Owns s m) (hat : m.isAt handle = true) {transaction : ContextTransaction}
    {grant : ExecutionGrant} {entry : Materialization} {next : Snapshot} :
    s.admission handle transaction grant ≠ .ok (entry, some next) := by
  intro h
  obtain ⟨governance, hadmitted⟩ := admission_eq_ok.mp h
  obtain rfl := howns.findLive hat hadmitted.live
  exact hquarantined.ne_promoted hadmitted.promoted

/-- A write through a handle to it reaches no store and publishes nothing. -/
theorem write_of_quarantined (hquarantined : Quarantined m) (howns : Owns s m)
    (hat : m.isAt handle = true) (transaction : ContextTransaction) (grant : ExecutionGrant) :
    s.submits (.writeToCognition handle transaction grant) = none ∧
      ∀ verdict s', s.writeToCognition handle transaction grant = some (verdict, s') →
        s' = s := by
  refine ⟨submits_eq_none_of_write (.inr fun entry next =>
    not_admitted_of_quarantined hquarantined howns hat), fun verdict s' h => ?_⟩
  rcases write_cases h with ⟨-, rfl⟩ | ⟨-, reason, -, rfl, -⟩ | ⟨-, rfl, -, -⟩ |
    ⟨-, entry, next, hadmission, -⟩
  · rfl
  · rfl
  · rfl
  · exact absurd hadmission (not_admitted_of_quarantined hquarantined howns hat)

theorem promoteAuthority_none (h : Settled s) (handle : CognitionHandle)
    (actor : AuthenticatedActor) : (s.promoteAuthority handle actor).1 = none := by
  rcases moveQuarantine_cases (rfl : s.moveQuarantine handle actor .authorityPending .promoted =
    (_, _)) with ⟨hnone, -⟩ | ⟨entry, new, hfind, hpending, -⟩
  · exact hnone
  · exact absurd hpending (h.ne_pending (findLive_some hfind).1)

theorem isContinueable_of_quarantined (h : Quarantined m)
    (human : Option Human) (client : Option LLMClientTool) (device : Option Device)
    (llm : Option LLM) : s.isContinueable human client device llm (some m) = false := by
  have hempty : m.revision.isEmpty = true := by simp [h.revision, RevisionId.isEmpty]
  unfold isContinueable
  split
  · next materialization hhandle =>
      obtain rfl := Option.some.inj hhandle
      simp [hempty]
  · rfl

/-- Under any store and any verifier, what goes back to an artifact stays in
quarantine without a revision; nothing waits for authority or is promoted; no
write through a handle to it reaches the store or publishes a successor; the
canonical head does not read it; and the loop may not go on with it. -/
theorem restore_never_authority {store : σ}
    (hrun : ServiceRun (ServiceState.start store) trs t) :
    (∀ m ∈ t.live, m.quarantine ≠ .authorityPending) ∧
    (∀ handle actor, (t.promoteAuthority handle actor).1 = none) ∧
    ∀ m, FromArtifact trs m →
      (m.quarantine = .isolated ∨ m.quarantine = .verified) ∧ m.revision = {} ∧
      (∀ handle transaction grant, m.isAt handle = true →
        t.submits (.writeToCognition handle transaction grant) = none ∧
          ∀ verdict s', t.writeToCognition handle transaction grant = some (verdict, s') →
            s' = t) ∧
      t.liveHead ≠ some m ∧
      ∀ human client device llm, t.isContinueable human client device llm (some m) = false := by
  have hsettled := settled_of_run hrun
  refine ⟨fun m hm => hsettled.ne_pending hm, promoteAuthority_none hsettled, fun m hm => ?_⟩
  obtain ⟨hquarantined, howns⟩ := fromArtifact_of_run hrun m hm
  refine ⟨hquarantined.state, hquarantined.revision, ?_, ?_, ?_⟩
  · intro handle transaction grant hat
    exact write_of_quarantined hquarantined howns hat transaction grant
  · exact fun hfind => hquarantined.ne_promoted (liveHead_some hfind).2.2
  · exact isContinueable_of_quarantined hquarantined

end Quarantine

open scoped QivenContext.Reference

/-- The bytes of genesis, handed over. -/
def genesisArtifact : CognitionSource where
  kind := .handoffArtifact
  inlineBytes := serializeSnapshot makeGenesis

theorem restored_genesis_never_authority :
    ∃ (trs : List (ServiceTransition MemoryStore)) (t : ServiceState MemoryStore)
      (m : Materialization),
      ServiceRun (ServiceState.start {}) trs t ∧ FromArtifact trs m ∧ m ∈ t.live ∧
        m.state = makeGenesis ∧ m.revision = {} ∧
        (∀ handle actor, (t.promoteAuthority handle actor).1 = none) ∧
        ∀ human client device llm, t.isContinueable human client device llm (some m) = false := by
  let s := ServiceState.start ({} : MemoryStore)
  let m := s.minted makeGenesis (serializeSnapshot makeGenesis) {} .isolated
  have hcreate : s.createCognition genesisArtifact = (.handle m, s.register m) := by
    have hload : loadArtifact genesisArtifact = .ok (serializeSnapshot makeGenesis) := rfl
    have hkind : genesisArtifact.kind = .handoffArtifact := rfl
    simp only [createCognition, hkind, hload, mint_genesis]
    rfl
  have hstep : s.step (.createCognition genesisArtifact) =
      some (.created (.handle m), s.register m) := by
    simp only [step, hcreate]
  have hrun := (Run.nil s).snoc hstep
  have hfrom := FromArtifact.restored [] ⟨s, .createCognition genesisArtifact,
    .created (.handle m), s.register m⟩ rfl rfl rfl
  obtain ⟨-, hpromote, hdoors⟩ := restore_never_authority hrun
  obtain ⟨-, hrevision, -, -, hcontinueable⟩ := hdoors m hfrom
  exact ⟨_, _, m, hrun, hfrom, by simp [register], rfl, hrevision, hpromote, hcontinueable⟩

end QivenContext
