import QivenContext.Legacy
import QivenContext.Ledger
import QivenContext.AppendOnly

/-!
# A chain that is found

A process may be given a store that holds a chain already, with revisions in
any version of the window or in none. It adds to what it finds: whatever it
makes authoritative is a revision that it found, with some of the transactions
that it committed applied in order, and it is governed as that revision was.
-/

namespace QivenContext

open Library Snapshot ServiceState

/-- The transactions applied in order. -/
def continued (origin : Snapshot) (applied : List ContextTransaction) : Snapshot :=
  applied.foldl (fun current transaction => applyOperations transaction current) origin

theorem continued_snoc (origin : Snapshot) (applied : List ContextTransaction)
    (transaction : ContextTransaction) : continued origin (applied ++ [transaction]) =
      applyOperations transaction (continued origin applied) := by
  rw [continued, List.foldl_append]
  rfl

theorem appendOnly_continued (origin : Snapshot) (applied : List ContextTransaction) :
    AppendOnly origin (continued origin applied) := by
  induction applied using List.reverseRecOn with
  | nil => exact .refl origin
  | append_singleton applied transaction ih =>
      rw [continued_snoc]
      exact IsTrans.trans _ _ _ ih (appendOnly_applyOperations transaction _)

theorem keepsGovernment_of_continued {origin snapshot : Snapshot}
    {applied : List ContextTransaction}
    (h : restored snapshot = restored (continued origin applied)) :
    KeepsGovernment origin snapshot := by
  have hkept := (appendOnly_continued origin applied).government
  exact ⟨(congrArg Snapshot.governance h).trans hkept.governance,
    (congrArg Snapshot.constitution h).trans hkept.constitution,
    (congrArg Snapshot.policy h).trans hkept.policy,
    (congrArg Snapshot.invocation h).trans hkept.invocation,
    (congrArg Snapshot.roles h).trans hkept.roles⟩

theorem restored_restored (s : Snapshot) : restored (restored s) = restored s := by
  simp [restored, restoredMemory, restoredObligation, Function.comp_def]

section Chain

variable [Foundation] {found : List (RevisionId × Bytes)}
  {committed more : List ContextTransaction} {snapshot : Snapshot}

/-- A found revision with some of the transactions applied, as far as bytes tell. -/
def Continues (found : List (RevisionId × Bytes)) (committed : List ContextTransaction)
    (snapshot : Snapshot) : Prop :=
  ∃ entry ∈ found, ∃ origin applied, deserialize entry.2 = .ok origin ∧
    applied.Sublist committed ∧ restored snapshot = restored (continued origin applied)

theorem Continues.mono (h : Continues found committed snapshot) :
    Continues found (committed ++ more) snapshot := by
  obtain ⟨entry, hentry, origin, applied, horigin, happlied, hsame⟩ := h
  exact ⟨entry, hentry, origin, applied, horigin,
    happlied.trans (List.sublist_append_left committed more), hsame⟩

theorem Continues.restored (h : Continues found committed snapshot) :
    Continues found committed (restored snapshot) := by
  obtain ⟨entry, hentry, origin, applied, horigin, happlied, hsame⟩ := h
  exact ⟨entry, hentry, origin, applied, horigin, happlied,
    (restored_restored snapshot).trans hsame⟩

theorem Continues.apply (h : Continues found committed snapshot)
    (transaction : ContextTransaction) :
    Continues found (committed ++ [transaction]) (applyOperations transaction snapshot) := by
  obtain ⟨entry, hentry, origin, applied, horigin, happlied, hsame⟩ := h
  refine ⟨entry, hentry, origin, applied ++ [transaction], horigin,
    happlied.append (List.Sublist.refl _), ?_⟩
  rw [continued_snoc]
  exact restored_applyOperations hsame

theorem fits_of_deserialize {bytes : Bytes} (h : deserialize bytes = .ok snapshot) :
    Fits snapshot := by
  obtain ⟨version, hlayout⟩ := layout_of_deserialize h
  exact ⟨hlayout.carried.strings, hlayout.carried.vectors.mono (by norm_num)⟩

omit [Foundation] in
theorem fits_restored (h : Fits snapshot) : Fits (QivenContext.restored snapshot) :=
  ⟨stringsShort_restored h.strings, vectorsWithin_restored.mpr h.vectors⟩

end Chain

/-! ## What a call adds to the chain -/

section Runs

variable [Foundation] {σ : Type} [MemoryBacked σ] {s t : ServiceState σ}
  {past trs : List (ServiceTransition σ)} {tr : ServiceTransition σ} {store : σ}
  {found : List (RevisionId × Bytes)} {snapshot : Snapshot}

/-- What is stored was found or is an encoding, and what is stored or
authoritative continues what was found. -/
structure Inherits (found : List (RevisionId × Bytes)) (past : List (ServiceTransition σ))
    (s : ServiceState σ) : Prop where
  kept : found <+: s.memory.revisions
  named : ∀ entry ∈ s.memory.revisions, entry.1 ≠ {}
  stored : ∀ entry ∈ s.memory.revisions, entry ∈ found ∨ ∃ snapshot, Fits snapshot ∧
    Continues found (ledger past) snapshot ∧ entry.2 = serializeSnapshot snapshot
  live : ∀ m ∈ s.live, m.quarantine = .promoted →
    Fits m.state ∧ Continues found (ledger past) m.state
  settled : ∀ m ∈ s.live, m.quarantine ≠ .authorityPending

theorem inherits_start (hfound : (MemoryBacked.memory store).revisions = found)
    (hnamed : ∀ entry ∈ found, entry.1 ≠ {}) : Inherits found [] (ServiceState.start store) where
  kept := by
    rw [← hfound]
    exact List.prefix_refl _
  named entry hentry := hnamed entry (hfound ▸ hentry)
  stored entry hentry := .inl (hfound ▸ hentry)
  live m hm := by simp [ServiceState.start] at hm
  settled m hm := by simp [ServiceState.start] at hm

/-- Any stored revision that decodes continues what was found. -/
theorem Inherits.decodes (h : Inherits found past s) {entry : RevisionId × Bytes}
    (hentry : entry ∈ s.memory.revisions) (hparsed : deserialize entry.2 = .ok snapshot) :
    Fits snapshot ∧ Continues found (ledger past) snapshot := by
  rcases h.stored entry hentry with hfound | ⟨encoded, hfits, hcontinues, hbytes⟩
  · exact ⟨fits_of_deserialize hparsed, entry, hfound, snapshot, [], hparsed,
      List.nil_sublist _, rfl⟩
  · rw [hbytes] at hparsed
    obtain ⟨rfl, -⟩ := eq_restored_of_deserialize hfits hparsed
    exact ⟨fits_restored hfits, hcontinues.restored⟩

/-- No call submits genesis to a store that has a revision. -/
theorem not_submits_genesis (hnamed : ∀ entry ∈ s.memory.revisions, entry.1 ≠ {})
    (hne : s.memory.revisions ≠ []) (call : Call) : s.submits call ≠ some .genesis := by
  intro hsubmits
  cases call with
  | createCognition source =>
      exact hne (MemoryStore.revisions_eq_nil hnamed (head_of_submits_genesis hsubmits))
  | writeToCognition handle transaction grant =>
      simp only [submits] at hsubmits
      split at hsubmits <;> simp at hsubmits
  | _ => simp [submits] at hsubmits

theorem Inherits.write (h : Inherits found past tr.before) (hsized : SizedRun (2 ^ 32 - 1) [tr])
    {actor : AuthenticatedActor} {transaction : ContextTransaction} {entry : Materialization}
    {next : Snapshot} (hcommits : Commits tr (.write actor transaction entry next)) :
    Fits next ∧ Continues found (ledger (past ++ [tr])) next := by
  obtain ⟨handle, grant, governance, -, -, -, hadmitted⟩ := submits_write hcommits.1
  obtain ⟨hgates, rfl⟩ := hcommits.gates
  obtain ⟨hshort, hroom⟩ := hsized tr List.mem_cons_self actor transaction entry _ hcommits
  obtain ⟨hfits, hcontinues⟩ :=
    h.live entry (findLive_some hadmitted.live).1 hadmitted.promoted
  have hledger : ledger (past ++ [tr]) = ledger past ++ [transaction] := by
    simp [ledger_snoc, committedTransaction, commitOf_eq_some.mpr hcommits]
  refine ⟨⟨stringsShort_applyOperations hfits.strings hshort,
    vectorsWithin_applyOperations hfits.vectors (by norm_num) hgates hroom⟩, ?_⟩
  rw [hledger]
  exact hcontinues.apply transaction

theorem Continues.later (h : Continues found (ledger past) snapshot) :
    Continues found (ledger (past ++ [tr])) snapshot := by
  rw [ledger_snoc]
  exact h.mono

theorem Inherits.not_submits_genesis (h : Inherits found past s) (hne : found ≠ [])
    (call : Call) : s.submits call ≠ some .genesis := by
  apply QivenContext.not_submits_genesis h.named
  intro hnil
  exact hne (List.prefix_nil.mp (hnil ▸ h.kept))

theorem Inherits.stored_snoc (h : Inherits found past tr.before) (hne : found ≠ [])
    (hvalid : tr.Valid ServiceState.step) (hsized : SizedRun (2 ^ 32 - 1) [tr])
    {entry : RevisionId × Bytes} (hentry : entry ∈ tr.after.memory.revisions) :
    entry.1 ≠ {} ∧ (entry ∈ found ∨ ∃ snapshot, Fits snapshot ∧
      Continues found (ledger (past ++ [tr])) snapshot ∧ entry.2 = serializeSnapshot snapshot) := by
  rcases mem_revisions_step hvalid hentry with hold | ⟨submission, hsubmits, hkind, rfl⟩
  · refine ⟨h.named entry hold, (h.stored entry hold).imp_right ?_⟩
    rintro ⟨snapshot, hfits, hcontinues, hbytes⟩
    exact ⟨snapshot, hfits, hcontinues.later, hbytes⟩
  · refine ⟨revisionOf_ne_empty _ _, .inr ⟨submission.snapshot, ?_⟩⟩
    cases submission with
    | genesis => exact (h.not_submits_genesis hne _ hsubmits).elim
    | write actor transaction entry next =>
        obtain ⟨hfits, hcontinues⟩ := h.write hsized ⟨hsubmits, hkind⟩
        exact ⟨hfits, hcontinues, rfl⟩

theorem Inherits.live_snoc (h : Inherits found past tr.before) (hne : found ≠ [])
    (hvalid : tr.Valid ServiceState.step) (hsized : SizedRun (2 ^ 32 - 1) [tr])
    {m : Materialization} (hm : m ∈ tr.after.live) : m.quarantine ≠ .authorityPending ∧
      (m.quarantine = .promoted →
        Fits m.state ∧ Continues found (ledger (past ++ [tr])) m.state) := by
  rcases mem_live_step hvalid hm with hold | hnew
  · refine ⟨h.settled m hold, fun hpromoted => ?_⟩
    obtain ⟨hfits, hcontinues⟩ := h.live m hold hpromoted
    exact ⟨hfits, hcontinues.later⟩
  · generalize hcall : tr.action = call at hnew
    cases hnew with
    | artifact hparsed => exact ⟨by simp [minted], by simp [minted]⟩
    | booted hbytes hnonempty hparsed =>
        refine ⟨by simp [minted], fun _ => ?_⟩
        rw [materialize_memory] at hbytes
        rcases tr.before.memory.materialize_cases (tr.before.bootId _) with ⟨hnil, -⟩ | hmem
        · exact (hnonempty (hbytes.trans hnil)).elim
        · rw [← hbytes] at hmem
          obtain ⟨hfits, hcontinues⟩ := h.decodes hmem hparsed
          exact ⟨hfits, hcontinues.later⟩
    | genesis hsubmits => exact (h.not_submits_genesis hne _ hsubmits).elim
    | @successor _ transaction _ entry next hsubmits hcommitted =>
        obtain ⟨_, _, _, -, -, -, hadmitted⟩ := submits_write hsubmits
        have hcommits : Commits tr (.write tr.before.grantActor transaction entry next) :=
          ⟨hcall ▸ hsubmits, by simp [hcommitted]⟩
        exact ⟨by simp [successorMaterialization, hadmitted.promoted],
          fun _ => h.write hsized hcommits⟩
    | verified hold hisolated => exact ⟨by simp, by simp⟩
    | promoted hold hpending => exact (h.settled _ hold hpending).elim

theorem Inherits.snoc (h : Inherits found past tr.before) (hne : found ≠ [])
    (hvalid : tr.Valid ServiceState.step) (hsized : SizedRun (2 ^ 32 - 1) [tr]) :
    Inherits found (past ++ [tr]) tr.after where
  kept := h.kept.trans (memory_prefix_step hvalid)
  named _ hentry := (h.stored_snoc hne hvalid hsized hentry).1
  stored _ hentry := (h.stored_snoc hne hvalid hsized hentry).2
  live _ hm := (h.live_snoc hne hvalid hsized hm).2
  settled _ hm := (h.live_snoc hne hvalid hsized hm).1

theorem inherits_of_sizedRun (hfound : (MemoryBacked.memory store).revisions = found)
    (hne : found ≠ []) (hnamed : ∀ entry ∈ found, entry.1 ≠ {})
    (hrun : ServiceRun (ServiceState.start store) trs t) (hsized : SizedRun (2 ^ 32 - 1) trs) :
    Inherits found trs t := by
  refine hrun.history_induction (motive := fun trs t => SizedRun (2 ^ 32 - 1) trs →
    Inherits found trs t) (fun _ => inherits_start hfound hnamed) ?_ hsized
  intro past tr _ hvalid ih hsized
  apply (ih (hsized.subset (List.subset_append_left past [tr]))).snoc hne hvalid
  exact hsized.subset (List.subset_append_right past [tr])

/-- What a reader may take for the state of the chain: an authoritative handle,
or any revision that decodes. -/
inductive Authoritative (t : ServiceState σ) : Snapshot → Prop
  | live {m : Materialization} (hlive : m ∈ t.live) (hpromoted : m.quarantine = .promoted) :
      Authoritative t m.state
  | stored {entry : RevisionId × Bytes} {snapshot : Snapshot}
      (hmem : entry ∈ t.memory.revisions) (hparsed : deserialize entry.2 = .ok snapshot) :
      Authoritative t snapshot

/-- Along a run that starts over a store with revisions in it, whose committing
writes keep every count and length below `2 ^ 32`, what was found stays, what is
added is of version 8, and all that is authoritative continues and is governed
by a revision that was found; where that one has no invocation policy, control
fails closed. -/
theorem inherited_chain_continued (hfound : (MemoryBacked.memory store).revisions = found)
    (hne : found ≠ []) (hnamed : ∀ entry ∈ found, entry.1 ≠ {})
    (hrun : ServiceRun (ServiceState.start store) trs t) (hsized : SizedRun (2 ^ 32 - 1) trs) :
    found <+: t.memory.revisions ∧
      (∀ entry ∈ t.memory.revisions, entry ∉ found → entry.2.head? = some 8) ∧
      ∀ snapshot, Authoritative t snapshot → ∃ entry ∈ found, ∃ origin applied,
        deserialize entry.2 = .ok origin ∧ applied.Sublist (ledger trs) ∧
        restored snapshot = restored (continued origin applied) ∧
        AppendOnly origin (continued origin applied) ∧ KeepsGovernment origin snapshot ∧
        (WithoutPolicy entry.2 origin → ∀ intent needs,
          (buildPreparationPacket snapshot intent needs).failure = .invocationPolicyMissing ∧
            (buildPreparationPacket snapshot intent needs).readyForJudgment = false ∧
            (buildPreparationPacket snapshot intent needs).readyForExecution = false) := by
  have hinherits := inherits_of_sizedRun hfound hne hnamed hrun hsized
  refine ⟨hinherits.kept, fun entry hentry hnew => ?_, fun snapshot hauthoritative => ?_⟩
  · obtain ⟨encoded, -, -, hbytes⟩ := (hinherits.stored entry hentry).resolve_left hnew
    rw [hbytes]
    rfl
  · obtain ⟨entry, hentry, origin, applied, horigin, happlied, hsame⟩ :
        Continues found (ledger trs) snapshot := by
      cases hauthoritative with
      | live hlive hpromoted => exact (hinherits.live _ hlive hpromoted).2
      | stored hmem hparsed => exact (hinherits.decodes hmem hparsed).2
    have hgovernment := keepsGovernment_of_continued hsame
    refine ⟨entry, hentry, origin, applied, horigin, happlied, hsame,
      appendOnly_continued origin applied, hgovernment, ?_⟩
    intro hwithout
    apply buildPreparationPacket_absent
    rw [hgovernment.invocation]
    exact present_of_withoutPolicy horigin hwithout

end Runs

/-! ## A write to the oldest format -/

section Oldest

open scoped QivenContext.Reference

/-- What genesis governs by, but no invocation policy. -/
def oldestWorld : Snapshot where
  governance := makeGenesis.governance
  policy := makeDefaultPolicy

/-- It, as version 6 spelled it. -/
def oldestRevision : Bytes :=
  6 :: (putStr makeGenesis.governance.rootPrincipal ++ putVector putStr [] ++
    putVector putHandoffPolicy makeDefaultPolicy.handoff ++
    putVector putRecoveryRule makeDefaultPolicy.recovery ++ List.replicate 60 0)

def oldestStore : MemoryStore :=
  (default : MemoryStore).append { value := lit "rev-6" } oldestRevision

set_option maxRecDepth 4000 in
theorem deserialize_oldestRevision : deserialize oldestRevision = .ok oldestWorld := by
  rfl

/-- The chain takes a write in version 8, and control still fails closed over it. -/
theorem oldest_chain_continued :
    ∃ (trs : List (ServiceTransition MemoryStore)) (t : ServiceState MemoryStore)
      (m : Materialization), ServiceRun (ServiceState.start oldestStore) trs t ∧
        t.memory.revisions.map (fun entry => entry.2.head?) = [some 6, some 8] ∧
        m ∈ t.live ∧ m.revision = t.memory.head ∧ ∀ intent needs,
          (buildPreparationPacket m.state intent needs).readyForExecution = false := by
  have hrevisions : oldestStore.revisions = [({ value := lit "rev-6" }, oldestRevision)] := rfl
  have hhead : oldestStore.head ≠ {} := by decide
  have hparsed : (ServiceState.start oldestStore).storedHead = .ok oldestWorld :=
    deserialize_oldestRevision
  obtain ⟨booted, s, m, hboot, hlease, honHead, hstate, -, hstore, hreceipts⟩ :=
    exists_rebooted hhead hparsed rfl
  have hquiet : Quiet m.state := by
    rw [hstate]
    exact ⟨rfl, by simp [oldestWorld], rfl⟩
  obtain ⟨t, m', hwrote, -⟩ := honHead.writeEvidence hquiet (keyedEvidence m.revision)
    (resolveKey_fresh (hreceipts _)) rfl (List.cons_ne_nil _ _)
    (keyedEvidence_evidenceOnly m.revision)
  let past : List (ServiceTransition MemoryStore) :=
    [⟨ServiceState.start oldestStore, .createCognition {}, .created (.handle m), booted⟩,
      ⟨booted, .acquireGrant rootActor .supervisedForeground, .granted (some firstGrant), s⟩]
  have hpast : ServiceRun (ServiceState.start oldestStore) past s :=
    ((Run.nil _).snoc hboot).snoc hlease
  have hnone : NoWrites past := by simp [NoWrites, past]
  have hroom : Room (2 ^ 32 - 1) m.state (keyedEvidence m.revision).operations := by
    rw [hstate]
    constructor <;> simp [oldestWorld, keyedEvidence, addEvidence, countKind, standingViews,
      amendIds]
  have hrun := hwrote.run hpast
  have hsized := hwrote.sizedRun hnone (keyedEvidence_short m.revision) hroom
  have hnew : s.store.headBytes ≠ some (serializeSnapshot m'.state) := by
    rw [hstore]
    intro hsame
    have hversion : some (6 : UInt8) = some 8 := congrArg List.head? (Option.some.inj hsame)
    simp at hversion
  have hafter := (hwrote.revisions honHead hnew).1
  rw [hstore, hrevisions] at hafter
  obtain ⟨-, -, hcontinued⟩ := inherited_chain_continued hrevisions (List.cons_ne_nil _ _)
    (by decide) hrun hsized
  have hlive := hwrote.onHead.live
  obtain ⟨entry, hentry, origin, applied, -, -, -, -, -, hclosed⟩ :=
    hcontinued m'.state (.live hlive hwrote.onHead.promoted)
  obtain rfl := List.mem_singleton.mp hentry
  refine ⟨_, t, m', hrun, ?_, hlive, hwrote.onHead.head.symm, fun intent needs => ?_⟩
  · have hmemory : t.memory.revisions = _ := hafter
    rw [hmemory]
    rfl
  · exact (hclosed (.inl rfl) intent needs).2.2

end Oldest

end QivenContext
