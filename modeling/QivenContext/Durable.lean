import QivenContext.History

/-!
# Live cognition and durable bytes

An authoritative entry of the registry is a cache of the store: its revision
is stored, with the bytes that its state encodes to, and its digest is theirs.
So the two paths of the canonical head read one encoding, and where the bytes
decode they agree on all that governs.
-/

namespace QivenContext

open Library Snapshot ServiceState

section Durable

variable [Foundation] {σ : Type} [MemoryBacked σ] {s s' t : ServiceState σ}
  {trs : List (ServiceTransition σ)} {P : Snapshot → Prop} {m : Materialization}

/-- The entry stands for the stored bytes of its revision. -/
structure Faithful (s : ServiceState σ) (m : Materialization) : Prop where
  verified : CognitionStore.verify s.store m.revision = true
  materialized : CognitionStore.materialize s.store m.revision = serializeSnapshot m.state
  digest : m.digest = draftSnapshotDigest (CognitionStore.materialize s.store m.revision)

/-- Two snapshots with one encoding, and the same tables of governance. -/
structure SameGovernment (s t : Snapshot) : Prop where
  bytes : serializeSnapshot s = serializeSnapshot t
  governance : s.governance = t.governance
  policy : s.policy = t.policy
  invocation : s.invocation = t.invocation
  roles : s.roles = t.roles

/-- What the live path returns and what the bytes decode to are governed alike. -/
def PathsAgree (s : ServiceState σ) : Prop :=
  ∀ entry decoded, s.liveHead = some entry → s.storedHead = .ok decoded →
    SameGovernment entry.state decoded

/-! ## Digests -/

/-- The digest of an authoritative entry is that of its own encoding. -/
def Digested (s : ServiceState σ) : Prop :=
  ∀ m ∈ s.live, m.quarantine = .promoted →
    m.digest = draftSnapshotDigest (serializeSnapshot m.state)

theorem Digested.step (h : Digested s) (hseed : Seed P) (hrooted : Rooted P s) {call : Call}
    {answer : Answer} (hstep : s.step call = some (answer, s')) : Digested s' := by
  intro m hm hpromoted
  rcases mem_live_step hstep hm with hold | hnew
  · exact h m hold hpromoted
  · cases hnew with
    | artifact hparsed => simp [minted] at hpromoted
    | booted hbytes hne hparsed =>
        obtain ⟨-, snapshot, hP, rfl⟩ := hrooted.materialized hbytes hne
        obtain ⟨rfl, -⟩ := eq_restored_of_deserialize (hseed.fits _ hP) hparsed
        change _ = draftSnapshotDigest (serializeSnapshot (restored snapshot))
        rw [serialize_restored]
        rfl
    | genesis hsubmits => rfl
    | successor hsubmits hcommitted => rfl
    | verified hold hisolated => simp at hpromoted
    | promoted hold hpending => exact (hrooted.settled _ hold hpending).elim

/-! ## The cache -/

theorem Rooted.faithful_of_digested (h : Rooted P s) (hdigested : Digested s)
    (hchained : Chained s) (hfree : Collisionless s) (hm : m ∈ s.live)
    (hpromoted : m.quarantine = .promoted) : Faithful s m := by
  have hstored := h.faithful m hm hpromoted
  have hbytes : CognitionStore.materialize s.store m.revision = serializeSnapshot m.state := by
    rw [materialize_memory]
    exact bytes_unique hchained hfree h.named (MemoryStore.materialize_of_mem hstored) hstored rfl
  refine ⟨?_, hbytes, ?_⟩
  · rw [MemoryBacked.verify_eq]
    exact List.any_eq_true.mpr ⟨_, hstored, by simp⟩
  · rw [hbytes]
    exact hdigested m hm hpromoted

/-- The live entry of the head and the snapshot that its bytes decode to. -/
theorem Rooted.pathsAgree (h : Rooted P s) (hseed : Seed P)
    (hfaithful : ∀ m ∈ s.live, m.quarantine = .promoted → Faithful s m) : PathsAgree s := by
  intro entry decoded hentry hdecoded
  obtain ⟨hlive, hhead, hpromoted⟩ := liveHead_some hentry
  rw [storedHead, ← hhead, (hfaithful entry hlive hpromoted).materialized] at hdecoded
  obtain ⟨rfl, -⟩ :=
    eq_restored_of_deserialize (hseed.fits _ (h.live entry hlive hpromoted)) hdecoded
  exact ⟨(serialize_restored _).symm, rfl, rfl, rfl, rfl⟩

/-- Along a run whose committing writes keep every count and length below
`2 ^ 32`, with revision ids that do not collide, every authoritative entry is
faithful to the store, and the paths of the canonical head agree. -/
theorem live_faithful {store : σ} (hempty : (MemoryBacked.memory store).revisions = [])
    (hrun : ServiceRun (ServiceState.start store) trs t) (hsized : SizedRun (2 ^ 32 - 1) trs)
    (hfree : Collisionless t) :
    (∀ m ∈ t.live, m.quarantine = .promoted → Faithful t m) ∧ PathsAgree t := by
  have hseed : Seed (Sized (2 ^ 32 - 1) fun _ => True) :=
    seed_sized (by norm_num) (by norm_num) trivial fun _ _ => trivial
  obtain ⟨hrooted, hall, -⟩ := rooted_of_sizedRun (Q := fun _ => True) (by norm_num)
    (by norm_num) hempty hrun hsized trivial (fun _ _ => trivial) fun _ _ _ _ _ _ _ _ => trivial
  have hdigested : Digested t :=
    hrun.invariant (P := Digested) (C := fun tr => Rooted _ tr.before)
      (fun tr htr => (hall tr htr).1) (by simp [Digested, ServiceState.start])
      fun _ hvalid hrooted hbefore => hbefore.step hseed hrooted hvalid
  have hfaithful : ∀ m ∈ t.live, m.quarantine = .promoted → Faithful t m :=
    fun _ => hrooted.faithful_of_digested hdigested (chained_of_run hempty hrun) hfree
  exact ⟨hfaithful, hrooted.pathsAgree hseed hfaithful⟩

end Durable

open scoped QivenContext.Reference

theorem batch_live_faithful :
    ∃ (trs : List (ServiceTransition MemoryStore)) (t : ServiceState MemoryStore)
      (m : Materialization), ServiceRun (ServiceState.start {}) trs t ∧ m ∈ t.live ∧
        m.state.evidence.length = 2 ∧ Faithful t m ∧ PathsAgree t := by
  obtain ⟨byte, trs, s, m, t, m', hrun, hsized, hfree, -, hwrote, -, hstate, -⟩ :=
    exists_sized_batch
  obtain ⟨hfaithful, hpaths⟩ := live_faithful rfl hrun hsized hfree
  refine ⟨_, t, m', hrun, hwrote.onHead.live, ?_, hfaithful m' hwrote.onHead.live
    hwrote.onHead.promoted, hpaths⟩
  rw [hstate]
  exact length_batchEvidence 1 byte

/-- After the evidence that spells the tables behind it, the live successor has
the invocation policy of genesis, and the snapshot its bytes decode to has none. -/
theorem counted_paths_disagree :
    ∃ (trs : List (ServiceTransition MemoryStore)) (t : ServiceState MemoryStore),
      ServiceRun (ServiceState.start {}) trs t ∧ EveryWrite ShortTransaction trs ∧
        Collisionless t ∧ ¬ PathsAgree t := by
  obtain ⟨byte, trs, s, m, t, m', hrun, hnone, hwrote, hstate, hgenesis, hrevisions, hfresh,
    hstored⟩ := exists_counted_write
  have hrun' := hwrote.run hrun
  obtain ⟨entry, hentry⟩ :=
    exists_liveHead hwrote.onHead.live hwrote.onHead.head hwrote.onHead.promoted
  have hcounted : entry.state = countedWorld byte := by
    obtain ⟨hlive, hhead, hpromoted⟩ := liveHead_some hentry
    rcases mem_live_step hwrote.step hlive with hold | hnew
    · have hsized : SizedRun 18 trs := hnone.forall_commits
      obtain ⟨hrooted, -⟩ := rooted_of_sizedRun (Q := fun _ => True) le_rfl (by norm_num) rfl hrun
        hsized trivial (fun _ _ => trivial) fun _ _ _ _ _ _ _ _ => trivial
      have hmem : (entry.revision, _) ∈ s.store.revisions := hrooted.faithful entry hold hpromoted
      rw [hgenesis, List.mem_singleton] at hmem
      exact (hfresh (hwrote.onHead.head.symm.trans (hhead.symm.trans
        (congrArg Prod.fst hmem)))).elim
    · generalize hcall : Call.writeToCognition (some m) _ firstGrant = call at hnew
      cases hnew with
      | successor hsubmits _ =>
          have hsame := hwrote.submits.symm.trans (hcall ▸ hsubmits)
          simp only [Option.some.injEq, Submission.write.injEq] at hsame
          exact hsame.2.2.2.symm.trans hstate
      | _ => simp at hcall
  refine ⟨_, t, hrun', hnone.everyWrite.written ?_,
    collisionless_of_pair rfl hrun' hrevisions hfresh, fun hagree => ?_⟩
  · exact addAll_short fun _ hmem => (mem_countedEvidence hmem).2
  · have hinvocation := (hagree entry _ hentry hstored).invocation
    rw [hcounted] at hinvocation
    have hpresent : true = false := congrArg InvocationPolicy.present hinvocation
    simp at hpresent

end QivenContext
