import QivenContext.AppendOnly

/-!
# Open conflicts

An open conflict keeps every operation on its scope out, apart from those on
conflicts, and one without a scope keeps out all of them. The gate looks at
the snapshot that the handle pins, which has the conflicts of the last commit
whatever the handle went through.
-/

namespace QivenContext

open Library Snapshot ServiceState

/-! ## The gate -/

def Operation.OnConflicts (operation : Operation) : Prop :=
  operation.kind = .openConflict ∨ operation.kind = .resolveConflict

/-- The transaction leaves the scopes of the open conflicts alone. -/
def Respects (current : Snapshot) (transaction : ContextTransaction) : Prop :=
  ∀ conflict ∈ current.conflicts, conflict.status = .isOpen →
    ∀ operation ∈ transaction.operations, ¬ operation.OnConflicts →
      conflict.scope ≠ [] ∧ operation.scope ≠ conflict.scope

/-- There is an open conflict with the id, and it has no scope. -/
def OpenAll (id : Str) (snapshot : Snapshot) : Prop :=
  ∃ conflict ∈ snapshot.conflicts, conflict.id = id ∧ conflict.status = .isOpen ∧
    conflict.scope = []

/-- The transaction resolves the conflict with the id. -/
def Settles (id : Str) (operations : List Operation) : Prop :=
  ∃ operation ∈ operations, operation.kind = .resolveConflict ∧ operation.title = id

/-- All but the conflicts, and what no operation writes. -/
structure SameWork (before after : Snapshot) : Prop where
  decisions : after.decisions = before.decisions
  memory : after.memory = before.memory
  obligations : after.obligations = before.obligations
  evidence : after.evidence = before.evidence
  profiles : after.profiles = before.profiles
  views : after.views = before.views
  state : after.state = before.state

instance : IsTrans Snapshot SameWork where
  trans _ _ _ h h' := ⟨h'.decisions.trans h.decisions, h'.memory.trans h.memory,
    h'.obligations.trans h.obligations, h'.evidence.trans h.evidence,
    h'.profiles.trans h.profiles, h'.views.trans h.views, h'.state.trans h.state⟩

section Gate

variable {id : Str} {current next : Snapshot} {operation : Operation}
  {transaction : ContextTransaction} {handoffEvidenceRef : Str}

theorem respects_of_gate
    (hgates : ∀ operation ∈ transaction.operations, conflictGate current operation = .ok ()) :
    Respects current transaction := by
  intro conflict hmem hopen operation hoperation hother
  have hgate := hgates operation hoperation
  unfold Operation.OnConflicts at hother
  rw [conflictGate, if_neg hother, refuseIf_eq_ok] at hgate
  constructor
  · intro hempty
    exact hgate ⟨conflict, hmem, hopen, .inl (List.isEmpty_iff.mpr hempty)⟩
  · intro hscope
    exact hgate ⟨conflict, hmem, hopen, .inr hscope.symm⟩

/-- Under an open conflict without a scope there is nothing but conflicts. -/
theorem OpenAll.onConflicts (h : OpenAll id current) (hrespects : Respects current transaction) :
    ∀ operation ∈ transaction.operations, operation.OnConflicts := by
  intro operation hoperation
  obtain ⟨conflict, hmem, -, hopen, hscope⟩ := h
  by_contra hother
  exact (hrespects conflict hmem hopen operation hoperation hother).1 hscope

theorem sameWork_applyOperations
    (h : ∀ operation ∈ transaction.operations, operation.OnConflicts) :
    SameWork current (applyOperations transaction current) := by
  refine applyOperations_preserves (P := SameWork current)
    ⟨rfl, rfl, rfl, rfl, rfl, rfl, rfl⟩ fun operation hmem next hnext => ?_
  unfold applyOperation
  rcases h operation hmem with hkind | hkind
  · rw [hkind]
    exact ⟨hnext.decisions, hnext.memory, hnext.obligations, hnext.evidence, hnext.profiles,
      hnext.views, hnext.state⟩
  · rw [hkind]
    exact ⟨hnext.decisions, hnext.memory, hnext.obligations, hnext.evidence, hnext.profiles,
      hnext.views, hnext.state⟩

/-! ## The apply loop -/

theorem openAll_applyOperations (h : OpenAll id current)
    (hsettles : ¬ Settles id transaction.operations) :
    OpenAll id (applyOperations transaction current) := by
  refine applyOperations_preserves (P := OpenAll id) h fun operation hmem next hnext => ?_
  obtain ⟨conflict, hconflict, hid, hopen, hscope⟩ := hnext
  unfold OpenAll
  rw [applyOperation_conflicts]
  split
  · exact ⟨conflict, List.mem_append_left _ hconflict, hid, hopen, hscope⟩
  · next hkind =>
      have hother : conflict.id ≠ operation.title := fun hthis =>
        hsettles ⟨operation, hmem, hkind, hthis.symm.trans hid⟩
      refine ⟨conflict, List.mem_map.mpr ⟨conflict, hconflict, ?_⟩, hid, hopen, hscope⟩
      rw [resolveIn, if_neg hother]
  · exact ⟨conflict, hconflict, hid, hopen, hscope⟩

/-- A conflict that was there before is closed when the transaction settles it. -/
theorem settled_applyOperations (h : OpenAll id current)
    (hgates : ∀ operation ∈ transaction.operations, invariantGate current operation = .ok ())
    (hsettles : Settles id transaction.operations) :
    ¬ OpenAll id (applyOperations transaction current) := by
  have hclosed : ∀ conflict ∈ (applyOperations transaction current).conflicts,
      conflict.id = id → conflict.status = .resolved := by
    refine applyOperations_induction (motive := fun past next => Settles id past →
      ∀ conflict ∈ next.conflicts, conflict.id = id → conflict.status = .resolved)
      (by simp [Settles]) ?_ hsettles
    intro past operation next hpast ih hsettles
    have hgate := hgates operation (hpast.subset (by simp))
    have hearlier : ¬ (operation.kind = .resolveConflict ∧ operation.title = id) →
        Settles id past := by
      intro hother
      obtain ⟨found, hmem, hfound⟩ := hsettles
      rcases List.mem_append.mp hmem with hmem | hmem
      · exact ⟨found, hmem, hfound⟩
      · obtain rfl := List.mem_singleton.mp hmem
        exact (hother hfound).elim
    rw [applyOperation_conflicts]
    split
    · next hkind =>
        obtain ⟨conflict, hmem, hid, -⟩ := h
        have hfresh := openConflict_passed hgate hkind
        refine forall_mem_append_singleton (ih (hearlier (by simp [hkind]))) fun hthis => ?_
        exact (hfresh conflict hmem (hid.trans hthis.symm)).elim
    · next hkind =>
        intro conflict hmem hid
        obtain ⟨earlier, hearlier', rfl⟩ := List.mem_map.mp hmem
        unfold resolveIn at hid ⊢
        split at hid
        · next htitle => rw [if_pos htitle]
        · next htitle =>
            rw [if_neg htitle]
            exact ih (hearlier fun hthis => htitle (hid.trans hthis.2.symm)) earlier hearlier' hid
    · next hkind => exact ih (hearlier fun hthis => hkind hthis.1)
  rintro ⟨conflict, hmem, hid, hopen, -⟩
  rw [hclosed conflict hmem hid] at hopen
  exact absurd hopen (by decide)

/-! ## The copy that a handle pins -/

theorem conflicts_eq_of_restored (h : restored current = restored next) :
    current.conflicts = next.conflicts := by
  have hconflicts := congrArg Snapshot.conflicts h
  exact hconflicts

theorem openAll_of_restored (h : restored current = restored next) :
    OpenAll id current ↔ OpenAll id next := by
  unfold OpenAll
  rw [conflicts_eq_of_restored h]

/-- What conflicts-only operations leave of a copy is what there was, when the
copy has its memory. -/
theorem sameWork_of_restored (h : restored current = restored next)
    (hcurrent : Untriggered current) (hnext : Untriggered next)
    (hoperations : ∀ operation ∈ transaction.operations, operation.OnConflicts) :
    SameWork next (applyOperations transaction current) ↔ current.memory = next.memory := by
  have happly : SameWork current (applyOperations transaction current) :=
    sameWork_applyOperations hoperations
  have hobligations := obligations_eq_of_restored h hcurrent hnext
  constructor
  · exact fun hsame => happly.memory.symm.trans hsame.memory
  · intro hmemory
    have hcopy : SameWork next current := by
      refine ⟨?_, hmemory, hobligations, ?_, ?_, ?_, ?_⟩
      all_goals
        simp only [restored, Snapshot.mk.injEq] at h
        simp [h]
    exact IsTrans.trans _ _ _ hcopy happly

end Gate

/-! ## Whole runs -/

section Runs

variable [Foundation] {σ : Type} [MemoryBacked σ] {t : ServiceState σ}
  {trs : List (ServiceTransition σ)}

/-- No commit touches a scope in which a conflict was open in the last one. -/
def ScopesRespected (trs : List (ServiceTransition σ)) : Prop :=
  ∀ past tr rest, trs = past ++ tr :: rest → ∀ actor transaction entry next last,
    Commits tr (.write actor transaction entry next) →
      (committedSnapshots past).getLast? = some last → Respects last transaction

/-- While a conflict without a scope stays open, nothing but conflicts changes. -/
def Frozen (trs : List (ServiceTransition σ)) : Prop :=
  ∀ id stretch, stretch <:+: committedSnapshots trs →
    (∀ snapshot ∈ stretch, OpenAll id snapshot) → stretch.Pairwise SameWork

/-- A write that leaves a conflict without a scope open goes through a handle
with the memory that was last committed. -/
def PinsMemory (trs : List (ServiceTransition σ)) : Prop :=
  ∀ past tr rest, trs = past ++ tr :: rest → ∀ actor transaction entry next last,
    Commits tr (.write actor transaction entry next) →
      (committedSnapshots past).getLast? = some last → ∀ id, OpenAll id last →
        ¬ Settles id transaction.operations → entry.state.memory = last.memory

/-- Where no memory was ever written, it is pinned by every write. -/
theorem pinsMemory_of_nil
    (hcommitted : ∀ snapshot ∈ committedSnapshots trs, snapshot.memory = [])
    (hpinned : ∀ tr ∈ trs, ∀ actor transaction entry next,
      Commits tr (.write actor transaction entry next) → entry.state.memory = []) :
    PinsMemory trs := by
  intro past tr rest hsplit actor transaction entry next last hcommits hlast id _ _
  have hmem : tr ∈ trs := hsplit ▸ List.mem_append_right past List.mem_cons_self
  have hlastMem : last ∈ committedSnapshots trs := by
    rw [hsplit]
    unfold committedSnapshots
    rw [List.filterMap_append]
    exact List.mem_append_left _ (List.mem_of_getLast? hlast)
  rw [hpinned tr hmem actor transaction entry next hcommits, hcommitted last hlastMem]

theorem Commits.respects {tr : ServiceTransition σ} {actor : AuthenticatedActor}
    {transaction : ContextTransaction} {entry : Materialization} {next : Snapshot}
    (h : Commits tr (.write actor transaction entry next)) : Respects entry.state transaction := by
  obtain ⟨handle, grant, governance, -, -, -, hadmitted⟩ := submits_write h.1
  obtain ⟨-, hconflicts, -⟩ := successorOf_eq_ok.mp hadmitted.successor
  exact respects_of_gate hconflicts

/-- One commit under an open conflict without a scope, which it does not settle. -/
theorem Commits.sameWork_iff {tr : ServiceTransition σ} {actor : AuthenticatedActor}
    {transaction : ContextTransaction} {entry : Materialization} {next last : Snapshot} {id : Str}
    (h : Commits tr (.write actor transaction entry next)) (hopen : OpenAll id last)
    (hlast : Untriggered last) (hentry : Untriggered entry.state)
    (hrestored : restored entry.state = restored last) :
    SameWork last next ↔ entry.state.memory = last.memory := by
  have hconflicts := ((openAll_of_restored hrestored).mpr hopen).onConflicts h.respects
  obtain ⟨-, rfl⟩ := h.gates
  exact sameWork_of_restored hrestored hentry hlast hconflicts

theorem Commits.openAll_iff {tr : ServiceTransition σ} {actor : AuthenticatedActor}
    {transaction : ContextTransaction} {entry : Materialization} {next last : Snapshot} {id : Str}
    (h : Commits tr (.write actor transaction entry next)) (hopen : OpenAll id last)
    (hrestored : restored entry.state = restored last) :
    OpenAll id next ↔ ¬ Settles id transaction.operations := by
  have hentry := (openAll_of_restored hrestored).mpr hopen
  obtain ⟨hgates, rfl⟩ := h.gates
  exact ⟨fun hnext hsettles => settled_applyOperations hentry hgates hsettles hnext,
    openAll_applyOperations hentry⟩

theorem frozen_of_pinsMemory
    (hfollows : ∀ past tr rest, trs = past ++ tr :: rest → Follows Untriggered past tr)
    (hpins : PinsMemory trs) : Frozen trs := by
  intro id stretch hstretch hopen
  have hchain : (committedSnapshots trs).IsChain fun before after =>
      OpenAll id before → OpenAll id after → SameWork before after := by
    refine isChain_committedSnapshots_iff.mpr ?_
    intro past tr rest hsplit last submission hlast hcommits hbefore hafter
    cases submission with
    | genesis =>
        obtain ⟨conflict, hmem, -⟩ := hafter
        exact (List.not_mem_nil hmem).elim
    | write actor transaction entry next =>
        obtain ⟨found, hfound, hfoundP, hentryP, hrestored⟩ := hfollows past tr rest hsplit hcommits
        obtain rfl : found = last := Option.some.inj (hfound.symm.trans hlast)
        have hsettles := (hcommits.openAll_iff hbefore hrestored).mp hafter
        refine (hcommits.sameWork_iff hbefore hfoundP hentryP hrestored).mpr ?_
        exact hpins past tr rest hsplit actor transaction entry next found hcommits hlast id hbefore
          hsettles
  rw [← List.isChain_iff_pairwise]
  have hstretched := List.IsChain.infix hchain hstretch
  exact hstretched.imp_of_mem_imp fun before after hbefore hafter hsame =>
    hsame (hopen before hbefore) (hopen after hafter)

theorem pinsMemory_of_frozen
    (hfollows : ∀ past tr rest, trs = past ++ tr :: rest → Follows Untriggered past tr)
    (hfrozen : Frozen trs) : PinsMemory trs := by
  intro past tr rest hsplit actor transaction entry next last hcommits hlast id hopen hsettles
  obtain ⟨found, hfound, hfoundP, hentryP, hrestored⟩ := hfollows past tr rest hsplit hcommits
  obtain rfl : found = last := Option.some.inj (hfound.symm.trans hlast)
  obtain ⟨earlier, hearlier⟩ := List.getLast?_eq_some_iff.mp hlast
  have hstretch : [found, next] <:+: committedSnapshots trs := by
    rw [hsplit, committedSnapshots_split past rest hcommits, hearlier]
    exact ⟨earlier, committedSnapshots rest, by simp [Submission.snapshot]⟩
  have hpairwise := hfrozen id _ hstretch (by
    intro snapshot hmem
    rcases List.mem_pair.mp hmem with rfl | rfl
    · exact hopen
    · exact (hcommits.openAll_iff hopen hrestored).mpr hsettles)
  refine (hcommits.sameWork_iff hopen hfoundP hentryP hrestored).mp ?_
  exact (List.pairwise_pair.mp hpairwise)

/-- Along a run whose committing writes keep every count and length below
`2 ^ 32`, with revision ids that do not collide, open conflicts keep the
transactions off their scopes; and the work is frozen under a conflict without
a scope exactly when the writes under it pin the memory last committed. -/
theorem conflicts_freeze_iff {store : σ} (hempty : (MemoryBacked.memory store).revisions = [])
    (hrun : ServiceRun (ServiceState.start store) trs t) (hsized : SizedRun (2 ^ 32 - 1) trs)
    (hfree : Collisionless t) : ScopesRespected trs ∧ (Frozen trs ↔ PinsMemory trs) := by
  obtain ⟨-, hfollows⟩ := appendOnly_rule.soFar hempty hrun hsized hfree
  refine ⟨?_, pinsMemory_of_frozen hfollows, frozen_of_pinsMemory hfollows⟩
  intro past tr rest hsplit actor transaction entry next last hcommits hlast
  obtain ⟨found, hfound, -, -, hrestored⟩ := hfollows past tr rest hsplit hcommits
  obtain rfl : found = last := Option.some.inj (hfound.symm.trans hlast)
  have hrespects := hcommits.respects
  unfold Respects at hrespects ⊢
  rwa [← conflicts_eq_of_restored hrestored]

end Runs

/-! ## A conflict without a scope -/

section Conflicted

open scoped QivenContext.Reference

/-- Open a conflict without a scope. -/
def openAll (title : Str) (byte : UInt8) : Operation where
  kind := .openConflict
  title := title
  payload := [byte]

def opening (title : Str) (base : RevisionId) (byte : UInt8) : ContextTransaction where
  base := base
  operations := [openAll title byte]

theorem openAll_passes {current : Snapshot} {title : Str} (hne : title ≠ [])
    (hfresh : ∀ conflict ∈ current.conflicts, conflict.id ≠ title) (byte : UInt8) :
    invariantGate current (openAll title byte) = .ok () := by
  simp only [invariantGate, openAll, openConflictGate, gate_bind_eq_ok]
  exact ⟨refuseIf_eq_ok.mpr (by simp [hne]), refuseIf_eq_ok.mpr (by simpa using hfresh)⟩

/-- Under the default policy a conflict can be opened whatever else is open. -/
theorem OnHead.write_openAll {s : ServiceState MemoryStore} {m : Materialization}
    (honHead : OnHead s m) (hpolicy : m.state.policy = makeDefaultPolicy)
    (hboundary : m.state.state.nextBoundaryRef = []) (title : Str) (hne : title ≠ [])
    (hfresh : ∀ conflict ∈ m.state.conflicts, conflict.id ≠ title) (byte : UInt8) :
    ∃ t m', OnHead.Wrote s m (opening title m.revision byte) t m' := by
  refine honHead.write_passing _ (by simp [resolveKey, opening]) rfl (List.cons_ne_nil _ _) ?_
  refine successorOf_eq_ok.mpr ⟨?_, ?_, ?_, ?_, rfl⟩
  · intro operation hmem
    obtain rfl := List.mem_singleton.mp hmem
    exact policyGate_default hpolicy (by simp [openAll, opClassOf])
  · intro operation hmem
    obtain rfl := List.mem_singleton.mp hmem
    exact if_pos (.inl rfl)
  · intro operation hmem
    obtain rfl := List.mem_singleton.mp hmem
    exact openAll_passes hne hfresh byte
  · have hnil : (applyOperations (opening title m.revision byte) m.state).state.nextBoundaryRef =
        [] := hboundary
    simp [boundaryGate, hnil]

/-- The byte of a description stands alone in the encoding. -/
theorem serialize_openAll (snapshot : Snapshot) (title : Str) : ∃ before after, ∀ byte,
    serializeSnapshot { snapshot with
      conflicts := snapshot.conflicts ++ [openedConflict (openAll title byte)] } =
        before ++ byte :: after := by
  refine ⟨beforeEvidence snapshot ++ (putVector putEvidence snapshot.evidence ++
      (putU32 (UInt32.ofNat (snapshot.conflicts.length + 1)) ++
        snapshot.conflicts.flatMap putConflict ++ putStr title ++ putEnum Conflict.Status.isOpen ++
        putStr [] ++ putU32 1)),
    putStr [] ++ putVector putProfile snapshot.profiles ++ putVector putView snapshot.views ++
      putBool snapshot.invocation.present ++
      putVector putInvocationRule snapshot.invocation.rules ++ putVector putRole snapshot.roles,
    fun byte => ?_⟩
  have hbefore : beforeEvidence { snapshot with
      conflicts := snapshot.conflicts ++ [openedConflict (openAll title byte)] } =
        beforeEvidence snapshot := rfl
  have hpayload : putStr [byte] = putU32 1 ++ [byte] := rfl
  have hconflict : putConflict (openedConflict (openAll title byte)) = putStr title ++
      putEnum Conflict.Status.isOpen ++ putStr [] ++ putU32 1 ++ byte :: putStr [] := by
    simp only [putConflict, openedConflict, openAll, hpayload, List.append_assoc,
      List.singleton_append]
  rw [serializeSnapshot_evidence, hbefore, afterEvidence, putVector.eq_def putConflict,
    List.length_append, List.length_singleton, List.flatMap_append, List.flatMap_cons,
    List.flatMap_nil, hconflict]
  simp only [List.append_assoc, List.append_nil, List.cons_append]

def opened (title : Str) (byte : UInt8) : Conflict := openedConflict (openAll title byte)

/-- Genesis with conflicts. -/
def openedWorld (conflicts : List Conflict) : Snapshot :=
  { makeGenesis with conflicts := conflicts }

theorem openedWorld_fits {conflicts : List Conflict}
    (hshort : ∀ conflict ∈ conflicts, ShortConflict conflict)
    (hlength : conflicts.length ≤ 2 ^ 32 - 1) : Fits (openedWorld conflicts) :=
  ⟨{ genesis_stringsShort with conflicts := hshort },
    { (genesis_vectorsWithin (by norm_num) : VectorsWithin (2 ^ 32 - 1) makeGenesis) with
      conflicts := hlength }⟩

theorem opened_short {title : Str} (hshort : short title) (byte : UInt8) :
    ShortConflict (opened title byte) :=
  ⟨hshort, short_nil, by simp [opened, openedConflict, openAll, short], short_nil⟩

theorem serialize_openedWorld_ne {conflicts conflicts' : List Conflict}
    (hfits : Fits (openedWorld conflicts)) (hfits' : Fits (openedWorld conflicts'))
    (hne : conflicts ≠ conflicts') :
    serializeSnapshot (openedWorld conflicts) ≠ serializeSnapshot (openedWorld conflicts') := by
  intro hsame
  exact hne (congrArg Snapshot.conflicts (restored_eq_of_serialize_eq hfits hfits' hsame))

theorem room_openAll {conflicts : List Conflict} (hlength : conflicts.length < 2 ^ 32 - 1)
    (title : Str) (byte : UInt8) :
    Room (2 ^ 32 - 1) (openedWorld conflicts) [openAll title byte] := by
  refine ⟨?_, ?_, ?_, ?_, ?_, ?_, ?_, ?_, ?_⟩ <;>
    simp [openedWorld, makeGenesis, countKind, standingViews, amendIds, openAll]
  omega

theorem openAll_short {title : Str} (hshort : short title) (base : RevisionId) (byte : UInt8) :
    ShortTransaction (opening title base byte) := by
  refine ⟨short_nil, fun operation hmem => ?_⟩
  obtain rfl := List.mem_singleton.mp hmem
  exact ⟨short_nil, hshort, by simp [openAll, short], short_nil⟩

/-- A first client opens one conflict and then another, each under a revision of
its own. -/
theorem exists_opened :
    ∃ byte more trs s m t m' u m'', ServiceRun (ServiceState.start ({} : MemoryStore)) trs s ∧
      NoWrites trs ∧ m.state = openedWorld [] ∧
      OnHead.Wrote s m (opening (lit "conflict") m.revision byte) t m' ∧
      m'.state = openedWorld [opened (lit "conflict") byte] ∧
      OnHead.Wrote t m' (opening (lit "other") m'.revision more) u m'' ∧
      m''.state = openedWorld [opened (lit "conflict") byte, opened (lit "other") more] ∧
      (u.store.revisions.map Prod.fst).Nodup := by
  have hone (byte : UInt8) : ∀ conflict ∈ [opened (lit "conflict") byte],
      ShortConflict conflict := by
    intro conflict hmem
    obtain rfl := List.mem_singleton.mp hmem
    exact opened_short (by decide) byte
  have hfits (byte : UInt8) : Fits (openedWorld [opened (lit "conflict") byte]) :=
    openedWorld_fits (hone byte) (by simp)
  obtain ⟨byte, trs, s, m, t, m', hrun, hnone, -, hstate, hwrote, hstate', -, hrevisions,
    hfresh⟩ := exists_fresh_write (opening (lit "conflict"))
      (fun byte => openedWorld [opened (lit "conflict") byte]) (by
      intro s m byte honHead hstate _
      obtain ⟨t, m', hwrote⟩ := honHead.write_openAll (by rw [hstate]; rfl) (by rw [hstate]; rfl)
        (lit "conflict") (by decide) (by rw [hstate]; simp [makeGenesis]) byte
      exact ⟨t, m', hwrote, hwrote.state.trans (by rw [hstate]; rfl)⟩)
      (serialize_openAll makeGenesis (lit "conflict")) fun byte =>
        serialize_openedWorld_ne (hfits byte) (show Fits (openedWorld []) from genesis_fits)
          (List.cons_ne_nil _ _)
  have hhead : t.store.headBytes =
      some (serializeSnapshot (openedWorld [opened (lit "conflict") byte])) := by
    simp [MemoryStore.headBytes, hrevisions]
  obtain ⟨more, -, u, m'', hwrote', hstate'', hafter, hlast⟩ := hwrote.onHead.exists_fresh
    (opening (lit "other") m'.revision)
    (fun more => openedWorld [opened (lit "conflict") byte, opened (lit "other") more]) (by
      intro more
      obtain ⟨u, m'', hwrote'⟩ := hwrote.onHead.write_openAll (by rw [hstate']; rfl)
        (by rw [hstate']; rfl) (lit "other") (by decide) (by
          intro conflict hmem
          rw [hstate'] at hmem
          obtain rfl := List.mem_singleton.mp hmem
          exact (by decide : lit "conflict" ≠ lit "other")) more
      exact ⟨u, m'', hwrote', hwrote'.state.trans (by rw [hstate']; rfl)⟩)
    (serialize_openAll (openedWorld [opened (lit "conflict") byte]) (lit "other")) (by
      intro more hsame
      rw [hhead] at hsame
      refine serialize_openedWorld_ne (hfits byte) (openedWorld_fits ?_ (by simp)) ?_
        (Option.some.inj hsame)
      · intro conflict hmem
        rcases List.mem_pair.mp hmem with rfl | rfl
        · exact opened_short (by decide) byte
        · exact opened_short (by decide) more
      · simp) (show ([0, 1, 2] : List UInt8).Nodup by decide) (by simp [hrevisions])
  refine ⟨byte, more, trs, s, m, t, m', u, m'', hrun, hnone, hstate, hwrote, hstate', hwrote',
    hstate'', ?_⟩
  rw [hafter, List.map_append, List.nodup_append]
  rw [hrevisions] at hlast ⊢
  simpa [Ne.symm hfresh, eq_comm] using hlast

/-- Two commits under an open conflict without a scope. -/
theorem opened_frozen :
    ∃ (trs : List (ServiceTransition MemoryStore)) (t : ServiceState MemoryStore)
      (id : Str) (before after : Snapshot), ServiceRun (ServiceState.start {}) trs t ∧
        [before, after] <:+: committedSnapshots trs ∧ OpenAll id before ∧ OpenAll id after ∧
        ScopesRespected trs ∧ Frozen trs := by
  obtain ⟨byte, more, trs, s, m, t, m', u, m'', hrun, hnone, hstate, hwrote, hstate', hwrote',
    hstate'', hnodup⟩ := exists_opened
  have hrun' := hwrote'.run (hwrote.run hrun)
  have hsized : SizedRun (2 ^ 32 - 1)
      (trs ++ [OnHead.written s m (opening (lit "conflict") m.revision byte) t m'] ++
        [OnHead.written t m' (opening (lit "other") m'.revision more) u m'']) :=
    hwrote'.forall_commits (hwrote.forall_commits hnone.forall_commits
      ⟨(openAll_short (by decide) _ byte).stored, hstate ▸ room_openAll (by simp) _ byte⟩)
      ⟨(openAll_short (by decide) _ more).stored, hstate' ▸ room_openAll (by simp) _ more⟩
  have hfree : Collisionless u := (chained_of_run rfl hrun').collisionFree hnodup
  have hpinned := hwrote'.forall_commits (W := fun _ _ entry _ => entry.state.memory = [])
    (hwrote.forall_commits hnone.forall_commits (hstate ▸ rfl)) (hstate' ▸ rfl)
  have hcommitted : committedSnapshots
      (trs ++ [OnHead.written s m (opening (lit "conflict") m.revision byte) t m'] ++
        [OnHead.written t m' (opening (lit "other") m'.revision more) u m'']) =
      committedSnapshots trs ++ [m'.state] ++ [m''.state] := by
    rw [hwrote'.committedSnapshots, hwrote.committedSnapshots]
  have hmemory : ∀ snapshot ∈ committedSnapshots trs ++ [m'.state] ++ [m''.state],
      snapshot.memory = [] := by
    refine forall_mem_append_singleton (forall_mem_append_singleton (fun snapshot hmem => ?_) ?_) ?_
    · rw [hnone.eq_genesis snapshot hmem]
      rfl
    · rw [hstate']
      rfl
    · rw [hstate'']
      rfl
  obtain ⟨hrespected, hfrozen⟩ := conflicts_freeze_iff rfl hrun' hsized hfree
  refine ⟨_, u, lit "conflict", m'.state, m''.state, hrun',
    ⟨committedSnapshots trs, [], by rw [hcommitted]; simp⟩, ?_, ?_, hrespected,
    hfrozen.mpr (pinsMemory_of_nil (hcommitted ▸ hmemory) hpinned)⟩
  · rw [hstate']
    exact ⟨_, List.mem_singleton_self _, rfl, rfl, rfl⟩
  · rw [hstate'']
    exact ⟨_, List.mem_cons_self, rfl, rfl, rfl⟩

def lessonConflict (byte : UInt8) : Snapshot :=
  { genesisWithLesson with conflicts := [openedConflict (openAll (lit "conflict") byte)] }

theorem lessonConflict_fits (byte : UInt8) :
    StringsShort (lessonConflict byte) ∧ VectorsWithin 100000 (lessonConflict byte) := by
  refine ⟨{ genesisWithLesson_stringsShort with conflicts := ?_ },
    { genesisWithLesson_vectorsWithin with conflicts := by simp [lessonConflict] }⟩
  intro conflict hmem
  obtain rfl := List.mem_singleton.mp hmem
  exact ⟨(by decide : short (lit "conflict")), short_nil, by simp [openedConflict, openAll, short],
    short_nil⟩

theorem serialize_lessonConflict_ne (byte : UInt8) :
    serializeSnapshot (lessonConflict byte) ≠ serializeSnapshot makeGenesis := by
  intro hsame
  obtain ⟨hstrings, hvectors⟩ := lessonConflict_fits byte
  have hrestored := restored_eq_of_serialize_eq ⟨hstrings, hvectors.mono (by norm_num)⟩
    genesis_fits hsame
  exact List.cons_ne_nil _ _ (congrArg Snapshot.conflicts hrestored)

/-- The lesson is committed as verified under an open conflict, booted as an
observation, and committed as one while the conflict is still open. -/
theorem lesson_not_frozen :
    ∃ (trs : List (ServiceTransition MemoryStore)) (t : ServiceState MemoryStore),
      ServiceRun (ServiceState.start {}) trs t ∧ ¬ Frozen trs := by
  obtain ⟨byte, trs, s, m, t, m', hrun, -, -, -, hwrote, hstate, -, hrevisions, hfresh⟩ :=
    exists_fresh_write (fun base byte => {
      base := base
      operations := [addLesson, openAll (lit "conflict") byte] }) lessonConflict (by
      intro s m byte honHead hstate _
      exact honHead.write_plain hstate genesis_quiet
        [addLesson, openAll (lit "conflict") byte] _ (List.cons_ne_nil _ _)
        (by simp [addLesson, openAll, opClassOf]) (by simp [addLesson, openAll])
        (fun operation hmem => by
          rcases List.mem_pair.mp hmem with rfl | rfl
          · rfl
          · exact openAll_passes (by decide) (by simp [makeGenesis]) byte) rfl)
      (serialize_openAll genesisWithLesson (lit "conflict")) serialize_lessonConflict_ne
  have hparsed : deserialize (t.store.materialize t.store.head) =
      .ok (restored (lessonConflict byte)) := by
    rw [hwrote.onHead.head, MemoryStore.materialize_of_pair hrevisions hfresh,
      deserialize_serialize (lessonConflict_fits byte).1 (lessonConflict_fits byte).2]
  obtain ⟨m'', u, hstep, hsubmits, honHead, hbooted, -⟩ := hwrote.onHead.boot hparsed rfl
  obtain ⟨v, last, hwrote'⟩ := honHead.write_openAll (by rw [hbooted]; rfl) (by rw [hbooted]; rfl)
    (lit "other") (by decide) (by
      intro conflict hmem
      rw [hbooted] at hmem
      obtain rfl := List.mem_singleton.mp hmem
      exact (by decide : lit "conflict" ≠ lit "other")) 0
  refine ⟨_, v, hwrote'.run ((hwrote.run hrun).snoc hstep), fun hfrozen => ?_⟩
  have hpairwise := hfrozen (lit "conflict") [m'.state, last.state]
    ⟨committedSnapshots trs, [], by
      rw [hwrote'.committedSnapshots, committedSnapshots_booted hsubmits,
        hwrote.committedSnapshots]
      simp⟩ (by
      intro snapshot hmem
      rcases List.mem_pair.mp hmem with rfl | rfl
      · rw [hstate]
        exact ⟨_, List.mem_singleton_self _, rfl, rfl, rfl⟩
      · rw [hwrote'.state, hbooted]
        exact ⟨_, List.mem_cons_self, rfl, rfl, rfl⟩)
  have hmemory := (List.pairwise_pair.mp hpairwise).memory
  rw [hwrote'.state, hbooted, hstate] at hmemory
  have hsame : restoredMemory verifiedLesson = verifiedLesson := (List.cons.inj hmemory).1
  exact absurd hsame (by decide)

end Conflicted

end QivenContext
