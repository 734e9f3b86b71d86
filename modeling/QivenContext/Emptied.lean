import QivenContext.Review

/-!
# A text that empties the tables

A text of `2 ^ 32` bytes is written under the size zero. Here its bytes are
the fields that follow it, all empty, and a view whose last profile reference
is still open where the text ends. That reference takes in every table that
the encoder writes behind the text.
-/

namespace QivenContext

open Library Snapshot ServiceState

/-- What the encoder writes after the current state, up to the views. -/
def afterCurrent (snapshot : Snapshot) : Bytes :=
  putStr snapshot.state.checkpointRef ++ putStr snapshot.state.candidateRef ++
    putStr snapshot.state.nextBoundaryRef ++ putStr snapshot.state.repositories ++
    putStr snapshot.state.roadmap ++ putVector putDecision snapshot.decisions ++
    putVector putMemoryRecord snapshot.memory ++ putVector putObligation snapshot.obligations ++
    putVector putEvidence snapshot.evidence ++ putVector putConflict snapshot.conflicts ++
    putVector putProfile snapshot.profiles ++ putVector putView snapshot.views

/-- Fields and tables without content, up to the references of the only view. -/
def emptyTables (byte : UInt8) : Bytes :=
  putStr [] ++ putStr [] ++ putStr [] ++ putStr [] ++ putStr [] ++ putVector putDecision [] ++
    putVector putMemoryRecord [] ++ putVector putObligation [] ++ putVector putEvidence [] ++
    putVector putConflict [] ++ putVector putProfile [] ++
    (putU32 1 ++ putStr [byte] ++ putStr [] ++ putStr [] ++ putStr [] ++ putU32 2)

def emptyFill : Str := List.replicate (2 ^ 32 - 77) 0

/-- The text, for a snapshot whose tables are to be taken in. -/
def emptyingText (byte : UInt8) (snapshot : Snapshot) : Str :=
  emptyTables byte ++ putStr emptyFill ++ putU32 (UInt32.ofNat (afterCurrent snapshot).length)

def withCurrent (text : Str) (snapshot : Snapshot) : Snapshot :=
  { snapshot with state := { snapshot.state with current := text } }

/-- What is left, besides the governed part and the objective. -/
def openView (byte : UInt8) (snapshot : Snapshot) : ViewSpec where
  id := [byte]
  profileRefs := [emptyFill, afterCurrent snapshot]

def emptied (byte : UInt8) (snapshot : Snapshot) : Snapshot where
  governance := snapshot.governance
  constitution := snapshot.constitution
  policy := snapshot.policy
  invocation := snapshot.invocation
  state := { objective := snapshot.state.objective }
  views := [openView byte snapshot]
  roles := snapshot.roles

section Emptied

variable {byte : UInt8} {snapshot : Snapshot}

theorem length_emptyTables (byte : UInt8) : (emptyTables byte).length = 69 := by
  rfl

theorem length_emptyingText (byte : UInt8) (snapshot : Snapshot) :
    (emptyingText byte snapshot).length = 2 ^ 32 := by
  simp only [emptyingText, List.length_append, length_emptyTables, putStr, length_putU32,
    emptyFill, List.length_replicate]
  norm_num

theorem emptyingText_ne_nil (byte : UInt8) (snapshot : Snapshot) :
    emptyingText byte snapshot ≠ [] := by
  intro hnil
  have hlength := length_emptyingText byte snapshot
  rw [hnil] at hlength
  simp at hlength

theorem serialize_withCurrent (byte : UInt8) (snapshot : Snapshot) :
    serializeSnapshot (withCurrent (emptyingText byte snapshot) snapshot) =
      serializeSnapshot (emptied byte snapshot) := by
  have hwrap : putU32 (UInt32.ofNat (emptyingText byte snapshot).length) = putU32 0 :=
    putU32_wrap (by rw [length_emptyingText]; norm_num)
  have htext : putStr (emptyingText byte snapshot) = putStr [] ++ (emptyTables byte ++
      putStr emptyFill ++ putU32 (UInt32.ofNat (afterCurrent snapshot).length)) := by
    rw [putStr, hwrap]
    rfl
  have hview : putVector putView (emptied byte snapshot).views = putU32 1 ++ putStr [byte] ++
      putStr [] ++ putStr [] ++ putStr [] ++ putU32 2 ++ putStr emptyFill ++
      (putU32 (UInt32.ofNat (afterCurrent snapshot).length) ++ afterCurrent snapshot) := by
    simp only [putVector, emptied, List.flatMap_cons, List.flatMap_nil, putView, openView,
      List.append_nil, List.append_assoc]
    rfl
  simp only [serializeSnapshot, hview]
  simp only [withCurrent, putState, htext, emptied, emptyTables, afterCurrent, List.append_assoc]

theorem emptied_stringsShort (hstrings : StringsShort snapshot)
    (hshort : short (afterCurrent snapshot)) : StringsShort (emptied byte snapshot) where
  rootPrincipal := hstrings.rootPrincipal
  articles := hstrings.articles
  rules := hstrings.rules
  state := ⟨hstrings.state.objective, short_nil, short_nil, short_nil, short_nil, short_nil,
    short_nil⟩
  decisions := by simp [emptied]
  memory := by simp [emptied]
  obligations := by simp [emptied]
  evidence := by simp [emptied]
  conflicts := by simp [emptied]
  profiles := by simp [emptied]
  views := by
    intro view hmem
    obtain rfl := List.mem_singleton.mp hmem
    refine ⟨by simp [openView, short], short_nil, short_nil, short_nil, fun ref href => ?_⟩
    rcases List.mem_pair.mp href with rfl | rfl
    · simp only [short, emptyFill, List.length_replicate]
      norm_num
    · exact hshort
  roles := hstrings.roles

theorem emptied_vectorsWithin {cap : ℕ} (hcap : 2 ≤ cap) (hvectors : VectorsWithin cap snapshot) :
    VectorsWithin cap (emptied byte snapshot) where
  articles := hvectors.articles
  handoff := hvectors.handoff
  recovery := hvectors.recovery
  rules := hvectors.rules
  decisions := Nat.zero_le _
  decision := by simp [emptied]
  memory := Nat.zero_le _
  record := by simp [emptied]
  obligations := Nat.zero_le _
  evidence := Nat.zero_le _
  conflicts := Nat.zero_le _
  profiles := Nat.zero_le _
  views := by simp only [emptied, List.length_singleton]; omega
  view := by
    intro view hmem
    obtain rfl := List.mem_singleton.mp hmem
    exact hcap
  roles := hvectors.roles
  role := hvectors.role

/-- The tables are gone, and there is a view of nothing. -/
theorem deserialize_withCurrent [Foundation] (hstrings : StringsShort snapshot)
    (hvectors : VectorsWithin 100000 snapshot) (hshort : short (afterCurrent snapshot)) :
    deserialize (serializeSnapshot (withCurrent (emptyingText byte snapshot) snapshot)) =
      .ok (emptied byte snapshot) := by
  rw [serialize_withCurrent, deserialize_serialize (emptied_stringsShort hstrings hshort)
    (emptied_vectorsWithin (by norm_num) hvectors)]
  rfl

theorem serialize_withCurrent_ne [Foundation] (hfits : Fits snapshot)
    (hshort : short (afterCurrent snapshot))
    (hviews : makeGenesis.views ≠ [openView byte snapshot]) :
    serializeSnapshot (withCurrent (emptyingText byte snapshot) snapshot) ≠
      serializeSnapshot makeGenesis := by
  intro hsame
  rw [serialize_withCurrent] at hsame
  have hrestored := restored_eq_of_serialize_eq
    ⟨emptied_stringsShort hfits.strings hshort, emptied_vectorsWithin (by norm_num) hfits.vectors⟩
    genesis_fits hsame
  exact hviews (congrArg Snapshot.views hrestored).symm

/-- The byte of the id stands alone in the encoding. -/
theorem serialize_withCurrent_split (snapshot : Snapshot) : ∃ before after, ∀ byte,
    serializeSnapshot (withCurrent (emptyingText byte snapshot) snapshot) =
      before ++ byte :: after := by
  refine ⟨putU8 serializationVersionLimit ++ putStr snapshot.governance.rootPrincipal ++
      putVector putStr snapshot.constitution.articles ++
      putVector putHandoffPolicy snapshot.policy.handoff ++
      putVector putRecoveryRule snapshot.policy.recovery ++
      putState { objective := snapshot.state.objective } ++ putVector putDecision [] ++
      putVector putMemoryRecord [] ++ putVector putObligation [] ++ putVector putEvidence [] ++
      putVector putConflict [] ++ putVector putProfile [] ++ putU32 1 ++ putU32 1,
    putStr [] ++ putStr [] ++ putStr [] ++ putVector putStr [emptyFill, afterCurrent snapshot] ++
      putBool snapshot.invocation.present ++
      putVector putInvocationRule snapshot.invocation.rules ++ putVector putRole snapshot.roles,
    fun byte => ?_⟩
  have hcount : putVector putView (emptied byte snapshot).views =
      putU32 1 ++ putView (openView byte snapshot) := by
    simp only [putVector, emptied, List.flatMap_cons, List.flatMap_nil, List.append_nil]
    rfl
  have hid : putStr [byte] = putU32 1 ++ [byte] := rfl
  rw [serialize_withCurrent, serializeSnapshot, hcount, putView, openView, hid]
  simp only [emptied, List.append_assoc, List.cons_append, List.nil_append]

end Emptied

section Run

open scoped QivenContext.Reference

/-- A first client writes the text, under a revision of its own, and boots again. -/
theorem exists_emptied {snapshot : Snapshot}
    (transaction : RevisionId → UInt8 → ContextTransaction) (hstrings : StringsShort snapshot)
    (hvectors : VectorsWithin 100000 snapshot) (hshort : short (afterCurrent snapshot))
    (hgoverned : snapshot.governance = makeGenesis.governance)
    (hwrite : ∀ s m byte, OnHead s m → m.state = makeGenesis →
      ∃ t m', OnHead.Wrote s m (transaction m.revision byte) t m' ∧
        m'.state = withCurrent (emptyingText byte snapshot) snapshot) :
    ∃ byte trs s m t m' u m'', ServiceRun (ServiceState.start ({} : MemoryStore)) trs s ∧
      NoWrites trs ∧ m.state = makeGenesis ∧
      OnHead.Wrote s m (transaction m.revision byte) t m' ∧
      t.step (.createCognition {}) = some (.created (.handle m''), u) ∧
      t.submits (.createCognition {}) = none ∧ OnHead u m'' ∧
      m''.state = emptied byte snapshot := by
  have hfits : Fits snapshot := ⟨hstrings, hvectors.mono (by norm_num)⟩
  obtain ⟨byte, trs, s, m, t, m', hrun, hnone, -, hstate, hwrote, -, -, hrevisions, hfresh⟩ :=
    exists_fresh_write transaction _
      (fun s m byte honHead hstate _ => hwrite s m byte honHead hstate)
      (serialize_withCurrent_split snapshot) fun byte =>
        serialize_withCurrent_ne hfits hshort (List.cons_ne_nil _ _).symm
  have hparsed : deserialize (t.store.materialize t.store.head) = .ok (emptied byte snapshot) := by
    rw [hwrote.onHead.head, MemoryStore.materialize_of_pair hrevisions hfresh,
      deserialize_withCurrent hstrings hvectors hshort]
  obtain ⟨m'', u, hstep, hsubmits, honHead, hstate'', -⟩ := hwrote.onHead.boot hparsed hgoverned
  exact ⟨byte, trs, s, m, t, m', u, m'', hrun, hnone, hstate, hwrote, hstep, hsubmits, honHead,
    hstate''⟩

end Run

end QivenContext
