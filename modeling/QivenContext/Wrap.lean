import QivenContext.Fresh

/-!
# What the encoder cannot tell apart

A size of `2 ^ 32` is written as zero while everything it counts is still
written. A decoder that reads zero goes on with what was counted, so bytes
that one snapshot carries as text or as records are, to the decoder, the
fields of another.
-/

namespace QivenContext

open Library Snapshot

theorem putU32_wrap {n : ℕ} (h : n % 2 ^ 32 = 0) : putU32 (UInt32.ofNat n) = putU32 0 := by
  have hzero : UInt32.ofNat n = 0 := by
    apply UInt32.toNat_inj.mp
    rw [UInt32.toNat_ofNat']
    exact h
  rw [hzero]

/-! ## A text of `2 ^ 32` bytes -/

/-- What the encoder writes after the current state and before the evidence
records of genesis. -/
def stateTail : Bytes :=
  putStr makeGenesis.state.checkpointRef ++ putStr makeGenesis.state.candidateRef ++
    putStr makeGenesis.state.nextBoundaryRef ++ putStr makeGenesis.state.repositories ++
    putStr makeGenesis.state.roadmap ++ putVector putDecision makeGenesis.decisions ++
    putVector putMemoryRecord makeGenesis.memory ++
    putVector putObligation makeGenesis.obligations ++ putVector putEvidence makeGenesis.evidence

/-- A decision nobody reviewed. -/
def forgedDecision (byte : UInt8) : Decision where
  id := 1
  status := .accepted
  title := [byte]
  content := lit "content"

/-- The fields of a state and of the tables up to the evidence, with the
forged decision among them. -/
def forgedFields (byte : UInt8) : Bytes :=
  putStr [] ++ putStr [] ++ putStr [] ++ putStr [] ++ putStr [] ++
    putVector putDecision [forgedDecision byte] ++
    putVector putMemoryRecord makeGenesis.memory ++
    putVector putObligation makeGenesis.obligations ++ putU32 1

def forgedFill : Str := List.replicate (2 ^ 32 - 81) 0

/-- A text whose bytes are the forged fields, then a piece of evidence that is
still open where the text ends. -/
def forgedText (byte : UInt8) : Str :=
  forgedFields byte ++ putStr forgedFill ++ putU32 (UInt32.ofNat stateTail.length)

/-- Genesis with the text for its current state. -/
def writtenWorld (byte : UInt8) : Snapshot :=
  { makeGenesis with state := { makeGenesis.state with current := forgedText byte } }

/-- What its bytes decode to. -/
def readWorld (byte : UInt8) : Snapshot :=
  { makeGenesis with
    state := { objective := makeGenesis.state.objective }
    decisions := [forgedDecision byte]
    evidence := [⟨forgedFill, stateTail⟩] }

theorem length_forgedFields (byte : UInt8) : (forgedFields byte).length = 73 := by
  rfl

theorem length_forgedText (byte : UInt8) : (forgedText byte).length = 2 ^ 32 := by
  simp only [forgedText, List.length_append, length_forgedFields, putStr, length_putU32,
    forgedFill, List.length_replicate]
  norm_num

theorem serialize_writtenWorld (byte : UInt8) :
    serializeSnapshot (writtenWorld byte) = serializeSnapshot (readWorld byte) := by
  have hwrap : putU32 (UInt32.ofNat (forgedText byte).length) = putU32 0 :=
    putU32_wrap (by rw [length_forgedText]; norm_num)
  have htext : putStr (forgedText byte) = putStr [] ++ (forgedFields byte ++ putStr forgedFill ++
      putU32 (UInt32.ofNat stateTail.length)) := by
    rw [putStr, hwrap]
    rfl
  have hstate : putState (writtenWorld byte).state = putStr makeGenesis.state.objective ++
      putStr (forgedText byte) ++ putStr makeGenesis.state.checkpointRef ++
      putStr makeGenesis.state.candidateRef ++ putStr makeGenesis.state.nextBoundaryRef ++
      putStr makeGenesis.state.repositories ++ putStr makeGenesis.state.roadmap := rfl
  have hevidence : putVector putEvidence (readWorld byte).evidence =
      putU32 1 ++ putStr forgedFill ++ (putU32 (UInt32.ofNat stateTail.length) ++ stateTail) := by
    simp only [putVector, readWorld, List.flatMap_cons, List.flatMap_nil, putEvidence,
      List.append_nil, List.append_assoc]
    rfl
  have hread : putState (readWorld byte).state = putStr makeGenesis.state.objective ++ putStr [] ++
      putStr [] ++ putStr [] ++ putStr [] ++ putStr [] ++ putStr [] := rfl
  simp only [serializeSnapshot, hstate, htext, hread, hevidence]
  simp only [writtenWorld, readWorld, forgedFields, stateTail, List.append_assoc]

theorem readWorld_stringsShort (byte : UInt8) : StringsShort (readWorld byte) :=
  { genesis_stringsShort with
    state := ⟨genesis_stringsShort.state.objective, short_nil, short_nil, short_nil, short_nil,
      short_nil, short_nil⟩
    decisions := by
      intro decision hmem
      obtain rfl := List.mem_singleton.mp hmem
      exact ⟨by simp [forgedDecision, short], (by decide : short (lit "content")),
        by simp [forgedDecision, ShortProvenance]⟩
    evidence := by
      intro record hmem
      obtain rfl := List.mem_singleton.mp hmem
      refine ⟨?_, (by decide : short stateTail)⟩
      simp only [short, forgedFill, List.length_replicate]
      norm_num }

theorem readWorld_vectorsWithin (byte : UInt8) : VectorsWithin 100000 (readWorld byte) :=
  { (genesis_vectorsWithin (by norm_num) : VectorsWithin 100000 makeGenesis) with
    decisions := by simp [readWorld]
    decision := by
      intro decision hmem
      obtain rfl := List.mem_singleton.mp hmem
      exact ⟨by simp [forgedDecision], by simp [forgedDecision], by simp [forgedDecision]⟩
    evidence := by simp [readWorld] }

/-- The text comes back as the fields it spells. -/
theorem deserialize_writtenWorld [Foundation] (byte : UInt8) :
    deserialize (serializeSnapshot (writtenWorld byte)) = .ok (readWorld byte) := by
  rw [serialize_writtenWorld, deserialize_serialize (readWorld_stringsShort byte)
    (readWorld_vectorsWithin byte)]
  rfl

theorem serialize_writtenWorld_ne [Foundation] (byte : UInt8) :
    serializeSnapshot (writtenWorld byte) ≠ serializeSnapshot makeGenesis := by
  intro hsame
  rw [serialize_writtenWorld] at hsame
  have hrestored := restored_eq_of_serialize_eq
    ⟨readWorld_stringsShort byte, (readWorld_vectorsWithin byte).mono (by norm_num)⟩
    genesis_fits hsame
  exact List.cons_ne_nil _ _ (congrArg Snapshot.decisions hrestored)

theorem serialize_writtenWorld_split : ∃ before after, ∀ byte,
    serializeSnapshot (writtenWorld byte) = before ++ byte :: after := by
  obtain ⟨before, after, hsplit⟩ := serialize_title (readWorld 0) (forgedDecision 0)
  exact ⟨before, after, fun byte => (serialize_writtenWorld byte).trans (hsplit byte)⟩

/-! ## `2 ^ 32` pieces of evidence -/

theorem flatten_replicate_append {α : Type} (n : ℕ) (a b rest : List α) :
    (List.replicate n (a ++ b)).flatten ++ (a ++ rest) =
      a ++ ((List.replicate n (b ++ a)).flatten ++ rest) := by
  induction n with
  | zero => simp
  | succ n ih => simp only [List.replicate_succ, List.flatten_cons, List.append_assoc, ih]

theorem flatMap_flatten_replicate {α β : Type} (n : ℕ) (block : List α) (f : α → List β) :
    (List.replicate n block).flatten.flatMap f = (List.replicate n (block.flatMap f)).flatten := by
  induction n with
  | zero => rfl
  | succ n ih => rw [List.replicate_succ, List.flatten_cons, List.flatMap_append, ih,
      List.replicate_succ, List.flatten_cons]

def fillCount : ℕ := 286331152

def padCount : ℕ := 16777161

/-- The least evidence that the gates let through. -/
def filler : EvidenceRecord := ⟨[0], [0]⟩

/-- A source up to the bytes of its note. -/
def noteHead (note : Str) : Bytes :=
  putEnum SourceType.Kind.userStatement ++ putStr [] ++ putU32 (UInt32.ofNat note.length)

/-- Fillers, and the evidence after them up to a content of nine bytes. -/
def fillNote : Str :=
  (List.replicate fillCount filler).flatMap putEvidence ++ (putStr [0] ++ putU32 9)

/-- What the encoder writes after the evidence of genesis. -/
def tailNote : Str := afterEvidence makeGenesis

def firstNote (byte : UInt8) : Str := byte :: List.replicate padCount 0

/-- The rest of a conflict whose texts are empty, and the tables up to the
sources of the only role. -/
def foldedFields : Bytes :=
  putStr [] ++ putStr [] ++ putStr [] ++ putVector putProfile [] ++ putVector putView [] ++
    putBool false ++ putVector putInvocationRule [] ++ putU32 1 ++
    (putEnum Role.owner ++ putVector putEnum ([] : List OperationClass) ++ putVector putStr [] ++
      putBool false ++ putEnum CapabilityClass.none ++ putBool false) ++ putU32 16

def countedBlock : List EvidenceRecord :=
  List.replicate fillCount filler ++ [⟨[0], noteHead fillNote⟩]

/-- Pieces of evidence, `2 ^ 32` of them, whose bytes are the tables that follow
the evidence in the encoding of another snapshot. -/
def countedEvidence (byte : UInt8) : List EvidenceRecord :=
  ⟨[0], foldedFields ++ noteHead (firstNote byte ++ fillNote) ++ firstNote byte⟩ ::
    ((List.replicate 14 countedBlock).flatten ++
      (List.replicate fillCount filler ++ [⟨[0], noteHead tailNote⟩]))

def laterSources : List SourceType :=
  List.replicate 14 { note := fillNote } ++ [{ note := tailNote }]

def foldedSources (byte : UInt8) : List SourceType :=
  { note := firstNote byte ++ fillNote } :: laterSources

/-- Genesis with the pieces of evidence. -/
def countedWorld (byte : UInt8) : Snapshot :=
  { makeGenesis with evidence := countedEvidence byte }

/-- What its bytes decode to. -/
def foldedWorld (byte : UInt8) : Snapshot :=
  { makeGenesis with
    invocation := {}
    conflicts := [{ status := .resolved }]
    roles := [{ id := .owner, provenance := { sources := foldedSources byte } }] }

theorem firstNote_append (byte : UInt8) (rest : Str) :
    firstNote byte ++ rest = byte :: (List.replicate padCount 0 ++ rest) := by
  rw [firstNote, List.cons_append]

theorem noteHead_congr {note note' : Str} (h : note.length = note'.length) :
    noteHead note = noteHead note' := by
  rw [noteHead, noteHead, h]

theorem length_noteHead (note : Str) : (noteHead note).length = 9 := by
  simp [noteHead, putEnum, putU8, putStr, length_putU32]

theorem putSource_note (note : Str) : putSource { note := note } = noteHead note ++ note := by
  simp only [putSource, noteHead, putStr, List.append_assoc]

theorem length_fillers_append (record : EvidenceRecord) :
    (List.replicate fillCount filler ++ [record]).length = 286331153 := by
  rw [List.length_append, List.length_replicate, List.length_singleton]
  rfl

theorem length_countedEvidence (byte : UInt8) : (countedEvidence byte).length = 2 ^ 32 := by
  have hblocks : (List.replicate 14 countedBlock).flatten.length = 14 * 286331153 := by
    rw [List.length_flatten, List.map_replicate, List.sum_replicate_nat, countedBlock,
      length_fillers_append]
  rw [countedEvidence, List.length_cons, List.length_append, hblocks, length_fillers_append]
  norm_num

/-- Fillers and a nine-byte content are the note of a source of fillers, and the
head of the next. -/
theorem flatMap_fillers_append (note : Str) :
    (List.replicate fillCount filler ++ [(⟨[0], noteHead note⟩ : EvidenceRecord)]).flatMap
      putEvidence = fillNote ++ noteHead note := by
  have hcontent : putStr (noteHead note) = putU32 9 ++ noteHead note := by
    rw [putStr, length_noteHead]
    rfl
  rw [List.flatMap_append, List.flatMap_cons, List.flatMap_nil, putEvidence, hcontent, fillNote]
  simp only [List.append_assoc, List.append_nil]

theorem length_foldedFields : foldedFields.length = 45 := by
  rfl

theorem length_firstContent (byte : UInt8) :
    (foldedFields ++ noteHead (firstNote byte ++ fillNote) ++ firstNote byte).length = 2 ^ 24 := by
  have hpad : padCount = 16777161 := rfl
  rw [List.length_append, List.length_append, length_foldedFields, length_noteHead, firstNote,
    List.length_cons, List.length_replicate, hpad]
  norm_num

/-- The bytes of the pieces of evidence and of what follows them. -/
theorem flatMap_countedEvidence (byte : UInt8) :
    (countedEvidence byte).flatMap putEvidence ++ tailNote =
      putStr [0] ++ putU32 (UInt32.ofNat (2 ^ 24)) ++ foldedFields ++
        (foldedSources byte).flatMap putSource := by
  have hfirst : putStr (foldedFields ++ noteHead (firstNote byte ++ fillNote) ++ firstNote byte) =
      putU32 (UInt32.ofNat (2 ^ 24)) ++
        (foldedFields ++ noteHead (firstNote byte ++ fillNote) ++ firstNote byte) := by
    rw [putStr, length_firstContent]
  have hblocks : (List.replicate 14 countedBlock).flatten.flatMap putEvidence =
      (List.replicate 14 (fillNote ++ noteHead fillNote)).flatten := by
    rw [flatMap_flatten_replicate, countedBlock, flatMap_fillers_append]
  have hsources : (List.replicate 14 ({ note := fillNote } : SourceType)).flatMap putSource =
      (List.replicate 14 (noteHead fillNote ++ fillNote)).flatten := by
    rw [List.flatMap_replicate, putSource_note]
  rw [countedEvidence, List.flatMap_cons, List.flatMap_append, hblocks, flatMap_fillers_append,
    putEvidence, hfirst, foldedSources, laterSources, List.flatMap_cons, List.flatMap_append,
    hsources, putSource_note, List.flatMap_cons, putSource_note, List.flatMap_nil]
  simp only [List.append_assoc, List.append_nil, flatten_replicate_append]

theorem length_foldedSources (byte : UInt8) : (foldedSources byte).length = 16 := by
  rfl

/-- What the encoder writes after the evidence of the folded snapshot. -/
theorem afterEvidence_foldedWorld (byte : UInt8) :
    afterEvidence (foldedWorld byte) = putStr [0] ++ putU32 (UInt32.ofNat (2 ^ 24)) ++
      foldedFields ++ (foldedSources byte).flatMap putSource := by
  have hprovenance : putProvenance { sources := foldedSources byte } =
      putU32 16 ++ (foldedSources byte).flatMap putSource := by
    rw [putProvenance, putVector, length_foldedSources]
    rfl
  have hconflicts : putVector putConflict (foldedWorld byte).conflicts =
      putStr [0] ++ putU32 (UInt32.ofNat (2 ^ 24)) ++ putStr [] ++ putStr [] ++ putStr [] := by
    rfl
  have hroles : putVector putRole (foldedWorld byte).roles = putU32 1 ++
      (putEnum Role.owner ++ putVector putEnum ([] : List OperationClass) ++ putVector putStr [] ++
        putBool false ++ putEnum CapabilityClass.none ++ putBool false) ++
      putProvenance { sources := foldedSources byte } := by
    simp only [putVector, foldedWorld, List.flatMap_cons, List.flatMap_nil, List.append_nil,
      putRole, List.append_assoc]
    rfl
  simp only [afterEvidence, hconflicts, hroles, hprovenance, foldedFields, List.append_assoc]
  rfl

theorem serialize_countedWorld (byte : UInt8) :
    serializeSnapshot (countedWorld byte) = serializeSnapshot (foldedWorld byte) := by
  have hcount : putVector putEvidence (countedWorld byte).evidence =
      putU32 0 ++ (countedEvidence byte).flatMap putEvidence := by
    rw [countedWorld, putVector, putU32_wrap (by rw [length_countedEvidence]; norm_num)]
  rw [serializeSnapshot_evidence, serializeSnapshot_evidence, hcount, afterEvidence_foldedWorld,
    ← flatMap_countedEvidence]
  simp only [List.append_assoc]
  rfl

theorem length_fillNote : fillNote.length = 2863311529 := by
  have hfill : fillCount = 286331152 := rfl
  have hfiller : (putEvidence filler).length = 10 := rfl
  have hfillers : ((List.replicate fillCount filler).flatMap putEvidence).length =
      fillCount * 10 := by
    rw [List.flatMap_replicate, List.length_flatten, List.map_replicate, List.sum_replicate_nat,
      hfiller]
  have hhead : (putStr [0] ++ putU32 9 : Bytes).length = 9 := rfl
  rw [fillNote, List.length_append, hfillers, hhead, hfill]

theorem length_firstNote_append (byte : UInt8) :
    (firstNote byte ++ fillNote).length = 2880088691 := by
  have hpad : padCount = 16777161 := rfl
  rw [List.length_append, length_fillNote, firstNote, List.length_cons, List.length_replicate,
    hpad]

theorem foldedSources_short (byte : UInt8) :
    ShortProvenance { sources := foldedSources byte } := by
  have hfirst : short (firstNote byte ++ fillNote) := by
    rw [short, length_firstNote_append]
    norm_num
  have hfill : short fillNote := by
    rw [short, length_fillNote]
    norm_num
  intro source hmem
  rcases List.mem_cons.mp hmem with rfl | hmem
  · exact ⟨short_nil, hfirst⟩
  rcases List.mem_append.mp hmem with hmem | hmem
  · rw [List.eq_of_mem_replicate hmem]
    exact ⟨short_nil, hfill⟩
  · obtain rfl := List.mem_singleton.mp hmem
    exact ⟨short_nil, (by decide +kernel : short (afterEvidence makeGenesis))⟩

theorem foldedWorld_stringsShort (byte : UInt8) : StringsShort (foldedWorld byte) :=
  { genesis_stringsShort with
    rules := by simp [foldedWorld]
    conflicts := by
      intro conflict hmem
      obtain rfl := List.mem_singleton.mp hmem
      exact ⟨short_nil, short_nil, short_nil, short_nil⟩
    roles := by
      intro role hmem
      obtain rfl := List.mem_singleton.mp hmem
      exact ⟨by simp, foldedSources_short byte⟩ }

theorem foldedWorld_vectorsWithin (byte : UInt8) : VectorsWithin 100000 (foldedWorld byte) :=
  { (genesis_vectorsWithin (by norm_num) : VectorsWithin 100000 makeGenesis) with
    rules := by simp [foldedWorld]
    conflicts := by simp [foldedWorld]
    roles := by simp [foldedWorld]
    role := by
      intro role hmem
      obtain rfl := List.mem_singleton.mp hmem
      refine ⟨by simp, by simp, ?_⟩
      rw [length_foldedSources]
      norm_num }

/-- The pieces of evidence come back as the tables they spell. -/
theorem deserialize_countedWorld [Foundation] (byte : UInt8) :
    deserialize (serializeSnapshot (countedWorld byte)) = .ok (foldedWorld byte) := by
  rw [serialize_countedWorld, deserialize_serialize (foldedWorld_stringsShort byte)
    (foldedWorld_vectorsWithin byte)]
  rfl

theorem serialize_countedWorld_ne [Foundation] (byte : UInt8) :
    serializeSnapshot (countedWorld byte) ≠ serializeSnapshot makeGenesis := by
  intro hsame
  rw [serialize_countedWorld] at hsame
  have hrestored := restored_eq_of_serialize_eq
    ⟨foldedWorld_stringsShort byte, (foldedWorld_vectorsWithin byte).mono (by norm_num)⟩
    genesis_fits hsame
  exact List.cons_ne_nil _ _ (congrArg Snapshot.roles hrestored)

/-- The byte of the first note stands alone in the encoding. -/
theorem serialize_countedWorld_split : ∃ before after, ∀ byte,
    serializeSnapshot (countedWorld byte) = before ++ byte :: after := by
  obtain ⟨head, hhead⟩ : ∃ head, ∀ byte, noteHead (firstNote byte ++ fillNote) = head :=
    ⟨noteHead (firstNote 0 ++ fillNote), fun byte =>
      noteHead_congr (by rw [length_firstNote_append, length_firstNote_append])⟩
  refine ⟨beforeEvidence makeGenesis ++ (putU32 0 ++ (putStr [0] ++
      putU32 (UInt32.ofNat (2 ^ 24)) ++ foldedFields ++ head)),
    List.replicate padCount 0 ++ fillNote ++ laterSources.flatMap putSource, fun byte => ?_⟩
  have hbefore : beforeEvidence (foldedWorld byte) = beforeEvidence makeGenesis := rfl
  have hevidence : putVector putEvidence (foldedWorld byte).evidence = putU32 0 := rfl
  rw [serialize_countedWorld, serializeSnapshot_evidence, hbefore, hevidence,
    afterEvidence_foldedWorld, foldedSources, List.flatMap_cons, putSource_note, hhead,
    firstNote_append]
  simp only [List.append_assoc, List.cons_append]

/-- The gates take each piece, and its texts are short. -/
theorem mem_countedEvidence {byte : UInt8} {record : EvidenceRecord}
    (h : record ∈ countedEvidence byte) : Bindable record ∧ ShortEvidence record := by
  have hone : short ([0] : Str) := by decide
  have hfiller : ∀ record ∈ List.replicate fillCount filler,
      Bindable record ∧ ShortEvidence record := by
    intro record hmem
    rw [List.eq_of_mem_replicate hmem]
    exact ⟨⟨List.cons_ne_nil _ _, List.cons_ne_nil _ _⟩, hone, hone⟩
  have hnote : ∀ note, ∀ record ∈ [(⟨[0], noteHead note⟩ : EvidenceRecord)],
      Bindable record ∧ ShortEvidence record := by
    intro note record hmem
    obtain rfl := List.mem_singleton.mp hmem
    refine ⟨⟨List.cons_ne_nil _ _, List.cons_ne_nil _ _⟩, hone, ?_⟩
    rw [short, length_noteHead]
    norm_num
  rcases List.mem_cons.mp h with rfl | h
  · refine ⟨⟨List.cons_ne_nil _ _, List.cons_ne_nil _ _⟩, hone, ?_⟩
    rw [short, length_firstContent]
    norm_num
  rcases List.mem_append.mp h with h | h
  · obtain ⟨block, hblock, hmem⟩ := List.mem_flatten.mp h
    rw [List.eq_of_mem_replicate hblock] at hmem
    rcases List.mem_append.mp hmem with hmem | hmem
    · exact hfiller record hmem
    · exact hnote _ record hmem
  · rcases List.mem_append.mp h with hmem | hmem
    · exact hfiller record hmem
    · exact hnote _ record hmem

/-- The folded snapshot with one piece of evidence, whose content is a byte. -/
def foldedWith (byte more : UInt8) : Snapshot :=
  { foldedWorld byte with evidence := [⟨[more], [1]⟩] }

theorem serialize_foldedWith (byte more : UInt8) :
    serializeSnapshot (foldedWith byte more) =
      beforeEvidence makeGenesis ++ (putU32 1 ++ putU32 1) ++
        more :: (putStr [1] ++ afterEvidence (foldedWorld byte)) := by
  have hbefore : beforeEvidence (foldedWorld byte) = beforeEvidence makeGenesis := rfl
  rw [foldedWith, serialize_evidence_byte, hbefore]

theorem foldedWith_fits (byte more : UInt8) : Fits (foldedWith byte more) := by
  refine ⟨{ foldedWorld_stringsShort byte with evidence := ?_ },
    { (foldedWorld_vectorsWithin byte).mono (by norm_num) with evidence := by simp [foldedWith] }⟩
  intro record hmem
  obtain rfl := List.mem_singleton.mp hmem
  exact ⟨by simp [short], by simp [short]⟩

/-- One more piece of evidence tells the two snapshots apart. -/
theorem serialize_foldedWith_ne (byte : UInt8) {more : UInt8} (hmore : more ≠ 0) :
    serializeSnapshot (foldedWith byte more) ≠ serializeSnapshot { makeGenesis with
      evidence := countedEvidence byte ++ [⟨[more], [1]⟩] } := by
  intro hsame
  have hzero : putStr [0] = putU32 1 ++ [0] := rfl
  have hbefore : beforeEvidence { makeGenesis with
      evidence := countedEvidence byte ++ [⟨[more], [1]⟩] } = beforeEvidence makeGenesis := rfl
  have hlength : UInt32.ofNat
      (countedEvidence byte ++ [(⟨[more], [1]⟩ : EvidenceRecord)]).length = 1 := by
    rw [List.length_append, length_countedEvidence, List.length_singleton]
    decide
  rw [serialize_foldedWith, serializeSnapshot_evidence, hbefore, putVector, hlength,
    countedEvidence, List.cons_append, List.flatMap_cons, putEvidence, hzero] at hsame
  simp only [List.append_assoc, List.singleton_append] at hsame
  have hcancel := List.append_cancel_left
    (List.append_cancel_left (List.append_cancel_left hsame))
  exact hmore (List.cons.inj hcancel).1

end QivenContext
