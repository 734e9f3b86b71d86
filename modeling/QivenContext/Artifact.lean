import QivenContext.Durable
import QivenContext.Library.Find
import QivenContext.Numeral

/-!
# The artifact

A producer writes its head as one text: a manifest with the two digests of the
snapshot bytes, and the bytes as decimal numbers. A consumer has the text and
nothing else. It looks for the labels, reads the numbers back, checks both
digests and restores what they denote.
-/

namespace QivenContext

open Library Snapshot ServiceState

def newline : UInt8 := 10

def digestLabel : Str := lit "snapshot-digest: "

def contentLabel : Str := lit "content-id: "

def bytesBegin : Str := lit "bytes-begin"

def bytesEnd : Str := lit "bytes-end"

def trialMarker : Str :=
  lit "trial: knowledge compaction is lossless only when the artifact is the cause"

/-- The numbers of the byte section, each with a blank behind it. -/
def numbered (bytes : Bytes) : Str := bytes.flatMap fun b => decimal b.toNat ++ lit " "

/-- `byteStream >> value`, into an `unsigned` of 32 bits: what is too large
fails, and a negative number wraps. -/
def extractUnsigned (text : Str) : Option (ℕ × Str) :=
  let trimmed := text.dropWhile isSpace
  let unsigned := afterSign trimmed
  let digits := unsigned.takeWhile isDigit
  let value := digitsValue digits
  if digits = [] ∨ 2 ^ 32 ≤ value then none
  else if trimmed.head? = some 45 then
    some ((2 ^ 32 - value) % 2 ^ 32, unsigned.dropWhile isDigit)
  else some (value, unsigned.dropWhile isDigit)

theorem length_afterSign_le (trimmed : Str) : (afterSign trimmed).length ≤ trimmed.length := by
  unfold afterSign
  split
  · exact (List.drop_sublist 1 trimmed).length_le
  · exact le_rfl

theorem length_of_extractUnsigned {text rest : Str} {value : ℕ}
    (h : extractUnsigned text = some (value, rest)) : rest.length < text.length := by
  have hrest : rest = (afterSign (text.dropWhile isSpace)).dropWhile isDigit ∧
      (afterSign (text.dropWhile isSpace)).takeWhile isDigit ≠ [] := by
    simp only [extractUnsigned] at h
    split at h
    · simp at h
    · next hsome =>
        rw [not_or] at hsome
        split at h <;> simp_all
  obtain ⟨rfl, hne⟩ := hrest
  have hsplit := congrArg List.length
    (List.takeWhile_append_dropWhile (p := isDigit) (l := afterSign (text.dropWhile isSpace)))
  have hdigits := List.length_pos_of_ne_nil hne
  have hsign := length_afterSign_le (text.dropWhile isSpace)
  have htrimmed := (List.dropWhile_sublist (l := text) isSpace).length_le
  rw [List.length_append] at hsplit
  omega

/-- The loop over the byte section; a number is cut to its low byte. -/
def readBytes (text : Str) : Bytes :=
  match _h : extractUnsigned text with
  | none => []
  | some (value, rest) => UInt8.ofNat value :: readBytes rest
termination_by text.length
decreasing_by exact length_of_extractUnsigned ‹_›

/-- From behind the first label to the end of its line; no label holds a newline. -/
def declared (label artifact : Str) : Option Str :=
  (find label artifact).map fun pos =>
    (artifact.drop (pos + label.length)).takeWhile (· != newline)

/-- Between the two marks; where the end stands before, the length wraps and the
rest of the text is taken. -/
def byteSection (artifact : Str) : Option Str :=
  match find (bytesBegin ++ [newline]) artifact,
    find (newline :: (bytesEnd ++ [newline])) artifact with
  | some dataPos, some endPos =>
      let rest := artifact.drop (dataPos + 12)
      some (if dataPos + 12 ≤ endPos then rest.take (endPos - (dataPos + 12)) else rest)
  | _, _ => none

/-- The records that the trial looks for. -/
def trialFound (snapshot : Snapshot) : Bool :=
  (snapshot.decisions.any fun decision => decision.title = lit "ADR-trial") &&
    snapshot.memory.any fun record => record.kind = .negativeKnowledge

inductive Trial where
  | unreadable
  | malformed
  | contentIdMismatch (declared : ContentId)
  | digestMismatch (declared actual : Str)
  | restoreFailed (error : DeserializeError)
  | threw
  | missing (restored : Materialization)
  | verified (restored : Materialization)

section Format

variable [Foundation] {σ : Type} [CognitionStore σ]

/-- The lines in front of the bytes. -/
def manifest (head : Materialization) : List Str :=
  [lit "qiven-artifact v1",
    digestLabel ++ head.digest.value,
    contentLabel ++ draftContentId (serializeSnapshot head.state),
    lit "decisions: " ++ decimal head.state.decisions.length,
    lit "memory: " ++ decimal head.state.memory.length,
    lit "obligations: " ++ decimal head.state.obligations.length,
    lit "conflicts: " ++ decimal head.state.conflicts.length,
    lit "views: " ++ decimal head.state.views.length,
    lit "profiles: " ++ decimal head.state.profiles.length,
    lit "policy-handoff: " ++ decimal head.state.policy.handoff.length,
    lit "policy-recovery: " ++ decimal head.state.policy.recovery.length,
    lit "marker: " ++ trialMarker]

/-- `produce`: the text for a head. -/
def produceArtifact (head : Materialization) : Str :=
  closed newline (manifest head) ++ (bytesBegin ++ [newline] ++
    (numbered (serializeSnapshot head.state) ++ newline :: (bytesEnd ++ [newline])))

/-- `verify`: what the consumer makes of a text. -/
def ServiceState.verifyArtifact (s : ServiceState σ) (artifact : Str) : Trial × ServiceState σ :=
  if artifact = [] then (.unreadable, s)
  else
    match declared digestLabel artifact, declared contentLabel artifact, byteSection artifact with
    | some declaredDigest, some declaredContentId, some bytesText =>
        let bytes := readBytes bytesText
        let actual := draftSnapshotDigest bytes
        if draftContentId bytes ≠ declaredContentId then
          (.contentIdMismatch declaredContentId, s)
        else if actual.value ≠ declaredDigest then
          (.digestMismatch declaredDigest actual.value, s)
        else
          let source : CognitionSource :=
            { kind := .handoffArtifact, inlineBytes := bytes, expectedDigest := declaredContentId }
          match s.createCognition source with
          | (.handle restored, s) =>
              (if trialFound restored.state then .verified restored else .missing restored, s)
          | (.failed error, s) => (.restoreFailed error, s)
          | (.threw, s) => (.threw, s)
    | _, _, _ => (.malformed, s)

end Format

/-! ## The numbers -/

section Numbers

variable {c : UInt8} {text rest digits bytes : Str} {value : ℕ}

theorem readBytes_some (h : extractUnsigned text = some (value, rest)) :
    readBytes text = UInt8.ofNat value :: readBytes rest := by
  rw [readBytes]
  split
  · next hnone =>
      rw [h] at hnone
      simp at hnone
  · next value' rest' hsome =>
      obtain ⟨rfl, rfl⟩ := Prod.mk.inj (Option.some.inj (h.symm.trans hsome))
      rfl

theorem readBytes_none (h : extractUnsigned text = none) : readBytes text = [] := by
  rw [readBytes]
  split
  · rfl
  · next value' rest' hsome =>
      rw [h] at hsome
      simp at hsome

theorem extractUnsigned_space (h : isSpace c) :
    extractUnsigned (c :: text) = extractUnsigned text := by
  simp only [extractUnsigned, List.dropWhile_cons_of_pos h]

theorem readBytes_space (h : isSpace c) : readBytes (c :: text) = readBytes text := by
  cases hextract : extractUnsigned text with
  | none =>
      rw [readBytes_none hextract, readBytes_none ((extractUnsigned_space h).trans hextract)]
  | some entry =>
      rw [readBytes_some hextract, readBytes_some ((extractUnsigned_space h).trans hextract)]

theorem extractUnsigned_digits (hne : digits ≠ []) (hdigits : ∀ c ∈ digits, isDigit c)
    (hrest : ∀ c ∈ rest.head?, ¬ isDigit c) (hlt : digitsValue digits < 2 ^ 32) :
    extractUnsigned (digits ++ rest) = some (digitsValue digits, rest) := by
  obtain ⟨d, ds, rfl⟩ := List.exists_cons_of_ne_nil hne
  have hd : isDigit d := hdigits d List.mem_cons_self
  have htrimmed : (d :: ds ++ rest).dropWhile isSpace = d :: ds ++ rest := by
    simp [not_isSpace_of_isDigit hd]
  have hminus : d ≠ 45 := by
    rintro rfl
    exact absurd hd (by decide)
  have hplus : d ≠ 43 := by
    rintro rfl
    exact absurd hd (by decide)
  have hsign : afterSign (d :: ds ++ rest) = d :: ds ++ rest := by
    simp [afterSign, hminus, hplus]
  have htake : (d :: ds ++ rest).takeWhile isDigit = d :: ds := by
    rw [List.takeWhile_append_of_pos hdigits]
    cases rest with
    | nil => simp
    | cons c cs => simp [hrest c rfl]
  have hdrop : (d :: ds ++ rest).dropWhile isDigit = rest := by
    rw [List.dropWhile_append_of_pos hdigits]
    cases rest with
    | nil => simp
    | cons c cs => simp [hrest c rfl]
  simp only [extractUnsigned, htrimmed, hsign, htake, hdrop]
  rw [if_neg (by simpa using hlt), if_neg (by simpa using hminus)]

/-- The consumer reads the bytes that were written. -/
theorem readBytes_numbered (bytes : Bytes) : readBytes (numbered bytes) = bytes := by
  induction bytes with
  | nil => exact readBytes_none rfl
  | cons b bytes ih =>
      have hnumbered : numbered (b :: bytes) = decimal b.toNat ++ 32 :: numbered bytes := by
        have hblank : lit " " = [32] := by decide
        simp [numbered, hblank]
      have hvalue : digitsValue (decimal b.toNat) = b.toNat := by
        rw [digitsValue_eq_ofDecimal, ofDecimal_decimal]
      have hlt := b.toNat_lt
      have hextract : extractUnsigned (decimal b.toNat ++ 32 :: numbered bytes) =
          some (digitsValue (decimal b.toNat), 32 :: numbered bytes) :=
        extractUnsigned_digits (decimal_ne_nil b.toNat) (fun _ => isDigit_of_mem_decimal)
          (by simp [isDigit]) (by omega)
      rw [hnumbered, readBytes_some hextract, readBytes_space (by decide), ih, hvalue,
        UInt8.ofNat_toNat]

theorem numbered_plain {c : UInt8} (h : c ∈ numbered bytes) : isDigit c ∨ c = 32 := by
  obtain ⟨b, -, hc⟩ := List.mem_flatMap.mp h
  rcases List.mem_append.mp hc with hc | hc
  · exact .inl (isDigit_of_mem_decimal hc)
  · have hblank : lit " " = [32] := by decide
    rw [hblank] at hc
    exact .inr (List.mem_singleton.mp hc)

end Numbers

/-! ## Looking for the labels -/

section Labels

variable {label value line bytesText rest : Str} {lines front : List Str}

/-- A line in front of the bytes is told from the marks around them. -/
structure Plain (line : Str) : Prop where
  free : newline ∉ line
  opens : ¬ bytesBegin <:+: line
  closes : ∃ c ∈ line.head?, c ≠ 98

theorem plain_label (h : newline ∉ label ∧ ¬ bytesBegin <:+: label ∧ label.headD 98 ≠ 98) :
    Plain label where
  free := h.1
  opens := h.2.1
  closes := by
    cases label with
    | nil => exact (h.2.2 rfl).elim
    | cons c label => exact ⟨c, rfl, h.2.2⟩

/-- What the variable parts of a line hold. -/
def PlainByte (c : UInt8) : Prop := c ≠ newline ∧ c ≠ 110

theorem plain_append (h : Plain label) (hvalue : ∀ c ∈ value, PlainByte c) :
    Plain (label ++ value) where
  free hmem := by
    rcases List.mem_append.mp hmem with hmem | hmem
    · exact h.free hmem
    · exact (hvalue newline hmem).1 rfl
  opens hinfix := by
    have hbegin : bytesBegin = lit "bytes-begi" ++ [110] := by decide
    rw [hbegin] at hinfix
    refine h.opens (hbegin ▸ infix_of_notMem hinfix fun hmem => ?_)
    exact (hvalue 110 hmem).2 rfl
  closes := by
    obtain ⟨c, hc, hne⟩ := h.closes
    cases label with
    | nil => simp at hc
    | cons d label => exact ⟨c, hc, hne⟩

theorem plain_of_digits {n : ℕ} (h : Plain label) : Plain (label ++ decimal n) := by
  refine plain_append h fun c hc => ?_
  have hdigit := isDigit_of_mem_decimal hc
  constructor <;>
  · rintro rfl
    exact absurd hdigit (by decide)

theorem Plain.ne_bytesEnd (h : Plain line) : line ≠ bytesEnd := by
  rintro rfl
  obtain ⟨c, hc, hne⟩ := h.closes
  have hhead : bytesEnd.head? = some 98 := by decide
  rw [hhead] at hc
  exact hne (Option.some.inj hc).symm

theorem declared_eq (hlabel : newline ∉ label) (hvalue : newline ∉ value)
    (hfront : ∀ line ∈ front, ¬ label <:+: line) :
    declared label (closed newline front ++ (label ++ (value ++ newline :: rest))) =
      some value := by
  have hpasses : Passes label (closed newline front) (label ++ (value ++ newline :: rest)) :=
    passes_closed fun line hline _ => passes_inside hlabel (hfront line hline)
  have hvalue' : ∀ c ∈ value, (c != newline) = true := by
    intro c hc
    rw [bne_iff_ne]
    rintro rfl
    exact hvalue hc
  have hdrop : (closed newline front ++ (label ++ (value ++ newline :: rest))).drop
      (0 + (closed newline front).length + label.length) = value ++ newline :: rest := by
    rw [← List.append_assoc, Nat.zero_add, ← List.length_append, List.drop_left]
  rw [declared, hpasses.find, find_prefix (List.prefix_append label _), Option.map_some,
    Option.map_some, hdrop, List.takeWhile_append_of_pos hvalue']
  simp

/-- The first mark ends the line behind the manifest. -/
theorem find_bytesBegin (hlines : ∀ line ∈ lines, Plain line) (rest : Str) :
    find (bytesBegin ++ [newline]) (closed newline lines ++ (bytesBegin ++ [newline] ++ rest)) =
      some (closed newline lines).length := by
  have hopens : Passes (bytesBegin ++ [newline]) (closed newline lines)
      (bytesBegin ++ [newline] ++ rest) :=
    passes_closed fun line hline _ => passes_at_end (by decide) (hlines line hline).free
      fun hsuffix => (hlines line hline).opens hsuffix.isInfix
  rw [hopens.find, find_prefix (List.prefix_append _ _)]
  simp

/-- The second mark is the first line of its kind. -/
theorem find_bytesEnd (hlines : ∀ line ∈ lines, Plain line)
    (hplain : ∀ c ∈ bytesText, c ≠ newline ∧ c ≠ 98) :
    find (newline :: (bytesEnd ++ [newline])) (closed newline lines ++
        (bytesBegin ++ [newline] ++ (bytesText ++ newline :: (bytesEnd ++ [newline])))) =
      some ((closed newline lines).length + 12 + bytesText.length) := by
  let closing : Str := newline :: (bytesEnd ++ [newline])
  have hfirst : ¬ bytesEnd ++ [newline] <+: bytesText ++ closing := by
    intro hprefix
    cases bytesText with
    | nil => exact absurd hprefix (by decide)
    | cons c bytesText =>
        obtain ⟨more, hmore⟩ := hprefix
        exact (hplain c List.mem_cons_self).2 (List.cons.inj hmore).1.symm
  have hcloses : Passes closing (closed newline (lines ++ [bytesBegin]) ++ bytesText) closing := by
    refine (passes_lines ?_ (by decide) ?_ hfirst).append (passes_of_notMem fun hmem =>
      (hplain newline hmem).1 rfl)
    · intro line hline
      rcases List.mem_append.mp hline with hline | hline
      · exact (hlines line hline).free
      · rw [List.mem_singleton.mp hline]
        decide
    · intro line hline
      rcases List.mem_append.mp (List.mem_of_mem_tail hline) with hline | hline
      · exact (hlines line hline).ne_bytesEnd
      · rw [List.mem_singleton.mp hline]
        decide
  have htext : closed newline lines ++ (bytesBegin ++ [newline] ++ (bytesText ++ closing)) =
      closed newline (lines ++ [bytesBegin]) ++ bytesText ++ closing := by
    simp [closed, closing]
  have hlength : (closed newline (lines ++ [bytesBegin]) ++ bytesText).length =
      (closed newline lines).length + 12 + bytesText.length := by
    have hmark : bytesBegin.length = 11 := by decide
    simp [closed, hmark]
    omega
  change find closing (closed newline lines ++
    (bytesBegin ++ [newline] ++ (bytesText ++ closing))) = _
  rw [htext, hcloses.find, find_prefix (List.prefix_refl closing), hlength]
  simp

/-- The mark, then numbers, then the other mark. -/
theorem byteSection_eq (hlines : ∀ line ∈ lines, Plain line)
    (hbytes : ∀ c ∈ bytesText, isDigit c ∨ c = 32) :
    byteSection (closed newline lines ++ (bytesBegin ++ [newline] ++
      (bytesText ++ newline :: (bytesEnd ++ [newline])))) = some bytesText := by
  have hplain : ∀ c ∈ bytesText, c ≠ newline ∧ c ≠ 98 := by
    intro c hc
    constructor <;>
    · rintro rfl
      exact absurd (hbytes _ hc) (by decide)
  have hdrop (rest : Str) :
      (closed newline lines ++ (bytesBegin ++ [newline] ++ rest)).drop
        ((closed newline lines).length + 12) = rest := by
    have hmark : (bytesBegin ++ [newline]).length = 12 := by decide
    rw [← List.append_assoc, ← hmark, ← List.length_append, List.drop_left]
  simp only [byteSection, find_bytesBegin hlines]
  rw [find_bytesEnd hlines hplain]
  simp only [hdrop]
  rw [if_pos (by omega), Nat.add_sub_cancel_left, List.take_left]

end Labels

/-! ## The transfer -/

section Transfer

theorem trialFound_restored (snapshot : Snapshot) :
    trialFound (restored snapshot) = trialFound snapshot := by
  simp only [trialFound, restored, List.any_map]
  rfl

/-- Lower or upper case. -/
def isHexDigit (c : UInt8) : Bool := isDigit c ∨ (97 ≤ c ∧ c ≤ 102) ∨ (65 ≤ c ∧ c ≤ 70)

variable [Foundation]

/-- The primitive renders hexadecimal digits. -/
def RendersHex : Prop := ∀ value, ∀ c ∈ Foundation.toHexU64 value, isHexDigit c

theorem plain_toHex (hhex : RendersHex) {value : UInt64} {c : UInt8}
    (h : c ∈ Foundation.toHexU64 value) : PlainByte c ∧ c ≠ 32 := by
  have hdigit := hhex value c h
  refine ⟨⟨?_, ?_⟩, ?_⟩ <;>
  · rintro rfl
    exact absurd hdigit (by decide)

section Lines

variable {head : Materialization}

theorem manifest_plain (hhex : RendersHex)
    (hdigest : head.digest = draftSnapshotDigest (serializeSnapshot head.state)) :
    ∀ line ∈ manifest head, Plain line := by
  have hvalue (value : UInt64) : ∀ c ∈ Foundation.toHexU64 value, PlainByte c :=
    fun c hc => (plain_toHex hhex hc).1
  intro line hline
  simp only [manifest, List.mem_cons, List.not_mem_nil, or_false] at hline
  rcases hline with rfl | rfl | rfl | rfl | rfl | rfl | rfl | rfl | rfl | rfl | rfl | rfl
  · exact plain_label (by decide)
  · rw [hdigest, draftSnapshotDigest, ← List.append_assoc]
    exact plain_append (plain_label (by decide)) (hvalue _)
  · rw [draftContentId, ← List.append_assoc]
    exact plain_append (plain_label (by decide)) (hvalue _)
  · exact plain_of_digits (plain_label (by decide))
  · exact plain_of_digits (plain_label (by decide))
  · exact plain_of_digits (plain_label (by decide))
  · exact plain_of_digits (plain_label (by decide))
  · exact plain_of_digits (plain_label (by decide))
  · exact plain_of_digits (plain_label (by decide))
  · exact plain_of_digits (plain_label (by decide))
  · exact plain_of_digits (plain_label (by decide))
  · exact plain_label (by decide +kernel)

theorem declared_digest (hhex : RendersHex)
    (hdigest : head.digest = draftSnapshotDigest (serializeSnapshot head.state)) :
    declared digestLabel (produceArtifact head) =
      some (draftSnapshotDigest (serializeSnapshot head.state)).value := by
  have htext : ∃ rest, produceArtifact head = closed newline [lit "qiven-artifact v1"] ++
      (digestLabel ++ ((draftSnapshotDigest (serializeSnapshot head.state)).value ++
        newline :: rest)) := by
    rw [← hdigest]
    simp only [produceArtifact, manifest, closed_cons, closed_nil, List.append_assoc,
      List.cons_append, List.nil_append]
    exact ⟨_, rfl⟩
  obtain ⟨rest, htext⟩ := htext
  rw [htext]
  refine declared_eq (by decide) (fun hmem => ?_) fun line hline => ?_
  · rcases List.mem_append.mp hmem with hmem | hmem
    · exact absurd hmem (by decide)
    · exact (plain_toHex hhex hmem).1.1 rfl
  · obtain rfl := List.mem_singleton.mp hline
    decide

theorem declared_content (hhex : RendersHex)
    (hdigest : head.digest = draftSnapshotDigest (serializeSnapshot head.state)) :
    declared contentLabel (produceArtifact head) =
      some (draftContentId (serializeSnapshot head.state)) := by
  have htext : ∃ rest, produceArtifact head =
      closed newline [lit "qiven-artifact v1", digestLabel ++ head.digest.value] ++
        (contentLabel ++ (draftContentId (serializeSnapshot head.state) ++ newline :: rest)) := by
    simp only [produceArtifact, manifest, closed_cons, closed_nil, List.append_assoc,
      List.cons_append, List.nil_append]
    exact ⟨_, rfl⟩
  obtain ⟨rest, htext⟩ := htext
  rw [htext]
  refine declared_eq (by decide) (fun hmem => ?_) fun line hline => ?_
  · rcases List.mem_append.mp hmem with hmem | hmem
    · exact absurd hmem (by decide)
    · exact (plain_toHex hhex hmem).1.1 rfl
  · simp only [List.mem_cons, List.not_mem_nil, or_false] at hline
    rcases hline with rfl | rfl
    · decide
    · -- the label ends in a blank, and the digits hold none
      have hlabel : contentLabel = lit "content-id:" ++ [32] := by decide
      rw [hlabel, hdigest, draftSnapshotDigest, ← List.append_assoc]
      intro hinfix
      exact absurd (infix_of_notMem hinfix fun hmem => (plain_toHex hhex hmem).2 rfl) (by decide)

end Lines

variable {σ τ : Type} [MemoryBacked σ] [CognitionStore τ] {t : ServiceState σ}
  {trs : List (ServiceTransition σ)} {m : Materialization}

theorem digested_of_run {store : σ} (hempty : (MemoryBacked.memory store).revisions = [])
    (hrun : ServiceRun (ServiceState.start store) trs t) (hsized : SizedRun 100000 trs)
    (hlive : m ∈ t.live) (hpromoted : m.quarantine = .promoted) :
    Sized 100000 (fun _ => True) m.state ∧
      m.digest = draftSnapshotDigest (serializeSnapshot m.state) := by
  have hseed : Seed (Sized 100000 fun _ => True) :=
    seed_sized (by norm_num) (by norm_num) trivial fun _ _ => trivial
  obtain ⟨hrooted, hall, -⟩ := rooted_of_sizedRun (Q := fun _ => True) (by norm_num)
    (by norm_num) hempty hrun hsized trivial (fun _ _ => trivial) fun _ _ _ _ _ _ _ _ => trivial
  have hdigested : Digested t :=
    hrun.invariant (P := Digested) (C := fun tr => Rooted _ tr.before)
      (fun tr htr => (hall tr htr).1) (by simp [Digested, ServiceState.start])
      fun _ hvalid hrooted hbefore => hbefore.step hseed hrooted hvalid
  exact ⟨hrooted.live m hlive hpromoted, hdigested m hlive hpromoted⟩

/-- The source of an artifact under its own content id. -/
def artifactSource (bytes : Bytes) : CognitionSource where
  kind := .handoffArtifact
  inlineBytes := bytes
  expectedDigest := draftContentId bytes

theorem createCognition_artifactSource {s : ServiceState τ} (bytes : Bytes) :
    s.createCognition (artifactSource bytes) =
      s.createCognition { kind := .handoffArtifact, inlineBytes := bytes } := by
  simp [createCognition, loadArtifact, artifactSource]

/-- What verifies is the restored state of bytes with the declared content id. -/
theorem verifyArtifact_verified {s s' : ServiceState τ} {text : Str} {r : Materialization}
    (h : s.verifyArtifact text = (.verified r, s')) :
    ∃ bytes, declared contentLabel text = some (draftContentId bytes) ∧
      declared digestLabel text = some (draftSnapshotDigest bytes).value ∧
      deserialize bytes = .ok r.state ∧ r.revision = {} ∧ r.quarantine = .isolated ∧
      trialFound r.state = true := by
  unfold verifyArtifact at h
  split at h
  · simp at h
  · split at h
    · next declaredDigest declaredContentId bytesText hdigest hcontent _ =>
        refine ⟨readBytes bytesText, ?_⟩
        dsimp only at h
        split at h
        · simp at h
        · next hid =>
            split at h
            · simp at h
            · next hactual =>
                rw [not_not] at hid hactual
                rw [← hid] at h
                have hsource := createCognition_artifactSource (s := s) (readBytes bytesText)
                simp only [artifactSource] at hsource
                rw [hsource] at h
                split at h
                · next restored after hcreate =>
                    obtain ⟨houtcome, rfl⟩ := Prod.mk.inj h
                    split at houtcome
                    · next hfound =>
                        obtain rfl := Trial.verified.inj houtcome
                        rcases createCognition_cases hcreate with ⟨-, -, hnone⟩ |
                          ⟨-, -, snapshot, m', hparsed, rfl, hcreated, -⟩ | ⟨hkind, -⟩ |
                          ⟨hsubmits, -⟩
                        · exact (hnone _ rfl).elim
                        · obtain rfl := Creation.handle.inj hcreated
                          exact ⟨hid ▸ hcontent, hactual ▸ hdigest, hparsed, rfl, rfl, hfound⟩
                        · simp at hkind
                        · simp [submits] at hsubmits
                    · simp at houtcome
                · simp at h
                · simp at h
    · simp at h

/-- A head that a run registered goes over in its artifact. -/
theorem artifact_transfers {store : σ} (hempty : (MemoryBacked.memory store).revisions = [])
    (hrun : ServiceRun (ServiceState.start store) trs t) (hsized : SizedRun 100000 trs)
    (hlive : m ∈ t.live) (hpromoted : m.quarantine = .promoted) (hhex : RendersHex)
    (s : ServiceState τ) :
    ∃ r, s.verifyArtifact (produceArtifact m) =
        (if trialFound m.state then .verified r else .missing r, s.register r) ∧
      r.state = restored m.state ∧ r.digest = m.digest ∧ r.revision = {} ∧
      r.quarantine = .isolated ∧
      ∀ text other s', s.verifyArtifact text = (.verified other, s') →
        declared contentLabel text = declared contentLabel (produceArtifact m) →
          other.state = r.state ∨ ∃ bytes, deserialize bytes = .ok other.state ∧
            bytes ≠ serializeSnapshot m.state ∧
            draftContentId bytes = draftContentId (serializeSnapshot m.state) := by
  obtain ⟨hfits, hdigest⟩ := digested_of_run hempty hrun hsized hlive hpromoted
  have hparsed := deserialize_serialize hfits.strings hfits.vectors
  let bytes := serializeSnapshot m.state
  let r := s.minted (restored m.state) bytes {} .isolated
  have hcreate : s.createCognition (artifactSource bytes) = (.handle r, s.register r) := by
    rw [createCognition_artifactSource]
    exact createCognition_restores hparsed
  have hne : produceArtifact m ≠ [] := by
    simp [produceArtifact]
  have hsection : byteSection (produceArtifact m) = some (numbered bytes) :=
    byteSection_eq (manifest_plain hhex hdigest) fun _ => numbered_plain
  refine ⟨r, ?_, rfl, hdigest.symm, rfl, rfl, ?_⟩
  · unfold verifyArtifact
    rw [if_neg hne, declared_digest hhex hdigest, declared_content hhex hdigest, hsection]
    simp only [readBytes_numbered]
    rw [if_neg (by simp [bytes]), if_neg (by simp [bytes])]
    simp only [artifactSource, bytes] at hcreate
    simp only [hcreate, trialFound_restored, r, minted, bytes]
  · intro text other s' hother hsame
    obtain ⟨bytes', hcontent, -, hparsed', -⟩ := verifyArtifact_verified hother
    rw [hcontent, declared_content hhex hdigest] at hsame
    by_cases hbytes : bytes' = bytes
    · subst hbytes
      exact .inl (Except.ok.inj (hparsed'.symm.trans hparsed))
    · exact .inr ⟨bytes', hparsed', hbytes, Option.some.inj hsame⟩

end Transfer

/-! ## The trial -/

section Built

/-- The operations of `knownWrite`. -/
def trialOperations (decisionId : Int64) : List Operation :=
  [{ kind := .appendDecision
     recordId := decisionId
     title := lit "ADR-trial"
     payload := lit "the artifact-trial decision proves artifact-caused continuity" },
    { kind := .addMemory
      aux := 5
      title := lit "rejected alternative"
      payload := lit "event-sourcing was rejected: state-replication only"
      provenanceRef := lit "ADR-0033-alternatives" }]

open scoped QivenContext.Reference

theorem reference_rendersHex : RendersHex := by
  intro value c hc
  have hdigits : ∀ nibble < 16, isHexDigit (Reference.hexDigit nibble) := by decide
  obtain ⟨nibble, hnibble, rfl⟩ := List.mem_map.mp (List.mem_reverse.mp hc)
  exact hdigits nibble (Reference.nibbles_lt hnibble)

/-- The head that the trial writes goes over to a fresh process. -/
theorem trial_transfers :
    ∃ (trs : List (ServiceTransition MemoryStore)) (t : ServiceState MemoryStore)
      (m r : Materialization), ServiceRun (ServiceState.start {}) trs t ∧
        m.state.decisions.length = 1 ∧ r.state = restored m.state ∧
        (ServiceState.start ({} : MemoryStore)).verifyArtifact (produceArtifact m) =
          (.verified r, (ServiceState.start {}).register r) := by
  obtain ⟨trs, s, m, hrun, honHead, hstate, -, -, hreceipts, -, hnone⟩ := exists_onHead
  have hpasses : ∀ operation ∈ trialOperations 1,
      invariantGate m.state operation = .ok () := by
    rw [hstate]
    intro operation hmem
    rcases List.mem_cons.mp hmem with rfl | hmem
    · rfl
    · obtain rfl := List.mem_singleton.mp hmem
      rfl
  obtain ⟨t, m', hwrote⟩ := honHead.write_reviewed (hstate ▸ genesis_quiet) (trialOperations 1)
    (List.cons_ne_nil _ _) (by simp [trialOperations]) hpasses
  have hshort : ShortTransaction (reviewed m.revision (trialOperations 1)) := by
    refine ⟨(by decide : short (lit "handoff")), fun operation hmem => ?_⟩
    rcases List.mem_cons.mp hmem with rfl | hmem
    · constructor <;> decide
    · obtain rfl := List.mem_singleton.mp hmem
      constructor <;> decide
  have hroom : Room 100000 m.state (trialOperations 1) := by
    rw [hstate]
    refine ⟨?_, ?_, ?_, ?_, ?_, ?_, ?_, ?_, ?_⟩ <;>
      simp [makeGenesis, countKind, standingViews, amendIds, trialOperations]
  have hsized := hwrote.sizedRun hnone hshort hroom
  obtain ⟨r, hverify, hrestored, -⟩ := artifact_transfers rfl (hwrote.run hrun) hsized
    hwrote.onHead.live hwrote.onHead.promoted reference_rendersHex
    (ServiceState.start ({} : MemoryStore))
  have hstate' : m'.state = applyOperations (reviewed m.revision (trialOperations 1))
      makeGenesis := by
    rw [hwrote.state, hstate]
  have hfound : trialFound m'.state = true := by
    rw [hstate']
    rfl
  rw [if_pos hfound] at hverify
  refine ⟨_, t, m', r, hwrote.run hrun, ?_, hrestored, hverify⟩
  rw [hstate']
  rfl

end Built

end QivenContext
