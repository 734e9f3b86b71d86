import QivenContext.Accepted
import QivenContext.Reference
import QivenContext.Steps

/-!
# One spelling for each snapshot

No accepted byte string is a proper prefix of another, so what was truncated
or padded is refused with a typed error. An accepted byte string of version 8
is the encoding of its snapshot exactly when its booleans and presence flags
are spelled as the encoder spells them: the decoder takes any byte but 0 for
true, though it refuses a byte past the last enumerator.
-/

namespace QivenContext

open Library Snapshot

section Accepted

variable [Foundation] {σ : Type} [CognitionStore σ] {s s' : ServiceState σ} {bytes : Bytes}
  {snapshot : Snapshot}

/-- The bytes that a source stands for. -/
def ServiceState.sourceBytes (s : ServiceState σ) (source : CognitionSource) : Bytes :=
  match source.kind with
  | .canonicalRemote => CognitionStore.materialize s.store (s.bootId source)
  | .handoffArtifact => source.inlineBytes
  | .compressedStream => []

/-- Bytes that are refused are refused with a typed error, and nothing moves. -/
theorem createCognition_refused {source : CognitionSource}
    (hsource : source.kind = .handoffArtifact ∨
      source.kind = .canonicalRemote ∧ ¬ (s.bootId source).isEmpty)
    (hrefused : ∃ error, deserialize (s.sourceBytes source) = .error error) :
    ∃ error, s.createCognition source = (.failed error, s) := by
  obtain ⟨error, hrefused⟩ := hrefused
  have hmint : ∀ revision quarantine, ∃ error,
      s.mint (s.sourceBytes source) revision quarantine = (.error error, s) := by
    intro revision quarantine
    rcases s.mint_cases (s.sourceBytes source) revision quarantine with hfailed |
      ⟨snapshot, -, hparsed, -⟩
    · exact hfailed
    · rw [hrefused] at hparsed
      simp at hparsed
  rcases hsource with hkind | ⟨hkind, hid⟩
  · cases hload : ServiceState.loadArtifact source with
    | error error => exact ⟨error, by simp only [ServiceState.createCognition, hkind, hload]⟩
    | ok loaded =>
        have hloaded : loaded = s.sourceBytes source := by
          simp only [ServiceState.sourceBytes, hkind]
          exact ServiceState.loadArtifact_eq_ok hload
        subst hloaded
        obtain ⟨error, hfailed⟩ := hmint {} .isolated
        exact ⟨error, by simp only [ServiceState.createCognition, hkind, hload, hfailed,
          ServiceState.Creation.ofExcept]⟩
  · have hbytes : s.sourceBytes source = CognitionStore.materialize s.store (s.bootId source) := by
      simp only [ServiceState.sourceBytes, hkind]
    by_cases hempty : (s.sourceBytes source).isEmpty
    · have hload : s.loadCanonical source = (.error
          { kind := .truncated, detail := lit "revision not found: " ++ (s.bootId source).value },
          s) := by
        rw [ServiceState.loadCanonical, ← hbytes, if_pos ⟨hempty, hid⟩]
      exact ⟨_, by simp only [ServiceState.createCognition, hkind, hload]; rfl⟩
    · have hload : s.loadCanonical source = (.ok (s.sourceBytes source, s.bootId source), s) := by
        rw [ServiceState.loadCanonical, ← hbytes, if_neg fun h => hempty h.1, if_neg hempty]
      obtain ⟨error, hfailed⟩ := hmint (s.bootId source) .promoted
      exact ⟨error, by simp only [ServiceState.createCognition, hkind, hload, hfailed,
        ServiceState.Creation.ofExcept]⟩

/-! ## Truncated and padded bytes -/

/-- The bytes with something lost at their end, or something added. -/
inductive Mangled (bytes : Bytes) : Bytes → Prop
  | truncated (kept lost : Bytes) (hlost : lost ≠ []) (hbytes : bytes = kept ++ lost) :
      Mangled bytes kept
  | padded (rest : Bytes) (hrest : rest ≠ []) : Mangled bytes (bytes ++ rest)

theorem deserialize_append (h : deserialize bytes = .ok snapshot) {rest : Bytes}
    (hrest : rest ≠ []) :
    deserialize (bytes ++ rest) =
      .error { kind := .truncated, detail := lit "trailing bytes after snapshot" } := by
  rw [deserialize, ← deserializeWith_bool] at h ⊢
  exact deserializeWith_append (layout_of_deserializeWith Reader.accepts_bool h).2 hrest

theorem deserialize_mangled (h : deserialize bytes = .ok snapshot) {mangled : Bytes}
    (hmangled : Mangled bytes mangled) : ∃ error, deserialize mangled = .error error := by
  cases hmangled with
  | truncated kept lost hlost hbytes =>
      cases hkept : deserialize mangled with
      | error error => exact ⟨error, rfl⟩
      | ok shorter =>
          rw [hbytes, deserialize_append hkept hlost] at h
          simp at h
  | padded rest hrest => exact ⟨_, deserialize_append h hrest⟩

/-- What is left of accepted bytes, and what is more than them, is refused: by
the decoder, as an artifact, and as a stored revision. -/
theorem accepted_prefix_free (h : deserialize bytes = .ok snapshot) {mangled : Bytes}
    (hmangled : Mangled bytes mangled) :
    (∃ error, deserialize mangled = .error error) ∧
      ∀ (s : ServiceState σ) (source : CognitionSource), s.sourceBytes source = mangled →
        (source.kind = .handoffArtifact ∨
          source.kind = .canonicalRemote ∧ ¬ (s.bootId source).isEmpty) →
        ∃ error, s.createCognition source = (.failed error, s) := by
  have hrefused := deserialize_mangled h hmangled
  exact ⟨hrefused, fun s source hbytes hsource =>
    createCognition_refused hsource (hbytes ▸ hrefused)⟩

end Accepted

open scoped QivenContext.Reference in
theorem genesis_padded_refused :
    (∃ error, deserialize (serializeSnapshot makeGenesis ++ [0]) = .error error) ∧
      ∃ error, (ServiceState.start ({} : MemoryStore)).createCognition
          { kind := .handoffArtifact, inlineBytes := serializeSnapshot makeGenesis ++ [0] } =
        (.failed error, ServiceState.start {}) := by
  obtain ⟨hrefused, hcreation⟩ := accepted_prefix_free (σ := MemoryStore) deserialize_genesis
    (.padded [0] (List.cons_ne_nil _ _))
  exact ⟨hrefused, hcreation _ _ rfl (.inl rfl)⟩

/-! ## Version 8 -/

section Flags

variable [Foundation] {σ : Type} [CognitionStore σ] {s s' : ServiceState σ} {bytes : Bytes}
  {snapshot : Snapshot}

namespace Reader

/-- A reader of flags that refuses a byte over 1, as `enumValue` refuses a byte
past the last enumerator. -/
def strictBool (what : Str) : Reader Bool := do
  let raw ← u8 what
  if raw > 1 then fail .badEnum what else return raw != 0

theorem reads_strictBool : ReadsFlags strictBool := by
  intro value what
  have hrest : Reads (if (if value then (1 : UInt8) else 0) > 1 then fail .badEnum what
      else pure ((if value then (1 : UInt8) else 0) != 0) : Reader Bool) [] True value := by
    cases value <;> exact Reads.pure _
  refine Reads.congr (Reads.bind (reads_u8 (if value then 1 else 0) what) hrest) ?_ (by simp) rfl
  simp [putBool]

theorem accepts_strictBool : AcceptsFlags True strictBool := by
  intro what
  refine (accepts_u8 what).bind fun used raw hraw => ?_
  split
  · exact accepts_fail _ _
  · next hle =>
      have hsmall : raw.toNat ≤ 1 := UInt8.le_iff_toNat_le.mp (UInt8.not_lt.mp hle)
      refine Accepts.pure ⟨trivial, fun _ => ?_⟩
      rw [List.append_nil, hraw]
      rcases Nat.le_one_iff_eq_zero_or_eq_one.mp hsmall with hzero | hone
      · obtain rfl : raw = 0 := UInt8.toNat_inj.mp hzero
        rfl
      · obtain rfl : raw = 1 := UInt8.toNat_inj.mp hone
        rfl

end Reader

/-- Every byte that the layout reads as a boolean or as a presence flag is 0 or 1. -/
def flagsCanonical (bytes : Bytes) : Bool :=
  (deserializeWith Reader.strictBool maxSerializedRecords bytes).isOk

theorem flagsCanonical_iff :
    flagsCanonical bytes = true ↔
      ∃ snapshot, deserializeWith Reader.strictBool maxSerializedRecords bytes = .ok snapshot := by
  unfold flagsCanonical
  cases deserializeWith Reader.strictBool maxSerializedRecords bytes with
  | error error => simp [Except.isOk, Except.toBool]
  | ok snapshot => simp [Except.isOk, Except.toBool]

theorem serialize_of_flagsCanonical (hversion : bytes.head? = some 8)
    (hflags : flagsCanonical bytes = true) (h : deserialize bytes = .ok snapshot) :
    serializeSnapshot snapshot = bytes := by
  obtain ⟨strict, hstrict⟩ := flagsCanonical_iff.mp hflags
  obtain ⟨version, hlayout⟩ := (layout_of_deserializeWith Reader.accepts_strictBool hstrict).1
  have height : version = 8 := Option.some.inj (hlayout.head.symm.trans hversion)
  have hbytes : bytes = serializeSnapshot strict := hlayout.spelled height trivial
  have hsame : deserialize bytes = .ok strict := by
    rw [hbytes, deserialize_serialize hlayout.carried.strings hlayout.carried.vectors,
      hlayout.carried.restored]
  obtain rfl := Except.ok.inj (h.symm.trans hsame)
  exact hbytes.symm

theorem flagsCanonical_serialize (h : deserialize bytes = .ok snapshot) :
    flagsCanonical (serializeSnapshot snapshot) = true := by
  obtain ⟨version, hlayout⟩ := layout_of_deserialize h
  have hfits : Fits snapshot :=
    ⟨hlayout.carried.strings, hlayout.carried.vectors.mono (by norm_num)⟩
  exact flagsCanonical_iff.mpr
    ⟨_, deserializeWith_serialize Reader.reads_strictBool hfits hlayout.carried.vectors⟩

theorem createCognition_digest (h : deserialize bytes = .ok snapshot) {source : CognitionSource}
    (hbytes : s.sourceBytes source = bytes) {m : Materialization}
    (hcreate : s.createCognition source = (.handle m, s')) :
    m.state = snapshot ∧ m.digest = draftSnapshotDigest bytes := by
  rcases ServiceState.createCognition_cases hcreate with ⟨-, -, hnone⟩ |
    ⟨hkind, -, parsed, m', hparsed, rfl, hhandle, -⟩ |
    ⟨hkind, -, parsed, m', stored, rfl, -, hparsed, rfl, hhandle, -⟩ | ⟨hsubmits, -⟩
  · exact (hnone m rfl).elim
  · obtain rfl : m = _ := ServiceState.Creation.handle.inj hhandle
    simp only [ServiceState.sourceBytes, hkind] at hbytes
    subst hbytes
    exact ⟨Except.ok.inj (hparsed.symm.trans h), rfl⟩
  · obtain rfl : m = _ := ServiceState.Creation.handle.inj hhandle
    simp only [ServiceState.sourceBytes, hkind] at hbytes
    subst hbytes
    exact ⟨Except.ok.inj (hparsed.symm.trans h), rfl⟩
  · simp only [ServiceState.submits, ite_eq_left_iff, reduceCtorEq, imp_false, not_not] at hsubmits
    obtain ⟨hkind, -, hempty⟩ := hsubmits
    simp only [ServiceState.sourceBytes, hkind] at hbytes
    rw [hbytes, List.isEmpty_iff] at hempty
    exact (ne_nil_of_deserialize h hempty).elim

/-- An accepted byte string of version 8 is the encoding of its snapshot exactly
when its flags are canonical. Then no other such string restores to the
snapshot, and what is created from it carries the digest of its own encoding. -/
theorem serialize_deserialize_iff (hversion : bytes.head? = some 8)
    (h : deserialize bytes = .ok snapshot) :
    (serializeSnapshot snapshot = bytes ↔ flagsCanonical bytes = true) ∧
      (flagsCanonical bytes = true →
        (∀ other, other.head? = some 8 → flagsCanonical other = true →
          deserialize other = .ok snapshot → other = bytes) ∧
        ∀ (s s' : ServiceState σ) source m, s.sourceBytes source = bytes →
          s.createCognition source = (.handle m, s') →
            m.digest = draftSnapshotDigest (serializeSnapshot m.state)) := by
  refine ⟨⟨fun hsame => hsame ▸ flagsCanonical_serialize h,
    fun hflags => serialize_of_flagsCanonical hversion hflags h⟩, fun hflags => ⟨?_, ?_⟩⟩
  · intro other hother hcanonical hparsed
    rw [← serialize_of_flagsCanonical hother hcanonical hparsed,
      serialize_of_flagsCanonical hversion hflags h]
  · intro s s' source m hbytes hcreate
    obtain ⟨rfl, hdigest⟩ := createCognition_digest h hbytes hcreate
    rw [hdigest, serialize_of_flagsCanonical hversion hflags h]

end Flags

open scoped QivenContext.Reference

/-- An artifact without records whose presence byte is `flag`. -/
def flaggedArtifact (flag : UInt8) : Bytes :=
  8 :: (List.replicate 72 0 ++ flag :: List.replicate 8 0)

/-- The presence byte 2 is taken for true, and is not what the encoder writes. -/
theorem flaggedArtifact_not_canonical :
    (flaggedArtifact 2).head? = some 8 ∧
      deserialize (flaggedArtifact 2) =
        .ok { ({} : Snapshot) with invocation := { present := true } } ∧
      serializeSnapshot { ({} : Snapshot) with invocation := { present := true } } ≠
        flaggedArtifact 2 := by
  refine ⟨rfl, rfl, ?_⟩
  decide

theorem flaggedArtifact_canonical_iff :
    (serializeSnapshot { ({} : Snapshot) with invocation := { present := true } } =
        flaggedArtifact 1 ↔ flagsCanonical (flaggedArtifact 1) = true) ∧
      ∀ other, other.head? = some 8 → flagsCanonical other = true →
        deserialize other = .ok { ({} : Snapshot) with invocation := { present := true } } →
          other = flaggedArtifact 1 := by
  have hparsed : deserialize (flaggedArtifact 1) =
      .ok { ({} : Snapshot) with invocation := { present := true } } := rfl
  obtain ⟨hcanonical, hunique⟩ := serialize_deserialize_iff (σ := MemoryStore) rfl hparsed
  exact ⟨hcanonical, (hunique rfl).1⟩

end QivenContext
