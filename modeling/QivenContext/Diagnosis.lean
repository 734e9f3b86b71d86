import QivenContext.Accepted
import QivenContext.Library.Online

/-!
# What the decoder says about bytes that come in pieces

The reader calls its input truncated only when the input ends too early. Any
other refusal is settled by the bytes read up to it, and so is an accepted
snapshot; no later byte takes either back.
-/

namespace QivenContext

open Library

variable [Foundation]

namespace DeserializeError

/-- The input ended where more was needed. -/
def AsksForMore (error : DeserializeError) : Prop := error.kind = .truncated

/-- The bytes read so far are not the start of any maintained format. -/
def Condemns (error : DeserializeError) : Prop :=
  error.kind = .badVersion ∨ error.kind = .badEnum ∨ error.kind = .resourceAbuse

end DeserializeError

open DeserializeError

namespace Reader

/-- The reader settles its answer at a definite byte. -/
abbrev Decides {α : Type} (r : Reader α) : Prop := Online AsksForMore Condemns r

/-! ## Words -/

theorem take_short {cursor : Foundation.Cursor} {count : ℕ} (what : Str)
    (h : (Foundation.unread cursor).length < count) :
    take count what cursor = .error { kind := .truncated, detail := what } := by
  rw [← Foundation.remaining_eq] at h
  simp only [take, h, if_true]

theorem decides_take (count : ℕ) (what : Str) : Decides (take count what) := by
  intro text
  by_cases hcount : text.length < count
  · refine .inl fun part hpart cursor hcursor => ?_
    have hunread : Foundation.unread cursor = part := hcursor
    have hlength := hpart.length_le
    refine ⟨{ kind := .truncated, detail := what }, rfl, take_short what ?_⟩
    rw [hunread]
    omega
  · have hlength : (text.take count).length = count :=
      List.length_take_of_le (Nat.not_lt.mp hcount)
    refine .inr ⟨text.take count, text.drop count, .ok (text.take count),
      (List.take_append_drop _ _).symm, ?_, ?_, by simp⟩
    · intro cursor rest hcursor
      exact (reads_take hlength what cursor rest hcursor).1 trivial
    · intro part hpart hne cursor hcursor
      have hunread : Foundation.unread cursor = part := hcursor
      have hless : part.length < (text.take count).length := by
        apply lt_of_le_of_ne hpart.length_le
        intro hsame
        exact hne (hpart.eq_of_length hsame)
      refine ⟨{ kind := .truncated, detail := what }, rfl, take_short what ?_⟩
      rw [hunread]
      omega

theorem decides_fail {α : Type} {kind : DeserializeError.Kind} (what : Str)
    (h : Condemns { kind := kind, detail := what }) : Decides (fail kind what : Reader α) :=
  .refuse h fun _ => rfl

theorem decides_u8 (what : Str) : Decides (u8 what) :=
  (decides_take 1 what).bind fun _ => .pure _

theorem decides_u32 (what : Str) : Decides (u32 what) :=
  (decides_take 4 what).bind fun _ => .pure _

theorem decides_u64 (what : Str) : Decides (u64 what) :=
  (decides_take 8 what).bind fun _ => .pure _

theorem decides_i64 (what : Str) : Decides (i64 what) :=
  (decides_u64 what).bind fun _ => .pure _

theorem decides_str (what : Str) : Decides (str what) :=
  (decides_u32 what).bind fun _ => decides_take _ _

theorem decides_bool (what : Str) : Decides (bool what) :=
  (decides_u8 what).bind fun _ => .pure _

theorem decides_enumValue (E : Type) [DecidableEq E] [Inhabited E] [Enumerated E] (what : Str)
    (maxValue : UInt8) : Decides (enumValue E what maxValue) := by
  apply (decides_u8 what).bind
  intro raw
  split
  · exact decides_fail what (.inr (.inl rfl))
  · exact .pure _

theorem decides_cappedCount (limit : UInt32) (what : Str) : Decides (cappedCount limit what) := by
  apply (decides_u32 what).bind
  intro count
  split
  · exact decides_fail what (.inr (.inr rfl))
  · exact .pure _

theorem decides_vector {α : Type} {item : Reader α} (limit : UInt32) (what : Str)
    (h : Decides item) : Decides (vector limit what item) :=
  (decides_cappedCount limit what).bind fun _ => h.times _

theorem decides_stringVector (limit : UInt32) (what : Str) : Decides (stringVector limit what) :=
  decides_vector limit what (decides_str what)

theorem decides_handoffPolicy : Decides handoffPolicy :=
  (decides_enumValue _ _ _).bind fun _ => (decides_enumValue _ _ _).bind fun _ =>
    (decides_bool _).bind fun _ => .pure _

theorem decides_recoveryRule : Decides recoveryRule :=
  (decides_enumValue _ _ _).bind fun _ => (decides_enumValue _ _ _).bind fun _ => .pure _

theorem decides_state : Decides state :=
  (decides_str _).bind fun _ => (decides_str _).bind fun _ => (decides_str _).bind fun _ =>
    (decides_str _).bind fun _ => (decides_str _).bind fun _ => (decides_str _).bind fun _ =>
    (decides_str _).bind fun _ => .pure _

theorem decides_source : Decides source :=
  (decides_enumValue _ _ _).bind fun _ => (decides_str _).bind fun _ =>
    (decides_str _).bind fun _ => .pure _

theorem decides_provenance (limit : UInt32) (what : Str) : Decides (provenance limit what) :=
  (decides_vector limit what decides_source).bind fun _ => .pure _

theorem decides_decision (limit : UInt32) : Decides (decision limit) :=
  (decides_i64 _).bind fun _ => (decides_enumValue _ _ _).bind fun _ =>
    (decides_str _).bind fun _ => (decides_str _).bind fun _ =>
    (decides_vector limit _ (decides_i64 _)).bind fun _ =>
    (decides_vector limit _ (decides_i64 _)).bind fun _ =>
    (decides_provenance limit _).bind fun _ => .pure _

theorem decides_memoryRecord (limit : UInt32) : Decides (memoryRecord limit) :=
  (decides_enumValue _ _ _).bind fun _ => (decides_enumValue _ _ _).bind fun _ =>
    (decides_str _).bind fun _ => (decides_str _).bind fun _ =>
    (decides_provenance limit _).bind fun _ => .pure _

theorem decides_obligation : Decides Reader.obligation :=
  (decides_enumValue _ _ _).bind fun _ => (decides_enumValue _ _ _).bind fun _ =>
    (decides_i64 _).bind fun _ => (decides_str _).bind fun _ => (decides_str _).bind fun _ =>
    .pure _

theorem decides_evidence : Decides Reader.evidence :=
  (decides_str _).bind fun _ => (decides_str _).bind fun _ => .pure _

theorem decides_conflict : Decides Reader.conflict :=
  (decides_str _).bind fun _ => (decides_enumValue _ _ _).bind fun _ =>
    (decides_str _).bind fun _ => (decides_str _).bind fun _ => (decides_str _).bind fun _ =>
    .pure _

theorem decides_profile : Decides Reader.profile :=
  (decides_str _).bind fun _ => (decides_str _).bind fun _ => (decides_str _).bind fun _ =>
    (decides_enumValue _ _ _).bind fun _ => .pure _

theorem decides_view (limit : UInt32) : Decides (Reader.view limit) :=
  (decides_str _).bind fun _ => (decides_str _).bind fun _ => (decides_str _).bind fun _ =>
    (decides_str _).bind fun _ => (decides_stringVector limit _).bind fun _ => .pure _

theorem decides_claimClass : Decides claimClass := by
  apply (decides_bool _).bind
  intro present
  split
  · exact (decides_enumValue _ _ _).bind fun _ => .pure _
  · exact .pure _

theorem decides_invocationRule (version : UInt8) : Decides (invocationRule version) := by
  apply (decides_enumValue _ _ _).bind
  intro action
  split
  · exact decides_claimClass.bind fun _ => (decides_enumValue _ _ _).bind fun _ =>
      (decides_enumValue _ _ _).bind fun _ => (decides_str _).bind fun _ =>
      (decides_bool _).bind fun _ => .pure _
  · exact (decides_enumValue _ _ _).bind fun _ => (decides_str _).bind fun _ =>
      (decides_bool _).bind fun _ => .pure _

theorem decides_invocation (limit : UInt32) (version : UInt8) :
    Decides (invocation limit version) := by
  have hrules := decides_vector limit (lit "invocation rules") (decides_invocationRule version)
  unfold invocation
  split
  · exact (decides_bool _).bind fun _ => hrules.bind fun _ => .pure _
  · split
    · exact hrules.bind fun _ => .pure _
    · exact .pure _

theorem decides_role (limit : UInt32) : Decides (role limit) :=
  (decides_enumValue _ _ _).bind fun _ =>
    (decides_vector limit _ (decides_enumValue _ _ _)).bind fun _ =>
    (decides_stringVector limit _).bind fun _ => (decides_bool _).bind fun _ =>
    (decides_enumValue _ _ _).bind fun _ => (decides_bool _).bind fun _ =>
    (decides_provenance limit _).bind fun _ => .pure _

theorem decides_version : Decides version := by
  apply (decides_u8 _).bind
  intro version
  split
  · exact decides_fail _ (.inl rfl)
  · exact .pure _

theorem decides_body (limit : UInt32) (version : UInt8) : Decides (body limit version) :=
  (decides_str _).bind fun _ => (decides_stringVector limit _).bind fun _ =>
    (decides_vector limit _ decides_handoffPolicy).bind fun _ =>
    (decides_vector limit _ decides_recoveryRule).bind fun _ => decides_state.bind fun _ =>
    (decides_vector limit _ (decides_decision limit)).bind fun _ =>
    (decides_vector limit _ (decides_memoryRecord limit)).bind fun _ =>
    (decides_vector limit _ decides_obligation).bind fun _ =>
    (decides_vector limit _ decides_evidence).bind fun _ =>
    (decides_vector limit _ decides_conflict).bind fun _ =>
    (decides_vector limit _ decides_profile).bind fun _ =>
    (decides_vector limit _ (decides_view limit)).bind fun _ =>
    (decides_invocation limit version).bind fun _ =>
    (decides_vector limit _ (decides_role limit)).bind fun _ => .pure _

theorem decides_snapshot (limit : UInt32) : Decides (snapshot limit) :=
  decides_version.bind fun version => decides_body limit version

end Reader

/-! ## The decoder -/

/-- The decoder refuses the bytes as truncated. -/
def CalledTruncated (bytes : Bytes) : Prop :=
  ∃ error, deserialize bytes = .error error ∧ error.kind = .truncated

/-- What the decoder makes of bytes that arrive one after the other: it calls
every part of them truncated, or some part, the first it does not call so, is
accepted and nothing longer is, or is refused for good with one error. -/
inductive Diagnosis (bytes : Bytes) : Prop
  | pending (h : ∀ part, part <+: bytes → CalledTruncated part)
  | accepted (used rest : Bytes) (s : Snapshot) (hbytes : bytes = used ++ rest)
      (hearly : ∀ part, part <+: used → part ≠ used → CalledTruncated part)
      (hused : deserialize used = .ok s)
      (hlonger : ∀ more, more ≠ [] → deserialize (used ++ more) =
        .error { kind := .truncated, detail := lit "trailing bytes after snapshot" })
  | condemned (used rest : Bytes) (error : DeserializeError) (hbytes : bytes = used ++ rest)
      (hearly : ∀ part, part <+: used → part ≠ used → CalledTruncated part)
      (herror : Condemns error)
      (hlonger : ∀ more, deserialize (used ++ more) = .error error)

section Settled

variable {used part : Bytes} {s : Snapshot} {error : DeserializeError}

theorem calledTruncated_of_asks
    (h : AsksAt AsksForMore (Reader.snapshot maxSerializedRecords) part) :
    CalledTruncated part := by
  obtain ⟨error, hshort, hrun⟩ := h (Foundation.cursor part) (Foundation.unread_cursor part)
  refine ⟨error, ?_, hshort⟩
  simp only [deserialize, deserializeWithin, hrun]

theorem deserialize_of_answers_error
    (h : Answers (Reader.snapshot maxSerializedRecords) used (.error error)) (more : Bytes) :
    deserialize (used ++ more) = .error error := by
  have hrun := h (Foundation.cursor (used ++ more)) more (Foundation.unread_cursor _)
  simp only [deserialize, deserializeWithin, hrun]

theorem deserialize_of_answers_ok
    (h : Answers (Reader.snapshot maxSerializedRecords) used (.ok s)) :
    deserialize used = .ok s := by
  have hunread : Unread.unread (Foundation.cursor used) = used ++ [] := by
    rw [List.append_nil]
    exact Foundation.unread_cursor used
  obtain ⟨cursor, hrun, hcursor⟩ := h (Foundation.cursor used) [] hunread
  have hempty : Foundation.empty cursor = true := (Foundation.empty_iff cursor).mpr hcursor
  simp only [deserialize, deserializeWithin, hrun, hempty, if_true]

theorem deserialize_longer_of_answers
    (h : Answers (Reader.snapshot maxSerializedRecords) used (.ok s)) {more : Bytes}
    (hmore : more ≠ []) : deserialize (used ++ more) =
      .error { kind := .truncated, detail := lit "trailing bytes after snapshot" } := by
  obtain ⟨cursor, hrun, hcursor⟩ :=
    h (Foundation.cursor (used ++ more)) more (Foundation.unread_cursor _)
  have hempty : ¬ Foundation.empty cursor = true := by
    rw [Foundation.empty_iff]
    exact fun hnil => hmore (hcursor.symm.trans hnil)
  simp only [deserialize, deserializeWithin, hrun, if_neg hempty]

end Settled

/-- The decoder makes up its mind at a definite byte: every shorter part is
called truncated, and what it says there no continuation changes. -/
theorem decoder_decides (bytes : Bytes) : Diagnosis bytes := by
  rcases Reader.decides_snapshot maxSerializedRecords bytes with
    hshort | ⟨used, rest, answer, hbytes, hsettles⟩
  · exact .pending fun part hpart => calledTruncated_of_asks (hshort part hpart)
  have hearly : ∀ part, part <+: used → part ≠ used → CalledTruncated part := by
    intro part hpart hne
    exact calledTruncated_of_asks (hsettles.asks part hpart hne)
  cases answer with
  | ok s =>
      refine .accepted used rest s hbytes hearly (deserialize_of_answers_ok hsettles.answers) ?_
      intro more hmore
      exact deserialize_longer_of_answers hsettles.answers hmore
  | error error =>
      refine .condemned used rest error hbytes hearly (hsettles.final error rfl) ?_
      exact deserialize_of_answers_error hsettles.answers

end QivenContext
