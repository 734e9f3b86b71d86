import QivenContext.Codec

/-!
# What the decoder accepts

Whatever bytes a reader accepts, it takes a definite part of them, the value
it returns is within the bounds of the format, and it returns the same value
wherever this part comes next. Where booleans are spelled as the encoder
spells them, the part is the encoding of the value.
-/

namespace QivenContext

open Library Snapshot

variable [Foundation]

namespace Reader

/-! ## Words -/

theorem accepts_take (count : ℕ) (what : Str) :
    Accepts (take count what) fun used bytes => used = bytes ∧ bytes.length = count := by
  intro c bytes c' hrun
  unfold take at hrun
  split at hrun
  · simp at hrun
  · next hremaining =>
      have hcount : count ≤ (Foundation.unread c).length := by
        rw [← Foundation.remaining_eq]
        exact Nat.not_lt.mp hremaining
      obtain ⟨c₁, htake, hc₁⟩ := Foundation.take_eq c count hcount
      rw [htake] at hrun
      obtain ⟨rfl, rfl⟩ := Prod.mk.inj (Except.ok.inj hrun)
      have hlength : ((Foundation.unread c).take count).length = count :=
        List.length_take_of_le hcount
      refine ⟨(Foundation.unread c).take count, ?_, reads_take hlength what, rfl, hlength⟩
      change Foundation.unread c = _ ++ Foundation.unread c₁
      rw [hc₁, List.take_append_drop]

theorem accepts_fail {α : Type} {spells : Bytes → α → Prop} (kind : DeserializeError.Kind)
    (what : Str) : Accepts (fail kind what) spells := by
  intro c a c' hrun
  simp [fail] at hrun

theorem accepts_u8 (what : Str) : Accepts (u8 what) fun used value => used = putU8 value := by
  refine (accepts_take 1 what).bind fun used bytes htaken => Accepts.pure ?_
  obtain ⟨rfl, hlength⟩ := htaken
  obtain ⟨byte, rfl⟩ := List.length_eq_one_iff.mp hlength
  rfl

theorem accepts_u32 (what : Str) : Accepts (u32 what) fun used value => used = putU32 value := by
  refine (accepts_take 4 what).bind fun used bytes htaken => Accepts.pure ?_
  obtain ⟨rfl, hlength⟩ := htaken
  have hlt := ofLittleEndian_lt used
  rw [hlength] at hlt
  rw [Foundation.decodeLeU32_eq used hlength, putU32_eq, List.append_nil]
  simp only [Option.getD_some, UInt32.toNat_ofNat']
  rw [Nat.mod_eq_of_lt (show _ < 2 ^ 32 from hlt), ← hlength, littleEndian_ofLittleEndian]

theorem accepts_u64 (what : Str) : Accepts (u64 what) fun used value => used = putU64 value := by
  refine (accepts_take 8 what).bind fun used bytes htaken => Accepts.pure ?_
  obtain ⟨rfl, hlength⟩ := htaken
  have hlt := ofLittleEndian_lt used
  rw [hlength] at hlt
  rw [Foundation.decodeLeU64_eq used hlength, putU64_eq, List.append_nil]
  simp only [Option.getD_some, UInt64.toNat_ofNat']
  rw [Nat.mod_eq_of_lt (show _ < 2 ^ 64 from hlt), ← hlength, littleEndian_ofLittleEndian]

variable {limit : UInt32}

theorem accepts_i64 (what : Str) :
    Accepts (i64 what) (Spelled True (fun _ => True) putI64) := by
  refine (accepts_u64 what).bind fun used bits hbits => Accepts.pure ⟨trivial, fun _ => ?_⟩
  simp [putI64, hbits]

theorem accepts_str (what : Str) : Accepts (str what) (Spelled True short putStr) := by
  refine (accepts_u32 what).bind fun used length hlength =>
    (accepts_take length.toNat _).mono fun used' text htext => ?_
  obtain ⟨rfl, htext⟩ := htext
  have hlt : length.toNat < 2 ^ 32 := length.toNat_lt
  refine ⟨?_, fun _ => ?_⟩
  · rw [short, htext]
    exact hlt
  · rw [putStr, htext, UInt32.ofNat_toNat, hlength]

theorem accepts_enumValue {E : Type} [DecidableEq E] [Inhabited E] [Enumerated E] {what : Str}
    {maxValue : UInt8} (h : maxValue.toNat < (Enumerated.values : List E).length) :
    Accepts (enumValue E what maxValue) (Spelled True (fun _ => True) putEnum) := by
  refine (accepts_u8 what).bind fun used raw hraw => ?_
  split
  · exact accepts_fail _ _
  · next hle =>
      have hbyte : raw.toNat < (Enumerated.values : List E).length :=
        Nat.lt_of_le_of_lt (UInt8.le_iff_toNat_le.mp (UInt8.not_lt.mp hle)) h
      refine Accepts.pure ⟨trivial, fun _ => ?_⟩
      rw [List.append_nil, hraw, putEnum, Enumerated.toByte_ofByte hbyte]

theorem accepts_cappedCount (what : Str) :
    Accepts (cappedCount limit what) fun used count => used = putU32 count ∧ count ≤ limit := by
  refine (accepts_u32 what).bind fun used count hcount => ?_
  split
  · exact accepts_fail _ _
  · next hle =>
      exact Accepts.pure ⟨by rw [List.append_nil, hcount], UInt32.not_lt.mp hle⟩

theorem accepts_vector {α : Type} {exact : Prop} {what : Str} {item : Reader α} {good : α → Prop}
    {put : α → Bytes} (h : Accepts item (Spelled exact good put)) :
    Accepts (vector limit what item) (Spelled exact
      (fun values => values.length ≤ limit.toNat ∧ ∀ a ∈ values, good a) (putVector put)) := by
  refine (accepts_cappedCount what).bind fun used count hcount =>
    (Accepts.times h count.toNat).mono fun used' values hvalues => ?_
  obtain ⟨hused, hle⟩ := hcount
  obtain ⟨⟨hlength, hgood⟩, hused'⟩ := hvalues
  refine ⟨⟨?_, hgood⟩, fun hexact => ?_⟩
  · rw [hlength]
    exact UInt32.le_iff_toNat_le.mp hle
  · rw [putVector, hlength, UInt32.ofNat_toNat, hused, hused' hexact]

theorem accepts_stringVector (what : Str) :
    Accepts (stringVector limit what) (Spelled True
      (fun values => values.length ≤ limit.toNat ∧ ∀ text ∈ values, short text)
      (putVector putStr)) :=
  accepts_vector (accepts_str what)

theorem accepts_recoveryRule :
    Accepts recoveryRule (Spelled True (fun _ => True) putRecoveryRule) := by
  refine (accepts_enumValue (by decide)).bind fun used₁ reason h₁ =>
    (accepts_enumValue (by decide)).bind fun used₂ action h₂ =>
    Accepts.pure ⟨trivial, fun _ => ?_⟩
  simp [putRecoveryRule, h₁.2 trivial, h₂.2 trivial]

theorem accepts_state : Accepts Reader.state (Spelled True ShortState putState) := by
  refine (accepts_str _).bind fun used₁ objective h₁ => (accepts_str _).bind fun used₂ current h₂ =>
    (accepts_str _).bind fun used₃ checkpointRef h₃ =>
    (accepts_str _).bind fun used₄ candidateRef h₄ =>
    (accepts_str _).bind fun used₅ nextBoundaryRef h₅ =>
    (accepts_str _).bind fun used₆ repositories h₆ =>
    (accepts_str _).bind fun used₇ roadmap h₇ =>
    Accepts.pure ⟨⟨h₁.1, h₂.1, h₃.1, h₄.1, h₅.1, h₆.1, h₇.1⟩, fun _ => ?_⟩
  simp [putState, h₁.2 trivial, h₂.2 trivial, h₃.2 trivial, h₄.2 trivial, h₅.2 trivial,
    h₆.2 trivial, h₇.2 trivial]

theorem accepts_source :
    Accepts Reader.source (Spelled True
      (fun source => short source.reference ∧ short source.note) putSource) := by
  refine (accepts_enumValue (by decide)).bind fun used₁ kind h₁ =>
    (accepts_str _).bind fun used₂ reference h₂ => (accepts_str _).bind fun used₃ note h₃ =>
    Accepts.pure ⟨⟨h₂.1, h₃.1⟩, fun _ => ?_⟩
  simp [putSource, h₁.2 trivial, h₂.2 trivial, h₃.2 trivial]

theorem accepts_provenance (what : Str) :
    Accepts (Reader.provenance limit what) (Spelled True (fun provenance =>
      ShortProvenance provenance ∧ provenance.sources.length ≤ limit.toNat) putProvenance) := by
  refine (accepts_vector accepts_source).bind fun used sources h =>
    Accepts.pure ⟨⟨h.1.2, h.1.1⟩, fun _ => ?_⟩
  simp [putProvenance, h.2 trivial]

theorem accepts_decision :
    Accepts (Reader.decision limit) (Spelled True (fun decision =>
      ShortDecision decision ∧ DecisionWithin limit.toNat decision) putDecision) := by
  refine (accepts_i64 _).bind fun used₁ id h₁ =>
    (accepts_enumValue (by decide)).bind fun used₂ status h₂ =>
    (accepts_str _).bind fun used₃ title h₃ => (accepts_str _).bind fun used₄ content h₄ =>
    (accepts_vector (accepts_i64 _)).bind fun used₅ supersedes h₅ =>
    (accepts_vector (accepts_i64 _)).bind fun used₆ supersededBy h₆ =>
    (accepts_provenance _).bind fun used₇ provenance h₇ =>
    Accepts.pure ⟨⟨⟨h₃.1, h₄.1, h₇.1.1⟩, ⟨h₅.1.1, h₆.1.1, h₇.1.2⟩⟩, fun _ => ?_⟩
  simp [putDecision, h₁.2 trivial, h₂.2 trivial, h₃.2 trivial, h₄.2 trivial, h₅.2 trivial,
    h₆.2 trivial, h₇.2 trivial]

theorem accepts_memoryRecord :
    Accepts (memoryRecord limit) (Spelled True (fun record =>
      ShortMemory record ∧ record.provenance.sources.length ≤ limit.toNat ∧
        restoredMemory record = record) putMemoryRecord) := by
  refine (accepts_enumValue (by decide)).bind fun used₁ kind h₁ =>
    (accepts_enumValue (by decide)).bind fun used₂ status h₂ =>
    (accepts_str _).bind fun used₃ title h₃ => (accepts_str _).bind fun used₄ statement h₄ =>
    (accepts_provenance _).bind fun used₅ provenance h₅ =>
    Accepts.pure ⟨⟨⟨h₃.1, h₄.1, h₅.1.1⟩, h₅.1.2, rfl⟩, fun _ => ?_⟩
  simp [putMemoryRecord, h₁.2 trivial, h₂.2 trivial, h₃.2 trivial, h₄.2 trivial, h₅.2 trivial]

theorem accepts_obligation :
    Accepts Reader.obligation (Spelled True (fun obligation =>
      ShortObligation obligation ∧ restoredObligation obligation = obligation)
      putObligation) := by
  refine (accepts_enumValue (by decide)).bind fun used₁ status h₁ =>
    (accepts_enumValue (by decide)).bind fun used₂ trigger h₂ =>
    (accepts_i64 _).bind fun used₃ id h₃ => (accepts_str _).bind fun used₄ statement h₄ =>
    (accepts_str _).bind fun used₅ completionCriteria h₅ =>
    Accepts.pure ⟨⟨⟨by simp [short], h₄.1, h₅.1⟩, rfl⟩, fun _ => ?_⟩
  simp [putObligation, h₁.2 trivial, h₂.2 trivial, h₃.2 trivial, h₄.2 trivial, h₅.2 trivial]

theorem accepts_evidence : Accepts Reader.evidence (Spelled True ShortEvidence putEvidence) := by
  refine (accepts_str _).bind fun used₁ boundTo h₁ => (accepts_str _).bind fun used₂ content h₂ =>
    Accepts.pure ⟨⟨h₁.1, h₂.1⟩, fun _ => ?_⟩
  simp [putEvidence, h₁.2 trivial, h₂.2 trivial]

theorem accepts_conflict : Accepts Reader.conflict (Spelled True ShortConflict putConflict) := by
  refine (accepts_str _).bind fun used₁ id h₁ =>
    (accepts_enumValue (by decide)).bind fun used₂ status h₂ =>
    (accepts_str _).bind fun used₃ scope h₃ => (accepts_str _).bind fun used₄ description h₄ =>
    (accepts_str _).bind fun used₅ resolution h₅ =>
    Accepts.pure ⟨⟨h₁.1, h₃.1, h₄.1, h₅.1⟩, fun _ => ?_⟩
  simp [putConflict, h₁.2 trivial, h₂.2 trivial, h₃.2 trivial, h₄.2 trivial, h₅.2 trivial]

theorem accepts_profile : Accepts Reader.profile (Spelled True ShortProfile putProfile) := by
  refine (accepts_str _).bind fun used₁ id h₁ => (accepts_str _).bind fun used₂ kind h₂ =>
    (accepts_str _).bind fun used₃ summary h₃ =>
    (accepts_enumValue (by decide)).bind fun used₄ layer h₄ =>
    Accepts.pure ⟨⟨h₁.1, h₂.1, h₃.1⟩, fun _ => ?_⟩
  simp [putProfile, h₁.2 trivial, h₂.2 trivial, h₃.2 trivial, h₄.2 trivial]

theorem accepts_view :
    Accepts (Reader.view limit) (Spelled True (fun view =>
      ShortView view ∧ view.profileRefs.length ≤ limit.toNat) putView) := by
  refine (accepts_str _).bind fun used₁ id h₁ => (accepts_str _).bind fun used₂ agent h₂ =>
    (accepts_str _).bind fun used₃ human h₃ => (accepts_str _).bind fun used₄ summary h₄ =>
    (accepts_stringVector _).bind fun used₅ profileRefs h₅ =>
    Accepts.pure ⟨⟨⟨h₁.1, h₂.1, h₃.1, h₄.1, h₅.1.2⟩, h₅.1.1⟩, fun _ => ?_⟩
  simp [putView, h₁.2 trivial, h₂.2 trivial, h₃.2 trivial, h₄.2 trivial, h₅.2 trivial]

/-! ## The layout over a boolean reader -/

/-- The reader of flags; where `exact` holds, it takes the encoder's spelling only. -/
def AcceptsFlags (exact : Prop) (flag : Str → Reader Bool) : Prop :=
  ∀ what, Accepts (flag what) (Spelled exact (fun _ => True) putBool)

theorem accepts_bool : AcceptsFlags False bool := by
  intro what
  exact (accepts_u8 what).bind fun used raw hraw => Accepts.pure ⟨trivial, False.elim⟩

variable {exact : Prop} {flag : Str → Reader Bool} {version : UInt8}

theorem accepts_handoffPolicyWith (hflag : AcceptsFlags exact flag) :
    Accepts (handoffPolicyWith flag) (Spelled exact (fun _ => True) putHandoffPolicy) := by
  refine (accepts_enumValue (by decide)).bind fun used₁ opClass h₁ =>
    (accepts_enumValue (by decide)).bind fun used₂ required h₂ =>
    (hflag _).bind fun used₃ rootPrincipalOnly h₃ =>
    Accepts.pure ⟨trivial, fun hexact => ?_⟩
  simp [putHandoffPolicy, h₁.2 trivial, h₂.2 trivial, h₃.2 hexact]

theorem accepts_claimClassWith (hflag : AcceptsFlags exact flag) :
    Accepts (claimClassWith flag) (Spelled exact (fun _ => True) putClaimClass) := by
  refine (hflag _).bind fun used₁ present h₁ => ?_
  cases present with
  | false =>
      refine Accepts.pure ⟨trivial, fun hexact => ?_⟩
      simp [putClaimClass, h₁.2 hexact]
  | true =>
      refine (accepts_enumValue (by decide)).bind fun used₂ value h₂ =>
        Accepts.pure ⟨trivial, fun hexact => ?_⟩
      simp [putClaimClass, h₁.2 hexact, h₂.2 trivial]

theorem accepts_invocationRuleWith (hflag : AcceptsFlags exact flag) :
    Accepts (invocationRuleWith flag version) (Spelled (version = 8 ∧ exact)
      (fun rule => short rule.subject) putInvocationRule) := by
  refine (accepts_enumValue (by decide)).bind fun used₁ action h₁ => ?_
  split
  · refine (accepts_claimClassWith hflag).bind fun used₂ claimClass h₂ =>
      (accepts_enumValue (by decide)).bind fun used₃ requirement h₃ =>
      (accepts_enumValue (by decide)).bind fun used₄ boundary h₄ =>
      (accepts_str _).bind fun used₅ subject h₅ => (hflag _).bind fun used₆ blocking h₆ =>
      Accepts.pure ⟨h₅.1, fun hexact => ?_⟩
    simp [putInvocationRule, h₁.2 trivial, h₂.2 hexact.2, h₃.2 trivial, h₄.2 trivial,
      h₅.2 trivial, h₆.2 hexact.2]
  · next hversion =>
      refine (accepts_enumValue (by decide)).bind fun used₂ requirement h₂ =>
        (accepts_str _).bind fun used₃ subject h₃ => (hflag _).bind fun used₄ blocking h₄ =>
        Accepts.pure ⟨h₃.1, fun hexact => ?_⟩
      exact absurd (hexact.1 ▸ hversion) (by decide)

/-- The policy of an accepted layout: before version 8 it is present exactly
when it has rules, and version 6 has none. -/
structure PolicyOf (version : UInt8) (cap : ℕ) (invocation : InvocationPolicy) : Prop where
  subjects : ∀ rule ∈ invocation.rules, short rule.subject
  rules : invocation.rules.length ≤ cap
  presence : version < 8 → invocation.present = !invocation.rules.isEmpty
  oldest : version < 7 → invocation.rules = []

theorem accepts_invocationWith (hflag : AcceptsFlags exact flag) :
    Accepts (invocationWith flag limit version) (Spelled (version = 8 ∧ exact)
      (PolicyOf version limit.toNat) fun invocation =>
        putBool invocation.present ++ putVector putInvocationRule invocation.rules) := by
  unfold invocationWith
  split
  · next hversion =>
      have hnewest : ¬ version < 8 := UInt8.not_lt.mpr hversion
      have hnewer : ¬ version < 7 := by
        rw [UInt8.lt_iff_toNat_lt] at hnewest ⊢
        exact fun h => hnewest (Nat.lt_succ_of_lt h)
      refine (hflag _).bind fun used₁ present h₁ =>
        (accepts_vector (accepts_invocationRuleWith hflag)).bind fun used₂ rules h₂ =>
        Accepts.pure ⟨⟨h₂.1.2, h₂.1.1, fun h => (hnewest h).elim, fun h => (hnewer h).elim⟩,
          fun hexact => ?_⟩
      simp [h₁.2 hexact.2, h₂.2 hexact]
  · next hversion =>
      split
      · next hseven =>
          refine (accepts_vector (accepts_invocationRuleWith hflag)).bind fun used rules h =>
            Accepts.pure ⟨⟨h.1.2, h.1.1, fun _ => rfl, fun hlt => ?_⟩, fun hexact => ?_⟩
          · exact (UInt8.not_lt.mpr hseven hlt).elim
          · exact absurd (hexact.1 ▸ hversion) (by decide)
      · refine Accepts.pure ⟨⟨by simp, Nat.zero_le _, fun _ => rfl, fun _ => rfl⟩, fun hexact => ?_⟩
        exact absurd (hexact.1 ▸ hversion) (by decide)

theorem accepts_roleWith (hflag : AcceptsFlags exact flag) :
    Accepts (roleWith flag limit) (Spelled exact (fun spec =>
      ShortRole spec ∧ RoleWithin limit.toNat spec) putRole) := by
  refine (accepts_enumValue (by decide)).bind fun used₁ id h₁ =>
    (accepts_vector (accepts_enumValue (by decide))).bind fun used₂ authorities h₂ =>
    (accepts_stringVector _).bind fun used₃ duties h₃ =>
    (hflag _).bind fun used₄ reviewGradeReasoning h₄ =>
    (accepts_enumValue (by decide)).bind fun used₅ execution h₅ =>
    (hflag _).bind fun used₆ identityPortVerified h₆ =>
    (accepts_provenance _).bind fun used₇ provenance h₇ =>
    Accepts.pure ⟨⟨⟨h₃.1.2, h₇.1.1⟩, ⟨h₂.1.1, h₃.1.1, h₇.1.2⟩⟩, fun hexact => ?_⟩
  simp [putRole, h₁.2 trivial, h₂.2 trivial, h₃.2 trivial, h₄.2 hexact, h₅.2 trivial,
    h₆.2 hexact, h₇.2 trivial]

/-- The format carries all of the snapshot. -/
structure Carried (cap : ℕ) (snapshot : Snapshot) : Prop where
  strings : StringsShort snapshot
  vectors : VectorsWithin cap snapshot
  restored : restored snapshot = snapshot

/-- Bytes of this version that stand for the snapshot. -/
structure Layout (cap : ℕ) (exact : Prop) (version : UInt8) (bytes : Bytes)
    (snapshot : Snapshot) : Prop where
  head : bytes.head? = some version
  oldest : 6 ≤ version
  newest : version ≤ 8
  carried : Carried cap snapshot
  policy : PolicyOf version cap snapshot.invocation
  spelled : version = 8 → exact → bytes = serializeSnapshot snapshot

theorem accepts_version :
    Accepts Reader.version fun used version => used = [version] ∧ 6 ≤ version ∧ version ≤ 8 := by
  refine (accepts_u8 _).bind fun used version hversion => ?_
  split
  · exact accepts_fail _ _
  · next hwindow =>
      rw [not_or] at hwindow
      refine Accepts.pure ⟨?_, UInt8.not_lt.mp hwindow.2, UInt8.not_lt.mp hwindow.1⟩
      rw [List.append_nil, hversion, putU8]

theorem accepts_bodyWith (hflag : AcceptsFlags exact flag) :
    Accepts (bodyWith flag limit version) (Spelled (version = 8 ∧ exact)
      (fun s => Carried limit.toNat s ∧ PolicyOf version limit.toNat s.invocation)
      fun s => (serializeSnapshot s).tail) := by
  refine (accepts_str _).bind fun used₁ rootPrincipal h₁ =>
    (accepts_stringVector _).bind fun used₂ articles h₂ =>
    (accepts_vector (accepts_handoffPolicyWith hflag)).bind fun used₃ handoff h₃ =>
    (accepts_vector accepts_recoveryRule).bind fun used₄ recovery h₄ =>
    accepts_state.bind fun used₅ state h₅ =>
    (accepts_vector accepts_decision).bind fun used₆ decisions h₆ =>
    (accepts_vector accepts_memoryRecord).bind fun used₇ memory h₇ =>
    (accepts_vector accepts_obligation).bind fun used₈ obligations h₈ =>
    (accepts_vector accepts_evidence).bind fun used₉ evidence h₉ =>
    (accepts_vector accepts_conflict).bind fun used₁₀ conflicts h₁₀ =>
    (accepts_vector accepts_profile).bind fun used₁₁ profiles h₁₁ =>
    (accepts_vector accepts_view).bind fun used₁₂ views h₁₂ =>
    (accepts_invocationWith hflag).bind fun used₁₃ invocation h₁₃ =>
    (accepts_vector (accepts_roleWith hflag)).bind fun used₁₄ roles h₁₄ =>
    Accepts.pure ⟨⟨⟨?_, ?_, ?_⟩, h₁₃.1⟩, fun hexact => ?_⟩
  · exact ⟨h₁.1, h₂.1.2, h₁₃.1.subjects, h₅.1, fun _ hmem => (h₆.1.2 _ hmem).1,
      fun _ hmem => (h₇.1.2 _ hmem).1, fun _ hmem => (h₈.1.2 _ hmem).1, h₉.1.2, h₁₀.1.2,
      h₁₁.1.2, fun _ hmem => (h₁₂.1.2 _ hmem).1, fun _ hmem => (h₁₄.1.2 _ hmem).1⟩
  · exact ⟨h₂.1.1, h₃.1.1, h₄.1.1, h₁₃.1.rules, h₆.1.1, fun _ hmem => (h₆.1.2 _ hmem).2, h₇.1.1,
      fun _ hmem => (h₇.1.2 _ hmem).2.1, h₈.1.1, h₉.1.1, h₁₀.1.1, h₁₁.1.1, h₁₂.1.1,
      fun _ hmem => (h₁₂.1.2 _ hmem).2, h₁₄.1.1, fun _ hmem => (h₁₄.1.2 _ hmem).2⟩
  · rw [restored_eq_self]
    exact ⟨fun record hmem => restoredMemory_eq_self.mp (h₇.1.2 record hmem).2.2,
      fun obligation hmem => restoredObligation_eq_self.mp (h₈.1.2 obligation hmem).2⟩
  · have h₁₃' := h₁₃.2 hexact
    simp [serializeSnapshot, putU8, h₁.2 trivial, h₂.2 trivial, h₃.2 hexact.2, h₄.2 trivial,
      h₅.2 trivial, h₆.2 trivial, h₇.2 trivial, h₈.2 trivial, h₉.2 trivial, h₁₀.2 trivial,
      h₁₁.2 trivial, h₁₂.2 trivial, h₁₃', h₁₄.2 hexact.2]

theorem accepts_snapshotWith (hflag : AcceptsFlags exact flag) :
    Accepts (snapshotWith flag limit) fun used s =>
      ∃ version, Layout limit.toNat exact version used s := by
  refine accepts_version.bind fun used version hversion =>
    (accepts_bodyWith hflag).mono fun used' s hbody => ⟨version, ?_⟩
  obtain ⟨rfl, holdest, hnewest⟩ := hversion
  obtain ⟨⟨hcarried, hpolicy⟩, hused'⟩ := hbody
  refine ⟨rfl, holdest, hnewest, hcarried, hpolicy, fun hversion hexact => ?_⟩
  rw [hused' ⟨hversion, hexact⟩, hversion]
  rfl

end Reader

/-! ## The decoder on what it accepts -/

variable {limit : UInt32} {exact : Prop} {flag : Str → Reader Bool} {bytes : Bytes} {s : Snapshot}

/-- Accepted bytes are a layout of what they restore to, and its reader would
stop right after them. -/
theorem layout_of_deserializeWith (hflag : Reader.AcceptsFlags exact flag)
    (h : deserializeWith flag limit bytes = .ok s) :
    (∃ version, Reader.Layout limit.toNat exact version bytes s) ∧
      Reads (Reader.snapshotWith flag limit) bytes True s := by
  unfold deserializeWith at h
  split at h
  · simp at h
  · next snapshot cursor hrun =>
      split at h
      · next hempty =>
          obtain rfl := Except.ok.inj h
          obtain ⟨used, hused, hreads, hlayout⟩ :=
            Reader.accepts_snapshotWith hflag _ _ _ hrun
          have hbytes : bytes = used := by
            have hunread : Foundation.unread (Foundation.cursor bytes) =
                used ++ Foundation.unread cursor := hused
            rw [Foundation.unread_cursor, (Foundation.empty_iff cursor).mp hempty,
              List.append_nil] at hunread
            exact hunread
          rw [hbytes]
          exact ⟨hlayout, hreads⟩
      · simp at h

/-- What was read to its end is not read to its end when more follows. -/
theorem deserializeWith_append (hreads : Reads (Reader.snapshotWith flag limit) bytes True s)
    {rest : Bytes} (hrest : rest ≠ []) :
    deserializeWith flag limit (bytes ++ rest) =
      .error { kind := .truncated, detail := lit "trailing bytes after snapshot" } := by
  obtain ⟨cursor, hrun, hcursor⟩ := (hreads (Foundation.cursor (bytes ++ rest)) rest
    (Foundation.unread_cursor _)).1 trivial
  have hempty : ¬ Foundation.empty cursor = true := by
    rw [Foundation.empty_iff]
    exact fun hnil => hrest (hcursor.symm.trans hnil)
  simp only [deserializeWith, hrun, if_neg hempty]

/-- A snapshot that was restored is within the bounds of the format. -/
theorem layout_of_deserialize (h : deserialize bytes = .ok s) :
    ∃ version, Reader.Layout 100000 False version bytes s := by
  rw [deserialize, ← deserializeWith_bool] at h
  exact (layout_of_deserializeWith Reader.accepts_bool h).1

theorem deserialize_serialize_of_deserialize (h : deserialize bytes = .ok s) :
    deserialize (serializeSnapshot s) = .ok s := by
  obtain ⟨version, hlayout⟩ := layout_of_deserialize h
  rw [deserialize_serialize hlayout.carried.strings hlayout.carried.vectors,
    hlayout.carried.restored]

end QivenContext
