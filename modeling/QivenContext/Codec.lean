import Mathlib.Tactic.Ring
import QivenContext.Deserialize
import QivenContext.Sizes

/-!
# The decoder undoes the encoder

Every reader is compared with its writer. A vector within the guard is read
back, a longer one is refused; a snapshot that fits the prefixes comes back
exactly when its vectors are within the guard, less the two fields the format
does not carry.
-/

namespace QivenContext

open Library Snapshot

/-! ## What the format carries -/

def restoredMemory (record : MemoryRecord) : MemoryRecord :=
  { record with epistemic := .observation }

def restoredObligation (obligation : Obligation) : Obligation :=
  { obligation with triggerValue := [] }

/-- The snapshot as it comes back: without epistemic types and trigger values. -/
def restored (snapshot : Snapshot) : Snapshot :=
  { snapshot with
    memory := snapshot.memory.map restoredMemory
    obligations := snapshot.obligations.map restoredObligation }

theorem restoredMemory_eq_self {record : MemoryRecord} :
    restoredMemory record = record ↔ record.epistemic = .observation := by
  cases record
  simp [restoredMemory, eq_comm]

theorem restoredObligation_eq_self {obligation : Obligation} :
    restoredObligation obligation = obligation ↔ obligation.triggerValue = [] := by
  cases obligation
  simp [restoredObligation, eq_comm]

theorem map_eq_self {α : Type} {f : α → α} {as : List α} :
    as.map f = as ↔ ∀ a ∈ as, f a = a := by
  induction as with
  | nil => simp
  | cons a as ih => simp [ih]

theorem restored_eq_self {s : Snapshot} : restored s = s ↔
    (∀ record ∈ s.memory, record.epistemic = .observation) ∧
      ∀ obligation ∈ s.obligations, obligation.triggerValue = [] := by
  have hfields : restored s = s ↔
      s.memory.map restoredMemory = s.memory ∧
        s.obligations.map restoredObligation = s.obligations := by
    cases s
    simp [restored]
  simp only [hfields, map_eq_self, restoredMemory_eq_self, restoredObligation_eq_self]

/-! ## Words -/

theorem putU32_eq (value : UInt32) : putU32 value = littleEndian 4 value.toNat := by
  have hbyte : ∀ shift : UInt32, ((value >>> shift) &&& 0xFF).toUInt8 =
      UInt8.ofNat (value.toNat / 2 ^ (shift.toNat % 32)) := by
    intro shift
    apply UInt8.toNat_inj.mp
    have hmask : (0xFF : UInt32).toNat = 2 ^ 8 - 1 := rfl
    rw [UInt32.toNat_toUInt8, UInt32.toNat_and, UInt32.toNat_shiftRight, UInt8.toNat_ofNat',
      Nat.shiftRight_eq_div_pow, hmask, Nat.and_two_pow_sub_one_eq_mod]
    exact Nat.mod_mod _ _
  simp [putU32, hbyte, littleEndian, Nat.div_div_eq_div_mul]

theorem putU64_eq (value : UInt64) : putU64 value = littleEndian 8 value.toNat := by
  have hbyte : ∀ shift : UInt64, ((value >>> shift) &&& 0xFF).toUInt8 =
      UInt8.ofNat (value.toNat / 2 ^ (shift.toNat % 64)) := by
    intro shift
    apply UInt8.toNat_inj.mp
    have hmask : (0xFF : UInt64).toNat = 2 ^ 8 - 1 := rfl
    rw [UInt64.toNat_toUInt8, UInt64.toNat_and, UInt64.toNat_shiftRight, UInt8.toNat_ofNat',
      Nat.shiftRight_eq_div_pow, hmask, Nat.and_two_pow_sub_one_eq_mod]
    exact Nat.mod_mod _ _
  simp [putU64, hbyte, littleEndian, Nat.div_div_eq_div_mul]

@[simp] theorem length_putU32 (value : UInt32) : (putU32 value).length = 4 := by
  simp [putU32_eq]

@[simp] theorem length_putU64 (value : UInt64) : (putU64 value).length = 8 := by
  simp [putU64_eq]

theorem toNat_ofNat_short {n : ℕ} (h : n < 2 ^ 32) : (UInt32.ofNat n).toNat = n := by
  rw [UInt32.toNat_ofNat']
  exact Nat.mod_eq_of_lt h

variable [Foundation]

namespace Reader

theorem reads_take {bytes : Bytes} {count : ℕ} (h : bytes.length = count) (what : Str) :
    Reads (take count what) bytes True bytes := by
  intro c rest hc
  have hunread : Foundation.unread c = bytes ++ rest := hc
  have hcount : count ≤ (Foundation.unread c).length := by
    rw [hunread, List.length_append]
    omega
  obtain ⟨c', htake, hc'⟩ := Foundation.take_eq c count hcount
  have hremaining : ¬ Foundation.remaining c < count := by
    rw [Foundation.remaining_eq]
    omega
  refine ⟨fun _ => ⟨c', ?_, ?_⟩, fun hfalse => (hfalse trivial).elim⟩
  · simp only [take, hremaining, htake, if_false]
    rw [hunread, ← h, List.take_left]
  · change Foundation.unread c' = rest
    rw [hc', hunread, ← h, List.drop_left]

theorem reads_fail {α : Type} (kind : DeserializeError.Kind) (what : Str) (a : α) :
    Reads (fail kind what) [] False a :=
  fun _ _ _ => ⟨False.elim, fun _ => ⟨_, rfl⟩⟩

theorem reads_u8 (value : UInt8) (what : Str) : Reads (u8 what) (putU8 value) True value := by
  refine Reads.congr (Reads.bind (reads_take (show (putU8 value).length = 1 from rfl) what)
    (Reads.pure _)) ?_ (by simp) rfl
  simp [putU8]

theorem reads_u32 (value : UInt32) (what : Str) :
    Reads (u32 what) (putU32 value) True value := by
  have hlength := length_putU32 value
  refine Reads.congr (Reads.bind (reads_take hlength what) (Reads.pure _)) ?_ (by simp) ?_
  · simp
  · rw [Foundation.decodeLeU32_eq _ hlength, putU32_eq, ofLittleEndian_littleEndian,
      Nat.mod_eq_of_lt (show value.toNat < 256 ^ 4 from value.toNat_lt)]
    simp

theorem reads_u64 (value : UInt64) (what : Str) :
    Reads (u64 what) (putU64 value) True value := by
  have hlength := length_putU64 value
  refine Reads.congr (Reads.bind (reads_take hlength what) (Reads.pure _)) ?_ (by simp) ?_
  · simp
  · rw [Foundation.decodeLeU64_eq _ hlength, putU64_eq, ofLittleEndian_littleEndian,
      Nat.mod_eq_of_lt (show value.toNat < 256 ^ 8 from value.toNat_lt)]
    simp

theorem reads_i64 (value : Int64) (what : Str) :
    Reads (i64 what) (putI64 value) True value := by
  refine Reads.congr (Reads.bind (reads_u64 value.toUInt64 what) (Reads.pure _)) ?_ (by simp) ?_
  · simp [putI64]
  · simp

theorem reads_str {value : Str} (h : short value) (what : Str) :
    Reads (str what) (putStr value) True value := by
  refine Reads.congr (Reads.bind (reads_u32 _ what) (reads_take ?_ _)) rfl (by simp) rfl
  exact (toNat_ofNat_short h).symm

theorem reads_bool (value : Bool) (what : Str) :
    Reads (bool what) (putBool value) True value := by
  refine Reads.congr (Reads.bind (reads_u8 (if value then 1 else 0) what) (Reads.pure _)) ?_
    (by simp) ?_
  · simp [putBool]
  · cases value <;> rfl

theorem reads_enumValue {E : Type} [DecidableEq E] [Inhabited E] [Enumerated E] (value : E)
    (what : Str) {maxValue : UInt8}
    (h : (Enumerated.values : List E).length ≤ maxValue.toNat + 1) :
    Reads (enumValue E what maxValue) (putEnum value) True value := by
  have hle : ¬ Enumerated.toByte value > maxValue := UInt8.not_lt.mpr (Enumerated.toByte_le h value)
  have hrest : Reads (if Enumerated.toByte value > maxValue then fail .badEnum what
      else pure (Enumerated.ofByte (Enumerated.toByte value)) : Reader E) [] True value := by
    rw [if_neg hle, Enumerated.ofByte_toByte]
    exact Reads.pure value
  refine Reads.congr (Reads.bind (reads_u8 _ what) hrest) ?_ (by simp) rfl
  simp [putEnum]

theorem reads_cappedCount (limit count : UInt32) (what : Str) :
    Reads (cappedCount limit what) (putU32 count) (count ≤ limit) count := by
  have hrest : Reads (if count > limit then fail .resourceAbuse what else pure count :
      Reader UInt32) [] (count ≤ limit) count := by
    by_cases hle : count ≤ limit
    · rw [if_neg (UInt32.not_lt.mpr hle)]
      exact (Reads.pure count).congr rfl (by simp [hle]) rfl
    · rw [if_pos (UInt32.not_le.mp hle)]
      exact (reads_fail _ what count).congr rfl (by simp [hle]) rfl
  exact (Reads.bind (reads_u32 count what) hrest).congr (by simp) (by simp) rfl

/-- A vector is read back when its size is under the guard and every item is
read back; otherwise it is refused. -/
theorem reads_vector {α β : Type} {limit : UInt32} {what : Str} {item : Reader β}
    {put : α → Bytes} {ok : α → Prop} {f : α → β} {values : List α}
    (hlength : values.length < 2 ^ 32) (h : ∀ a ∈ values, Reads item (put a) (ok a) (f a)) :
    Reads (vector limit what item) (putVector put values)
      (values.length ≤ limit.toNat ∧ ∀ a ∈ values, ok a) (values.map f) := by
  have hcount := toNat_ofNat_short hlength
  have hitems : Reads (times item (UInt32.ofNat values.length).toNat) (values.flatMap put)
      (∀ a ∈ values, ok a) (values.map f) := by
    rw [hcount]
    exact Reads.times values h
  refine Reads.congr (Reads.bind (reads_cappedCount limit _ what) hitems) rfl ?_ rfl
  rw [UInt32.le_iff_toNat_le, hcount]

theorem reads_vector_same {α : Type} {limit : UInt32} {what : Str} {item : Reader α}
    {put : α → Bytes} {values : List α} (hlength : values.length < 2 ^ 32)
    (h : ∀ a ∈ values, Reads item (put a) True a) :
    Reads (vector limit what item) (putVector put values) (values.length ≤ limit.toNat)
      values :=
  (reads_vector (f := id) hlength h).congr rfl (by simp) (List.map_id values)

/-! ## Records -/

/-- The reader of flags takes what the encoder writes for one. -/
def ReadsFlags (flag : Str → Reader Bool) : Prop :=
  ∀ value what, Reads (flag what) (putBool value) True value

theorem reads_handoffPolicyWith {flag : Str → Reader Bool} (hflag : ReadsFlags flag)
    (row : HandoffPolicy) :
    Reads (handoffPolicyWith flag) (putHandoffPolicy row) True row := by
  refine Reads.congr (Reads.bind (reads_enumValue row.opClass _ (by decide))
    (Reads.bind (reads_enumValue row.required _ (by decide))
    (Reads.bind (hflag row.rootPrincipalOnly _) (Reads.pure _)))) ?_ (by simp) rfl
  simp [putHandoffPolicy]

theorem reads_recoveryRule (row : RecoveryRule) :
    Reads recoveryRule (putRecoveryRule row) True row := by
  refine Reads.congr (Reads.bind (reads_enumValue row.reason _ (by decide))
    (Reads.bind (reads_enumValue row.action _ (by decide)) (Reads.pure _))) ?_ (by simp) rfl
  simp [putRecoveryRule]

theorem reads_state {state : StateView} (h : ShortState state) :
    Reads Reader.state (putState state) True state := by
  refine Reads.congr (Reads.bind (reads_str h.objective _) (Reads.bind (reads_str h.current _)
    (Reads.bind (reads_str h.checkpointRef _) (Reads.bind (reads_str h.candidateRef _)
    (Reads.bind (reads_str h.nextBoundaryRef _) (Reads.bind (reads_str h.repositories _)
    (Reads.bind (reads_str h.roadmap _) (Reads.pure _)))))))) ?_ (by simp) rfl
  simp [putState]

theorem reads_source {source : SourceType} (h : short source.reference ∧ short source.note) :
    Reads Reader.source (putSource source) True source := by
  refine Reads.congr (Reads.bind (reads_enumValue source.kind _ (by decide))
    (Reads.bind (reads_str h.1 _) (Reads.bind (reads_str h.2 _) (Reads.pure _)))) ?_ (by simp) rfl
  simp [putSource]

theorem reads_provenance {provenance : Provenance} {limit : UInt32} (what : Str)
    (h : ShortProvenance provenance) (hlength : provenance.sources.length < 2 ^ 32) :
    Reads (Reader.provenance limit what) (putProvenance provenance)
      (provenance.sources.length ≤ limit.toNat) provenance := by
  refine Reads.congr (Reads.bind (reads_vector_same hlength fun source hmem =>
    reads_source (h source hmem)) (Reads.pure _)) ?_ (by simp) rfl
  simp [putProvenance]

theorem reads_decision {decision : Decision} {limit : UInt32} (h : ShortDecision decision)
    (hfit : DecisionWithin (2 ^ 32 - 1) decision) :
    Reads (Reader.decision limit) (putDecision decision)
      (DecisionWithin limit.toNat decision) decision := by
  have hsupersedes : decision.supersedes.length < 2 ^ 32 :=
    Nat.lt_of_le_pred (by simp) hfit.supersedes
  have hsupersededBy : decision.supersededBy.length < 2 ^ 32 :=
    Nat.lt_of_le_pred (by simp) hfit.supersededBy
  have hprovenance : decision.provenance.sources.length < 2 ^ 32 :=
    Nat.lt_of_le_pred (by simp) hfit.provenance
  refine Reads.congr (Reads.bind (reads_i64 decision.id _)
    (Reads.bind (reads_enumValue decision.status _ (by decide))
    (Reads.bind (reads_str h.title _) (Reads.bind (reads_str h.content _)
    (Reads.bind (reads_vector_same hsupersedes fun id _ => reads_i64 id _)
    (Reads.bind (reads_vector_same hsupersededBy fun id _ => reads_i64 id _)
    (Reads.bind (reads_provenance _ h.provenance hprovenance) (Reads.pure _)))))))) ?_ ?_ rfl
  · simp [putDecision]
  · constructor
    · rintro ⟨-, -, -, -, h₁, h₂, h₃, -⟩
      exact ⟨h₁, h₂, h₃⟩
    · intro h
      exact ⟨trivial, trivial, trivial, trivial, h.supersedes, h.supersededBy, h.provenance,
        trivial⟩

theorem reads_memoryRecord {record : MemoryRecord} {limit : UInt32} (h : ShortMemory record)
    (hlength : record.provenance.sources.length < 2 ^ 32) :
    Reads (memoryRecord limit) (putMemoryRecord record)
      (record.provenance.sources.length ≤ limit.toNat) (restoredMemory record) := by
  refine Reads.congr (Reads.bind (reads_enumValue record.kind _ (by decide))
    (Reads.bind (reads_enumValue record.status _ (by decide))
    (Reads.bind (reads_str h.title _) (Reads.bind (reads_str h.statement _)
    (Reads.bind (reads_provenance _ h.provenance hlength) (Reads.pure _)))))) ?_ (by simp) rfl
  simp [putMemoryRecord]

theorem reads_obligation {obligation : Obligation} (h : ShortObligation obligation) :
    Reads Reader.obligation (putObligation obligation) True (restoredObligation obligation) := by
  refine Reads.congr (Reads.bind (reads_enumValue obligation.status _ (by decide))
    (Reads.bind (reads_enumValue obligation.trigger _ (by decide))
    (Reads.bind (reads_i64 obligation.id _) (Reads.bind (reads_str h.statement _)
    (Reads.bind (reads_str h.completionCriteria _) (Reads.pure _)))))) ?_ (by simp) rfl
  simp [putObligation]

theorem reads_evidence {evidence : EvidenceRecord} (h : ShortEvidence evidence) :
    Reads Reader.evidence (putEvidence evidence) True evidence := by
  refine Reads.congr (Reads.bind (reads_str h.boundTo _) (Reads.bind (reads_str h.content _)
    (Reads.pure _))) ?_ (by simp) rfl
  simp [putEvidence]

theorem reads_conflict {conflict : Conflict} (h : ShortConflict conflict) :
    Reads Reader.conflict (putConflict conflict) True conflict := by
  refine Reads.congr (Reads.bind (reads_str h.id _)
    (Reads.bind (reads_enumValue conflict.status _ (by decide))
    (Reads.bind (reads_str h.scope _) (Reads.bind (reads_str h.description _)
    (Reads.bind (reads_str h.resolution _) (Reads.pure _)))))) ?_ (by simp) rfl
  simp [putConflict]

theorem reads_profile {profile : ProfileRecord} (h : ShortProfile profile) :
    Reads Reader.profile (putProfile profile) True profile := by
  refine Reads.congr (Reads.bind (reads_str h.id _) (Reads.bind (reads_str h.kind _)
    (Reads.bind (reads_str h.summary _)
    (Reads.bind (reads_enumValue profile.layer _ (by decide)) (Reads.pure _))))) ?_ (by simp) rfl
  simp [putProfile]

theorem reads_view {view : ViewSpec} {limit : UInt32} (h : ShortView view)
    (hlength : view.profileRefs.length < 2 ^ 32) :
    Reads (Reader.view limit) (putView view) (view.profileRefs.length ≤ limit.toNat) view := by
  refine Reads.congr (Reads.bind (reads_str h.id _) (Reads.bind (reads_str h.agent _)
    (Reads.bind (reads_str h.human _) (Reads.bind (reads_str h.summary _)
    (Reads.bind (reads_vector_same hlength fun ref hmem => reads_str (h.profileRefs ref hmem) _)
    (Reads.pure _)))))) ?_ (by simp) rfl
  simp [putView]

theorem reads_claimClassWith {flag : Str → Reader Bool} (hflag : ReadsFlags flag)
    (value : Option ClaimClass) :
    Reads (claimClassWith flag) (putClaimClass value) True value := by
  cases value with
  | none =>
      refine Reads.congr (Reads.bind (hflag false _) (Reads.pure none)) ?_ (by simp) rfl
      simp [putClaimClass]
  | some value =>
      refine Reads.congr (Reads.bind (hflag true _)
        (Reads.bind (reads_enumValue value _ (by decide)) (Reads.pure _))) ?_ (by simp) rfl
      simp [putClaimClass]

theorem reads_invocationRuleWith {flag : Str → Reader Bool} (hflag : ReadsFlags flag)
    {rule : InvocationRule} (h : short rule.subject) :
    Reads (invocationRuleWith flag serializationVersionLimit) (putInvocationRule rule) True
      rule := by
  refine Reads.congr (Reads.bind (reads_enumValue rule.action _ (by decide))
    (Reads.bind (reads_claimClassWith hflag rule.claimClass)
    (Reads.bind (reads_enumValue rule.requirement _ (by decide))
    (Reads.bind (reads_enumValue rule.boundary _ (by decide))
    (Reads.bind (reads_str h _) (Reads.bind (hflag rule.blocking _)
    (Reads.pure _))))))) ?_ (by simp) rfl
  simp [putInvocationRule]

theorem reads_roleWith {flag : Str → Reader Bool} (hflag : ReadsFlags flag) {spec : RoleSpec}
    {limit : UInt32} (h : ShortRole spec) (hfit : RoleWithin (2 ^ 32 - 1) spec) :
    Reads (roleWith flag limit) (putRole spec) (RoleWithin limit.toNat spec) spec := by
  have hauthorities : spec.authorities.length < 2 ^ 32 :=
    Nat.lt_of_le_pred (by simp) hfit.authorities
  have hduties : spec.duties.length < 2 ^ 32 := Nat.lt_of_le_pred (by simp) hfit.duties
  have hprovenance : spec.provenance.sources.length < 2 ^ 32 :=
    Nat.lt_of_le_pred (by simp) hfit.provenance
  refine Reads.congr (Reads.bind (reads_enumValue spec.id _ (by decide))
    (Reads.bind (reads_vector_same hauthorities fun authority _ =>
      reads_enumValue authority _ (by decide))
    (Reads.bind (reads_vector_same hduties fun duty hmem => reads_str (h.duties duty hmem) _)
    (Reads.bind (hflag spec.floor.reviewGradeReasoning _)
    (Reads.bind (reads_enumValue spec.floor.execution _ (by decide))
    (Reads.bind (hflag spec.floor.identityPortVerified _)
    (Reads.bind (reads_provenance _ h.provenance hprovenance) (Reads.pure _)))))))) ?_ ?_ rfl
  · simp [putRole]
  · constructor
    · rintro ⟨-, h₁, h₂, -, -, -, h₃, -⟩
      exact ⟨h₁, h₂, h₃⟩
    · intro h
      exact ⟨trivial, h.authorities, h.duties, trivial, trivial, trivial, h.provenance, trivial⟩

theorem reads_invocationWith {flag : Str → Reader Bool} (hflag : ReadsFlags flag)
    {invocation : InvocationPolicy} {limit : UInt32}
    (h : ∀ rule ∈ invocation.rules, short rule.subject)
    (hlength : invocation.rules.length < 2 ^ 32) :
    Reads (invocationWith flag limit serializationVersionLimit)
      (putBool invocation.present ++ putVector putInvocationRule invocation.rules)
      (invocation.rules.length ≤ limit.toNat) invocation := by
  refine Reads.congr (Reads.bind (hflag invocation.present _)
    (Reads.bind (reads_vector_same hlength fun rule hmem =>
      reads_invocationRuleWith hflag (h rule hmem))
    (Reads.pure _))) ?_ (by simp) rfl
  simp

theorem reads_version :
    Reads version (putU8 serializationVersionLimit) True serializationVersionLimit := by
  refine Reads.congr (Reads.bind (reads_u8 serializationVersionLimit _)
    (Reads.pure serializationVersionLimit)) ?_ (by simp) rfl
  simp

/-- The whole snapshot: read back when its vectors are within the guard, and
refused otherwise. -/
theorem reads_snapshotWith {flag : Str → Reader Bool} (hflag : ReadsFlags flag) {s : Snapshot}
    {limit : UInt32} (hfit : Fits s) :
    Reads (snapshotWith flag limit) (serializeSnapshot s) (VectorsWithin limit.toNat s)
      (restored s) := by
  obtain ⟨hstrings, hvectors⟩ := hfit
  have hlt {n : ℕ} (h : n ≤ 2 ^ 32 - 1) : n < 2 ^ 32 := Nat.lt_of_le_pred (by simp) h
  refine Reads.congr (Reads.bind reads_version (Reads.bind (reads_str hstrings.rootPrincipal _)
    (Reads.bind (reads_vector_same (hlt hvectors.articles) fun article hmem =>
      reads_str (hstrings.articles article hmem) _)
    (Reads.bind (reads_vector_same (hlt hvectors.handoff) fun row _ =>
      reads_handoffPolicyWith hflag row)
    (Reads.bind (reads_vector_same (hlt hvectors.recovery) fun row _ => reads_recoveryRule row)
    (Reads.bind (reads_state hstrings.state)
    (Reads.bind (reads_vector (f := id) (hlt hvectors.decisions) fun decision hmem =>
      reads_decision (hstrings.decisions decision hmem) (hvectors.decision decision hmem))
    (Reads.bind (reads_vector (hlt hvectors.memory) fun record hmem =>
      reads_memoryRecord (hstrings.memory record hmem) (hlt (hvectors.record record hmem)))
    (Reads.bind (reads_vector (hlt hvectors.obligations) fun obligation hmem =>
      reads_obligation (hstrings.obligations obligation hmem))
    (Reads.bind (reads_vector_same (hlt hvectors.evidence) fun evidence hmem =>
      reads_evidence (hstrings.evidence evidence hmem))
    (Reads.bind (reads_vector_same (hlt hvectors.conflicts) fun conflict hmem =>
      reads_conflict (hstrings.conflicts conflict hmem))
    (Reads.bind (reads_vector_same (hlt hvectors.profiles) fun profile hmem =>
      reads_profile (hstrings.profiles profile hmem))
    (Reads.bind (reads_vector (f := id) (hlt hvectors.views) fun view hmem =>
      reads_view (hstrings.views view hmem) (hlt (hvectors.view view hmem)))
    (Reads.bind (reads_invocationWith hflag hstrings.rules (hlt hvectors.rules))
    (Reads.bind (reads_vector (f := id) (hlt hvectors.roles) fun role hmem =>
      reads_roleWith hflag (hstrings.roles role hmem) (hvectors.role role hmem))
    (Reads.pure _)))))))))))))))) ?_ ?_ ?_
  · simp [serializeSnapshot]
  · constructor
    · rintro ⟨-, -, h₁, h₂, h₃, -, ⟨h₄, h₅⟩, ⟨h₆, h₇⟩, ⟨h₈, -⟩, h₉, h₁₀, h₁₁, ⟨h₁₂, h₁₃⟩, h₁₄,
        ⟨h₁₅, h₁₆⟩, -⟩
      exact ⟨h₁, h₂, h₃, h₁₄, h₄, h₅, h₆, h₇, h₈, h₉, h₁₀, h₁₁, h₁₂, h₁₃, h₁₅, h₁₆⟩
    · intro h
      exact ⟨trivial, trivial, h.articles, h.handoff, h.recovery, trivial,
        ⟨h.decisions, h.decision⟩, ⟨h.memory, h.record⟩, ⟨h.obligations, fun _ _ => trivial⟩,
        h.evidence, h.conflicts, h.profiles, ⟨h.views, h.view⟩, h.rules, ⟨h.roles, h.role⟩,
        trivial⟩
  · simp [restored]

theorem reads_snapshot {s : Snapshot} {limit : UInt32} (hfit : Fits s) :
    Reads (Reader.snapshot limit) (serializeSnapshot s) (VectorsWithin limit.toNat s)
      (restored s) := by
  rw [← snapshotWith_bool]
  exact reads_snapshotWith reads_bool hfit

end Reader

/-! ## The decoder on an encoding -/

theorem unread_cursor_append_nil (bytes : Bytes) :
    Unread.unread (Foundation.cursor bytes) = bytes ++ [] := by
  rw [List.append_nil]
  exact Foundation.unread_cursor bytes

theorem deserializeWith_serialize {flag : Str → Reader Bool} (hflag : Reader.ReadsFlags flag)
    {s : Snapshot} {limit : UInt32} (hfit : Fits s) (hwithin : VectorsWithin limit.toNat s) :
    deserializeWith flag limit (serializeSnapshot s) = .ok (restored s) := by
  obtain ⟨c', hrun, hc'⟩ :=
    (Reader.reads_snapshotWith hflag hfit _ _ (unread_cursor_append_nil _)).1 hwithin
  have hempty : Foundation.empty c' = true := (Foundation.empty_iff c').mpr hc'
  simp only [deserializeWith, hrun, hempty, if_true]

theorem deserializeWithin_serialize {s : Snapshot} {limit : UInt32} (hfit : Fits s)
    (hwithin : VectorsWithin limit.toNat s) :
    deserializeWithin limit (serializeSnapshot s) = .ok (restored s) :=
  deserializeWith_serialize Reader.reads_bool hfit hwithin

theorem deserializeWithin_serialize_error {s : Snapshot} {limit : UInt32} (hfit : Fits s)
    (hwithin : ¬ VectorsWithin limit.toNat s) :
    ∃ error, deserializeWithin limit (serializeSnapshot s) = .error error := by
  obtain ⟨error, hrun⟩ := (Reader.reads_snapshot hfit _ _ (unread_cursor_append_nil _)).2 hwithin
  exact ⟨error, by simp only [deserializeWithin, hrun]⟩

/-- A snapshot within the resource guard is restored, less the two fields. -/
theorem deserialize_serialize {s : Snapshot} (hstrings : StringsShort s)
    (hvectors : VectorsWithin 100000 s) :
    deserialize (serializeSnapshot s) = .ok (restored s) :=
  deserializeWithin_serialize ⟨hstrings, hvectors.mono (by norm_num)⟩ hvectors

/-- Beyond the guard nothing is restored. -/
theorem deserialize_serialize_error {s : Snapshot} (hfit : Fits s)
    (hvectors : ¬ VectorsWithin 100000 s) :
    ∃ error, deserialize (serializeSnapshot s) = .error error :=
  deserializeWithin_serialize_error hfit hvectors

theorem ne_nil_of_deserialize {bytes : Bytes} {s : Snapshot} (h : deserialize bytes = .ok s) :
    bytes ≠ [] := by
  rintro rfl
  have hremaining : Foundation.remaining (Foundation.cursor []) = 0 := by
    rw [Foundation.remaining_eq, Foundation.unread_cursor]
    rfl
  have htake : Reader.take 1 (lit "serialization version") (Foundation.cursor []) =
      .error { kind := .truncated, detail := lit "serialization version" } := by
    simp [Reader.take, hremaining]
  have hrun : Reader.snapshot maxSerializedRecords (Foundation.cursor []) =
      .error { kind := .truncated, detail := lit "serialization version" } := by
    change Except.bind (Except.bind (Except.bind (Reader.take 1 _ _) _) _) _ = _
    rw [htake]
    rfl
  simp only [deserialize, deserializeWithin, hrun, reduceCtorEq] at h

omit [Foundation] in
/-- What the format carries determines the bytes. -/
theorem serialize_restored (s : Snapshot) :
    serializeSnapshot (restored s) = serializeSnapshot s := by
  have hmemory : putVector putMemoryRecord (s.memory.map restoredMemory) =
      putVector putMemoryRecord s.memory := by
    simp only [putVector, List.length_map, List.flatMap_map]
    rfl
  have hobligations : putVector putObligation (s.obligations.map restoredObligation) =
      putVector putObligation s.obligations := by
    simp only [putVector, List.length_map, List.flatMap_map]
    rfl
  simp only [serializeSnapshot, restored, hmemory, hobligations]

/-- The bytes determine what the format carries. -/
theorem restored_eq_of_serialize_eq {s t : Snapshot} (hs : Fits s) (ht : Fits t)
    (h : serializeSnapshot s = serializeSnapshot t) : restored s = restored t := by
  have hlimit : (4294967295 : UInt32).toNat = 2 ^ 32 - 1 := rfl
  have hs' := deserializeWithin_serialize hs (hlimit ▸ hs.vectors)
  have ht' := deserializeWithin_serialize ht (hlimit ▸ ht.vectors)
  rw [h, ht'] at hs'
  exact (Except.ok.inj hs').symm

end QivenContext
