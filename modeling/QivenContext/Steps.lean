import QivenContext.Codec
import QivenContext.Service

/-!
# What a call can do

Inversion lemmas of the service calls: the conditions under which each path
is taken, and the state it leaves. The store is only ever reached through the
submission of a snapshot, and the registry changes in five ways.
-/

namespace QivenContext

open Library Snapshot

variable {σ : Type} {s s' : ServiceState σ} {handle : CognitionHandle}
  {transaction : ContextTransaction} {grant : ExecutionGrant} {entry : Materialization}
  {governance next : Snapshot}

theorem genesis_stringsShort : StringsShort makeGenesis where
  rootPrincipal := by decide
  articles := by decide
  rules := by decide
  state := ⟨by decide, by decide, by decide, by decide, by decide, by decide, by decide⟩
  decisions := by simp [makeGenesis]
  memory := by simp [makeGenesis]
  obligations := by simp [makeGenesis]
  evidence := by simp [makeGenesis]
  conflicts := by simp [makeGenesis]
  profiles := by simp [makeGenesis]
  views := by simp [makeGenesis]
  roles := by simp [makeGenesis]

theorem genesis_vectorsWithin {cap : ℕ} (hcap : 18 ≤ cap) : VectorsWithin cap makeGenesis where
  articles := hcap
  handoff := (by decide : makeGenesis.policy.handoff.length ≤ 18).trans hcap
  recovery := (by decide : makeGenesis.policy.recovery.length ≤ 18).trans hcap
  rules := (by decide : makeGenesis.invocation.rules.length ≤ 18).trans hcap
  decisions := Nat.zero_le _
  decision := by simp [makeGenesis]
  memory := Nat.zero_le _
  record := by simp [makeGenesis]
  obligations := Nat.zero_le _
  evidence := Nat.zero_le _
  conflicts := Nat.zero_le _
  profiles := Nat.zero_le _
  views := Nat.zero_le _
  view := by simp [makeGenesis]
  roles := Nat.zero_le _
  role := by simp [makeGenesis]

theorem genesis_fits : Fits makeGenesis :=
  ⟨genesis_stringsShort, genesis_vectorsWithin (by norm_num)⟩

theorem deserialize_genesis [Foundation] :
    deserialize (serializeSnapshot makeGenesis) = .ok makeGenesis :=
  deserialize_serialize genesis_stringsShort (genesis_vectorsWithin (by norm_num))

theorem serializeSnapshot_ne_nil (snapshot : Snapshot) : serializeSnapshot snapshot ≠ [] := by
  simp [serializeSnapshot, putU8]

namespace ServiceState

theorem findLive_some (h : s.findLive handle = some entry) :
    entry ∈ s.live ∧ entry.isAt handle = true :=
  ⟨List.mem_of_find?_eq_some h,
    List.find?_some (p := fun live : Materialization => live.isAt handle) h⟩

variable [Foundation]

@[simp] theorem record_store (verdict : Verdict) :
    (s.record transaction verdict).store = s.store := by
  unfold record
  split <;> rfl

@[simp] theorem record_live (verdict : Verdict) :
    (s.record transaction verdict).live = s.live := by
  unfold record
  split <;> rfl

@[simp] theorem record_identity (verdict : Verdict) :
    (s.record transaction verdict).identity = s.identity := by
  unfold record
  split <;> rfl

@[simp] theorem record_lease (verdict : Verdict) :
    (s.record transaction verdict).activeGrantId = s.activeGrantId ∧
      (s.record transaction verdict).grantActor = s.grantActor ∧
      (s.record transaction verdict).grantGeneration = s.grantGeneration := by
  unfold record
  split <;> exact ⟨rfl, rfl, rfl⟩

@[simp] theorem record_nextAddress (verdict : Verdict) :
    (s.record transaction verdict).nextAddress = s.nextAddress := by
  unfold record
  split <;> rfl

theorem record_receipts {key : Str} (hkey : transaction.idempotencyKey = key) (hne : key ≠ [])
    (verdict : Verdict) : (s.record transaction verdict).receipts =
      Function.update s.receipts key (some ⟨requestDigestOf transaction, verdict⟩) := by
  subst hkey
  rw [record, if_neg (by simpa using hne)]

theorem record_unkeyed (hkey : transaction.idempotencyKey = []) (verdict : Verdict) :
    s.record transaction verdict = s := by
  rw [record, if_pos (by simp [hkey])]

theorem mint_cases (s : ServiceState σ) (bytes : Bytes) (revision : RevisionId)
    (quarantine : QuarantineState) :
    (∃ error, s.mint bytes revision quarantine = (.error error, s)) ∨
    ∃ snapshot, bytes ≠ [] ∧ deserialize bytes = .ok snapshot ∧
      s.mint bytes revision quarantine =
        (.ok (s.minted snapshot bytes revision quarantine),
          s.register (s.minted snapshot bytes revision quarantine)) := by
  unfold mint
  split
  · exact .inl ⟨_, rfl⟩
  · next hbytes =>
      cases hparsed : deserialize bytes with
      | error error => exact .inl ⟨error, rfl⟩
      | ok snapshot => exact .inr ⟨snapshot, by simpa using hbytes, rfl, rfl⟩

theorem mint_genesis (s : ServiceState σ) (revision : RevisionId)
    (quarantine : QuarantineState) :
    s.mint (serializeSnapshot makeGenesis) revision quarantine =
      (.ok (s.minted makeGenesis (serializeSnapshot makeGenesis) revision quarantine),
        s.register (s.minted makeGenesis (serializeSnapshot makeGenesis) revision quarantine)) := by
  have hne := serializeSnapshot_ne_nil makeGenesis
  simp [mint, deserialize_genesis, hne]

variable [CognitionStore σ]

/-- The live path of the head: the first authoritative entry on it. -/
def liveHead (s : ServiceState σ) : Option Materialization :=
  s.live.find? fun entry =>
    entry.revision = CognitionStore.head s.store ∧ entry.quarantine = .promoted

/-- The slow path of the head: the stored bytes. -/
def storedHead (s : ServiceState σ) : Except DeserializeError Snapshot :=
  deserialize (CognitionStore.materialize s.store (CognitionStore.head s.store))

theorem canonicalHead_eq (s : ServiceState σ) : s.canonicalHead =
    if (CognitionStore.head s.store).isEmpty then none
    else match s.liveHead with
      | some entry => some entry.state
      | none => s.storedHead.toOption := rfl

theorem exists_canonicalHead_of (hhead : CognitionStore.head s.store ≠ {})
    (hreadable : ∃ snapshot, s.storedHead = .ok snapshot) :
    ∃ snapshot, s.canonicalHead = some snapshot := by
  obtain ⟨snapshot, hdecodes⟩ := hreadable
  rw [canonicalHead_eq, if_neg (mt RevisionId.isEmpty_iff.mp hhead)]
  cases s.liveHead with
  | none => exact ⟨snapshot, by rw [hdecodes]; rfl⟩
  | some live => exact ⟨live.state, rfl⟩

omit [Foundation] in
theorem liveHead_some (h : s.liveHead = some entry) :
    entry ∈ s.live ∧ entry.revision = CognitionStore.head s.store ∧
      entry.quarantine = .promoted := by
  have hfound := List.find?_some h
  rw [decide_eq_true_eq] at hfound
  exact ⟨List.mem_of_find?_eq_some h, hfound⟩

omit [Foundation] in
/-- An authoritative entry on the head keeps the live path open. -/
theorem exists_liveHead (hm : entry ∈ s.live) (hhead : CognitionStore.head s.store = entry.revision)
    (hpromoted : entry.quarantine = .promoted) : ∃ found, s.liveHead = some found := by
  cases hlive : s.liveHead with
  | some found => exact ⟨found, rfl⟩
  | none =>
      have hnone := List.find?_eq_none.mp hlive entry hm
      simp [hhead, hpromoted] at hnone

theorem canonicalHead_of_liveHead (hhead : CognitionStore.head s.store ≠ {})
    (hlive : s.liveHead = some entry) : s.canonicalHead = some entry.state := by
  rw [canonicalHead_eq, if_neg (mt RevisionId.isEmpty_iff.mp hhead), hlive]

theorem canonicalHead_cases (h : s.canonicalHead = some governance) :
    (∃ entry, s.liveHead = some entry ∧ entry.state = governance) ∨
      s.storedHead = .ok governance := by
  rw [canonicalHead_eq] at h
  split at h
  · simp at h
  · cases hlive : s.liveHead with
    | some entry =>
        rw [hlive] at h
        exact .inl ⟨entry, rfl, Option.some.inj h⟩
    | none =>
        rw [hlive] at h
        cases hstored : s.storedHead with
        | error error => simp [hstored, Except.toOption] at h
        | ok decoded =>
            rw [hstored] at h
            obtain rfl : decoded = governance := by simpa [Except.toOption] using h
            exact .inr rfl

/-! ## The gates of the write -/

theorem leaseGates_eq_ok :
    s.leaseGates handle grant = .ok (entry, governance) ↔
      s.findLive handle = some entry ∧ entry.quarantine = .promoted ∧
      s.activeGrantId.isEmpty = false ∧ s.activeGrantId = grant.id ∧
      s.canonicalHead = some governance ∧
      ∃ verifier, s.identity = some verifier ∧ verifier s.grantActor governance = true := by
  unfold leaseGates
  cases hfind : s.findLive handle with
  | none => simp
  | some found =>
      dsimp only
      split
      · next hquarantine =>
          simp only [reduceCtorEq, false_iff, not_and]
          rintro heq hpromoted
          exact absurd (Option.some.inj heq ▸ hpromoted) hquarantine
      · next hquarantine =>
          split
          · next hlease =>
              simp only [reduceCtorEq, false_iff, not_and]
              rintro - - hempty hid
              rcases hlease with hlease | hlease
              · exact (Bool.eq_false_iff.mp hempty hlease).elim
              · exact (hlease hid).elim
          · next hlease =>
              have hlease' : s.activeGrantId.isEmpty = false ∧ s.activeGrantId = grant.id := by
                simpa using hlease
              cases hhead : s.canonicalHead with
              | none => simp
              | some canonical =>
                  cases hidentity : s.identity with
                  | none => simp
                  | some verifier =>
                      dsimp only
                      split
                      · next hverified =>
                          simp only [Except.ok.injEq, Prod.mk.injEq, Option.some.injEq]
                          constructor
                          · rintro ⟨rfl, rfl⟩
                            exact ⟨rfl, not_not.mp hquarantine, hlease'.1, hlease'.2, rfl,
                              verifier, rfl, hverified⟩
                          · rintro ⟨rfl, -, -, -, rfl, -⟩
                            exact ⟨rfl, rfl⟩
                      · next hverified =>
                          simp only [reduceCtorEq, false_iff, not_and, Option.some.injEq]
                          rintro - - - - rfl ⟨_, rfl, h⟩
                          exact hverified h

/-- A write that reaches gate 10 has passed all that stands before it. -/
structure Admitted (s : ServiceState σ) (handle : CognitionHandle)
    (transaction : ContextTransaction) (grant : ExecutionGrant) (entry : Materialization)
    (governance next : Snapshot) : Prop where
  live : s.findLive handle = some entry
  promoted : entry.quarantine = .promoted
  lease : s.activeGrantId.isEmpty = false
  grantId : s.activeGrantId = grant.id
  head : s.canonicalHead = some governance
  verified : ∃ verifier, s.identity = some verifier ∧ verifier s.grantActor governance = true
  supervised : grant.mode = .supervisedForeground
  base : transaction.base = entry.revision
  nonempty : transaction.operations ≠ []
  successor : successorOf entry.state governance.governance.rootPrincipal s.grantActor.binding
    transaction = .ok next

theorem admission_eq_ok :
    s.admission handle transaction grant = .ok (entry, some next) ↔
      ∃ governance, s.Admitted handle transaction grant entry governance next := by
  simp only [admission, except_bind_eq_ok, Prod.exists, leaseGates_eq_ok]
  constructor
  · rintro ⟨found, canonical, ⟨hlive, hpromoted, hlease, hid, hhead, hverified⟩, _, hmode, _,
      hbase, h⟩
    rw [refuseIf_eq_ok] at hmode hbase
    split at h
    · simp [pure, Except.pure] at h
    · next hnonempty =>
        obtain ⟨successor, hsuccessor, h⟩ := except_bind_eq_ok.mp h
        obtain ⟨rfl, hnext⟩ := Prod.mk.inj (Except.ok.inj h)
        obtain rfl := Option.some.inj hnext
        have hoperations : transaction.operations ≠ [] := by simpa using hnonempty
        refine ⟨canonical, hlive, hpromoted, hlease, hid, hhead, hverified, ?_,
          not_not.mp hbase, hoperations, hsuccessor⟩
        cases hgrant : grant.mode with
        | supervisedForeground => rfl
        | unattended => simp [hgrant, hoperations] at hmode
  · rintro ⟨canonical, h⟩
    refine ⟨entry, canonical, ⟨h.live, h.promoted, h.lease, h.grantId, h.head, h.verified⟩, (),
      by simp [h.supervised], (), by simp [h.base], ?_⟩
    rw [if_neg (by simpa using h.nonempty), h.successor]
    rfl

theorem operations_of_admission_none
    (h : s.admission handle transaction grant = .ok (entry, none)) :
    transaction.operations = [] := by
  simp only [admission, except_bind_eq_ok, Prod.exists] at h
  obtain ⟨found, governance, -, _, -, _, -, h⟩ := h
  split at h
  · next hempty => simpa using hempty
  · obtain ⟨next, -, h⟩ := except_bind_eq_ok.mp h
    simp [pure, Except.pure] at h

theorem write_cases {verdict : Verdict}
    (h : s.writeToCognition handle transaction grant = some (verdict, s')) :
    (s.resolveKey transaction = some verdict ∧ s' = s) ∨
    (s.resolveKey transaction = none ∧ ∃ reason, verdict = .refuse reason ∧ s' = s ∧
      s.admission handle transaction grant = .error (.refuse reason)) ∨
    (s.resolveKey transaction = none ∧ s' = s ∧ (∃ entry,
      s.admission handle transaction grant = .ok (entry, none)) ∧
      verdict = { outcome := .applied, reason := .storeDiverged, successor := handle }) ∨
    (s.resolveKey transaction = none ∧ ∃ entry next,
      s.admission handle transaction grant = .ok (entry, some next) ∧
      (verdict, s') = s.commit handle entry transaction next) := by
  unfold writeToCognition at h
  split at h
  · next replayed hkey =>
      obtain ⟨rfl, rfl⟩ := Prod.mk.inj (Option.some.inj h)
      exact .inl ⟨hkey, rfl⟩
  · next hkey =>
      split at h
      · next reason hrefused =>
          obtain ⟨rfl, rfl⟩ := Prod.mk.inj (Option.some.inj h)
          exact .inr (.inl ⟨hkey, reason, rfl, rfl, hrefused⟩)
      · simp at h
      · next entry hordinary =>
          obtain ⟨rfl, rfl⟩ := Prod.mk.inj (Option.some.inj h)
          exact .inr (.inr (.inl ⟨hkey, rfl, ⟨entry, hordinary⟩, rfl⟩))
      · next entry next hadmitted =>
          exact .inr (.inr (.inr ⟨hkey, entry, next, hadmitted, (Option.some.inj h).symm⟩))

/-! ## The store -/

/-- The record a call hands to the store. -/
inductive Submission where
  | genesis
  | write (actor : AuthenticatedActor) (transaction : ContextTransaction)
      (entry : Materialization) (next : Snapshot)

namespace Submission

def base : Submission → RevisionId
  | genesis => {}
  | write _ _ entry _ => entry.revision

def snapshot : Submission → Snapshot
  | genesis => makeGenesis
  | write _ _ _ next => next

end Submission

/-- What a call submits to the store, if it gets there at all. -/
def submits (s : ServiceState σ) : Call → Option Submission
  | .createCognition source =>
      if source.kind = .canonicalRemote ∧ (s.bootId source).isEmpty ∧
        (CognitionStore.materialize s.store (s.bootId source)).isEmpty then some .genesis
      else none
  | .writeToCognition handle transaction grant =>
      match s.resolveKey transaction, s.admission handle transaction grant with
      | none, .ok (entry, some next) => some (.write s.grantActor transaction entry next)
      | _, _ => none
  | _ => none

/-- The answer of the store to a submission, and the store after it. -/
def submit (s : ServiceState σ) (submission : Submission) : StoreReceipt × σ :=
  CognitionStore.compareAndSwap s.store submission.base (serializeSnapshot submission.snapshot)

theorem submits_write {entry : Materialization} {actor : AuthenticatedActor} {call : Call}
    (h : s.submits call = some (.write actor transaction entry next)) :
    ∃ handle grant governance, call = .writeToCognition handle transaction grant ∧
      s.resolveKey transaction = none ∧ actor = s.grantActor ∧
      s.Admitted handle transaction grant entry governance next := by
  cases call with
  | createCognition source =>
      simp only [submits] at h
      split at h <;> simp at h
  | writeToCognition handle presented grant =>
      simp only [submits] at h
      split at h
      · next found successor hkey hadmission =>
          simp only [Option.some.injEq, Submission.write.injEq] at h
          obtain ⟨rfl, rfl, rfl, rfl⟩ := h
          obtain ⟨governance, hadmitted⟩ := admission_eq_ok.mp hadmission
          exact ⟨handle, grant, governance, rfl, hkey, rfl, hadmitted⟩
      · simp at h
  | _ => simp [submits] at h

theorem submits_of_admission
    (hkey : s.resolveKey transaction = none)
    (hadmission : s.admission handle transaction grant = .ok (entry, some next)) :
    s.submits (.writeToCognition handle transaction grant) =
      some (.write s.grantActor transaction entry next) := by
  simp [submits, hkey, hadmission]

theorem submits_eq_none_of_write
    (h : s.resolveKey transaction ≠ none ∨
      ∀ entry next, s.admission handle transaction grant ≠ .ok (entry, some next)) :
    s.submits (.writeToCognition handle transaction grant) = none := by
  simp only [submits]
  split
  · next hkey hadmission =>
      rcases h with h | h
      · exact (h hkey).elim
      · exact (h _ _ hadmission).elim
  · rfl

theorem commit_cases {verdict : Verdict}
    (h : (verdict, s') = s.commit handle entry transaction next) :
    ((s.submit (.write s.grantActor transaction entry next)).1.kind = .compareFailed ∧
      verdict = .refuse .storeDiverged ∧
      s' = { s with store := (s.submit (.write s.grantActor transaction entry next)).2 }) ∨
    ((s.submit (.write s.grantActor transaction entry next)).1.kind = .outcomeUnknown ∧
      verdict = { outcome := .outcomeUnknown, reason := .outcomeUnresolved } ∧
      s' = ({ s with store := (s.submit (.write s.grantActor transaction entry next)).2 } :
        ServiceState σ).record transaction verdict) ∨
    ((s.submit (.write s.grantActor transaction entry next)).1.kind = .committed ∧
      ∃ m, m = s.successorMaterialization entry next
          (s.submit (.write s.grantActor transaction entry next)).1.revision ∧
        verdict = { outcome := .applied, reason := .storeDiverged, successor := some m } ∧
        s' = (({ s with store := (s.submit (.write s.grantActor transaction entry next)).2 } :
          ServiceState σ).replaceEntry handle m).record transaction verdict) := by
  unfold commit at h
  dsimp only at h
  split at h
  · next hkind =>
      obtain ⟨rfl, rfl⟩ := Prod.mk.inj h
      exact .inl ⟨hkind, rfl, rfl⟩
  · next hkind =>
      obtain ⟨rfl, rfl⟩ := Prod.mk.inj h
      exact .inr (.inl ⟨hkind, rfl, rfl⟩)
  · next hkind =>
      obtain ⟨rfl, rfl⟩ := Prod.mk.inj h
      exact .inr (.inr ⟨hkind, _, rfl, rfl, rfl⟩)

/-- A new request with operations is applied only where it was admitted and the
store acknowledged the commit. -/
theorem admission_of_applied {verdict : Verdict}
    (h : s.writeToCognition handle transaction grant = some (verdict, s'))
    (happlied : verdict.outcome = .applied) (hkey : s.resolveKey transaction = none)
    (hoperations : transaction.operations ≠ []) :
    ∃ entry next, s.admission handle transaction grant = .ok (entry, some next) ∧
      (verdict, s') = s.commit handle entry transaction next ∧
      (s.submit (.write s.grantActor transaction entry next)).1.kind = .committed := by
  rcases write_cases h with ⟨hreplay, -⟩ | ⟨-, reason, rfl, -⟩ |
    ⟨-, -, ⟨entry, hadmission⟩, -⟩ | ⟨-, entry, next, hadmission, hcommit⟩
  · simp [hkey] at hreplay
  · simp [Verdict.refuse] at happlied
  · exact (hoperations (operations_of_admission_none hadmission)).elim
  · refine ⟨entry, next, hadmission, hcommit, ?_⟩
    rcases commit_cases hcommit with ⟨-, rfl, -⟩ | ⟨-, rfl, -⟩ | ⟨hcommitted, -⟩
    · simp [Verdict.refuse] at happlied
    · simp at happlied
    · exact hcommitted

/-! ## Materializing -/

theorem loadArtifact_eq_ok {source : CognitionSource} {bytes : Bytes}
    (h : loadArtifact source = .ok bytes) : bytes = source.inlineBytes := by
  unfold loadArtifact at h
  split at h
  · simp at h
  · exact (Except.ok.inj h).symm

/-- An artifact fails its digest or its parse, or is isolated. -/
theorem createCognition_artifact {source : CognitionSource} {creation : Creation}
    (hkind : source.kind = .handoffArtifact) (h : s.createCognition source = (creation, s')) :
    (s' = s ∧ ∀ m, creation ≠ .handle m) ∨
    ∃ snapshot m, deserialize source.inlineBytes = .ok snapshot ∧
      m = s.minted snapshot source.inlineBytes {} .isolated ∧
      creation = .handle m ∧ s' = s.register m := by
  simp only [createCognition, hkind] at h
  cases hload : loadArtifact source with
  | error error =>
      rw [hload] at h
      obtain ⟨rfl, rfl⟩ := Prod.mk.inj h
      exact .inl ⟨rfl, by simp⟩
  | ok bytes =>
      obtain rfl := loadArtifact_eq_ok hload
      rw [hload] at h
      dsimp only at h
      rcases mint_cases s source.inlineBytes {} .isolated with ⟨error, hmint⟩ |
        ⟨snapshot, -, hparsed, hmint⟩
      · rw [hmint] at h
        obtain ⟨rfl, rfl⟩ := Prod.mk.inj h
        exact .inl ⟨rfl, by simp [Creation.ofExcept]⟩
      · rw [hmint] at h
        obtain ⟨rfl, rfl⟩ := Prod.mk.inj h
        exact .inr ⟨snapshot, _, hparsed, rfl, rfl, rfl⟩

/-- A cold boot without a revision and without bytes commits genesis. -/
theorem createCognition_genesis {source : CognitionSource} {creation : Creation}
    (hsubmits : s.submits (.createCognition source) = some .genesis)
    (h : s.createCognition source = (creation, s')) :
    ∃ m, m = s.minted makeGenesis (serializeSnapshot makeGenesis)
        (s.submit .genesis).1.revision .promoted ∧
      creation = .handle m ∧
      s' = ({ s with store := (s.submit .genesis).2 } : ServiceState σ).register m := by
  simp only [submits] at hsubmits
  split at hsubmits
  · next hboot =>
      obtain ⟨hkind, hid, hbytes⟩ := hboot
      simp only [createCognition, hkind, loadCanonical] at h
      rw [if_neg (by simp [hid]), if_pos hbytes] at h
      dsimp only at h
      rw [mint_genesis] at h
      obtain ⟨rfl, rfl⟩ := Prod.mk.inj h
      exact ⟨_, rfl, rfl, rfl⟩
  · simp at hsubmits

/-- A cold boot of anything else finds no bytes, or parses what it finds. -/
theorem createCognition_canonical {source : CognitionSource} {creation : Creation}
    (hkind : source.kind = .canonicalRemote)
    (hsubmits : s.submits (.createCognition source) = none)
    (h : s.createCognition source = (creation, s')) :
    (s' = s ∧ ∀ m, creation ≠ .handle m) ∨
    ∃ snapshot m bytes, bytes = CognitionStore.materialize s.store (s.bootId source) ∧
      bytes ≠ [] ∧ deserialize bytes = .ok snapshot ∧
      m = s.minted snapshot bytes (s.bootId source) .promoted ∧
      creation = .handle m ∧ s' = s.register m := by
  simp only [createCognition, hkind, loadCanonical] at h
  by_cases hbytes : (CognitionStore.materialize s.store (s.bootId source)).isEmpty
  · have hid : ¬ (s.bootId source).isEmpty := by
      intro hid
      simp [submits, hkind, hid, hbytes] at hsubmits
    rw [if_pos ⟨hbytes, hid⟩] at h
    obtain ⟨rfl, rfl⟩ := Prod.mk.inj h
    exact .inl ⟨rfl, by simp⟩
  · rw [if_neg (by simp [hbytes]), if_neg hbytes] at h
    dsimp only at h
    rcases mint_cases s (CognitionStore.materialize s.store (s.bootId source))
      (s.bootId source) .promoted with ⟨error, hmint⟩ | ⟨snapshot, hne, hparsed, hmint⟩
    · rw [hmint] at h
      obtain ⟨rfl, rfl⟩ := Prod.mk.inj h
      exact .inl ⟨rfl, by simp [Creation.ofExcept]⟩
    · rw [hmint] at h
      obtain ⟨rfl, rfl⟩ := Prod.mk.inj h
      exact .inr ⟨snapshot, _, _, rfl, hne, hparsed, rfl, rfl, rfl⟩

/-- The four ways a creation returns: nothing happened, an artifact was
isolated, a stored revision was booted, or genesis was committed. -/
theorem createCognition_cases {source : CognitionSource} {creation : Creation}
    (h : s.createCognition source = (creation, s')) :
    (s' = s ∧ s.submits (.createCognition source) = none ∧ ∀ m, creation ≠ .handle m) ∨
    (source.kind = .handoffArtifact ∧ s.submits (.createCognition source) = none ∧
      ∃ snapshot m, deserialize source.inlineBytes = .ok snapshot ∧
        m = s.minted snapshot source.inlineBytes {} .isolated ∧
        creation = .handle m ∧ s' = s.register m) ∨
    (source.kind = .canonicalRemote ∧ s.submits (.createCognition source) = none ∧
      ∃ snapshot m bytes, bytes = CognitionStore.materialize s.store (s.bootId source) ∧
        bytes ≠ [] ∧ deserialize bytes = .ok snapshot ∧
        m = s.minted snapshot bytes (s.bootId source) .promoted ∧
        creation = .handle m ∧ s' = s.register m) ∨
    (s.submits (.createCognition source) = some .genesis ∧
      ∃ m, m = s.minted makeGenesis (serializeSnapshot makeGenesis)
          (s.submit .genesis).1.revision .promoted ∧
        creation = .handle m ∧
        s' = ({ s with store := (s.submit .genesis).2 } : ServiceState σ).register m) := by
  cases hkind : source.kind with
  | compressedStream =>
      have hsubmits : s.submits (.createCognition source) = none := by simp [submits, hkind]
      simp only [createCognition, hkind] at h
      obtain ⟨rfl, rfl⟩ := Prod.mk.inj h
      exact .inl ⟨rfl, hsubmits, by simp⟩
  | handoffArtifact =>
      have hsubmits : s.submits (.createCognition source) = none := by simp [submits, hkind]
      rcases createCognition_artifact hkind h with ⟨hsame, hnone⟩ | hrestored
      · exact .inl ⟨hsame, hsubmits, hnone⟩
      · exact .inr (.inl ⟨rfl, hsubmits, hrestored⟩)
  | canonicalRemote =>
      by_cases hgenesis : s.submits (.createCognition source) = some .genesis
      · exact .inr (.inr (.inr ⟨hgenesis, createCognition_genesis hgenesis h⟩))
      · have hsubmits : s.submits (.createCognition source) = none := by
          simp only [submits] at hgenesis ⊢
          split at hgenesis
          · exact (hgenesis rfl).elim
          · next hother => rw [if_neg hother]
        rcases createCognition_canonical hkind hsubmits h with ⟨hsame, hnone⟩ | hbooted
        · exact .inl ⟨hsame, hsubmits, hnone⟩
        · exact .inr (.inr (.inl ⟨rfl, hsubmits, hbooted⟩))

theorem createCognition_head {snapshot : Snapshot}
    (hparsed : deserialize (CognitionStore.materialize s.store (CognitionStore.head s.store)) =
      .ok snapshot) :
    s.submits (.createCognition {}) = none ∧
      ∃ m, m = s.minted snapshot (CognitionStore.materialize s.store (CognitionStore.head s.store))
          (CognitionStore.head s.store) .promoted ∧
        s.createCognition {} = (.handle m, s.register m) := by
  have hne := ne_nil_of_deserialize hparsed
  have hbootId : s.bootId {} = CognitionStore.head s.store := rfl
  refine ⟨by simp [submits, hbootId, hne], _, rfl, ?_⟩
  have hload : s.loadCanonical {} =
      (.ok (CognitionStore.materialize s.store (CognitionStore.head s.store),
        CognitionStore.head s.store), s) := by
    simp [loadCanonical, hbootId, hne]
  have hmint : ∀ quarantine, s.mint
      (CognitionStore.materialize s.store (CognitionStore.head s.store))
      (CognitionStore.head s.store) quarantine = (.ok (s.minted snapshot
        (CognitionStore.materialize s.store (CognitionStore.head s.store))
        (CognitionStore.head s.store) quarantine),
      s.register (s.minted snapshot
        (CognitionStore.materialize s.store (CognitionStore.head s.store))
        (CognitionStore.head s.store) quarantine)) := by
    intro quarantine
    simp [mint, hparsed, hne]
  simp only [createCognition, hload, hmint]
  rfl

theorem acquireGrant_cases {actor : AuthenticatedActor} {mode : WorkMode}
    {granted : Option ExecutionGrant} (h : s.acquireGrant actor mode = (granted, s')) :
    (granted = none ∧ (s' = s ∨ s' = s.withIdentity)) ∨
    ∃ id, id = ({ value := lit "grant-" ++ toStringUInt64 (s.grantGeneration + 1) } : GrantId) ∧
      s.activeGrantId.isEmpty = true ∧ s.withIdentity.verifies actor = true ∧
      granted = some { id := id, epoch := s.epoch, principal := actor.principal, mode := mode } ∧
      s' = { s.withIdentity with
        activeGrantId := id
        grantActor := actor
        grantGeneration := s.grantGeneration + 1 } := by
  unfold acquireGrant at h
  split at h
  · obtain ⟨rfl, rfl⟩ := Prod.mk.inj h
    exact .inl ⟨rfl, .inl rfl⟩
  · next hactive =>
      dsimp only at h
      split at h
      · obtain ⟨rfl, rfl⟩ := Prod.mk.inj h
        exact .inl ⟨rfl, .inr rfl⟩
      · next hverified =>
          obtain ⟨rfl, rfl⟩ := Prod.mk.inj h
          exact .inr ⟨_, rfl, not_not.mp hactive, not_not.mp hverified, rfl, rfl⟩

/-- A free lease goes to whom the identity port accepts. -/
theorem acquireGrant_free {actor : AuthenticatedActor} (mode : WorkMode)
    (hfree : s.activeGrantId.isEmpty = true) (hverified : s.withIdentity.verifies actor = true) :
    ∃ grant leased, s.acquireGrant actor mode = (some grant, leased) := by
  unfold acquireGrant
  rw [if_neg (not_not.mpr hfree), if_neg (not_not.mpr hverified)]
  exact ⟨_, _, rfl⟩

theorem moveQuarantine_cases {actor : AuthenticatedActor} {source target : QuarantineState}
    {moved : CognitionHandle} (h : s.moveQuarantine handle actor source target = (moved, s')) :
    (moved = none ∧ s' = s.withIdentity) ∨
    ∃ entry m, s.findLive handle = some entry ∧ entry.quarantine = source ∧
      m = { entry with address := s.nextAddress, quarantine := target } ∧ moved = some m ∧
      s' = s.withIdentity.replaceEntry handle m := by
  unfold moveQuarantine at h
  dsimp only at h
  split at h
  · obtain ⟨rfl, rfl⟩ := Prod.mk.inj h
    exact .inl ⟨rfl, rfl⟩
  · cases hfind : s.findLive handle with
    | none =>
        have hfind' : s.withIdentity.findLive handle = none := hfind
        rw [hfind'] at h
        obtain ⟨rfl, rfl⟩ := Prod.mk.inj h
        exact .inl ⟨rfl, rfl⟩
    | some entry =>
        have hfind' : s.withIdentity.findLive handle = some entry := hfind
        rw [hfind'] at h
        dsimp only at h
        split at h
        · obtain ⟨rfl, rfl⟩ := Prod.mk.inj h
          exact .inl ⟨rfl, rfl⟩
        · next hquarantine =>
            obtain ⟨rfl, rfl⟩ := Prod.mk.inj h
            exact .inr ⟨entry, _, rfl, not_not.mp hquarantine, rfl, rfl, rfl⟩

/-! ## One inversion for each call -/

section Inversion

variable {answer : Answer} {source : CognitionSource} {actor : AuthenticatedActor}
  {mode : WorkMode}

theorem step_createCognition (h : s.step (.createCognition source) = some (answer, s')) :
    ∃ creation, answer = .created creation ∧ s.createCognition source = (creation, s') := by
  obtain ⟨rfl, rfl⟩ := Prod.mk.inj (Option.some.inj h)
  exact ⟨_, rfl, rfl⟩

theorem step_retireCognition (h : s.step (.retireCognition handle) = some (answer, s')) :
    ∃ found, answer = .retired found ∧ s.retireCognition handle = (found, s') := by
  obtain ⟨rfl, rfl⟩ := Prod.mk.inj (Option.some.inj h)
  exact ⟨_, rfl, rfl⟩

theorem step_acquireGrant (h : s.step (.acquireGrant actor mode) = some (answer, s')) :
    ∃ granted, answer = .granted granted ∧ s.acquireGrant actor mode = (granted, s') := by
  obtain ⟨rfl, rfl⟩ := Prod.mk.inj (Option.some.inj h)
  exact ⟨_, rfl, rfl⟩

theorem step_releaseGrant (h : s.step (.releaseGrant grant) = some (answer, s')) :
    answer = .done ∧ s' = s.releaseGrant grant := by
  obtain ⟨rfl, rfl⟩ := Prod.mk.inj (Option.some.inj h)
  exact ⟨rfl, rfl⟩

theorem step_writeToCognition
    (h : s.step (.writeToCognition handle transaction grant) = some (answer, s')) :
    ∃ verdict, answer = .verdict verdict ∧
      s.writeToCognition handle transaction grant = some (verdict, s') := by
  simp only [step] at h
  split at h
  · simp at h
  · next verdict after hwrite =>
      obtain ⟨rfl, rfl⟩ := Prod.mk.inj (Option.some.inj h)
      exact ⟨verdict, rfl, hwrite⟩

theorem step_verifyRestored (h : s.step (.verifyRestored handle actor) = some (answer, s')) :
    ∃ verified, answer = .handle verified ∧ s.verifyRestored handle actor = (verified, s') := by
  obtain ⟨rfl, rfl⟩ := Prod.mk.inj (Option.some.inj h)
  exact ⟨_, rfl, rfl⟩

theorem step_promoteAuthority (h : s.step (.promoteAuthority handle actor) = some (answer, s')) :
    ∃ promoted, answer = .handle promoted ∧
      s.promoteAuthority handle actor = (promoted, s') := by
  obtain ⟨rfl, rfl⟩ := Prod.mk.inj (Option.some.inj h)
  exact ⟨_, rfl, rfl⟩

theorem step_attachIdentityVerifier {verifier : Option IdentityVerifier}
    (h : s.step (.attachIdentityVerifier verifier) = some (answer, s')) :
    answer = .done ∧ s' = s.attachIdentityVerifier verifier := by
  obtain ⟨rfl, rfl⟩ := Prod.mk.inj (Option.some.inj h)
  exact ⟨rfl, rfl⟩

theorem step_canonicalHead (h : s.step .canonicalHead = some (answer, s')) :
    answer = .head s.canonicalHead ∧ s' = s := by
  obtain ⟨rfl, rfl⟩ := Prod.mk.inj (Option.some.inj h)
  exact ⟨rfl, rfl⟩

theorem step_currentEpoch (h : s.step .currentEpoch = some (answer, s')) :
    answer = .epoch s.epoch ∧ s' = s := by
  obtain ⟨rfl, rfl⟩ := Prod.mk.inj (Option.some.inj h)
  exact ⟨rfl, rfl⟩

end Inversion

/-! ## The effect of a call -/

/-- How a materialization can enter the registry. -/
inductive NewEntry (s : ServiceState σ) : Call → Materialization → Prop
  | artifact {source : CognitionSource} {snapshot : Snapshot}
      (hparsed : deserialize source.inlineBytes = .ok snapshot) :
      NewEntry s (.createCognition source) (s.minted snapshot source.inlineBytes {} .isolated)
  | booted {source : CognitionSource} {snapshot : Snapshot} {bytes : Bytes}
      (hbytes : bytes = CognitionStore.materialize s.store (s.bootId source)) (hne : bytes ≠ [])
      (hparsed : deserialize bytes = .ok snapshot) :
      NewEntry s (.createCognition source)
        (s.minted snapshot bytes (s.bootId source) .promoted)
  | genesis {source : CognitionSource}
      (hsubmits : s.submits (.createCognition source) = some .genesis) :
      NewEntry s (.createCognition source)
        (s.minted makeGenesis (serializeSnapshot makeGenesis) (s.submit .genesis).1.revision
          .promoted)
  | successor {handle : CognitionHandle} {transaction : ContextTransaction}
      {grant : ExecutionGrant} {entry : Materialization} {next : Snapshot}
      (hsubmits : s.submits (.writeToCognition handle transaction grant) =
        some (.write s.grantActor transaction entry next))
      (hcommitted :
        (s.submit (.write s.grantActor transaction entry next)).1.kind = .committed) :
      NewEntry s (.writeToCognition handle transaction grant)
        (s.successorMaterialization entry next
          (s.submit (.write s.grantActor transaction entry next)).1.revision)
  | verified {handle : CognitionHandle} {actor : AuthenticatedActor} {entry : Materialization}
      (hlive : entry ∈ s.live) (hisolated : entry.quarantine = .isolated) :
      NewEntry s (.verifyRestored handle actor)
        { entry with address := s.nextAddress, quarantine := .verified }
  | promoted {handle : CognitionHandle} {actor : AuthenticatedActor} {entry : Materialization}
      (hlive : entry ∈ s.live) (hpending : entry.quarantine = .authorityPending) :
      NewEntry s (.promoteAuthority handle actor)
        { entry with address := s.nextAddress, quarantine := .promoted }

/-- What a call leaves behind: nothing new, or one of the shapes that the
service state takes. The first two are also what failures leave. -/
inductive Effect (s : ServiceState σ) : Call → Answer → ServiceState σ → Prop
  | kept {call : Call} {answer : Answer} (hsubmits : s.submits call = none)
      (hunminted : ∀ grant, answer ≠ .granted (some grant))
      (hstale : ∀ grant, call = .releaseGrant grant → s.activeGrantId ≠ grant.id) :
      Effect s call answer s
  | ported {call : Call} {answer : Answer} (hsubmits : s.submits call = none)
      (hunminted : ∀ grant, answer ≠ .granted (some grant))
      (hother : ∀ grant, call ≠ .releaseGrant grant) : Effect s call answer s.withIdentity
  | attached (verifier : Option IdentityVerifier) :
      Effect s (.attachIdentityVerifier verifier) .done (s.attachIdentityVerifier verifier)
  | registered {source : CognitionSource} {m : Materialization}
      (hsubmits : s.submits (.createCognition source) = none)
      (hnew : NewEntry s (.createCognition source) m) (haddress : m.address = s.nextAddress) :
      Effect s (.createCognition source) (.created (.handle m)) (s.register m)
  | founded {source : CognitionSource} {m : Materialization}
      (hsubmits : s.submits (.createCognition source) = some .genesis)
      (hnew : NewEntry s (.createCognition source) m) (haddress : m.address = s.nextAddress) :
      Effect s (.createCognition source) (.created (.handle m))
        (({ s with store := (s.submit .genesis).2 } : ServiceState σ).register m)
  | retired (handle : CognitionHandle) :
      Effect s (.retireCognition handle) (.retired true)
        { s with live := s.live.eraseP fun entry => entry.isAt handle }
  | leased {actor : AuthenticatedActor} {mode : WorkMode} {grant : ExecutionGrant}
      (hid : grant.id = { value := lit "grant-" ++ toStringUInt64 (s.grantGeneration + 1) })
      (hinactive : s.activeGrantId.isEmpty = true)
      (hverified : s.withIdentity.verifies actor = true) :
      Effect s (.acquireGrant actor mode) (.granted (some grant))
        { s.withIdentity with
          activeGrantId := grant.id
          grantActor := actor
          grantGeneration := s.grantGeneration + 1 }
  | released {grant : ExecutionGrant} (hactive : s.activeGrantId = grant.id) :
      Effect s (.releaseGrant grant) .done { s with activeGrantId := {}, grantActor := {} }
  | moved {call : Call} {entry m : Materialization} (hsubmits : s.submits call = none)
      (hother : ∀ grant, call ≠ .releaseGrant grant) (hnew : NewEntry s call m)
      (haddress : m.address = s.nextAddress) (hfind : s.findLive call.handle = some entry) :
      Effect s call (.handle (some m)) (s.withIdentity.replaceEntry call.handle m)
  | diverged {handle : CognitionHandle} {transaction : ContextTransaction}
      {grant : ExecutionGrant} {submission : Submission}
      (hsubmits : s.submits (.writeToCognition handle transaction grant) = some submission)
      (hkind : (s.submit submission).1.kind = .compareFailed) :
      Effect s (.writeToCognition handle transaction grant) (.verdict (.refuse .storeDiverged))
        { s with store := (s.submit submission).2 }
  | unknown {handle : CognitionHandle} {transaction : ContextTransaction}
      {grant : ExecutionGrant} {submission : Submission} (verdict : Verdict)
      (hkey : s.resolveKey transaction = none)
      (hsubmits : s.submits (.writeToCognition handle transaction grant) = some submission)
      (hkind : (s.submit submission).1.kind = .outcomeUnknown)
      (hverdict : verdict = { outcome := .outcomeUnknown, reason := .outcomeUnresolved }) :
      Effect s (.writeToCognition handle transaction grant) (.verdict verdict)
        (({ s with store := (s.submit submission).2 } : ServiceState σ).record transaction verdict)
  | published {handle : CognitionHandle} {transaction : ContextTransaction}
      {grant : ExecutionGrant} {submission : Submission} {entry m : Materialization}
      (verdict : Verdict) (hkey : s.resolveKey transaction = none)
      (hsubmits : s.submits (.writeToCognition handle transaction grant) = some submission)
      (hkind : (s.submit submission).1.kind = .committed)
      (hnew : NewEntry s (.writeToCognition handle transaction grant) m)
      (haddress : m.address = s.nextAddress) (hfind : s.findLive handle = some entry)
      (hverdict : verdict =
        { outcome := .applied, reason := .storeDiverged, successor := some m }) :
      Effect s (.writeToCognition handle transaction grant) (.verdict verdict)
        ((({ s with store := (s.submit submission).2 } : ServiceState σ).replaceEntry handle
          m).record transaction verdict)

theorem effect_create {source : CognitionSource} {creation : Creation}
    (h : s.createCognition source = (creation, s')) :
    Effect s (.createCognition source) (.created creation) s' := by
  rcases createCognition_cases h with ⟨rfl, hsubmits, -⟩ |
    ⟨-, hsubmits, snapshot, m, hparsed, rfl, rfl, rfl⟩ |
    ⟨-, hsubmits, snapshot, m, bytes, hbytes, hne, hparsed, rfl, rfl, rfl⟩ |
    ⟨hsubmits, m, rfl, rfl, rfl⟩
  · exact .kept hsubmits (by simp) (by simp)
  · exact .registered hsubmits (.artifact hparsed) rfl
  · exact .registered hsubmits (.booted hbytes hne hparsed) rfl
  · exact .founded hsubmits (.genesis hsubmits) rfl

theorem effect_write {verdict : Verdict}
    (h : s.writeToCognition handle transaction grant = some (verdict, s')) :
    Effect s (.writeToCognition handle transaction grant) (.verdict verdict) s' := by
  rcases write_cases h with ⟨hkey, rfl⟩ | ⟨-, reason, -, rfl, hadmission⟩ |
    ⟨-, rfl, ⟨entry, hadmission⟩, -⟩ | ⟨hkey, entry, next, hadmission, hcommit⟩
  · exact .kept (submits_eq_none_of_write (.inl (by simp [hkey]))) (by simp) (by simp)
  · exact .kept (submits_eq_none_of_write (.inr (by simp [hadmission]))) (by simp) (by simp)
  · exact .kept (submits_eq_none_of_write (.inr (by simp [hadmission]))) (by simp) (by simp)
  · have hsubmits := submits_of_admission hkey hadmission
    obtain ⟨governance, hadmitted⟩ := admission_eq_ok.mp hadmission
    rcases commit_cases hcommit with ⟨hkind, rfl, rfl⟩ | ⟨hkind, hverdict, rfl⟩ |
      ⟨hkind, m, rfl, hverdict, rfl⟩
    · exact .diverged hsubmits hkind
    · exact .unknown verdict hkey hsubmits hkind hverdict
    · exact .published verdict hkey hsubmits hkind (.successor hsubmits hkind) rfl
        hadmitted.live hverdict

theorem effect_moveQuarantine {call : Call} {actor : AuthenticatedActor}
    {source target : QuarantineState} {moved : CognitionHandle}
    (h : s.moveQuarantine call.handle actor source target = (moved, s'))
    (hsubmits : s.submits call = none) (hother : ∀ grant, call ≠ .releaseGrant grant)
    (hnew : ∀ entry ∈ s.live, entry.quarantine = source →
      NewEntry s call { entry with address := s.nextAddress, quarantine := target }) :
    Effect s call (.handle moved) s' := by
  rcases moveQuarantine_cases h with ⟨-, rfl⟩ | ⟨entry, m, hfind, hquarantine, rfl, rfl, rfl⟩
  · exact .ported hsubmits (by simp) hother
  · exact .moved hsubmits hother (hnew entry (findLive_some hfind).1 hquarantine) rfl hfind

theorem effect {call : Call} {answer : Answer} (h : s.step call = some (answer, s')) :
    Effect s call answer s' := by
  cases call with
  | createCognition source =>
      obtain ⟨creation, rfl, hcreate⟩ := step_createCognition h
      exact effect_create hcreate
  | writeToCognition handle transaction grant =>
      obtain ⟨verdict, rfl, hwrite⟩ := step_writeToCognition h
      exact effect_write hwrite
  | retireCognition handle =>
      obtain ⟨found, rfl, hretire⟩ := step_retireCognition h
      unfold retireCognition at hretire
      split at hretire
      · obtain ⟨rfl, rfl⟩ := Prod.mk.inj hretire
        exact .retired handle
      · obtain ⟨rfl, rfl⟩ := Prod.mk.inj hretire
        exact .kept rfl (by simp) (by simp)
  | acquireGrant actor mode =>
      obtain ⟨granted, rfl, hacquire⟩ := step_acquireGrant h
      rcases acquireGrant_cases hacquire with ⟨rfl, rfl | rfl⟩ |
        ⟨id, rfl, hinactive, hverified, rfl, rfl⟩
      · exact .kept rfl (by simp) (by simp)
      · exact .ported rfl (by simp) (by simp)
      · exact .leased rfl hinactive hverified
  | releaseGrant grant =>
      obtain ⟨rfl, rfl⟩ := step_releaseGrant h
      unfold releaseGrant
      split
      · next hactive => exact .released hactive
      · next hstale =>
          refine .kept rfl (by simp) ?_
          rintro _ ⟨⟩
          exact hstale
  | verifyRestored handle actor =>
      obtain ⟨verified, rfl, hverify⟩ := step_verifyRestored h
      exact effect_moveQuarantine hverify rfl (by simp) fun _ => .verified
  | promoteAuthority handle actor =>
      obtain ⟨promoted, rfl, hpromote⟩ := step_promoteAuthority h
      exact effect_moveQuarantine hpromote rfl (by simp) fun _ => .promoted
  | attachIdentityVerifier verifier =>
      obtain ⟨rfl, rfl⟩ := step_attachIdentityVerifier h
      exact .attached verifier
  | canonicalHead =>
      obtain ⟨rfl, rfl⟩ := step_canonicalHead h
      exact .kept rfl (by simp) (by simp)
  | currentEpoch =>
      obtain ⟨rfl, rfl⟩ := step_currentEpoch h
      exact .kept rfl (by simp) (by simp)

theorem step_store {call : Call} {answer : Answer} (h : s.step call = some (answer, s')) :
    s'.store = match s.submits call with
      | none => s.store
      | some submission => (s.submit submission).2 := by
  cases effect h with
  | kept hsubmits _ _ | diverged hsubmits _ => rw [hsubmits]
  | ported hsubmits _ _ | registered hsubmits _ _ | founded hsubmits _ _
  | moved hsubmits _ _ _ _ =>
      rw [hsubmits]
      rfl
  | attached _ | retired _ | leased _ _ _ | released _ => rfl
  | unknown _ _ hsubmits _ _ | published _ _ hsubmits _ _ _ _ _ =>
      rw [hsubmits]
      exact record_store _

/-- The receipts change only where a keyed write got past the comparison; its
verdict is what they then hold. -/
theorem receipts_step {call : Call} {answer : Answer} (h : s.step call = some (answer, s')) :
    s'.receipts = s.receipts ∨
    ∃ handle transaction grant verdict submission,
      call = .writeToCognition handle transaction grant ∧ transaction.idempotencyKey ≠ [] ∧
      s.resolveKey transaction = none ∧ answer = .verdict verdict ∧
      verdict.outcome ≠ .refused ∧ s.submits call = some submission ∧
      (s.submit submission).1.kind ≠ .compareFailed ∧
      s'.receipts = Function.update s.receipts transaction.idempotencyKey
        (some ⟨requestDigestOf transaction, verdict⟩) := by
  cases effect h with
  | kept _ _ _ | ported _ _ _ | attached _ | registered _ _ _ | founded _ _ _ | retired _
  | leased _ _ _ | released _ | moved _ _ _ _ _ | diverged _ _ => exact .inl rfl
  | @unknown handle transaction grant submission verdict hkey hsubmits hkind hverdict =>
      by_cases hunkeyed : transaction.idempotencyKey = []
      · rw [record_unkeyed hunkeyed]
        exact .inl rfl
      · exact .inr ⟨handle, transaction, grant, verdict, submission, rfl, hunkeyed, hkey, rfl,
          by simp [hverdict], hsubmits, by simp [hkind], record_receipts rfl hunkeyed _⟩
  | @published handle transaction grant submission _ _ verdict hkey hsubmits hkind _ _ _ hverdict =>
      by_cases hunkeyed : transaction.idempotencyKey = []
      · rw [record_unkeyed hunkeyed]
        exact .inl rfl
      · exact .inr ⟨handle, transaction, grant, verdict, submission, rfl, hunkeyed, hkey, rfl,
          by simp [hverdict], hsubmits, by simp [hkind], record_receipts rfl hunkeyed _⟩

/-- A write past the comparison is answered applied, or unknown, and a keyed one
leaves its verdict under its key. -/
theorem verdict_of_commits {submission : Submission} {answer : Answer}
    (h : s.step (.writeToCognition handle transaction grant) = some (answer, s'))
    (hsubmits : s.submits (.writeToCognition handle transaction grant) = some submission)
    (hkind : (s.submit submission).1.kind ≠ .compareFailed) :
    ∃ verdict, answer = .verdict verdict ∧
      (verdict.outcome = .applied ∨ verdict.outcome = .outcomeUnknown) ∧
      (transaction.idempotencyKey ≠ [] → s'.receipts transaction.idempotencyKey =
        some ⟨requestDigestOf transaction, verdict⟩) := by
  cases effect h with
  | kept hnone _ _ | ported hnone _ _ | moved hnone _ _ _ _ => simp [hnone] at hsubmits
  | diverged hsame hfailed =>
      obtain rfl := Option.some.inj (hsame.symm.trans hsubmits)
      exact (hkind hfailed).elim
  | unknown verdict _ _ _ hverdict =>
      refine ⟨verdict, rfl, .inr (by rw [hverdict]), fun hkeyed => ?_⟩
      simp [record_receipts rfl hkeyed]
  | published verdict _ _ _ _ _ _ hverdict =>
      refine ⟨verdict, rfl, .inl (by rw [hverdict]), fun hkeyed => ?_⟩
      simp [record_receipts rfl hkeyed]

/-- A recorded key resolves before any gate, and nothing moves. -/
theorem write_of_receipt (handle : CognitionHandle) (grant : ExecutionGrant) {receipt : Receipt}
    (hkeyed : transaction.idempotencyKey ≠ [])
    (hreceipt : s.receipts transaction.idempotencyKey = some receipt) :
    s.writeToCognition handle transaction grant =
      some (if requestDigestOf transaction = receipt.requestDigest then receipt.outcome
        else .refuse .keyConflict, s) ∧
      s.submits (.writeToCognition handle transaction grant) = none := by
  have hkey : s.resolveKey transaction =
      some (if requestDigestOf transaction = receipt.requestDigest then receipt.outcome
        else .refuse .keyConflict) := by
    rw [resolveKey, if_neg (by simpa using hkeyed), hreceipt]
    by_cases hdigest : requestDigestOf transaction = receipt.requestDigest
    · simp [hdigest]
    · simp [hdigest, Ne.symm hdigest]
  exact ⟨by simp only [writeToCognition, hkey], submits_eq_none_of_write (.inl (by simp [hkey]))⟩

omit [Foundation] [CognitionStore σ] in
theorem mem_replaceEntry {m new : Materialization} (h : m ∈ (s.replaceEntry handle new).live) :
    m ∈ s.live ∨ m = new := by
  rcases mem_updateFirst h with h | ⟨_, -, -, rfl⟩
  · exact .inl h
  · exact .inr rfl

omit [Foundation] [CognitionStore σ] in
theorem mem_register {m new : Materialization} (h : m ∈ (s.register new).live) :
    m ∈ s.live ∨ m = new := by
  simpa [register] using h

/-- What a call does to the registry: nothing, or it drops, appends or replaces
one entry. A new entry has the next address. -/
inductive RegistryStep (s s' : ServiceState σ) (call : Call) : Prop
  | kept (hlive : s'.live = s.live) (hnext : s'.nextAddress = s.nextAddress)
  | retired (hlive : s'.live = s.live.eraseP fun entry => entry.isAt call.handle)
      (hnext : s'.nextAddress = s.nextAddress)
  | registered (m : Materialization) (hnew : NewEntry s call m)
      (haddress : m.address = s.nextAddress) (hlive : s'.live = s.live ++ [m])
      (hnext : s'.nextAddress = s.nextAddress + 1)
  | replaced (entry m : Materialization) (hnew : NewEntry s call m)
      (haddress : m.address = s.nextAddress) (hfind : s.findLive call.handle = some entry)
      (hlive : s'.live = updateFirst (fun live => live.isAt call.handle) (fun _ => m) s.live)
      (hnext : s'.nextAddress = s.nextAddress + 1)

theorem registryStep {call : Call} {answer : Answer} (h : s.step call = some (answer, s')) :
    RegistryStep s s' call := by
  cases effect h with
  | kept _ _ _ | ported _ _ _ | attached _ | leased _ _ _ | released _ | diverged _ _ =>
      exact .kept rfl rfl
  | unknown _ _ _ _ _ => exact .kept (record_live _) (record_nextAddress _)
  | retired _ => exact .retired rfl rfl
  | registered _ hnew haddress | founded _ hnew haddress =>
      exact .registered _ hnew haddress rfl rfl
  | moved _ _ hnew haddress hfind => exact .replaced _ _ hnew haddress hfind rfl rfl
  | published _ _ _ _ hnew haddress hfind _ =>
      exact .replaced _ _ hnew haddress hfind (record_live _) (record_nextAddress _)

/-- Every registry entry after a call was there before, or is new in a known
way and has the next address. -/
theorem RegistryStep.mem {call : Call} {m : Materialization} (h : RegistryStep s s' call)
    (hm : m ∈ s'.live) :
    m ∈ s.live ∨ NewEntry s call m ∧ m.address = s.nextAddress ∧
      s'.nextAddress = s.nextAddress + 1 := by
  cases h with
  | kept hlive _ => exact .inl (hlive ▸ hm)
  | retired hlive _ =>
      rw [hlive] at hm
      exact .inl (List.mem_of_mem_eraseP hm)
  | registered new hnew haddress hlive hnext =>
      rw [hlive, List.mem_append, List.mem_singleton] at hm
      rcases hm with hm | rfl
      · exact .inl hm
      · exact .inr ⟨hnew, haddress, hnext⟩
  | replaced entry new hnew haddress hfind hlive hnext =>
      rw [hlive] at hm
      rcases mem_updateFirst hm with hm | ⟨_, -, -, rfl⟩
      · exact .inl hm
      · exact .inr ⟨hnew, haddress, hnext⟩

theorem mem_live_step {call : Call} {answer : Answer} {m : Materialization}
    (h : s.step call = some (answer, s')) (hm : m ∈ s'.live) :
    m ∈ s.live ∨ NewEntry s call m :=
  ((registryStep h).mem hm).imp_right fun hnew => hnew.1

theorem RegistryStep.nextAddress_le {call : Call} (h : RegistryStep s s' call) :
    s.nextAddress ≤ s'.nextAddress := by
  cases h with
  | kept _ hnext => exact hnext.ge
  | retired _ hnext => exact hnext.ge
  | registered m _ _ _ hnext => exact hnext ▸ Nat.le_succ _
  | replaced entry m _ _ _ _ hnext => exact hnext ▸ Nat.le_succ _

/-- Entries are told apart by their addresses, and the next address is fresh. -/
structure Addressed (s : ServiceState σ) : Prop where
  distinct : ∀ m ∈ s.live, ∀ other ∈ s.live, m.address = other.address → m = other
  fresh : ∀ m ∈ s.live, m.address < s.nextAddress

omit [Foundation] [CognitionStore σ] in
theorem addressed_start (store : σ) : Addressed (ServiceState.start store) :=
  ⟨by simp [ServiceState.start], by simp [ServiceState.start]⟩

omit [Foundation] [CognitionStore σ] in
theorem Addressed.add {new : Materialization} (h : Addressed s)
    (hmem : ∀ m ∈ s'.live, m ∈ s.live ∨ m = new) (haddress : new.address = s.nextAddress)
    (hnext : s'.nextAddress = s.nextAddress + 1) : Addressed s' := by
  have hlt : ∀ m ∈ s.live, m.address < new.address := fun m hm => haddress ▸ h.fresh m hm
  constructor
  · intro m hm other hother hsame
    rcases hmem m hm with hm | rfl
    · rcases hmem other hother with hother | rfl
      · exact h.distinct m hm other hother hsame
      · exact absurd hsame (Nat.ne_of_lt (hlt m hm))
    · rcases hmem other hother with hother | rfl
      · exact absurd hsame.symm (Nat.ne_of_lt (hlt other hother))
      · rfl
  · intro m hm
    rw [hnext, ← haddress]
    rcases hmem m hm with hm | rfl
    · exact Nat.lt_succ_of_lt (hlt m hm)
    · exact Nat.lt_succ_self _

theorem RegistryStep.addressed {call : Call} (h : RegistryStep s s' call)
    (hbefore : Addressed s) : Addressed s' := by
  cases h with
  | kept hlive hnext =>
      exact ⟨by rw [hlive]; exact hbefore.distinct, by rw [hlive, hnext]; exact hbefore.fresh⟩
  | retired hlive hnext =>
      have hmem : ∀ m ∈ s'.live, m ∈ s.live := fun m hm => by
        rw [hlive] at hm
        exact List.mem_of_mem_eraseP hm
      refine ⟨fun m hm other hother => hbefore.distinct m (hmem m hm) other (hmem other hother),
        fun m hm => ?_⟩
      rw [hnext]
      exact hbefore.fresh m (hmem m hm)
  | registered new _ haddress hlive hnext =>
      refine hbefore.add (fun m hm => ?_) haddress hnext
      rw [hlive, List.mem_append, List.mem_singleton] at hm
      exact hm
  | replaced _ new _ haddress _ hlive hnext =>
      refine hbefore.add (fun m hm => ?_) haddress hnext
      rw [hlive] at hm
      exact (mem_updateFirst hm).imp_right fun hnew => by
        obtain ⟨_, -, -, rfl⟩ := hnew
        rfl

theorem addressed_of_run {store : σ} {trs : List (ServiceTransition σ)} {t : ServiceState σ}
    (hrun : ServiceRun (ServiceState.start store) trs t) : Addressed t :=
  hrun.invariant (C := fun _ => True) (fun _ _ => trivial) (addressed_start store)
    fun _ hvalid _ hbefore => (registryStep hvalid).addressed hbefore

/-- The address is the materialization's own, whether or not it is still registered. -/
structure Owns (s : ServiceState σ) (m : Materialization) : Prop where
  fresh : m.address < s.nextAddress
  unique : ∀ entry ∈ s.live, entry.address = m.address → entry = m

omit [Foundation] [CognitionStore σ] in
theorem Addressed.owns {m : Materialization} (h : Addressed s) (hm : m ∈ s.live) : Owns s m :=
  ⟨h.fresh m hm, fun entry hentry hsame => h.distinct entry hentry m hm hsame⟩

theorem Owns.step {call : Call} {m : Materialization} (h : Owns s m)
    (hstep : RegistryStep s s' call) : Owns s' m := by
  refine ⟨h.fresh.trans_le hstep.nextAddress_le, fun entry hentry hsame => ?_⟩
  rcases hstep.mem hentry with hentry | ⟨-, haddress, -⟩
  · exact h.unique entry hentry hsame
  · exact absurd (haddress.symm.trans hsame) (Nat.ne_of_gt h.fresh)

omit [Foundation] [CognitionStore σ] in
/-- A handle to the materialization finds it, or nothing. -/
theorem Owns.findLive {m : Materialization} (h : Owns s m) (hat : m.isAt handle = true)
    (hfind : s.findLive handle = some entry) : entry = m := by
  obtain ⟨hentry, hat'⟩ := findLive_some hfind
  cases handle with
  | none => simp at hat
  | some pointee =>
      rw [Materialization.isAt_some] at hat hat'
      exact h.unique entry hentry (hat'.symm.trans hat)

end ServiceState

end QivenContext
