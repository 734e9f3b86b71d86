import QivenContext.Handoff

/-!
# What review evidence binds

The evidence of a review names the digest of the operations. What a decision
operation writes comes from the operation, except for the provenance of an
appended decision: that is the handoff reference of the transaction, which no
digest covers.
-/

namespace QivenContext

open Library ServiceState

/-! ## The encoding behind the digest -/

section Digest

theorem delimited_putStr : Delimited short putStr := by
  intro a b rest rest' ha hb h
  rw [putStr, putStr, List.append_assoc, List.append_assoc] at h
  obtain ⟨hlength, h⟩ := List.append_inj h (by simp)
  rw [putU32_eq, putU32_eq] at hlength
  have hsame : a.length = b.length := by
    have hvalue := congrArg ofLittleEndian hlength
    rw [ofLittleEndian_littleEndian, ofLittleEndian_littleEndian, UInt32.toNat_ofNat',
      UInt32.toNat_ofNat'] at hvalue
    unfold short at ha hb
    omega
  obtain ⟨rfl, hrest⟩ := List.append_inj h hsame
  exact ⟨rfl, hrest⟩

theorem putI64_injective : Function.Injective putI64 := by
  intro a b h
  rw [putI64, putI64, putU64_eq, putU64_eq] at h
  have hvalue := congrArg ofLittleEndian h
  rw [ofLittleEndian_littleEndian, ofLittleEndian_littleEndian] at hvalue
  have ha := a.toUInt64.toNat_lt
  have hb := b.toUInt64.toNat_lt
  have hsame : a.toUInt64.toNat = b.toUInt64.toNat := by omega
  cases a
  cases b
  exact congrArg Int64.ofUInt64 (UInt64.toNat_inj.mp hsame)

theorem delimited_putI64 : Delimited (fun _ => True) putI64 := by
  have hlength (n : Int64) : (putI64 n).length = 8 := length_putU64 n.toUInt64
  exact .of_length hlength putI64_injective

theorem putEnum_injective {E : Type} [DecidableEq E] [Inhabited E] [Enumerated E] :
    Function.Injective (putEnum : E → Bytes) := by
  intro a b h
  have hbyte : Enumerated.toByte a = Enumerated.toByte b := List.head_eq_of_cons_eq h
  rw [← Enumerated.ofByte_toByte a, hbyte, Enumerated.ofByte_toByte]

theorem delimited_putEnum {E : Type} [DecidableEq E] [Inhabited E] [Enumerated E] :
    Delimited (fun _ => True) (putEnum : E → Bytes) := by
  have hlength (e : E) : (putEnum e).length = 1 := rfl
  exact .of_length hlength putEnum_injective

theorem delimited_putOperation : Delimited ShortOperation putOperation := by
  intro a b rest rest' ha hb h
  simp only [putOperation, List.append_assoc] at h
  obtain ⟨hkind, h⟩ := delimited_putEnum _ _ _ _ trivial trivial h
  obtain ⟨hid, h⟩ := delimited_putI64 _ _ _ _ trivial trivial h
  obtain ⟨hsuccessor, h⟩ := delimited_putI64 _ _ _ _ trivial trivial h
  obtain ⟨haux, h⟩ := List.append_inj h rfl
  obtain ⟨hscope, h⟩ := delimited_putStr _ _ _ _ ha.scope hb.scope h
  obtain ⟨htitle, h⟩ := delimited_putStr _ _ _ _ ha.title hb.title h
  obtain ⟨hpayload, h⟩ := delimited_putStr _ _ _ _ ha.payload hb.payload h
  obtain ⟨hprovenance, h⟩ := delimited_putStr _ _ _ _ ha.provenanceRef hb.provenanceRef h
  have haux' : a.aux = b.aux := List.head_eq_of_cons_eq haux
  refine ⟨?_, h⟩
  cases a
  cases b
  simp_all

/-- Operations with short strings are told by their bytes, without a frame. -/
theorem flatMap_putOperation_injective {operations operations' : List Operation}
    (hshort : ∀ operation ∈ operations, ShortOperation operation)
    (hshort' : ∀ operation ∈ operations', ShortOperation operation)
    (h : operations.flatMap putOperation = operations'.flatMap putOperation) :
    operations = operations' :=
  delimited_putOperation.flatMap_injective (fun _ => by simp [putOperation, putEnum, putU8])
    hshort hshort' h

/-- On them the digest collides only where the hash does. -/
theorem digestOperations_injective [Foundation] {operations operations' : List Operation}
    (hshort : ∀ operation ∈ operations, ShortOperation operation)
    (hshort' : ∀ operation ∈ operations', ShortOperation operation)
    (hfree : digestOperations operations = digestOperations operations' →
      operations.flatMap putOperation = operations'.flatMap putOperation)
    (h : digestOperations operations = digestOperations operations') : operations = operations' :=
  flatMap_putOperation_injective hshort hshort' (hfree h)

end Digest

/-! ## What the handoff reference reaches -/

/-- A decision of the template, with the reference where one is to be filled in. -/
def filled (reference : Str) (slot : Decision × Bool) : Decision :=
  if slot.2 then { slot.1 with provenance := userStatement reference } else slot.1

section Template

variable {operation : Operation} {current next : Snapshot} {slots : List (Decision × Bool)}

theorem supersedeIn_provenance_congr (decision : Decision) (provenance : Provenance) :
    supersedeIn operation { decision with provenance := provenance } =
      { supersedeIn operation decision with provenance := provenance } := by
  unfold supersedeIn
  dsimp only
  split <;> split <;> rfl

theorem supersedeIn_filled (reference : Str) (slot : Decision × Bool) :
    supersedeIn operation (filled reference slot) =
      filled reference (supersedeIn operation slot.1, slot.2) := by
  unfold filled
  split
  · exact supersedeIn_provenance_congr _ _
  · rfl

/-- One operation, on a snapshot whose decisions are a filled-in template. -/
theorem applyOperation_template (operation : Operation) (next : Snapshot)
    (slots : List (Decision × Bool)) :
    ∃ (next' : Snapshot) (slots' : List (Decision × Bool)), (∀ reference,
      applyOperation reference { next with decisions := slots.map (filled reference) } operation =
        { next' with decisions := slots'.map (filled reference) }) ∧
      ((∃ slot ∈ slots', slot.2 = true) ↔
        (∃ slot ∈ slots, slot.2 = true) ∨ operation.kind = .appendDecision) := by
  cases hkind : operation.kind with
  | appendDecision =>
      refine ⟨next, slots ++ [(acceptedDecision [] operation, true)], fun reference => ?_, ?_⟩
      · simp only [applyOperation, hkind, List.map_append, List.map_singleton]
        rfl
      · exact iff_of_true ⟨_, List.mem_append_right _ (List.mem_singleton_self _), rfl⟩ (.inr rfl)
  | supersedeDecision =>
      refine ⟨next, slots.map fun slot => (supersedeIn operation slot.1, slot.2),
        fun reference => ?_, ?_⟩
      · simp only [applyOperation, hkind, List.map_map]
        congr 1
        exact List.map_congr_left fun slot _ => supersedeIn_filled reference slot
      · simp
  | _ =>
      refine ⟨applyOperation [] next operation, slots, fun reference => ?_, by simp⟩
      simp only [applyOperation, hkind]
      try split <;> rfl

/-- What a transaction leaves is a template of its operations, filled in with its
reference where they append a decision. -/
theorem applyOperations_template (operations : List Operation) (current : Snapshot) :
    ∃ (next : Snapshot) (slots : List (Decision × Bool)),
      (∀ reference, operations.foldl (applyOperation reference) current =
        { next with decisions := slots.map (filled reference) }) ∧
      ((∃ slot ∈ slots, slot.2 = true) ↔
        ∃ operation ∈ operations, operation.kind = .appendDecision) := by
  induction operations using List.reverseRecOn with
  | nil =>
      refine ⟨current, current.decisions.map fun decision => (decision, false), fun _ => ?_, ?_⟩
      · simp [Function.comp_def, filled]
      · simp
  | append_singleton past operation ih =>
      obtain ⟨next, slots, hpast, hslots⟩ := ih
      obtain ⟨next', slots', hstep, hslots'⟩ := applyOperation_template operation next slots
      refine ⟨next', slots', fun reference => ?_, ?_⟩
      · rw [List.foldl_append, hpast, List.foldl_cons, List.foldl_nil, hstep]
      · rw [hslots', hslots]
        simp [or_and_right, exists_or]

end Template

/-! ## The reference is in the bytes -/

section Bytes

variable {slots : List (Decision × Bool)} {reference reference' : Str}

theorem putDecision_filled (slot : Decision × Bool) (hslot : slot.2 = true) :
    ∃ before after, ∀ reference,
      putDecision (filled reference slot) = before ++ (putStr reference ++ after) := by
  refine ⟨putI64 slot.1.id ++ putEnum slot.1.status ++ putStr slot.1.title ++
    putStr slot.1.content ++ putVector putI64 slot.1.supersedes ++
    putVector putI64 slot.1.supersededBy ++ (putU32 1 ++ putEnum SourceType.Kind.userStatement),
    putStr [], fun reference => ?_⟩
  have hsources : putProvenance (userStatement reference) =
      putU32 1 ++ (putEnum SourceType.Kind.userStatement ++ putStr reference ++ putStr []) := by
    simp only [putProvenance, userStatement, putVector, List.flatMap_cons, List.flatMap_nil,
      List.append_nil]
    rfl
  simp only [filled, hslot, if_true, putDecision, hsources, List.append_assoc]

theorem putDecision_unfilled (slot : Decision × Bool) (hslot : slot.2 = false)
    (reference reference' : Str) :
    putDecision (filled reference slot) = putDecision (filled reference' slot) := by
  simp [filled, hslot]

/-- Each filled slot adds the length of the reference. -/
theorem length_putDecision_filled (slots : List (Decision × Bool)) :
    ∃ base, ∀ reference, ((slots.map (filled reference)).flatMap putDecision).length =
      base + slots.countP (fun slot => slot.2) * reference.length := by
  induction slots with
  | nil => exact ⟨0, fun reference => by simp⟩
  | cons slot slots ih =>
      obtain ⟨base, hbase⟩ := ih
      cases hslot : slot.2 with
      | true =>
          obtain ⟨before, after, hbytes⟩ := putDecision_filled slot hslot
          refine ⟨before.length + 4 + after.length + base, fun reference => ?_⟩
          rw [List.map_cons, List.flatMap_cons, List.length_append, hbase, hbytes,
            List.countP_cons_of_pos hslot]
          simp only [putStr, List.length_append, length_putU32]
          ring
      | false =>
          refine ⟨(putDecision (filled [] slot)).length + base, fun reference => ?_⟩
          rw [List.map_cons, List.flatMap_cons, List.length_append, hbase,
            List.countP_cons_of_neg (by simp [hslot]),
            putDecision_unfilled slot hslot reference []]
          ring

theorem length_eq_of_filled (hslots : ∃ slot ∈ slots, slot.2 = true)
    (hlength : ((slots.map (filled reference)).flatMap putDecision).length =
      ((slots.map (filled reference')).flatMap putDecision).length) :
    reference.length = reference'.length := by
  obtain ⟨base, hbase⟩ := length_putDecision_filled slots
  rw [hbase, hbase] at hlength
  have hpos : 0 < slots.countP fun slot => slot.2 := List.countP_pos_iff.mpr hslots
  exact Nat.eq_of_mul_eq_mul_left hpos (by omega)

/-- Equal encodings of one template carry equal references. -/
theorem reference_eq_of_filled (hslots : ∃ slot ∈ slots, slot.2 = true)
    (hbytes : (slots.map (filled reference)).flatMap putDecision =
      (slots.map (filled reference')).flatMap putDecision) : reference = reference' := by
  have hlength := length_eq_of_filled hslots (congrArg List.length hbytes)
  induction slots with
  | nil => simp at hslots
  | cons slot slots ih =>
      rw [List.map_cons, List.flatMap_cons, List.map_cons, List.flatMap_cons] at hbytes
      cases hslot : slot.2 with
      | true =>
          obtain ⟨before, after, hthis⟩ := putDecision_filled slot hslot
          simp only [hthis, putStr, hlength, List.append_assoc] at hbytes
          have hrest := List.append_cancel_left (List.append_cancel_left hbytes)
          exact (List.append_inj hrest hlength).1
      | false =>
          rw [putDecision_unfilled slot hslot reference reference'] at hbytes
          refine ih ?_ (List.append_cancel_left hbytes)
          obtain ⟨found, hmem, hfound⟩ := hslots
          rcases List.mem_cons.mp hmem with rfl | hmem
          · simp [hslot] at hfound
          · exact ⟨found, hmem, hfound⟩

/-- The bytes around the decisions. -/
theorem serializeSnapshot_decisions (next : Snapshot) :
    ∃ before after, ∀ decisions, serializeSnapshot { next with decisions := decisions } =
      before ++ (putVector putDecision decisions ++ after) := by
  refine ⟨putU8 serializationVersionLimit ++ putStr next.governance.rootPrincipal ++
    putVector putStr next.constitution.articles ++
    putVector putHandoffPolicy next.policy.handoff ++
    putVector putRecoveryRule next.policy.recovery ++ putState next.state,
    putVector putMemoryRecord next.memory ++ putVector putObligation next.obligations ++
    putVector putEvidence next.evidence ++ putVector putConflict next.conflicts ++
    putVector putProfile next.profiles ++ putVector putView next.views ++
    putBool next.invocation.present ++ putVector putInvocationRule next.invocation.rules ++
    putVector putRole next.roles, fun decisions => ?_⟩
  simp only [serializeSnapshot, List.append_assoc]

/-- Of one transaction, two references give the same bytes only where they are
equal or no decision is appended. -/
theorem serialize_template_eq_iff (operations : List Operation) (current : Snapshot) :
    serializeSnapshot (operations.foldl (applyOperation reference) current) =
        serializeSnapshot (operations.foldl (applyOperation reference') current) ↔
      reference = reference' ∨ ∀ operation ∈ operations, operation.kind ≠ .appendDecision := by
  obtain ⟨next, slots, hnext, hslots⟩ := applyOperations_template operations current
  rw [hnext, hnext]
  constructor
  · intro hbytes
    refine or_iff_not_imp_right.mpr fun happended => ?_
    push Not at happended
    obtain ⟨before, after, hsplit⟩ := serializeSnapshot_decisions next
    rw [hsplit, hsplit] at hbytes
    have hvectors := List.append_cancel_right (List.append_cancel_left hbytes)
    simp only [putVector, List.length_map] at hvectors
    exact reference_eq_of_filled (hslots.mpr happended) (List.append_cancel_left hvectors)
  · rintro (rfl | hnone)
    · rfl
    · have hunfilled : ¬ ∃ slot ∈ slots, slot.2 = true := fun hsome => by
        obtain ⟨operation, hmem, hkind⟩ := hslots.mp hsome
        exact hnone operation hmem hkind
      have hsame : slots.map (filled reference) = slots.map (filled reference') :=
        List.map_congr_left fun slot hmem => by
          have hslot : slot.2 ≠ true := fun hthis => hunfilled ⟨slot, hmem, hthis⟩
          simp [filled, hslot]
      rw [hsame]

end Bytes

/-! ## What the reviewer fixed -/

/-- The policy asks decision acceptance for a review. -/
def ReviewsDecisions (current : Snapshot) : Prop :=
  ∃ row, current.policy.handoff.find? (fun row => row.opClass = .decisionAcceptance) = some row ∧
    row.required = .h2Review

def HasDecision (transaction : ContextTransaction) : Prop :=
  ∃ operation ∈ transaction.operations, opClassOf operation.kind = .decisionAcceptance

section Review

variable [Foundation] {current : Snapshot} {rootPrincipal : PrincipalId} {actorBinding : Str}
  {transaction transaction' : ContextTransaction}

theorem digest_of_h2Gate (h : h2Gate rootPrincipal actorBinding transaction = .ok ()) :
    ∃ h2, transaction.h2 = some h2 ∧
      h2.reviewedDeltaDigest = digestOperations transaction.operations := by
  unfold h2Gate at h
  split at h
  · simp at h
  · next h2 hsome =>
      simp only [gate_bind_eq_ok, refuseIf_eq_ok, not_not] at h
      exact ⟨h2, hsome, h.2.2.2⟩

theorem digest_of_policyGate (hreviews : ReviewsDecisions current)
    (hdecision : HasDecision transaction)
    (h : ∀ operation ∈ transaction.operations,
      policyGate current rootPrincipal actorBinding transaction operation = .ok ()) :
    ∃ h2, transaction.h2 = some h2 ∧
      h2.reviewedDeltaDigest = digestOperations transaction.operations := by
  obtain ⟨operation, hmem, hclass⟩ := hdecision
  obtain ⟨row, hrow, hrequired⟩ := hreviews
  have hthis := h operation hmem
  unfold policyGate at hthis
  rw [hclass, hrow] at hthis
  simp only [hrequired, if_true] at hthis
  exact digest_of_h2Gate hthis

variable {σ : Type} [CognitionStore σ] {s : ServiceState σ} {handle : CognitionHandle}
  {grant : ExecutionGrant} {entry : Materialization} {next next' : Snapshot}

/-- The write is new, it is answered with the verdict Applied, and the successor
carries the snapshot. -/
def ServiceState.Lands (s : ServiceState σ) (handle : CognitionHandle)
    (transaction : ContextTransaction) (grant : ExecutionGrant) (next : Snapshot) : Prop :=
  s.resolveKey transaction = none ∧ ∃ verdict s' m,
    s.writeToCognition handle transaction grant = some (verdict, s') ∧
      verdict.outcome = .applied ∧ verdict.successor = some m ∧ m.state = next

theorem successor_of_lands (hlive : s.findLive handle = some entry)
    (hdecision : HasDecision transaction) (h : s.Lands handle transaction grant next) :
    ∃ rootPrincipal, successorOf entry.state rootPrincipal s.grantActor.binding transaction =
      .ok next := by
  obtain ⟨hkey, verdict, s', m, hwrite, happlied, hsuccessor, hstate⟩ := h
  obtain ⟨operation, hmem, -⟩ := hdecision
  obtain ⟨found, successor, hadmission, hcommit, -⟩ :=
    admission_of_applied hwrite happlied hkey (List.ne_nil_of_mem hmem)
  obtain ⟨governance, hadmitted⟩ := admission_eq_ok.mp hadmission
  obtain rfl : entry = found := Option.some.inj (hlive.symm.trans hadmitted.live)
  rcases commit_cases hcommit with ⟨-, hverdict, -⟩ | ⟨-, hverdict, -⟩ |
    ⟨-, minted, hminted, hverdict, -⟩
  · simp [hverdict, Verdict.refuse] at happlied
  · simp [hverdict] at happlied
  · rw [hverdict] at hsuccessor
    obtain rfl := Option.some.inj hsuccessor
    obtain rfl : successor = next := by
      rw [← hstate, hminted]
      rfl
    exact ⟨_, hadmitted.successor⟩

/-- The operations are fixed by the review or by hand, and so is the provenance
of the appended decisions. -/
def Fixed (current : Snapshot) (transaction transaction' : ContextTransaction) : Prop :=
  (ReviewsDecisions current ∨ transaction.operations = transaction'.operations) ∧
    (transaction.handoffEvidenceRef = transaction'.handoffEvidenceRef ∨
      ∀ operation ∈ transaction.operations, operation.kind ≠ .appendDecision)

/-- Two writes with equal evidence leave the same bytes where everything that
lands is fixed, and under a policy that reviews decisions only there. -/
theorem review_fixes_iff (hlive : s.findLive handle = some entry)
    (hdecision : HasDecision transaction) (hdecision' : HasDecision transaction')
    (hh2 : transaction.h2 = transaction'.h2)
    (hfree : digestOperations transaction.operations = digestOperations transaction'.operations →
      transaction.operations = transaction'.operations)
    (hlands : s.Lands handle transaction grant next)
    (hlands' : s.Lands handle transaction' grant next') :
    (Fixed entry.state transaction transaction' →
      serializeSnapshot next = serializeSnapshot next') ∧
    (ReviewsDecisions entry.state → serializeSnapshot next = serializeSnapshot next' →
      Fixed entry.state transaction transaction') := by
  obtain ⟨rootPrincipal, hsuccessor⟩ := successor_of_lands hlive hdecision hlands
  obtain ⟨rootPrincipal', hsuccessor'⟩ := successor_of_lands hlive hdecision' hlands'
  obtain ⟨hpolicy, -, -, -, rfl⟩ := successorOf_eq_ok.mp hsuccessor
  obtain ⟨hpolicy', -, -, -, rfl⟩ := successorOf_eq_ok.mp hsuccessor'
  have hsame : ReviewsDecisions entry.state ∨
      transaction.operations = transaction'.operations →
        transaction.operations = transaction'.operations := by
    rintro (hreviews | hsame)
    · obtain ⟨h2, hsome, hdigest⟩ := digest_of_policyGate hreviews hdecision hpolicy
      obtain ⟨h2', hsome', hdigest'⟩ := digest_of_policyGate hreviews hdecision' hpolicy'
      obtain rfl : h2 = h2' := Option.some.inj (hsome.symm.trans (hh2.trans hsome'))
      exact hfree (hdigest.symm.trans hdigest')
    · exact hsame
  have hbytes : transaction.operations = transaction'.operations →
      (serializeSnapshot (applyOperations transaction entry.state) =
          serializeSnapshot (applyOperations transaction' entry.state) ↔
        transaction.handoffEvidenceRef = transaction'.handoffEvidenceRef ∨
          ∀ operation ∈ transaction.operations, operation.kind ≠ .appendDecision) := by
    intro hoperations
    unfold applyOperations
    rw [← hoperations]
    exact serialize_template_eq_iff transaction.operations entry.state
  constructor
  · rintro ⟨hoperations, hreference⟩
    exact (hbytes (hsame hoperations)).mpr hreference
  · intro hreviews hserialized
    exact ⟨.inl hreviews, (hbytes (hsame (.inl hreviews))).mp hserialized⟩

end Review

/-! ## One review, two records -/

section Reviewed

open scoped QivenContext.Reference

/-- The reviewed decision, handed off under the reference. -/
def handedOff (reference key : Str) (base : RevisionId) : ContextTransaction :=
  { reviewed base [titledDecision 0] with
    handoffEvidenceRef := reference
    idempotencyKey := key }

theorem handedOff_hasDecision (reference key : Str) (base : RevisionId) :
    HasDecision (handedOff reference key base) :=
  ⟨_, List.mem_singleton_self _, rfl⟩

theorem handedOff_lands {s : ServiceState MemoryStore} {m : Materialization} {reference : Str}
    (honHead : OnHead s m) (hstate : m.state = makeGenesis)
    (hreceipts : ∀ key, s.receipts key = none) (hne : reference ≠ []) (key : Str) :
    s.Lands (some m) (handedOff reference key m.revision) firstGrant
      (applyOperations (handedOff reference key m.revision) makeGenesis) := by
  have hkey : s.resolveKey (handedOff reference key m.revision) = none :=
    resolveKey_fresh (hreceipts key)
  obtain ⟨t, m', hwrote⟩ := honHead.write_quiet (hstate ▸ genesis_quiet)
    (handedOff reference key m.revision) hkey rfl (List.cons_ne_nil _ _)
    (fun _ _ => policyGate_attested (by rw [hstate]; rfl) rfl hne)
    (by simp [handedOff, reviewed, titledDecision]) (by
      intro operation hmem
      obtain rfl := List.mem_singleton.mp hmem
      rw [hstate]
      exact titledDecision_passes rfl 0)
  obtain ⟨verdict, hverdict, hwrite⟩ := step_writeToCognition hwrote.step
  obtain rfl := Answer.verdict.inj hverdict
  exact ⟨hkey, _, t, m', hwrite, rfl, rfl, hstate ▸ hwrote.state⟩

/-- Under one reference the same bytes land, whatever key the request has. -/
theorem same_reference_same_bytes :
    ∃ (trs : List (ServiceTransition MemoryStore)) (s : ServiceState MemoryStore)
      (m : Materialization) (transaction transaction' : ContextTransaction)
      (next next' : Snapshot), ServiceRun (ServiceState.start {}) trs s ∧
        transaction ≠ transaction' ∧ s.Lands (some m) transaction firstGrant next ∧
        s.Lands (some m) transaction' firstGrant next' ∧
        serializeSnapshot next = serializeSnapshot next' := by
  obtain ⟨trs, s, m, hrun, honHead, hstate, -, -, hreceipts, -⟩ := exists_onHead
  have hne : lit "handoff" ≠ [] := by decide
  have hlands := handedOff_lands honHead hstate hreceipts hne []
  have hlands' := handedOff_lands honHead hstate hreceipts hne (lit "key")
  have hreviews : ReviewsDecisions m.state := by
    rw [hstate]
    exact ⟨_, rfl, rfl⟩
  refine ⟨trs, s, m, _, _, _, _, hrun, fun hsame => ?_, hlands, hlands',
    (review_fixes_iff honHead.findLive (handedOff_hasDecision _ [] _)
      (handedOff_hasDecision _ (lit "key") _) rfl (fun _ => rfl) hlands hlands').1
        ⟨.inl hreviews, .inl rfl⟩⟩
  have hkeys : [] = lit "key" := congrArg ContextTransaction.idempotencyKey hsame
  exact absurd hkeys (by decide)

/-- Of two writes with the same operations and the same review, both are applied
and the records differ in their provenance. -/
theorem reference_not_reviewed :
    ∃ (trs : List (ServiceTransition MemoryStore)) (s : ServiceState MemoryStore)
      (m : Materialization) (transaction transaction' : ContextTransaction)
      (next next' : Snapshot), ServiceRun (ServiceState.start {}) trs s ∧
        s.findLive (some m) = some m ∧ ReviewsDecisions m.state ∧ HasDecision transaction ∧
        transaction.h2 ≠ none ∧ transaction.h2 = transaction'.h2 ∧
        transaction.operations = transaction'.operations ∧
        s.Lands (some m) transaction firstGrant next ∧
        s.Lands (some m) transaction' firstGrant next' ∧
        serializeSnapshot next ≠ serializeSnapshot next' := by
  obtain ⟨trs, s, m, hrun, honHead, hstate, -, -, hreceipts, -⟩ := exists_onHead
  have hreviews : ReviewsDecisions m.state := by
    rw [hstate]
    exact ⟨_, rfl, rfl⟩
  refine ⟨trs, s, m, handedOff (lit "handoff") [] m.revision, handedOff (lit "other") [] m.revision,
    _, _, hrun, honHead.findLive, hreviews, handedOff_hasDecision _ _ _,
    by simp [handedOff, reviewed], rfl, rfl,
    handedOff_lands honHead hstate hreceipts (by decide) [],
    handedOff_lands honHead hstate hreceipts (by decide) [], fun hsame => ?_⟩
  rcases (serialize_template_eq_iff _ makeGenesis).mp hsame with href | hnone
  · have hreferences : lit "handoff" = lit "other" := href
    exact absurd hreferences (by decide)
  · exact hnone _ (List.mem_singleton_self _) rfl

end Reviewed

end QivenContext
