import QivenContext.Binding
import QivenContext.Wrap
import QivenContext.Reference

/-!
# What the digests hash

The pre-image of a request names its base, its operations and its evidence. It
has no frame of its own, but each field tells where it ends as long as its size
fits its four bytes: a text of `2 ^ 32` bytes is read as an empty one, and its
bytes as the evidence that follows.
-/

namespace QivenContext

open Library

section Requests

variable [Foundation]

/-- What the digest of a request hashes. -/
def requestBytes (transaction : ContextTransaction) : Bytes :=
  putStr transaction.base.value ++ putStr (digestOperations transaction.operations) ++
    putStr transaction.handoffEvidenceRef ++ putBool transaction.h2.isSome ++
    transaction.h2.elim [] putH2Evidence

theorem requestDigestOf_eq (transaction : ContextTransaction) :
    requestDigestOf transaction = draftContentId (requestBytes transaction) := rfl

end Requests

/-! ## The fields tell where they end -/

structure ShortH2 (h2 : H2Evidence) : Prop where
  reviewedDeltaDigest : short h2.reviewedDeltaDigest
  reviewer : short h2.reviewer
  reviewerBinding : short h2.reviewerBinding
  reviewRef : short h2.reviewRef

theorem delimited_putBool : Delimited (fun _ => True) putBool := by
  have hlength (value : Bool) : (putBool value).length = 1 := rfl
  refine .of_length hlength fun a b h => ?_
  cases a <;> cases b <;> simp_all [putBool, putU8]

theorem delimited_putH2Evidence : Delimited ShortH2 putH2Evidence := by
  intro a b rest rest' ha hb h
  simp only [putH2Evidence, List.append_assoc] at h
  obtain ⟨hdigest, h⟩ := delimited_putStr _ _ _ _ ha.reviewedDeltaDigest hb.reviewedDeltaDigest h
  obtain ⟨hreviewer, h⟩ := delimited_putStr _ _ _ _ ha.reviewer hb.reviewer h
  obtain ⟨hbinding, h⟩ := delimited_putStr _ _ _ _ ha.reviewerBinding hb.reviewerBinding h
  obtain ⟨href, h⟩ := delimited_putStr _ _ _ _ ha.reviewRef hb.reviewRef h
  refine ⟨?_, h⟩
  cases a
  cases b
  simp_all

/-- The presence and every field. -/
theorem h2_injective {h2 h2' : Option H2Evidence} (hshort : ∀ evidence ∈ h2, ShortH2 evidence)
    (hshort' : ∀ evidence ∈ h2', ShortH2 evidence)
    (h : putBool h2.isSome ++ h2.elim [] putH2Evidence =
      putBool h2'.isSome ++ h2'.elim [] putH2Evidence) : h2 = h2' := by
  obtain ⟨hpresent, h⟩ := delimited_putBool _ _ _ _ trivial trivial h
  cases h2 with
  | none =>
      cases h2' with
      | none => rfl
      | some evidence' => simp at hpresent
  | some evidence =>
      cases h2' with
      | none => simp at hpresent
      | some evidence' =>
          obtain ⟨rfl, -⟩ := delimited_putH2Evidence evidence evidence' [] [] (hshort _ rfl)
            (hshort' _ rfl) (congrArg (· ++ []) h)
          rfl

/-! ## Injective pre-images -/

/-- The strings that the digests hash are shorter than the bound. -/
structure StringsBelow (bound : ℕ) (transaction : ContextTransaction) : Prop where
  base : transaction.base.value.length < bound
  handoffEvidenceRef : transaction.handoffEvidenceRef.length < bound
  operations : ∀ operation ∈ transaction.operations, operation.scope.length < bound ∧
    operation.title.length < bound ∧ operation.payload.length < bound ∧
    operation.provenanceRef.length < bound
  h2 : ∀ h2 ∈ transaction.h2, h2.reviewedDeltaDigest.length < bound ∧
    h2.reviewer.length < bound ∧ h2.reviewerBinding.length < bound ∧ h2.reviewRef.length < bound

theorem StringsBelow.mono {bound bound' : ℕ} {transaction : ContextTransaction}
    (h : StringsBelow bound transaction) (hle : bound ≤ bound') :
    StringsBelow bound' transaction where
  base := h.base.trans_le hle
  handoffEvidenceRef := h.handoffEvidenceRef.trans_le hle
  operations operation hmem := by
    have := h.operations operation hmem
    omega
  h2 evidence hmem := by
    have := h.h2 evidence hmem
    omega

theorem StringsBelow.shortOperation {transaction : ContextTransaction}
    (h : StringsBelow (2 ^ 32) transaction) :
    ∀ operation ∈ transaction.operations, ShortOperation operation := by
  intro operation hmem
  obtain ⟨hscope, htitle, hpayload, hprovenance⟩ := h.operations operation hmem
  exact ⟨hscope, htitle, hpayload, hprovenance⟩

theorem StringsBelow.shortH2 {transaction : ContextTransaction}
    (h : StringsBelow (2 ^ 32) transaction) : ∀ evidence ∈ transaction.h2, ShortH2 evidence := by
  intro evidence hmem
  obtain ⟨hdigest, hreviewer, hbinding, href⟩ := h.h2 evidence hmem
  exact ⟨hdigest, hreviewer, hbinding, href⟩

section Preimages

variable [Foundation]

/-- The operation digest hashes no two lists of operations with short strings alike. -/
def OperationsInjective : Prop :=
  ∀ operations operations' : List Operation,
    (∀ operation ∈ operations, ShortOperation operation) →
    (∀ operation ∈ operations', ShortOperation operation) →
    operations.flatMap putOperation = operations'.flatMap putOperation → operations = operations'

/-- The same base, reference and evidence; and the same operations, unless their digest
collides. -/
structure SameRequest (transaction transaction' : ContextTransaction) : Prop where
  base : transaction.base = transaction'.base
  handoffEvidenceRef : transaction.handoffEvidenceRef = transaction'.handoffEvidenceRef
  h2 : transaction.h2 = transaction'.h2
  operations : (digestOperations transaction.operations =
        digestOperations transaction'.operations →
      transaction.operations.flatMap putOperation =
        transaction'.operations.flatMap putOperation) →
    transaction.operations = transaction'.operations

/-- The request digest hashes no two requests with strings below the bound alike. -/
def RequestsInjective (bound : ℕ) : Prop :=
  ∀ transaction transaction' : ContextTransaction, StringsBelow bound transaction →
    StringsBelow bound transaction' → requestBytes transaction = requestBytes transaction' →
    SameRequest transaction transaction'

omit [Foundation] in
theorem operationsInjective : OperationsInjective :=
  fun _ _ => flatMap_putOperation_injective

theorem short_digestOperations (hhex : ∀ value, (Foundation.toHexU64 value).length ≤ 16)
    (operations : List Operation) : short (digestOperations operations) := by
  have hlit : (lit "draft-").length = 6 := by decide
  have hdigits := hhex (Foundation.fnv1a64 (operations.flatMap putOperation))
  rw [short, digestOperations, draftContentId, List.length_append, hlit]
  omega

theorem requestsInjective (hhex : ∀ value, (Foundation.toHexU64 value).length ≤ 16) :
    RequestsInjective (2 ^ 32) := by
  intro transaction transaction' hbelow hbelow' h
  simp only [requestBytes, List.append_assoc] at h
  obtain ⟨hbase, h⟩ := delimited_putStr _ _ _ _ hbelow.base hbelow'.base h
  obtain ⟨hdigest, h⟩ := delimited_putStr _ _ _ _ (short_digestOperations hhex _)
    (short_digestOperations hhex _) h
  obtain ⟨hreference, h⟩ := delimited_putStr _ _ _ _ hbelow.handoffEvidenceRef
    hbelow'.handoffEvidenceRef h
  exact {
    base := by
      rcases htransaction : transaction.base
      rcases htransaction' : transaction'.base
      simp_all
    handoffEvidenceRef := hreference
    h2 := h2_injective hbelow.shortH2 hbelow'.shortH2 h
    operations := fun hfree => digestOperations_injective hbelow.shortOperation
      hbelow'.shortOperation hfree hdigest }

end Preimages

/-! ## A reference of `2 ^ 32` bytes -/

def reviewFill : Str := List.replicate (2 ^ 32 - 17) 0

/-- Evidence with a long review reference. -/
def longEvidence : H2Evidence where
  reviewRef := reviewFill ++ [0]

def reviewedRequest : ContextTransaction where
  h2 := some longEvidence

/-- Its reference is the bytes of that evidence, but for the last one. -/
def unreviewedRequest : ContextTransaction where
  handoffEvidenceRef := putBool true ++ putStr [] ++ putStr [] ++ putStr [] ++
    putU32 (UInt32.ofNat longEvidence.reviewRef.length) ++ reviewFill

theorem length_reviewRef : longEvidence.reviewRef.length = 2 ^ 32 - 16 := by
  rw [longEvidence, List.length_append, reviewFill, List.length_replicate]
  norm_num

theorem length_unreviewedRequest :
    unreviewedRequest.handoffEvidenceRef.length = 2 ^ 32 := by
  have hfront : (putBool true ++ putStr [] ++ putStr [] ++ putStr []).length = 13 := rfl
  rw [unreviewedRequest, List.length_append, List.length_append, hfront, length_putU32,
    reviewFill, List.length_replicate]
  norm_num

theorem requestBytes_collide [Foundation] :
    requestBytes unreviewedRequest = requestBytes reviewedRequest := by
  have hwrap : putU32 (UInt32.ofNat unreviewedRequest.handoffEvidenceRef.length) = putU32 0 :=
    putU32_wrap (by rw [length_unreviewedRequest]; norm_num)
  have hreference : putStr unreviewedRequest.handoffEvidenceRef =
      putU32 0 ++ unreviewedRequest.handoffEvidenceRef := by
    rw [putStr, hwrap]
  have hempty : putStr reviewedRequest.handoffEvidenceRef = putU32 0 := rfl
  have hevidence : putH2Evidence longEvidence = putStr [] ++ putStr [] ++ putStr [] ++
      (putU32 (UInt32.ofNat longEvidence.reviewRef.length) ++ (reviewFill ++ [0])) := rfl
  have hleft : requestBytes unreviewedRequest = putStr [] ++ putStr (digestOperations []) ++
      (putU32 0 ++ unreviewedRequest.handoffEvidenceRef) ++ [0] ++ [] := by
    rw [requestBytes, hreference]
    rfl
  have hright : requestBytes reviewedRequest = putStr [] ++ putStr (digestOperations []) ++
      putU32 0 ++ putBool true ++ putH2Evidence longEvidence := by
    rw [requestBytes, hempty]
    rfl
  -- the size is written as zero, so the reference goes on where the presence byte stands
  rw [hleft, hright, hevidence, unreviewedRequest]
  simp only [List.append_assoc, List.append_nil]

theorem reviewedRequest_below : StringsBelow (2 ^ 32 + 1) reviewedRequest where
  base := by simp [reviewedRequest]
  handoffEvidenceRef := by simp [reviewedRequest]
  operations operation hmem := by simp [reviewedRequest] at hmem
  h2 evidence hmem := by
    obtain rfl : longEvidence = evidence := Option.some.inj hmem
    rw [length_reviewRef]
    simp [longEvidence]

theorem unreviewedRequest_below : StringsBelow (2 ^ 32 + 1) unreviewedRequest where
  base := by simp [unreviewedRequest]
  handoffEvidenceRef := by rw [length_unreviewedRequest]; norm_num
  operations operation hmem := by simp [unreviewedRequest] at hmem
  h2 evidence hmem := by simp [unreviewedRequest] at hmem

theorem not_sameRequest [Foundation] : ¬ SameRequest unreviewedRequest reviewedRequest := by
  intro hsame
  have hpresent := congrArg Option.isSome hsame.h2
  simp [unreviewedRequest, reviewedRequest] at hpresent

/-- The pre-images are injective on strings below the bound, up to the size that four
bytes can tell. -/
theorem preimages_injective_iff [Foundation]
    (hhex : ∀ value, (Foundation.toHexU64 value).length ≤ 16) (bound : ℕ) :
    OperationsInjective ∧ RequestsInjective bound ↔ bound ≤ 2 ^ 32 := by
  constructor
  · rintro ⟨-, hrequests⟩
    by_contra hlong
    have hle : 2 ^ 32 + 1 ≤ bound := by omega
    exact not_sameRequest (hrequests _ _ (unreviewedRequest_below.mono hle)
      (reviewedRequest_below.mono hle) requestBytes_collide)
  · intro hle
    exact ⟨operationsInjective, fun transaction transaction' hbelow hbelow' =>
      requestsInjective hhex transaction transaction' (hbelow.mono hle) (hbelow'.mono hle)⟩

section Reference

open scoped Reference

theorem length_referenceHex (value : UInt64) : (Foundation.toHexU64 value).length ≤ 16 := by
  have hnibbles : ∀ width n, (Reference.nibbles width n).length = width := by
    intro width
    induction width with
    | zero => intro n; rfl
    | succ width ih => intro n; rw [Reference.nibbles, List.length_cons, ih]
  change (Reference.toHexU64 value).length ≤ 16
  rw [Reference.toHexU64, List.length_reverse, List.length_map, hnibbles]

theorem reference_requestsInjective : OperationsInjective ∧ RequestsInjective (2 ^ 32) :=
  (preimages_injective_iff length_referenceHex (2 ^ 32)).mpr le_rfl

/-- A reviewed request and one without a review have one pre-image. -/
theorem unreviewed_collides :
    ¬ (requestBytes unreviewedRequest = requestBytes reviewedRequest →
      SameRequest unreviewedRequest reviewedRequest) :=
  fun hsame => not_sameRequest (hsame requestBytes_collide)

end Reference

end QivenContext
