import QivenContext.Library.Words
import QivenContext.Bundle
import QivenContext.Control

/-!
# Failure fingerprints

The message of a failure is read word by word, and the words that change from
one run to the next are dropped. What is left says whether a retry repeats the
failure: two messages are equal after that exactly when they have the same
stable words.
-/

namespace QivenContext

open Library

/-! ## The normalization -/

/-- Space, tab and newline. -/
def isBlank (c : UInt8) : Bool := c = 32 ∨ c = 9 ∨ c = 10

/-- A timestamp or a large id, or a fragment of a temporary path. -/
def volatileToken (word : Str) : Bool :=
  4 ≤ word.countP isDigit ∨ lit "tmp" <:+: word ∨ lit ".generated-temp" <:+: word

/-- What `flush` does with a word that is not empty. -/
def keepStable (out word : Str) : Str :=
  if volatileToken word then out else (if out.isEmpty then out else out ++ [32]) ++ word

def normalizeFailureText (message : Str) : Str :=
  ((message.foldl (Scan.read isBlank keepStable) ⟨[], []⟩).flush keepStable).out

structure RetryEvidenceState where
  hasNewEvidence : Bool := false
  deriving DecidableEq, Inhabited

def retryPermitted (prior : FailureFingerprint) (candidate : ActionIntent)
    (evidence : RetryEvidenceState) : Bool :=
  if evidence.hasNewEvidence then true
  else
    let sameOperation : Bool :=
      candidate.tool = prior.tool ∧ candidate.operation = prior.operation
    let message := match candidate.priorFailure with
      | some failure => failure.stableMessage
      | none => prior.stableMessage
    let sameSignature : Bool :=
      normalizeFailureText message = normalizeFailureText prior.stableMessage
    !(sameOperation && sameSignature)

/-! ## Stable words -/

def stableWords (message : Str) : List Str :=
  (wordsOf isBlank message).filter fun word => !volatileToken word

theorem mem_stableWords {message word : Str} (h : word ∈ stableWords message) :
    (word ≠ [] ∧ ∀ c ∈ word, isBlank c = false) ∧ volatileToken word = false := by
  obtain ⟨hmem, hstable⟩ := List.mem_filter.mp h
  exact ⟨mem_wordsOf hmem, by simpa using hstable⟩

/-- Handing on the words one by one joins those that are stable. -/
theorem foldl_keepStable {words : List Str} (hwords : ∀ word ∈ words, word ≠ [])
    {kept : List Str} (hkept : ∀ word ∈ kept, word ≠ []) :
    words.foldl keepStable (joinWords 32 kept) =
      joinWords 32 (kept ++ words.filter fun word => !volatileToken word) := by
  induction words generalizing kept with
  | nil => simp
  | cons word words ih =>
      obtain ⟨hword, hrest⟩ := List.forall_mem_cons.mp hwords
      rw [List.foldl_cons, keepStable]
      by_cases hvolatile : volatileToken word = true
      · rw [if_pos hvolatile, ih hrest hkept, List.filter_cons_of_neg (by simpa using hvolatile)]
      · have hjoined : (if (joinWords 32 kept).isEmpty then joinWords 32 kept
            else joinWords 32 kept ++ [32]) ++ word = joinWords 32 (kept ++ [word]) := by
          rw [joinWords_concat]
          by_cases hnil : kept = []
          · subst hnil
            rfl
          · rw [if_neg (by simpa using mt (joinWords_eq_nil hkept).mp hnil), if_neg hnil]
        rw [if_neg hvolatile, hjoined,
          ih hrest (by simpa [or_imp, forall_and] using ⟨hkept, hword⟩),
          List.filter_cons_of_pos (by simpa using hvolatile), List.append_assoc,
          List.singleton_append]

theorem normalizeFailureText_eq (message : Str) :
    normalizeFailureText message = joinWords 32 (stableWords message) := by
  have hloop := Scan.flush_foldl_read isBlank keepStable []
    (List.forall_mem_nil fun c => isBlank c = false) message
  rw [normalizeFailureText, hloop, List.nil_append]
  exact foldl_keepStable (fun word hword => (mem_wordsOf hword).1)
    (List.forall_mem_nil fun word : Str => word ≠ [])

/-- The words of a normalized message are the stable words of the message. -/
theorem wordsOf_normalizeFailureText (message : Str) :
    wordsOf isBlank (normalizeFailureText message) = stableWords message := by
  rw [normalizeFailureText_eq]
  exact wordsOf_joinWords rfl fun word hword => (mem_stableWords hword).1

theorem stableWords_normalizeFailureText (message : Str) :
    stableWords (normalizeFailureText message) = stableWords message := by
  rw [stableWords, wordsOf_normalizeFailureText, List.filter_eq_self]
  intro word hword
  simpa using (mem_stableWords hword).2

theorem normalizeFailureText_inj {message other : Str} :
    normalizeFailureText message = normalizeFailureText other ↔
      stableWords message = stableWords other := by
  refine ⟨fun h => ?_, fun h => ?_⟩
  · rw [← wordsOf_normalizeFailureText, h, wordsOf_normalizeFailureText]
  · rw [normalizeFailureText_eq, h, ← normalizeFailureText_eq]

/-- Words that are all volatile leave no trace. -/
theorem stableWords_insert {before inserted after : Str} (h : Gap isBlank before after)
    (hbefore : Gap isBlank before inserted) (hafter : Gap isBlank inserted after)
    (hvolatile : ∀ word ∈ wordsOf isBlank inserted, volatileToken word = true) :
    stableWords (before ++ inserted ++ after) = stableWords (before ++ after) := by
  have hnone : (wordsOf isBlank inserted).filter (fun word => !volatileToken word) = [] := by
    rw [List.filter_eq_nil_iff]
    intro word hword
    simpa using hvolatile word hword
  rw [stableWords, stableWords, h.wordsOf_insert hbefore hafter, h.wordsOf_append,
    List.filter_append, List.filter_append, List.filter_append, hnone, List.append_nil]

/-- The message whose signature is compared with the prior one. -/
def retryMessage (prior : FailureFingerprint) (candidate : ActionIntent) : Str :=
  (candidate.priorFailure.map fun failure => failure.stableMessage).getD prior.stableMessage

theorem retryPermitted_eq_false {prior : FailureFingerprint} {candidate : ActionIntent}
    {evidence : RetryEvidenceState} (hevidence : evidence.hasNewEvidence = false) :
    retryPermitted prior candidate evidence = false ↔
      candidate.tool = prior.tool ∧ candidate.operation = prior.operation ∧
        stableWords (retryMessage prior candidate) = stableWords prior.stableMessage := by
  have hmessage : (match candidate.priorFailure with
      | some failure => failure.stableMessage
      | none => prior.stableMessage) = retryMessage prior candidate := by
    unfold retryMessage
    cases candidate.priorFailure <;> rfl
  simp only [retryPermitted, hevidence, hmessage, normalizeFailureText_inj]
  simp [and_assoc]

/-- A normalized message is its stable words, joined by single spaces. It is
normal itself, volatile words and blanks between words do not change it, and a
retry without new evidence is refused for the same operation of the same tool
with the same stable words. -/
theorem normalizeFailureText_stable :
    (∀ message, ∃ words, Words isBlank message words) ∧
      (∀ message words, Words isBlank message words → normalizeFailureText message =
        joinWords 32 (words.filter fun word => !volatileToken word)) ∧
      (∀ message,
        normalizeFailureText (normalizeFailureText message) = normalizeFailureText message) ∧
      (∀ before inserted after, Gap isBlank before after → Gap isBlank before inserted →
        Gap isBlank inserted after →
        (∀ word ∈ wordsOf isBlank inserted, volatileToken word = true) →
        normalizeFailureText (before ++ inserted ++ after) =
          normalizeFailureText (before ++ after)) ∧
      ∀ prior candidate evidence, evidence.hasNewEvidence = false →
        (retryPermitted prior candidate evidence = false ↔
          candidate.tool = prior.tool ∧ candidate.operation = prior.operation ∧
            stableWords (retryMessage prior candidate) = stableWords prior.stableMessage) := by
  refine ⟨exists_words isBlank, ?_, ?_, ?_, ?_⟩
  · intro message words hwords
    rw [normalizeFailureText_eq, stableWords, hwords.eq_wordsOf]
  · intro message
    rw [normalizeFailureText_inj, stableWords_normalizeFailureText]
  · intro before inserted after hgap hbefore hafter hvolatile
    rw [normalizeFailureText_inj, stableWords_insert hgap hbefore hafter hvolatile]
  · intro prior candidate evidence hevidence
    exact retryPermitted_eq_false hevidence

theorem volatile_inserted :
    normalizeFailureText (lit "exit 2 tmp/x 20260101 at") = normalizeFailureText (lit "exit 2 at") ∧
      retryPermitted { stableMessage := lit "exit 2 at 20260101" }
        { priorFailure := some { stableMessage := lit "exit  2\tat tmp/x" } } {} = false := by
  refine ⟨?_, ?_⟩
  · have hinserted : ∀ c ∈ (lit " tmp/x 20260101").head?, isBlank c = true :=
      (Option.all_eq_true _ _).mp (by decide)
    have hafter : ∀ c ∈ (lit " at").head?, isBlank c = true :=
      (Option.all_eq_true _ _).mp (by decide)
    exact normalizeFailureText_stable.2.2.2.1 (lit "exit 2") (lit " tmp/x 20260101")
      (lit " at") (.inr hafter) (.inr hinserted) (.inr hafter) (by decide +kernel)
  · exact (normalizeFailureText_stable.2.2.2.2 _ _ _ rfl).mpr ⟨rfl, rfl, by decide +kernel⟩

end QivenContext
