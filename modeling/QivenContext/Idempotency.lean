import QivenContext.Reference
import QivenContext.Scenario

/-!
# Idempotency keys and the lease

A key that once got past the store comparison is bound: its verdict is
recorded, and from then on every call with that key resolves before any gate.
So a key executes at most once, and a recorded key also goes round the lease.
-/

namespace QivenContext

open Library ServiceState

section Receipts

variable [Foundation] {σ : Type} [CognitionStore σ] {s s' t : ServiceState σ}
  {trs : List (ServiceTransition σ)} {key : Str}

/-! ## Receipts over runs -/

/-- The answer of the store to this call was not that the comparison failed. -/
def Executes (key : Str) (tr : ServiceTransition σ) : Prop :=
  ∃ handle transaction grant submission,
    tr.action = .writeToCognition handle transaction grant ∧
      transaction.idempotencyKey = key ∧ Commits tr submission

theorem receipt_persists_step {call : Call} {answer : Answer} {receipt : Receipt}
    (hreceipt : s.receipts key = some receipt) (hkeyed : key ≠ [])
    (h : s.step call = some (answer, s')) : s'.receipts key = some receipt := by
  rcases receipts_step h with hsame | ⟨handle, transaction, grant, verdict, submission, -, hne,
    hkey, -, -, -, -, hupdate⟩
  · rw [hsame, hreceipt]
  · have hother : key ≠ transaction.idempotencyKey := by
      rintro rfl
      simp [resolveKey, hkeyed, hreceipt] at hkey
    rw [hupdate, Function.update_of_ne hother, hreceipt]

theorem receipt_persists {receipt : Receipt} (hrun : ServiceRun s trs t)
    (hreceipt : s.receipts key = some receipt) (hkeyed : key ≠ []) :
    t.receipts key = some receipt := by
  induction hrun with
  | nil => exact hreceipt
  | cons tr rest t hvalid _ ih => exact ih (receipt_persists_step hreceipt hkeyed hvalid)

/-- What a recorded key answers in a state: the recorded verdict for the same
request, a key conflict for another, and nothing moves. -/
def Bound (t : ServiceState σ) (key : Str) (digest : Str) (verdict : Verdict) : Prop :=
  ∀ handle transaction grant, transaction.idempotencyKey = key →
    t.step (.writeToCognition handle transaction grant) = some (.verdict
      (if requestDigestOf transaction = digest then verdict else .refuse .keyConflict), t) ∧
    t.submits (.writeToCognition handle transaction grant) = none

theorem bound_of_receipt {digest : Str} {verdict : Verdict} (hkeyed : key ≠ [])
    (hreceipt : t.receipts key = some ⟨digest, verdict⟩) : Bound t key digest verdict := by
  rintro handle transaction grant rfl
  obtain ⟨hwrite, hsubmits⟩ := write_of_receipt handle grant hkeyed hreceipt
  exact ⟨by simp only [step, hwrite], hsubmits⟩

theorem bound_of_executes {tr : ServiceTransition σ} (hvalid : tr.Valid ServiceState.step)
    (hrest : ServiceRun tr.after trs t) (hkeyed : key ≠ []) {handle : CognitionHandle}
    {transaction : ContextTransaction} {grant : ExecutionGrant} {submission : Submission}
    (haction : tr.action = .writeToCognition handle transaction grant)
    (htransaction : transaction.idempotencyKey = key) (hcommits : Commits tr submission) :
    ∃ verdict, tr.answer = .verdict verdict ∧
      Bound t key (requestDigestOf transaction) verdict := by
  obtain ⟨before, action, answer, after⟩ := tr
  obtain rfl : action = _ := haction
  subst htransaction
  obtain ⟨verdict, hanswer, -, hreceipt⟩ := verdict_of_commits hvalid hcommits.1 hcommits.2
  exact ⟨verdict, hanswer,
    bound_of_receipt hkeyed (receipt_persists hrest (hreceipt hkeyed) hkeyed)⟩

/-- Over any store, at most one call with the key gets past the comparison, and
from then on its verdict is what the key means. -/
theorem key_executes_at_most_once {store : σ}
    (hrun : ServiceRun (ServiceState.start store) trs t) (hkeyed : key ≠ []) :
    (∀ (i j : ℕ) (tr tr' : ServiceTransition σ), trs[i]? = some tr → trs[j]? = some tr' →
      Executes key tr → Executes key tr' → i = j) ∧
    ∀ tr ∈ trs, ∀ handle transaction grant submission,
      tr.action = .writeToCognition handle transaction grant →
      transaction.idempotencyKey = key → Commits tr submission →
      ∃ verdict, tr.answer = .verdict verdict ∧
        Bound t key (requestDigestOf transaction) verdict := by
  have hbefore : ∀ (i j : ℕ) (tr tr' : ServiceTransition σ), i < j → trs[i]? = some tr →
      trs[j]? = some tr' → Executes key tr → ¬ Executes key tr' := by
    rintro i j tr tr' hlt hi hj ⟨handle, transaction, grant, submission, haction, hkey, hcommits⟩
      ⟨handle', transaction', grant', submission', haction', hkey', hcommits'⟩
    obtain ⟨hfirst, -⟩ := hrun.split_of_getElem? hj
    have hi' : (trs.take j)[i]? = some tr := by rw [List.getElem?_take_of_lt hlt, hi]
    obtain ⟨-, hbetween⟩ := hfirst.split_of_getElem? hi'
    have hvalid := hrun.valid_of_mem (List.mem_of_getElem? hi)
    obtain ⟨verdict, -, hbound⟩ := bound_of_executes hvalid hbetween hkeyed haction hkey hcommits
    have hnone := (hbound handle' transaction' grant' hkey').2
    have hsome := hcommits'.1
    rw [haction', hnone] at hsome
    simp at hsome
  refine ⟨fun i j tr tr' hi hj htr htr' => ?_, ?_⟩
  · rcases Nat.lt_trichotomy i j with hlt | heq | hgt
    · exact (hbefore i j tr tr' hlt hi hj htr htr').elim
    · exact heq
    · exact (hbefore j i tr' tr hgt hj hi htr' htr).elim
  · intro tr htr handle transaction grant submission haction hkey hcommits
    obtain ⟨i, hi⟩ := List.mem_iff_getElem?.mp htr
    obtain ⟨-, hrest⟩ := hrun.split_of_getElem? hi
    exact bound_of_executes (hrun.valid_of_mem htr) hrest hkeyed haction hkey hcommits

end Receipts

open scoped QivenContext.Reference in
/-- On the run with the keyed write, exactly one call executes the key. -/
theorem keyedEvidence_executes_once :
    ∃ (trs : List (ServiceTransition MemoryStore)) (t : ServiceState MemoryStore),
      ServiceRun (ServiceState.start {}) trs t ∧ ∃ tr ∈ trs, Executes (lit "key") tr ∧
        ∀ (i j : ℕ) (tr tr' : ServiceTransition MemoryStore), trs[i]? = some tr →
          trs[j]? = some tr' → Executes (lit "key") tr → Executes (lit "key") tr' → i = j := by
  obtain ⟨trs, s, m, t, m', hrun, -, hwrote, -⟩ := exists_keyedEvidence
  exact ⟨_, t, hwrote.run hrun, _, List.mem_append_right _ (List.mem_singleton_self _),
    ⟨some m, keyedEvidence m.revision, firstGrant, _, rfl, rfl, hwrote.commits⟩,
    (key_executes_at_most_once (hwrote.run hrun) (by decide)).1⟩

/-! ## The lease -/

section Lease

variable [Foundation] {σ : Type} [CognitionStore σ] {s s' t : ServiceState σ}
  {trs : List (ServiceTransition σ)} {key : Str}

/-- The verdict of the call is a refusal with the reason. -/
def Refuses (s : ServiceState σ) (handle : CognitionHandle) (transaction : ContextTransaction)
    (grant : ExecutionGrant) (reason : RefusalReason) : Prop :=
  ∃ s', s.writeToCognition handle transaction grant = some (.refuse reason, s')

/-- Gates 0, 1 and 2 decide the verdict whenever one of them fails. -/
structure LeaseFenced (s : ServiceState σ) (handle : CognitionHandle)
    (transaction : ContextTransaction) (grant : ExecutionGrant) : Prop where
  unknown : s.findLive handle = none → Refuses s handle transaction grant .staleBase
  quarantined : ∀ entry, s.findLive handle = some entry → entry.quarantine ≠ .promoted →
    Refuses s handle transaction grant .governanceDenied
  lease : ∀ entry, s.findLive handle = some entry → entry.quarantine = .promoted →
    s.activeGrantId.isEmpty ∨ s.activeGrantId ≠ grant.id →
    Refuses s handle transaction grant .grantRefused
  actor : ∀ entry, s.findLive handle = some entry → entry.quarantine = .promoted →
    s.activeGrantId.isEmpty = false → s.activeGrantId = grant.id →
    s.verifies s.grantActor = false → Refuses s handle transaction grant .unverifiedActor

theorem receipt_not_refused {store : σ} (hrun : ServiceRun (ServiceState.start store) trs t) :
    ∀ receipt, t.receipts key = some receipt → receipt.outcome.outcome ≠ .refused := by
  refine hrun.invariant (P := fun s => ∀ receipt, s.receipts key = some receipt →
    receipt.outcome.outcome ≠ .refused) (C := fun _ => True) (fun _ _ => trivial) ?_ ?_
  · intro receipt hreceipt
    simp [ServiceState.start] at hreceipt
  · intro tr hvalid _ hbefore receipt hreceipt
    rcases receipts_step hvalid with hsame | ⟨handle, transaction, grant, verdict, submission, -,
      -, -, -, houtcome, -, -, hupdate⟩
    · exact hbefore receipt (hsame ▸ hreceipt)
    · by_cases hkey : key = transaction.idempotencyKey
      · subst hkey
        rw [hupdate, Function.update_self] at hreceipt
        exact Option.some.inj hreceipt ▸ houtcome
      · rw [hupdate, Function.update_of_ne hkey] at hreceipt
        exact hbefore receipt hreceipt

theorem leaseGates_cases (s : ServiceState σ) (handle : CognitionHandle)
    (grant : ExecutionGrant) :
    (s.findLive handle = none ∧ s.leaseGates handle grant = .error (.refuse .staleBase)) ∨
    ∃ entry, s.findLive handle = some entry ∧
      ((entry.quarantine ≠ .promoted ∧
        s.leaseGates handle grant = .error (.refuse .governanceDenied)) ∨
      (entry.quarantine = .promoted ∧ (s.activeGrantId.isEmpty ∨ s.activeGrantId ≠ grant.id) ∧
        s.leaseGates handle grant = .error (.refuse .grantRefused)) ∨
      (entry.quarantine = .promoted ∧ s.activeGrantId.isEmpty = false ∧
        s.activeGrantId = grant.id ∧ s.verifies s.grantActor = false ∧
        s.leaseGates handle grant = .error (.refuse .unverifiedActor)) ∨
      (entry.quarantine = .promoted ∧ s.activeGrantId.isEmpty = false ∧
        s.activeGrantId = grant.id ∧ s.verifies s.grantActor = true ∧
        ∃ governance, s.leaseGates handle grant = .ok (entry, governance))) := by
  unfold leaseGates
  cases hfind : s.findLive handle with
  | none => exact .inl ⟨rfl, rfl⟩
  | some entry =>
      refine .inr ⟨entry, rfl, ?_⟩
      by_cases hpromoted : entry.quarantine = .promoted
      · by_cases hlease : s.activeGrantId.isEmpty ∨ s.activeGrantId ≠ grant.id
        · exact .inr (.inl ⟨hpromoted, hlease, by simp [hpromoted, hlease]⟩)
        · have hlease' : s.activeGrantId.isEmpty = false ∧ s.activeGrantId = grant.id := by
            simpa using hlease
          refine .inr (.inr ?_)
          dsimp only
          rw [if_neg (not_not.mpr hpromoted), if_neg hlease]
          unfold verifies
          cases hhead : s.canonicalHead with
          | none => exact .inl ⟨hpromoted, hlease'.1, hlease'.2, rfl, rfl⟩
          | some governance =>
              cases hidentity : s.identity with
              | none => exact .inl ⟨hpromoted, hlease'.1, hlease'.2, rfl, rfl⟩
              | some verifier =>
                  cases hverified : verifier s.grantActor governance with
                  | false =>
                      exact .inl ⟨hpromoted, hlease'.1, hlease'.2, hverified, by simp [hverified]⟩
                  | true =>
                      exact .inr ⟨hpromoted, hlease'.1, hlease'.2, hverified, governance,
                        by simp [hverified]⟩
      · exact .inl ⟨hpromoted, by simp [hpromoted]⟩

theorem write_of_leaseGates_error {handle : CognitionHandle} {transaction : ContextTransaction}
    {grant : ExecutionGrant} {reason : RefusalReason} (hkey : s.resolveKey transaction = none)
    (h : s.leaseGates handle grant = .error (.refuse reason)) :
    Refuses s handle transaction grant reason := by
  have hadmission : s.admission handle transaction grant = .error (.refuse reason) := by
    simp only [admission, h]
    rfl
  exact ⟨s, by simp only [writeToCognition, hkey, hadmission]⟩

/-- In a reachable state the lease fences a call exactly when its key resolves
to nothing, or the gates of the lease pass anyway. -/
theorem leaseFenced_iff {store : σ} (hrun : ServiceRun (ServiceState.start store) trs s)
    (handle : CognitionHandle) (transaction : ContextTransaction) (grant : ExecutionGrant) :
    LeaseFenced s handle transaction grant ↔
      transaction.idempotencyKey = [] ∨ s.receipts transaction.idempotencyKey = none ∨
      ∃ entry governance, s.leaseGates handle grant = .ok (entry, governance) := by
  constructor
  · intro hfenced
    by_contra hnot
    simp only [not_or, not_exists] at hnot
    obtain ⟨hkeyed, hreceipt, hgates⟩ := hnot
    obtain ⟨receipt, hreceipt⟩ := Option.ne_none_iff_exists'.mp hreceipt
    have hwrite := (write_of_receipt handle grant hkeyed hreceipt).1
    have houtcome := receipt_not_refused hrun receipt hreceipt
    have hno : ∀ reason, reason ≠ .keyConflict → ¬ Refuses s handle transaction grant reason := by
      rintro reason hreason ⟨s', hrefused⟩
      rw [hwrite] at hrefused
      obtain ⟨hverdict, -⟩ := Prod.mk.inj (Option.some.inj hrefused)
      split at hverdict
      · exact houtcome (by rw [hverdict]; rfl)
      · exact hreason (by simpa [Verdict.refuse] using hverdict.symm)
    rcases leaseGates_cases s handle grant with ⟨hfind, -⟩ | ⟨entry, hfind, hcases⟩
    · exact hno _ (by decide) (hfenced.unknown hfind)
    · rcases hcases with ⟨hquarantine, -⟩ | ⟨hpromoted, hlease, -⟩ |
        ⟨hpromoted, hlease, hid, hverified, -⟩ | ⟨-, -, -, -, governance, hpass⟩
      · exact hno _ (by decide) (hfenced.quarantined entry hfind hquarantine)
      · exact hno _ (by decide) (hfenced.lease entry hfind hpromoted hlease)
      · exact hno _ (by decide) (hfenced.actor entry hfind hpromoted hlease hid hverified)
      · exact hgates entry governance hpass
  · intro h
    have hresolve : (∃ entry governance, s.leaseGates handle grant = .ok (entry, governance)) ∨
        s.resolveKey transaction = none := by
      rcases h with hkey | hreceipt | hpass
      · exact .inr (by simp [resolveKey, hkey])
      · exact .inr (by simp [resolveKey, hreceipt])
      · exact .inl hpass
    have hrefuse : ∀ reason, s.leaseGates handle grant = .error (.refuse reason) →
        Refuses s handle transaction grant reason := by
      intro reason herror
      rcases hresolve with ⟨entry, governance, hpass⟩ | hkey
      · rw [hpass] at herror
        simp at herror
      · exact write_of_leaseGates_error hkey herror
    rcases leaseGates_cases s handle grant with ⟨hfind, hgate⟩ | ⟨entry, hfind, hcases⟩
    · refine ⟨fun _ => hrefuse _ hgate, ?_, ?_, ?_⟩ <;> simp [hfind]
    · rcases hcases with ⟨hquarantine, hgate⟩ | ⟨hpromoted, hlease, hgate⟩ |
        ⟨hpromoted, hlease, hid, hverified, hgate⟩ | ⟨hpromoted, hlease, hid, hverified, -⟩
      · refine ⟨by simp [hfind], fun _ _ _ => hrefuse _ hgate, ?_, ?_⟩ <;>
          simp_all
      · refine ⟨by simp [hfind], by simp_all, fun _ _ _ _ => hrefuse _ hgate, ?_⟩
        intro other hother _ hactive hid
        exact (hlease.elim (fun h => Bool.eq_false_iff.mp hactive h) fun h => h hid).elim
      · refine ⟨by simp [hfind], by simp_all, ?_, fun _ _ _ _ _ _ => hrefuse _ hgate⟩
        intro other hother _ hmissing
        exact (hmissing.elim (fun h => Bool.eq_false_iff.mp hlease h) fun h => h hid).elim
      · refine ⟨by simp [hfind], by simp_all, ?_, by simp_all⟩
        intro other hother _ hmissing
        exact (hmissing.elim (fun h => Bool.eq_false_iff.mp hlease h) fun h => h hid).elim

end Lease

/-! ## A released grant -/

section Released

open scoped QivenContext.Reference

/-- On the head, before anything is released, the lease fences a call. -/
theorem leaseFenced_keyedEvidence :
    ∃ (trs : List (ServiceTransition MemoryStore)) (s : ServiceState MemoryStore),
      ServiceRun (ServiceState.start {}) trs s ∧ (s.receipts (lit "key") = none) ∧
        (LeaseFenced s none (keyedEvidence {}) firstGrant ↔
          (keyedEvidence {}).idempotencyKey = [] ∨
            s.receipts (keyedEvidence {}).idempotencyKey = none ∨
            ∃ entry governance, s.leaseGates none firstGrant = .ok (entry, governance)) := by
  obtain ⟨trs, s, m, hrun, -, -, -, -, hreceipts, -⟩ := exists_onHead
  exact ⟨trs, s, hrun, hreceipts _, leaseFenced_iff hrun none (keyedEvidence {}) firstGrant⟩

/-- After the keyed write its grant is released, and the same request under the
released grant is answered `applied`. -/
theorem released_grant_applied :
    ∃ (trs : List (ServiceTransition MemoryStore)) (s : ServiceState MemoryStore)
      (m : Materialization) (transaction : ContextTransaction) (verdict : Verdict),
      ServiceRun (ServiceState.start {}) trs s ∧ s.findLive (some m) = some m ∧
        m.quarantine = .promoted ∧ s.activeGrantId.isEmpty ∧
        s.writeToCognition (some m) transaction firstGrant = some (verdict, s) ∧
        verdict.outcome = .applied ∧ ¬ LeaseFenced s (some m) transaction firstGrant := by
  obtain ⟨trs, s, m, t, m', hrun, -, hwrote, -, -, hreceipt⟩ := exists_keyedEvidence
  have hafter := hwrote.onHead
  let released := t.releaseGrant firstGrant
  have hreleased : released = { t with activeGrantId := {}, grantActor := {} } := by
    simp only [released, releaseGrant, if_pos hafter.lease]
  have hstep : t.step (.releaseGrant firstGrant) = some (.done, released) := rfl
  have hlive : released.findLive (some m') = some m' := by
    rw [hreleased]
    exact hafter.findLive
  have hactive : released.activeGrantId.isEmpty = true := by
    rw [hreleased]
    rfl
  have hkeyed : (keyedEvidence m.revision).idempotencyKey ≠ [] :=
    (by decide : lit "key" ≠ [])
  have hreceipt' : released.receipts (keyedEvidence m.revision).idempotencyKey = some
      ⟨requestDigestOf (keyedEvidence m.revision),
        { outcome := .applied, successor := some m' }⟩ := by
    rw [hreleased]
    exact hreceipt
  have hwrite := (write_of_receipt (some m') firstGrant hkeyed hreceipt').1
  rw [if_pos rfl] at hwrite
  refine ⟨_, released, m', keyedEvidence m.revision, _, (hwrote.run hrun).snoc hstep, hlive,
    hafter.promoted, hactive, hwrite, rfl, fun hfenced => ?_⟩
  obtain ⟨s', hrefused⟩ := hfenced.lease m' hlive hafter.promoted (.inl hactive)
  rw [hwrite] at hrefused
  simp [Verdict.refuse] at hrefused

end Released

end QivenContext
