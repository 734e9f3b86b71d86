import QivenContext.Wrap
import QivenContext.Library.HashChain

/-!
# The stored history

The revisions of the memory are linked by the hash of their base, so as long
as no two of them collide an id names one revision, and a write from the head
applies its transaction to what the head stands for. The memory is then the
fold of the transactions that landed, whatever clients did in between.
-/

namespace QivenContext

open Library Snapshot ServiceState

section Histories

variable [Foundation] {σ : Type} [MemoryBacked σ] {s s' t : ServiceState σ}
  {trs past : List (ServiceTransition σ)} {tr : ServiceTransition σ} {P : Snapshot → Prop}

/-! ## The chain of revisions -/

/-- No two stored revisions have one id for different bases or bytes. -/
def Collisionless (s : ServiceState σ) : Prop :=
  HashChain.CollisionFree revisionOf {} s.memory.revisions

def Chained (s : ServiceState σ) : Prop :=
  HashChain.Linked revisionOf {} s.memory.revisions

theorem baseAt_length (s : ServiceState σ) :
    HashChain.baseAt {} s.memory.revisions s.memory.revisions.length = s.memory.head := by
  rw [HashChain.baseAt_length, s.memory.head_eq]

theorem chained_of_run {store : σ} (hempty : (MemoryBacked.memory store).revisions = [])
    (hrun : ServiceRun (ServiceState.start store) trs t) : Chained t := by
  refine hrun.invariant (P := Chained) (C := fun _ => True) (fun _ _ => trivial) ?_ ?_
  · have hnil : (ServiceState.start store).memory.revisions = [] := hempty
    rw [Chained, hnil]
    exact HashChain.linked_nil
  · intro tr hvalid _ hbefore
    by_cases hchange : tr.after.memory = tr.before.memory
    · rw [Chained, hchange]
      exact hbefore
    · obtain ⟨submission, hsubmits, -, hbase, hmemory⟩ := submits_of_memory_ne hvalid hchange
      have happend := HashChain.Linked.append hbefore (serializeSnapshot submission.snapshot)
      rw [baseAt_length, ← base_of_append hsubmits hbase] at happend
      rw [Chained, hmemory]
      exact happend

theorem collisionless_of_pair {store : σ} (hempty : (MemoryBacked.memory store).revisions = [])
    (hrun : ServiceRun (ServiceState.start store) trs t) {first second : RevisionId × Bytes}
    (hrevisions : t.memory.revisions = [first, second]) (hne : second.1 ≠ first.1) :
    Collisionless t := by
  refine (chained_of_run hempty hrun).collisionFree ?_
  rw [hrevisions]
  simpa using Ne.symm hne

theorem Collisionless.before (hvalid : tr.Valid ServiceState.step)
    (h : Collisionless tr.after) : Collisionless tr.before := by
  obtain ⟨tail, htail⟩ := memory_prefix_step hvalid
  unfold Collisionless at h ⊢
  rw [← htail] at h
  exact h.of_append

/-- A revision id names one revision. -/
theorem bytes_unique (hchained : Chained s) (hfree : Collisionless s)
    (hnamed : ∀ entry ∈ s.memory.revisions, entry.1 ≠ {}) {p q : RevisionId × Bytes}
    (hp : p ∈ s.memory.revisions) (hq : q ∈ s.memory.revisions) (hkey : p.1 = q.1) :
    p.2 = q.2 := by
  obtain ⟨i, hi⟩ := List.mem_iff_getElem?.mp hp
  obtain ⟨j, hj⟩ := List.mem_iff_getElem?.mp hq
  obtain rfl := HashChain.position_unique hchained hfree hnamed hi hj hkey
  rw [hi] at hj
  exact congrArg Prod.snd (Option.some.inj hj)

/-- An authoritative entry on the head stands for the bytes of the head. -/
theorem Rooted.headBytes (h : Rooted P s) (hchained : Chained s) (hfree : Collisionless s)
    {entry : Materialization} (hlive : entry ∈ s.live) (hpromoted : entry.quarantine = .promoted)
    (hhead : entry.revision = s.memory.head) (hne : s.memory.revisions ≠ []) :
    s.memory.headBytes = some (serializeSnapshot entry.state) := by
  obtain ⟨bytes, hbytes⟩ := Option.ne_none_iff_exists'.mp
    (mt MemoryStore.headBytes_eq_none.mp hne)
  have hsame := bytes_unique hchained hfree h.named (h.faithful entry hlive hpromoted)
    (MemoryStore.head_mem hbytes) hhead
  rw [hbytes]
  exact congrArg some hsame.symm

/-! ## Landed writes -/

/-- The transition takes the memory from revision `k` as its head to revision
`k + 1`, by a write whose base is revision `k`; the world it leaves is the
world it found with the transaction applied. -/
def Lands (world : ℕ → Snapshot) (revisions : List (RevisionId × Bytes))
    (tr : ServiceTransition σ) (k : ℕ) : Prop :=
  ∃ handle transaction grant verdict base,
    tr.action = .writeToCognition handle transaction grant ∧ tr.answer = .verdict verdict ∧
      (verdict.outcome = .applied ∨ verdict.outcome = .outcomeUnknown) ∧
      revisions[k]?.map Prod.fst = some base ∧ transaction.base = base ∧
      tr.before.memory.head = base ∧ tr.before.memory.revisions = revisions.take (k + 1) ∧
      tr.after.memory.revisions = revisions.take (k + 2) ∧
      world (k + 1) = applyOperations transaction (world k)

/-- The write applied its transaction to the head, and got the bytes of the
head again. -/
def Reproduces (world : ℕ → Snapshot) (tr : ServiceTransition σ)
    (transaction : ContextTransaction) : Prop :=
  tr.after.memory = tr.before.memory ∧ transaction.base = tr.before.memory.head ∧
    ∃ k, tr.before.memory.revisions.length = k + 1 ∧ tr.before.memory.headBytes =
      some (serializeSnapshot (applyOperations transaction (world k)))

/-- One chain of worlds: genesis is stored first, every further revision is
the landing of exactly one write, nothing else moves the memory, and no
applied write is lost. -/
structure LinearHistory (world : ℕ → Snapshot) (trs : List (ServiceTransition σ))
    (t : ServiceState σ) : Prop where
  genesis : world 0 = makeGenesis
  stored : ∀ k entry, t.memory.revisions[k]? = some entry →
    entry.2 = serializeSnapshot (world k)
  landed : ∀ k, k + 1 < t.memory.revisions.length →
    ∃! i : ℕ, ∃ tr : ServiceTransition σ, trs[i]? = some tr ∧
      Lands world t.memory.revisions tr k
  moved : ∀ tr ∈ trs, tr.after.memory ≠ tr.before.memory →
    Boots tr ∨ ∃ k, Lands world t.memory.revisions tr k
  applied : ∀ tr ∈ trs, ∀ handle transaction grant verdict,
    tr.action = .writeToCognition handle transaction grant → tr.answer = .verdict verdict →
    verdict.outcome = .applied → tr.before.resolveKey transaction = none →
    transaction.operations ≠ [] →
      (∃ k, Lands world t.memory.revisions tr k) ∨ Reproduces world tr transaction

/-- What the induction on the run carries: the worlds as far as their bytes
determine them, and the landings, each found in the past. -/
structure HistorySoFar (world : ℕ → Snapshot) (past : List (ServiceTransition σ))
    (s : ServiceState σ) : Prop where
  genesis : world 0 = makeGenesis
  stored : ∀ k entry, s.memory.revisions[k]? = some entry →
    ∃ snapshot, Fits snapshot ∧ restored snapshot = restored (world k) ∧
      entry.2 = serializeSnapshot snapshot
  landed : ∀ k, k + 1 < s.memory.revisions.length →
    ∃ tr ∈ past, Lands world s.memory.revisions tr k
  moved : ∀ tr ∈ past, tr.after.memory ≠ tr.before.memory →
    Boots tr ∨ ∃ k, k + 1 < s.memory.revisions.length ∧ Lands world s.memory.revisions tr k
  applied : ∀ tr ∈ past, ∀ handle transaction grant verdict,
    tr.action = .writeToCognition handle transaction grant → tr.answer = .verdict verdict →
    verdict.outcome = .applied → tr.before.resolveKey transaction = none →
    transaction.operations ≠ [] →
      (∃ k, k + 1 < s.memory.revisions.length ∧ Lands world s.memory.revisions tr k) ∨
        tr.before.memory.revisions.length ≤ s.memory.revisions.length ∧
          Reproduces world tr transaction

theorem Lands.append {world world' : ℕ → Snapshot} {revisions tail : List (RevisionId × Bytes)}
    {k : ℕ} (h : Lands world revisions tr k) (hk : k + 1 < revisions.length)
    (hworld : ∀ j < revisions.length, world' j = world j) :
    Lands world' (revisions ++ tail) tr k := by
  obtain ⟨handle, transaction, grant, verdict, base, haction, hanswer, houtcome, hbase,
    htransaction, hhead, hbefore, hafter, hnext⟩ := h
  refine ⟨handle, transaction, grant, verdict, base, haction, hanswer, houtcome, ?_,
    htransaction, hhead, ?_, ?_, ?_⟩
  · rw [List.getElem?_append_left (by omega), hbase]
  · rw [List.take_append_of_le_length (by omega), hbefore]
  · rw [List.take_append_of_le_length (by omega), hafter]
  · rw [hworld (k + 1) hk, hworld k (by omega), hnext]

theorem Reproduces.append {world world' : ℕ → Snapshot} {transaction : ContextTransaction}
    {count : ℕ} (h : Reproduces world tr transaction)
    (hcount : tr.before.memory.revisions.length ≤ count)
    (hworld : ∀ j < count, world' j = world j) : Reproduces world' tr transaction := by
  obtain ⟨hsame, hbase, k, hlength, hbytes⟩ := h
  exact ⟨hsame, hbase, k, hlength, by rw [hworld k (by omega), hbytes]⟩

/-! ## What the calls say about a landing -/

/-- A fresh write with operations that is applied was submitted, and committed. -/
theorem submits_of_applied {handle : CognitionHandle} {transaction : ContextTransaction}
    {grant : ExecutionGrant} {verdict : Verdict}
    (h : s.step (.writeToCognition handle transaction grant) = some (.verdict verdict, s'))
    (happlied : verdict.outcome = .applied) (hkey : s.resolveKey transaction = none)
    (hoperations : transaction.operations ≠ []) :
    ∃ entry next, s.submits (.writeToCognition handle transaction grant) =
        some (.write s.grantActor transaction entry next) ∧
      (s.submit (.write s.grantActor transaction entry next)).1.kind = .committed := by
  obtain ⟨verdict', hverdict, hwrite⟩ := step_writeToCognition h
  obtain rfl : verdict = verdict' := by simpa using hverdict
  obtain ⟨entry, next, hadmission, -, hcommitted⟩ :=
    admission_of_applied hwrite happlied hkey hoperations
  exact ⟨entry, next, submits_of_admission hkey hadmission, hcommitted⟩

/-! ## The worlds, call by call -/

/-- The head of the chain is the world before its length. -/
theorem HistorySoFar.head {world : ℕ → Snapshot} (h : HistorySoFar world past s)
    {bytes : Bytes} (hbytes : s.memory.headBytes = some bytes) :
    ∃ k, s.memory.revisions.length = k + 1 ∧
      s.memory.revisions[k]?.map Prod.fst = some s.memory.head ∧
      ∃ snapshot, Fits snapshot ∧ restored snapshot = restored (world k) ∧
        bytes = serializeSnapshot snapshot := by
  obtain ⟨entry, hlast, rfl⟩ := Option.map_eq_some_iff.mp hbytes
  have hne : s.memory.revisions ≠ [] := by
    rintro hnil
    simp [hnil] at hlast
  obtain ⟨k, hk⟩ := Nat.exists_eq_succ_of_ne_zero (mt List.length_eq_zero_iff.mp hne)
  have hget : s.memory.revisions[k]? = some entry := by
    rw [List.getLast?_eq_getElem?, hk] at hlast
    exact hlast
  refine ⟨k, hk, ?_, h.stored k entry hget⟩
  rw [hget, s.memory.head_eq, hlast]
  rfl

/-- The successor of a write from the head is the successor of the world there,
as far as bytes tell. -/
theorem HistorySoFar.successor {world : ℕ → Snapshot} (h : HistorySoFar world past s)
    (hrooted : Rooted P s) (hseed : Seed P) (hchained : Chained s) (hfree : Collisionless s)
    {actor : AuthenticatedActor} {transaction : ContextTransaction} {entry : Materialization}
    {next : Snapshot} {call : Call}
    (hsubmits : s.submits call = some (.write actor transaction entry next))
    (hhead : entry.revision = s.memory.head) :
    ∃ k, s.memory.revisions.length = k + 1 ∧
      s.memory.revisions[k]?.map Prod.fst = some s.memory.head ∧
      restored next = restored (applyOperations transaction (world k)) := by
  obtain ⟨handle, grant, governance, -, -, -, hadmitted⟩ := submits_write hsubmits
  obtain ⟨-, -, -, -, rfl⟩ := successorOf_eq_ok.mp hadmitted.successor
  have hlive := (findLive_some hadmitted.live).1
  have hbytes := hrooted.headBytes hchained hfree hlive hadmitted.promoted hhead
    (revisions_ne_nil_of_admitted hadmitted)
  obtain ⟨k, hlength, hkey, snapshot, hfits, hworld, hsame⟩ := h.head hbytes
  have hentry := restored_eq_of_serialize_eq
    (hseed.fits _ (hrooted.live entry hlive hadmitted.promoted)) hfits hsame
  exact ⟨k, hlength, hkey, restored_applyOperations (hentry.trans hworld)⟩

theorem historySoFar_start {store : σ} (hempty : (MemoryBacked.memory store).revisions = []) :
    HistorySoFar (fun _ => makeGenesis) [] (ServiceState.start store) := by
  have hnil : (ServiceState.start store).memory.revisions = [] := hempty
  exact ⟨rfl, by simp [hnil], by simp [hnil], by simp, by simp⟩

theorem HistorySoFar.keep {world : ℕ → Snapshot} (h : HistorySoFar world past tr.before)
    (hsame : tr.after.memory = tr.before.memory)
    (happlied : ∀ handle transaction grant verdict,
      tr.action = .writeToCognition handle transaction grant → tr.answer = .verdict verdict →
      verdict.outcome = .applied → tr.before.resolveKey transaction = none →
      transaction.operations ≠ [] → Reproduces world tr transaction) :
    HistorySoFar world (past ++ [tr]) tr.after where
  genesis := h.genesis
  stored := hsame ▸ h.stored
  landed k hk := by
    rw [hsame] at hk ⊢
    obtain ⟨earlier, hmem, hlands⟩ := h.landed k hk
    exact ⟨earlier, List.mem_append_left _ hmem, hlands⟩
  moved other hother hmoved := by
    rw [hsame]
    rcases List.mem_append.mp hother with hother | hother
    · exact h.moved other hother hmoved
    · obtain rfl := List.mem_singleton.mp hother
      exact (hmoved hsame).elim
  applied other hother handle transaction grant verdict haction hanswer houtcome hkey hne := by
    rw [hsame]
    rcases List.mem_append.mp hother with hother | hother
    · exact h.applied other hother handle transaction grant verdict haction hanswer houtcome hkey
        hne
    · obtain rfl := List.mem_singleton.mp hother
      exact .inr ⟨le_rfl,
        happlied handle transaction grant verdict haction hanswer houtcome hkey hne⟩

theorem HistorySoFar.boot {world : ℕ → Snapshot} (h : HistorySoFar world past tr.before)
    (hboots : Boots tr) : HistorySoFar world (past ++ [tr]) tr.after := by
  obtain ⟨source, haction, hbefore, hafter⟩ := hboots
  have hnone : ∀ k, ¬ k + 1 < tr.before.memory.revisions.length := by
    intro k hk
    rw [hbefore] at hk
    exact Nat.not_lt_zero _ hk
  refine ⟨h.genesis, ?_, ?_, ?_, ?_⟩
  · intro k entry hget
    rw [hafter] at hget
    cases k with
    | zero =>
        obtain rfl := Option.some.inj hget
        exact ⟨makeGenesis, genesis_fits, by rw [h.genesis], rfl⟩
    | succ k => simp at hget
  · intro k hk
    rw [hafter] at hk
    simp at hk
  · intro other hother hmoved
    rcases List.mem_append.mp hother with hother | hother
    · rcases h.moved other hother hmoved with hother | ⟨k, hk, -⟩
      · exact .inl hother
      · exact (hnone k hk).elim
    · obtain rfl := List.mem_singleton.mp hother
      exact .inl ⟨source, haction, hbefore, hafter⟩
  · intro other hother handle transaction grant verdict haction' hanswer houtcome hkey hne
    rcases List.mem_append.mp hother with hother | hother
    · rcases h.applied other hother handle transaction grant verdict haction' hanswer houtcome
        hkey hne with ⟨k, hk, -⟩ | ⟨hle, hreproduces⟩
      · exact (hnone k hk).elim
      · rw [hbefore] at hle
        exact .inr ⟨hle.trans (Nat.zero_le _), hreproduces⟩
    · obtain rfl := List.mem_singleton.mp hother
      rw [haction] at haction'
      simp at haction'

/-- A write lands: the chain grows by its revision, and the worlds by its
application. -/
theorem HistorySoFar.land {world : ℕ → Snapshot} (h : HistorySoFar world past tr.before)
    {handle : CognitionHandle} {transaction : ContextTransaction} {grant : ExecutionGrant}
    {verdict : Verdict} {next : Snapshot} {k : ℕ} {revision : RevisionId}
    (haction : tr.action = .writeToCognition handle transaction grant)
    (hanswer : tr.answer = .verdict verdict)
    (houtcome : verdict.outcome = .applied ∨ verdict.outcome = .outcomeUnknown)
    (hbase : transaction.base = tr.before.memory.head)
    (hlength : tr.before.memory.revisions.length = k + 1)
    (hhead : tr.before.memory.revisions[k]?.map Prod.fst = some tr.before.memory.head)
    (hafter : tr.after.memory.revisions =
      tr.before.memory.revisions ++ [(revision, serializeSnapshot next)])
    (hfits : Fits next)
    (hnext : restored next = restored (applyOperations transaction (world k))) :
    ∃ world', HistorySoFar world' (past ++ [tr]) tr.after := by
  let world' := Function.update world (k + 1) (applyOperations transaction (world k))
  have hold : ∀ j < tr.before.memory.revisions.length, world' j = world j := by
    intro j hj
    exact Function.update_of_ne (by omega) _ _
  have hnew : world' (k + 1) = applyOperations transaction (world k) :=
    Function.update_self _ _ _
  have hgrown : tr.after.memory.revisions.length = k + 2 := by
    rw [hafter, List.length_append, hlength]
    rfl
  have hlands : Lands world' tr.after.memory.revisions tr k := by
    refine ⟨handle, transaction, grant, verdict, _, haction, hanswer, houtcome, ?_, hbase, rfl,
      ?_, ?_, ?_⟩
    · rw [hafter, List.getElem?_append_left (by omega), hhead]
    · rw [hafter, ← hlength, List.take_left]
    · rw [List.take_of_length_le hgrown.le]
    · rw [hnew, hold k (by omega)]
  have hmono : ∀ {other : ServiceTransition σ} {j : ℕ}, j + 1 < tr.before.memory.revisions.length →
      Lands world tr.before.memory.revisions other j →
        Lands world' tr.after.memory.revisions other j := by
    intro other j hj hother
    rw [hafter]
    exact hother.append hj hold
  refine ⟨world', ?_, ?_, ?_, ?_, ?_⟩
  · rw [hold 0 (by omega), h.genesis]
  · intro j entry hget
    rcases Nat.lt_or_ge j tr.before.memory.revisions.length with hj | hj
    · rw [hafter, List.getElem?_append_left hj] at hget
      rw [hold j hj]
      exact h.stored j entry hget
    · obtain rfl : j = k + 1 := by
        have hlt := (List.getElem?_eq_some_iff.mp hget).1
        omega
      rw [hafter, ← hlength, List.getElem?_concat_length] at hget
      obtain rfl := Option.some.inj hget
      exact ⟨next, hfits, by rw [hnext, hnew], rfl⟩
  · intro j hj
    rcases Nat.lt_or_ge (j + 1) tr.before.memory.revisions.length with hlt | hge
    · obtain ⟨earlier, hmem, hearlier⟩ := h.landed j hlt
      exact ⟨earlier, List.mem_append_left _ hmem, hmono hlt hearlier⟩
    · obtain rfl : j = k := by omega
      exact ⟨tr, List.mem_append_right _ (List.mem_singleton_self _), hlands⟩
  · intro other hother hmoved
    rcases List.mem_append.mp hother with hother | hother
    · rcases h.moved other hother hmoved with hboots | ⟨j, hj, hearlier⟩
      · exact .inl hboots
      · exact .inr ⟨j, by omega, hmono hj hearlier⟩
    · obtain rfl := List.mem_singleton.mp hother
      exact .inr ⟨k, by omega, hlands⟩
  · intro other hother handle' transaction' grant' verdict' haction' hanswer' houtcome' hkey hne
    rcases List.mem_append.mp hother with hother | hother
    · rcases h.applied other hother handle' transaction' grant' verdict' haction' hanswer'
        houtcome' hkey hne with ⟨j, hj, hearlier⟩ | ⟨hle, hreproduces⟩
      · exact .inl ⟨j, by omega, hmono hj hearlier⟩
      · exact .inr ⟨by omega, hreproduces.append hle hold⟩
    · obtain rfl := List.mem_singleton.mp hother
      exact .inl ⟨k, by omega, hlands⟩

/-- One call, in a state where revision ids name revisions. -/
theorem HistorySoFar.step {world : ℕ → Snapshot} (h : HistorySoFar world past tr.before)
    (hvalid : tr.Valid ServiceState.step) (hseed : Seed P) (hrooted : Rooted P tr.before)
    (hwrite : ∀ actor transaction entry next, Commits tr (.write actor transaction entry next) →
      P entry.state → P next)
    (hchained : Chained tr.before) (hfree : Collisionless tr.before) :
    ∃ world', HistorySoFar world' (past ++ [tr]) tr.after := by
  by_cases hsame : tr.after.memory = tr.before.memory
  · refine ⟨world, h.keep hsame ?_⟩
    intro handle transaction grant verdict haction hanswer houtcome hkey hne
    have hstep : tr.before.step (.writeToCognition handle transaction grant) =
        some (.verdict verdict, tr.after) := by
      rw [← haction, ← hanswer]
      exact hvalid
    obtain ⟨entry, next, hsubmits, hcommitted⟩ := submits_of_applied hstep houtcome hkey hne
    obtain ⟨_, _, _, -, -, -, hadmitted⟩ := submits_write hsubmits
    have hmemory := hsame.symm.trans (memory_of_submits hstep hsubmits)
    rcases submit_cases tr.before (.write tr.before.grantActor transaction entry next) with
      ⟨-, -, hfailed, -⟩ | ⟨hbase, hbytes, -⟩ | ⟨-, -, -, -, -, happend⟩
    · simp [hfailed] at hcommitted
    · obtain ⟨k, hlength, -, hnext⟩ :=
        h.successor hrooted hseed hchained hfree hsubmits hbase
      refine ⟨hsame, hadmitted.base.trans hbase, k, hlength, ?_⟩
      rw [hbytes, ← serialize_restored, ← serialize_restored (applyOperations _ _), ← hnext]
      rfl
    · have hgrew := congrArg (fun memory => memory.revisions.length) (hmemory.trans happend)
      simp at hgrew
  · obtain ⟨submission, hsubmits, hkind, hbase, hmemory⟩ := submits_of_memory_ne hvalid hsame
    have hhead := base_of_append hsubmits hbase
    cases submission with
    | genesis =>
        exact ⟨world, h.boot (boots_of_submits_genesis hrooted.named hsubmits hmemory)⟩
    | write actor transaction entry next =>
        obtain ⟨handle, grant, governance, haction, -, -, hadmitted⟩ := submits_write hsubmits
        have hstep : tr.before.step (.writeToCognition handle transaction grant) =
            some (tr.answer, tr.after) := by
          rw [← haction]
          exact hvalid
        obtain ⟨verdict, hanswer, houtcome, -⟩ :=
          verdict_of_commits hstep (haction ▸ hsubmits) hkind
        obtain ⟨k, hlength, hkey, hnext⟩ :=
          h.successor hrooted hseed hchained hfree hsubmits hhead
        have hP := hrooted.live entry (findLive_some hadmitted.live).1 hadmitted.promoted
        exact h.land haction hanswer houtcome (hadmitted.base.trans hhead) hlength hkey
          (congrArg MemoryStore.revisions hmemory)
          (hseed.fits _ (hwrite actor transaction entry next ⟨hsubmits, hkind⟩ hP)) hnext

/-! ## Whole runs -/

theorem memory_length_mono (hrun : ServiceRun s trs t) :
    s.memory.revisions.length ≤ t.memory.revisions.length :=
  hrun.monotone (fun s => s.memory.revisions.length)
    fun _ hvalid => (memory_prefix_step hvalid).length_le

theorem lands_unique (hrun : ServiceRun s trs t) {world : ℕ → Snapshot}
    {revisions : List (RevisionId × Bytes)} {k i j : ℕ} {tr tr' : ServiceTransition σ}
    (hk : k + 1 < revisions.length) (hi : trs[i]? = some tr) (hj : trs[j]? = some tr')
    (htr : Lands world revisions tr k) (htr' : Lands world revisions tr' k) : i = j := by
  have hbefore : ∀ {i j : ℕ} {tr tr' : ServiceTransition σ}, trs[i]? = some tr →
      trs[j]? = some tr' → Lands world revisions tr k → Lands world revisions tr' k →
        ¬ i < j := by
    intro i j tr tr' hi hj htr htr' hlt
    obtain ⟨-, hrest⟩ := hrun.split_of_getElem? hi
    have hj' : (trs.drop (i + 1))[j - (i + 1)]? = some tr' := by
      rw [List.getElem?_drop, Nat.add_sub_cancel' hlt, hj]
    obtain ⟨hbetween, -⟩ := hrest.split_of_getElem? hj'
    have hmono := memory_length_mono hbetween
    obtain ⟨-, -, -, -, -, -, -, -, -, -, -, -, hafter, -⟩ := htr
    obtain ⟨-, -, -, -, -, -, -, -, -, -, -, hbefore, -⟩ := htr'
    rw [hafter, hbefore, List.length_take, List.length_take] at hmono
    omega
  rcases Nat.lt_trichotomy i j with hlt | heq | hgt
  · exact (hbefore hi hj htr htr' hlt).elim
  · exact heq
  · exact (hbefore hj hi htr' htr hgt).elim

/-- Induction on the last call of a run whose writes have room and whose
revision ids do not collide. -/
theorem sized_induction {store : σ} {cap : ℕ}
    {motive : List (ServiceTransition σ) → ServiceState σ → Prop}
    (hrun : ServiceRun (ServiceState.start store) trs t) (hsized : SizedRun cap trs)
    (hfree : Collisionless t) (hnil : motive [] (ServiceState.start store))
    (hsnoc : ∀ past (tr : ServiceTransition σ),
      ServiceRun (ServiceState.start store) past tr.before → tr.Valid ServiceState.step →
      SizedRun cap past → SizedRun cap (past ++ [tr]) → Collisionless tr.before →
      motive past tr.before → motive (past ++ [tr]) tr.after) : motive trs t := by
  refine hrun.history_induction (motive := fun trs t => SizedRun cap trs →
    Collisionless t → motive trs t) (fun _ _ => hnil) ?_ hsized hfree
  intro past tr hpast hvalid ih hsized hfree
  have hsized' : SizedRun cap past := fun tr htr => hsized tr (List.mem_append_left _ htr)
  have hfree' := hfree.before hvalid
  exact hsnoc past tr hpast hvalid hsized' hsized hfree' (ih hsized' hfree')

theorem exists_historySoFar {store : σ} (hempty : (MemoryBacked.memory store).revisions = [])
    (hrun : ServiceRun (ServiceState.start store) trs t) (hsized : SizedRun (2 ^ 32 - 1) trs)
    (hfree : Collisionless t) : ∃ world, HistorySoFar world trs t := by
  have hseed : Seed (Sized (2 ^ 32 - 1) fun _ => True) :=
    seed_sized (by norm_num) (by norm_num) trivial fun _ _ => trivial
  refine sized_induction (motive := fun trs t => ∃ world, HistorySoFar world trs t)
    hrun hsized hfree ?_ ?_
  · exact ⟨_, historySoFar_start hempty⟩
  · rintro past tr hpast hvalid hsized' hsized hfree' ⟨world, hworld⟩
    obtain ⟨hrooted, -⟩ := rooted_of_sizedRun (Q := fun _ => True) (by norm_num) (by norm_num)
      hempty hpast hsized' trivial (fun _ _ => trivial) fun _ _ _ _ _ _ _ _ => trivial
    refine hworld.step hvalid hseed hrooted ?_ (chained_of_run hempty hpast) hfree'
    intro actor transaction entry next hcommits hentry
    obtain ⟨hshort, hroom⟩ := hsized tr (List.mem_append_right _ (List.mem_singleton_self _))
      actor transaction entry next hcommits
    obtain ⟨hgates, rfl⟩ := hcommits.gates
    exact ⟨stringsShort_applyOperations hentry.strings hshort,
      vectorsWithin_applyOperations hentry.vectors (by norm_num) hgates hroom, trivial⟩

/-- Along a run whose committing writes keep every count and length below
`2 ^ 32`, with revision ids that do not collide, the memory is one linear
history: no update is lost, doubled, or applied to a stale world. -/
theorem exists_linearHistory {store : σ} (hempty : (MemoryBacked.memory store).revisions = [])
    (hrun : ServiceRun (ServiceState.start store) trs t) (hsized : SizedRun (2 ^ 32 - 1) trs)
    (hfree : Collisionless t) : ∃ world, LinearHistory world trs t := by
  obtain ⟨world, h⟩ := exists_historySoFar hempty hrun hsized hfree
  refine ⟨world, h.genesis, ?_, ?_, ?_, ?_⟩
  · intro k entry hget
    obtain ⟨snapshot, -, hworld, hbytes⟩ := h.stored k entry hget
    rw [hbytes, ← serialize_restored, hworld, serialize_restored]
  · intro k hk
    obtain ⟨tr, htr, hlands⟩ := h.landed k hk
    obtain ⟨i, hi⟩ := List.mem_iff_getElem?.mp htr
    exact ⟨i, ⟨tr, hi, hlands⟩, fun j ⟨tr', hj, hlands'⟩ =>
      lands_unique hrun hk hj hi hlands' hlands⟩
  · intro tr htr hmoved
    rcases h.moved tr htr hmoved with hboots | ⟨k, -, hlands⟩
    · exact .inl hboots
    · exact .inr ⟨k, hlands⟩
  · intro tr htr handle transaction grant verdict haction hanswer houtcome hkey hne
    rcases h.applied tr htr handle transaction grant verdict haction hanswer houtcome hkey hne with
      ⟨k, -, hlands⟩ | ⟨-, hreproduces⟩
    · exact .inl ⟨k, hlands⟩
    · exact .inr hreproduces

end Histories

section Worlds

open scoped QivenContext.Reference

variable {world : ℕ → Snapshot} {revisions : List (RevisionId × Bytes)} {k : ℕ}

theorem Lands.length {tr : ServiceTransition MemoryStore} (h : Lands world revisions tr k)
    (hk : k < revisions.length) : tr.before.store.revisions.length = k + 1 := by
  obtain ⟨-, -, -, -, -, -, -, -, -, -, -, hbefore, -⟩ := h
  rw [show tr.before.store.revisions = revisions.take (k + 1) from hbefore, List.length_take]
  omega

theorem Lands.written {s t : ServiceState MemoryStore} {m m' : Materialization}
    {transaction : ContextTransaction}
    (h : Lands world revisions (OnHead.written s m transaction t m') k) :
    world (k + 1) = applyOperations transaction (world k) := by
  obtain ⟨handle, presented, grant, -, -, haction, -, -, -, -, -, -, -, hworld⟩ := h
  obtain ⟨-, rfl, -⟩ : some m = handle ∧ transaction = presented ∧ firstGrant = grant := by
    simpa [OnHead.written] using haction
  exact hworld

theorem NoWrites.not_lands {trs : List (ServiceTransition MemoryStore)} (h : NoWrites trs)
    {tr : ServiceTransition MemoryStore} (htr : tr ∈ trs) : ¬ Lands world revisions tr k := by
  rintro ⟨handle, transaction, grant, -, -, haction, -⟩
  exact h tr htr handle transaction grant haction

/-- A first write that has room, and two revisions that do not collide. -/
theorem exists_sized_batch :
    ∃ byte trs s m t m', ServiceRun (ServiceState.start ({} : MemoryStore)) (trs ++
        [OnHead.written s m (addAll m.revision (batchEvidence 1 byte)) t m']) t ∧
      SizedRun (2 ^ 32 - 1)
        (trs ++ [OnHead.written s m (addAll m.revision (batchEvidence 1 byte)) t m']) ∧
      Collisionless t ∧ NoWrites trs ∧
      OnHead.Wrote s m (addAll m.revision (batchEvidence 1 byte)) t m' ∧ m.state = makeGenesis ∧
      m'.state = { makeGenesis with evidence := batchEvidence 1 byte } ∧
      t.memory.revisions.length = 2 := by
  obtain ⟨byte, trs, s, m, t, m', hrun, hnone, -, hstate, hwrote, hstate', -, hrevisions,
    hfresh⟩ := exists_fresh_batch (show 1 < 2 ^ 32 - 1 by norm_num)
  have hrun' := hwrote.run hrun
  have hroom : Room (2 ^ 32 - 1) m.state (addAll m.revision (batchEvidence 1 byte)).operations := by
    rw [hstate]
    exact (addAll_evidenceOnly fun _ hmem => (mem_batchEvidence hmem).1).room (by
      simp [addAll, length_batchEvidence])
  exact ⟨byte, trs, s, m, t, m', hrun', hwrote.sizedRun hnone
    (addAll_short fun _ hmem => (mem_batchEvidence hmem).2) hroom,
    collisionless_of_pair rfl hrun' hrevisions hfresh, hnone, hwrote, hstate, hstate',
    congrArg List.length hrevisions⟩

/-- A first write is the whole of a history of two revisions. -/
theorem batch_linearHistory :
    ∃ (trs : List (ServiceTransition MemoryStore)) (t : ServiceState MemoryStore)
      (world : ℕ → Snapshot), ServiceRun (ServiceState.start {}) trs t ∧
        t.memory.revisions.length = 2 ∧ LinearHistory world trs t := by
  obtain ⟨byte, trs, s, m, t, m', hrun, hsized, hfree, -, -, -, -, hlength⟩ := exists_sized_batch
  obtain ⟨world, hworld⟩ := exists_linearHistory rfl hrun hsized hfree
  exact ⟨_, t, world, hrun, hlength, hworld⟩

theorem foldedWorld_quiet (byte : UInt8) : Quiet (foldedWorld byte) :=
  ⟨rfl, by simp [foldedWorld], rfl⟩

/-- The pieces of evidence are written, and the bytes of the new head decode to
the folded snapshot. -/
theorem exists_counted_write :
    ∃ byte trs s m t m', ServiceRun (ServiceState.start ({} : MemoryStore)) trs s ∧
      NoWrites trs ∧ OnHead.Wrote s m (addAll m.revision (countedEvidence byte)) t m' ∧
      m'.state = countedWorld byte ∧
      s.store.revisions = [(m.revision, serializeSnapshot makeGenesis)] ∧
      t.store.revisions = [(m.revision, serializeSnapshot makeGenesis),
        (m'.revision, serializeSnapshot (foldedWorld byte))] ∧
      m'.revision ≠ m.revision ∧ t.storedHead = .ok (foldedWorld byte) := by
  obtain ⟨byte, trs, s, m, t, m', hrun, hnone, -, -, hwrote, hstate, hgenesis, hrevisions,
    hfresh⟩ := exists_fresh_evidence countedEvidence (fun _ => List.cons_ne_nil _ _)
      (fun _ _ hmem => (mem_countedEvidence hmem).1) serialize_countedWorld_split
      serialize_countedWorld_ne
  have hfolded : t.store.revisions = [(m.revision, serializeSnapshot makeGenesis),
      (m'.revision, serializeSnapshot (foldedWorld byte))] := by
    rw [hrevisions, ← serialize_countedWorld]
    rfl
  have hhead : CognitionStore.head t.store = m'.revision := hwrote.onHead.head
  have hbytes : CognitionStore.materialize t.store m'.revision =
      serializeSnapshot (foldedWorld byte) := MemoryStore.materialize_of_pair hfolded hfresh
  refine ⟨byte, trs, s, m, t, m', hrun, hnone, hwrote, hstate, hgenesis, hfolded, hfresh, ?_⟩
  rw [storedHead, hhead, hbytes, ← serialize_countedWorld, deserialize_countedWorld]

/-- The pieces of evidence are written, the head is booted, and one more piece
is written through the booted handle. -/
theorem exists_counted :
    ∃ byte more trs s m t m' b u m'' v last,
      ServiceRun (ServiceState.start ({} : MemoryStore)) trs s ∧ NoWrites trs ∧
      OnHead.Wrote s m (addAll m.revision (countedEvidence byte)) t m' ∧
      t.step (.createCognition {}) = some (b, u) ∧
      OnHead.Wrote u m'' (addAll m''.revision [⟨[more], [1]⟩]) v last ∧ more ≠ 0 ∧
      s.store.revisions = [(m.revision, serializeSnapshot makeGenesis)] ∧
      u.store.revisions = [(m.revision, serializeSnapshot makeGenesis),
        (m'.revision, serializeSnapshot (foldedWorld byte))] ∧
      v.store.revisions = [(m.revision, serializeSnapshot makeGenesis),
        (m'.revision, serializeSnapshot (foldedWorld byte)),
        (last.revision, serializeSnapshot (foldedWith byte more))] ∧
      m'.revision ≠ m.revision ∧ last.revision ∉ [m.revision, m'.revision] := by
  obtain ⟨byte, trs, s, m, t, m', hrun, hnone, hwrote, -, hgenesis, hfolded, hfresh, hparsed⟩ :=
    exists_counted_write
  obtain ⟨m'', u, hstep, -, honHead, hstate, hsame, hstore, -⟩ := hwrote.onHead.boot hparsed rfl
  have hbefore : u.store.revisions = [(m.revision, serializeSnapshot makeGenesis),
      (m'.revision, serializeSnapshot (foldedWorld byte))] := by
    rw [hstore, hfolded]
  obtain ⟨more, hmore, v, last, hwrote', -, hafter, hlast⟩ := honHead.exists_fresh
    (fun more => addAll m''.revision [⟨[more], [1]⟩]) (foldedWith byte) (by
      intro more
      obtain ⟨v, last, hwrote', hstate'⟩ := honHead.writeAll
        (hstate ▸ foldedWorld_quiet byte) [⟨[more], [1]⟩] (List.cons_ne_nil _ _) (by
          intro record hmem
          obtain rfl := List.mem_singleton.mp hmem
          exact ⟨List.cons_ne_nil _ _, List.cons_ne_nil _ _⟩)
      exact ⟨v, last, hwrote', by rw [hstate', hstate]; rfl⟩)
    ⟨_, _, serialize_foldedWith byte⟩ (by
      intro more hbytes
      rw [MemoryStore.headBytes, hbefore] at hbytes
      have hrestored := restored_eq_of_serialize_eq
        ⟨foldedWorld_stringsShort byte, (foldedWorld_vectorsWithin byte).mono (by norm_num)⟩
        (foldedWith_fits byte more) (Option.some.inj hbytes)
      exact List.cons_ne_nil _ _ (congrArg Snapshot.evidence hrestored).symm)
    (show ([1, 2, 3] : List UInt8).Nodup by decide) (by simp [hbefore])
  refine ⟨byte, more, trs, s, m, t, m', _, u, m'', v, last, hrun, hnone, hwrote, hstep, hwrote',
    ?_, hgenesis, hbefore, ?_, hfresh, ?_⟩
  · rintro rfl
    simp at hmore
  · rw [hafter, hbefore]
    rfl
  · simpa [hbefore] using hlast

/-- The bytes that were booted are the bytes of the head, and yet the write
through the booted handle is no step from the world of the head: the pieces of
evidence, `2 ^ 32` of them, are gone. -/
theorem counted_not_linear :
    ∃ (trs : List (ServiceTransition MemoryStore)) (t : ServiceState MemoryStore),
      ServiceRun (ServiceState.start {}) trs t ∧ EveryWrite ShortTransaction trs ∧
        Collisionless t ∧ ¬ ∃ world, LinearHistory world trs t := by
  obtain ⟨byte, more, trs, s, m, t, m', b, u, m'', v, last, hrun, hnone, hwrote, hstep, hwrote',
    hmore, hgenesis, hbefore, hafter, hfresh, hlast⟩ := exists_counted
  have hrun' := hwrote'.run ((hwrote.run hrun).snoc hstep)
  have hlength : v.memory.revisions.length = 3 := congrArg List.length hafter
  refine ⟨_, v, hrun', ?_, ?_, ?_⟩
  · refine EveryWrite.written (EveryWrite.booted (hnone.everyWrite.written ?_)) ?_
    · exact addAll_short fun _ hmem => (mem_countedEvidence hmem).2
    · exact addAll_short (foldedWith_fits byte more).strings.evidence
  · refine (chained_of_run rfl hrun').collisionFree ?_
    rw [show v.memory.revisions = _ from hafter]
    simp only [List.mem_cons, List.not_mem_nil, or_false, not_or] at hlast
    simp [Ne.symm hfresh, Ne.symm hlast.1, Ne.symm hlast.2]
  · rintro ⟨world, hworld⟩
    have hlands : ∀ k < 2, ∀ tr, Lands world v.memory.revisions tr k →
        tr ∈ trs ++ [OnHead.written s m (addAll m.revision (countedEvidence byte)) t m'] ++
          [⟨t, .createCognition {}, b, u⟩] ++
          [OnHead.written u m'' (addAll m''.revision [⟨[more], [1]⟩]) v last] →
        (k = 0 ∧ tr = OnHead.written s m (addAll m.revision (countedEvidence byte)) t m') ∨
          (k = 1 ∧ tr = OnHead.written u m'' (addAll m''.revision [⟨[more], [1]⟩]) v last) := by
      intro k hk tr hlands htr
      have hcount := hlands.length (by omega)
      rcases List.mem_append.mp htr with htr | htr
      · rcases List.mem_append.mp htr with htr | htr
        · rcases List.mem_append.mp htr with htr | htr
          · exact (hnone.not_lands htr hlands).elim
          · obtain rfl := List.mem_singleton.mp htr
            rw [OnHead.written, hgenesis] at hcount
            exact .inl ⟨by simpa using hcount.symm, rfl⟩
        · obtain rfl := List.mem_singleton.mp htr
          obtain ⟨_, _, _, _, _, haction, -⟩ := hlands
          simp at haction
      · obtain rfl := List.mem_singleton.mp htr
        rw [OnHead.written, hbefore] at hcount
        exact .inr ⟨by simpa using hcount.symm, rfl⟩
    obtain ⟨i, ⟨tr, hi, hfirst⟩, -⟩ := hworld.landed 0 (by omega)
    obtain ⟨j, ⟨tr', hj, hsecond⟩, -⟩ := hworld.landed 1 (by omega)
    rcases hlands 0 (by omega) tr hfirst (List.mem_of_getElem? hi) with ⟨-, rfl⟩ | ⟨h, -⟩
    · rcases hlands 1 (by omega) tr' hsecond (List.mem_of_getElem? hj) with ⟨h, -⟩ | ⟨-, rfl⟩
      · exact absurd h (by decide)
      · have hone := hfirst.written
        have htwo := hsecond.written
        rw [hworld.genesis, applyOperations_addAll] at hone
        rw [hone, applyOperations_addAll] at htwo
        have hstored := hworld.stored 2 (last.revision, serializeSnapshot (foldedWith byte more))
          (by rw [show v.memory.revisions = _ from hafter]; rfl)
        rw [htwo] at hstored
        exact serialize_foldedWith_ne byte hmore hstored
    · exact absurd h (by decide)

end Worlds

end QivenContext
