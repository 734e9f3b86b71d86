import QivenContext.Foundation

/-!
# The cognition store

The contract `ICognitionStore` is a class over the state of a store. The
in-memory store is its reference implementation; a store that may lose
acknowledgements wraps it. Both are backed by one linear memory, and a run of
the service over either is studied through that memory.
-/

namespace QivenContext

open Library

inductive StoreReceipt.Kind where
  | committed | compareFailed | outcomeUnknown
  deriving DecidableEq, Inhabited

/-- A failed comparison and a lost acknowledgement are different answers. -/
structure StoreReceipt where
  kind : StoreReceipt.Kind := .compareFailed
  revision : RevisionId := {}
  deriving DecidableEq, Inhabited

/-- `ICognitionStore`, over the state `σ` of the store. -/
class CognitionStore (σ : Type) where
  compareAndSwap : σ → RevisionId → Bytes → StoreReceipt × σ
  materialize : σ → RevisionId → Bytes
  verify : σ → RevisionId → Bool
  head : σ → RevisionId

/-! ## The in-memory store -/

/-- The linear history, genesis first, and its head. -/
structure MemoryStore where
  revisions : List (RevisionId × Bytes) := []
  head : RevisionId := {}
  head_eq : head = (revisions.getLast?.map Prod.fst).getD {} := by rfl

instance : Inhabited MemoryStore := ⟨{}⟩

namespace MemoryStore

def append (store : MemoryStore) (id : RevisionId) (stateBytes : Bytes) : MemoryStore where
  revisions := store.revisions ++ [(id, stateBytes)]
  head := id
  head_eq := by simp

/-- The bytes of the newest revision. -/
def headBytes (store : MemoryStore) : Option Bytes := store.revisions.getLast?.map Prod.snd

def materialize (store : MemoryStore) (revision : RevisionId) : Bytes :=
  ((store.revisions.find? fun entry => entry.1 = revision).map Prod.snd).getD []

def verify (store : MemoryStore) (revision : RevisionId) : Bool :=
  store.revisions.any fun entry => entry.1 = revision

@[simp] theorem append_revisions (store : MemoryStore) (id : RevisionId) (stateBytes : Bytes) :
    (store.append id stateBytes).revisions = store.revisions ++ [(id, stateBytes)] := rfl

@[simp] theorem append_head (store : MemoryStore) (id : RevisionId) (stateBytes : Bytes) :
    (store.append id stateBytes).head = id := rfl

@[ext] theorem ext {store store' : MemoryStore} (h : store.revisions = store'.revisions) :
    store = store' := by
  obtain ⟨revisions, head, head_eq⟩ := store
  obtain ⟨revisions', head', head_eq'⟩ := store'
  obtain rfl : revisions = revisions' := h
  obtain rfl : head = head' := head_eq.trans head_eq'.symm
  rfl

theorem headBytes_eq_none {store : MemoryStore} :
    store.headBytes = none ↔ store.revisions = [] := by
  simp [headBytes]

theorem head_mem {store : MemoryStore} {stateBytes : Bytes}
    (h : store.headBytes = some stateBytes) : (store.head, stateBytes) ∈ store.revisions := by
  obtain ⟨entry, hlast, rfl⟩ := Option.map_eq_some_iff.mp h
  rw [store.head_eq, hlast]
  exact List.mem_of_getLast? hlast

theorem revisions_eq_nil {store : MemoryStore}
    (hnamed : ∀ entry ∈ store.revisions, entry.1 ≠ {}) (hhead : store.head = {}) :
    store.revisions = [] := by
  by_contra hne
  obtain ⟨entry, hlast⟩ := Option.ne_none_iff_exists'.mp
    (mt List.getLast?_eq_none_iff.mp hne)
  refine hnamed entry (List.mem_of_getLast? hlast) ?_
  rw [← hhead, store.head_eq, hlast]
  rfl

/-- The bytes at a revision are those of some entry, or nothing at all where
no entry has that id. -/
theorem materialize_cases (store : MemoryStore) (revision : RevisionId) :
    (store.materialize revision = [] ∧ ∀ entry ∈ store.revisions, entry.1 ≠ revision) ∨
      (revision, store.materialize revision) ∈ store.revisions := by
  unfold materialize
  cases hfind : store.revisions.find? fun entry => entry.1 = revision with
  | none =>
      have hnone := List.find?_eq_none.mp hfind
      exact .inl ⟨rfl, fun entry hmem => by simpa using hnone entry hmem⟩
  | some entry =>
      have hkey : entry.1 = revision := by simpa using List.find?_some hfind
      subst hkey
      exact .inr (List.mem_of_find?_eq_some hfind)

theorem materialize_of_mem {store : MemoryStore} {revision : RevisionId} {stateBytes : Bytes}
    (h : (revision, stateBytes) ∈ store.revisions) :
    (revision, store.materialize revision) ∈ store.revisions := by
  rcases store.materialize_cases revision with ⟨-, hnone⟩ | hmem
  · exact (hnone _ h rfl).elim
  · exact hmem

/-- With two revisions under two ids the second one is materialized from its own. -/
theorem materialize_of_pair {store : MemoryStore} {first second : RevisionId × Bytes}
    (hrevisions : store.revisions = [first, second]) (hne : second.1 ≠ first.1) :
    store.materialize second.1 = second.2 := by
  rw [materialize, hrevisions]
  simp [Ne.symm hne]

end MemoryStore

section Foundation

variable [Foundation]

/-- The id of a revision: the chained hash of its base and its bytes. -/
def revisionOf (base : RevisionId) (stateBytes : Bytes) : RevisionId where
  value := lit "rev-" ++ Foundation.toHexU64
    (Foundation.fnv1a64Chain Foundation.fnv1a64OffsetBasis base.value stateBytes)

theorem revisionOf_ne_empty (base : RevisionId) (stateBytes : Bytes) :
    revisionOf base stateBytes ≠ {} := by
  have hlit : lit "rev-" = [114, 101, 118, 45] := by decide
  simp [revisionOf, hlit]

namespace MemoryStore

def compareAndSwap (store : MemoryStore) (base : RevisionId) (stateBytes : Bytes) :
    StoreReceipt × MemoryStore :=
  if store.revisions ≠ [] ∧ base ≠ store.head then ({ kind := .compareFailed }, store)
  else if store.headBytes = some stateBytes then
    ({ kind := .committed, revision := store.head }, store)
  else
    let id := revisionOf base stateBytes
    ({ kind := .committed, revision := id }, store.append id stateBytes)

/-- What a compare-and-swap can do: fail on a stale base, find the bytes at
the head already, or append one revision. -/
theorem compareAndSwap_cases (store : MemoryStore) (base : RevisionId) (stateBytes : Bytes) :
    (store.revisions ≠ [] ∧ base ≠ store.head ∧
      store.compareAndSwap base stateBytes = ({ kind := .compareFailed }, store)) ∨
    (base = store.head ∧ store.headBytes = some stateBytes ∧
      store.compareAndSwap base stateBytes =
        ({ kind := .committed, revision := store.head }, store)) ∨
    ((store.revisions = [] ∨ base = store.head) ∧ store.headBytes ≠ some stateBytes ∧
      store.compareAndSwap base stateBytes =
        ({ kind := .committed, revision := revisionOf base stateBytes },
          store.append (revisionOf base stateBytes) stateBytes)) := by
  by_cases hstale : store.revisions ≠ [] ∧ base ≠ store.head
  · exact .inl ⟨hstale.1, hstale.2, by rw [compareAndSwap, if_pos hstale]⟩
  · have hbase : store.revisions = [] ∨ base = store.head := by
      by_cases hempty : store.revisions = []
      · exact .inl hempty
      · exact .inr (by_contra fun hne => hstale ⟨hempty, hne⟩)
    by_cases hsame : store.headBytes = some stateBytes
    · have hne : store.revisions ≠ [] := fun hempty => by
        rw [headBytes_eq_none.mpr hempty] at hsame
        simp at hsame
      refine .inr (.inl ⟨hbase.resolve_left hne, hsame, ?_⟩)
      rw [compareAndSwap, if_neg hstale, if_pos hsame]
    · refine .inr (.inr ⟨hbase, hsame, ?_⟩)
      rw [compareAndSwap, if_neg hstale, if_neg hsame]

theorem compareAndSwap_append {store : MemoryStore} {base : RevisionId} {stateBytes : Bytes}
    (hbase : base = store.head) (hnew : store.headBytes ≠ some stateBytes) :
    store.compareAndSwap base stateBytes =
      ({ kind := .committed, revision := revisionOf base stateBytes },
        store.append (revisionOf base stateBytes) stateBytes) := by
  rcases store.compareAndSwap_cases base stateBytes with ⟨-, hstale, -⟩ | ⟨-, hsame, -⟩ |
    ⟨-, -, hcas⟩
  · exact (hstale hbase).elim
  · exact (hnew hsame).elim
  · exact hcas

instance : CognitionStore MemoryStore where
  compareAndSwap := compareAndSwap
  materialize := materialize
  verify := verify
  head := head

end MemoryStore

/-! ## Lost acknowledgements -/

/-- The fault-injecting store of the tests: it forwards every call to the
inner store, and may answer a commit after genesis with a lost
acknowledgement. Which commits it loses is its schedule. -/
structure FaultInjectionStore where
  inner : MemoryStore := {}
  loses : ℕ → Bool
  commits : ℕ := 0

namespace FaultInjectionStore

def compareAndSwap (store : FaultInjectionStore) (base : RevisionId) (stateBytes : Bytes) :
    StoreReceipt × FaultInjectionStore :=
  let (receipt, inner) := store.inner.compareAndSwap base stateBytes
  if receipt.kind = .committed then
    let after := { store with inner := inner, commits := store.commits + 1 }
    if store.loses store.commits ∧ store.inner.revisions ≠ [] then
      ({ kind := .outcomeUnknown }, after)
    else (receipt, after)
  else (receipt, { store with inner := inner })

instance : CognitionStore FaultInjectionStore where
  compareAndSwap := compareAndSwap
  materialize store := store.inner.materialize
  verify store := store.inner.verify
  head store := store.inner.head

end FaultInjectionStore

/-- A store that answers from one linear memory, and whose answers are those
of the memory except for acknowledgements lost after genesis. -/
class MemoryBacked (σ : Type) extends CognitionStore σ where
  memory : σ → MemoryStore
  head_eq : ∀ s, head s = (memory s).head
  materialize_eq : ∀ s revision, materialize s revision = (memory s).materialize revision
  verify_eq : ∀ s revision, verify s revision = (memory s).verify revision
  memory_compareAndSwap : ∀ s base stateBytes,
    memory (compareAndSwap s base stateBytes).2 =
      ((memory s).compareAndSwap base stateBytes).2
  receipt_cases : ∀ s base stateBytes,
    (compareAndSwap s base stateBytes).1 = ((memory s).compareAndSwap base stateBytes).1 ∨
      (compareAndSwap s base stateBytes).1.kind = .outcomeUnknown ∧
        ((memory s).compareAndSwap base stateBytes).1.kind = .committed ∧
        (memory s).revisions ≠ []

instance : MemoryBacked MemoryStore where
  memory store := store
  head_eq _ := rfl
  materialize_eq _ _ := rfl
  verify_eq _ _ := rfl
  memory_compareAndSwap _ _ _ := rfl
  receipt_cases _ _ _ := .inl rfl

instance : MemoryBacked FaultInjectionStore where
  memory store := store.inner
  head_eq _ := rfl
  materialize_eq _ _ := rfl
  verify_eq _ _ := rfl
  memory_compareAndSwap store base stateBytes := by
    simp only [CognitionStore.compareAndSwap, FaultInjectionStore.compareAndSwap]
    split
    · split <;> rfl
    · rfl
  receipt_cases store base stateBytes := by
    simp only [CognitionStore.compareAndSwap, FaultInjectionStore.compareAndSwap]
    split
    · next hcommitted =>
        split
        · next hlost => exact .inr ⟨rfl, hcommitted, hlost.2⟩
        · exact .inl rfl
    · exact .inl rfl

end Foundation

end QivenContext
