import QivenContext.Boot
import QivenContext.Fencing
import QivenContext.Library.Lockstep
import QivenContext.Readers
import QivenContext.Scenario
import QivenContext.Turns

/-!
# A process that starts again

Nothing but the store outlives a process. A process that starts again on the
store of one that had no lease out answers every later call as the first one
would have, but for the counters: addresses, epochs and the ids of grants.
-/

namespace QivenContext

open Library ServiceState

/-- How far the counters of the first process are ahead. -/
structure Lead where
  addresses : ℕ
  epochs : Epoch
  grants : UInt64

namespace Lead

variable (lead : Lead)

/-- What the first process has in place of a materialization of the second. -/
def materialization (m : Materialization) : Materialization :=
  { m with address := m.address + lead.addresses, epoch := m.epoch + lead.epochs }

def handle (handle : CognitionHandle) : CognitionHandle := handle.map lead.materialization

def verdict (verdict : Verdict) : Verdict :=
  { verdict with successor := lead.handle verdict.successor }

def receipt (receipt : Receipt) : Receipt :=
  { receipt with outcome := lead.verdict receipt.outcome }

def creation : Creation → Creation
  | .handle m => .handle (lead.materialization m)
  | .failed error => .failed error
  | .threw => .threw

end Lead

/-- The grants of the two processes for one request. -/
structure Renewed (lead : Lead) (grant other : ExecutionGrant) : Prop where
  id : ∃ generation, grant.id = grantIdOf generation ∧
    other.id = grantIdOf (generation + lead.grants)
  epoch : other.epoch = grant.epoch + lead.epochs
  principal : other.principal = grant.principal
  mode : other.mode = grant.mode

/-- What was allocated after the start. -/
def Minted (handle : CognitionHandle) : Prop := ∀ m, handle = some m → 0 < m.address

/-- The same call on the two processes; of the keys and handles that were out
before the start none is used. -/
inductive Resent (lead : Lead) (used : Str → Prop) : Call → Call → Prop
  | createCognition (source : CognitionSource) :
      Resent lead used (.createCognition source) (.createCognition source)
  | retireCognition {handle : CognitionHandle} (hminted : Minted handle) :
      Resent lead used (.retireCognition handle) (.retireCognition (lead.handle handle))
  | acquireGrant (actor : AuthenticatedActor) (mode : WorkMode) :
      Resent lead used (.acquireGrant actor mode) (.acquireGrant actor mode)
  | releaseGrant {grant other : ExecutionGrant} (hgrant : Renewed lead grant other) :
      Resent lead used (.releaseGrant grant) (.releaseGrant other)
  | writeToCognition {handle : CognitionHandle} {transaction : ContextTransaction}
      {grant other : ExecutionGrant} (hminted : Minted handle)
      (hkey : ¬ used transaction.idempotencyKey) (hgrant : Renewed lead grant other) :
      Resent lead used (.writeToCognition handle transaction grant)
        (.writeToCognition (lead.handle handle) transaction other)
  | verifyRestored {handle : CognitionHandle} (hminted : Minted handle)
      (actor : AuthenticatedActor) :
      Resent lead used (.verifyRestored handle actor) (.verifyRestored (lead.handle handle) actor)
  | promoteAuthority {handle : CognitionHandle} (hminted : Minted handle)
      (actor : AuthenticatedActor) :
      Resent lead used (.promoteAuthority handle actor)
        (.promoteAuthority (lead.handle handle) actor)
  | attachIdentityVerifier {verifier : Option IdentityVerifier}
      (hport : verifier.getD rootPrincipalVerifier = rootPrincipalVerifier) :
      Resent lead used (.attachIdentityVerifier verifier) (.attachIdentityVerifier verifier)
  | canonicalHead : Resent lead used .canonicalHead .canonicalHead
  | currentEpoch : Resent lead used .currentEpoch .currentEpoch

/-- The same answer, but for the counters; of a head it is the governance that counts. -/
inductive SameAnswer (lead : Lead) : Answer → Answer → Prop
  | created (creation : Creation) : SameAnswer lead (.created creation)
      (.created (lead.creation creation))
  | retired (found : Bool) : SameAnswer lead (.retired found) (.retired found)
  | refused : SameAnswer lead (.granted none) (.granted none)
  | granted {grant other : ExecutionGrant} (hgrant : Renewed lead grant other) :
      SameAnswer lead (.granted (some grant)) (.granted (some other))
  | done : SameAnswer lead .done .done
  | verdict (verdict : Verdict) : SameAnswer lead (.verdict verdict)
      (.verdict (lead.verdict verdict))
  | handle (handle : CognitionHandle) : SameAnswer lead (.handle handle)
      (.handle (lead.handle handle))
  | head {head other : Option Snapshot}
      (hgoverned : head.map Snapshot.governance = other.map Snapshot.governance) :
      SameAnswer lead (.head head) (.head other)
  | epoch (epoch : Epoch) : SameAnswer lead (.epoch epoch) (.epoch (epoch + lead.epochs))

section Registry

variable {σ : Type} {lead : Lead} {used : Str → Prop} {r s r' s' : ServiceState σ}
  {handle : CognitionHandle} {grant other : ExecutionGrant} {m : Materialization}

/-- The lease is free in both processes, or out at one generation. -/
def SameLease (lead : Lead) (id other : GrantId) : Prop :=
  id = {} ∧ other = {} ∨
    ∃ generation, id = grantIdOf generation ∧ other = grantIdOf (generation + lead.grants)

/-- The second process `r` and the first one `s`. What `s` has besides are entries,
receipts and counts from before the start. -/
structure Resumed (lead : Lead) (used : Str → Prop) (r s : ServiceState σ) : Prop where
  store : s.store = r.store
  live : (s.live.filter fun m => lead.addresses < m.address) = r.live.map lead.materialization
  started : 0 < r.nextAddress
  nextAddress : s.nextAddress = r.nextAddress + lead.addresses
  epoch : s.epoch = r.epoch + lead.epochs
  generation : s.grantGeneration = r.grantGeneration + lead.grants
  lease : SameLease lead r.activeGrantId s.activeGrantId
  actor : s.grantActor = r.grantActor
  receipts : ∀ key, ¬ used key → s.receipts key = (r.receipts key).map lead.receipt

theorem SameLease.isEmpty {id other : GrantId} (h : SameLease lead id other) :
    other.isEmpty = id.isEmpty := by
  rcases h with ⟨rfl, rfl⟩ | ⟨generation, rfl, rfl⟩
  · rfl
  · rw [grantIdOf_isEmpty, grantIdOf_isEmpty]

/-- A grant is the active one in both processes or in none. -/
theorem SameLease.eq_iff {id : GrantId} {active : GrantId} (h : SameLease lead id active)
    (hgrant : Renewed lead grant other) : active = other.id ↔ id = grant.id := by
  obtain ⟨generation, hid, hother⟩ := hgrant.id
  rw [hid, hother]
  rcases h with ⟨rfl, rfl⟩ | ⟨generation', rfl, rfl⟩
  · have hne (generation : UInt64) : ({} : GrantId) ≠ grantIdOf generation := fun hsame => by
      have hempty := grantIdOf_isEmpty generation
      rw [← hsame] at hempty
      simp [GrantId.isEmpty] at hempty
    simp [hne]
  · rw [grantIdOf_injective.eq_iff, grantIdOf_injective.eq_iff, UInt64.add_left_inj]

/-! ## The registry -/

theorem updateFirst_filter {α : Type} {p q : α → Bool} {f : α → α}
    (hq : ∀ a, p a → q a = true ∧ q (f a) = true) (as : List α) :
    (updateFirst p f as).filter q = updateFirst p f (as.filter q) := by
  induction as with
  | nil => rfl
  | cons a as ih =>
      by_cases ha : p a = true
      · simp [updateFirst, ha, hq a ha]
      · by_cases hqa : q a = true <;> simp [updateFirst, ha, hqa, ih]

theorem isAt_lead (handle : CognitionHandle) (m : Materialization) :
    (lead.materialization m).isAt (lead.handle handle) = m.isAt handle := by
  cases handle with
  | none => rfl
  | some pointee => simp [Lead.materialization, Lead.handle, Materialization.isAt]

theorem Minted.ahead (h : Minted handle) (hat : m.isAt (lead.handle handle) = true) :
    lead.addresses < m.address := by
  cases handle with
  | none => simp [Lead.handle] at hat
  | some pointee =>
      have hpositive := h pointee rfl
      simp only [Lead.handle, Option.map_some, Materialization.isAt_some,
        Lead.materialization] at hat
      omega

namespace Resumed

theorem findLive (h : Resumed lead used r s)
    (hminted : Minted handle) :
    s.findLive (lead.handle handle) = (r.findLive handle).map lead.materialization := by
  have hfilter : (s.live.filter fun m => lead.addresses < m.address).find?
      (fun entry => entry.isAt (lead.handle handle)) = s.findLive (lead.handle handle) := by
    rw [List.find?_filter, ServiceState.findLive]
    congr 1
    funext entry
    by_cases hat : entry.isAt (lead.handle handle) = true
    · simp [hat, hminted.ahead hat]
    · simp [hat]
  rw [← hfilter, h.live, List.find?_map]
  congr 1
  simp only [ServiceState.findLive]
  congr 1
  funext entry
  exact isAt_lead handle entry

theorem any_live (h : Resumed lead used r s) (hminted : Minted handle) :
    (s.live.any fun entry => entry.isAt (lead.handle handle)) =
      r.live.any fun entry => entry.isAt handle := by
  have hany (live : List Materialization) (p : Materialization → Bool) :
      live.any p = (live.find? p).isSome := by
    rw [Bool.eq_iff_iff, List.any_eq_true, List.find?_isSome]
  have hfind := congrArg Option.isSome (h.findLive hminted)
  rw [Option.isSome_map] at hfind
  rw [hany, hany]
  exact hfind

/-- A new entry is registered in both. -/
theorem register (h : Resumed lead used r s) (hr : r'.live = r.live ++ [m])
    (hs : s'.live = s.live ++ [lead.materialization m]) (hm : 0 < m.address) :
    (s'.live.filter fun m => lead.addresses < m.address) =
      r'.live.map lead.materialization := by
  have hahead : lead.addresses < (lead.materialization m).address := by
    simp only [Lead.materialization]
    omega
  rw [hs, hr, List.filter_append, List.map_append, h.live]
  simp [hahead]

theorem retire (h : Resumed lead used r s) (hminted : Minted handle) :
    ((s.live.eraseP fun entry => entry.isAt (lead.handle handle)).filter fun m =>
        lead.addresses < m.address) =
      (r.live.eraseP fun entry => entry.isAt handle).map lead.materialization := by
  have hboth : (fun entry : Materialization => entry.isAt (lead.handle handle) &&
      decide (lead.addresses < entry.address)) =
      fun entry => entry.isAt (lead.handle handle) := by
    funext entry
    by_cases hat : entry.isAt (lead.handle handle) = true
    · simp [hat, hminted.ahead hat]
    · simp [hat]
  have hcomp : ((fun entry : Materialization => entry.isAt (lead.handle handle)) ∘
      lead.materialization) = fun entry => entry.isAt handle :=
    funext fun entry => isAt_lead handle entry
  have hfilter := List.eraseP_filter (l := s.live)
    (p := fun entry => entry.isAt (lead.handle handle))
    (f := fun entry => decide (lead.addresses < entry.address))
  rw [hboth] at hfilter
  rw [← hfilter, h.live, List.eraseP_map, hcomp]

theorem replace (h : Resumed lead used r s) (hminted : Minted handle) (hm : 0 < m.address) :
    ((updateFirst (fun live => live.isAt (lead.handle handle))
        (fun _ => lead.materialization m) s.live).filter fun m => lead.addresses < m.address) =
      (updateFirst (fun live => live.isAt handle) (fun _ => m) r.live).map
        lead.materialization := by
  rw [updateFirst_filter fun live hat => ?_, h.live]
  · exact (map_updateFirst (q := fun live => live.isAt (lead.handle handle))
      (p := fun live => live.isAt handle) (g := fun _ => lead.materialization m)
      (fun live => isAt_lead handle live) (fun _ => rfl) r.live).symm
  · have hahead : lead.addresses < (lead.materialization m).address := by
      simp only [Lead.materialization]
      omega
    exact ⟨decide_eq_true (hminted.ahead hat), decide_eq_true hahead⟩

theorem withStore (h : Resumed lead used r s) (store : σ) :
    Resumed lead used { r with store := store } { s with store := store } :=
  { h with store := rfl }

theorem retireCognition (h : Resumed lead used r s) (hminted : Minted handle) :
    ∃ found r' s', r.retireCognition handle = (found, r') ∧
      s.retireCognition (lead.handle handle) = (found, s') ∧ Resumed lead used r' s' := by
  unfold ServiceState.retireCognition
  rw [h.any_live hminted]
  split_ifs
  · exact ⟨_, _, _, rfl, rfl, { h with live := h.retire hminted }⟩
  · exact ⟨_, _, _, rfl, rfl, h⟩

theorem releaseGrant (h : Resumed lead used r s) (hgrant : Renewed lead grant other) :
    Resumed lead used (r.releaseGrant grant) (s.releaseGrant other) := by
  unfold ServiceState.releaseGrant
  by_cases hid : r.activeGrantId = grant.id
  · rw [if_pos hid, if_pos ((h.lease.eq_iff hgrant).mpr hid)]
    exact { h with lease := .inl ⟨rfl, rfl⟩, actor := rfl }
  · rw [if_neg hid, if_neg (mt (h.lease.eq_iff hgrant).mp hid)]
    exact h

theorem withIdentity (h : Resumed lead used r s) :
    Resumed lead used r.withIdentity s.withIdentity :=
  { h with }

/-- The entry of the handle is replaced by what is allocated next. -/
theorem replaceEntry (h : Resumed lead used r s) (hminted : Minted handle)
    (hm : m.address = r.nextAddress) :
    Resumed lead used (r.replaceEntry handle m)
      (s.replaceEntry (lead.handle handle) (lead.materialization m)) :=
  { h with
    live := h.replace hminted (hm ▸ h.started)
    started := Nat.succ_pos _
    nextAddress := by
      simp only [ServiceState.replaceEntry, h.nextAddress]
      omega }

end Resumed

theorem ahead_succ (count lead : UInt64) : count + lead + 1 = count + 1 + lead := by
  rw [UInt64.add_assoc, UInt64.add_comm lead, ← UInt64.add_assoc]

end Registry

section Service

variable [Foundation] {σ : Type} [MemoryBacked σ] {lead : Lead} {used : Str → Prop}
  {r s r' s' t : ServiceState σ} {handle : CognitionHandle} {transaction : ContextTransaction}
  {grant other : ExecutionGrant} {entry m : Materialization} {actor : AuthenticatedActor}

/-- Both are used as services are. -/
structure Beside (lead : Lead) (used : Str → Prop) (r s : ServiceState σ) : Prop extends
    Resumed lead used r s where
  steady : Steady r
  steady' : Steady s

/-- The head, where there is one, decodes. -/
def Readable (s : ServiceState σ) : Prop :=
  CognitionStore.head s.store ≠ {} → ∃ snapshot, s.storedHead = .ok snapshot

/-! ## Materializing -/

namespace Resumed

theorem loaded (h : Resumed lead used r s) (source : CognitionSource) :
    ∃ loaded store, r.loadCanonical source = (loaded, { r with store := store }) ∧
      s.loadCanonical source = (loaded, { s with store := store }) := by
  have hid : s.bootId source = r.bootId source := by
    unfold bootId
    rw [h.store]
  unfold loadCanonical
  simp only [hid, h.store]
  split_ifs
  · exact ⟨_, r.store, rfl, by rw [← h.store]⟩
  · exact ⟨_, _, rfl, rfl⟩
  · exact ⟨_, r.store, rfl, by rw [← h.store]⟩

omit [MemoryBacked σ] in
theorem minted (h : Resumed lead used r s) (snapshot : Snapshot) (bytes : Bytes)
    (revision : RevisionId) (quarantine : QuarantineState) :
    s.minted snapshot bytes revision quarantine =
      lead.materialization (r.minted snapshot bytes revision quarantine) := by
  simp only [ServiceState.minted, Lead.materialization, h.nextAddress, h.epoch, ahead_succ]

omit [MemoryBacked σ] in
theorem mint (h : Resumed lead used r s) (bytes : Bytes) (revision : RevisionId)
    (quarantine : QuarantineState) :
    ∃ minted r' s', r.mint bytes revision quarantine = (minted, r') ∧
      s.mint bytes revision quarantine = (minted.map lead.materialization, s') ∧
      Resumed lead used r' s' := by
  unfold ServiceState.mint
  split_ifs
  · exact ⟨_, r, s, rfl, rfl, h⟩
  · cases deserialize bytes with
    | error error => exact ⟨_, r, s, rfl, rfl, h⟩
    | ok snapshot =>
        dsimp only
        rw [h.minted]
        refine ⟨_, _, _, rfl, rfl, ?_⟩
        exact { h with
          live := h.register rfl rfl h.started
          started := Nat.succ_pos _
          nextAddress := by
            simp only [ServiceState.register, h.nextAddress]
            omega
          epoch := by simp only [ServiceState.register, h.epoch, ahead_succ] }

omit [Foundation] [MemoryBacked σ] in
theorem creation_ofExcept (minted : Except DeserializeError Materialization) :
    Creation.ofExcept (minted.map lead.materialization) =
      lead.creation (Creation.ofExcept minted) := by
  cases minted <;> rfl

theorem createCognition (h : Resumed lead used r s) (source : CognitionSource) :
    ∃ creation r' s', r.createCognition source = (creation, r') ∧
      s.createCognition source = (lead.creation creation, s') ∧ Resumed lead used r' s' := by
  unfold ServiceState.createCognition
  cases source.kind with
  | canonicalRemote =>
      obtain ⟨loaded, store, hr, hs⟩ := h.loaded source
      dsimp only
      rw [hr, hs]
      cases loaded with
      | error error => exact ⟨_, _, _, rfl, rfl, h.withStore store⟩
      | ok loaded =>
          obtain ⟨minted, r', s', hr', hs', hafter⟩ :=
            (h.withStore store).mint loaded.1 loaded.2 .promoted
          refine ⟨Creation.ofExcept minted, r', s', ?_, ?_, hafter⟩
          · simp only [hr']
          · simp only [hs', creation_ofExcept]
  | handoffArtifact =>
      dsimp only
      cases loadArtifact source with
      | error error => exact ⟨_, r, s, rfl, rfl, h⟩
      | ok bytes =>
          obtain ⟨minted, r', s', hr', hs', hafter⟩ := h.mint bytes {} .isolated
          refine ⟨Creation.ofExcept minted, r', s', ?_, ?_, hafter⟩
          · simp only [hr']
          · simp only [hs', creation_ofExcept]
  | compressedStream => exact ⟨_, r, s, rfl, rfl, h⟩

/-! ## The gated write -/

omit [MemoryBacked σ] in
theorem resolveKey (h : Resumed lead used r s) (hkey : ¬ used transaction.idempotencyKey) :
    s.resolveKey transaction = (r.resolveKey transaction).map lead.verdict := by
  unfold ServiceState.resolveKey
  split_ifs
  · rfl
  · rw [h.receipts _ hkey]
    cases r.receipts transaction.idempotencyKey with
    | none => rfl
    | some receipt =>
        simp only [Option.map_some, Lead.receipt]
        split_ifs <;> rfl

omit [MemoryBacked σ] in
theorem record (h : Resumed lead used r s) (transaction : ContextTransaction)
    (verdict : Verdict) :
    Resumed lead used (r.record transaction verdict)
      (s.record transaction (lead.verdict verdict)) := by
  unfold ServiceState.record
  split_ifs
  · exact h
  · refine { h with receipts := fun key hkey => ?_ }
    by_cases hsame : key = transaction.idempotencyKey
    · subst hsame
      simp [Function.update_self, Lead.receipt]
    · simpa [Function.update_of_ne hsame] using h.receipts key hkey

theorem commit (h : Resumed lead used r s) (hminted : Minted handle)
    (entry : Materialization) (transaction : ContextTransaction) (next : Snapshot) :
    ∃ verdict r' s', r.commit handle entry transaction next = (verdict, r') ∧
      s.commit (lead.handle handle) (lead.materialization entry) transaction next =
        (lead.verdict verdict, s') ∧ Resumed lead used r' s' := by
  unfold ServiceState.commit
  have hrevision : (lead.materialization entry).revision = entry.revision := rfl
  rw [hrevision, h.store]
  rcases CognitionStore.compareAndSwap r.store entry.revision (serializeSnapshot next) with
    ⟨receipt, store⟩
  have hstore := h.withStore store
  dsimp only
  cases receipt.kind with
  | compareFailed => exact ⟨_, _, _, rfl, rfl, hstore⟩
  | outcomeUnknown =>
      exact ⟨_, _, _, rfl, rfl, hstore.record transaction
        { outcome := .outcomeUnknown, reason := .outcomeUnresolved }⟩
  | committed =>
      have hsuccessor : ({ s with store := store } : ServiceState σ).successorMaterialization
          (lead.materialization entry) next receipt.revision = lead.materialization
            (({ r with store := store } : ServiceState σ).successorMaterialization entry next
              receipt.revision) := by
        simp only [successorMaterialization, Lead.materialization, h.nextAddress]
      dsimp only
      rw [hsuccessor]
      exact ⟨_, _, _, rfl, rfl, (hstore.replaceEntry hminted rfl).record transaction _⟩

end Resumed

namespace Beside

/-! ## The head and the lease -/

theorem readable (h : Beside lead used r s) (hreadable : Readable r) : Readable s := by
  intro hhead
  rw [h.store] at hhead
  obtain ⟨snapshot, hsnapshot⟩ := hreadable hhead
  refine ⟨snapshot, ?_⟩
  rw [storedHead, h.store]
  exact hsnapshot

theorem canonicalHead (h : Beside lead used r s) (hreadable : Readable r) :
    r.canonicalHead.map Snapshot.governance = s.canonicalHead.map Snapshot.governance := by
  by_cases hhead : CognitionStore.head r.store = {}
  · have hempty : (CognitionStore.head r.store).isEmpty = true := RevisionId.isEmpty_iff.mpr hhead
    rw [canonicalHead_eq, canonicalHead_eq, h.store, if_pos hempty, if_pos hempty]
  · have hhead' : CognitionStore.head s.store ≠ {} := h.store ▸ hhead
    obtain ⟨snapshot, hsnapshot⟩ := exists_canonicalHead_of hhead (hreadable hhead)
    obtain ⟨snapshot', hsnapshot'⟩ := exists_canonicalHead_of hhead' (h.readable hreadable hhead')
    rw [hsnapshot, hsnapshot', Option.map_some, Option.map_some,
      h.steady.ruled.canonicalHead hsnapshot, h.steady'.ruled.canonicalHead hsnapshot']

theorem verifies (h : Beside lead used r s) (hreadable : Readable r)
    (actor : AuthenticatedActor) :
    s.withIdentity.verifies actor = r.withIdentity.verifies actor := by
  have hgoverned : r.withIdentity.canonicalHead.map Snapshot.governance =
      s.withIdentity.canonicalHead.map Snapshot.governance := h.canonicalHead hreadable
  unfold ServiceState.verifies
  rw [h.steady.port.withIdentity, h.steady'.port.withIdentity]
  cases hr : r.withIdentity.canonicalHead with
  | none =>
      cases hs : s.withIdentity.canonicalHead with
      | none => rfl
      | some governance' => simp [hr, hs] at hgoverned
  | some governance =>
      cases hs : s.withIdentity.canonicalHead with
      | none => simp [hr, hs] at hgoverned
      | some governance' =>
          rw [hr, hs, Option.map_some, Option.map_some, Option.some.injEq] at hgoverned
          simp only [rootPrincipalVerifier, hgoverned]

/-! ## The calls -/

theorem acquireGrant (h : Beside lead used r s) (hreadable : Readable r)
    (actor : AuthenticatedActor) (mode : WorkMode) :
    ∃ grant other r' s', r.acquireGrant actor mode = (grant, r') ∧
      s.acquireGrant actor mode = (other, s') ∧ Resumed lead used r' s' ∧
      SameAnswer lead (.granted grant) (.granted other) := by
  unfold ServiceState.acquireGrant
  dsimp only
  rw [h.lease.isEmpty, h.verifies hreadable]
  by_cases hheld : ¬ r.activeGrantId.isEmpty = true
  · rw [if_pos hheld, if_pos hheld]
    exact ⟨_, _, _, _, rfl, rfl, h.toResumed, .refused⟩
  rw [if_neg hheld, if_neg hheld]
  by_cases hunverified : ¬ r.withIdentity.verifies actor = true
  · rw [if_pos hunverified, if_pos hunverified]
    exact ⟨_, _, _, _, rfl, rfl, h.withIdentity, .refused⟩
  rw [if_neg hunverified, if_neg hunverified]
  have hgeneration : s.withIdentity.grantGeneration + 1 =
      r.withIdentity.grantGeneration + 1 + lead.grants := by
    rw [h.withIdentity.generation, ahead_succ]
  refine ⟨_, _, _, _, rfl, rfl, ?_, .granted ⟨⟨_, rfl, ?_⟩, h.epoch, rfl, rfl⟩⟩
  · refine { h.withIdentity with
      lease := .inr ⟨_, rfl, ?_⟩, actor := rfl, generation := hgeneration }
    rw [← hgeneration]
    rfl
  · rw [← hgeneration]
    rfl

/-- The gates before the snapshot is looked at. -/
theorem leaseGates (h : Beside lead used r s) (hreadable : Readable r) (hminted : Minted handle)
    (hgrant : Renewed lead grant other) :
    (∃ halt, r.leaseGates handle grant = .error halt ∧
      s.leaseGates (lead.handle handle) other = .error halt) ∨
    ∃ entry governance governance', r.leaseGates handle grant = .ok (entry, governance) ∧
      s.leaseGates (lead.handle handle) other = .ok (lead.materialization entry, governance') ∧
      governance'.governance = governance.governance := by
  unfold ServiceState.leaseGates
  rw [h.findLive hminted]
  cases r.findLive handle with
  | none => exact .inl ⟨_, rfl, rfl⟩
  | some entry =>
      simp only [Option.map_some]
      have hquarantine : (lead.materialization entry).quarantine = entry.quarantine := rfl
      rw [hquarantine]
      have hlease : (s.activeGrantId.isEmpty = true ∨ s.activeGrantId ≠ other.id) ↔
          (r.activeGrantId.isEmpty = true ∨ r.activeGrantId ≠ grant.id) := by
        rw [h.lease.isEmpty, Ne, h.lease.eq_iff hgrant]
      by_cases hpromoted : entry.quarantine ≠ .promoted
      · rw [if_pos hpromoted, if_pos hpromoted]
        exact .inl ⟨_, rfl, rfl⟩
      rw [if_neg hpromoted, if_neg hpromoted]
      by_cases hfree : r.activeGrantId.isEmpty = true ∨ r.activeGrantId ≠ grant.id
      · rw [if_pos hfree, if_pos (hlease.mpr hfree)]
        exact .inl ⟨_, rfl, rfl⟩
      rw [if_neg hfree, if_neg (mt hlease.mp hfree)]
      have hactive : r.activeGrantId.isEmpty = false :=
        Bool.eq_false_iff.mpr fun hempty => hfree (.inl hempty)
      rw [h.steady.port.leased hactive, h.steady'.port.leased (h.lease.isEmpty.trans hactive),
        h.actor]
      have hgoverned := h.canonicalHead hreadable
      cases hr : r.canonicalHead with
      | none =>
          cases hs : s.canonicalHead with
          | none => exact .inl ⟨_, rfl, rfl⟩
          | some governance' => simp [hr, hs] at hgoverned
      | some governance =>
          cases hs : s.canonicalHead with
          | none => simp [hr, hs] at hgoverned
          | some governance' =>
              rw [hr, hs, Option.map_some, Option.map_some, Option.some.injEq] at hgoverned
              have hsame : rootPrincipalVerifier r.grantActor governance' =
                  rootPrincipalVerifier r.grantActor governance := by
                simp only [rootPrincipalVerifier, hgoverned]
              dsimp only
              rw [hsame]
              split_ifs
              · exact .inr ⟨entry, governance, governance', rfl, rfl, hgoverned.symm⟩
              · exact .inl ⟨_, rfl, rfl⟩

theorem admission (h : Beside lead used r s) (hreadable : Readable r) (hminted : Minted handle)
    (transaction : ContextTransaction) (hgrant : Renewed lead grant other) :
    s.admission (lead.handle handle) transaction other =
      (r.admission handle transaction grant).map fun admitted =>
        (lead.materialization admitted.1, admitted.2) := by
  unfold ServiceState.admission
  rw [hgrant.mode, h.actor]
  rcases h.leaseGates hreadable hminted hgrant with ⟨halt, hr, hs⟩ |
    ⟨entry, governance, governance', hr, hs, hgoverned⟩
  · rw [hr, hs]
    rfl
  · rw [hr, hs]
    have hrevision : (lead.materialization entry).revision = entry.revision := rfl
    have hstate : (lead.materialization entry).state = entry.state := rfl
    simp only [bind, Except.bind, hrevision, hstate, hgoverned]
    cases refuseIf .unattendedMutation
        (grant.mode = .unattended ∧ ¬ transaction.operations.isEmpty = true) with
    | error halt => rfl
    | ok =>
        cases refuseIf .staleBase (transaction.base ≠ entry.revision) with
        | error halt => rfl
        | ok =>
            dsimp only
            split_ifs
            · rfl
            · cases successorOf entry.state governance.governance.rootPrincipal
                r.grantActor.binding transaction <;> rfl

theorem writeToCognition (h : Beside lead used r s) (hreadable : Readable r)
    (hminted : Minted handle) (hkey : ¬ used transaction.idempotencyKey)
    (hgrant : Renewed lead grant other) {verdict : Verdict}
    (hwrite : r.writeToCognition handle transaction grant = some (verdict, r')) :
    ∃ s', s.writeToCognition (lead.handle handle) transaction other =
      some (lead.verdict verdict, s') ∧ Resumed lead used r' s' := by
  unfold ServiceState.writeToCognition at hwrite ⊢
  rw [h.resolveKey hkey, h.admission hreadable hminted transaction hgrant]
  cases hkeyed : r.resolveKey transaction with
  | some recorded =>
      rw [hkeyed] at hwrite
      obtain ⟨rfl, rfl⟩ := Prod.mk.inj (Option.some.inj hwrite)
      exact ⟨s, rfl, h.toResumed⟩
  | none =>
      rw [hkeyed] at hwrite
      dsimp only [Option.map_none] at hwrite ⊢
      split at hwrite
      · next reason hadmission =>
          obtain ⟨rfl, rfl⟩ := Prod.mk.inj (Option.some.inj hwrite)
          rw [hadmission]
          exact ⟨s, rfl, h.toResumed⟩
      · simp at hwrite
      · next entry hadmission =>
          obtain ⟨rfl, rfl⟩ := Prod.mk.inj (Option.some.inj hwrite)
          rw [hadmission]
          exact ⟨s, rfl, h.toResumed⟩
      · next entry next hadmission =>
          obtain ⟨verdict, r'', s'', hr, hs, hafter⟩ :=
            h.toResumed.commit hminted entry transaction next
          rw [hr] at hwrite
          obtain ⟨rfl, rfl⟩ := Prod.mk.inj (Option.some.inj hwrite)
          rw [hadmission]
          exact ⟨s'', congrArg some hs, hafter⟩

theorem moveQuarantine (h : Beside lead used r s) (hreadable : Readable r)
    (hminted : Minted handle) (actor : AuthenticatedActor) (source target : QuarantineState) :
    ∃ moved r' s', r.moveQuarantine handle actor source target = (moved, r') ∧
      s.moveQuarantine (lead.handle handle) actor source target = (lead.handle moved, s') ∧
      Resumed lead used r' s' := by
  unfold ServiceState.moveQuarantine
  dsimp only
  have hfind : s.withIdentity.findLive (lead.handle handle) =
      (r.withIdentity.findLive handle).map lead.materialization := h.findLive hminted
  rw [h.verifies hreadable, hfind]
  by_cases hunverified : ¬ r.withIdentity.verifies actor = true
  · rw [if_pos hunverified, if_pos hunverified]
    exact ⟨_, _, _, rfl, rfl, h.withIdentity⟩
  rw [if_neg hunverified, if_neg hunverified]
  cases r.withIdentity.findLive handle with
  | none => exact ⟨_, _, _, rfl, rfl, h.withIdentity⟩
  | some entry =>
      have hquarantine : (lead.materialization entry).quarantine = entry.quarantine := rfl
      simp only [Option.map_some]
      rw [hquarantine]
      by_cases hother : entry.quarantine ≠ source
      · rw [if_pos hother, if_pos hother]
        exact ⟨_, _, _, rfl, rfl, h.withIdentity⟩
      rw [if_neg hother, if_neg hother]
      have hmoved : ({ lead.materialization entry with
          address := s.withIdentity.nextAddress, quarantine := target } : Materialization) =
          lead.materialization { entry with
            address := r.withIdentity.nextAddress, quarantine := target } := by
        simp only [Lead.materialization, h.withIdentity.nextAddress]
      rw [hmoved]
      exact ⟨_, _, _, rfl, rfl, h.withIdentity.replaceEntry hminted rfl⟩

theorem step (h : Beside lead used r s) (hreadable : Readable r) {call call' : Call}
    {answer : Answer} (hcall : Resent lead used call call')
    (hstep : r.step call = some (answer, r')) :
    ∃ answer' s', s.step call' = some (answer', s') ∧ SameAnswer lead answer answer' ∧
      Beside lead used r' s' := by
  obtain ⟨hport, hport'⟩ : KeepsPort call ∧ KeepsPort call' := by
    cases hcall with
    | attachIdentityVerifier hattached => simp [KeepsPort, hattached]
    | _ => simp [KeepsPort]
  suffices hsuffices : ∃ answer' s', s.step call' = some (answer', s') ∧
      SameAnswer lead answer answer' ∧ Resumed lead used r' s' by
    obtain ⟨answer', s', hstep', hanswer, hafter⟩ := hsuffices
    exact ⟨answer', s', hstep', hanswer,
      { hafter with
        steady := h.steady.step hstep hport, steady' := h.steady'.step hstep' hport' }⟩
  cases hcall with
  | createCognition source =>
      obtain ⟨creation, r'', s'', hr, hs, hafter⟩ := h.createCognition source
      simp only [ServiceState.step, hr, hs] at hstep ⊢
      obtain ⟨rfl, rfl⟩ := Prod.mk.inj (Option.some.inj hstep)
      exact ⟨_, s'', rfl, .created creation, hafter⟩
  | retireCognition hminted =>
      obtain ⟨found, r'', s'', hr, hs, hafter⟩ := h.retireCognition hminted
      simp only [ServiceState.step, hr, hs] at hstep ⊢
      obtain ⟨rfl, rfl⟩ := Prod.mk.inj (Option.some.inj hstep)
      exact ⟨_, s'', rfl, .retired found, hafter⟩
  | acquireGrant actor mode =>
      obtain ⟨grant, other, r'', s'', hr, hs, hafter, hanswer⟩ :=
        h.acquireGrant hreadable actor mode
      simp only [ServiceState.step, hr, hs] at hstep ⊢
      obtain ⟨rfl, rfl⟩ := Prod.mk.inj (Option.some.inj hstep)
      exact ⟨_, s'', rfl, hanswer, hafter⟩
  | releaseGrant hgrant =>
      obtain ⟨rfl, rfl⟩ := Prod.mk.inj (Option.some.inj hstep)
      exact ⟨_, _, rfl, .done, h.releaseGrant hgrant⟩
  | @writeToCognition handle transaction grant other hminted hkey hgrant =>
      simp only [ServiceState.step] at hstep ⊢
      cases hwrite : r.writeToCognition handle transaction grant with
      | none => simp [hwrite] at hstep
      | some result =>
          obtain ⟨verdict, r''⟩ := result
          rw [hwrite] at hstep
          obtain ⟨rfl, rfl⟩ := Prod.mk.inj (Option.some.inj hstep)
          obtain ⟨s', hs, hafter⟩ := h.writeToCognition hreadable hminted hkey hgrant hwrite
          rw [hs]
          exact ⟨_, s', rfl, .verdict verdict, hafter⟩
  | verifyRestored hminted actor =>
      obtain ⟨moved, r'', s'', hr, hs, hafter⟩ :=
        h.moveQuarantine hreadable hminted actor .isolated .verified
      simp only [ServiceState.step, ServiceState.verifyRestored, hr, hs] at hstep ⊢
      obtain ⟨rfl, rfl⟩ := Prod.mk.inj (Option.some.inj hstep)
      exact ⟨_, s'', rfl, .handle moved, hafter⟩
  | promoteAuthority hminted actor =>
      obtain ⟨moved, r'', s'', hr, hs, hafter⟩ :=
        h.moveQuarantine hreadable hminted actor .authorityPending .promoted
      simp only [ServiceState.step, ServiceState.promoteAuthority, hr, hs] at hstep ⊢
      obtain ⟨rfl, rfl⟩ := Prod.mk.inj (Option.some.inj hstep)
      exact ⟨_, s'', rfl, .handle moved, hafter⟩
  | attachIdentityVerifier hattached =>
      obtain ⟨rfl, rfl⟩ := Prod.mk.inj (Option.some.inj hstep)
      exact ⟨_, _, rfl, .done, { h.toResumed with }⟩
  | canonicalHead =>
      obtain ⟨rfl, rfl⟩ := Prod.mk.inj (Option.some.inj hstep)
      exact ⟨_, s, rfl, .head (h.canonicalHead hreadable), h.toResumed⟩
  | currentEpoch =>
      obtain ⟨rfl, rfl⟩ := Prod.mk.inj (Option.some.inj hstep)
      refine ⟨_, s, rfl, ?_, h.toResumed⟩
      rw [h.epoch]
      exact .epoch _

end Beside

/-! ## The start -/

/-- The counters of the first process where the second one starts. -/
def leadOf (s : ServiceState σ) : Lead where
  addresses := s.nextAddress - 1
  epochs := s.epoch
  grants := s.grantGeneration

theorem started_of_run {store : σ} {trs : List (ServiceTransition σ)}
    (hrun : ServiceRun (ServiceState.start store) trs s) : 0 < s.nextAddress := by
  refine hrun.invariant (C := fun _ => True) (P := fun s => 0 < s.nextAddress)
    (fun _ _ => trivial) (Nat.succ_pos _) fun tr hvalid _ hbefore => ?_
  cases lineageStep hvalid with
  | kept _ _ hnext _ => omega
  | retired _ _ _ _ hnext _ => omega
  | created _ _ _ _ _ hnext _ => omega
  | replaced _ _ _ _ _ _ hnext _ => omega

theorem beside_start {store : σ} {past : List (ServiceTransition σ)}
    (hempty : (MemoryBacked.memory store).revisions = [])
    (hpast : ServiceRun (ServiceState.start store) past s)
    (hport : ∀ tr ∈ past, KeepsPort tr.action) (hfree : s.activeGrantId.isEmpty = true) :
    Beside (leadOf s) (fun key => s.receipts key ≠ none) (ServiceState.start s.store) s := by
  have hsteady := steady_of_run hempty hpast hport
  have hstarted := started_of_run hpast
  have hidle : s.activeGrantId = {} := GrantId.isEmpty_iff.mp hfree
  refine ⟨⟨rfl, ?_, Nat.one_pos, ?_, (UInt64.zero_add _).symm, (UInt64.zero_add _).symm,
    .inl ⟨rfl, hidle⟩, grantActor_idle hpast hidle, ?_⟩, ⟨⟨hsteady.ruled.stored, ?_, ?_⟩,
    addressed_start _, .inr ⟨rfl, rfl⟩⟩, hsteady⟩
  · refine List.filter_eq_nil_iff.mpr fun m hm hahead => ?_
    have hold := hsteady.addressed.fresh m hm
    have hnew : s.nextAddress - 1 < m.address := of_decide_eq_true hahead
    omega
  · simp only [ServiceState.start, leadOf]
    omega
  · intro key hunused
    rw [not_not.mp hunused]
    rfl
  · simp [ServiceState.start]
  · simp [ServiceState.start]

theorem Rooted.readable {Q : Snapshot → Prop} (h : Rooted (Sized 100000 Q) s) : Readable s := by
  intro hhead
  obtain ⟨snapshot, hsnapshot, hbytes⟩ := h.head_encodes hhead
  refine ⟨restored snapshot, ?_⟩
  rw [storedHead, hbytes, deserialize_serialize hsnapshot.strings hsnapshot.vectors]

/-- Sized runs are readable on both sides of a restart. -/
theorem readable_of_restart {store : σ} {past trs : List (ServiceTransition σ)}
    (hempty : (MemoryBacked.memory store).revisions = [])
    (hpast : ServiceRun (ServiceState.start store) past s)
    (hrun : ServiceRun (ServiceState.start s.store) trs t)
    (hsized : SizedRun 100000 (past ++ trs)) : ∀ tr ∈ trs, Readable tr.before := by
  obtain ⟨hrooted, -⟩ := rooted_of_sizedRun (Q := fun _ => True) (by norm_num) (by norm_num)
    hempty hpast (hsized.subset (List.subset_append_left _ _)) trivial (fun _ _ => trivial)
    fun _ _ _ _ _ _ _ _ => trivial
  have hstart : Rooted (Sized 100000 fun _ => True) (ServiceState.start s.store) :=
    ⟨hrooted.stored, by simp [ServiceState.start], by simp [ServiceState.start],
      by simp [ServiceState.start], hrooted.named⟩
  obtain ⟨-, hall, -⟩ := hstart.sizedRun (by norm_num) (by norm_num) hrun
    (hsized.subset (List.subset_append_right _ _)) trivial (fun _ _ => trivial)
    fun _ _ _ _ _ _ _ _ => trivial
  exact fun tr htr => (hall tr htr).1.readable

/-- A process that starts on the store of one whose lease was free: whatever runs on
it, the first process would have run with the same answers, up to what the counters
were ahead, and with the same store after every call. -/
theorem restart_transparent {store : σ} {past trs : List (ServiceTransition σ)}
    {calls : List Call} (hempty : (MemoryBacked.memory store).revisions = [])
    (hpast : ServiceRun (ServiceState.start store) past s)
    (hport : ∀ tr ∈ past, KeepsPort tr.action) (hfree : s.activeGrantId.isEmpty = true)
    (hrun : ServiceRun (ServiceState.start s.store) trs t)
    (hsized : SizedRun 100000 (past ++ trs))
    (hcalls : List.Forall₂ (fun tr call => Resent (leadOf s) (fun key => s.receipts key ≠ none)
      (Transition.action tr) call) trs calls) :
    ∃ trs' t', ServiceRun s trs' t' ∧ trs'.map Transition.action = calls ∧
      List.Forall₂ (fun tr tr' => SameAnswer (leadOf s) (Transition.answer tr)
        (Transition.answer tr') ∧ tr'.after.store = tr.after.store) trs trs' := by
  have hreadable := readable_of_restart hempty hpast hrun hsized
  obtain ⟨trs', t', hrun', hactions, hinstep, -⟩ := Lockstep.exists_run_of
    (B := SameAnswer (leadOf s)) hrun (beside_start hempty hpast hport hfree) hcalls
    fun tr htr hvalid u call hbefore hcall => hbefore.step (hreadable tr htr) hcall hvalid
  exact ⟨trs', t', hrun', hactions, hinstep.imp fun _ _ h => ⟨h.answer, h.after.store⟩⟩

end Service

section Built

variable [Foundation]

/-- A process boots an empty store, takes the lease, gives it back and stops. One that
starts on its store boots, takes the lease and writes. -/
theorem exists_restart :
    ∃ past s trs t m, ServiceRun (ServiceState.start ({} : MemoryStore)) past s ∧
      (∀ tr ∈ past, KeepsPort tr.action) ∧ s.activeGrantId.isEmpty = true ∧
      (∀ key, s.receipts key = none) ∧ ServiceRun (ServiceState.start s.store) trs t ∧
      SizedRun 100000 (past ++ trs) ∧ trs.map Transition.action =
        [.createCognition {}, .acquireGrant rootActor .supervisedForeground,
          .writeToCognition (some m) (keyedEvidence m.revision) firstGrant] ∧
      Minted (some m) ∧ t.store ≠ s.store := by
  obtain ⟨booted, leased, m, hfirst, hsecond, honHead, -, -, hrevision₀, hrevisions, hstore,
    hreceipts⟩ := exists_boot
  have hpast := (((Run.nil (ServiceState.start ({} : MemoryStore))).snoc hfirst).snoc hsecond).snoc
    (a := .releaseGrant firstGrant) (b := .done) rfl
  have hkept : (leased.releaseGrant firstGrant).store = booted.store :=
    releaseGrant_sameHead.store.trans hstore
  let fresh : ServiceState MemoryStore :=
    ServiceState.start (leased.releaseGrant firstGrant).store
  have hrevisions' : fresh.store.revisions = [(m.revision, serializeSnapshot makeGenesis)] :=
    (congrArg MemoryStore.revisions hkept).trans hrevisions
  obtain ⟨hhead, hparsed⟩ := storedHead_of_genesis hrevisions'
  have hnamed : fresh.store.head ≠ {} := by
    rw [hhead, hrevision₀]
    exact revisionOf_ne_empty _ _
  obtain ⟨rebooted, leased', m', hboot, hthird, honHead', hstate', haddress, hstore',
    hreceipts'⟩ := exists_rebooted hnamed hparsed rfl
  obtain ⟨t, m'', hwrote, hstate''⟩ :=
    honHead'.writeEvidence (hstate' ▸ genesis_quiet) (keyedEvidence m'.revision)
      (resolveKey_fresh (hreceipts' _)) rfl (by simp [keyedEvidence])
      (keyedEvidence_evidenceOnly _)
  have hrun := hwrote.run (((Run.nil fresh).snoc hboot).snoc hthird)
  refine ⟨_, leased.releaseGrant firstGrant, _, t, m', hpast, ?_,
    releaseGrant_free honHead.lease, fun key => ?_, hrun, ?_, rfl, ?_, ?_⟩
  · intro tr htr
    simp only [List.nil_append, List.cons_append, List.mem_cons, List.not_mem_nil,
      or_false] at htr
    rcases htr with rfl | rfl | rfl <;> simp [KeepsPort]
  · rw [releaseGrant_receipts, hreceipts]
  · rw [← List.append_assoc]
    refine hwrote.sizedRun (by simp [NoWrites]) (keyedEvidence_short m'.revision) ?_
    rw [hstate']
    exact (keyedEvidence_evidenceOnly m'.revision).room (by simp [keyedEvidence])
  · intro pointee hpointee
    obtain rfl := Option.some.inj hpointee
    rw [haddress]
    exact Nat.one_pos
  · intro hsame
    have hnew : leased'.store.headBytes ≠ some (serializeSnapshot m''.state) := by
      have hbytes' : leased'.store.headBytes = some (serializeSnapshot makeGenesis) := by
        have hbooted : leased'.store.revisions = fresh.store.revisions :=
          congrArg MemoryStore.revisions hstore'
        simp [MemoryStore.headBytes, hbooted, hrevisions']
      rw [hbytes', hstate'', hstate']
      exact fun hequal => keyedEvidence_new m'.revision (Option.some.inj hequal).symm
    have hlength := congrArg List.length (hwrote.revisions honHead' hnew).1
    have hunmoved : t.store = leased'.store := hsame.trans hstore'.symm
    rw [hunmoved] at hlength
    simp at hlength

end Built

open scoped QivenContext.Reference in
theorem restarted_write :
    ∃ (s t t' : ServiceState MemoryStore) (trs trs' : List (ServiceTransition MemoryStore)),
      ServiceRun (ServiceState.start s.store) trs t ∧ ServiceRun s trs' t' ∧ t.store ≠ s.store ∧
        List.Forall₂ (fun tr tr' => SameAnswer (leadOf s) (Transition.answer tr)
          (Transition.answer tr') ∧ tr'.after.store = tr.after.store) trs trs' := by
  obtain ⟨past, s, trs, t, m, hpast, hport, hfree, hunused, hrun, hsized, hactions, hminted,
    hmoved⟩ := exists_restart
  let second : ExecutionGrant :=
    { firstGrant with
      id := grantIdOf (1 + (leadOf s).grants), epoch := firstGrant.epoch + (leadOf s).epochs }
  have hgrant : Renewed (leadOf s) firstGrant second := ⟨⟨1, rfl, rfl⟩, rfl, rfl, rfl⟩
  have hcalls : List.Forall₂ (fun tr call => Resent (leadOf s) (fun key => s.receipts key ≠ none)
      (Transition.action tr) call) trs
      [.createCognition {}, .acquireGrant rootActor .supervisedForeground,
        .writeToCognition ((leadOf s).handle (some m)) (keyedEvidence m.revision) second] := by
    rw [← List.forall₂_map_left_iff (f := Transition.action), hactions]
    exact .cons (.createCognition _) (.cons (.acquireGrant _ _)
      (.cons (.writeToCognition hminted (not_not.mpr (hunused _)) hgrant) .nil))
  obtain ⟨trs', t', hrun', -, hsame⟩ :=
    restart_transparent rfl hpast hport hfree hrun hsized hcalls
  exact ⟨s, t, t', trs, trs', hrun, hrun', hmoved, hsame⟩

end QivenContext
