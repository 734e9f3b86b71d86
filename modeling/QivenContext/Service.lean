import QivenContext.Deserialize
import QivenContext.Gates
import QivenContext.Genesis
import QivenContext.Library.Transition
import QivenContext.Store

/-!
# The gated service

The static state of `QivenContext` and its calls. The admission mutex makes
every call one step. A call whose recursion never returns has no result.
-/

namespace QivenContext

open Library

structure Receipt where
  requestDigest : Str := []
  outcome : Verdict := {}
  deriving DecidableEq, Inhabited

/-- The static members of the service; `nextAddress` is the next allocation. -/
structure ServiceState (σ : Type) where
  store : σ
  identity : Option IdentityVerifier := none
  live : List Materialization := []
  activeGrantId : GrantId := {}
  grantActor : AuthenticatedActor := {}
  grantGeneration : UInt64 := 0
  receipts : Str → Option Receipt := fun _ => none
  epoch : Epoch := 0
  nextAddress : ℕ := 1

namespace ServiceState

variable [Foundation] {σ : Type} [CognitionStore σ]

/-- `canonical_head_locked`: the live canonical materialization, else the
stored bytes. -/
def canonicalHead (s : ServiceState σ) : Option Snapshot :=
  let head := CognitionStore.head s.store
  if head.isEmpty then none
  else
    match s.live.find? fun entry => entry.revision = head ∧ entry.quarantine = .promoted with
    | some entry => some entry.state
    | none => (deserialize (CognitionStore.materialize s.store head)).toOption

/-- `if (!g_identity) g_identity = make_shared<RootPrincipalVerifier>()`. -/
def withIdentity (s : ServiceState σ) : ServiceState σ :=
  { s with identity := some (s.identity.getD rootPrincipalVerifier) }

/-- The actor passes the identity port against the canonical head. -/
def verifies (s : ServiceState σ) (actor : AuthenticatedActor) : Bool :=
  match s.canonicalHead, s.identity with
  | some governance, some verifier => verifier actor governance
  | _, _ => false

/-! ## Materializing -/

/-- The revision a cold boot addresses; an empty one means the head. -/
def bootId (s : ServiceState σ) (source : CognitionSource) : RevisionId :=
  if source.revision.isEmpty then CognitionStore.head s.store else source.revision

/-- A cold boot; a store without a state gets genesis as its first. -/
def loadCanonical (s : ServiceState σ) (source : CognitionSource) :
    Except DeserializeError (Bytes × RevisionId) × ServiceState σ :=
  let id := s.bootId source
  let bytes := CognitionStore.materialize s.store id
  if bytes.isEmpty ∧ ¬ id.isEmpty then
    (.error { kind := .truncated, detail := lit "revision not found: " ++ id.value }, s)
  else if bytes.isEmpty then
    let bytes := serializeSnapshot makeGenesis
    let (appended, store) := CognitionStore.compareAndSwap s.store {} bytes
    (.ok (bytes, appended.revision), { s with store := store })
  else (.ok (bytes, id), s)

def loadArtifact (source : CognitionSource) : Except DeserializeError Bytes :=
  if ¬ source.expectedDigest.isEmpty ∧ draftContentId source.inlineBytes ≠ source.expectedDigest
  then .error { kind := .digestMismatch, detail := lit "artifact digest mismatch" }
  else .ok source.inlineBytes

/-- The materialization of parsed bytes, with the next fencing token. -/
def minted (s : ServiceState σ) (snapshot : Snapshot) (bytes : Bytes) (revision : RevisionId)
    (quarantine : QuarantineState) : Materialization where
  address := s.nextAddress
  state := snapshot
  digest := draftSnapshotDigest bytes
  revision := revision
  epoch := s.epoch + 1
  quarantine := quarantine

def register (s : ServiceState σ) (materialization : Materialization) : ServiceState σ :=
  { s with
    epoch := s.epoch + 1
    live := s.live ++ [materialization]
    nextAddress := s.nextAddress + 1 }

/-- Parse the bytes and register the materialization they denote. -/
def mint (s : ServiceState σ) (bytes : Bytes) (revision : RevisionId)
    (quarantine : QuarantineState) : Except DeserializeError Materialization × ServiceState σ :=
  if bytes.isEmpty then (.error { kind := .truncated, detail := lit "empty source" }, s)
  else
    match deserialize bytes with
    | .error error => (.error error, s)
    | .ok snapshot =>
        let minted := s.minted snapshot bytes revision quarantine
        (.ok minted, s.register minted)

/-- The answer of `create_cognition`: a handle, a typed error, or the
`logic_error` of the transport that is not implemented. -/
inductive Creation where
  | handle (materialization : Materialization)
  | failed (error : DeserializeError)
  | threw

def Creation.ofExcept : Except DeserializeError Materialization → Creation
  | .ok materialization => .handle materialization
  | .error error => .failed error

def createCognition (s : ServiceState σ) (source : CognitionSource) :
    Creation × ServiceState σ :=
  match source.kind with
  | .canonicalRemote =>
      match s.loadCanonical source with
      | (.error error, s) => (.failed error, s)
      | (.ok (bytes, revision), s) =>
          let (minted, s) := s.mint bytes revision .promoted
          (.ofExcept minted, s)
  | .handoffArtifact =>
      match loadArtifact source with
      | .error error => (.failed error, s)
      | .ok bytes =>
          let (minted, s) := s.mint bytes {} .isolated
          (.ofExcept minted, s)
  | .compressedStream => (.threw, s)

def retireCognition (s : ServiceState σ) (handle : CognitionHandle) : Bool × ServiceState σ :=
  if s.live.any fun entry => entry.isAt handle then
    (true, { s with live := s.live.eraseP fun entry => entry.isAt handle })
  else (false, s)

/-! ## The lease -/

def acquireGrant (s : ServiceState σ) (actor : AuthenticatedActor) (mode : WorkMode) :
    Option ExecutionGrant × ServiceState σ :=
  if ¬ s.activeGrantId.isEmpty then (none, s)
  else
    let s := s.withIdentity
    if ¬ s.verifies actor then (none, s)
    else
      let generation := s.grantGeneration + 1
      let id : GrantId := { value := lit "grant-" ++ toStringUInt64 generation }
      (some { id := id, epoch := s.epoch, principal := actor.principal, mode := mode },
        { s with activeGrantId := id, grantActor := actor, grantGeneration := generation })

def releaseGrant (s : ServiceState σ) (grant : ExecutionGrant) : ServiceState σ :=
  if s.activeGrantId = grant.id then { s with activeGrantId := {}, grantActor := {} } else s

/-! ## The gated write -/

/-- Gate 3: the verdict a recorded key resolves to. -/
def resolveKey (s : ServiceState σ) (transaction : ContextTransaction) : Option Verdict :=
  if transaction.idempotencyKey.isEmpty then none
  else (s.receipts transaction.idempotencyKey).map fun receipt =>
    if receipt.requestDigest ≠ requestDigestOf transaction then .refuse .keyConflict
    else receipt.outcome

def findLive (s : ServiceState σ) (handle : CognitionHandle) : Option Materialization :=
  s.live.find? fun entry => entry.isAt handle

/-- Gates 0, 1 and 2: the handle, the lease and its actor. -/
def leaseGates (s : ServiceState σ) (handle : CognitionHandle) (grant : ExecutionGrant) :
    Except Halt (Materialization × Snapshot) :=
  match s.findLive handle with
  | none => .error (.refuse .staleBase)
  | some entry =>
      if entry.quarantine ≠ .promoted then .error (.refuse .governanceDenied)
      else if s.activeGrantId.isEmpty ∨ s.activeGrantId ≠ grant.id then
        .error (.refuse .grantRefused)
      else
        match s.canonicalHead, s.identity with
        | some governance, some verifier =>
            if verifier s.grantActor governance then .ok (entry, governance)
            else .error (.refuse .unverifiedActor)
        | _, _ => .error (.refuse .unverifiedActor)

/-- Gates 0 to 9: the entry of the handle and the successor snapshot, or no
successor for an ordinary turn. -/
def admission (s : ServiceState σ) (handle : CognitionHandle) (transaction : ContextTransaction)
    (grant : ExecutionGrant) : Except Halt (Materialization × Option Snapshot) := do
  let (entry, governance) ← s.leaseGates handle grant
  refuseIf .unattendedMutation (grant.mode = .unattended ∧ ¬ transaction.operations.isEmpty)
  refuseIf .staleBase (transaction.base ≠ entry.revision)
  if transaction.operations.isEmpty then return (entry, none)
  else
    let next ← successorOf entry.state governance.governance.rootPrincipal s.grantActor.binding
      transaction
    return (entry, some next)

/-- A keyed request leaves a receipt. -/
def record (s : ServiceState σ) (transaction : ContextTransaction) (verdict : Verdict) :
    ServiceState σ :=
  if transaction.idempotencyKey.isEmpty then s
  else
    { s with
      receipts := Function.update s.receipts transaction.idempotencyKey
        (some ⟨requestDigestOf transaction, verdict⟩) }

/-- The registry entry of the handle points to a new materialization. -/
def replaceEntry (s : ServiceState σ) (handle : CognitionHandle)
    (materialization : Materialization) : ServiceState σ :=
  { s with
    live := updateFirst (fun live => live.isAt handle) (fun _ => materialization) s.live
    nextAddress := s.nextAddress + 1 }

/-- The materialization published for a committed successor. -/
def successorMaterialization (s : ServiceState σ) (entry : Materialization) (next : Snapshot)
    (revision : RevisionId) : Materialization where
  address := s.nextAddress
  state := next
  digest := draftSnapshotDigest (serializeSnapshot next)
  revision := revision
  epoch := entry.epoch
  quarantine := entry.quarantine

/-- Gate 10 and the publication. -/
def commit (s : ServiceState σ) (handle : CognitionHandle) (entry : Materialization)
    (transaction : ContextTransaction) (next : Snapshot) : Verdict × ServiceState σ :=
  let (receipt, store) :=
    CognitionStore.compareAndSwap s.store entry.revision (serializeSnapshot next)
  let s := { s with store := store }
  match receipt.kind with
  | .compareFailed => (.refuse .storeDiverged, s)
  | .outcomeUnknown =>
      let unknown : Verdict := { outcome := .outcomeUnknown, reason := .outcomeUnresolved }
      (unknown, s.record transaction unknown)
  | .committed =>
      let successor := s.successorMaterialization entry next receipt.revision
      let applied : Verdict :=
        { outcome := .applied, reason := .storeDiverged, successor := some successor }
      (applied, (s.replaceEntry handle successor).record transaction applied)

/-- The gated write, in the order of the code: the key is resolved first. -/
def writeToCognition (s : ServiceState σ) (handle : CognitionHandle)
    (transaction : ContextTransaction) (grant : ExecutionGrant) :
    Option (Verdict × ServiceState σ) :=
  match s.resolveKey transaction with
  | some verdict => some (verdict, s)
  | none =>
      match s.admission handle transaction grant with
      | .error (.refuse reason) => some (.refuse reason, s)
      | .error .crash => none
      | .ok (_, none) =>
          some ({ outcome := .applied, reason := .storeDiverged, successor := handle }, s)
      | .ok (entry, some next) => some (s.commit handle entry transaction next)

/-! ## Quarantine -/

/-- Move the entry of the handle from one quarantine state to another, for an
actor that the identity port accepts. -/
def moveQuarantine (s : ServiceState σ) (handle : CognitionHandle) (actor : AuthenticatedActor)
    (source target : QuarantineState) : CognitionHandle × ServiceState σ :=
  let s := s.withIdentity
  if ¬ s.verifies actor then (none, s)
  else
    match s.findLive handle with
    | none => (none, s)
    | some entry =>
        if entry.quarantine ≠ source then (none, s)
        else
          let moved := { entry with address := s.nextAddress, quarantine := target }
          (some moved, s.replaceEntry handle moved)

def verifyRestored (s : ServiceState σ) (handle : CognitionHandle) (actor : AuthenticatedActor) :
    CognitionHandle × ServiceState σ :=
  s.moveQuarantine handle actor .isolated .verified

def promoteAuthority (s : ServiceState σ) (handle : CognitionHandle)
    (actor : AuthenticatedActor) : CognitionHandle × ServiceState σ :=
  s.moveQuarantine handle actor .authorityPending .promoted

def attachIdentityVerifier (s : ServiceState σ) (verifier : Option IdentityVerifier) :
    ServiceState σ :=
  { s with identity := some (verifier.getD rootPrincipalVerifier) }

end ServiceState

/-! ## Steps and runs -/

inductive Call where
  | createCognition (source : CognitionSource)
  | retireCognition (handle : CognitionHandle)
  | acquireGrant (actor : AuthenticatedActor) (mode : WorkMode)
  | releaseGrant (grant : ExecutionGrant)
  | writeToCognition (handle : CognitionHandle) (transaction : ContextTransaction)
      (grant : ExecutionGrant)
  | verifyRestored (handle : CognitionHandle) (actor : AuthenticatedActor)
  | promoteAuthority (handle : CognitionHandle) (actor : AuthenticatedActor)
  | attachIdentityVerifier (verifier : Option IdentityVerifier)
  | canonicalHead
  | currentEpoch

/-- The handle that a call addresses in the registry. -/
def Call.handle : Call → CognitionHandle
  | .retireCognition handle => handle
  | .writeToCognition handle _ _ => handle
  | .verifyRestored handle _ => handle
  | .promoteAuthority handle _ => handle
  | _ => none

inductive Answer where
  | created (creation : ServiceState.Creation)
  | retired (found : Bool)
  | granted (grant : Option ExecutionGrant)
  | done
  | verdict (verdict : Verdict)
  | handle (handle : CognitionHandle)
  | head (snapshot : Option Snapshot)
  | epoch (epoch : Epoch)

variable [Foundation] {σ : Type} [CognitionStore σ]

/-- One service call. -/
def ServiceState.step (s : ServiceState σ) : Call → Option (Answer × ServiceState σ)
  | .createCognition source =>
      let (creation, s) := s.createCognition source
      some (.created creation, s)
  | .retireCognition handle =>
      let (found, s) := s.retireCognition handle
      some (.retired found, s)
  | .acquireGrant actor mode =>
      let (grant, s) := s.acquireGrant actor mode
      some (.granted grant, s)
  | .releaseGrant grant => some (.done, s.releaseGrant grant)
  | .writeToCognition handle transaction grant =>
      match s.writeToCognition handle transaction grant with
      | none => none
      | some (verdict, s) => some (.verdict verdict, s)
  | .verifyRestored handle actor =>
      let (verified, s) := s.verifyRestored handle actor
      some (.handle verified, s)
  | .promoteAuthority handle actor =>
      let (promoted, s) := s.promoteAuthority handle actor
      some (.handle promoted, s)
  | .attachIdentityVerifier verifier => some (.done, s.attachIdentityVerifier verifier)
  | .canonicalHead => some (.head s.canonicalHead, s)
  | .currentEpoch => some (.epoch s.epoch, s)

/-- The service before its first call. -/
def ServiceState.start (store : σ) : ServiceState σ := { store := store }

abbrev ServiceTransition (σ : Type) := Transition (ServiceState σ) Call Answer

abbrev ServiceRun (s : ServiceState σ) (trs : List (ServiceTransition σ)) (t : ServiceState σ) :
    Prop :=
  Run ServiceState.step s trs t

end QivenContext
