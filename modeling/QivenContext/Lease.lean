import QivenContext.Reference
import QivenContext.Scenario

/-!
# The lease

A grant is minted under an id that no other grant has or will have, for an
actor that the identity port accepts, while no other grant is active. It is
active until its own release, which no other grant can stand in for.
-/

namespace QivenContext

open Library ServiceState

section Lease

variable [Foundation] {σ : Type} [CognitionStore σ] {s s' t : ServiceState σ}
  {trs past rest : List (ServiceTransition σ)} {tr : ServiceTransition σ}

/-! ## Ids -/

/-- The id of a generation. -/
def grantIdOf (generation : UInt64) : GrantId where
  value := lit "grant-" ++ toStringUInt64 generation

omit [Foundation] in
theorem grantIdOf_injective : Function.Injective grantIdOf := by
  intro a b h
  have hvalue := List.append_cancel_left (congrArg GrantId.value h)
  exact UInt64.toNat_inj.mp (decimal_injective hvalue)

omit [Foundation] in
theorem grantIdOf_isEmpty (generation : UInt64) : (grantIdOf generation).isEmpty = false := by
  have hlit : lit "grant-" = [103, 114, 97, 110, 116, 45] := by decide
  simp [grantIdOf, GrantId.isEmpty, hlit]

/-- The ids of a number of generations, the first one first. -/
def firstIds (count : ℕ) : List GrantId :=
  (List.range count).map fun k => grantIdOf (UInt64.ofNat (k + 1))

omit [Foundation] in
theorem firstIds_succ (count : ℕ) :
    firstIds (count + 1) = firstIds count ++ [grantIdOf (UInt64.ofNat (count + 1))] := by
  simp [firstIds, List.range_succ]

omit [Foundation] in
theorem firstIds_nodup {count : ℕ} (hcount : count < 2 ^ 64) : (firstIds count).Nodup := by
  refine List.Nodup.map_on ?_ List.nodup_range
  intro i hi j hj hsame
  have hi' : i < count := List.mem_range.mp hi
  have hj' : j < count := List.mem_range.mp hj
  have hnat := congrArg UInt64.toNat (grantIdOf_injective hsame)
  rw [UInt64.toNat_ofNat', UInt64.toNat_ofNat', Nat.mod_eq_of_lt (by omega),
    Nat.mod_eq_of_lt (by omega)] at hnat
  omega

/-! ## One call -/

/-- The call minted the grant for the actor, whom the port accepted. -/
def Mints (tr : ServiceTransition σ) (id : GrantId) (actor : AuthenticatedActor) : Prop :=
  ∃ mode grant, tr.action = .acquireGrant actor mode ∧ tr.answer = .granted (some grant) ∧
    grant.id = id ∧ tr.before.withIdentity.verifies actor = true

def Releases (tr : ServiceTransition σ) (id : GrantId) : Prop :=
  ∃ grant, tr.action = .releaseGrant grant ∧ grant.id = id

/-- An earlier call minted the active lease, and it was not released since. -/
def Leased (past : List (ServiceTransition σ)) (id : GrantId) (actor : AuthenticatedActor) :
    Prop :=
  ∃ earlier mint since, past = earlier ++ mint :: since ∧ Mints mint id actor ∧
    ∀ later ∈ since, ¬ Releases later id

/-- The id that the call handed out, if it handed one out. -/
def mintedId (tr : ServiceTransition σ) : Option GrantId :=
  match tr.answer with
  | .granted (some grant) => some grant.id
  | _ => none

def mintedIds (trs : List (ServiceTransition σ)) : List GrantId := trs.filterMap mintedId

omit [Foundation] [CognitionStore σ] in
@[simp] theorem mintedIds_append :
    mintedIds (trs ++ rest) = mintedIds trs ++ mintedIds rest :=
  List.filterMap_append

theorem Mints.mintedId {id : GrantId} {actor : AuthenticatedActor} (h : Mints tr id actor) :
    mintedId tr = some id := by
  obtain ⟨mode, grant, -, hanswer, rfl, -⟩ := h
  simp only [QivenContext.mintedId, hanswer]

/-- The lease and its counter are the same, the active lease was not released,
and no id was handed out. -/
structure KeepsLease (tr : ServiceTransition σ) : Prop where
  activeGrantId : tr.after.activeGrantId = tr.before.activeGrantId
  grantActor : tr.after.grantActor = tr.before.grantActor
  grantGeneration : tr.after.grantGeneration = tr.before.grantGeneration
  unreleased : ¬ Releases tr tr.before.activeGrantId
  unminted : mintedId tr = none

/-- The active lease was released. -/
structure DropsLease (tr : ServiceTransition σ) : Prop where
  released : Releases tr tr.before.activeGrantId
  activeGrantId : tr.after.activeGrantId = {}
  grantGeneration : tr.after.grantGeneration = tr.before.grantGeneration
  unminted : mintedId tr = none

/-- With no lease active, the next generation was handed out and is active. -/
structure MintsLease (tr : ServiceTransition σ) : Prop where
  inactive : tr.before.activeGrantId.isEmpty = true
  minted : Mints tr tr.after.activeGrantId tr.after.grantActor
  activeGrantId : tr.after.activeGrantId = grantIdOf tr.after.grantGeneration
  grantGeneration : tr.after.grantGeneration = tr.before.grantGeneration + 1

theorem lease_step (hvalid : tr.Valid ServiceState.step) :
    KeepsLease tr ∨ DropsLease tr ∨ MintsLease tr := by
  obtain ⟨s, call, answer, s'⟩ := tr
  have h : s.step call = some (answer, s') := hvalid
  have hnoid (hunminted : ∀ grant, answer ≠ .granted (some grant)) :
      mintedId (⟨s, call, answer, s'⟩ : ServiceTransition σ) = none := by
    unfold mintedId
    split
    · next grant hgranted => exact (hunminted grant hgranted).elim
    · rfl
  cases effect h with
  | kept _ hunminted hstale =>
      refine .inl ⟨rfl, rfl, rfl, ?_, hnoid hunminted⟩
      rintro ⟨grant, hrelease, hid⟩
      exact hstale grant hrelease hid.symm
  | ported _ hunminted hother =>
      refine .inl ⟨rfl, rfl, rfl, ?_, hnoid hunminted⟩
      rintro ⟨grant, hrelease, -⟩
      exact hother grant hrelease
  | moved _ hother _ _ _ =>
      refine .inl ⟨rfl, rfl, rfl, ?_, rfl⟩
      rintro ⟨grant, hrelease, -⟩
      exact hother grant hrelease
  | attached _ | registered _ _ _ | founded _ _ _ | retired _ | diverged _ _ =>
      exact .inl ⟨rfl, rfl, rfl, by simp [Releases], rfl⟩
  | leased hid hinactive hverified =>
      exact .inr (.inr ⟨hinactive, ⟨_, _, rfl, rfl, rfl, hverified⟩, hid, rfl⟩)
  | @released grant hactive => exact .inr (.inl ⟨⟨grant, rfl, hactive.symm⟩, rfl, rfl, rfl⟩)
  | unknown _ _ _ _ _ | published _ _ _ _ _ _ _ _ =>
      exact .inl ⟨(record_lease _).1, (record_lease _).2.1, (record_lease _).2.2,
        by simp [Releases], rfl⟩

theorem Mints.active (hvalid : tr.Valid ServiceState.step) {id : GrantId}
    {actor : AuthenticatedActor} (h : Mints tr id actor) :
    tr.after.activeGrantId = id ∧ id.isEmpty = false := by
  rcases lease_step hvalid with hkept | hdropped | hminted
  · have hunminted := hkept.unminted
    simp [h.mintedId] at hunminted
  · have hunminted := hdropped.unminted
    simp [h.mintedId] at hunminted
  · have hid : tr.after.activeGrantId = id :=
      Option.some.inj (hminted.minted.mintedId.symm.trans h.mintedId)
    exact ⟨hid, by rw [← hid, hminted.activeGrantId, grantIdOf_isEmpty]⟩

theorem mints_of_step {actor : AuthenticatedActor} {mode : WorkMode} {grant : ExecutionGrant}
    (h : s.step (.acquireGrant actor mode) = some (.granted (some grant), s')) :
    Mints (⟨s, .acquireGrant actor mode, .granted (some grant), s'⟩ : ServiceTransition σ)
      grant.id actor ∧ s'.grantActor = actor := by
  obtain ⟨granted, hanswer, hgranted⟩ := step_acquireGrant h
  rcases acquireGrant_cases hgranted with ⟨rfl, -⟩ | ⟨id, -, -, hverified, -, rfl⟩
  · simp at hanswer
  · exact ⟨⟨mode, grant, rfl, rfl, rfl, hverified⟩, rfl⟩

/-- A release or a write with another grant leaves the lease alone. -/
theorem lease_foreign (hvalid : tr.Valid ServiceState.step) {grant : ExecutionGrant}
    (hforeign : grant.id ≠ tr.before.activeGrantId)
    (haction : tr.action = .releaseGrant grant ∨
      ∃ handle transaction, tr.action = .writeToCognition handle transaction grant) :
    tr.after.activeGrantId = tr.before.activeGrantId ∧
      tr.after.grantActor = tr.before.grantActor := by
  rcases lease_step hvalid with hkept | hdropped | hminted
  · exact ⟨hkept.activeGrantId, hkept.grantActor⟩
  · obtain ⟨released, hrelease, hid⟩ := hdropped.released
    rcases haction with haction | ⟨_, _, haction⟩
    · obtain rfl : grant = released := by simpa [haction] using hrelease
      exact (hforeign hid).elim
    · simp [haction] at hrelease
  · obtain ⟨mode, _, hacquire, -⟩ := hminted.minted
    rcases haction with haction | ⟨_, _, haction⟩ <;> simp [haction] at hacquire

/-! ## Whole runs -/

theorem leased_of_run {store : σ} (hrun : ServiceRun (ServiceState.start store) trs t)
    (hactive : t.activeGrantId.isEmpty = false) : Leased trs t.activeGrantId t.grantActor := by
  refine hrun.history_induction (motive := fun trs t => t.activeGrantId.isEmpty = false →
    Leased trs t.activeGrantId t.grantActor) ?_ ?_ hactive
  · intro hstart
    simp [ServiceState.start, GrantId.isEmpty] at hstart
  · intro past tr _ hvalid ih hafter
    rcases lease_step hvalid with hkept | hdropped | hminted
    · rw [hkept.activeGrantId] at hafter ⊢
      rw [hkept.grantActor]
      obtain ⟨earlier, mint, since, rfl, hmint, hsince⟩ := ih hafter
      refine ⟨earlier, mint, since ++ [tr], by simp, hmint, fun later hlater => ?_⟩
      rcases List.mem_append.mp hlater with hlater | hlater
      · exact hsince later hlater
      · exact List.mem_singleton.mp hlater ▸ hkept.unreleased
    · simp [hdropped.activeGrantId, GrantId.isEmpty] at hafter
    · exact ⟨past, tr, [], rfl, hminted.minted, by simp⟩

/-- The ids handed out are those of the first generations, in order. -/
structure CountsGrants (past : List (ServiceTransition σ)) (s : ServiceState σ) : Prop where
  generation : s.grantGeneration = UInt64.ofNat (mintedIds past).length
  ids : mintedIds past = firstIds (mintedIds past).length

theorem countsGrants_of_run {store : σ} (hrun : ServiceRun (ServiceState.start store) trs t) :
    CountsGrants trs t := by
  refine hrun.history_induction (motive := CountsGrants) ⟨rfl, rfl⟩ ?_
  intro past tr _ hvalid ih
  have hsnoc : mintedIds (past ++ [tr]) = mintedIds past ++ (mintedId tr).toList := by
    cases hid : mintedId tr <;> simp [mintedIds, hid]
  have hquiet (hgeneration : tr.after.grantGeneration = tr.before.grantGeneration)
      (hunminted : mintedId tr = none) : CountsGrants (past ++ [tr]) tr.after := by
    rw [hunminted, Option.toList_none, List.append_nil] at hsnoc
    exact ⟨by rw [hsnoc, hgeneration, ih.generation], by rw [hsnoc]; exact ih.ids⟩
  rcases lease_step hvalid with hkept | hdropped | hminted
  · exact hquiet hkept.grantGeneration hkept.unminted
  · exact hquiet hdropped.grantGeneration hdropped.unminted
  · have hgeneration :
        tr.after.grantGeneration = UInt64.ofNat ((mintedIds past).length + 1) := by
      rw [hminted.grantGeneration, ih.generation, UInt64.ofNat_add]
      rfl
    rw [hminted.minted.mintedId, hminted.activeGrantId, hgeneration, Option.toList_some] at hsnoc
    have hlength : (mintedIds (past ++ [tr])).length = (mintedIds past).length + 1 := by
      rw [hsnoc, List.length_append, List.length_singleton]
    refine ⟨by rw [hlength, hgeneration], ?_⟩
    rw [hlength, firstIds_succ, ← ih.ids]
    exact hsnoc

theorem mintedIds_nodup {store : σ} (hrun : ServiceRun (ServiceState.start store) trs t)
    (hcount : (mintedIds trs).length < 2 ^ 64) : (mintedIds trs).Nodup :=
  (countsGrants_of_run hrun).ids ▸ firstIds_nodup hcount

theorem held_of_run {id : GrantId} (hrun : ServiceRun s trs t)
    (hactive : s.activeGrantId = id) (hne : id.isEmpty = false)
    (hkept : ∀ tr ∈ trs, ¬ Releases tr id) : t.activeGrantId = id := by
  refine hrun.invariant (P := fun s => s.activeGrantId = id) hkept hactive ?_
  intro tr hvalid hunreleased hbefore
  rcases lease_step hvalid with h | h | h
  · exact h.activeGrantId.trans hbefore
  · exact (hunreleased (hbefore ▸ h.released)).elim
  · rw [← hbefore, h.inactive] at hne
    simp at hne

theorem acquire_of_active (hvalid : tr.Valid ServiceState.step)
    (hactive : tr.before.activeGrantId.isEmpty = false) {actor : AuthenticatedActor}
    {mode : WorkMode} (haction : tr.action = .acquireGrant actor mode) :
    tr.answer = .granted none := by
  obtain ⟨s, call, answer, s'⟩ := tr
  obtain rfl : call = _ := haction
  obtain ⟨granted, rfl, hacquire⟩ := step_acquireGrant hvalid
  rcases acquireGrant_cases hacquire with ⟨rfl, -⟩ | ⟨id, -, hinactive, -⟩
  · rfl
  · have hactive' : s.activeGrantId.isEmpty = false := hactive
    rw [hinactive] at hactive'
    simp at hactive'

theorem inactive_of_releases (hvalid : tr.Valid ServiceState.step) {id : GrantId}
    (hne : id.isEmpty = false) (hreleases : Releases tr id) : tr.after.activeGrantId ≠ id := by
  obtain ⟨grant, haction, rfl⟩ := hreleases
  rcases lease_step hvalid with h | h | h
  · rw [h.activeGrantId]
    exact fun hsame => h.unreleased ⟨grant, haction, hsame.symm⟩
  · rw [h.activeGrantId]
    rintro hempty
    simp [← hempty, GrantId.isEmpty] at hne
  · obtain ⟨mode, _, hacquire, -⟩ := h.minted
    simp [haction] at hacquire

/-- An id that was handed out and is not active is never active again: no
later mint hands it out, as long as the counter has not wrapped. -/
theorem spent_of_run {store : σ} {id : GrantId}
    (hpast : ServiceRun (ServiceState.start store) past s) (hrun : ServiceRun s rest t)
    (hmem : id ∈ mintedIds past) (hne : id.isEmpty = false) (hspent : s.activeGrantId ≠ id)
    (hcount : (mintedIds (past ++ rest)).length < 2 ^ 64) : t.activeGrantId ≠ id := by
  refine hrun.history_induction (motive := fun rest t =>
    (mintedIds (past ++ rest)).length < 2 ^ 64 → t.activeGrantId ≠ id) (fun _ => hspent) ?_ hcount
  intro since tr hsince hvalid ih hcount
  have hids : mintedIds (past ++ (since ++ [tr])) =
      mintedIds past ++ (mintedIds since ++ mintedIds [tr]) := by
    simp
  have hbefore : tr.before.activeGrantId ≠ id := by
    refine ih (Nat.lt_of_le_of_lt ?_ hcount)
    rw [hids]
    simp
  rcases lease_step hvalid with h | h | h
  · rw [h.activeGrantId]
    exact hbefore
  · rw [h.activeGrantId]
    rintro hempty
    simp [← hempty, GrantId.isEmpty] at hne
  · have hnodup := mintedIds_nodup (hpast.append (hsince.append (Run.single hvalid))) hcount
    have hlast : mintedIds [tr] = [tr.after.activeGrantId] := by
      simp [mintedIds, h.minted.mintedId]
    rw [hids, hlast] at hnodup
    rintro rfl
    exact (List.disjoint_of_nodup_append hnodup) hmem (by simp)

/-! ## Grants over whole runs -/

/-- From a mint to the release of its grant nothing else is handed out. -/
theorem acquire_of_unreleased {earlier since later : List (ServiceTransition σ)}
    {mint : ServiceTransition σ} {id : GrantId} {actor actor' : AuthenticatedActor}
    {mode : WorkMode} (hrun : ServiceRun s (earlier ++ mint :: since ++ tr :: later) t)
    (hmint : Mints mint id actor) (hsince : ∀ other ∈ since, ¬ Releases other id)
    (haction : tr.action = .acquireGrant actor' mode) : tr.answer = .granted none := by
  obtain ⟨_, hpast, hlast⟩ := hrun.append_inv
  obtain ⟨rfl, hvalid, -⟩ := hlast.cons_inv
  obtain ⟨_, -, hmiddle⟩ := hpast.append_inv
  obtain ⟨rfl, hmints, hbetween⟩ := hmiddle.cons_inv
  obtain ⟨hactive, hne⟩ := hmint.active hmints
  refine acquire_of_active hvalid ?_ haction
  rw [held_of_run hbetween hactive hne hsince]
  exact hne

/-- From its release on a grant is never active again. -/
theorem inactive_of_released {store : σ} {earlier since later : List (ServiceTransition σ)}
    {mint release : ServiceTransition σ} {id : GrantId} {actor : AuthenticatedActor}
    (hrun : ServiceRun (ServiceState.start store) (earlier ++ mint :: since ++ release :: later) t)
    (hcount : (mintedIds (earlier ++ mint :: since ++ release :: later)).length < 2 ^ 64)
    (hmint : Mints mint id actor) (hrelease : Releases release id) :
    ∀ tr ∈ release :: later, tr.after.activeGrantId ≠ id := by
  intro tr htr
  obtain ⟨_, hpast, hlast⟩ := hrun.append_inv
  obtain ⟨rfl, hvalid, hlater⟩ := hlast.cons_inv
  obtain ⟨_, -, hmiddle⟩ := hpast.append_inv
  obtain ⟨rfl, hmints, -⟩ := hmiddle.cons_inv
  have hne := (hmint.active hmints).2
  have hspent := inactive_of_releases hvalid hne hrelease
  rcases List.mem_cons.mp htr with rfl | htr
  · exact hspent
  · obtain ⟨before, after, rfl⟩ := List.append_of_mem htr
    have hsplit : before ++ tr :: after = (before ++ [tr]) ++ after := by simp
    rw [hsplit] at hlater hcount
    obtain ⟨u, hbefore, -⟩ := hlater.append_inv
    obtain ⟨-, -, rfl⟩ := hbefore.snoc_inv
    have hids : id ∈ mintedIds (earlier ++ mint :: since ++ [release]) := by
      simp [mintedIds, hmint.mintedId]
    refine spent_of_run (hpast.append (Run.single hvalid)) hbefore hids hne hspent
      (Nat.lt_of_le_of_lt ?_ hcount)
    rw [show earlier ++ mint :: since ++ release :: (before ++ [tr] ++ after) =
      earlier ++ mint :: since ++ [release] ++ (before ++ [tr]) ++ after by simp]
    exact ((List.sublist_append_left _ after).filterMap mintedId).length_le

/-- In a run that hands out fewer than `2 ^ 64` grants their ids are pairwise
different; while one is not released no other is handed out; once released it
is never the active lease again; no other grant changes the lease; and the
recorded actor is the one that was verified when the active id was minted. -/
theorem grants_single_use {store : σ} (hrun : ServiceRun (ServiceState.start store) trs t)
    (hcount : (mintedIds trs).length < 2 ^ 64) :
    (mintedIds trs).Nodup ∧
    (∀ earlier mint since tr later id actor, trs = earlier ++ mint :: since ++ tr :: later →
      Mints mint id actor → (∀ other ∈ since, ¬ Releases other id) →
      ∀ actor' mode, tr.action = .acquireGrant actor' mode → tr.answer = .granted none) ∧
    (∀ earlier mint since release later id actor,
      trs = earlier ++ mint :: since ++ release :: later → Mints mint id actor →
      Releases release id → ∀ tr ∈ release :: later, tr.after.activeGrantId ≠ id) ∧
    (∀ tr ∈ trs, ∀ grant : ExecutionGrant, grant.id ≠ tr.before.activeGrantId →
      (tr.action = .releaseGrant grant ∨
        ∃ handle transaction, tr.action = .writeToCognition handle transaction grant) →
      tr.after.activeGrantId = tr.before.activeGrantId ∧
        tr.after.grantActor = tr.before.grantActor) ∧
    (t.activeGrantId.isEmpty = false → Leased trs t.activeGrantId t.grantActor) := by
  refine ⟨mintedIds_nodup hrun hcount, ?_, ?_, ?_, leased_of_run hrun⟩
  · rintro earlier mint since tr later id actor rfl hmint hsince actor' mode haction
    exact acquire_of_unreleased hrun hmint hsince haction
  · rintro earlier mint since release later id actor rfl hmint hrelease
    exact inactive_of_released hrun hcount hmint hrelease
  · intro tr htr grant hforeign haction
    exact lease_foreign (hrun.valid_of_mem htr) hforeign haction

/-- The root actor releases its grant on the head, and can take the lease again. -/
theorem OnHead.leased_again {s : ServiceState MemoryStore} {m : Materialization}
    (h : OnHead s m) :
    ∃ grant t, (s.releaseGrant firstGrant).step (.acquireGrant rootActor .supervisedForeground) =
      some (.granted (some grant), t) := by
  have hreleased : s.releaseGrant firstGrant =
      { s with activeGrantId := {}, grantActor := {} } := if_pos h.lease
  obtain ⟨governance, hhead, hgoverned⟩ := h.canonicalHead
  have hverified : (s.releaseGrant firstGrant).withIdentity.verifies rootActor = true := by
    have hhead' : (s.releaseGrant firstGrant).withIdentity.canonicalHead = some governance := by
      rw [hreleased]
      exact hhead
    have hport : (s.releaseGrant firstGrant).withIdentity.identity =
        some rootPrincipalVerifier := by
      rw [hreleased]
      simp [withIdentity, h.identity]
    unfold verifies
    rw [hhead', hport]
    simp only [rootPrincipalVerifier, hgoverned]
    decide
  obtain ⟨grant, t, hgrant⟩ := acquireGrant_free .supervisedForeground
    (by rw [hreleased]; rfl) hverified
  exact ⟨grant, t, by simp only [step, hgrant]⟩

end Lease

open scoped QivenContext.Reference in
/-- The root actor releases its grant and takes the lease again, under a second
id; the released one does not come back. -/
theorem second_lease_single_use :
    ∃ (trs : List (ServiceTransition MemoryStore)) (release mint : ServiceTransition MemoryStore)
      (t : ServiceState MemoryStore),
      ServiceRun (ServiceState.start {}) (trs ++ [release, mint]) t ∧
        Releases release firstGrant.id ∧ Mints mint t.activeGrantId rootActor ∧
        mintedIds (trs ++ [release, mint]) = [firstGrant.id, t.activeGrantId] ∧
        t.activeGrantId ≠ firstGrant.id ∧
        Leased (trs ++ [release, mint]) t.activeGrantId rootActor := by
  obtain ⟨booted, leased, m, hboot, hgrant, honHead, -⟩ := exists_boot
  obtain ⟨grant, t, hagain⟩ := honHead.leased_again
  let first : ServiceTransition MemoryStore :=
    ⟨booted, .acquireGrant rootActor .supervisedForeground, .granted (some firstGrant), leased⟩
  let release : ServiceTransition MemoryStore :=
    ⟨leased, .releaseGrant firstGrant, .done, leased.releaseGrant firstGrant⟩
  let mint : ServiceTransition MemoryStore :=
    ⟨leased.releaseGrant firstGrant, .acquireGrant rootActor .supervisedForeground,
      .granted (some grant), t⟩
  let boot : ServiceTransition MemoryStore :=
    ⟨ServiceState.start {}, .createCognition {}, .created (.handle m), booted⟩
  have hrun : ServiceRun (ServiceState.start {}) ([boot, first] ++ [release, mint]) t :=
    .cons boot _ t hboot (.cons first _ t hgrant (.cons release _ t rfl
      (.cons mint _ t hagain (.nil t))))
  have hfirst : Mints first firstGrant.id rootActor := (mints_of_step hgrant).1
  obtain ⟨hmint, hactor⟩ : Mints mint grant.id rootActor ∧ t.grantActor = rootActor :=
    mints_of_step hagain
  have hvalid : mint.Valid ServiceState.step := hagain
  obtain ⟨hactive, hnamed⟩ : t.activeGrantId = grant.id ∧ grant.id.isEmpty = false :=
    hmint.active hvalid
  have hids : mintedIds ([boot, first] ++ [release, mint]) = [firstGrant.id, t.activeGrantId] := by
    rw [hactive]
    rfl
  obtain ⟨-, -, hspent, -, hleased⟩ := grants_single_use hrun (by rw [hids]; norm_num)
  have hreleases : Releases release firstGrant.id := ⟨firstGrant, rfl, rfl⟩
  have hne : t.activeGrantId ≠ firstGrant.id :=
    hspent [boot] first [] release [mint] firstGrant.id rootActor rfl hfirst hreleases mint
      (List.mem_cons_of_mem _ (List.mem_singleton_self _))
  refine ⟨_, release, mint, t, hrun, hreleases, hactive ▸ hmint, hids, hne, ?_⟩
  exact hactor ▸ hleased (hactive ▸ hnamed)

end QivenContext
