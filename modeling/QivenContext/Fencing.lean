import QivenContext.Lease
import QivenContext.Refusal

/-!
# Handles and their epochs

An epoch is handed out with each materialization that is created and passed on
to what replaces it, so it names a lineage; a lineage has one registered
materialization at most. The handle of one that was replaced or retired is
spent: it can be presented, and nothing comes of it.
-/

namespace QivenContext

open Library ServiceState

/-! ## Replacing one of a list -/

section Replacing

variable {α β : Type} {p : α → Bool} {f : α → β} {as : List α} {a b : α}

theorem map_updateFirst_same (hfind : as.find? p = some a) (hsame : f b = f a) :
    (updateFirst p (fun _ => b) as).map f = as.map f := by
  induction as with
  | nil => rfl
  | cons c as ih =>
      unfold updateFirst
      split
      · next hc =>
          rw [List.find?_cons_of_pos hc] at hfind
          rw [List.map_cons, List.map_cons, hsame, Option.some.inj hfind]
      · next hc =>
          rw [List.find?_cons_of_neg hc] at hfind
          rw [List.map_cons, List.map_cons, ih hfind]

theorem nodup_map_updateFirst (hnodup : (as.map f).Nodup) (hfresh : f b ∉ as.map f) :
    ((updateFirst p (fun _ => b) as).map f).Nodup := by
  induction as with
  | nil => exact List.nodup_nil
  | cons c as ih =>
      rw [List.map_cons, List.nodup_cons] at hnodup
      rw [List.map_cons, List.mem_cons, not_or] at hfresh
      unfold updateFirst
      split
      · rw [List.map_cons, List.nodup_cons]
        exact ⟨hfresh.2, hnodup.2⟩
      · rw [List.map_cons, List.nodup_cons]
        refine ⟨fun hmem => ?_, ih hnodup.2 hfresh.2⟩
        obtain ⟨d, hd, hsame⟩ := List.mem_map.mp hmem
        rcases mem_updateFirst hd with hd | ⟨_, -, -, rfl⟩
        · exact hnodup.1 (hsame ▸ List.mem_map_of_mem hd)
        · exact hfresh.1 hsame

/-- Where the values are distinct, the value that was found is gone. -/
theorem not_mem_map_updateFirst (hnodup : (as.map f).Nodup) (hfind : as.find? p = some a)
    (hne : f b ≠ f a) : f a ∉ (updateFirst p (fun _ => b) as).map f := by
  induction as with
  | nil => simp at hfind
  | cons c as ih =>
      rw [List.map_cons, List.nodup_cons] at hnodup
      unfold updateFirst
      split
      · next hc =>
          rw [List.find?_cons_of_pos hc] at hfind
          obtain rfl := Option.some.inj hfind
          simp [hne.symm, hnodup.1]
      · next hc =>
          rw [List.find?_cons_of_neg hc] at hfind
          have hmem : f a ∈ as.map f := List.mem_map_of_mem (List.mem_of_find?_eq_some hfind)
          rw [List.map_cons, List.mem_cons, not_or]
          exact ⟨fun hsame => hnodup.1 (hsame ▸ hmem), ih hnodup.2 hfind⟩

theorem not_mem_map_eraseP (hnodup : (as.map f).Nodup) (hfind : as.find? p = some a) :
    f a ∉ (as.eraseP p).map f := by
  induction as with
  | nil => simp at hfind
  | cons c as ih =>
      rw [List.map_cons, List.nodup_cons] at hnodup
      by_cases hc : p c
      · rw [List.find?_cons_of_pos hc] at hfind
        obtain rfl := Option.some.inj hfind
        rw [List.eraseP_cons_of_pos hc]
        exact hnodup.1
      · rw [List.find?_cons_of_neg hc] at hfind
        have hmem : f a ∈ as.map f := List.mem_map_of_mem (List.mem_of_find?_eq_some hfind)
        rw [List.eraseP_cons_of_neg hc, List.map_cons, List.mem_cons, not_or]
        exact ⟨fun hsame => hnodup.1 (hsame ▸ hmem), ih hnodup.2 hfind⟩

end Replacing

section Fencing

variable [Foundation] {σ : Type} [CognitionStore σ] {s s' t : ServiceState σ}
  {trs past rest : List (ServiceTransition σ)} {tr : ServiceTransition σ}
  {m m' root old new : Materialization} {call : Call} {answer : Answer}

/-! ## What a call does to the lineages -/

/-- The materialization that the answer hands out as created. -/
def Answer.created? : Answer → Option Materialization
  | .created (.handle m) => some m
  | _ => none

/-- The registry is left alone, or loses an entry, gets one of a new epoch, or has
one replaced by another of its epoch. -/
inductive LineageStep (s s' : ServiceState σ) (call : Call) (answer : Answer) : Prop
  | kept (hlive : s'.live = s.live) (hepoch : s'.epoch = s.epoch)
      (hnext : s'.nextAddress = s.nextAddress) (hanswer : answer.created? = none)
  | retired (old : Materialization) (hfind : s.findLive call.handle = some old)
      (hlive : s'.live = s.live.eraseP fun entry => entry.isAt call.handle)
      (hepoch : s'.epoch = s.epoch) (hnext : s'.nextAddress = s.nextAddress)
      (hanswer : answer.created? = none)
  | created (new : Materialization) (hhandle : call.handle = none)
      (haddress : new.address = s.nextAddress) (hnew : new.epoch = s.epoch + 1)
      (hlive : s'.live = s.live ++ [new]) (hepoch : s'.epoch = s.epoch + 1)
      (hnext : s'.nextAddress = s.nextAddress + 1) (hanswer : answer.created? = some new)
  | replaced (old new : Materialization) (hfind : s.findLive call.handle = some old)
      (haddress : new.address = s.nextAddress) (hnew : new.epoch = old.epoch)
      (hlive : s'.live = updateFirst (fun entry => entry.isAt call.handle) (fun _ => new) s.live)
      (hepoch : s'.epoch = s.epoch) (hnext : s'.nextAddress = s.nextAddress + 1)
      (hanswer : answer.created? = none)

theorem lineageStep_move {actor : AuthenticatedActor} {source target : QuarantineState}
    {moved : CognitionHandle}
    (h : s.moveQuarantine call.handle actor source target = (moved, s')) :
    LineageStep s s' call (.handle moved) := by
  rcases moveQuarantine_cases h with ⟨-, rfl⟩ | ⟨entry, m, hfind, -, hm, -, rfl⟩
  · exact .kept rfl rfl rfl rfl
  · exact .replaced entry m hfind (by rw [hm]) (by rw [hm]) rfl rfl rfl rfl

theorem lineageStep (h : s.step call = some (answer, s')) : LineageStep s s' call answer := by
  cases call with
  | createCognition source =>
      obtain ⟨creation, rfl, hcreate⟩ := step_createCognition h
      rcases createCognition_cases hcreate with ⟨rfl, -, hnone⟩ |
        ⟨-, -, _, m, -, rfl, rfl, rfl⟩ | ⟨-, -, _, m, _, -, -, -, rfl, rfl, rfl⟩ |
        ⟨-, m, rfl, rfl, rfl⟩
      · refine .kept rfl rfl rfl ?_
        cases creation with
        | handle m => exact (hnone m rfl).elim
        | failed _ => rfl
        | threw => rfl
      · exact .created _ rfl rfl rfl rfl rfl rfl rfl
      · exact .created _ rfl rfl rfl rfl rfl rfl rfl
      · exact .created _ rfl rfl rfl rfl rfl rfl rfl
  | writeToCognition handle transaction grant =>
      obtain ⟨verdict, rfl, hwrite⟩ := step_writeToCognition h
      rcases write_cases hwrite with ⟨-, rfl⟩ | ⟨-, _, -, rfl, -⟩ | ⟨-, rfl, -⟩ |
        ⟨-, entry, next, hadmission, hcommit⟩
      · exact .kept rfl rfl rfl rfl
      · exact .kept rfl rfl rfl rfl
      · exact .kept rfl rfl rfl rfl
      · obtain ⟨governance, hadmitted⟩ := admission_eq_ok.mp hadmission
        rcases commit_cases hcommit with ⟨-, -, rfl⟩ | ⟨-, -, rfl⟩ | ⟨-, m, hm, -, rfl⟩
        · exact .kept rfl rfl rfl rfl
        · exact .kept (record_live _) (record_epoch _) (record_nextAddress _) rfl
        · exact .replaced entry m hadmitted.live (by rw [hm]; rfl) (by rw [hm]; rfl)
            (record_live _) (record_epoch _) (record_nextAddress _) rfl
  | retireCognition handle =>
      obtain ⟨found, rfl, hretire⟩ := step_retireCognition h
      unfold retireCognition at hretire
      split at hretire
      · next hany =>
          obtain ⟨rfl, rfl⟩ := Prod.mk.inj hretire
          cases hfind : s.findLive handle with
          | none =>
              obtain ⟨entry, hentry, hat⟩ := List.any_eq_true.mp hany
              exact (List.find?_eq_none.mp hfind entry hentry hat).elim
          | some old => exact .retired old hfind rfl rfl rfl rfl
      · obtain ⟨rfl, rfl⟩ := Prod.mk.inj hretire
        exact .kept rfl rfl rfl rfl
  | acquireGrant actor mode =>
      obtain ⟨granted, rfl, hacquire⟩ := step_acquireGrant h
      rcases acquireGrant_cases hacquire with ⟨-, rfl | rfl⟩ | ⟨_, -, -, -, -, rfl⟩
      · exact .kept rfl rfl rfl rfl
      · exact .kept rfl rfl rfl rfl
      · exact .kept rfl rfl rfl rfl
  | releaseGrant grant =>
      obtain ⟨rfl, rfl⟩ := step_releaseGrant h
      unfold releaseGrant
      split <;> exact .kept rfl rfl rfl rfl
  | verifyRestored handle actor =>
      obtain ⟨verified, rfl, hverify⟩ := step_verifyRestored h
      exact lineageStep_move hverify
  | promoteAuthority handle actor =>
      obtain ⟨promoted, rfl, hpromote⟩ := step_promoteAuthority h
      exact lineageStep_move hpromote
  | attachIdentityVerifier verifier =>
      obtain ⟨rfl, rfl⟩ := step_attachIdentityVerifier h
      exact .kept rfl rfl rfl rfl
  | canonicalHead =>
      obtain ⟨rfl, rfl⟩ := step_canonicalHead h
      exact .kept rfl rfl rfl rfl
  | currentEpoch =>
      obtain ⟨rfl, rfl⟩ := step_currentEpoch h
      exact .kept rfl rfl rfl rfl

/-! ## Spent handles -/

/-- The call takes the materialization at the address out of the registry. -/
def Spends (address : ℕ) (tr : ServiceTransition σ) : Prop :=
  address ∈ tr.before.live.map Materialization.address ∧
    address ∉ tr.after.live.map Materialization.address

/-- The materialization at the address is gone for good. -/
structure Spent (address : ℕ) (s : ServiceState σ) : Prop where
  gone : address ∉ s.live.map Materialization.address
  old : address < s.nextAddress

/-- The registered addresses are distinct, and older than the next one. -/
structure Placed (s : ServiceState σ) : Prop where
  nodup : (s.live.map Materialization.address).Nodup
  old : ∀ address ∈ s.live.map Materialization.address, address < s.nextAddress

omit [Foundation] [CognitionStore σ] in
theorem mem_addresses_replaced {p : Materialization → Bool} {address : ℕ}
    (h : address ∈ (updateFirst p (fun _ => new) s.live).map Materialization.address) :
    address ∈ s.live.map Materialization.address ∨ address = new.address := by
  obtain ⟨entry, hentry, rfl⟩ := List.mem_map.mp h
  rcases mem_updateFirst hentry with hentry | ⟨_, -, -, rfl⟩
  · exact .inl (List.mem_map_of_mem hentry)
  · exact .inr rfl

omit [Foundation] [CognitionStore σ] in
theorem LineageStep.placed (h : LineageStep s s' call answer) (hplaced : Placed s) :
    Placed s' := by
  have hfresh (address : ℕ) (haddress : address = s.nextAddress) :
      address ∉ s.live.map Materialization.address := fun hmem =>
    (hplaced.old address hmem).ne haddress
  cases h with
  | kept hlive _ hnext _ =>
      exact ⟨by rw [hlive]; exact hplaced.nodup, by rw [hlive, hnext]; exact hplaced.old⟩
  | retired old _ hlive _ hnext _ =>
      have hsublist := (List.eraseP_sublist (p := fun entry => entry.isAt call.handle)
        (l := s.live)).map Materialization.address
      rw [← hlive] at hsublist
      refine ⟨hplaced.nodup.sublist hsublist, fun address hmem => ?_⟩
      rw [hnext]
      exact hplaced.old address (hsublist.subset hmem)
  | created new _ haddress _ hlive _ hnext _ =>
      constructor
      · rw [hlive, List.map_append, List.map_singleton, List.nodup_append]
        refine ⟨hplaced.nodup, List.nodup_singleton _, ?_⟩
        rintro address hmem _ hlast rfl
        exact hfresh address ((List.mem_singleton.mp hlast).trans haddress) hmem
      · intro address hmem
        rw [hlive, List.map_append, List.mem_append] at hmem
        rcases hmem with hmem | hmem
        · have hold := hplaced.old address hmem
          omega
        · have hlast : address = new.address := by simpa using hmem
          omega
  | replaced old new _ haddress _ hlive _ hnext _ =>
      constructor
      · rw [hlive]
        exact nodup_map_updateFirst hplaced.nodup (hfresh new.address haddress)
      · intro address hmem
        rw [hlive] at hmem
        rcases mem_addresses_replaced hmem with hmem | hlast
        · have hold := hplaced.old address hmem
          omega
        · omega

theorem placed_of_run {store : σ} (hrun : ServiceRun (ServiceState.start store) trs t) :
    Placed t :=
  hrun.invariant (C := fun _ => True) (fun _ _ => trivial)
    ⟨List.nodup_nil, by simp [ServiceState.start]⟩ fun _ hvalid _ => (lineageStep hvalid).placed

omit [Foundation] [CognitionStore σ] in
theorem LineageStep.spent {address : ℕ} (h : LineageStep s s' call answer)
    (hspent : Spent address s) : Spent address s' := by
  cases h with
  | kept hlive _ hnext _ => exact ⟨by rw [hlive]; exact hspent.gone, hnext ▸ hspent.old⟩
  | retired old _ hlive _ hnext _ =>
      refine ⟨fun hmem => hspent.gone ?_, hnext ▸ hspent.old⟩
      rw [hlive] at hmem
      exact (List.eraseP_sublist.map Materialization.address).subset hmem
  | created new _ haddress _ hlive _ hnext _ =>
      have hold := hspent.old
      refine ⟨fun hmem => ?_, by omega⟩
      rw [hlive, List.map_append, List.mem_append] at hmem
      rcases hmem with hmem | hmem
      · exact hspent.gone hmem
      · have hlast : address = new.address := by simpa using hmem
        omega
  | replaced old new _ haddress _ hlive _ hnext _ =>
      have hold := hspent.old
      refine ⟨fun hmem => ?_, by omega⟩
      rw [hlive] at hmem
      rcases mem_addresses_replaced hmem with hmem | hlast
      · exact hspent.gone hmem
      · omega

omit [Foundation] [CognitionStore σ] in
/-- A call that changes the registry at a handle takes the handle's own away. -/
theorem LineageStep.spends (h : LineageStep s s' call answer) (hplaced : Placed s)
    (hhandle : call.handle = some m) (hchanged : s'.live ≠ s.live) :
    Spends m.address (⟨s, call, answer, s'⟩ : ServiceTransition σ) := by
  have hfound {old : Materialization} (hfind : s.findLive call.handle = some old) :
      old.address = m.address ∧ old ∈ s.live := by
    obtain ⟨hmem, hat⟩ := findLive_some hfind
    rw [hhandle, Materialization.isAt_some] at hat
    exact ⟨hat.symm, hmem⟩
  cases h with
  | kept hlive _ _ _ => exact (hchanged hlive).elim
  | retired old hfind hlive _ _ _ =>
      obtain ⟨haddress, hmem⟩ := hfound hfind
      refine ⟨haddress ▸ List.mem_map_of_mem hmem, ?_⟩
      change m.address ∉ s'.live.map Materialization.address
      rw [hlive, ← haddress]
      exact not_mem_map_eraseP hplaced.nodup hfind
  | created new hnone _ _ _ _ _ _ =>
      rw [hnone] at hhandle
      simp at hhandle
  | replaced old new hfind haddress _ hlive _ _ _ =>
      obtain ⟨hsame, hmem⟩ := hfound hfind
      refine ⟨hsame ▸ List.mem_map_of_mem hmem, ?_⟩
      change m.address ∉ s'.live.map Materialization.address
      rw [hlive, ← hsame]
      refine not_mem_map_updateFirst hplaced.nodup hfind (Ne.symm (Nat.ne_of_lt ?_))
      rw [haddress]
      exact hplaced.old _ (List.mem_map_of_mem hmem)

omit [Foundation] [CognitionStore σ] in
theorem Spent.findLive {address : ℕ} {handle : CognitionHandle} (h : Spent address s)
    (hhandle : handle.map Materialization.address = some address) : s.findLive handle = none := by
  refine List.find?_eq_none.mpr fun entry hentry hat => h.gone ?_
  obtain ⟨pointee, rfl, haddress⟩ := Option.map_eq_some_iff.mp hhandle
  rw [Materialization.isAt_some] at hat
  exact haddress ▸ hat ▸ List.mem_map_of_mem hentry

/-- Nothing comes of the call: a write is stale unless its key was recorded, there is
nothing to retire, and no quarantine moves. -/
structure TurnedAway (tr : ServiceTransition σ) : Prop where
  store : tr.after.store = tr.before.store
  live : tr.after.live = tr.before.live
  receipts : tr.after.receipts = tr.before.receipts
  activeGrantId : tr.after.activeGrantId = tr.before.activeGrantId
  write : ∀ handle transaction grant, tr.action = .writeToCognition handle transaction grant →
    tr.answer = .verdict ((tr.before.resolveKey transaction).getD (.refuse .staleBase))
  retire : ∀ handle, tr.action = .retireCognition handle → tr.answer = .retired false
  move : ∀ handle actor, tr.action = .verifyRestored handle actor ∨
    tr.action = .promoteAuthority handle actor → tr.answer = .handle none

theorem move_of_spent {actor : AuthenticatedActor} {handle moved : CognitionHandle}
    {source target : QuarantineState} (hfind : s.findLive handle = none)
    (h : s.moveQuarantine handle actor source target = (moved, s')) :
    moved = none ∧ s' = s.withIdentity := by
  rcases moveQuarantine_cases h with hnone | ⟨entry, _, hsome, -⟩
  · exact hnone
  · rw [hfind] at hsome
    simp at hsome

/-- What is called on a spent handle is turned away. -/
theorem Spent.turnedAway {address : ℕ} (h : Spent address tr.before)
    (hvalid : tr.Valid ServiceState.step)
    (hhandle : tr.action.handle.map Materialization.address = some address) : TurnedAway tr := by
  obtain ⟨s, call, answer, s'⟩ := tr
  have hstep : s.step call = some (answer, s') := hvalid
  have hfind : s.findLive call.handle = none := h.findLive hhandle
  cases call with
  | writeToCognition handle transaction grant =>
      obtain ⟨verdict, rfl, hwrite⟩ := step_writeToCognition hstep
      have hgates : s.leaseGates handle grant = .error (.refuse .staleBase) := by
        have hnone : s.findLive handle = none := hfind
        simp only [leaseGates, hnone]
      have hadmission : s.admission handle transaction grant = .error (.refuse .staleBase) := by
        simp only [admission, hgates]
        rfl
      have hresult : s.writeToCognition handle transaction grant =
          some ((s.resolveKey transaction).getD (.refuse .staleBase), s) := by
        simp only [writeToCognition, hadmission]
        cases s.resolveKey transaction <;> rfl
      rw [hresult] at hwrite
      obtain ⟨rfl, rfl⟩ := Prod.mk.inj (Option.some.inj hwrite)
      refine ⟨rfl, rfl, rfl, rfl, ?_, by simp, by simp⟩
      rintro _ _ _ ⟨⟩
      rfl
  | retireCognition handle =>
      obtain ⟨found, rfl, hretire⟩ := step_retireCognition hstep
      have hany : ¬ (s.live.any fun entry => entry.isAt handle) = true := by
        rw [List.any_eq_true]
        rintro ⟨entry, hentry, hat⟩
        exact List.find?_eq_none.mp hfind entry hentry hat
      rw [retireCognition, if_neg hany] at hretire
      obtain ⟨rfl, rfl⟩ := Prod.mk.inj hretire
      exact ⟨rfl, rfl, rfl, rfl, by simp, fun _ _ => rfl, by simp⟩
  | verifyRestored handle actor =>
      obtain ⟨verified, rfl, hverify⟩ := step_verifyRestored hstep
      obtain ⟨rfl, rfl⟩ := move_of_spent hfind hverify
      exact ⟨rfl, rfl, rfl, rfl, by simp, by simp, fun _ _ _ => rfl⟩
  | promoteAuthority handle actor =>
      obtain ⟨promoted, rfl, hpromote⟩ := step_promoteAuthority hstep
      obtain ⟨rfl, rfl⟩ := move_of_spent hfind hpromote
      exact ⟨rfl, rfl, rfl, rfl, by simp, by simp, fun _ _ _ => rfl⟩
  | createCognition source => simp [Call.handle] at hhandle
  | acquireGrant actor mode => simp [Call.handle] at hhandle
  | releaseGrant grant => simp [Call.handle] at hhandle
  | attachIdentityVerifier verifier => simp [Call.handle] at hhandle
  | canonicalHead => simp [Call.handle] at hhandle
  | currentEpoch => simp [Call.handle] at hhandle

theorem Spends.spent {address : ℕ} (h : Spends address tr) (hvalid : tr.Valid ServiceState.step)
    (hplaced : Placed tr.before) : Spent address tr.after := by
  refine ⟨h.2, (hplaced.old address h.1).trans_le ?_⟩
  cases lineageStep hvalid with
  | kept _ _ hnext _ | retired _ _ _ _ hnext _ => exact hnext.ge
  | created _ _ _ _ _ _ hnext _ | replaced _ _ _ _ _ _ _ hnext _ => omega

/-- The placement of every state of a run. -/
theorem placed_before {store : σ} (hrun : ServiceRun (ServiceState.start store) trs t)
    (htr : tr ∈ trs) : Placed tr.before := by
  obtain ⟨before, after, rfl⟩ := List.append_of_mem htr
  obtain ⟨_, hbefore, hrest⟩ := hrun.append_inv
  obtain ⟨rfl, -, -⟩ := hrest.cons_inv
  exact placed_of_run hbefore

/-- Over any store and any identity port a handle is spent at most once, by the first
call on it that changes the registry; whatever is called on it later is turned away. -/
theorem handles_spent_once {store : σ} (hrun : ServiceRun (ServiceState.start store) trs t) :
    (∀ tr ∈ trs, ∀ m, tr.action.handle = some m → tr.after.live ≠ tr.before.live →
      Spends m.address tr) ∧
    (∀ address, trs.Pairwise fun tr tr' => ¬ (Spends address tr ∧ Spends address tr')) ∧
    ∀ earlier spend since tr later address,
      trs = earlier ++ spend :: since ++ tr :: later → Spends address spend →
      tr.action.handle.map Materialization.address = some address → TurnedAway tr := by
  refine ⟨fun tr htr m hhandle hchanged => ?_, fun address => ?_, ?_⟩
  · exact (lineageStep (hrun.valid_of_mem htr)).spends (placed_before hrun htr) hhandle hchanged
  · refine hrun.at_most_once (M := Spent address) (fun tr htr => placed_before hrun htr)
      (fun tr hvalid _ hbefore => (lineageStep hvalid).spent hbefore)
      fun tr hvalid hplaced hspends => ⟨fun hspent => hspent.gone hspends.1,
        hspends.spent hvalid hplaced⟩
  · rintro earlier spend since tr later address rfl hspends hhandle
    have hplaced : Placed spend.before := placed_before hrun (by simp)
    obtain ⟨_, hpast, hlast⟩ := hrun.append_inv
    obtain ⟨rfl, hvalid, -⟩ := hlast.cons_inv
    obtain ⟨_, -, hmiddle⟩ := hpast.append_inv
    obtain ⟨rfl, hspend, hbetween⟩ := hmiddle.cons_inv
    have hspent : Spent address tr.before := by
      refine hbetween.invariant (C := fun _ => True) (fun _ _ => trivial)
        (hspends.spent hspend hplaced) ?_
      exact fun other hother _ hbefore => (lineageStep hother).spent hbefore
    exact hspent.turnedAway hvalid hhandle

/-! ## Epochs -/

/-- The epochs of a number of creations, the first one first. -/
def firstEpochs (count : ℕ) : List Epoch :=
  (List.range count).map fun k => UInt64.ofNat (k + 1)

omit [Foundation] in
theorem firstEpochs_succ (count : ℕ) :
    firstEpochs (count + 1) = firstEpochs count ++ [UInt64.ofNat (count + 1)] := by
  simp [firstEpochs, List.range_succ]

omit [Foundation] in
theorem firstEpochs_nodup {count : ℕ} (hcount : count < 2 ^ 64) : (firstEpochs count).Nodup := by
  refine List.Nodup.map_on ?_ List.nodup_range
  intro i hi j hj hsame
  have hi' : i < count := List.mem_range.mp hi
  have hj' : j < count := List.mem_range.mp hj
  have hnat := congrArg UInt64.toNat hsame
  rw [UInt64.toNat_ofNat', UInt64.toNat_ofNat', Nat.mod_eq_of_lt (by omega),
    Nat.mod_eq_of_lt (by omega)] at hnat
  omega

/-- The materializations that were handed out as created. -/
def createdOf (trs : List (ServiceTransition σ)) : List Materialization :=
  trs.filterMap fun tr => tr.answer.created?

/-- The call put the new materialization where the old one was. -/
structure Replaces (tr : ServiceTransition σ) (old new : Materialization) : Prop where
  found : tr.before.findLive tr.action.handle = some old
  fresh : new.address = tr.before.nextAddress
  live : new ∈ tr.after.live

/-- The materialization comes from the first by calls of the run that replaced one by
the next. -/
inductive Descends (trs : List (ServiceTransition σ)) (root : Materialization) :
    Materialization → Prop
  | root : Descends trs root root
  | next {old new : Materialization} {tr : ServiceTransition σ} (hold : Descends trs root old)
      (htr : tr ∈ trs) (hreplaces : Replaces tr old new) : Descends trs root new

omit [Foundation] [CognitionStore σ] in
theorem Descends.mono (h : Descends past root m) (hsubset : past ⊆ trs) : Descends trs root m := by
  induction h with
  | root => exact .root
  | next _ htr hreplaces ih => exact .next ih (hsubset htr) hreplaces

omit [Foundation] [CognitionStore σ] in
theorem LineageStep.epoch_replaces (h : LineageStep s s' call answer) (hplaced : Placed s)
    (hreplaces : Replaces (⟨s, call, answer, s'⟩ : ServiceTransition σ) old new) :
    new.epoch = old.epoch := by
  obtain ⟨hfound, hfresh, hmem⟩ := hreplaces
  have hfound' : s.findLive call.handle = some old := hfound
  have hnot : new ∉ s.live := fun hold =>
    (hplaced.old _ (List.mem_map_of_mem hold)).ne hfresh
  cases h with
  | kept hlive _ _ _ =>
      have hkept : new ∈ s.live := hlive ▸ hmem
      exact (hnot hkept).elim
  | retired _ _ hlive _ _ _ =>
      have hkept : new ∈ s.live.eraseP fun entry => entry.isAt call.handle := hlive ▸ hmem
      exact (hnot (List.mem_of_mem_eraseP hkept)).elim
  | created _ hnone _ _ _ _ _ _ =>
      have hat := (findLive_some hfound').2
      rw [hnone] at hat
      simp at hat
  | replaced other another hfind _ hnew hlive _ _ _ =>
      obtain rfl := Option.some.inj (hfind.symm.trans hfound')
      have hput : new ∈ updateFirst (fun entry => entry.isAt call.handle) (fun _ => another)
          s.live := hlive ▸ hmem
      rcases mem_updateFirst hput with hold | ⟨_, -, -, rfl⟩
      · exact (hnot hold).elim
      · exact hnew

/-- A lineage keeps the epoch it was created with. -/
theorem Descends.epoch {store : σ} (hrun : ServiceRun (ServiceState.start store) trs t)
    (h : Descends trs root m) : m.epoch = root.epoch := by
  induction h with
  | root => rfl
  | next _ htr hreplaces ih =>
      have hstep := (lineageStep (hrun.valid_of_mem htr)).epoch_replaces
        (placed_before hrun htr) hreplaces
      exact hstep.trans ih

/-- Each creation had the next epoch, and what is registered has the epoch of its own. -/
structure CountsEpochs (past : List (ServiceTransition σ)) (s : ServiceState σ) : Prop where
  epoch : s.epoch = UInt64.ofNat (createdOf past).length
  epochs : (createdOf past).map Materialization.epoch = firstEpochs (createdOf past).length
  distinct : (s.live.map Materialization.epoch).Nodup
  rooted : ∀ m ∈ s.live, ∃ root ∈ createdOf past, Descends past root m

omit [Foundation] [CognitionStore σ] in
theorem createdOf_snoc (past : List (ServiceTransition σ)) (tr : ServiceTransition σ) :
    createdOf (past ++ [tr]) = createdOf past ++ tr.answer.created?.toList := by
  cases hcreated : tr.answer.created? <;> simp [createdOf, hcreated]

omit [Foundation] [CognitionStore σ] in
theorem CountsEpochs.quiet (h : CountsEpochs past tr.before)
    (hepoch : tr.after.epoch = tr.before.epoch) (hanswer : tr.answer.created? = none)
    (hdistinct : (tr.after.live.map Materialization.epoch).Nodup)
    (hrooted : ∀ m ∈ tr.after.live,
      ∃ root ∈ createdOf past, Descends (past ++ [tr]) root m) :
    CountsEpochs (past ++ [tr]) tr.after := by
  have hsame : createdOf (past ++ [tr]) = createdOf past := by
    rw [createdOf_snoc, hanswer, Option.toList_none, List.append_nil]
  exact ⟨by rw [hsame, hepoch, h.epoch], by rw [hsame]; exact h.epochs, hdistinct,
    by rw [hsame]; exact hrooted⟩

theorem CountsEpochs.step {store : σ}
    (hpast : ServiceRun (ServiceState.start store) past tr.before)
    (h : CountsEpochs past tr.before) (hvalid : tr.Valid ServiceState.step)
    (hcount : (createdOf (past ++ [tr])).length < 2 ^ 64) :
    CountsEpochs (past ++ [tr]) tr.after := by
  have hrooted : ∀ m ∈ tr.before.live, ∃ root ∈ createdOf past, Descends (past ++ [tr]) root m := by
    intro m hm
    obtain ⟨root, hroot, hlineage⟩ := h.rooted m hm
    exact ⟨root, hroot, hlineage.mono (List.subset_append_left _ _)⟩
  cases lineageStep hvalid with
  | kept hlive hepoch _ hanswer =>
      exact h.quiet hepoch hanswer (hlive ▸ h.distinct) (hlive ▸ hrooted)
  | retired old _ hlive hepoch _ hanswer =>
      refine h.quiet hepoch hanswer ?_ fun m hm => hrooted m ?_
      · rw [hlive]
        exact h.distinct.sublist (List.eraseP_sublist.map _)
      · rw [hlive] at hm
        exact List.mem_of_mem_eraseP hm
  | replaced old new hfind haddress hnew hlive hepoch _ hanswer =>
      refine h.quiet hepoch hanswer ?_ fun m hm => ?_
      · rw [hlive, map_updateFirst_same hfind hnew]
        exact h.distinct
      · have hmem := hm
        rw [hlive] at hm
        rcases mem_updateFirst hm with hm | ⟨_, -, -, rfl⟩
        · exact hrooted m hm
        · obtain ⟨root, hroot, hlineage⟩ := hrooted old (findLive_some hfind).1
          exact ⟨root, hroot, hlineage.next (by simp) ⟨hfind, haddress, hmem⟩⟩
  | created new _ _ hnew hlive hepoch _ hanswer =>
      have hsnoc : createdOf (past ++ [tr]) = createdOf past ++ [new] := by
        rw [createdOf_snoc, hanswer, Option.toList_some]
      have hlength : (createdOf (past ++ [tr])).length = (createdOf past).length + 1 := by
        rw [hsnoc, List.length_append, List.length_singleton]
      have hnext : new.epoch = UInt64.ofNat ((createdOf past).length + 1) := by
        rw [hnew, h.epoch, UInt64.ofNat_add]
        rfl
      have hepochs : (createdOf (past ++ [tr])).map Materialization.epoch =
          firstEpochs (createdOf (past ++ [tr])).length := by
        rw [hlength, firstEpochs_succ, ← h.epochs, ← hnext, hsnoc, List.map_append,
          List.map_singleton]
      refine ⟨by rw [hlength, hepoch, ← hnew, hnext], hepochs, ?_, ?_⟩
      · -- the new epoch is none of those handed out before, so of none registered
        have hnodup := firstEpochs_nodup hcount
        rw [← hepochs, hsnoc, List.map_append, List.map_singleton, List.nodup_append] at hnodup
        rw [hlive, List.map_append, List.map_singleton, List.nodup_append]
        refine ⟨h.distinct, List.nodup_singleton _, fun epoch hmem last hlast => ?_⟩
        obtain ⟨m, hm, rfl⟩ := List.mem_map.mp hmem
        obtain ⟨root, hroot, hlineage⟩ := h.rooted m hm
        rw [hlineage.epoch hpast]
        exact hnodup.2.2 _ (List.mem_map_of_mem hroot) last hlast
      · intro m hm
        rw [hlive, List.mem_append, List.mem_singleton] at hm
        rw [hsnoc]
        rcases hm with hm | rfl
        · obtain ⟨root, hroot, hlineage⟩ := hrooted m hm
          exact ⟨root, List.mem_append_left _ hroot, hlineage⟩
        · exact ⟨m, by simp, .root⟩

/-- In a run of fewer than `2 ^ 64` creations the epochs that are handed out are the
first ones in order. What is registered descends from a creation, with its epoch,
and is alone in that. -/
theorem epochs_name_lineages {store : σ} (hrun : ServiceRun (ServiceState.start store) trs t)
    (hcount : (createdOf trs).length < 2 ^ 64) :
    (createdOf trs).map Materialization.epoch = firstEpochs (createdOf trs).length ∧
    t.epoch = UInt64.ofNat (createdOf trs).length ∧
    (∀ m ∈ t.live, ∃ root ∈ createdOf trs, Descends trs root m ∧ m.epoch = root.epoch) ∧
    ∀ m ∈ t.live, ∀ m' ∈ t.live, m.epoch = m'.epoch → m = m' := by
  have hcounts : CountsEpochs trs t := by
    refine hrun.history_induction (motive := fun trs t =>
      (createdOf trs).length < 2 ^ 64 → CountsEpochs trs t)
      (fun _ => ⟨rfl, rfl, List.nodup_nil, by simp [ServiceState.start]⟩) ?_ hcount
    intro past tr hpast hvalid ih hcount
    refine (ih ?_).step hpast hvalid hcount
    rw [createdOf_snoc, List.length_append] at hcount
    omega
  refine ⟨hcounts.epochs, hcounts.epoch, fun m hm => ?_, fun m hm m' hm' hsame => ?_⟩
  · obtain ⟨root, hroot, hlineage⟩ := hcounts.rooted m hm
    exact ⟨root, hroot, hlineage, hlineage.epoch hrun⟩
  · exact List.inj_on_of_nodup_map hcounts.distinct hm hm' hsame

end Fencing

open scoped QivenContext.Reference

/-- Boot an empty store and retire what was booted, twice. -/
theorem exists_retired :
    ∃ (m : Materialization) (retired : ServiceState MemoryStore)
      (boot retire again : ServiceTransition MemoryStore),
      ServiceRun (ServiceState.start {}) [boot, retire, again] retired ∧
      retire.action = .retireCognition (some m) ∧ again.action = .retireCognition (some m) ∧
      retire.before.live = [m] ∧ retire.after.live = [] := by
  obtain ⟨booted, -, m, hboot, -, -, hlive, -⟩ := exists_boot
  have hretire : booted.step (.retireCognition (some m)) =
      some (.retired true, { booted with live := [] }) := by
    simp [step, retireCognition, hlive]
  have hagain : ({ booted with live := [] } : ServiceState MemoryStore).step
      (.retireCognition (some m)) = some (.retired false, { booted with live := [] }) := rfl
  exact ⟨m, _, _, _, _, (((Run.nil _).snoc hboot).snoc hretire).snoc hagain, rfl, rfl, hlive, rfl⟩

theorem retired_handle_spent :
    ∃ (trs : List (ServiceTransition MemoryStore)) (t : ServiceState MemoryStore)
      (address : ℕ) (retire again : ServiceTransition MemoryStore),
      ServiceRun (ServiceState.start {}) trs t ∧ retire ∈ trs ∧ Spends address retire ∧
        again ∈ trs ∧ TurnedAway again := by
  obtain ⟨m, retired, boot, retire, again, hrun, hretire, hagain, hbefore, hafter⟩ :=
    exists_retired
  obtain ⟨hspends, -, haway⟩ := handles_spent_once hrun
  have hfirst : Spends m.address retire :=
    hspends retire (by simp) m (by rw [hretire]; rfl) (by rw [hbefore, hafter]; simp)
  exact ⟨_, retired, m.address, retire, again, hrun, by simp, hfirst, by simp,
    haway [boot] retire [] again [] m.address rfl hfirst (by rw [hagain]; rfl)⟩

/-- Two boots with the lease between them, and a write: what it leaves was not
created, and has the epoch of a boot. -/
theorem second_epoch_follows :
    ∃ (trs : List (ServiceTransition MemoryStore)) (t : ServiceState MemoryStore)
      (m : Materialization), ServiceRun (ServiceState.start {}) trs t ∧ m ∈ t.live ∧
        (createdOf trs).map Materialization.epoch = firstEpochs 2 ∧ t.epoch = 2 ∧
        m ∉ createdOf trs ∧
        ∃ root ∈ createdOf trs, Descends trs root m ∧ m.epoch = root.epoch := by
  obtain ⟨booted, leased, m, hboot, hgrant, honHead, -, hstate, -, hrevisions, hstore,
    hreceipts⟩ := exists_boot
  obtain ⟨m', s, hagain, -, honHead', hstate', -, -, hreceipts'⟩ :=
    honHead.boot (storedHead_of_genesis (hstore ▸ hrevisions)).2 rfl
  obtain ⟨t, m'', hwrote, hevidence⟩ := honHead'.writeEvidence (hstate' ▸ genesis_quiet)
    (keyedEvidence m'.revision) (resolveKey_fresh (by rw [hreceipts', hreceipts]))
    rfl (List.cons_ne_nil _ _) (keyedEvidence_evidenceOnly _)
  let trs : List (ServiceTransition MemoryStore) :=
    [⟨ServiceState.start {}, .createCognition {}, .created (.handle m), booted⟩,
      ⟨booted, .acquireGrant rootActor .supervisedForeground, .granted (some firstGrant), leased⟩,
      ⟨leased, .createCognition {}, .created (.handle m'), s⟩,
      OnHead.written s m' (keyedEvidence m'.revision) t m'']
  have hrun : ServiceRun (ServiceState.start {}) trs t :=
    hwrote.run ((((Run.nil _).snoc hboot).snoc hgrant).snoc hagain)
  have hcreated : createdOf trs = [m, m'] := rfl
  obtain ⟨hepochs, hepoch, hrooted, -⟩ := epochs_name_lineages hrun (by simp [hcreated])
  obtain ⟨root, hroot, hdescends, hsame⟩ := hrooted m'' hwrote.onHead.live
  refine ⟨trs, t, m'', hrun, hwrote.onHead.live, hepochs, hepoch, fun hmem => ?_, root, hroot,
    hdescends, hsame⟩
  have hnew : m''.state.evidence ≠ [] := by simp [hevidence, keyedEvidence]
  have hnone : ∀ other ∈ createdOf trs, other.state.evidence = [] := by
    simp [hcreated, hstate, hstate', makeGenesis]
  exact hnew (hnone m'' hmem)

end QivenContext
