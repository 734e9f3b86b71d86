import QivenContext.Bundle
import QivenContext.Growth
import QivenContext.Reference
import QivenContext.Steps

/-!
# Numerals in restored text

`std::stoll` returns a number for some texts and throws for the others. The
next boundary of a snapshot is text; the encoder of the service only ever
writes a decimal rendering there, the decoder takes anything.
-/

namespace QivenContext

open ServiceState

/-! ## What `std::stoll` accepts -/

/-- The value of the digits under the sign. -/
def signedValue (sign digits : Str) : ℤ :=
  if sign = [45] then -(digitsValue digits : ℤ) else digitsValue digits

/-- Blanks, a sign, and the digits of a value that fits `long long`, up to the
first byte that is no digit. -/
def Numeral (text : Str) : Prop :=
  ∃ blanks sign digits rest, text = blanks ++ (sign ++ (digits ++ rest)) ∧
    (∀ c ∈ blanks, isSpace c) ∧ (sign = [] ∨ sign = [43] ∨ sign = [45]) ∧
    digits ≠ [] ∧ (∀ c ∈ digits, isDigit c) ∧ (∀ c ∈ rest.head?, ¬ isDigit c) ∧
    -2 ^ 63 ≤ signedValue sign digits ∧ signedValue sign digits < 2 ^ 63

section Stoll

variable {blanks sign digits rest text : Str}

theorem not_isSpace_of_isDigit {c : UInt8} (h : isDigit c) : ¬ isSpace c := by
  simp only [isDigit, decide_eq_true_eq] at h
  simp only [isSpace, decide_eq_true_eq, not_or, not_and, UInt8.not_le]
  have hlow : 48 ≤ c.toNat := UInt8.le_iff_toNat_le.mp h.1
  refine ⟨fun hc => ?_, fun _ => UInt8.lt_iff_toNat_lt.mpr (by simpa using by omega)⟩
  subst hc
  exact absurd hlow (by decide)

/-- The parts of a text come out of the scan as they were put together. -/
theorem stoll_parts (hblanks : ∀ c ∈ blanks, isSpace c)
    (hsign : sign = [] ∨ sign = [43] ∨ sign = [45]) (hne : digits ≠ [])
    (hdigits : ∀ c ∈ digits, isDigit c) (hrest : ∀ c ∈ rest.head?, ¬ isDigit c) :
    stoll (blanks ++ (sign ++ (digits ++ rest))) =
      if signedValue sign digits < -2 ^ 63 ∨ 2 ^ 63 ≤ signedValue sign digits then
        .error .outOfRange
      else .ok (Int64.ofInt (signedValue sign digits)) := by
  obtain ⟨d, ds, rfl⟩ := List.exists_cons_of_ne_nil hne
  have hd : isDigit d := hdigits d List.mem_cons_self
  have htake : (d :: ds ++ rest).takeWhile isDigit = d :: ds := by
    rw [List.takeWhile_append_of_pos hdigits]
    cases rest with
    | nil => simp
    | cons c cs => simp [hrest c rfl]
  have htrimmed : (blanks ++ (sign ++ (d :: ds ++ rest))).dropWhile isSpace =
      sign ++ (d :: ds ++ rest) := by
    rw [List.dropWhile_append_of_pos hblanks]
    rcases hsign with rfl | rfl | rfl
    · simp [not_isSpace_of_isDigit hd]
    · simp [isSpace]
    · simp [isSpace]
  have hnegative : (sign ++ (d :: ds ++ rest)).head? = some 45 ↔ sign = [45] := by
    rcases hsign with rfl | rfl | rfl
    · simp only [List.nil_append, List.cons_append, List.head?_cons, Option.some.injEq,
        List.nil_eq, List.cons_ne_nil, iff_false]
      rintro rfl
      exact absurd hd (by decide)
    · simp
    · simp
  have hunsigned : (if sign = [45] ∨
      (sign ++ (d :: ds ++ rest)).head? = some 43 then (sign ++ (d :: ds ++ rest)).drop 1
      else sign ++ (d :: ds ++ rest)) = d :: ds ++ rest := by
    rcases hsign with rfl | rfl | rfl
    · refine if_neg ?_
      simp only [List.nil_append, List.cons_append, List.head?_cons, Option.some.injEq,
        List.nil_eq, List.cons_ne_nil, false_or]
      rintro rfl
      exact absurd hd (by decide)
    · simp
    · simp
  unfold stoll
  simp only [htrimmed, hnegative, hunsigned, htake, List.isEmpty_cons]
  rfl

/-- What is left after an optional sign. -/
def afterSign (trimmed : Str) : Str :=
  if trimmed.head? = some 45 ∨ trimmed.head? = some 43 then trimmed.drop 1 else trimmed

theorem exists_sign (trimmed : Str) :
    ∃ sign, (sign = [] ∨ sign = [43] ∨ sign = [45]) ∧ trimmed = sign ++ afterSign trimmed := by
  cases trimmed with
  | nil => exact ⟨[], .inl rfl, by simp [afterSign]⟩
  | cons c cs =>
      by_cases hminus : c = 45
      · exact ⟨[45], .inr (.inr rfl), by simp [afterSign, hminus]⟩
      · by_cases hplus : c = 43
        · exact ⟨[43], .inr (.inl rfl), by simp [afterSign, hplus]⟩
        · exact ⟨[], .inl rfl, by simp [afterSign, hminus, hplus]⟩

theorem stoll_of_no_digits
    (h : (afterSign (text.dropWhile isSpace)).takeWhile isDigit = []) :
    stoll text = .error .invalidArgument :=
  if_pos (List.isEmpty_iff.mpr h)

/-- `std::stoll` returns exactly on the numerals. -/
theorem exists_stoll_iff : (∃ id, stoll text = .ok id) ↔ Numeral text := by
  constructor
  · rintro ⟨id, h⟩
    obtain ⟨sign, hsign, htrimmed⟩ := exists_sign (text.dropWhile isSpace)
    have hne : (afterSign (text.dropWhile isSpace)).takeWhile isDigit ≠ [] := by
      intro hnil
      rw [stoll_of_no_digits hnil] at h
      simp at h
    generalize afterSign (text.dropWhile isSpace) = unsigned at htrimmed hne
    have hrest : ∀ c ∈ (unsigned.dropWhile isDigit).head?, ¬ isDigit c := by
      intro c hc
      have hhead := List.head?_dropWhile_not isDigit unsigned
      rw [Option.mem_def.mp hc] at hhead
      simpa using hhead
    have htext : text = text.takeWhile isSpace ++ (sign ++ (unsigned.takeWhile isDigit ++
        unsigned.dropWhile isDigit)) := by
      rw [List.takeWhile_append_dropWhile, ← htrimmed, List.takeWhile_append_dropWhile]
    have hblanks : ∀ c ∈ text.takeWhile isSpace, isSpace c :=
      List.all_eq_true.mp List.all_takeWhile
    have hdigits : ∀ c ∈ unsigned.takeWhile isDigit, isDigit c :=
      List.all_eq_true.mp List.all_takeWhile
    rw [htext, stoll_parts hblanks hsign hne hdigits hrest] at h
    split at h
    · simp at h
    · next hvalue =>
        rw [not_or, not_lt, not_le] at hvalue
        exact ⟨_, sign, _, _, htext, hblanks, hsign, hne, hdigits, hrest, hvalue⟩
  · rintro ⟨blanks, sign, digits, rest, rfl, hblanks, hsign, hne, hdigits, hrest, hlow, hhigh⟩
    refine ⟨Int64.ofInt (signedValue sign digits), ?_⟩
    rw [stoll_parts hblanks hsign hne hdigits hrest, if_neg (by omega)]

/-! ## Decimal renderings -/

theorem digitsValue_eq_ofDecimal (digits : Str) : digitsValue digits = ofDecimal digits := by
  rw [ofDecimal, Nat.ofDigits_eq_foldr, List.foldr_map, List.foldr_reverse, digitsValue]
  congr
  funext value digit
  simp [Nat.mul_comm, Nat.add_comm]

theorem isDigit_of_mem_decimal {n : ℕ} {c : UInt8} (h : c ∈ decimal n) : isDigit c := by
  unfold decimal at h
  split at h
  · obtain rfl := List.mem_singleton.mp h
    decide
  · obtain ⟨d, hd, rfl⟩ := List.mem_map.mp h
    have hlt : d < 10 := Nat.digits_lt_base (by norm_num) (List.mem_reverse.mp hd)
    have hvalue : (UInt8.ofNat (48 + d)).toNat = 48 + d := by
      rw [UInt8.toNat_ofNat']
      omega
    simp only [isDigit, decide_eq_true_eq, UInt8.le_iff_toNat_le, hvalue]
    simp
    omega

theorem decimal_ne_nil (n : ℕ) : decimal n ≠ [] := by
  unfold decimal
  split
  · simp
  · next hne => simpa [Nat.digits_eq_nil_iff_eq_zero] using hne

/-- A rendered id is read back as itself. -/
theorem stoll_toStringInt64 (n : Int64) : stoll (toStringInt64 n) = .ok n := by
  have hlow := n.le_toInt
  have hhigh := n.toInt_lt
  obtain ⟨sign, htext, hsign, hvalue⟩ : ∃ sign,
      toStringInt64 n = [] ++ (sign ++ (decimal n.toInt.natAbs ++ [])) ∧
      (sign = [] ∨ sign = [43] ∨ sign = [45]) ∧
      signedValue sign (decimal n.toInt.natAbs) = n.toInt := by
    simp only [signedValue, digitsValue_eq_ofDecimal, ofDecimal_decimal]
    unfold toStringInt64
    split
    · next hneg =>
        have hneg' : n.toInt < 0 := Int64.lt_iff_toInt_lt.mp hneg
        exact ⟨[45], by rw [List.append_nil]; rfl, .inr (.inr rfl),
          by rw [if_pos rfl, Int.ofNat_natAbs_of_nonpos hneg'.le, neg_neg]⟩
    · next hpos =>
        have hpos' : ¬ n.toInt < 0 := fun h => hpos (Int64.lt_iff_toInt_lt.mpr h)
        exact ⟨[], by simp, .inl rfl,
          by rw [if_neg (by simp), Int.natAbs_of_nonneg (not_lt.mp hpos')]⟩
  rw [htext, stoll_parts (by simp) hsign (decimal_ne_nil _) (fun c => isDigit_of_mem_decimal)
    (by simp), hvalue, if_neg (by omega), Int64.ofInt_toInt]

theorem toStringInt64_injective : Function.Injective toStringInt64 := by
  intro a b h
  have hsame := stoll_toStringInt64 a
  rw [h, stoll_toStringInt64 b] at hsame
  exact (Except.ok.inj hsame).symm

end Stoll

/-! ## The bundle of a restored artifact -/

/-- The next boundary is absent, or a numeral. -/
def ReadableBoundary (snapshot : Snapshot) : Prop :=
  snapshot.state.nextBoundaryRef = [] ∨ Numeral snapshot.state.nextBoundaryRef

theorem exists_boundaryFloor_iff {snapshot : Snapshot} :
    (∃ floor, boundaryFloor snapshot = .ok floor) ↔ ReadableBoundary snapshot := by
  unfold boundaryFloor ReadableBoundary
  rw [← exists_stoll_iff]
  split
  · next hnil => exact iff_of_true ⟨[], rfl⟩ (.inl (List.isEmpty_iff.mp hnil))
  · next hne =>
      rw [or_iff_right (mt List.isEmpty_iff.mpr hne)]
      constructor
      · rintro ⟨floor, h⟩
        obtain ⟨id, hid, -⟩ := except_bind_eq_ok.mp h
        exact ⟨id, hid⟩
      · rintro ⟨id, hid⟩
        cases hfind : findObligation snapshot id with
        | none => exact ⟨[], by simp [hid, hfind, bind, Except.bind, pure, Except.pure]⟩
        | some boundary =>
            exact ⟨_, by simp only [hid, hfind, bind, Except.bind, pure, Except.pure]; rfl⟩

theorem exists_bundle_iff {handle : Materialization} {query : Query} :
    (∃ bundle, buildBundle handle query = .ok bundle) ↔
      ∃ floor, boundaryFloor handle.state = .ok floor := by
  unfold buildBundle mandatoryInputs
  constructor
  · rintro ⟨bundle, h⟩
    obtain ⟨inputs, hinputs, -⟩ := except_bind_eq_ok.mp h
    obtain ⟨floor, hfloor, -⟩ := except_bind_eq_ok.mp hinputs
    exact ⟨floor, hfloor⟩
  · rintro ⟨floor, hfloor⟩
    dsimp only
    rw [hfloor]
    exact ⟨_, rfl⟩

section Restored

variable [Foundation] {σ : Type} [CognitionStore σ] {s s' : ServiceState σ}
  {source : CognitionSource} {m : Materialization}

/-- The bytes that a creation decodes. -/
def ServiceState.decodedBytes (s : ServiceState σ) (source : CognitionSource) : Bytes :=
  match source.kind with
  | .handoffArtifact => source.inlineBytes
  | _ =>
      let stored := CognitionStore.materialize s.store (s.bootId source)
      if stored.isEmpty then serializeSnapshot makeGenesis else stored

theorem createCognition_decodes (h : s.createCognition source = (.handle m, s')) :
    deserialize (s.decodedBytes source) = .ok m.state := by
  rcases createCognition_cases h with ⟨-, -, hnone⟩ |
    ⟨hkind, -, snapshot, m', hparsed, rfl, hcreated, -⟩ |
    ⟨hkind, -, snapshot, m', bytes, rfl, hne, hparsed, rfl, hcreated, -⟩ |
    ⟨hsubmits, m', rfl, hcreated, -⟩
  · exact (hnone m rfl).elim
  · obtain rfl := Creation.handle.inj hcreated
    simp only [decodedBytes, hkind]
    exact hparsed
  · obtain rfl := Creation.handle.inj hcreated
    simp only [decodedBytes, hkind]
    rw [if_neg (mt List.isEmpty_iff.mp hne)]
    exact hparsed
  · obtain rfl := Creation.handle.inj hcreated
    simp only [submits] at hsubmits
    split at hsubmits
    · next hboot =>
        obtain ⟨hkind, -, hempty⟩ := hboot
        simp only [decodedBytes, hkind]
        rw [if_pos hempty]
        exact deserialize_genesis
    · simp at hsubmits

/-- An artifact that decodes is restored, into isolation. -/
theorem createCognition_restores {bytes : Bytes} {snapshot : Snapshot}
    (h : deserialize bytes = .ok snapshot) :
    s.createCognition { kind := .handoffArtifact, inlineBytes := bytes } =
      (.handle (s.minted snapshot bytes {} .isolated),
        s.register (s.minted snapshot bytes {} .isolated)) := by
  have hload : loadArtifact { kind := .handoffArtifact, inlineBytes := bytes } = .ok bytes := rfl
  simp only [createCognition, hload]
  rcases mint_cases s bytes {} .isolated with ⟨error, hmint⟩ | ⟨decoded, -, hparsed, hmint⟩
  · have hne : bytes ≠ [] := ne_nil_of_deserialize h
    simp [mint, h, hne] at hmint
  · obtain rfl : snapshot = decoded := Except.ok.inj (h.symm.trans hparsed)
    rw [hmint]
    rfl

/-- Building a bundle over a created handle completes for every query exactly
when the decoded boundary is readable. -/
theorem bundle_completes_iff (h : s.createCognition source = (.handle m, s')) :
    ∃ snapshot, deserialize (s.decodedBytes source) = .ok snapshot ∧
      ((∀ query, ∃ bundle, buildBundle m query = .ok bundle) ↔ ReadableBoundary snapshot) := by
  refine ⟨m.state, createCognition_decodes h, ?_⟩
  rw [← exists_boundaryFloor_iff]
  exact ⟨fun hall => exists_bundle_iff.mp (hall {}), fun hfloor _ => exists_bundle_iff.mpr hfloor⟩

end Restored

section Unreadable

open scoped QivenContext.Reference

theorem restored_genesis_completes :
    ∃ (m : Materialization) (s' : ServiceState MemoryStore),
      (ServiceState.start {}).createCognition
          { kind := .handoffArtifact, inlineBytes := serializeSnapshot makeGenesis } =
        (.handle m, s') ∧ ∀ query, ∃ bundle, buildBundle m query = .ok bundle := by
  have hcreate := createCognition_restores (s := ServiceState.start ({} : MemoryStore))
    deserialize_genesis
  obtain ⟨snapshot, hparsed, hcompletes⟩ := bundle_completes_iff hcreate
  obtain rfl : makeGenesis = snapshot := Except.ok.inj (deserialize_genesis.symm.trans hparsed)
  exact ⟨_, _, hcreate, hcompletes.mpr (.inl rfl)⟩

/-- Genesis with a next boundary that is no numeral. -/
def unreadableWorld : Snapshot :=
  { makeGenesis with state := { makeGenesis.state with nextBoundaryRef := lit "x" } }

theorem deserialize_unreadableWorld :
    deserialize (serializeSnapshot unreadableWorld) = .ok unreadableWorld := by
  have hstrings : Snapshot.StringsShort unreadableWorld :=
    { genesis_stringsShort with
      state := { genesis_stringsShort.state with
        nextBoundaryRef := (by decide : short (lit "x")) } }
  have hvectors : Snapshot.VectorsWithin 100000 unreadableWorld :=
    { genesis_vectorsWithin (by norm_num) with }
  rw [deserialize_serialize hstrings hvectors]
  rfl

/-- The artifact is restored, and no bundle can be built over it. -/
theorem unreadable_never_completes :
    ∃ (source : CognitionSource) (m : Materialization) (s' : ServiceState MemoryStore),
      source.kind = .handoffArtifact ∧
        (ServiceState.start {}).createCognition source = (.handle m, s') ∧
        ∀ query, buildBundle m query = .error .invalidArgument :=
  ⟨_, _, _, rfl, createCognition_restores deserialize_unreadableWorld, fun _ => rfl⟩

end Unreadable

end QivenContext
