import Mathlib.Data.Nat.Digits.Lemmas

/-!
# Strings as bytes

A `std::string` is a sequence of bytes, so that its size, its encoding and
its comparison are those of the source. The decimal rendering is that of
`std::to_string`.
-/

namespace QivenContext

/-- `std::string`. -/
abbrev Str := List UInt8

/-- The draft serialization payload. -/
abbrev Bytes := List UInt8

/-- The bytes of a string literal of the source. -/
def lit (s : String) : Str := s.toUTF8.data.toList

/-- The decimal digits of a natural number, most significant first. -/
def decimal (n : ℕ) : Str :=
  if n = 0 then [48] else (Nat.digits 10 n).reverse.map fun d => UInt8.ofNat (48 + d)

/-- `std::to_string` of a signed 64-bit integer. -/
def toStringInt64 (n : Int64) : Str :=
  if n < 0 then lit "-" ++ decimal n.toInt.natAbs else decimal n.toInt.natAbs

/-- `std::to_string` of an unsigned 64-bit integer. -/
def toStringUInt64 (n : UInt64) : Str := decimal n.toNat

def comma : UInt8 := 44

def colon : UInt8 := 58

/-- The non-empty pieces that `std::getline` finds between commas. -/
def splitRefs (text : Str) : List Str :=
  (text.splitOn comma).filter fun ref => !ref.isEmpty

/-- `scope.substr(0, scope.find(':'))`; without a colon, the whole string. -/
def beforeColon (scope : Str) : Str := scope.takeWhile (· != colon)

/-- `scope.substr(scope.find(':') + 1)`; without a colon `npos + 1` wraps to
zero, so the whole string. -/
def afterColon (scope : Str) : Str :=
  if scope.contains colon then (scope.dropWhile (· != colon)).drop 1 else scope

theorem length_beforeColon_le (scope : Str) : (beforeColon scope).length ≤ scope.length :=
  (List.takeWhile_sublist _).length_le

theorem length_afterColon_le (scope : Str) : (afterColon scope).length ≤ scope.length := by
  unfold afterColon
  split
  · calc ((scope.dropWhile (· != colon)).drop 1).length
        ≤ (scope.dropWhile (· != colon)).length := (List.drop_sublist _ _).length_le
      _ ≤ scope.length := (List.dropWhile_sublist _).length_le
  · exact le_refl _

theorem length_le_of_mem_splitOn {text ref : Str} (h : ref ∈ text.splitOn comma) :
    ref.length ≤ text.length := by
  induction text generalizing ref with
  | nil => simp_all
  | cons x xs ih =>
      rw [List.splitOn_cons_eq_if_modifyHead] at h
      split at h
      · rcases List.mem_cons.mp h with rfl | h
        · simp
        · exact (ih h).trans (Nat.le_succ _)
      · cases hs : xs.splitOn comma with
        | nil => simp [hs] at h
        | cons piece pieces =>
            rw [hs, List.modifyHead_cons] at h
            rcases List.mem_cons.mp h with rfl | h
            · exact Nat.succ_le_succ (ih (by simp [hs]))
            · exact (ih (by simp [hs, h])).trans (Nat.le_succ _)

theorem length_le_of_mem_splitRefs {text ref : Str} (h : ref ∈ splitRefs text) :
    ref.length ≤ text.length :=
  length_le_of_mem_splitOn (List.mem_filter.mp h).1

/-- The number that a decimal rendering denotes. -/
def ofDecimal (text : Str) : ℕ := Nat.ofDigits 10 (text.reverse.map fun digit => digit.toNat - 48)

theorem ofDecimal_decimal (n : ℕ) : ofDecimal (decimal n) = n := by
  unfold decimal
  split
  · next hzero =>
      rw [hzero]
      rfl
  · have hdigits : ∀ d ∈ Nat.digits 10 n, (UInt8.ofNat (48 + d)).toNat - 48 = d := by
      intro d hd
      have hlt := Nat.digits_lt_base (by norm_num) hd
      rw [UInt8.toNat_ofNat']
      omega
    have hmap : (Nat.digits 10 n).map
        ((fun digit => digit.toNat - 48) ∘ fun d => UInt8.ofNat (48 + d)) = Nat.digits 10 n :=
      (List.map_congr_left hdigits).trans (List.map_id _)
    rw [ofDecimal, ← List.map_reverse, List.reverse_reverse, List.map_map, hmap,
      Nat.ofDigits_digits]

theorem decimal_injective : Function.Injective decimal :=
  Function.LeftInverse.injective ofDecimal_decimal

theorem length_decimal_le {n : ℕ} (h : n < 10 ^ 20) : (decimal n).length ≤ 20 := by
  unfold decimal
  split
  · simp
  · simpa using (Nat.digits_length_le_iff (by norm_num) n).mpr h

theorem length_toStringInt64_le (n : Int64) : (toStringInt64 n).length ≤ 21 := by
  have hlow := n.le_toInt
  have hhigh := n.toInt_lt
  have hdigits := length_decimal_le (n := n.toInt.natAbs) (by omega)
  unfold toStringInt64
  split
  · have hsign : (lit "-").length = 1 := by decide
    rw [List.length_append, hsign]
    omega
  · omega

end QivenContext
