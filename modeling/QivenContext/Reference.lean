import QivenContext.Genesis
import QivenContext.Serialize
import QivenContext.Foundation
import QivenContext.Store

/-!
# A reference instance of the foundation primitives

The published FNV-1a and the sixteen-digit lower-case rendering, over cursors
that are the bytes left. The general results hold for every instance; this
one is where concrete inputs are tried.
-/

namespace QivenContext.Reference

open Library

/-- One round of 64-bit FNV-1a. -/
def fnvRound (hash : UInt64) (byte : UInt8) : UInt64 :=
  (hash ^^^ byte.toUInt64) * 1099511628211

def fnv1a64OffsetBasis : UInt64 := 1469598103934665603

def fnv1a64 (bytes : Bytes) : UInt64 := bytes.foldl fnvRound fnv1a64OffsetBasis

/-- The hash of the base text and the bytes, continued from a seed. -/
def fnv1a64Chain (seed : UInt64) (base : Str) (bytes : Bytes) : UInt64 :=
  (base ++ bytes).foldl fnvRound seed

def hexDigit (nibble : ℕ) : UInt8 :=
  UInt8.ofNat (if nibble < 10 then 48 + nibble else 87 + nibble)

/-- The low hexadecimal digits of a number, least significant first. -/
def nibbles : ℕ → ℕ → List ℕ
  | 0, _ => []
  | width + 1, n => n % 16 :: nibbles width (n / 16)

def toHexU64 (value : UInt64) : Str := ((nibbles 16 value.toNat).map hexDigit).reverse

theorem nibbles_lt {width n nibble : ℕ} (h : nibble ∈ nibbles width n) : nibble < 16 := by
  induction width generalizing n with
  | zero => simp [nibbles] at h
  | succ width ih =>
      rcases List.mem_cons.mp h with rfl | h
      · exact Nat.mod_lt n (by norm_num)
      · exact ih h

theorem ofDigits_nibbles (width n : ℕ) : Nat.ofDigits 16 (nibbles width n) = n % 16 ^ width := by
  induction width generalizing n with
  | zero => simp [nibbles, Nat.mod_one]
  | succ width ih =>
      rw [nibbles, Nat.ofDigits_cons, ih, pow_succ', Nat.mod_mul]

/-- The value of a hexadecimal digit. -/
def ofHexDigit (digit : UInt8) : ℕ :=
  if digit < 58 then digit.toNat - 48 else digit.toNat - 87

theorem ofHexDigit_hexDigit : ∀ nibble < 16, ofHexDigit (hexDigit nibble) = nibble := by
  decide

theorem map_ofHexDigit {digits : List ℕ} (h : ∀ digit ∈ digits, digit < 16) :
    (digits.map hexDigit).map ofHexDigit = digits := by
  rw [List.map_map]
  exact (List.map_congr_left fun digit hdigit => ofHexDigit_hexDigit digit (h digit hdigit)).trans
    (List.map_id digits)

theorem toHexU64_injective : Function.Injective toHexU64 := by
  intro a b h
  have hmap := congrArg (List.map ofHexDigit) (List.reverse_inj.mp h)
  rw [map_ofHexDigit fun _ => nibbles_lt, map_ofHexDigit fun _ => nibbles_lt] at hmap
  have hvalue := congrArg (Nat.ofDigits 16) hmap
  rw [ofDigits_nibbles, ofDigits_nibbles,
    Nat.mod_eq_of_lt (show a.toNat < 16 ^ 16 from a.toNat_lt),
    Nat.mod_eq_of_lt (show b.toNat < 16 ^ 16 from b.toNat_lt)] at hvalue
  exact UInt64.toNat_inj.mp hvalue

def decodeWord (width : ℕ) (bytes : Bytes) : Option ℕ :=
  if bytes.length = width then some (ofLittleEndian bytes) else none

scoped instance foundation : Foundation where
  Cursor := Bytes
  cursor bytes := bytes
  remaining := List.length
  take cursor count :=
    if count ≤ cursor.length then some (cursor.take count, cursor.drop count) else none
  empty := List.isEmpty
  decodeLeU32 bytes := (decodeWord 4 bytes).map UInt32.ofNat
  decodeLeU64 bytes := (decodeWord 8 bytes).map UInt64.ofNat
  fnv1a64 := fnv1a64
  fnv1a64OffsetBasis := fnv1a64OffsetBasis
  fnv1a64Chain := fnv1a64Chain
  toHexU64 := toHexU64
  unread cursor := cursor
  unread_cursor _ := rfl
  remaining_eq _ := rfl
  take_eq cursor count h := ⟨cursor.drop count, by rw [if_pos h], rfl⟩
  empty_iff cursor := List.isEmpty_iff
  decodeLeU32_eq bytes h := by simp [decodeWord, h]
  decodeLeU64_eq bytes h := by simp [decodeWord, h]
  toHexU64_injective := toHexU64_injective

/-! ## Fresh revisions

Every round is injective in the hash and in the byte, so inputs that differ
in one byte have different hashes. -/

theorem mul_prime_injective : Function.Injective fun hash : UInt64 => hash * 1099511628211 := by
  intro a b h
  -- the prime is odd, so it has an inverse modulo `2 ^ 64`
  have hinverse : (1099511628211 : UInt64) * 14886173955864302971 = 1 := by decide
  have hcancel := congrArg (· * (14886173955864302971 : UInt64)) h
  simpa only [UInt64.mul_assoc, hinverse, UInt64.mul_one] using hcancel

theorem fnvRound_injective (byte : UInt8) : Function.Injective fun hash => fnvRound hash byte :=
  fun _ _ h => (UInt64.xor_left_inj _).mp (mul_prime_injective h)

theorem fnvRound_byte_injective (hash : UInt64) : Function.Injective (fnvRound hash) :=
  fun _ _ h => UInt8.toUInt64_inj.mp ((UInt64.xor_right_inj _).mp (mul_prime_injective h))

theorem foldl_fnvRound_injective (bytes : Bytes) :
    Function.Injective fun hash => bytes.foldl fnvRound hash := by
  induction bytes with
  | nil => exact fun _ _ h => h
  | cons byte rest ih => exact fun _ _ h => fnvRound_injective byte (ih h)

/-- The genesis digest that the tests pin. -/
example : draftSnapshotDigest (serializeSnapshot makeGenesis) =
    { value := lit "snap-aea527846a299800" } := by
  decide +kernel

theorem revisionOf_byte_injective (base : RevisionId) (before after : Bytes) :
    Function.Injective fun byte => revisionOf base (before ++ byte :: after) := by
  intro a b h
  have hvalue := congrArg RevisionId.value h
  have hhash := toHexU64_injective (List.append_cancel_left hvalue)
  change (base.value ++ (before ++ a :: after)).foldl fnvRound _ =
    (base.value ++ (before ++ b :: after)).foldl fnvRound _ at hhash
  simp only [List.foldl_append, List.foldl_cons] at hhash
  exact fnvRound_byte_injective _ (foldl_fnvRound_injective after hhash)

/-- Some byte gives a revision that is none of the given ones. -/
theorem exists_fresh_byte (base : RevisionId) (before after : Bytes) {bytes : List UInt8}
    {taken : List RevisionId} (hnodup : bytes.Nodup) (hlength : taken.length < bytes.length) :
    ∃ byte ∈ bytes, revisionOf base (before ++ byte :: after) ∉ taken := by
  by_contra hall
  simp only [not_exists, not_and, not_not] at hall
  have hsubset : bytes.map (fun byte => revisionOf base (before ++ byte :: after)) ⊆ taken := by
    intro revision hmem
    obtain ⟨byte, hbyte, rfl⟩ := List.mem_map.mp hmem
    exact hall byte hbyte
  have hdistinct := hnodup.map (revisionOf_byte_injective base before after)
  have hle := (hdistinct.subperm hsubset).length_le
  rw [List.length_map] at hle
  omega

end QivenContext.Reference
