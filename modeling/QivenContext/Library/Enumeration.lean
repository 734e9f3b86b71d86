import Mathlib.Data.List.Basic
import Mathlib.Data.List.Nodup

/-!
# Enumerations with a one-byte representation

An enumeration lists its values in declaration order. The position in that
list is the byte a cast writes; reading a byte back is the lookup. Both
directions are proved once, for every enumeration.
-/

namespace QivenContext.Library

/-- The values of `E` in declaration order, each exactly once. -/
class Enumerated (E : Type) [DecidableEq E] [Inhabited E] where
  values : List E
  nodup : values.Nodup
  complete : ∀ e, e ∈ values
  small : values.length ≤ 256

namespace Enumerated

variable {E : Type} [DecidableEq E] [Inhabited E] [Enumerated E]

/-- The byte of an enumerator: its position in the declaration. -/
def toByte (e : E) : UInt8 := UInt8.ofNat (values.idxOf e)

/-- The enumerator of a byte; a byte past the last one gives the default. -/
def ofByte (b : UInt8) : E := (values[b.toNat]?).getD default

theorem idxOf_lt (e : E) : values.idxOf e < (values : List E).length :=
  List.idxOf_lt_length_of_mem (complete e)

theorem toByte_toNat (e : E) : (toByte e).toNat = values.idxOf e := by
  have hlt := idxOf_lt e
  have hsmall : (values : List E).length ≤ 256 := small
  simp only [toByte, UInt8.toNat_ofNat']
  omega

@[simp] theorem ofByte_toByte (e : E) : ofByte (toByte e) = e := by
  have hget : (values : List E)[values.idxOf e]? = some e := by
    rw [List.getElem?_eq_getElem (idxOf_lt e), List.getElem_idxOf (idxOf_lt e)]
  simp [ofByte, toByte_toNat, hget]

theorem toByte_ofByte {b : UInt8} (hb : b.toNat < (values : List E).length) :
    toByte (ofByte b : E) = b := by
  have hget : (ofByte b : E) = values[b.toNat] := by
    simp [ofByte, List.getElem?_eq_getElem hb]
  apply UInt8.toNat_inj.mp
  rw [toByte_toNat, hget, List.Nodup.idxOf_getElem nodup _ hb]

theorem toByte_le {last : UInt8} (h : (values : List E).length ≤ last.toNat + 1) (e : E) :
    toByte e ≤ last := by
  rw [UInt8.le_iff_toNat_le, toByte_toNat]
  have hlt := idxOf_lt e
  omega

end Enumerated

end QivenContext.Library
