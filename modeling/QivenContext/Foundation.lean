import QivenContext.Library.Wire
import QivenContext.Cognition

/-!
# The foundation primitives

The sources compose bounded reads, little-endian decoding and FNV hashing
from `qiven/byte_cursor.hpp`, `qiven/endian.hpp` and `qiven/hashing.hpp`,
which are not part of the repository. They are a parameter of the
development: a class with their operations, and of their behaviour only what
the calling code relies on.
-/

namespace QivenContext

open Library

class Foundation where
  /-- `qiven::ByteCursor`. -/
  Cursor : Type
  /-- The cursor at the start of a span. -/
  cursor : Bytes → Cursor
  remaining : Cursor → ℕ
  take : Cursor → ℕ → Option (Bytes × Cursor)
  empty : Cursor → Bool
  decodeLeU32 : Bytes → Option UInt32
  decodeLeU64 : Bytes → Option UInt64
  fnv1a64 : Bytes → UInt64
  fnv1a64OffsetBasis : UInt64
  fnv1a64Chain : UInt64 → Str → Bytes → UInt64
  toHexU64 : UInt64 → Str
  /-- The bytes a cursor has not handed out. -/
  unread : Cursor → Bytes
  unread_cursor : ∀ bytes, unread (cursor bytes) = bytes
  remaining_eq : ∀ c, remaining c = (unread c).length
  take_eq : ∀ c n, n ≤ (unread c).length →
    ∃ c', take c n = some ((unread c).take n, c') ∧ unread c' = (unread c).drop n
  empty_iff : ∀ c, empty c = true ↔ unread c = []
  decodeLeU32_eq : ∀ bytes : Bytes, bytes.length = 4 →
    decodeLeU32 bytes = some (UInt32.ofNat (ofLittleEndian bytes))
  decodeLeU64_eq : ∀ bytes : Bytes, bytes.length = 8 →
    decodeLeU64 bytes = some (UInt64.ofNat (ofLittleEndian bytes))
  toHexU64_injective : Function.Injective toHexU64

instance [Foundation] : Unread Foundation.Cursor where
  unread := Foundation.unread

variable [Foundation]

/-- Content identities are minted with FNV-1a in this draft. -/
def draftContentId (stateBytes : Bytes) : ContentId :=
  lit "draft-" ++ Foundation.toHexU64 (Foundation.fnv1a64 stateBytes)

def draftSnapshotDigest (stateBytes : Bytes) : SnapshotDigest where
  value := lit "snap-" ++ Foundation.toHexU64 (Foundation.fnv1a64 stateBytes)

end QivenContext
