import Mathlib.Data.List.Basic
import Mathlib.Data.Nat.Digits.Defs

/-!
# Length-prefixed wire formats

A reader consumes bytes from a cursor of which only the unread bytes are
visible. `Reads r bytes ok a` says what the reader does on an encoding: it
takes exactly those bytes and returns `a` when `ok` holds, and fails when it
does not. The relation composes along `bind`, so a decoder is compared with
its encoder one field at a time.
-/

namespace QivenContext.Library

/-! ## Little-endian words -/

/-- The low `width` bytes of a number, least significant first. -/
def littleEndian : ℕ → ℕ → List UInt8
  | 0, _ => []
  | width + 1, n => UInt8.ofNat n :: littleEndian width (n / 256)

/-- The number that a little-endian byte string denotes. -/
def ofLittleEndian (bytes : List UInt8) : ℕ :=
  Nat.ofDigits 256 (bytes.map UInt8.toNat)

@[simp] theorem length_littleEndian (width n : ℕ) : (littleEndian width n).length = width := by
  induction width generalizing n with
  | zero => rfl
  | succ width ih => simp [littleEndian, ih]

theorem ofLittleEndian_littleEndian (width n : ℕ) :
    ofLittleEndian (littleEndian width n) = n % 256 ^ width := by
  induction width generalizing n with
  | zero => simp [littleEndian, ofLittleEndian, Nat.mod_one]
  | succ width ih =>
      have hrest : Nat.ofDigits 256 ((littleEndian width (n / 256)).map UInt8.toNat) =
          n / 256 % 256 ^ width := ih (n / 256)
      have hbyte : (UInt8.ofNat n).toNat = n % 256 := UInt8.toNat_ofNat'
      simp only [ofLittleEndian, littleEndian, List.map_cons, Nat.ofDigits_cons, hrest, hbyte]
      rw [pow_succ', Nat.mod_mul]

/-- Writing back what was read gives the bytes again. -/
theorem littleEndian_ofLittleEndian (bytes : List UInt8) :
    littleEndian bytes.length (ofLittleEndian bytes) = bytes := by
  induction bytes with
  | nil => rfl
  | cons byte bytes ih =>
      have hvalue : ofLittleEndian (byte :: bytes) = byte.toNat + 256 * ofLittleEndian bytes := by
        simp [ofLittleEndian, Nat.ofDigits_cons]
      have hbyte : byte.toNat < 256 := byte.toNat_lt
      have hlow : (byte.toNat + 256 * ofLittleEndian bytes) % 256 = byte.toNat := by omega
      have hhigh : (byte.toNat + 256 * ofLittleEndian bytes) / 256 = ofLittleEndian bytes := by
        omega
      have hfirst : UInt8.ofNat (byte.toNat + 256 * ofLittleEndian bytes) = byte := by
        apply UInt8.toNat_inj.mp
        rw [UInt8.toNat_ofNat']
        exact hlow
      rw [hvalue, List.length_cons, littleEndian, hfirst, hhigh, ih]

theorem ofLittleEndian_lt (bytes : List UInt8) : ofLittleEndian bytes < 256 ^ bytes.length := by
  induction bytes with
  | nil => simp [ofLittleEndian]
  | cons byte bytes ih =>
      have hvalue : ofLittleEndian (byte :: bytes) = byte.toNat + 256 * ofLittleEndian bytes := by
        simp [ofLittleEndian, Nat.ofDigits_cons]
      have hbyte : byte.toNat < 256 := byte.toNat_lt
      rw [hvalue, List.length_cons, pow_succ]
      omega

/-! ## Readers -/

/-- A cursor, known through the bytes it has not read yet. -/
class Unread (C : Type) where
  unread : C → List UInt8

open Unread

variable {C ε α β γ : Type} [Unread C]

/-- Run a reader a fixed number of times, keeping the results in order. -/
def times (r : StateT C (Except ε) α) : ℕ → StateT C (Except ε) (List α)
  | 0 => pure []
  | n + 1 => do
      let a ← r
      let as ← times r n
      return a :: as

/-- On `bytes` the reader returns `a` and stops right after them when `ok`
holds, and fails when it does not. -/
def Reads (r : StateT C (Except ε) α) (bytes : List UInt8) (ok : Prop) (a : α) : Prop :=
  ∀ c rest, unread c = bytes ++ rest →
    (ok → ∃ c', r c = .ok (a, c') ∧ unread c' = rest) ∧ (¬ ok → ∃ e, r c = .error e)

namespace Reads

theorem pure (a : α) : Reads (pure a : StateT C (Except ε) α) [] True a := by
  intro c rest hc
  exact ⟨fun _ => ⟨c, rfl, by simpa using hc⟩, fun h => (h trivial).elim⟩

theorem congr {r : StateT C (Except ε) α} {bytes bytes' : List UInt8} {ok ok' : Prop} {a a' : α}
    (h : Reads r bytes ok a) (hbytes : bytes = bytes') (hok : ok ↔ ok') (ha : a = a') :
    Reads r bytes' ok' a' := by
  subst hbytes ha
  exact (propext hok) ▸ h

theorem bind {r : StateT C (Except ε) α} {f : α → StateT C (Except ε) β}
    {bytes bytes' : List UInt8} {ok ok' : Prop} {a : α} {b : β}
    (hr : Reads r bytes ok a) (hf : Reads (f a) bytes' ok' b) :
    Reads (r >>= f) (bytes ++ bytes') (ok ∧ ok') b := by
  intro c rest hc
  obtain ⟨hgood, hbad⟩ := hr c (bytes' ++ rest) (by rw [hc, List.append_assoc])
  by_cases hok : ok
  · obtain ⟨c₁, hrun, hc₁⟩ := hgood hok
    have hstep : (r >>= f) c = f a c₁ := by
      change Except.bind (r c) _ = _
      rw [hrun]
      rfl
    obtain ⟨hgood', hbad'⟩ := hf c₁ rest hc₁
    rw [hstep]
    exact ⟨fun h => hgood' h.2, fun h => hbad' (fun h' => h ⟨hok, h'⟩)⟩
  · obtain ⟨e, hrun⟩ := hbad hok
    refine ⟨fun h => (hok h.1).elim, fun _ => ⟨e, ?_⟩⟩
    change Except.bind (r c) _ = _
    rw [hrun]
    rfl

theorem map {r : StateT C (Except ε) α} {bytes : List UInt8} {ok : Prop} {a : α}
    (hr : Reads r bytes ok a) (f : α → β) : Reads (f <$> r) bytes ok (f a) := by
  have h := hr.bind (f := fun x => Pure.pure (f x)) (pure (f a))
  exact h.congr (List.append_nil _) (by simp) rfl

/-- A list of encodings is read back item by item. -/
theorem times {r : StateT C (Except ε) β} {put : α → List UInt8} {ok : α → Prop} {f : α → β}
    (xs : List α) (h : ∀ x ∈ xs, Reads r (put x) (ok x) (f x)) :
    Reads (times r xs.length) (xs.flatMap put) (∀ x ∈ xs, ok x) (xs.map f) := by
  induction xs with
  | nil => exact (pure []).congr rfl (by simp) rfl
  | cons x xs ih =>
      have hx := h x List.mem_cons_self
      have hxs := ih fun y hy => h y (List.mem_cons_of_mem x hy)
      have hcons := hx.bind (f := fun a => do
        let as ← Library.times r xs.length
        return a :: as) (hxs.bind (f := fun as => Pure.pure (f x :: as)) (pure _))
      exact hcons.congr (by simp) (by simp) rfl

end Reads

/-- Whatever the reader returns satisfies the property. -/
def Yields (r : StateT C (Except ε) α) (P : α → Prop) : Prop := ∀ c a c', r c = .ok (a, c') → P a

namespace Yields

variable {P : β → Prop}

omit [Unread C] in
theorem pure {b : β} (h : P b) : Yields (Pure.pure b : StateT C (Except ε) β) P := by
  intro c a c' hrun
  obtain ⟨rfl, -⟩ := Prod.mk.inj (Except.ok.inj hrun)
  exact h

omit [Unread C] in
theorem bind {r : StateT C (Except ε) α} {f : α → StateT C (Except ε) β}
    (hf : ∀ a, Yields (f a) P) : Yields (r >>= f) P := by
  intro c b c' hrun
  change Except.bind (r c) _ = _ at hrun
  cases hfirst : r c with
  | error e =>
      rw [hfirst] at hrun
      simp [Except.bind] at hrun
  | ok result =>
      rw [hfirst] at hrun
      exact hf result.1 result.2 b c' hrun

end Yields

/-- What comes after a reader whose bytes are next runs on the value they spell. -/
theorem Reads.bind_eq {r : StateT C (Except ε) α} {bytes rest : List UInt8} {a : α}
    (h : Reads r bytes True a) (f : α → StateT C (Except ε) β) {c : C}
    (hc : unread c = bytes ++ rest) : ∃ c', (r >>= f) c = f a c' ∧ unread c' = rest := by
  obtain ⟨c', hrun, hc'⟩ := (h c rest hc).1 trivial
  refine ⟨c', ?_, hc'⟩
  change Except.bind (r c) _ = _
  rw [hrun]
  rfl

/-- Whatever the reader returns, it took bytes that spell it, and it returns
the same wherever these bytes come next. -/
def Accepts (r : StateT C (Except ε) α) (spells : List UInt8 → α → Prop) : Prop :=
  ∀ c a c', r c = .ok (a, c') →
    ∃ used, unread c = used ++ unread c' ∧ Reads r used True a ∧ spells used a

/-- The value is good and, where spellings are exact, the bytes are its encoding. -/
def Spelled (exact : Prop) (good : α → Prop) (put : α → List UInt8) (used : List UInt8) (a : α) :
    Prop :=
  good a ∧ (exact → used = put a)

namespace Accepts

variable {spells : List UInt8 → α → Prop} {spells' : List UInt8 → β → Prop}

theorem pure {a : α} (h : spells [] a) :
    Accepts (Pure.pure a : StateT C (Except ε) α) spells := by
  intro c a' c' hrun
  obtain ⟨rfl, rfl⟩ := Prod.mk.inj (Except.ok.inj hrun)
  exact ⟨[], rfl, Reads.pure a, h⟩

theorem mono {r : StateT C (Except ε) α} {spells'' : List UInt8 → α → Prop}
    (h : Accepts r spells) (himp : ∀ used a, spells used a → spells'' used a) :
    Accepts r spells'' := by
  intro c a c' hrun
  obtain ⟨used, hused, hreads, hspells⟩ := h c a c' hrun
  exact ⟨used, hused, hreads, himp used a hspells⟩

theorem bind {r : StateT C (Except ε) α} {f : α → StateT C (Except ε) β}
    (hr : Accepts r spells)
    (hf : ∀ used a, spells used a → Accepts (f a) fun used' b => spells' (used ++ used') b) :
    Accepts (r >>= f) spells' := by
  intro c b c' hrun
  cases hfirst : r c with
  | error e =>
      have herror : (r >>= f) c = .error e := by
        change Except.bind (r c) _ = _
        rw [hfirst]
        rfl
      rw [herror] at hrun
      simp at hrun
  | ok result =>
      obtain ⟨a, c₁⟩ := result
      have hstep : (r >>= f) c = f a c₁ := by
        change Except.bind (r c) _ = _
        rw [hfirst]
        rfl
      rw [hstep] at hrun
      obtain ⟨used, hused, hreads, hspells⟩ := hr c a c₁ hfirst
      obtain ⟨used', hused', hreads', hspells'⟩ := hf used a hspells c₁ b c' hrun
      refine ⟨used ++ used', ?_, ?_, hspells'⟩
      · rw [hused, hused', List.append_assoc]
      · exact (hreads.bind hreads').congr rfl (by simp) rfl

/-- A list is spelled item by item. -/
theorem times {r : StateT C (Except ε) α} {exact : Prop} {good : α → Prop}
    {put : α → List UInt8} (h : Accepts r (Spelled exact good put)) (n : ℕ) :
    Accepts (times r n) (Spelled exact (fun as => as.length = n ∧ ∀ a ∈ as, good a)
      fun as => as.flatMap put) := by
  induction n with
  | zero => exact pure ⟨⟨rfl, by simp⟩, fun _ => rfl⟩
  | succ n ih =>
      refine h.bind fun used a hitem => ih.bind fun used' as hrest => pure ?_
      obtain ⟨hgood, hused⟩ := hitem
      obtain ⟨⟨hlength, hall⟩, hused'⟩ := hrest
      refine ⟨⟨?_, List.forall_mem_cons.mpr ⟨hgood, hall⟩⟩, fun hexact => ?_⟩
      · rw [List.length_cons, hlength]
      · simp only [hused hexact, hused' hexact, List.append_nil, List.flatMap_cons]

end Accepts

/-! ## Encodings that delimit themselves -/

/-- Where the encoding of a good value ends is told by its bytes. -/
def Delimited (good : α → Prop) (put : α → List UInt8) : Prop :=
  ∀ a b rest rest', good a → good b → put a ++ rest = put b ++ rest' → a = b ∧ rest = rest'

namespace Delimited

variable {good : α → Prop} {put : α → List UInt8}

theorem of_length {width : ℕ} (hlength : ∀ a, (put a).length = width)
    (hinjective : Function.Injective put) : Delimited good put := by
  intro a b rest rest' _ _ h
  obtain ⟨hsame, hrest⟩ := List.append_inj h ((hlength a).trans (hlength b).symm)
  exact ⟨hinjective hsame, hrest⟩

/-- A list of delimited items is told by their encodings, without a count. -/
theorem flatMap_injective (h : Delimited good put) (hne : ∀ a, put a ≠ []) {as bs : List α}
    (has : ∀ a ∈ as, good a) (hbs : ∀ b ∈ bs, good b) (hsame : as.flatMap put = bs.flatMap put) :
    as = bs := by
  induction as generalizing bs with
  | nil =>
      cases bs with
      | nil => rfl
      | cons b bs =>
          rw [List.flatMap_nil, List.flatMap_cons] at hsame
          exact (hne b (List.append_eq_nil_iff.mp hsame.symm).1).elim
  | cons a as ih =>
      cases bs with
      | nil =>
          rw [List.flatMap_nil, List.flatMap_cons] at hsame
          exact (hne a (List.append_eq_nil_iff.mp hsame).1).elim
      | cons b bs =>
          obtain ⟨ha, has'⟩ := List.forall_mem_cons.mp has
          obtain ⟨hb, hbs'⟩ := List.forall_mem_cons.mp hbs
          rw [List.flatMap_cons, List.flatMap_cons] at hsame
          obtain ⟨hhead, hrest⟩ := h a b _ _ ha hb hsame
          rw [hhead, ih has' hbs' hrest]

end Delimited

end QivenContext.Library
