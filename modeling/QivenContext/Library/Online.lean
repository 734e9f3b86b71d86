import QivenContext.Library.Wire

/-!
# Readers that decide as early as they can be told

A reader is online when its answer on a text is settled at a definite byte.
Before that byte it only asks for more, and from it on no continuation of the
text changes what it answers. `short` are the errors that ask for more,
`final` those that do not. The law passes along `bind`, so it is proved of a
decoder one field at a time.
-/

namespace QivenContext.Library

open Unread

variable {C ε α β : Type} [Unread C]

/-! ## Parts of a text -/

theorem prefix_append_cases {part used rest : List UInt8} (h : part <+: used ++ rest) :
    (part <+: used ∧ part ≠ used) ∨ ∃ more, part = used ++ more ∧ more <+: rest := by
  obtain ⟨lost, hlost⟩ := h
  rcases List.append_eq_append_iff.mp hlost with ⟨gap, hused, -⟩ | ⟨more, hpart, hrest⟩
  · cases gap with
    | nil =>
        rw [List.append_nil] at hused
        exact .inr ⟨[], by rw [List.append_nil, hused], List.nil_prefix⟩
    | cons byte gap =>
        refine .inl ⟨⟨byte :: gap, hused.symm⟩, fun hsame => ?_⟩
        rw [hsame] at hused
        simp at hused
  · exact .inr ⟨more, hpart, lost, hrest.symm⟩

/-! ## Settled readers -/

/-- On every text that starts with these bytes the reader does the same. -/
def Answers (r : StateT C (Except ε) α) (used : List UInt8) : Except ε α → Prop
  | .ok a => ∀ c rest, unread c = used ++ rest → ∃ c', r c = .ok (a, c') ∧ unread c' = rest
  | .error e => ∀ c rest, unread c = used ++ rest → r c = .error e

/-- On a text that ends too early the reader asks for more. -/
def AsksAt (short : ε → Prop) (r : StateT C (Except ε) α) (text : List UInt8) : Prop :=
  ∀ c, unread c = text → ∃ e, short e ∧ r c = .error e

/-- The answer is settled by these bytes and by no fewer of them. -/
structure Settles (short final : ε → Prop) (r : StateT C (Except ε) α) (used : List UInt8)
    (answer : Except ε α) : Prop where
  answers : Answers r used answer
  asks : ∀ part, part <+: used → part ≠ used → AsksAt short r part
  final : ∀ e, answer = .error e → final e

/-- Each text is too short with all its parts, or starts with bytes that settle
the answer. -/
def Online (short final : ε → Prop) (r : StateT C (Except ε) α) : Prop :=
  ∀ text, (∀ part, part <+: text → AsksAt short r part) ∨
    ∃ used rest answer, text = used ++ rest ∧ Settles short final r used answer

section Bind

variable {short final : ε → Prop} {r : StateT C (Except ε) α}
  {f : α → StateT C (Except ε) β} {used used' part : List UInt8} {a : α} {e : ε}

omit [Unread C] in
theorem bind_of_ok {c c' : C} (h : r c = .ok (a, c')) : (r >>= f) c = f a c' := by
  change Except.bind (r c) _ = _
  rw [h]
  rfl

omit [Unread C] in
theorem bind_of_error {c : C} (h : r c = .error e) : (r >>= f) c = .error e := by
  change Except.bind (r c) _ = _
  rw [h]
  rfl

theorem AsksAt.bind (h : AsksAt short r part) : AsksAt short (r >>= f) part := by
  intro c hc
  obtain ⟨e, hshort, hrun⟩ := h c hc
  exact ⟨e, hshort, bind_of_error hrun⟩

/-- What the second reader asks for is asked for after the bytes of the first. -/
theorem Answers.bind_asks (hr : Answers r used (.ok a)) (hf : AsksAt short (f a) part) :
    AsksAt short (r >>= f) (used ++ part) := by
  intro c hc
  obtain ⟨c', hrun, hc'⟩ := hr c part hc
  obtain ⟨e, hshort, herror⟩ := hf c' hc'
  exact ⟨e, hshort, (bind_of_ok hrun).trans herror⟩

theorem Answers.bind_error (hr : Answers r used (.error e)) :
    Answers (r >>= f) used (.error e) := by
  intro c rest hc
  exact bind_of_error (hr c rest hc)

theorem Answers.bind {answer : Except ε β} (hr : Answers r used (.ok a))
    (hf : Answers (f a) used' answer) : Answers (r >>= f) (used ++ used') answer := by
  cases answer with
  | ok b =>
      intro c rest hc
      rw [List.append_assoc] at hc
      obtain ⟨c₁, hrun, hc₁⟩ := hr c _ hc
      obtain ⟨c', hrun', hc'⟩ := hf c₁ rest hc₁
      exact ⟨c', (bind_of_ok hrun).trans hrun', hc'⟩
  | error e =>
      intro c rest hc
      rw [List.append_assoc] at hc
      obtain ⟨c₁, hrun, hc₁⟩ := hr c _ hc
      exact (bind_of_ok hrun).trans (hf c₁ rest hc₁)

theorem Settles.bind_error (hr : Settles short final r used (.error e)) :
    Settles short final (r >>= f) used (.error e : Except ε β) where
  answers := hr.answers.bind_error
  asks part hpart hne := (hr.asks part hpart hne).bind
  final e' he := by
    obtain rfl := Except.error.inj he
    exact hr.final _ rfl

theorem Settles.bind {answer : Except ε β} (hr : Settles short final r used (.ok a))
    (hf : Settles short final (f a) used' answer) :
    Settles short final (r >>= f) (used ++ used') answer where
  answers := hr.answers.bind hf.answers
  asks part hpart hne := by
    rcases prefix_append_cases hpart with ⟨hearly, hproper⟩ | ⟨more, rfl, hmore⟩
    · exact (hr.asks part hearly hproper).bind
    · apply hr.answers.bind_asks
      apply hf.asks more hmore
      intro hsame
      rw [hsame] at hne
      exact hne rfl
  final := hf.final

end Bind

namespace Online

variable {short final : ε → Prop}

theorem pure (a : α) : Online short final (Pure.pure a : StateT C (Except ε) α) := by
  intro text
  refine .inr ⟨[], text, .ok a, rfl, ?_, ?_, by simp⟩
  · intro c rest hc
    exact ⟨c, rfl, hc⟩
  · intro part hpart hne
    exact (hne (List.prefix_nil.mp hpart)).elim

/-- A reader that refuses without looking at the text. -/
theorem refuse {r : StateT C (Except ε) α} {e : ε} (hfinal : final e)
    (hr : ∀ c, r c = .error e) : Online short final r := by
  intro text
  refine .inr ⟨[], text, .error e, rfl, fun c _ _ => hr c, ?_, ?_⟩
  · intro part hpart hne
    exact (hne (List.prefix_nil.mp hpart)).elim
  · intro e' he
    obtain rfl := Except.error.inj he
    exact hfinal

theorem bind {r : StateT C (Except ε) α} {f : α → StateT C (Except ε) β}
    (hr : Online short final r) (hf : ∀ a, Online short final (f a)) :
    Online short final (r >>= f) := by
  intro text
  rcases hr text with hshort | ⟨used, rest, answer, rfl, hsettles⟩
  · exact .inl fun part hpart => (hshort part hpart).bind
  cases answer with
  | error e => exact .inr ⟨used, rest, .error e, rfl, hsettles.bind_error⟩
  | ok a =>
      rcases hf a rest with hshort | ⟨used', rest', answer, rfl, hsettles'⟩
      · refine .inl fun part hpart => ?_
        rcases prefix_append_cases hpart with ⟨hearly, hproper⟩ | ⟨more, rfl, hmore⟩
        · exact (hsettles.asks part hearly hproper).bind
        · exact hsettles.answers.bind_asks (hshort more hmore)
      · exact .inr ⟨used ++ used', rest', answer, (List.append_assoc _ _ _).symm,
          hsettles.bind hsettles'⟩

theorem times {r : StateT C (Except ε) α} (hr : Online short final r) (n : ℕ) :
    Online short final (times r n) := by
  induction n with
  | zero => exact pure []
  | succ n ih => exact hr.bind fun _ => ih.bind fun _ => pure _

end Online

end QivenContext.Library
