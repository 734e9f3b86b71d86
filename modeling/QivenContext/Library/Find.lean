import QivenContext.Library.Lines

/-!
# The first place of a pattern

A pattern is found at the first position of a text at which it stands. In a
text of closed lines the lines in front can be passed over: a pattern without
the separator stands inside a line, one that ends in it at the end of a line,
and one between two separators is a line.
-/

namespace QivenContext.Library

variable {α : Type*} {sep c : α} {pattern text before after line rest word : List α}
  {lines : List (List α)}

section Find

variable [DecidableEq α]

def find (pattern : List α) : List α → Option ℕ
  | [] => if pattern = [] then some 0 else none
  | c :: text =>
      if pattern <+: c :: text then some 0 else (find pattern text).map (· + 1)

theorem find_prefix (h : pattern <+: text) : find pattern text = some 0 := by
  cases text with
  | nil => rw [find, if_pos (List.prefix_nil.mp h)]
  | cons c text => rw [find, if_pos h]

end Find

/-- The pattern begins nowhere in what is in front. -/
def Passes (pattern before after : List α) : Prop :=
  ∀ tail, tail <:+ before → tail ≠ [] → ¬ pattern <+: tail ++ after

theorem Passes.find [DecidableEq α] (h : Passes pattern before after) :
    find pattern (before ++ after) = (find pattern after).map (· + before.length) := by
  induction before with
  | nil => simp
  | cons c before ih =>
      have hfirst : ¬ pattern <+: c :: (before ++ after) :=
        h (c :: before) (List.suffix_refl _) (List.cons_ne_nil c before)
      have hrest : Passes pattern before after := fun tail htail =>
        h tail (htail.trans (List.suffix_cons c before))
      rw [List.cons_append, Library.find, if_neg hfirst, ih hrest, Option.map_map]
      rfl

theorem passes_of_notMem (h : c ∉ before) : Passes (c :: pattern) before after := by
  rintro tail htail hne ⟨rest, hrest⟩
  obtain ⟨d, tail, rfl⟩ := List.exists_cons_of_ne_nil hne
  obtain ⟨rfl, -⟩ := List.cons.inj hrest
  exact h (htail.subset List.mem_cons_self)

/-- A suffix of a line and its separator that is not empty ends in the separator. -/
theorem exists_suffix_concat {tail : List α} (h : tail <:+ line ++ [sep]) (hne : tail ≠ []) :
    ∃ last, last <:+ line ∧ tail = last ++ [sep] := by
  rcases List.suffix_concat_iff.mp h with rfl | ⟨last, rfl, hlast⟩
  · exact (hne rfl).elim
  · exact ⟨last, hlast, by simp⟩

theorem passes_inside (hsep : sep ∉ pattern) (hline : ¬ pattern <:+: line) :
    Passes pattern (line ++ [sep]) after := by
  intro tail htail hne hpattern
  obtain ⟨last, hlast, rfl⟩ := exists_suffix_concat htail hne
  rw [List.append_assoc, List.singleton_append] at hpattern
  rcases List.prefix_or_prefix_of_prefix hpattern (List.prefix_append last _) with h | h
  · exact hline (h.isInfix.trans hlast.isInfix)
  · obtain ⟨more, rfl⟩ := h
    rw [List.prefix_append_right_inj] at hpattern
    cases more with
    | nil => exact hline ((List.append_nil last).symm ▸ hlast.isInfix)
    | cons d more =>
        obtain ⟨rest, hrest⟩ := hpattern
        obtain ⟨rfl, -⟩ := List.cons.inj hrest
        exact hsep (by simp)

theorem passes_at_end (hsep : sep ∉ pattern) (hfree : sep ∉ line) (hline : ¬ pattern <:+ line) :
    Passes (pattern ++ [sep]) (line ++ [sep]) after := by
  rintro tail htail hne ⟨rest, hrest⟩
  obtain ⟨last, hlast, rfl⟩ := exists_suffix_concat htail hne
  have hfree' : sep ∉ last := fun hmem => hfree (hlast.subset hmem)
  simp only [List.append_assoc, List.singleton_append] at hrest
  obtain ⟨rfl, -⟩ := eq_of_append_sep_eq hsep hfree' hrest
  exact hline hlast

theorem passes_between (hfree : sep ∉ line) (hafter : ¬ pattern ++ [sep] <+: after) :
    Passes (sep :: (pattern ++ [sep])) (line ++ [sep]) after := by
  rintro tail htail hne ⟨rest, hrest⟩
  obtain ⟨last, hlast, rfl⟩ := exists_suffix_concat htail hne
  cases last with
  | nil => exact hafter ⟨rest, (List.cons.inj hrest).2⟩
  | cons d last =>
      obtain ⟨rfl, -⟩ := List.cons.inj hrest
      exact hfree (hlast.subset List.mem_cons_self)

/-- What does not hold the last element of a pattern does not complete it. -/
theorem infix_of_notMem {more : List α} (h : pattern ++ [c] <:+: before ++ more)
    (hc : c ∉ more) : pattern ++ [c] <:+: before := by
  obtain ⟨front, back, h⟩ := h
  rcases List.append_eq_append_iff.mp h with ⟨tail, hbefore, -⟩ | ⟨tail, hfront, hmore⟩
  · exact ⟨front, tail, hbefore.symm⟩
  · rcases List.eq_nil_or_concat tail with rfl | ⟨tail, d, rfl⟩
    · exact ⟨front, [], by simpa using hfront⟩
    · rw [List.concat_eq_append, ← List.append_assoc, ← List.append_assoc] at hfront
      obtain ⟨-, hlast⟩ := List.append_inj' hfront rfl
      obtain rfl := List.singleton_inj.mp hlast
      exact (hc (hmore ▸ by simp)).elim

/-! ## Passing over lines -/

theorem closed_cons_append : closed sep (line :: lines) = (line ++ [sep]) ++ closed sep lines := by
  simp

theorem Passes.append {more : List α} (h : Passes pattern before (more ++ after))
    (hmore : Passes pattern more after) : Passes pattern (before ++ more) after := by
  intro tail htail hne
  rcases List.suffix_or_suffix_of_suffix htail (List.suffix_append before more) with
    hshort | ⟨last, rfl⟩
  · exact hmore tail hshort hne
  · obtain ⟨front, hfront⟩ := htail
    rw [← List.append_assoc] at hfront
    have hlast : last <:+ before := ⟨front, List.append_cancel_right hfront⟩
    cases last with
    | nil => exact hmore more (List.suffix_refl more) hne
    | cons c last =>
        rw [List.append_assoc]
        exact h (c :: last) hlast (List.cons_ne_nil c last)

theorem passes_closed (h : ∀ line ∈ lines, ∀ after, Passes pattern (line ++ [sep]) after) :
    Passes pattern (closed sep lines) rest := by
  induction lines with
  | nil =>
      intro tail htail hne
      exact (hne (List.suffix_nil.mp htail)).elim
  | cons line lines ih =>
      obtain ⟨hline, hlines⟩ := List.forall_mem_cons.mp h
      rw [closed_cons_append]
      exact (hline _).append (ih hlines)

/-- No line but the first is the pattern, nor is what follows them. -/
theorem passes_lines (hfree : ∀ line ∈ lines, sep ∉ line) (hsep : sep ∉ pattern)
    (hlines : ∀ line ∈ lines.tail, line ≠ pattern) (hrest : ¬ pattern ++ [sep] <+: rest) :
    Passes (sep :: (pattern ++ [sep])) (closed sep lines) rest := by
  induction lines with
  | nil =>
      intro tail htail hne
      exact (hne (List.suffix_nil.mp htail)).elim
  | cons line lines ih =>
      obtain ⟨hline, hfree⟩ := List.forall_mem_cons.mp hfree
      rw [closed_cons_append]
      refine (passes_between hline ?_).append
        (ih hfree fun other hother => hlines other (List.mem_of_mem_tail hother))
      cases lines with
      | nil => exact hrest
      | cons next lines =>
          rintro ⟨more, hmore⟩
          simp only [closed_cons, List.append_assoc, List.cons_append] at hmore
          obtain ⟨rfl, -⟩ :=
            eq_of_append_sep_eq hsep (hfree next List.mem_cons_self) hmore
          exact hlines pattern List.mem_cons_self rfl

end QivenContext.Library
