import Mathlib.Data.List.TakeWhile

/-!
# Words between blanks

The words of a text are its maximal runs of characters that are not blank.
Joining words that hold no blank and splitting the result again gives them
back. A scanner that collects one word at a time and hands it on at every
blank, and once more at the end, hands on exactly the words.
-/

namespace QivenContext.Library

variable {α : Type*} {blank : α → Bool} {text before after inserted word : List α}
  {words : List (List α)} {b : α}

/-- The text is the words in their order, with blanks before, between and
after them. -/
inductive Words (blank : α → Bool) : List α → List (List α) → Prop
  | nil : Words blank [] []
  | blank {b : α} {text : List α} {words : List (List α)} (hb : blank b = true)
      (h : Words blank text words) : Words blank (b :: text) words
  | word {word text : List α} {words : List (List α)} (hne : word ≠ [])
      (hword : ∀ c ∈ word, blank c = false) (hend : ∀ c ∈ text.head?, blank c = true)
      (h : Words blank text words) : Words blank (word ++ text) (word :: words)

def wordsOf (blank : α → Bool) (text : List α) : List (List α) :=
  (text.splitOnP blank).filter fun word => !word.isEmpty

def joinWords (separator : α) (words : List (List α)) : List α := [separator].intercalate words

@[simp] theorem wordsOf_nil : wordsOf blank [] = [] := by
  simp [wordsOf]

theorem wordsOf_append_cons (before after : List α) (hb : blank b = true) :
    wordsOf blank (before ++ b :: after) = wordsOf blank before ++ wordsOf blank after := by
  rw [wordsOf, List.splitOnP_append_cons _ _ hb, List.filter_append]
  rfl

theorem wordsOf_cons (hb : blank b = true) : wordsOf blank (b :: text) = wordsOf blank text :=
  wordsOf_append_cons [] text hb

theorem wordsOf_word (hne : word ≠ []) (hword : ∀ c ∈ word, blank c = false) :
    wordsOf blank word = [word] := by
  rw [wordsOf, List.splitOnP_eq_singleton hword]
  simp [hne]

/-- No word goes on from the one text into the other. -/
def Gap (blank : α → Bool) (before after : List α) : Prop :=
  (∀ c ∈ before.getLast?, blank c = true) ∨ ∀ c ∈ after.head?, blank c = true

theorem Gap.wordsOf_append (h : Gap blank before after) :
    wordsOf blank (before ++ after) = wordsOf blank before ++ wordsOf blank after := by
  rcases h with hlast | hhead
  · rcases List.eq_nil_or_concat before with rfl | ⟨before, b, rfl⟩
    · simp
    · have hb : blank b = true := hlast b (by simp)
      rw [List.concat_eq_append, List.append_assoc, List.singleton_append,
        wordsOf_append_cons before after hb, wordsOf_append_cons before [] hb, wordsOf_nil,
        List.append_nil]
  · cases after with
    | nil => simp
    | cons b after =>
        have hb : blank b = true := hhead b rfl
        rw [wordsOf_append_cons before after hb, wordsOf_cons hb]

/-- The words of a text that is inserted at a gap, and held off on both sides. -/
theorem Gap.wordsOf_insert (h : Gap blank before after) (hbefore : Gap blank before inserted)
    (hafter : Gap blank inserted after) :
    wordsOf blank (before ++ inserted ++ after) =
      wordsOf blank before ++ wordsOf blank inserted ++ wordsOf blank after := by
  have hgap : Gap blank (before ++ inserted) after := by
    rcases List.eq_nil_or_concat inserted with rfl | ⟨inserted, b, rfl⟩
    · simpa using h
    · unfold Gap at hafter ⊢
      simpa using hafter
  rw [hgap.wordsOf_append, hbefore.wordsOf_append]

theorem mem_wordsOf (h : word ∈ wordsOf blank text) :
    word ≠ [] ∧ ∀ c ∈ word, blank c = false := by
  obtain ⟨hmem, hne⟩ := List.mem_filter.mp h
  refine ⟨by simpa using hne, ?_⟩
  clear h hne
  induction text generalizing word with
  | nil => simp_all
  | cons c text ih =>
      rw [List.splitOnP_cons_eq_if_modifyHead] at hmem
      split at hmem
      · rcases List.mem_cons.mp hmem with rfl | hmem
        · simp
        · exact ih hmem
      · next hc =>
          cases hsplit : text.splitOnP blank with
          | nil => exact (List.splitOnP_ne_nil blank text hsplit).elim
          | cons first rest =>
              rw [hsplit, List.modifyHead_cons] at hmem
              rcases List.mem_cons.mp hmem with rfl | hmem
              · exact List.forall_mem_cons.mpr
                  ⟨by simpa using hc, ih (hsplit ▸ List.mem_cons_self)⟩
              · exact ih (hsplit ▸ List.mem_cons_of_mem _ hmem)

/-! ## The words are determined -/

theorem Words.eq_wordsOf (h : Words blank text words) : words = wordsOf blank text := by
  induction h with
  | nil => rfl
  | blank hb _ ih => rw [wordsOf_cons hb, ih]
  | word hne hword hend _ ih =>
      rw [Gap.wordsOf_append (.inr hend), wordsOf_word hne hword, ih, List.singleton_append]

theorem exists_words (blank : α → Bool) (text : List α) : ∃ words, Words blank text words := by
  induction hlength : text.length using Nat.strong_induction_on generalizing text with
  | _ n ih =>
      subst hlength
      cases text with
      | nil => exact ⟨[], .nil⟩
      | cons c text =>
          by_cases hc : blank c = true
          · obtain ⟨words, hwords⟩ := ih text.length (Nat.lt_succ_self _) text rfl
            exact ⟨words, .blank hc hwords⟩
          · -- the word that starts here, and the text behind it
            have hle : (text.dropWhile fun c => !blank c).length ≤ text.length :=
              (List.dropWhile_sublist _).length_le
            obtain ⟨words, hwords⟩ :=
              ih _ (Nat.lt_succ_of_le hle) (text.dropWhile fun c => !blank c) rfl
            have hend : ∀ d ∈ (text.dropWhile fun c => !blank c).head?, blank d = true := by
              intro d hd
              have hnot := List.head?_dropWhile_not (fun c => !blank c) text
              rw [Option.mem_def.mp hd] at hnot
              simpa using hnot
            refine ⟨(c :: text.takeWhile fun c => !blank c) :: words, ?_⟩
            have hword := Words.word (List.cons_ne_nil c (text.takeWhile fun c => !blank c))
              (List.forall_mem_cons.mpr ⟨by simpa using hc, fun d hd => by
                simpa using List.mem_takeWhile_imp hd⟩) hend hwords
            rwa [List.cons_append, List.takeWhile_append_dropWhile] at hword

/-! ## Joining -/

theorem wordsOf_joinWords {separator : α} (hseparator : blank separator = true)
    (hwords : ∀ word ∈ words, word ≠ [] ∧ ∀ c ∈ word, blank c = false) :
    wordsOf blank (joinWords separator words) = words := by
  induction words with
  | nil => simp [joinWords]
  | cons word words ih =>
      obtain ⟨⟨hne, hword⟩, hrest⟩ := List.forall_mem_cons.mp hwords
      have ih := ih hrest
      cases words with
      | nil => simpa [joinWords] using wordsOf_word hne hword
      | cons next rest =>
          unfold joinWords at ih ⊢
          rw [List.intercalate_cons_cons, List.append_assoc, List.singleton_append,
            wordsOf_append_cons _ _ hseparator, wordsOf_word hne hword, ih,
            List.singleton_append]

theorem joinWords_concat (separator : α) (words : List (List α)) (word : List α) :
    joinWords separator (words ++ [word]) =
      (if words = [] then [] else joinWords separator words ++ [separator]) ++ word := by
  induction words with
  | nil => simp [joinWords]
  | cons first words ih =>
      unfold joinWords at ih ⊢
      rw [if_neg (List.cons_ne_nil _ _), List.cons_append,
        List.intercalate_cons_of_ne_nil (by simp), ih]
      cases words with
      | nil => simp
      | cons second words =>
          rw [if_neg (List.cons_ne_nil _ _), List.intercalate_cons_cons]
          simp only [List.append_assoc]

theorem joinWords_eq_nil {separator : α} (hwords : ∀ word ∈ words, word ≠ []) :
    joinWords separator words = [] ↔ words = [] := by
  refine ⟨fun h => ?_, fun h => h ▸ rfl⟩
  rcases List.eq_nil_or_concat words with rfl | ⟨words, word, rfl⟩
  · rfl
  · rw [List.concat_eq_append, joinWords_concat, List.append_eq_nil_iff] at h
    exact (hwords word (by simp) h.2).elim

/-! ## Collecting one word at a time -/

/-- What has been handed on, and the word being read. -/
structure Scan (α β : Type*) where
  out : β
  word : List α

namespace Scan

variable {β : Type*} (blank : α → Bool) (emit : β → List α → β)

def flush (scan : Scan α β) : Scan α β :=
  if scan.word.isEmpty then scan else ⟨emit scan.out scan.word, []⟩

def read (scan : Scan α β) (c : α) : Scan α β :=
  if blank c then scan.flush emit else { scan with word := scan.word ++ [c] }

theorem flush_eq (out : β) (hword : ∀ c ∈ word, blank c = false) :
    (Scan.mk out word).flush emit = ⟨(wordsOf blank word).foldl emit out, []⟩ := by
  unfold flush
  by_cases hnil : word = []
  · simp [hnil]
  · simp [hnil, wordsOf_word hnil hword]

/-- The word being read counts with the text to come. -/
theorem flush_foldl_read (out : β) (hword : ∀ c ∈ word, blank c = false) (text : List α) :
    (text.foldl (read blank emit) ⟨out, word⟩).flush emit =
      ⟨(wordsOf blank (word ++ text)).foldl emit out, []⟩ := by
  induction text generalizing out word with
  | nil => rw [List.foldl_nil, List.append_nil, flush_eq blank emit out hword]
  | cons c text ih =>
      rw [List.foldl_cons, read]
      split
      · next hc =>
          rw [flush_eq blank emit out hword, ih _ (by simp), wordsOf_append_cons word text hc,
            List.foldl_append, List.nil_append]
      · next hc =>
          rw [ih _ (by simpa [or_imp, forall_and, hc] using hword), List.append_assoc,
            List.singleton_append]

end Scan

end QivenContext.Library
