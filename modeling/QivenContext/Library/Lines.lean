import Mathlib.Data.List.Basic

/-!
# Lines, tags and fields

A text of closed lines is read back as its lines exactly when no line holds
the separator. A line is told apart by the tag it starts with, and two fields
with a separator between them are told apart exactly when neither holds it.
-/

namespace QivenContext.Library

variable {α β : Type*} {sep : α} {line text before : List α} {lines : List (List α)}

/-! ## Lines -/

/-- Each line, closed by the separator. -/
def closed (sep : α) (lines : List (List α)) : List α :=
  lines.flatMap fun line => line ++ [sep]

@[simp] theorem closed_nil : closed sep [] = [] := rfl

@[simp] theorem closed_cons : closed sep (line :: lines) = line ++ sep :: closed sep lines := by
  simp [closed]

section Read

variable [DecidableEq α]

/-- What stands before each separator; what follows the last one is no line. -/
def linesOf (sep : α) (text : List α) : List (List α) := (text.splitOn sep).dropLast

theorem linesOf_append_cons (before after : List α) :
    linesOf sep (before ++ sep :: after) = before.splitOn sep ++ linesOf sep after := by
  rw [linesOf, List.splitOn_append_cons_self,
    List.dropLast_append_of_ne_nil (List.splitOn_ne_nil sep after)]
  rfl

theorem not_mem_of_mem_splitOn (h : line ∈ text.splitOn sep) : sep ∉ line := by
  induction text generalizing line with
  | nil =>
      obtain rfl : line = [] := by simpa using h
      exact List.not_mem_nil
  | cons c text ih =>
      rw [List.splitOn_cons_eq_if_modifyHead] at h
      split at h
      · rcases List.mem_cons.mp h with rfl | h
        · exact List.not_mem_nil
        · exact ih h
      · next hne =>
          obtain ⟨first, rest, hsplit⟩ :=
            List.exists_cons_of_ne_nil (List.splitOn_ne_nil sep text)
          rw [hsplit, List.modifyHead_cons] at h
          rcases List.mem_cons.mp h with rfl | h
          · have hfirst : sep ∉ first := ih (by simp [hsplit])
            have hc : c ≠ sep := by simpa using hne
            simp [hfirst, hc.symm]
          · exact ih (by simp [hsplit, h])

theorem linesOf_closed_iff :
    linesOf sep (closed sep lines) = lines ↔ ∀ line ∈ lines, sep ∉ line := by
  constructor
  · intro h line hline
    rw [← h] at hline
    exact not_mem_of_mem_splitOn ((List.dropLast_sublist _).subset hline)
  · intro h
    induction lines with
    | nil => simp [linesOf]
    | cons line lines ih =>
        obtain ⟨hline, hlines⟩ := List.forall_mem_cons.mp h
        rw [closed_cons, linesOf_append_cons, List.splitOn_eq_singleton hline, ih hlines]
        rfl

/-- What follows a separator inside a line is read as a line of its own. -/
theorem mem_linesOf_closed (hmem : before ++ sep :: line ∈ lines) (hline : sep ∉ line) :
    line ∈ linesOf sep (closed sep lines) := by
  obtain ⟨first, last, rfl⟩ := List.append_of_mem hmem
  have htext : closed sep (first ++ (before ++ sep :: line) :: last) =
      (closed sep first ++ before) ++ sep :: (line ++ sep :: closed sep last) := by
    simp [closed]
  rw [htext, linesOf_append_cons, linesOf_append_cons, List.splitOn_eq_singleton hline]
  simp

/-! ## Tags -/

/-- Two tags of which neither begins with the other. -/
def Apart (tag other : List α) : Prop := ¬ tag.IsPrefix other ∧ ¬ other.IsPrefix tag

instance (tag other : List α) : Decidable (Apart tag other) :=
  inferInstanceAs (Decidable (_ ∧ _))

/-- The texts of each section under the tag of the section. -/
def tagged (sections : List (List α × List (List α))) : List (List α) :=
  sections.flatMap fun entry => entry.2.map fun text => entry.1 ++ text

section Tagged

variable {tag other : List α} {texts : List (List α)}
  {sections sections' : List (List α × List (List α))}

theorem filterMap_own : (texts.map fun text => tag ++ text).filterMap
    (fun line => line.dropPrefix? tag) = texts := by
  rw [List.filterMap_map]
  refine (List.filterMap_congr fun text _ => ?_).trans List.filterMap_some
  exact List.dropPrefix?_append_of_beq text (beq_self_eq_true tag)

theorem Apart.dropPrefix? (h : Apart tag other) (text : List α) :
    (other ++ text).dropPrefix? tag = none := by
  refine Option.eq_none_iff_forall_ne_some.mpr fun rest hrest => ?_
  obtain ⟨tag', htext, htag⟩ := List.dropPrefix?_eq_some_iff.mp hrest
  obtain rfl := eq_of_beq htag
  exact (List.prefix_or_prefix_of_prefix ⟨rest, htext.symm⟩ ⟨text, rfl⟩).elim h.1 h.2

theorem filterMap_tagged (h : ∀ entry ∈ sections, Apart tag entry.1) :
    (tagged sections).filterMap (fun line => line.dropPrefix? tag) = [] := by
  refine List.filterMap_eq_nil_iff.mpr fun line hline => ?_
  obtain ⟨entry, hentry, hline⟩ := List.mem_flatMap.mp hline
  obtain ⟨text, -, rfl⟩ := List.mem_map.mp hline
  exact (h entry hentry).dropPrefix? text

/-- Tags that are apart tell the sections. -/
theorem tagged_injective (hapart : (sections.map Prod.fst).Pairwise Apart)
    (htags : sections.map Prod.fst = sections'.map Prod.fst)
    (h : tagged sections = tagged sections') : sections = sections' := by
  induction sections generalizing sections' with
  | nil =>
      obtain rfl : sections' = [] := by simpa using htags.symm
      rfl
  | cons entry sections ih =>
      cases sections' with
      | nil => simp at htags
      | cons entry' sections' =>
          obtain ⟨tag, texts⟩ := entry
          obtain ⟨tag', texts'⟩ := entry'
          obtain ⟨rfl, hnext⟩ := List.cons.inj htags
          obtain ⟨hhead, hapart⟩ := List.pairwise_cons.mp hapart
          have hrest : ∀ entry ∈ sections, Apart tag entry.1 := fun entry hentry =>
            hhead _ (List.mem_map_of_mem hentry)
          have hrest' : ∀ entry ∈ sections', Apart tag entry.1 := fun entry hentry =>
            hhead _ (hnext ▸ List.mem_map_of_mem hentry)
          simp only [tagged, List.flatMap_cons] at h
          have htexts := congrArg (List.filterMap fun line => line.dropPrefix? tag) h
          rw [List.filterMap_append, List.filterMap_append, filterMap_own, filterMap_own,
            ← tagged, ← tagged, filterMap_tagged hrest, filterMap_tagged hrest',
            List.append_nil, List.append_nil] at htexts
          obtain rfl := htexts
          rw [ih hapart hnext (List.append_cancel_left h)]

omit [DecidableEq α] in
/-- Where no tag holds the separator, a line does exactly when its text does. -/
theorem tagged_free_iff (h : ∀ entry ∈ sections, sep ∉ entry.1) :
    (∀ line ∈ tagged sections, sep ∉ line) ↔
      ∀ entry ∈ sections, ∀ text ∈ entry.2, sep ∉ text := by
  constructor
  · intro hlines entry hentry text htext hmem
    exact hlines (entry.1 ++ text)
      (List.mem_flatMap.mpr ⟨entry, hentry, List.mem_map_of_mem htext⟩)
      (List.mem_append_right _ hmem)
  · intro htexts line hline
    obtain ⟨entry, hentry, hline⟩ := List.mem_flatMap.mp hline
    obtain ⟨text, htext, rfl⟩ := List.mem_map.mp hline
    rw [List.mem_append, not_or]
    exact ⟨h entry hentry, htexts entry hentry text htext⟩

end Tagged

end Read

/-! ## Fields -/

/-- Two fields are the only two with their text exactly when neither of them
holds the separator. -/
theorem split_unique_iff {first second : List α} :
    (∀ first' second', first' ++ sep :: second' = first ++ sep :: second → first' = first) ↔
      sep ∉ first ∧ sep ∉ second := by
  constructor
  · intro h
    constructor
    · intro hmem
      obtain ⟨left, right, rfl⟩ := List.append_of_mem hmem
      have hleft := h left (right ++ sep :: second) (by simp)
      simp at hleft
    · intro hmem
      obtain ⟨left, right, rfl⟩ := List.append_of_mem hmem
      have hfirst := h (first ++ sep :: left) right (by simp)
      simp at hfirst
  · rintro ⟨hfirst, hsecond⟩ first' second' h
    exact ((List.append_cons_inj_of_notMem hfirst hsecond).mp h.symm).1.symm

/-- Up to the first separator, two texts have the same field. -/
theorem eq_of_append_sep_eq {first first' second second' : List α} (hfirst : sep ∉ first)
    (hfirst' : sep ∉ first') (h : first ++ sep :: second = first' ++ sep :: second') :
    first = first' ∧ second = second' := by
  induction first generalizing first' with
  | nil =>
      cases first' with
      | nil => exact ⟨rfl, (List.cons.inj h).2⟩
      | cons c first' => exact (hfirst' ((List.cons.inj h).1 ▸ List.mem_cons_self)).elim
  | cons c first ih =>
      cases first' with
      | nil => exact (hfirst ((List.cons.inj h).1 ▸ List.mem_cons_self)).elim
      | cons c' first' =>
          obtain ⟨rfl, hrest⟩ := List.cons.inj h
          obtain ⟨rfl, rfl⟩ := ih (fun hmem => hfirst (List.mem_cons_of_mem _ hmem))
            (fun hmem => hfirst' (List.mem_cons_of_mem _ hmem)) hrest
          exact ⟨rfl, rfl⟩

theorem eq_of_map_eq {γ : Type*} {f : β → γ} {as bs : List β}
    (hinj : ∀ a ∈ as, ∀ b ∈ bs, f a = f b → a = b) (h : as.map f = bs.map f) : as = bs := by
  induction as generalizing bs with
  | nil => simpa using h.symm
  | cons a as ih =>
      cases bs with
      | nil => simp at h
      | cons b bs =>
          rw [List.map_cons, List.map_cons, List.cons.injEq] at h
          obtain rfl := hinj a List.mem_cons_self b List.mem_cons_self h.1
          rw [ih (fun a ha b hb => hinj a (List.mem_cons_of_mem _ ha) b (List.mem_cons_of_mem _ hb))
            h.2]

end QivenContext.Library
