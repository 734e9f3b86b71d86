import QivenContext.Control

/-!
# Tool invocations

A tool contract is a fixed template of words, some of them placeholders. The
construction fills in three placeholders by name, while the validation takes
every word in braces for one. So a placeholder that nothing fills in stays in
the invocation, and is validated there.
-/

namespace QivenContext

/-- The declared argv contract. -/
structure ToolContract where
  tool : Str := []
  operation : Str := []
  argvTemplate : List Str := []
  deriving DecidableEq, Inhabited

def isPlaceholder (word : Str) : Bool :=
  decide (2 ≤ word.length) && word.head? == some 123 && word.getLast? == some 125

def operationWord : Str := lit "\x7boperation\x7d"

def toolWord : Str := lit "\x7btool\x7d"

def subjectWord : Str := lit "\x7bsubject\x7d"

/-- One turn of the loop: a known placeholder is substituted from the intent, and
every other word is kept. -/
def constructWord (contract : ToolContract) (intent : ActionIntent) (word : Str) : Str :=
  if word = operationWord then
    if intent.operation.isEmpty then contract.operation else intent.operation
  else if word = toolWord then
    if intent.tool.isEmpty then contract.tool else intent.tool
  else if word = subjectWord then intent.concepts.headD []
  else word

def constructInvocation (contract : ToolContract) (intent : ActionIntent) : List Str :=
  contract.argvTemplate.map (constructWord contract intent)

def validateWord (word arg : Str) : Bool :=
  if isPlaceholder word then !arg.isEmpty else arg == word

def validateInvocation (contract : ToolContract) (argv : List Str) : Bool :=
  argv.length == contract.argvTemplate.length &&
    (contract.argvTemplate.zip argv).all fun position => validateWord position.1 position.2

/-! ## What is validated -/

/-- An argument at a position of the template: a fixed word verbatim, and
anything but the empty argument for a placeholder. -/
def FitsWord (word arg : Str) : Prop :=
  (isPlaceholder word = true → arg ≠ []) ∧ (isPlaceholder word = false → arg = word)

/-- The placeholders that the construction knows. -/
def Known (word : Str) : Prop := word = operationWord ∨ word = toolWord ∨ word = subjectWord

section Validation

variable {contract : ToolContract} {intent : ActionIntent} {argv : List Str} {word arg : Str}

theorem validateWord_iff : validateWord word arg = true ↔ FitsWord word arg := by
  unfold validateWord FitsWord
  cases isPlaceholder word <;> simp

/-- The arity of the template, and at each position what fits it. -/
theorem validateInvocation_iff :
    validateInvocation contract argv = true ↔ List.Forall₂ FitsWord contract.argvTemplate argv := by
  unfold validateInvocation
  rw [List.forall₂_iff_zip, Bool.and_eq_true, beq_iff_eq, List.all_eq_true]
  refine and_congr eq_comm ⟨fun h word arg hmem => validateWord_iff.mp (h (word, arg) hmem), ?_⟩
  rintro h ⟨word, arg⟩ hmem
  exact validateWord_iff.mpr (h hmem)

theorem Known.isPlaceholder (h : Known word) : isPlaceholder word = true := by
  rcases h with rfl | rfl | rfl <;> decide

theorem constructWord_unknown (h : ¬ Known word) : constructWord contract intent word = word := by
  unfold Known at h
  push Not at h
  rw [constructWord, if_neg h.1, if_neg h.2.1, if_neg h.2.2]

theorem ne_nil_of_isPlaceholder (h : isPlaceholder word = true) : word ≠ [] := by
  rintro rfl
  simp [QivenContext.isPlaceholder] at h

/-- A constructed word fits its position, but for a known placeholder without a value. -/
theorem fitsWord_constructWord :
    FitsWord word (constructWord contract intent word) ↔
      (Known word → constructWord contract intent word ≠ []) := by
  by_cases hknown : Known word
  · simp [FitsWord, hknown, hknown.isPlaceholder]
  · -- an unknown placeholder stands for itself, and is not empty
    rw [constructWord_unknown hknown]
    simp only [hknown, false_implies, iff_true]
    exact ⟨ne_nil_of_isPlaceholder, fun _ => rfl⟩

theorem validate_construct_iff :
    validateInvocation contract (constructInvocation contract intent) = true ↔
      ∀ word ∈ contract.argvTemplate, Known word → constructWord contract intent word ≠ [] := by
  rw [validateInvocation_iff, constructInvocation, List.forall₂_map_right_iff, List.forall₂_same]
  exact forall₂_congr fun word _ => fitsWord_constructWord

end Validation

/-! ## Complete invocations -/

/-- Every placeholder of the template is one of the three, and has a value. -/
def Complete (contract : ToolContract) (intent : ActionIntent) : Prop :=
  ∀ word ∈ contract.argvTemplate, isPlaceholder word = true →
    Known word ∧ constructWord contract intent word ≠ []

/-- A known placeholder of the template is without a value. -/
def Unfilled (contract : ToolContract) (intent : ActionIntent) : Prop :=
  (operationWord ∈ contract.argvTemplate ∧ intent.operation = [] ∧ contract.operation = []) ∨
    (toolWord ∈ contract.argvTemplate ∧ intent.tool = [] ∧ contract.tool = []) ∨
      (subjectWord ∈ contract.argvTemplate ∧ intent.concepts.headD [] = [])

section Completeness

variable {contract : ToolContract} {intent : ActionIntent}

theorem constructWord_operation : constructWord contract intent operationWord = [] ↔
    intent.operation = [] ∧ contract.operation = [] := by
  rw [constructWord, if_pos rfl]
  cases intent.operation <;> simp

theorem constructWord_tool : constructWord contract intent toolWord = [] ↔
    intent.tool = [] ∧ contract.tool = [] := by
  rw [constructWord, if_neg (by decide), if_pos rfl]
  cases intent.tool <;> simp

theorem constructWord_subject : constructWord contract intent subjectWord = [] ↔
    intent.concepts.headD [] = [] := by
  rw [constructWord, if_neg (by decide), if_neg (by decide), if_pos rfl]

theorem unfilled_iff : Unfilled contract intent ↔
    ∃ word ∈ contract.argvTemplate, Known word ∧ constructWord contract intent word = [] := by
  unfold Unfilled
  rw [← constructWord_operation, ← constructWord_tool, ← constructWord_subject]
  constructor
  · rintro (⟨hmem, hvalue⟩ | ⟨hmem, hvalue⟩ | ⟨hmem, hvalue⟩)
    · exact ⟨operationWord, hmem, .inl rfl, hvalue⟩
    · exact ⟨toolWord, hmem, .inr (.inl rfl), hvalue⟩
    · exact ⟨subjectWord, hmem, .inr (.inr rfl), hvalue⟩
  · rintro ⟨word, hmem, rfl | rfl | rfl, hvalue⟩
    · exact .inl ⟨hmem, hvalue⟩
    · exact .inr (.inl ⟨hmem, hvalue⟩)
    · exact .inr (.inr ⟨hmem, hvalue⟩)

/-- The validation is the absence of a known placeholder without a value. -/
theorem validate_construct_eq_true :
    validateInvocation contract (constructInvocation contract intent) = true ↔
      ¬ Unfilled contract intent := by
  rw [validate_construct_iff, unfilled_iff]
  push Not
  rfl

theorem Complete.filled (h : Complete contract intent) : ¬ Unfilled contract intent := by
  rw [unfilled_iff]
  rintro ⟨word, hmem, hknown, hvalue⟩
  exact (h word hmem hknown.isPlaceholder).2 hvalue

/-- Invocations validate exactly when they are complete, and with no placeholder left
that nothing substituted, where the template has no other placeholder or is not
filled in anyway. -/
theorem construct_validates_iff (contract : ToolContract) (intent : ActionIntent) :
    ((validateInvocation contract (constructInvocation contract intent) = true ↔
        Complete contract intent) ∧
      (validateInvocation contract (constructInvocation contract intent) = true →
        ∀ word ∈ contract.argvTemplate, isPlaceholder word = true → Known word)) ↔
      (∀ word ∈ contract.argvTemplate, isPlaceholder word = true → Known word) ∨
        Unfilled contract intent := by
  rw [validate_construct_eq_true]
  constructor
  · rintro ⟨-, hknown⟩
    exact or_iff_not_imp_right.mpr hknown
  · intro h
    have hknown : ¬ Unfilled contract intent → ∀ word ∈ contract.argvTemplate,
        isPlaceholder word = true → Known word := h.resolve_right
    refine ⟨⟨fun hfilled word hmem hplaceholder => ?_, Complete.filled⟩, hknown⟩
    have hword := hknown hfilled word hmem hplaceholder
    exact ⟨hword, fun hvalue => hfilled (unfilled_iff.mpr ⟨word, hmem, hword, hvalue⟩)⟩

/-- A template with a placeholder that no intent supplies. -/
def flagContract : ToolContract where
  argvTemplate := [lit "\x7bflag\x7d"]

theorem unknown_placeholder_validates :
    ¬ ((validateInvocation flagContract (constructInvocation flagContract {}) = true ↔
        Complete flagContract {}) ∧
      (validateInvocation flagContract (constructInvocation flagContract {}) = true →
        ∀ word ∈ flagContract.argvTemplate, isPlaceholder word = true → Known word)) := by
  rintro ⟨-, hknown⟩
  have hword := hknown (by decide) _ (List.mem_singleton_self _) (by decide)
  exact absurd hword (by unfold Known; decide)

end Completeness

end QivenContext
