/-!
# `Sentential.Sentence.Typeset` — typeset conditionals

The plain spellings `>` and `=` of the conditional and the biconditional are replaced by the typeset `⊃` and
`≡` wherever they occur, also in a text that is no sentence.
-/

namespace Sentential

/-- The typeset form of a character. -/
def typesetChar (c : Char) : Char :=
  if c = '>' then '⊃' else if c = '=' then '≡' else c

/-- A text with the conditional and the biconditional typeset. -/
def typeset (source : String) : String :=
  String.ofList (source.toList.map typesetChar)

/-- Typesetting twice is typesetting once. -/
theorem typeset_typeset (source : String) : typeset (typeset source) = typeset source := by
  have h : typesetChar ∘ typesetChar = typesetChar := by
    funext c
    by_cases hgt : c = '>'
    · subst hgt; rfl
    · by_cases heq : c = '='
      · subst heq; rfl
      · simp [typesetChar, hgt, heq]
  simp [typeset, h]

end Sentential
