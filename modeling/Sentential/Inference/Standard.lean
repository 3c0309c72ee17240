import Sentential.Inference.Catalogue

/-!
# `Sentential.Inference.Standard` — the usual forms and rules

The argument forms and replacement rules that textbooks of propositional logic teach, as patterns over the
variables `P`, `Q`, `R` and `S`. Disjunctive Syllogism is two forms, one for each disjunct that is denied;
Simplification is one form with two conclusions. Addition concludes a disjunct that no premise fixes.

The catalogue is written as texts, and read once. The trees that are read are listed beside them, because every
search starts from the trees; `parse_standardTexts` says that they are the ones written.

## Contents
* `Pattern` — variables and connectives of patterns
* `Catalogue.standardForms`, `Catalogue.standardRules`, `Catalogue.standard` — the trees
* `Catalogue.standardTexts`, `Catalogue.parse_standardTexts` — the texts that they are written in
-/

namespace Sentential

/-! ## Patterns -/

namespace Pattern

/-- The pattern variable of a name. -/
def named (name : String) : Statement := .atom ⟨name⟩

/-- The first pattern variable. -/
def P : Statement := named "P"

/-- The second pattern variable. -/
def Q : Statement := named "Q"

/-- The third pattern variable. -/
def R : Statement := named "R"

/-- The fourth pattern variable. -/
def S : Statement := named "S"

/-- Negation of a pattern. -/
def neg (p : Statement) : Statement := .negation p

/-- Conjunction of patterns. -/
def conj (p q : Statement) : Statement := .binary .conjunction p q

/-- Disjunction of patterns. -/
def disj (p q : Statement) : Statement := .binary .disjunction p q

/-- Conditional of patterns. -/
def cond (p q : Statement) : Statement := .binary .conditional p q

/-- Biconditional of patterns. -/
def bicond (p q : Statement) : Statement := .binary .biconditional p q

end Pattern

/-! ## Forms and rules -/

namespace Catalogue

open Pattern

/-- The usual argument forms. -/
def standardForms : List (ArgumentForm Statement) :=
  [ ⟨"Modus Ponens", "MP", [cond P Q, P], [Q]⟩,
    ⟨"Modus Tollens", "MT", [cond P Q, neg Q], [neg P]⟩,
    ⟨"Disjunctive Syllogism", "DS", [disj P Q, neg P], [Q]⟩,
    ⟨"Disjunctive Syllogism", "DS", [disj P Q, neg Q], [P]⟩,
    ⟨"Hypothetical Syllogism", "HS", [cond P Q, cond Q R], [cond P R]⟩,
    ⟨"Simplification", "Simp", [conj P Q], [P, Q]⟩,
    ⟨"Conjunction", "Conj", [P, Q], [conj P Q]⟩,
    ⟨"Addition", "Add", [P], [disj P Q]⟩,
    ⟨"Constructive Dilemma", "CD", [cond P Q, cond R S, disj P R], [disj Q S]⟩ ]

/-- The usual replacement rules. -/
def standardRules : List (ReplacementRule Statement) :=
  [ ⟨"Commutation", "Com", [(conj P Q, conj Q P), (disj P Q, disj Q P)]⟩,
    ⟨"Associativity", "Assoc",
      [(conj P (conj Q R), conj (conj P Q) R), (disj P (disj Q R), disj (disj P Q) R)]⟩,
    ⟨"Double Negation", "DN", [(P, neg (neg P))]⟩,
    ⟨"De Morgan's", "DM",
      [(neg (conj P Q), disj (neg P) (neg Q)), (neg (disj P Q), conj (neg P) (neg Q))]⟩,
    ⟨"Distribution", "Dist",
      [(disj P (conj Q R), conj (disj P Q) (disj P R)),
        (conj P (disj Q R), disj (conj P Q) (conj P R))]⟩,
    ⟨"Transposition", "Trans",
      [(cond P Q, cond (neg Q) (neg P)), (cond (neg P) (neg Q), cond Q P)]⟩,
    ⟨"Implication", "Imp", [(cond P Q, disj (neg P) Q)]⟩,
    ⟨"Exportation", "Exp", [(cond (conj P Q) R, cond P (cond Q R))]⟩,
    ⟨"Tautology", "Taut", [(P, conj P P), (P, disj P P)]⟩,
    ⟨"Equivalence", "Equiv",
      [(bicond P Q, conj (cond P Q) (cond Q P)),
        (bicond P Q, disj (conj P Q) (conj (neg P) (neg Q)))]⟩ ]

/-- The usual forms and rules. -/
def standard : Catalogue Statement := ⟨standardForms, standardRules⟩

/-! ## Texts -/

/-- The usual forms and rules as they are written. -/
def standardTexts : Catalogue String where
  forms :=
    [ ⟨"Modus Ponens", "MP", ["P > Q", "P"], ["Q"]⟩,
      ⟨"Modus Tollens", "MT", ["P > Q", "~Q"], ["~P"]⟩,
      ⟨"Disjunctive Syllogism", "DS", ["P v Q", "~P"], ["Q"]⟩,
      ⟨"Disjunctive Syllogism", "DS", ["P v Q", "~Q"], ["P"]⟩,
      ⟨"Hypothetical Syllogism", "HS", ["P > Q", "Q > R"], ["P > R"]⟩,
      ⟨"Simplification", "Simp", ["P & Q"], ["P", "Q"]⟩,
      ⟨"Conjunction", "Conj", ["P", "Q"], ["P & Q"]⟩,
      ⟨"Addition", "Add", ["P"], ["P v Q"]⟩,
      ⟨"Constructive Dilemma", "CD", ["P > Q", "R > S", "P v R"], ["Q v S"]⟩ ]
  rules :=
    [ ⟨"Commutation", "Com", [("P & Q", "Q & P"), ("P v Q", "Q v P")]⟩,
      ⟨"Associativity", "Assoc", [("P & (Q & R)", "(P & Q) & R"), ("P v (Q v R)", "(P v Q) v R")]⟩,
      ⟨"Double Negation", "DN", [("P", "~~P")]⟩,
      ⟨"De Morgan's", "DM", [("~(P & Q)", "~P v ~Q"), ("~(P v Q)", "~P & ~Q")]⟩,
      ⟨"Distribution", "Dist",
        [("P v (Q & R)", "(P v Q) & (P v R)"), ("P & (Q v R)", "(P & Q) v (P & R)")]⟩,
      ⟨"Transposition", "Trans", [("P > Q", "~Q > ~P"), ("~P > ~Q", "Q > P")]⟩,
      ⟨"Implication", "Imp", [("P > Q", "~P v Q")]⟩,
      ⟨"Exportation", "Exp", [("(P & Q) > R", "P > (Q > R)")]⟩,
      ⟨"Tautology", "Taut", [("P", "P & P"), ("P", "P v P")]⟩,
      ⟨"Equivalence", "Equiv", [("P = Q", "(P > Q) & (Q > P)"), ("P = Q", "(P & Q) v (~P & ~Q)")]⟩ ]

/-- **The trees are those that the texts are read as.** -/
theorem parse_standardTexts : parse standardTexts = .ok standard := by
  have hread : (parse standardTexts).toOption = some standard := by decide +kernel
  cases hparse : parse standardTexts with
  | error e =>
    rw [hparse] at hread
    exact absurd hread (by simp [Except.toOption])
  | ok c =>
    rw [hparse] at hread
    exact congrArg Except.ok (Option.some.inj hread)

end Catalogue

end Sentential
