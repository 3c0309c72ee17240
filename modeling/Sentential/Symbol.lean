/-!
# `Sentential.Symbol` — atomic symbols

An atomic symbol such as `A` or `Rain` is known by its name only; the order of symbols is the order of
their names by code point.
-/

namespace Sentential

/-- An atomic symbol, known by its name. -/
@[ext] structure Symbol where
  name : String
  deriving DecidableEq

/-- Symbols are ordered as their names, by code point. -/
instance : Ord Symbol where
  compare a b := compare a.name b.name

end Sentential
