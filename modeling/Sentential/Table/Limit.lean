import Sentential.Error

/-!
# `Sentential.Table.Limit` — how many symbols a table may have

A table over `n` symbols has `2 ^ n` rows, so the number of symbols is limited before any row is made. The
limit can be set freely, but what is enforced never exceeds `hardMaxVariables`.
-/

namespace Sentential

/-- The limit where none is set. -/
def defaultMaxVariables : Nat := 16

/-- A number of rows has to fit in 64 bits, so no table has more symbols than this. -/
def hardMaxVariables : Nat := 63

/-- The largest number of distinct symbols that a table may have. -/
structure Limit where
  maxVariables : Nat := defaultMaxVariables

namespace Limit

/-- The limit that is enforced. -/
def enforced (l : Limit) : Nat := min l.maxVariables hardMaxVariables

/-- Refuses a number of symbols above the limit. -/
def check (l : Limit) (count : Nat) : Except LogicError Unit :=
  if count > l.enforced then .error (.sizeLimit count l.enforced) else .ok ()

end Limit

end Sentential
