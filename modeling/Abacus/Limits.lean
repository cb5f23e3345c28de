namespace Abacus

/-- How many parentheses may be open at once, how deep right sides may be nested, and how high a
tree may be to be written into a record. That follows from the stack that a run has and from how
much of it is taken already, so that no more is known of it than some bounds. -/
class Limits where
  parentheses : Nat
  rightSides : Nat
  height : Nat
  le_parentheses : 110 ≤ parentheses
  parentheses_lt : parentheses < 1000
  le_rightSides : 100 ≤ rightSides
  le_height : 110 ≤ height

instance : Limits where
  parentheses := 190
  rightSides := 400
  height := 320
  le_parentheses := by decide
  parentheses_lt := by decide
  le_rightSides := by decide
  le_height := by decide

end Abacus
