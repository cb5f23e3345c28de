import Abacus.Expr.Render

namespace Abacus

inductive Fault where
  | divisionByZero
  | undefinedVariable (name : String)
  | resultTooLarge
  | tooDeep
  | strayNode (item : Stray)
deriving DecidableEq, Repr

namespace Fault

def reason : Fault → String
  | divisionByZero => "Cannot divide by 0"
  | undefinedVariable name => "Undefined variable: " ++ quoted name
  | resultTooLarge => "Result too large to print"
  | tooDeep => "Expression nested too deeply"
  | strayNode item =>
      if item.isWritable then "Unexpected expression type: " ++ item.describe else Text.unwritable

def message (fault : Fault) : String :=
  "[Runtime error] " ++ fault.reason

end Fault

end Abacus
