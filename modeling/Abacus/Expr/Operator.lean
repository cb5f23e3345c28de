import Abacus.Fault
import Abacus.Text.Numeral

namespace Abacus.Operator

open Text

def quotient? (a b : Int) : Option Int :=
  if b = 0 then none else some (a.tdiv b)

def noQuotient : String := "integer division or modulo by zero"

def compute? : Operator → Int → Int → Option Int
  | add, a, b => some (a + b)
  | sub, a, b => some (a - b)
  | mul, a, b => some (a * b)
  | div, a, b => quotient? a b

def apply (op : Operator) (a b : Int) : Except Fault Int :=
  match op.compute? a b with
  | none => .error .divisionByZero
  | some result =>
      if isWritable result then .ok result else .error .resultTooLarge

end Abacus.Operator
