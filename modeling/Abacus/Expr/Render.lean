import Abacus.Expr

namespace Abacus

namespace Expr

def render : Expr → String
  | lit value => toString value
  | var name => name
  | assign name value => "(" ++ name ++ " = " ++ value.render ++ ")"
  | binary op left right =>
      "(" ++ left.render ++ " " ++ op.symbol ++ " " ++ right.render ++ ")"
  | seq first second => "(" ++ first.render ++ "; " ++ second.render ++ ")"
  | stray item => item.render

def describe : Expr → String
  | lit value => "Literal(value=" ++ toString value ++ ")"
  | var name => "Variable(name=" ++ quoted name ++ ")"
  | assign name value =>
      "Assignment(name=" ++ quoted name ++ ", value=" ++ value.describe ++ ")"
  | binary op left right =>
      "BinaryOperation(operator=" ++ op.label ++ ", left=" ++ left.describe ++
        ", right=" ++ right.describe ++ ")"
  | seq first second =>
      "Sequence(first=" ++ first.describe ++ ", second=" ++ second.describe ++ ")"
  | stray item => item.describe

/-- The most operations, assignments and sequences that stand inside of each other. -/
def height : Expr → Nat
  | lit _ | var _ | stray _ => 0
  | assign _ value => value.height + 1
  | binary _ left right => max left.height right.height + 1
  | seq first second => max first.height second.height + 1

def isWritable : Expr → Bool
  | lit value => Text.isWritable value
  | var _ => true
  | assign _ value => value.isWritable
  | binary _ left right => left.isWritable && right.isWritable
  | seq first second => first.isWritable && second.isWritable
  | stray item => item.isWritable

end Expr

end Abacus
