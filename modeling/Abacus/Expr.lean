import Abacus.Expr.Stray

namespace Abacus

inductive Operator where
  | add
  | sub
  | mul
  | div
deriving DecidableEq, Repr

namespace Operator

def symbol : Operator → String
  | add => "+"
  | sub => "-"
  | mul => "*"
  | div => "/"

def label : Operator → String
  | add => "ADD"
  | sub => "SUB"
  | mul => "MUL"
  | div => "DIV"

def all : List Operator := [add, sub, mul, div]

def ofLabel? (label : String) : Option Operator :=
  all.find? fun op => op.label == label

end Operator

/-- Operands and the parts of a sequence are evaluated in the order in which they are written. -/
inductive Expr where
  | lit (value : Int)
  | var (name : String)
  | assign (name : String) (value : Expr)
  | binary (op : Operator) (left right : Expr)
  | seq (first second : Expr)
  | stray (item : Stray)
deriving DecidableEq, Repr

end Abacus
