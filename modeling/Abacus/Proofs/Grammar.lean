import Abacus.Reader.Grammar

namespace Abacus.Grammar

open Text

/-! The grammar by itself, apart from how tokens are read. A repetition is derived from the left, so
that the tree of a chain is nested to the left. -/

inductive Level where
  | term
  | multiplication
  | addition
  | assignment
  | sequence
deriving DecidableEq, Repr

/-- The level of the operands of a chain, and of what an assignment may be in place of one. -/
def Level.tighter? : Level → Option Level
  | term => none
  | multiplication => some term
  | addition => some multiplication
  | assignment => some addition
  | sequence => some assignment

inductive Infix : Level → Token.Kind → (Expr → Expr → Expr) → Prop
  | star : Infix .multiplication .star (.binary .mul)
  | slash : Infix .multiplication .slash (.binary .div)
  | plus : Infix .addition .plus (.binary .add)
  | minus : Infix .addition .minus (.binary .sub)
  | semicolon : Infix .sequence .semicolon .seq

def IsNumeral (lexeme : String) : Prop :=
  lexeme ≠ "" ∧ ∀ c ∈ lexeme.toList, c.isDigit = true

instance (lexeme : String) : Decidable (IsNumeral lexeme) :=
  have := List.decidableBAll (fun c : Char => c.isDigit = true) lexeme.toList
  inferInstanceAs (Decidable (_ ∧ _))

def numeralValue (lexeme : String) : Nat :=
  Nat.ofDigitChars 10 lexeme.toList 0

/-- Parentheses leave no node in the tree, and but for numbers and names the lexemes do not
matter. -/
inductive Derives : Level → List Token → Expr → Prop
  | number {lexeme : String} :
      IsNumeral lexeme → lexeme.length ≤ maxDigits →
      Derives .term [⟨.number, lexeme⟩] (.lit (numeralValue lexeme))
  | name {name : String} : Derives .term [⟨.name, name⟩] (.var name)
  | parenthesis {opening closing : String} {inner : List Token} {tree : Expr} :
      Derives .sequence inner tree →
      Derives .term (⟨.opening, opening⟩ :: (inner ++ [⟨.closing, closing⟩])) tree
  | lift {level tighter : Level} {tokens : List Token} {tree : Expr} :
      level.tighter? = some tighter → Derives tighter tokens tree →
      Derives level tokens tree
  | chain {level tighter : Level} {left right : List Token} {token : Token}
      {first second : Expr} {join : Expr → Expr → Expr} :
      level.tighter? = some tighter → Infix level token.kind join →
      Derives level left first → Derives tighter right second →
      Derives level (left ++ token :: right) (join first second)
  | assign {name equals : String} {tokens : List Token} {tree : Expr} :
      Derives .addition tokens tree →
      Derives .assignment (⟨.name, name⟩ :: ⟨.equals, equals⟩ :: tokens) (.assign name tree)

abbrev IsExpression (tokens : List Token) (tree : Expr) : Prop :=
  Derives .sequence tokens tree

theorem Derives.of_term {tokens : List Token} {tree : Expr}
    (h : Derives .term tokens tree) (level : Level) : Derives level tokens tree := by
  have hmultiplication : Derives .multiplication tokens tree := .lift rfl h
  have haddition : Derives .addition tokens tree := .lift rfl hmultiplication
  have hassignment : Derives .assignment tokens tree := .lift rfl haddition
  cases level with
  | term => exact h
  | multiplication => exact hmultiplication
  | addition => exact haddition
  | assignment => exact hassignment
  | sequence => exact .lift rfl hassignment

theorem Derives.sequence {level : Level} {tokens : List Token} {tree : Expr}
    (h : Derives level tokens tree) : IsExpression tokens tree := by
  cases level with
  | term => exact h.of_term .sequence
  | multiplication => exact .lift rfl (.lift rfl (.lift rfl h))
  | addition => exact .lift rfl (.lift rfl h)
  | assignment => exact .lift rfl h
  | sequence => exact h

end Abacus.Grammar
