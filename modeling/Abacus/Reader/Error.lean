import Abacus.Token.Spelling
import Abacus.Text.Excerpt
import Abacus.Text.Numeral
import Abacus.Text.Quoted

namespace Abacus

open Text

namespace ParseError

inductive Cause where
  | noOperand
  | notOperand (found : Token.Kind)
  | numberTooLong
  | notNumeral (lexeme : String)
  | unclosed
  | unclosedBefore (found : Token.Kind)
  | leftOver (found : Token)
  | tooDeep
deriving DecidableEq, Repr

namespace Cause

def shownLength : Nat := 200

def reason : Cause → String
  | noOperand => "Expected number, name or parenthesis, found end of input"
  | notOperand found => "Expected number, name or parenthesis, found " ++ found.label
  | numberTooLong => "Number too long, at most " ++ toString maxDigits ++ " digits"
  | notNumeral lexeme =>
      "invalid literal for int() with base 10: " ++
        String.ofList ((quoted lexeme).toList.take shownLength)
  | unclosed => "Unclosed parenthesis"
  | unclosedBefore found => "Unclosed parenthesis, expected ')', found " ++ found.label
  | leftOver found => "Unexpected " ++ found.kind.label ++ " " ++ quoted found.lexeme
  | tooDeep => "Expression nested too deeply"

end Cause

end ParseError

/-- Why a list of tokens is no expression, and the position of the token that shows it: the number
of tokens, if it is their end. -/
structure ParseError where
  cause : ParseError.Cause
  tokens : List Token
  index : Nat
deriving DecidableEq, Repr

namespace ParseError

def reason (error : ParseError) : String :=
  error.cause.reason

/-- Where in the spelling of the tokens the offending one starts. The end of all tokens is one
place past the spelling, if there is any. -/
def place (error : ParseError) : Int :=
  match error.tokens[error.index]? with
  | some token =>
      ((Token.spellChars (error.tokens.take (error.index + 1))).length : Int) -
        token.lexeme.length
  | none =>
      match Token.spellChars error.tokens with
      | [] => 0
      | spelling => spelling.length + 1

def message (error : ParseError) : String :=
  (Excerpt.around (Token.spellChars error.tokens) error.place Excerpt.reach).under
    ("[Parser error] " ++ error.reason)

end ParseError

end Abacus
