import Abacus.Calculation

namespace Abacus

def listed (items : List String) : String :=
  "[" ++ ", ".intercalate items ++ "]"

def Token.describe (token : Token) : String :=
  "Token(kind=" ++ token.kind.label ++ ", lexeme=" ++ quoted token.lexeme ++ ")"

def LexError.describe (error : LexError) : String :=
  "LexError(errmsg=" ++ quoted error.reason ++ ", code=" ++ quoted error.code ++
    ", error_char_idx=" ++ toString error.index ++ ")"

def ParseError.describe (error : ParseError) : String :=
  "ParseError(errmsg=" ++ quoted error.reason ++
    ", tokens=" ++ listed (error.tokens.map Token.describe) ++
    ", error_token_idx=" ++ toString error.index ++ ")"

def Fault.describe : Fault → String
  | divisionByZero => "DivisionByZero()"
  | undefinedVariable name => "UndefinedVariable(name=" ++ quoted name ++ ")"
  | resultTooLarge => "ResultTooLarge()"
  | tooDeep => "ExpressionTooDeep()"
  -- No error of a calculation, and told as the interpreter tells any exception.
  | strayNode item =>
      (if item.isWritable then "TypeError(" else "ValueError(") ++
        quoted (strayNode item).reason ++ ")"

def Error.describe : Error → String
  | lexical error => error.describe
  | parse error => error.describe
  | fault error => error.describe

def Outcome.describe : Outcome → String
  | .ok value => "Success(value=" ++ toString value ++ ")"
  | .error error => "Failure(error=" ++ error.describe ++ ")"

namespace Calculation

def Stage.tokens? : Stage → Option (List Token)
  | unread _ => none
  | unparsed tokens _ | evaluated tokens _ _ _ => some tokens

def Stage.tree? : Stage → Option Expr
  | evaluated _ tree _ _ => some tree
  | _ => none

def verdict (calculation : Calculation) : String :=
  match calculation.outcome with
  | .ok value =>
      quoted calculation.code ++ " = " ++ toString value ++ ", variables: " ++
        calculation.after.render
  | .error error => quoted calculation.code ++ " failed: " ++ error.describe

def isWritable (calculation : Calculation) : Bool :=
  match calculation.outcome with
  | .ok value => Text.isWritable value && calculation.after.isWritable
  | .error _ => true

/-- Whether the stack gives out over the record of the tree, which is made in front of the
evaluation. -/
def overflows [Limits] (calculation : Calculation) : Bool :=
  calculation.stage.tree?.any fun tree => Limits.height < tree.height

/-- The tokens and the tree, as far as there are any, and the end. What cannot be written out is
not noted. -/
def records [Limits] (calculation : Calculation) : List String :=
  (calculation.stage.tokens?.map fun tokens => "tokens: " ++ Token.labels tokens).toList ++
    if calculation.overflows then []
    else
      ((calculation.stage.tree?.filter Expr.isWritable).map fun tree =>
        "ast: " ++ tree.render).toList ++
      if calculation.isWritable then [calculation.verdict] else []

end Calculation

end Abacus
