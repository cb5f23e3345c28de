namespace Abacus

namespace Token

inductive Kind where
  | number
  | name
  | plus
  | minus
  | star
  | slash
  | opening
  | closing
  | equals
  | semicolon
deriving DecidableEq, Repr

namespace Kind

def label : Kind → String
  | number => "NUMBER"
  | name => "NAME"
  | plus => "PLUS"
  | minus => "MINUS"
  | star => "MULT"
  | slash => "DIV"
  | opening => "LPAREN"
  | closing => "RPAREN"
  | equals => "ASSIGN"
  | semicolon => "SEMICOLON"

def all : List Kind :=
  [number, name, plus, minus, star, slash, opening, closing, equals, semicolon]

def ofLabel? (label : String) : Option Kind :=
  all.find? fun kind => kind.label == label

def ofMark? : Char → Option Kind
  | '+' => some plus
  | '-' => some minus
  | '*' => some star
  | '/' => some slash
  | '(' => some opening
  | ')' => some closing
  | '=' => some equals
  | ';' => some semicolon
  | _ => none

end Kind

end Token

/-- A kind, and the piece of text that the token was written as. Only the kind decides how
tokens are read; the lexeme gives numbers and names and is what messages show. -/
structure Token where
  kind : Token.Kind
  lexeme : String
deriving DecidableEq, Repr

namespace Token

def label (token : Token) : String :=
  "<" ++ token.kind.label ++ ">" ++ token.lexeme

def labels (tokens : List Token) : String :=
  " ".intercalate (tokens.map label)

end Token

end Abacus
