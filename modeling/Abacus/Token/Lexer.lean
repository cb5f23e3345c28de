import Abacus.Token
import Abacus.Text.Blank
import Abacus.Text.Excerpt
import Abacus.Text.Quoted

namespace Abacus

open Text

structure LexError where
  code : String
  index : Nat
  char : Char
deriving DecidableEq, Repr

namespace LexError

def reason (error : LexError) : String :=
  "Unknown character: " ++ quoted error.char.toString

def message (error : LexError) : String :=
  (Excerpt.around error.code.toList error.index Excerpt.reach).under
    ("[Tokenizer error] " ++ error.reason)

end LexError

namespace Token

/-- What a text is cut into: a number is a longest run of digits, a name a longest run of letters,
a mark stands alone, and blanks are left out. What cannot go on is given back from there on. -/
def scan : List Char → Except (Char × List Char) (List Token)
  | [] => .ok []
  | c :: rest =>
      if c.isDigit then
        (⟨.number, String.ofList (c :: rest.takeWhile Char.isDigit)⟩ :: ·) <$>
          scan (rest.dropWhile Char.isDigit)
      else if c.isAlpha then
        (⟨.name, String.ofList (c :: rest.takeWhile Char.isAlpha)⟩ :: ·) <$>
          scan (rest.dropWhile Char.isAlpha)
      else
        match Kind.ofMark? c with
        | some kind => (⟨kind, c.toString⟩ :: ·) <$> scan rest
        | none => if isBlank c then scan rest else .error (c, rest)
termination_by text => text.length
decreasing_by
  · exact Nat.lt_succ_of_le (List.dropWhile_sublist _).length_le
  · exact Nat.lt_succ_of_le (List.dropWhile_sublist _).length_le
  · exact Nat.lt_succ_self _
  · exact Nat.lt_succ_self _

end Token

def tokenize (code : String) : Except LexError (List Token) :=
  match Token.scan code.toList with
  | .ok tokens => .ok tokens
  | .error (char, rest) => .error { code, index := code.length - (rest.length + 1), char }

end Abacus
