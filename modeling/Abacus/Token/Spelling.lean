import Abacus.Token
import Abacus.Text.Blank

namespace Abacus.Token

open Text

/-! Spelling: the text that a list of tokens is shown as. Lexemes stand a space apart, and then
blanks go that precede a semicolon, follow an opening parenthesis, or precede a closing one. -/

def closeUpBefore (mark : Char) (text : List Char) : List Char :=
  text.foldr (fun c out => if isBlank c && out.head? == some mark then out else c :: out) []

def closeUpAfter (mark : Char) (text : List Char) : List Char :=
  text.foldr (fun c out => c :: if c = mark then out.dropWhile isBlank else out) []

def spellChars (tokens : List Token) : List Char :=
  closeUpBefore ')' (closeUpAfter '(' (closeUpBefore ';'
    ([' '].intercalate (tokens.map (·.lexeme.toList)))))

def spell (tokens : List Token) : String :=
  String.ofList (spellChars tokens)

end Abacus.Token
