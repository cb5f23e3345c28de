import Abacus.Limits
import Abacus.Reader

namespace Abacus

open Text

/-!
Reading of tokens, loosest binding first:

    sequence       := assignment (';' assignment)*
    assignment     := NAME '=' addition | addition
    addition       := multiplication (('+' | '-') multiplication)*
    multiplication := term (('*' | '/') term)*
    term           := NUMBER | NAME | '(' sequence ')'

Every chain is joined to the left. The value of an assignment is an addition, so that assignments
do not chain: in `x = y = 1` the second `=` is left over.
-/

namespace Token.Kind

def sequencing? : Reader.Joiner
  | semicolon => some .seq
  | _ => none

def additive? : Reader.Joiner
  | plus => some (.binary .add)
  | minus => some (.binary .sub)
  | _ => none

def multiplicative? : Reader.Joiner
  | star => some (.binary .mul)
  | slash => some (.binary .div)
  | _ => none

end Token.Kind

namespace Reader

def multiplication (term : Reader) : Reader :=
  chain Token.Kind.multiplicative? term

def addition (term : Reader) : Reader :=
  chain Token.Kind.additive? (multiplication term)

def readAssignment (value : Reader) : List Token → Except Stop (Expr × List Token)
  | ⟨.name, name⟩ :: ⟨.equals, _⟩ :: rest =>
      value.read rest >>= fun (tree, rest') => .ok (.assign name tree, rest')
  | tokens => value.read tokens

def assignment (term : Reader) : Reader where
  read := readAssignment (addition term)
  shortens h := by
    unfold readAssignment at h
    split at h
    · obtain ⟨⟨value, rest'⟩, hread, hvalue⟩ := bind_eq_ok.mp h
      cases hvalue
      exact Nat.lt_succ_of_lt (Nat.lt_succ_of_lt ((addition term).shortens hread))
    · exact (addition term).shortens h

def sequence (term : Reader) : Reader :=
  chain Token.Kind.sequencing? (assignment term)

def readAtom (inner : Reader) : List Token → Except Stop (Expr × List Token)
  | [] => .error ⟨.noOperand, []⟩
  | ⟨.number, lexeme⟩ :: rest =>
      if maxDigits < lexeme.length then
        .error ⟨.numberTooLong, ⟨.number, lexeme⟩ :: rest⟩
      else
        match readInt? lexeme.toList with
        | some value => .ok (.lit value, rest)
        | none => .error ⟨.notNumeral lexeme, ⟨.number, lexeme⟩ :: rest⟩
  | ⟨.name, name⟩ :: rest => .ok (.var name, rest)
  | ⟨.opening, lexeme⟩ :: rest =>
      inner.read rest >>= fun
        | (_, []) => .error ⟨.unclosed, ⟨.opening, lexeme⟩ :: rest⟩
        | (tree, ⟨.closing, _⟩ :: rest') => .ok (tree, rest')
        | (_, token :: rest') => .error ⟨.unclosedBefore token.kind, token :: rest'⟩
  | token :: rest => .error ⟨.notOperand token.kind, token :: rest⟩

def atom (inner : Reader) : Reader where
  read := readAtom inner
  shortens h := by
    unfold readAtom at h
    split at h
    · cases h
    · split at h
      · cases h
      · split at h
        · cases h
          exact Nat.lt_succ_self _
        · cases h
    · cases h
      exact Nat.lt_succ_self _
    · obtain ⟨read, hread, hclose⟩ := bind_eq_ok.mp h
      have hlt := inner.shortens hread
      split at hclose
      · cases hclose
      · cases hclose
        simp only [List.length_cons] at hlt ⊢
        omega
      · cases hclose
    · cases h

def term : Nat → Reader
  | 0 => atom (refuse .tooDeep)
  | depth + 1 => atom (sequence (term depth))

end Reader

namespace Stop

/-- The error of a whole list of tokens. What is nested too deeply is no single token's fault, so
the error then stands at the first. -/
def toError (tokens : List Token) (stop : Stop) : ParseError where
  cause := stop.cause
  tokens := tokens
  index :=
    match stop.cause with
    | .tooDeep => 0
    | _ => tokens.length - stop.rest.length

end Stop

def parseWithin (depth : Nat) (tokens : List Token) : Except ParseError Expr :=
  match (Reader.sequence (Reader.term depth)).read tokens with
  | .error stop => .error (stop.toError tokens)
  | .ok (tree, []) => .ok tree
  | .ok (_, token :: rest) => .error ((Stop.mk (.leftOver token) (token :: rest)).toError tokens)

def nestingLimit [Limits] : Nat := Limits.parentheses

theorem le_nestingLimit [Limits] : 110 ≤ nestingLimit := Limits.le_parentheses

theorem nestingLimit_lt [Limits] : nestingLimit < 1000 := Limits.parentheses_lt

def parse [Limits] (tokens : List Token) : Except ParseError Expr :=
  parseWithin nestingLimit tokens

end Abacus
