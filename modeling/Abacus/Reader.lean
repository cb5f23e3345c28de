import Abacus.Expr
import Abacus.Reader.Error

namespace Abacus

theorem bind_eq_ok {ε α β : Type} {result : Except ε α} {next : α → Except ε β} {b : β} :
    result >>= next = .ok b ↔ ∃ a, result = .ok a ∧ next a = .ok b := by
  cases result with
  | error _ => simp [bind, Except.bind]
  | ok _ => simp [bind, Except.bind]

/-- Where and why reading stopped: the tokens from the offending one on. -/
structure Stop where
  cause : ParseError.Cause
  rest : List Token
deriving DecidableEq, Repr

/-- What reads an expression off the front of a list of tokens and leaves the others. It takes
one token at least. -/
structure Reader where
  read : List Token → Except Stop (Expr × List Token)
  shortens : ∀ {tokens tree rest},
    read tokens = .ok (tree, rest) → rest.length < tokens.length

namespace Reader

def refuse (cause : ParseError.Cause) : Reader where
  read tokens := .error ⟨cause, tokens⟩
  shortens := nofun

abbrev Joiner := Token.Kind → Option (Expr → Expr → Expr)

def goOn (join : Joiner) (operand : Reader) (tree : Expr) :
    List Token → Except Stop (Expr × List Token)
  | [] => .ok (tree, [])
  | token :: rest =>
      match join token.kind with
      | none => .ok (tree, token :: rest)
      | some joined =>
          match _h : operand.read rest with
          | .error stop => .error stop
          | .ok (right, rest') => goOn join operand (joined tree right) rest'
termination_by tokens => tokens.length
decreasing_by
  exact Nat.lt_succ_of_lt (operand.shortens ‹_›)

@[simp] theorem goOn_nil (join : Joiner) (operand : Reader) (tree : Expr) :
    goOn join operand tree [] = .ok (tree, []) := by
  rw [goOn]

theorem goOn_cons (join : Joiner) (operand : Reader) (tree : Expr)
    (token : Token) (rest : List Token) :
    goOn join operand tree (token :: rest) =
      match join token.kind with
      | none => .ok (tree, token :: rest)
      | some joined => operand.read rest >>= fun (right, rest') =>
          goOn join operand (joined tree right) rest' := by
  rw [goOn]
  cases join token.kind with
  | none => rfl
  | some joined =>
      simp only []
      split <;> simp_all [bind, Except.bind]

theorem length_le_of_goOn {join : Joiner} {operand : Reader} {tree result : Expr}
    {tokens rest : List Token} (h : goOn join operand tree tokens = .ok (result, rest)) :
    rest.length ≤ tokens.length := by
  induction hn : tokens.length using Nat.strongRecOn generalizing tree tokens with
  | ind n ih =>
      subst hn
      cases tokens with
      | nil =>
          cases (goOn_nil join operand tree).symm.trans h
          exact Nat.le_refl _
      | cons token following =>
          rw [goOn_cons] at h
          cases hjoin : join token.kind with
          | none =>
              rw [hjoin] at h
              cases h
              exact Nat.le_refl _
          | some joined =>
              rw [hjoin] at h
              obtain ⟨⟨right, rest'⟩, hread, hrest⟩ := bind_eq_ok.mp h
              have hlt := Nat.lt_succ_of_lt (operand.shortens hread)
              exact Nat.le_trans (ih rest'.length hlt hrest rfl) (Nat.le_of_lt hlt)

def chain (join : Joiner) (operand : Reader) : Reader where
  read tokens := operand.read tokens >>= fun (tree, rest) => goOn join operand tree rest
  shortens h := by
    obtain ⟨⟨tree, rest'⟩, hread, hrest⟩ := bind_eq_ok.mp h
    exact Nat.lt_of_le_of_lt (length_le_of_goOn hrest) (operand.shortens hread)

end Reader

end Abacus
