import Abacus.Proofs.Grammar.Nesting

namespace Abacus.Grammar

open Text

/-! What a reader takes off the front of a list of tokens. That depends on the tokens it takes, and
of what stands behind them on the kind of the first alone. -/

def lookahead (rest : List Token) : Option Token.Kind :=
  rest.head?.map Token.kind

@[simp] theorem lookahead_nil : lookahead [] = none := rfl

@[simp] theorem lookahead_cons (token : Token) (rest : List Token) :
    lookahead (token :: rest) = some token.kind := rfl

def Level.Completes (level : Level) (next : Option Token.Kind) : Prop :=
  ∀ kind, next = some kind → ∀ join, ¬ Infix level kind join

/-- The tokens taken at a level, their tree, and what comes next, when `depth` parentheses may be
open at once. A chain may stop in front of an operator of its own level, but what its operands are
read from is complete. A name by itself is no operand in front of an equals sign. -/
inductive Takes : Nat → Level → List Token → Expr → Option Token.Kind → Prop
  | number {depth : Nat} {next : Option Token.Kind} {lexeme : String} :
      IsNumeral lexeme → lexeme.length ≤ maxDigits →
      Takes depth .term [⟨.number, lexeme⟩] (.lit (numeralValue lexeme)) next
  | name {depth : Nat} {next : Option Token.Kind} {name : String} :
      Takes depth .term [⟨.name, name⟩] (.var name) next
  | parenthesis {depth : Nat} {next : Option Token.Kind} {opening closing : String}
      {inner : List Token} {tree : Expr} :
      Takes depth .sequence inner tree (some .closing) →
      Takes (depth + 1) .term (⟨.opening, opening⟩ :: (inner ++ [⟨.closing, closing⟩])) tree next
  | operand {depth : Nat} {next : Option Token.Kind} {level tighter : Level}
      {tokens : List Token} {tree : Expr} :
      level ≠ .assignment → level.tighter? = some tighter →
      Takes depth tighter tokens tree next → tighter.Completes next →
      Takes depth level tokens tree next
  | chain {depth : Nat} {next : Option Token.Kind} {level tighter : Level}
      {left right : List Token} {token : Token} {first second : Expr}
      {join : Expr → Expr → Expr} :
      level.tighter? = some tighter → Infix level token.kind join →
      Takes depth level left first (some token.kind) →
      Takes depth tighter right second next → tighter.Completes next →
      Takes depth level (left ++ token :: right) (join first second) next
  | plain {depth : Nat} {next : Option Token.Kind} {tokens : List Token} {tree : Expr} :
      Takes depth .addition tokens tree next → Level.addition.Completes next →
      (next = some .equals → ∀ name, tokens ≠ [⟨.name, name⟩]) →
      Takes depth .assignment tokens tree next
  | assign {depth : Nat} {next : Option Token.Kind} {name equals : String}
      {tokens : List Token} {tree : Expr} :
      Takes depth .addition tokens tree next → Level.addition.Completes next →
      Takes depth .assignment (⟨.name, name⟩ :: ⟨.equals, equals⟩ :: tokens)
        (.assign name tree) next

theorem Takes.derives {depth : Nat} {level : Level} {tokens : List Token} {tree : Expr}
    {next : Option Token.Kind} (h : Takes depth level tokens tree next) :
    Derives level tokens tree := by
  induction h with
  | number hnumeral hshort => exact .number hnumeral hshort
  | name => exact .name
  | parenthesis _ ih => exact .parenthesis ih
  | operand _ htighter _ _ ih => exact .lift htighter ih
  | chain htighter hinfix _ _ _ ihLeft ihRight => exact .chain htighter hinfix ihLeft ihRight
  | plain _ _ _ ih => exact .lift rfl ih
  | assign _ _ ih => exact .assign ih

theorem Takes.deepen {depth deeper : Nat} {level : Level} {tokens : List Token} {tree : Expr}
    {next : Option Token.Kind} (h : Takes depth level tokens tree next) (hle : depth ≤ deeper) :
    Takes deeper level tokens tree next := by
  induction h generalizing deeper with
  | number hnumeral hshort => exact .number hnumeral hshort
  | name => exact .name
  | parenthesis _ ih =>
      obtain ⟨deeper, rfl⟩ := Nat.exists_eq_add_one_of_ne_zero (Nat.ne_zero_of_lt hle)
      exact .parenthesis (ih (Nat.le_of_succ_le_succ hle))
  | operand hlevel htighter _ hcompletes ih => exact .operand hlevel htighter (ih hle) hcompletes
  | chain htighter hinfix _ _ hcompletes ihLeft ihRight =>
      exact .chain htighter hinfix (ihLeft hle) (ihRight hle) hcompletes
  | plain _ hcompletes hname ih => exact .plain (ih hle) hcompletes hname
  | assign _ hcompletes ih => exact .assign (ih hle) hcompletes

theorem Takes.nestsWithin {depth : Nat} {level : Level} {tokens : List Token} {tree : Expr}
    {next : Option Token.Kind} (h : Takes depth level tokens tree next) :
    NestsWithin depth tokens := by
  induction h with
  | number _ _ => exact .singleton (Int.le_of_eq (balance_singleton (by simp) (by simp)))
  | name => exact .singleton (Int.le_of_eq (balance_singleton (by simp) (by simp)))
  | parenthesis htakes ih => exact ih.enclose htakes.derives.balanced.total
  | operand _ _ _ _ ih => exact ih
  | chain _ hinfix htakes _ _ ihLeft ihRight =>
      exact ihLeft.join htakes.derives.balanced.total hinfix.balance_eq ihRight
  | plain _ _ _ ih => exact ih
  | assign _ _ ih => exact ih.assign

def Level.Bounds (level : Level) (next : Option Token.Kind) : Prop :=
  match level with
  | .term | .multiplication => True
  | .addition => Level.multiplication.Completes next
  | .assignment | .sequence =>
      Level.multiplication.Completes next ∧ Level.addition.Completes next ∧ next ≠ some .equals

theorem Level.completes_none (level : Level) : level.Completes none :=
  nofun

theorem Level.completes_of_eq {level : Level} {kind : Token.Kind}
    (h : ∀ join, ¬ Infix level kind join) : level.Completes (some kind) := by
  intro next hnext
  cases hnext
  exact h

theorem Level.completes_closing (level : Level) : level.Completes (some .closing) :=
  level.completes_of_eq nofun

theorem Level.bounds_none (level : Level) : level.Bounds none := by
  cases level <;> simp [Bounds, completes_none]

theorem Level.bounds_closing (level : Level) : level.Bounds (some .closing) := by
  cases level <;> simp [Bounds, completes_closing]

theorem Infix.bounds {level : Level} {kind : Token.Kind} {join : Expr → Expr → Expr}
    (h : Infix level kind join) : level.Bounds (some kind) := by
  cases h with
  | star | slash => trivial
  | plus | minus => exact Level.completes_of_eq nofun
  | semicolon =>
      exact ⟨Level.completes_of_eq nofun, Level.completes_of_eq nofun, by simp⟩

theorem Level.Bounds.tighter {level tighter : Level} {next : Option Token.Kind}
    (h : level.Bounds next) (htighter : level.tighter? = some tighter) :
    tighter.Bounds next ∧ tighter.Completes next := by
  cases level with
  | term => cases htighter
  | multiplication =>
      cases htighter
      exact ⟨trivial, fun _ _ _ => nofun⟩
  | addition =>
      cases htighter
      exact ⟨trivial, h⟩
  | assignment =>
      cases htighter
      exact ⟨h.1, h.2.1⟩
  | sequence =>
      cases htighter
      exact ⟨h, fun _ _ _ => nofun⟩

theorem Derives.takes {level : Level} {tokens : List Token} {tree : Expr}
    (h : Derives level tokens tree) {depth : Nat} {next : Option Token.Kind}
    (hnests : NestsWithin depth tokens) (hbounds : level.Bounds next) :
    Takes depth level tokens tree next := by
  induction h generalizing depth next with
  | number hnumeral hshort => exact .number hnumeral hshort
  | name => exact .name
  | @parenthesis opening closing inner tree hinner ih =>
      have hopen : (1 : Int) ≤ depth :=
        hnests [⟨.opening, opening⟩] (List.prefix_append [_] _)
      obtain ⟨depth, rfl⟩ : ∃ less, depth = less + 1 := ⟨depth - 1, by omega⟩
      have hinside : NestsWithin depth (inner ++ [⟨.closing, closing⟩]) :=
        @NestsWithin.of_append_right (depth + 1) 1 [⟨.opening, opening⟩] _ hnests (by simp)
      exact .parenthesis (ih hinside.of_append (Level.bounds_closing _))
  | @lift level tighter tokens tree htighter _ ih =>
      obtain ⟨hboundsTighter, hcompletes⟩ := hbounds.tighter htighter
      have htaken := ih hnests hboundsTighter
      by_cases hlevel : level = .assignment
      · subst hlevel
        cases htighter
        exact .plain htaken hcompletes (fun hequals => absurd hequals hbounds.2.2)
      · exact .operand hlevel htighter htaken hcompletes
  | @chain level tighter left right token first second join htighter hinfix hleft hright
      ihLeft ihRight =>
      obtain ⟨hboundsTighter, hcompletes⟩ := hbounds.tighter htighter
      have hbehind : NestsWithin depth (token :: right) :=
        hnests.of_balanced_append hleft.balanced.total
      have hnestsRight : NestsWithin depth right :=
        @NestsWithin.of_balanced_append depth [token] right hbehind hinfix.balance_eq
      exact .chain htighter hinfix (ihLeft hnests.of_append hinfix.bounds)
        (ihRight hnestsRight hboundsTighter) hcompletes
  | @assign name equals tokens tree _ ih =>
      obtain ⟨hboundsTighter, hcompletes⟩ := hbounds.tighter rfl
      have hvalue : NestsWithin depth tokens :=
        @NestsWithin.of_balanced_append depth [⟨.name, name⟩, ⟨.equals, equals⟩] tokens hnests rfl
      exact .assign (ih hvalue hboundsTighter) hcompletes

end Abacus.Grammar
