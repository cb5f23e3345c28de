import Abacus.Proofs.Reading.Takes

namespace Abacus.Grammar

open Text

/-- What has been read of a term before it turns out to be none. A parenthesis that the tokens end
inside of counts as not read, as it is itself the offending token. -/
inductive Obstacle : Nat → List Token → Stop → Prop
  | noOperand {depth : Nat} : Obstacle depth [] ⟨.noOperand, []⟩
  | notOperand {depth : Nat} {token : Token} {rest : List Token} :
      token.kind ≠ .number → token.kind ≠ .name → token.kind ≠ .opening →
      Obstacle depth [] ⟨.notOperand token.kind, token :: rest⟩
  | numberTooLong {depth : Nat} {lexeme : String} {rest : List Token} :
      maxDigits < lexeme.length →
      Obstacle depth [] ⟨.numberTooLong, ⟨.number, lexeme⟩ :: rest⟩
  | tooDeep {opening : String} {rest : List Token} :
      Obstacle 0 [⟨.opening, opening⟩] ⟨.tooDeep, rest⟩
  | unclosed {depth : Nat} {opening : String} {inner : List Token} {tree : Expr} :
      Takes depth .sequence inner tree none →
      Obstacle (depth + 1) [] ⟨.unclosed, ⟨.opening, opening⟩ :: inner⟩
  | unclosedBefore {depth : Nat} {opening : String} {inner : List Token} {tree : Expr}
      {token : Token} {rest : List Token} :
      Takes depth .sequence inner tree (some token.kind) →
      Level.sequence.Completes (some token.kind) → token.kind ≠ .closing →
      Obstacle (depth + 1) (⟨.opening, opening⟩ :: inner)
        ⟨.unclosedBefore token.kind, token :: rest⟩

inductive Halts : Nat → Level → List Token → Stop → Prop
  | obstacle {depth : Nat} {seen : List Token} {stop : Stop} :
      Obstacle depth seen stop → Halts depth .term seen stop
  | inside {depth : Nat} {opening : String} {seen : List Token} {stop : Stop} :
      Halts depth .sequence seen stop →
      Halts (depth + 1) .term (⟨.opening, opening⟩ :: seen) stop
  | operand {depth : Nat} {level tighter : Level} {seen : List Token} {stop : Stop} :
      level.tighter? = some tighter → Halts depth tighter seen stop →
      Halts depth level seen stop
  | chain {depth : Nat} {level tighter : Level} {left seen : List Token} {token : Token}
      {first : Expr} {join : Expr → Expr → Expr} {stop : Stop} :
      level.tighter? = some tighter → Infix level token.kind join →
      Takes depth level left first (some token.kind) → Halts depth tighter seen stop →
      Halts depth level (left ++ token :: seen) stop
  | assign {depth : Nat} {name equals : String} {seen : List Token} {stop : Stop} :
      Halts depth .addition seen stop →
      Halts depth .assignment (⟨.name, name⟩ :: ⟨.equals, equals⟩ :: seen) stop

theorem Obstacle.deepen {depth deeper : Nat} {seen : List Token} {stop : Stop}
    (h : Obstacle depth seen stop) (hcause : stop.cause ≠ .tooDeep) (hle : depth ≤ deeper) :
    Obstacle deeper seen stop := by
  cases h with
  | noOperand => exact .noOperand
  | notOperand hnumber hname hopening => exact .notOperand hnumber hname hopening
  | numberTooLong hlong => exact .numberTooLong hlong
  | tooDeep => exact absurd rfl hcause
  | unclosed htakes =>
      obtain ⟨deeper, rfl⟩ := Nat.exists_eq_add_one_of_ne_zero (Nat.ne_zero_of_lt hle)
      exact .unclosed (htakes.deepen (Nat.le_of_succ_le_succ hle))
  | unclosedBefore htakes hcompletes hclosing =>
      obtain ⟨deeper, rfl⟩ := Nat.exists_eq_add_one_of_ne_zero (Nat.ne_zero_of_lt hle)
      exact .unclosedBefore (htakes.deepen (Nat.le_of_succ_le_succ hle)) hcompletes hclosing

theorem Halts.deepen {depth deeper : Nat} {level : Level} {seen : List Token} {stop : Stop}
    (h : Halts depth level seen stop) (hcause : stop.cause ≠ .tooDeep) (hle : depth ≤ deeper) :
    Halts deeper level seen stop := by
  induction h generalizing deeper with
  | obstacle hobstacle => exact .obstacle (hobstacle.deepen hcause hle)
  | inside _ ih =>
      obtain ⟨deeper, rfl⟩ := Nat.exists_eq_add_one_of_ne_zero (Nat.ne_zero_of_lt hle)
      exact .inside (ih hcause (Nat.le_of_succ_le_succ hle))
  | operand htighter _ ih => exact .operand htighter (ih hcause hle)
  | chain htighter hinfix htakes _ ih =>
      exact .chain htighter hinfix (htakes.deepen hle) (ih hcause hle)
  | assign _ ih => exact .assign (ih hcause hle)

theorem Halts.replace_stop {depth : Nat} {level : Level} {seen : List Token} {stop other : Stop}
    (h : Halts depth level seen stop)
    (hstop : ∀ {less within}, Obstacle less within stop → Obstacle less within other) :
    Halts depth level seen other := by
  induction h with
  | obstacle hobstacle => exact .obstacle (hstop hobstacle)
  | inside _ ih => exact .inside (ih hstop)
  | operand htighter _ ih => exact .operand htighter (ih hstop)
  | chain htighter hinfix htakes _ ih => exact .chain htighter hinfix htakes (ih hstop)
  | assign _ ih => exact .assign (ih hstop)

theorem Halts.balance_of_tooDeep {depth : Nat} {level : Level} {seen : List Token} {stop : Stop}
    (h : Halts depth level seen stop) (hcause : stop.cause = .tooDeep) :
    balance seen = depth + 1 := by
  induction h with
  | obstacle hobstacle =>
      cases hobstacle <;> cases hcause
      rfl
  | inside _ ih =>
      rw [balance_cons, balance_opening, ih hcause]
      omega
  | operand _ _ ih => exact ih hcause
  | chain _ hinfix htakes _ ih =>
      rw [balance_append, balance_cons, htakes.derives.balanced.total, hinfix.balance_eq,
        ih hcause]
      omega
  | @assign _ name equals _ _ _ ih =>
      have hbalance : balance [⟨.name, name⟩, ⟨.equals, equals⟩] = 0 := rfl
      change balance ([⟨.name, name⟩, ⟨.equals, equals⟩] ++ _) = _
      rw [balance_append, hbalance, ih hcause]
      omega

theorem Halts.exists_place {depth : Nat} {level : Level} {seen : List Token} {stop : Stop}
    (h : Halts depth level seen stop) :
    ∃ context within less, seen = context ++ within ∧ Obstacle less within stop ∧
      ∀ {operand : List Token} {tree : Expr}, Derives .term operand tree →
        ∃ rest result, Derives level (context ++ operand ++ rest) result := by
  induction h with
  | @obstacle depth seen _ hobstacle =>
      refine ⟨[], seen, depth, rfl, hobstacle, fun {operand tree} hoperand => ⟨[], tree, ?_⟩⟩
      rwa [List.nil_append, List.append_nil]
  | @inside _ opening _ _ _ ih =>
      obtain ⟨context, within, less, rfl, hobstacle, hplace⟩ := ih
      refine ⟨⟨.opening, opening⟩ :: context, within, less, rfl, hobstacle, fun hoperand => ?_⟩
      obtain ⟨rest, result, hresult⟩ := hplace hoperand
      have hclosed := @Derives.parenthesis opening ")" _ _ hresult
      exact ⟨rest ++ [⟨.closing, ")"⟩], result, by simpa using hclosed⟩
  | operand htighter _ ih =>
      obtain ⟨context, within, less, rfl, hobstacle, hplace⟩ := ih
      refine ⟨context, within, less, rfl, hobstacle, fun hoperand => ?_⟩
      obtain ⟨rest, result, hresult⟩ := hplace hoperand
      exact ⟨rest, result, .lift htighter hresult⟩
  | @chain _ _ _ left _ token _ join _ htighter hinfix htakes _ ih =>
      obtain ⟨context, within, less, rfl, hobstacle, hplace⟩ := ih
      refine ⟨left ++ token :: context, within, less, by simp, hobstacle, fun hoperand => ?_⟩
      obtain ⟨rest, result, hresult⟩ := hplace hoperand
      have hchain := Derives.chain htighter hinfix htakes.derives hresult
      exact ⟨rest, _, by simpa using hchain⟩
  | @assign _ name equals _ _ _ ih =>
      obtain ⟨context, within, less, rfl, hobstacle, hplace⟩ := ih
      refine ⟨⟨.name, name⟩ :: ⟨.equals, equals⟩ :: context, within, less, rfl, hobstacle,
        fun hoperand => ?_⟩
      obtain ⟨rest, result, hresult⟩ := hplace hoperand
      exact ⟨rest, _, .assign hresult⟩

end Abacus.Grammar
