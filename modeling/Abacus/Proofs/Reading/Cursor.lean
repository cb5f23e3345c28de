import Abacus.Proofs.Reading.Local

namespace Abacus.Cursor

open Text Grammar

/-!
Reading by position: a cursor goes over a list of tokens that stays as it is. Nothing here sees to
it that a token is there when the cursor looks, or that the cursor ever gets to an end. A look past
the tokens is a failure of its own, and so is to run out of fuel.
-/

inductive Failure where
  | refused (error : ParseError)
  | outside (position : Nat)
  | exhausted
deriving DecidableEq, Repr

/-- How many calls were made, and what came of them. -/
structure Run (α : Type) where
  calls : Nat
  outcome : Except Failure α
deriving Repr

namespace Run

instance : Monad Run where
  pure value := ⟨0, .ok value⟩
  bind run next :=
    match run.outcome with
    | .ok value => ⟨run.calls + (next value).calls, (next value).outcome⟩
    | .error failure => ⟨run.calls, .error failure⟩

theorem pure_bind {α β : Type} (value : α) (next : α → Run β) :
    Pure.pure value >>= next = next value := by
  change Run.mk (0 + _) _ = _
  rw [Nat.zero_add]

theorem ok_bind {α β : Type} (calls : Nat) (value : α) (next : α → Run β) :
    Run.mk calls (.ok value) >>= next =
      ⟨calls + (next value).calls, (next value).outcome⟩ :=
  rfl

def fail {α : Type} (failure : Failure) : Run α := ⟨0, .error failure⟩

def called {α : Type} (run : Run α) : Run α := ⟨run.calls + 1, run.outcome⟩

end Run

section Calls

variable (tokens : List Token)

def look (position : Nat) : Run Token :=
  match tokens[position]? with
  | some token => pure token
  | none => .fail (.outside position)

def refuse (cause : ParseError.Cause) (position : Nat) : Run (Expr × Nat) :=
  .fail (.refused ⟨cause, tokens, position⟩)

def loop (join : Reader.Joiner) (operand : Nat → Run (Expr × Nat)) :
    Nat → Expr → Nat → Run (Expr × Nat)
  | 0, _, _ => .fail .exhausted
  | fuel + 1, tree, position =>
      if tokens.length ≤ position then
        pure (tree, position)
      else do
        let token ← look tokens position
        match join token.kind with
        | none => pure (tree, position)
        | some joined => do
            let (right, stop) ← operand (position + 1)
            loop join operand fuel (joined tree right) stop

def consumeChain (join : Reader.Joiner) (fuel : Nat) (operand : Nat → Run (Expr × Nat))
    (position : Nat) : Run (Expr × Nat) := do
  let (tree, stop) ← operand position
  loop tokens join operand fuel tree stop

/-- Whether an assignment begins at the position. The first token is looked at only when there is
a second. -/
def assigns (position : Nat) : Run Bool :=
  if tokens.length ≤ position + 1 then
    pure false
  else do
    let first ← look tokens position
    let second ← look tokens (position + 1)
    pure (first.kind == .name && second.kind == .equals)

def consumeAssignment (addition : Nat → Run (Expr × Nat)) (position : Nat) :
    Run (Expr × Nat) := do
  if ← assigns tokens position then
    let (value, stop) ← addition (position + 2)
    let name ← look tokens position
    pure (.assign name.lexeme value, stop)
  else
    addition position

def consumeClosing (position : Nat) (inside : Expr × Nat) : Run (Expr × Nat) :=
  if tokens.length ≤ inside.2 then
    refuse tokens .unclosed position
  else do
    let closing ← look tokens inside.2
    if closing.kind = .closing then
      pure (inside.1, inside.2 + 1)
    else
      refuse tokens (.unclosedBefore closing.kind) inside.2

def consumeTerm (inner : Nat → Run (Expr × Nat)) (position : Nat) : Run (Expr × Nat) :=
  if tokens.length ≤ position then
    refuse tokens .noOperand position
  else do
    let first ← look tokens position
    match first.kind with
    | .number =>
        if maxDigits < first.lexeme.length then
          refuse tokens .numberTooLong position
        else
          match readInt? first.lexeme.toList with
          | some value => pure (.lit value, position + 1)
          | none => refuse tokens (.notNumeral first.lexeme) position
    | .name => pure (.var first.lexeme, position + 1)
    | .opening => inner (position + 1) >>= consumeClosing tokens position
    | kind => refuse tokens (.notOperand kind) position

/-- A call of a level. It is refused for nesting at the first of all tokens, wherever it is that
one parenthesis too many opens. -/
def consume (fuel depth : Nat) (level : Level) (position : Nat) : Run (Expr × Nat) :=
  match fuel with
  | 0 => .fail .exhausted
  | fuel + 1 =>
      .called <|
        match level, depth with
        | .term, 0 => consumeTerm tokens (fun _ => refuse tokens .tooDeep 0) position
        | .term, depth + 1 =>
            consumeTerm tokens (consume fuel depth .sequence) position
        | .multiplication, depth =>
            consumeChain tokens Token.Kind.multiplicative? fuel (consume fuel depth .term) position
        | .addition, depth =>
            consumeChain tokens Token.Kind.additive? fuel (consume fuel depth .multiplication)
              position
        | .assignment, depth => consumeAssignment tokens (consume fuel depth .addition) position
        | .sequence, depth =>
            consumeChain tokens Token.Kind.sequencing? fuel (consume fuel depth .assignment)
              position

def parse (fuel depth : Nat) : Run Expr := do
  let (tree, stop) ← consume tokens fuel depth .sequence 0
  if tokens.length ≤ stop then
    pure tree
  else
    let token ← look tokens stop
    .fail (.refused ⟨.leftOver token, tokens, stop⟩)

end Calls

/-! A run from a position comes to what a reader makes of the tokens from there on. -/

section Agrees

variable {tokens : List Token} {start first extra : Nat}

theorem toError_drop {cause : ParseError.Cause} {position : Nat} (hcause : cause ≠ .tooDeep)
    (hposition : position ≤ tokens.length) :
    Stop.toError tokens ⟨cause, tokens.drop position⟩ = ⟨cause, tokens, position⟩ := by
  rw [Stop.toError, List.length_drop, Nat.sub_sub_self hposition]
  cases cause <;> first | rfl | exact absurd rfl hcause

/-- A run comes to what was read: it ends at `first` or behind it, or is refused for a token not
before `start`. No more than five calls go to each token from `first` on, but for `extra` ones. -/
inductive Agrees (tokens : List Token) (start first extra : Nat) :
    Run (Expr × Nat) → Except Stop (Expr × List Token) → Prop
  | ok {calls stop : Nat} {tree : Expr} :
      first ≤ stop → stop ≤ tokens.length → calls + 5 * first ≤ 5 * stop + extra →
      Agrees tokens start first extra ⟨calls, .ok (tree, stop)⟩ (.ok (tree, tokens.drop stop))
  | error {calls position : Nat} {cause : ParseError.Cause} :
      start ≤ position → position ≤ tokens.length →
      calls + 5 * first ≤ 5 * (tokens.length + 1) + extra →
      Agrees tokens start first extra
        ⟨calls, .error (.refused (Stop.toError tokens ⟨cause, tokens.drop position⟩))⟩
        (.error ⟨cause, tokens.drop position⟩)

namespace Agrees

variable {run : Run (Expr × Nat)} {read : Except Stop (Expr × List Token)}

theorem called (h : Agrees tokens start first extra run read) :
    Agrees tokens start first (extra + 1) run.called read := by
  cases h with
  | ok hfirst hstop hcalls => exact .ok hfirst hstop (by simp only []; omega)
  | error hstart hposition hcalls => exact .error hstart hposition (by simp only []; omega)

theorem widen {start' first' extra' : Nat} (h : Agrees tokens start first extra run read)
    (hstart : start' ≤ start) (hfirst : first' ≤ first)
    (hextra : extra + 5 * first' ≤ 5 * first + extra') :
    Agrees tokens start' first' extra' run read := by
  cases h with
  | ok hstop hlength hcalls => exact .ok (by omega) hlength (by omega)
  | error hposition hlength hcalls => exact .error (by omega) hlength (by omega)

theorem bind {start' : Nat} {next : Expr × Nat → Run (Expr × Nat)}
    {readOn : Expr × List Token → Except Stop (Expr × List Token)}
    (h : Agrees tokens start first extra run read) (hstart : start' ≤ start)
    (hnext : ∀ {tree : Expr} {stop : Nat}, first ≤ stop → stop ≤ tokens.length →
      Agrees tokens start' stop 0 (next (tree, stop)) (readOn (tree, tokens.drop stop))) :
    Agrees tokens start' first extra (run >>= next) (read >>= readOn) := by
  cases h with
  | error hposition hlength hcalls =>
      exact .error (Nat.le_trans hstart hposition) hlength hcalls
  | @ok calls stop tree hstop hlength hcalls =>
      have hrest := @hnext tree stop hstop hlength
      rw [Run.ok_bind]
      change Agrees tokens start' first extra _ (readOn (tree, tokens.drop stop))
      generalize next (tree, stop) = rest at hrest
      generalize readOn (tree, tokens.drop stop) = readRest at hrest
      cases hrest with
      | ok hlater hlength' hcalls' =>
          exact .ok (Nat.le_trans hstop hlater) hlength' (by simp only []; omega)
      | error hposition hlength' hcalls' =>
          exact .error hposition hlength' (by simp only []; omega)

theorem pure {tree : Expr} {stop : Nat} (hfirst : first ≤ stop) (hstop : stop ≤ tokens.length) :
    Agrees tokens start first extra (Pure.pure (tree, stop)) (.ok (tree, tokens.drop stop)) :=
  .ok hfirst hstop (by omega)

theorem refuse {cause : ParseError.Cause} {position : Nat} (hcause : cause ≠ .tooDeep)
    (hstart : start ≤ position) (hposition : position ≤ tokens.length)
    (hfirst : first ≤ tokens.length + 1) :
    Agrees tokens start first extra (Cursor.refuse tokens cause position)
      (.error ⟨cause, tokens.drop position⟩) := by
  rw [Cursor.refuse, ← toError_drop hcause hposition]
  exact .error hstart hposition (by omega)

end Agrees

def AgreesFrom (tokens : List Token) (start extra : Nat) (call : Nat → Run (Expr × Nat))
    (reader : Reader) : Prop :=
  ∀ position, start ≤ position → position ≤ tokens.length →
    Agrees tokens position (position + 1) extra (call position)
      (reader.read (tokens.drop position))

theorem look_bind {α : Type} {position : Nat} (h : position < tokens.length)
    (next : Token → Run α) : look tokens position >>= next = next tokens[position] := by
  rw [look, List.getElem?_eq_getElem h]
  exact Run.pure_bind _ _

theorem assigns_eq (position : Nat) :
    assigns tokens position = Pure.pure (decide (Assigns (tokens.drop position))) := by
  unfold assigns
  split
  · next hend =>
      have hone : (tokens.drop position).length ≤ 1 := by
        rw [List.length_drop]
        omega
      rw [decide_eq_false (fun h => ?_)]
      obtain ⟨name, equals, rest, hdrop⟩ := eq_cons_of_assigns h
      rw [hdrop] at hone
      exact absurd hone (by simp)
  · next hinside =>
      have hsecond : position + 1 < tokens.length := Nat.lt_of_not_le hinside
      have hfirst : position < tokens.length := Nat.lt_of_succ_lt hsecond
      rw [look_bind hfirst, look_bind hsecond, List.drop_eq_getElem_cons hfirst,
        List.drop_eq_getElem_cons hsecond]
      simp only [Assigns, Bool.beq_eq_decide_eq, List.take_succ_cons, List.take_zero,
        List.map_cons, List.map_nil, List.cons.injEq, and_true, Bool.decide_and]

section Chain

variable {join : Reader.Joiner} {operand : Nat → Run (Expr × Nat)} {reader : Reader}

theorem agrees_loop (hextra : extra ≤ 5)
    (hoperand : AgreesFrom tokens start extra operand reader) {fuel position : Nat}
    (hstart : start ≤ position) (hposition : position ≤ tokens.length)
    (hfuel : tokens.length - position < fuel) (tree : Expr) :
    Agrees tokens start position 0 (loop tokens join operand fuel tree position)
      (Reader.goOn join reader tree (tokens.drop position)) := by
  induction fuel generalizing tree position with
  | zero => omega
  | succ fuel ih =>
      unfold loop
      split
      · next hend =>
          rw [List.drop_eq_nil_of_le hend, Reader.goOn_nil, ← List.drop_eq_nil_of_le hend]
          exact .pure (Nat.le_refl _) hposition
      · next hinside =>
          have hlt : position < tokens.length := Nat.lt_of_not_le hinside
          have hdrop := List.drop_eq_getElem_cons hlt
          rw [look_bind hlt, hdrop, Reader.goOn_cons]
          cases join tokens[position].kind with
          | none =>
              rw [← hdrop]
              exact .pure (Nat.le_refl _) hposition
          | some joined =>
              -- Each round gets on by one operator and one operand at least.
              have hround := hoperand (position + 1) (by omega) hlt
              refine (hround.bind (Nat.le_succ_of_le hstart) ?_).widen (Nat.le_refl _)
                (by omega) (by omega)
              intro right stop hstop hlength
              exact ih (by omega) hlength (by omega) (joined tree right)

theorem agrees_consumeChain {fuel : Nat} (hextra : extra ≤ 5)
    (hoperand : AgreesFrom tokens start extra operand reader)
    (hstart : start ≤ tokens.length) (hfuel : tokens.length - start ≤ fuel) :
    Agrees tokens start (start + 1) extra (consumeChain tokens join fuel operand start)
      ((Reader.chain join reader).read (tokens.drop start)) := by
  refine (hoperand start (Nat.le_refl _) hstart).bind (Nat.le_refl _) ?_
  intro tree stop hstop hlength
  exact agrees_loop hextra hoperand (by omega) hlength (by omega) tree

end Chain

theorem agrees_consumeAssignment {addition : Nat → Run (Expr × Nat)} {reader : Reader}
    (hstart : start ≤ tokens.length)
    (haddition : AgreesFrom tokens start extra addition reader) :
    Agrees tokens start (start + 1) extra (consumeAssignment tokens addition start)
      (Reader.readAssignment reader (tokens.drop start)) := by
  rw [consumeAssignment, assigns_eq, Run.pure_bind]
  by_cases hassigns : Assigns (tokens.drop start)
  · rw [decide_eq_true hassigns, if_pos rfl]
    obtain ⟨name, equals, rest, hdrop⟩ := eq_cons_of_assigns hassigns
    have hlength := congrArg List.length hdrop
    rw [List.length_drop, List.length_cons, List.length_cons] at hlength
    have hlt : start < tokens.length := by omega
    have hname : tokens[start] = ⟨.name, name⟩ := by
      rw [List.drop_eq_getElem_cons hlt] at hdrop
      exact (List.cons.inj hdrop).1
    have hrest : rest = tokens.drop (start + 2) := by
      rw [← List.drop_drop, hdrop]
      rfl
    rw [hdrop, Reader.readAssignment, hrest]
    have hvalue := haddition (start + 2) (by omega) (by omega)
    refine (hvalue.bind (Nat.le_add_right start 2) ?_).widen (Nat.le_refl _) (by omega) (by omega)
    intro value stop _ hstop
    simp only [look_bind hlt, hname]
    exact .pure (Nat.le_refl _) hstop
  · rw [readAssignment_of_not_assigns hassigns, decide_eq_false hassigns, if_neg Bool.false_ne_true]
    exact haddition start (Nat.le_refl _) hstart

theorem agrees_consumeClosing {tree : Expr} {stop : Nat} (hstart : start ≤ stop)
    (hstop : stop ≤ tokens.length) :
    Agrees tokens start stop 0 (consumeClosing tokens start (tree, stop))
      (match (tree, tokens.drop stop) with
        | (_, []) => .error ⟨.unclosed, tokens.drop start⟩
        | (tree, ⟨.closing, _⟩ :: rest) => .ok (tree, rest)
        | (_, token :: rest) => .error ⟨.unclosedBefore token.kind, token :: rest⟩) := by
  unfold consumeClosing
  split
  · next hend =>
      rw [List.drop_eq_nil_of_le hend]
      exact .refuse (by simp) (Nat.le_refl _) (by omega) (by omega)
  · next hinside =>
      have hlt : stop < tokens.length := Nat.lt_of_not_le hinside
      have hdrop := List.drop_eq_getElem_cons hlt
      rw [look_bind hlt]
      generalize tokens[stop] = token at hdrop ⊢
      obtain ⟨kind, lexeme⟩ := token
      have hrefuse : Agrees tokens start stop 0 (refuse tokens (.unclosedBefore kind) stop)
          (.error ⟨.unclosedBefore kind, ⟨kind, lexeme⟩ :: tokens.drop (stop + 1)⟩) :=
        hdrop ▸ .refuse (by simp) hstart hstop (by omega)
      rw [hdrop]
      cases kind with
      | closing => exact .pure (Nat.le_succ _) hlt
      | _ => exact hrefuse

theorem agrees_consumeTerm {inner : Nat → Run (Expr × Nat)} {reader : Reader}
    (hstart : start ≤ tokens.length)
    (hinner : start < tokens.length → Agrees tokens (start + 1) (start + 2) 5 (inner (start + 1))
      (reader.read (tokens.drop (start + 1)))) :
    Agrees tokens start (start + 1) 0 (consumeTerm tokens inner start)
      (Reader.readAtom reader (tokens.drop start)) := by
  unfold consumeTerm
  split
  · next hend =>
      have hrefuse : Agrees tokens start (start + 1) 0 (refuse tokens .noOperand start) _ :=
        .refuse (by simp) (Nat.le_refl _) hstart (by omega)
      rwa [List.drop_eq_nil_of_le hend] at hrefuse ⊢
  · next hinside =>
      have hlt : start < tokens.length := Nat.lt_of_not_le hinside
      have hdrop := List.drop_eq_getElem_cons hlt
      rw [look_bind hlt]
      generalize tokens[start] = token at hdrop ⊢
      obtain ⟨kind, lexeme⟩ := token
      have hrefuse {cause : ParseError.Cause} (hcause : cause ≠ .tooDeep) :
          Agrees tokens start (start + 1) 0 (refuse tokens cause start)
            (.error ⟨cause, ⟨kind, lexeme⟩ :: tokens.drop (start + 1)⟩) :=
        hdrop ▸ .refuse hcause (Nat.le_refl _) hstart (by omega)
      rw [hdrop]
      cases kind with
      | name => exact .pure (Nat.le_refl _) hlt
      | number =>
          unfold Reader.readAtom
          simp only []
          split
          · exact hrefuse (by simp)
          · cases readInt? lexeme.toList with
            | some value => exact .pure (Nat.le_refl _) hlt
            | none => exact hrefuse (by simp)
      | opening =>
          refine ((hinner hlt).bind (Nat.le_succ start) ?_).widen (Nat.le_refl _)
            (Nat.le_succ _) (by omega)
          intro tree stop hfirst hstop
          have hclosing := @agrees_consumeClosing tokens start tree stop (by omega) hstop
          rwa [hdrop] at hclosing
      | _ => exact hrefuse (by simp)

theorem agrees_consume {fuel depth position : Nat} {level : Level}
    (hposition : position ≤ tokens.length)
    (hfuel : 5 * (tokens.length - position) + level.rank < fuel) :
    Agrees tokens position (position + 1) (level.rank + 1)
      (consume tokens fuel depth level position)
      ((level.reader depth).read (tokens.drop position)) := by
  -- A call of a tighter level is made at the same position or behind it, any other behind it.
  induction fuel generalizing depth level position with
  | zero => omega
  | succ fuel ih =>
      have hcall {tighter : Level} (htighter : tighter.rank < level.rank) :
          AgreesFrom tokens position (tighter.rank + 1) (consume tokens fuel depth tighter)
            (tighter.reader depth) :=
        fun later hlater hlength => ih hlength (by omega)
      cases level with
      | term =>
          rw [read_term]
          cases depth with
          | zero =>
              refine (agrees_consumeTerm hposition fun hlt => ?_).called
              exact .error (Nat.le_refl _) hlt (by omega)
          | succ depth =>
              refine (agrees_consumeTerm hposition fun hlt => ?_).called
              exact @ih depth (position + 1) .sequence hlt (by simp only [Level.rank]; omega)
      | multiplication =>
          exact (agrees_consumeChain (by decide) (@hcall .term (by decide)) hposition
            (by omega)).called
      | addition =>
          exact (agrees_consumeChain (by decide) (@hcall .multiplication (by decide)) hposition
            (by omega)).called
      | assignment =>
          exact (agrees_consumeAssignment hposition (@hcall .addition (by decide))).called
      | sequence =>
          exact (agrees_consumeChain (by decide) (@hcall .assignment (by decide)) hposition
            (by omega)).called

theorem Agrees.exists_of_ok {run : Run (Expr × Nat)} {tree : Expr} {rest : List Token}
    (h : Agrees tokens start first extra run (.ok (tree, rest))) :
    ∃ stop, run.outcome = .ok (tree, stop) ∧ stop ≤ tokens.length ∧ rest = tokens.drop stop := by
  cases h with
  | ok _ hstop _ => exact ⟨_, rfl, hstop, rfl⟩

theorem Agrees.calls_le {run : Run (Expr × Nat)} {read : Except Stop (Expr × List Token)}
    (h : Agrees tokens start first extra run read) :
    run.calls + 5 * first ≤ 5 * (tokens.length + 1) + extra := by
  cases h with
  | ok _ hstop hcalls => simp only []; omega
  | error _ _ hcalls => exact hcalls

end Agrees

section Calls

variable {tokens : List Token} {depth start : Nat} {level : Level}

/-- A call of the level makes no more calls than these, itself included. -/
def mostCalls (tokens : List Token) (level : Level) (position : Nat) : Nat :=
  5 * (tokens.length - position) + level.rank + 1

theorem mostCalls_le (tokens : List Token) (level : Level) (position : Nat) :
    mostCalls tokens level position ≤ 5 * (tokens.length + 1) := by
  have hrank : level.rank ≤ 4 := by
    cases level <;> decide
  unfold mostCalls
  omega

/-- From two positions on, `length` tokens are the same, and what comes next is of the same kind
or missing in both lists. -/
structure SameFrom (length : Nat) (tokens : List Token) (position : Nat)
    (other : List Token) (position' : Nat) : Prop where
  taken : (other.drop position').take length = (tokens.drop position).take length
  next : other[position' + length]?.map Token.kind = tokens[position + length]?.map Token.kind

/-- A call that returns: it has taken a token at least and none past the list, it stops where no
operator is that would go on, and what it returns is settled by the tokens it has taken and by the
kind of the next one. -/
structure Returns (tokens : List Token) (depth : Nat) (level : Level) (start : Nat)
    (tree : Expr) (stop : Nat) : Prop where
  read : (level.reader depth).read (tokens.drop start) = .ok (tree, tokens.drop stop)
  advances : start < stop
  within : stop ≤ tokens.length
  ends : level.Ends (tokens[stop]?.map Token.kind)
  settled : ∀ {other : List Token} {start' fuel : Nat},
    SameFrom (stop - start) tokens start other start' → mostCalls other level start' ≤ fuel →
    (consume other fuel depth level start').outcome = .ok (tree, start' + (stop - start))

/-- A call that refuses the tokens: the error is the reader's, at a token that is not before the
call, or at the end of the list. -/
structure Refuses (tokens : List Token) (depth : Nat) (level : Level) (start : Nat)
    (error : ParseError) : Prop where
  read : ∃ stop : Stop, (level.reader depth).read (tokens.drop start) = .error stop ∧
    error = stop.toError tokens
  within : error.cause ≠ .tooDeep → start ≤ error.index ∧ error.index ≤ tokens.length

theorem lookahead_drop (tokens : List Token) (position : Nat) :
    lookahead (tokens.drop position) = tokens[position]?.map Token.kind := by
  rw [lookahead, List.head?_drop]

theorem outcome_of_read {tree : Expr} {taken : List Token} {fuel : Nat}
    (hstart : start + taken.length ≤ tokens.length) (hfuel : mostCalls tokens level start ≤ fuel)
    (hread : (level.reader depth).read (tokens.drop start) =
      .ok (tree, tokens.drop (start + taken.length))) :
    (consume tokens fuel depth level start).outcome = .ok (tree, start + taken.length) := by
  have hagrees := @agrees_consume tokens fuel depth start level
    (Nat.le_of_add_right_le hstart) hfuel
  rw [hread] at hagrees
  obtain ⟨stop, houtcome, hstop, hrest⟩ := hagrees.exists_of_ok
  have hlength := congrArg List.length hrest
  rw [List.length_drop, List.length_drop] at hlength
  have heq : stop = start + taken.length := by omega
  rw [houtcome, heq]

theorem Returns.of_read {tree : Expr} {stop : Nat} (hadvances : start < stop)
    (hwithin : stop ≤ tokens.length)
    (hread : (level.reader depth).read (tokens.drop start) = .ok (tree, tokens.drop stop)) :
    Returns tokens depth level start tree stop := by
  obtain ⟨taken, htokens, hends, hother⟩ := (local_reader depth level).split hread
  have htaken : stop - start = taken.length := by
    have hlength := congrArg List.length htokens
    rw [List.length_append, List.length_drop, List.length_drop] at hlength
    omega
  refine ⟨hread, hadvances, hwithin, by rwa [← lookahead_drop], ?_⟩
  intro other start' fuel hsame hfuel
  have hfront : (other.drop start').take taken.length = taken := by
    rw [← htaken, hsame.taken, htokens, htaken, List.take_left]
  have hdrop : other.drop start' = taken ++ other.drop (start' + taken.length) := by
    have htake := (List.take_append_drop taken.length (other.drop start')).symm
    rwa [hfront, List.drop_drop] at htake
  have hnext : lookahead (other.drop (start' + taken.length)) = lookahead (tokens.drop stop) := by
    rw [lookahead_drop, lookahead_drop, ← htaken, hsame.next,
      Nat.add_sub_cancel' (Nat.le_of_lt hadvances)]
  have hinside : start' + taken.length ≤ other.length := by
    have hlength := congrArg List.length hfront
    rw [List.length_take, List.length_drop] at hlength
    omega
  rw [htaken]
  exact outcome_of_read hinside hfuel (hdrop ▸ hother _ hnext)

theorem Refuses.of_read {cause : ParseError.Cause} {position : Nat} (hstart : start ≤ position)
    (hwithin : position ≤ tokens.length)
    (hread : (level.reader depth).read (tokens.drop start) =
      .error ⟨cause, tokens.drop position⟩) :
    Refuses tokens depth level start (Stop.toError tokens ⟨cause, tokens.drop position⟩) := by
  refine ⟨⟨_, hread, rfl⟩, fun hcause => ?_⟩
  have herror : Stop.toError tokens ⟨cause, tokens.drop position⟩ = _ :=
    toError_drop hcause hwithin
  rw [herror]
  exact ⟨hstart, hwithin⟩

theorem outcome_parse (tokens : List Token) (depth : Nat) {fuel : Nat}
    (hfuel : mostCalls tokens .sequence 0 ≤ fuel) :
    (parse tokens fuel depth).outcome = (parseWithin depth tokens).mapError .refused := by
  have hagrees := @agrees_consume tokens fuel depth 0 .sequence (Nat.zero_le _) hfuel
  unfold parse parseWithin
  change Agrees _ _ _ _ _ ((Reader.sequence (Reader.term depth)).read tokens) at hagrees
  generalize consume tokens fuel depth .sequence 0 = run at hagrees ⊢
  generalize (Reader.sequence (Reader.term depth)).read tokens = read at hagrees ⊢
  cases hagrees with
  | error => rfl
  | @ok calls stop tree _ hstop _ =>
      rcases Nat.lt_or_ge stop tokens.length with hlt | hend
      · have hlength : (tokens.drop stop).length = tokens.length - stop := List.length_drop
        simp only [Run.ok_bind, if_neg (Nat.not_le_of_lt hlt), look_bind hlt]
        rw [List.drop_eq_getElem_cons hlt] at hlength ⊢
        simp only [Stop.toError, hlength, Nat.sub_sub_self hstop]
        rfl
      · simp only [Run.ok_bind, if_pos hend, List.drop_eq_nil_of_le hend]
        rfl

/-- Whatever the tokens are and wherever a call begins, it comes to an end in a number of calls
that the length of the list bounds, and no look goes past the list: the call either returns or
refuses the tokens. -/
theorem cursors_advance_within_tokens (tokens : List Token) (depth : Nat) (level : Level)
    {start fuel : Nat} (hstart : start ≤ tokens.length)
    (hfuel : mostCalls tokens level start ≤ fuel) :
    (consume tokens fuel depth level start).calls ≤ mostCalls tokens level start ∧
      mostCalls tokens level start ≤ 5 * (tokens.length + 1) ∧
      ((∃ tree stop, (consume tokens fuel depth level start).outcome = .ok (tree, stop) ∧
          Returns tokens depth level start tree stop) ∨
        ∃ error, (consume tokens fuel depth level start).outcome = .error (.refused error) ∧
          Refuses tokens depth level start error) := by
  have hagrees := @agrees_consume tokens fuel depth start level hstart hfuel
  have hcalls : (consume tokens fuel depth level start).calls ≤ mostCalls tokens level start := by
    have hle := hagrees.calls_le
    unfold mostCalls
    omega
  refine ⟨hcalls, mostCalls_le tokens level start, ?_⟩
  generalize consume tokens fuel depth level start = run at hagrees ⊢
  generalize hread : (level.reader depth).read (tokens.drop start) = read at hagrees
  cases hagrees with
  | ok hadvances hwithin _ => exact .inl ⟨_, _, rfl, .of_read hadvances hwithin hread⟩
  | error hposition hwithin _ => exact .inr ⟨_, rfl, .of_read hposition hwithin hread⟩

theorem cursors_advance_within_sum_before_semicolon :
    let tokens : List Token := [⟨.opening, "("⟩, ⟨.number, "2"⟩, ⟨.star, "*"⟩, ⟨.opening, "("⟩,
      ⟨.name, "x"⟩, ⟨.closing, ")"⟩, ⟨.plus, "+"⟩, ⟨.number, "1"⟩, ⟨.semicolon, ";"⟩]
    1 ≤ tokens.length ∧ mostCalls tokens .addition 1 ≤ 43 ∧
      Returns tokens 1 .addition 1
        (.binary .add (.binary .mul (.lit 2) (.var "x")) (.lit 1)) 8 := by
  intro tokens
  have hstart : 1 ≤ tokens.length := by decide
  have hfuel : mostCalls tokens .addition 1 ≤ 43 := by decide
  rcases (cursors_advance_within_tokens tokens 1 .addition hstart hfuel).2.2 with
    ⟨tree, stop, hrun, hreturns⟩ | ⟨_, hrun, _⟩
  · cases hrun
    exact ⟨hstart, hfuel, hreturns⟩
  · cases hrun

end Calls

end Abacus.Cursor
