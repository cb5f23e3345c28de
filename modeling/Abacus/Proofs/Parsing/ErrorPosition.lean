import Abacus.Proofs.Parsing

namespace Abacus

open Text Grammar

/-- What can still be completed to an expression. -/
def Viable (tokens : List Token) : Prop :=
  ∃ rest tree, IsExpression (tokens ++ rest) tree

/-- The causes that are found at a token, which nothing behind it can set right. -/
def ParseError.Cause.IsOffence : ParseError.Cause → Prop
  | notOperand _ | numberTooLong | unclosedBefore _ | leftOver _ => True
  | _ => False

section Rejects

variable {depth : Nat} {seen rest : List Token} {stop : Stop}

theorem Rejects.deepen {deeper : Nat} (h : Rejects depth seen stop)
    (hcause : stop.cause ≠ .tooDeep) (hle : depth ≤ deeper) : Rejects deeper seen stop := by
  cases h with
  | halts hhalts => exact .halts (hhalts.deepen hcause hle)
  | leftOver htakes hcompletes => exact .leftOver (htakes.deepen hle) hcompletes

theorem Grammar.Obstacle.change_rest {token : Token} {cause : ParseError.Cause}
    (h : Obstacle depth seen ⟨cause, token :: rest⟩) (hcause : cause.IsOffence)
    (others : List Token) : Obstacle depth seen ⟨cause, token :: others⟩ := by
  cases h with
  | notOperand hnumber hname hopening => exact .notOperand hnumber hname hopening
  | numberTooLong hlong => exact .numberTooLong hlong
  | unclosedBefore htakes hcompletes hclosing => exact .unclosedBefore htakes hcompletes hclosing
  | tooDeep | unclosed => exact hcause.elim

theorem Grammar.Halts.change_rest {level : Level} {token : Token} {cause : ParseError.Cause}
    (h : Halts depth level seen ⟨cause, token :: rest⟩) (hcause : cause.IsOffence)
    (others : List Token) : Halts depth level seen ⟨cause, token :: others⟩ :=
  h.replace_stop fun hobstacle => hobstacle.change_rest hcause others

theorem Rejects.change_rest {token : Token} {cause : ParseError.Cause}
    (h : Rejects depth seen ⟨cause, token :: rest⟩) (hcause : cause.IsOffence)
    (others : List Token) : Rejects depth seen ⟨cause, token :: others⟩ := by
  cases h with
  | halts hhalts => exact .halts (hhalts.change_rest hcause others)
  | leftOver htakes hcompletes => exact .leftOver htakes hcompletes

theorem Rejects.viable (h : Rejects depth seen stop) : Viable seen := by
  cases h with
  | leftOver htakes => exact ⟨[], _, by rw [List.append_nil]; exact htakes.derives⟩
  | halts hhalts =>
      obtain ⟨context, within, less, rfl, hobstacle, hplace⟩ := hhalts.exists_place
      -- What has been read of the term is nothing, or a parenthesis that can be closed.
      obtain ⟨close, tree, hterm⟩ : ∃ close tree, Derives .term (within ++ close) tree := by
        cases hobstacle with
        | noOperand | notOperand | numberTooLong | unclosed =>
            exact ⟨[⟨.name, "x"⟩], _, .name⟩
        | tooDeep =>
            exact ⟨[⟨.name, "x"⟩, ⟨.closing, ")"⟩], _,
              .parenthesis Derives.name.sequence⟩
        | unclosedBefore htakes =>
            exact ⟨[⟨.closing, ")"⟩], _, .parenthesis htakes.derives⟩
      obtain ⟨rest, result, hresult⟩ := hplace hterm
      exact ⟨close ++ rest, result, by simpa using hresult⟩

theorem Rejects.of_unclosed (h : Rejects depth seen stop) (hcause : stop.cause = .unclosed) :
    Viable (seen ++ stop.rest) ∧ IsLastUnclosed (seen ++ stop.rest) seen.length := by
  cases h with
  | leftOver => cases hcause
  | halts hhalts =>
      obtain ⟨context, within, less, rfl, hobstacle, hplace⟩ := hhalts.exists_place
      cases hobstacle with
      | noOperand | notOperand | numberTooLong | tooDeep | unclosedBefore => cases hcause
      | @unclosed _ opening inner tree htakes =>
          rw [List.append_nil]
          have hterm := @Derives.parenthesis opening ")" _ _ htakes.derives
          obtain ⟨rest, result, hresult⟩ := hplace hterm
          exact ⟨⟨⟨.closing, ")"⟩ :: rest, result, by simpa using hresult⟩,
            htakes.derives.balanced.isLastUnclosed rfl⟩

theorem Rejects.not_isExpression (h : Rejects depth seen stop) (hcause : stop.cause ≠ .tooDeep)
    (tree : Expr) : ¬ IsExpression (seen ++ stop.rest) tree := by
  intro htree
  let deeper := max depth (seen ++ stop.rest).length
  have hnests : NestsWithin deeper (seen ++ stop.rest) :=
    (nestsWithin_length _).mono (Nat.le_max_right _ _)
  have haccepted : parseWithin deeper (seen ++ stop.rest) = .ok tree :=
    parseWithin_of_takes (htree.takes hnests (Level.bounds_none _))
  have hdeeper : Rejects deeper seen stop := h.deepen hcause (Nat.le_max_left _ _)
  cases haccepted.symm.trans (parseWithin_of_rejects hdeeper)

theorem ParseError.Cause.IsOffence.ne_tooDeep {cause : ParseError.Cause} (h : cause.IsOffence) :
    cause ≠ .tooDeep := by
  intro hcause
  rw [hcause] at h
  exact h

theorem Rejects.not_viable {token : Token} {cause : ParseError.Cause}
    (h : Rejects depth seen ⟨cause, token :: rest⟩) (hcause : cause.IsOffence) :
    ¬ Viable (seen ++ [token]) := by
  intro hviable
  obtain ⟨others, tree, htree⟩ := hviable
  rw [List.append_assoc, List.singleton_append] at htree
  exact (h.change_rest hcause others).not_isExpression hcause.ne_tooDeep tree htree

theorem Rejects.cases_cause (h : Rejects depth seen stop) :
    (stop.cause.IsOffence ∧ ∃ token rest, stop.rest = token :: rest) ∨
      (stop.cause = .noOperand ∧ stop.rest = []) ∨ stop.cause = .unclosed ∨
      (stop.cause = .tooDeep ∧ balance seen = depth + 1) := by
  cases h with
  | leftOver => exact .inl ⟨trivial, _, _, rfl⟩
  | halts hhalts =>
      have hdeep := hhalts.balance_of_tooDeep
      obtain ⟨_, _, _, _, hobstacle, _⟩ := hhalts.exists_place
      cases hobstacle with
      | notOperand | numberTooLong | unclosedBefore => exact .inl ⟨trivial, _, _, rfl⟩
      | noOperand => exact .inr (.inl ⟨rfl, rfl⟩)
      | unclosed => exact .inr (.inr (.inl rfl))
      | tooDeep => exact .inr (.inr (.inr ⟨rfl, hdeep rfl⟩))

theorem Stop.index_toError (hcause : stop.cause ≠ .tooDeep) :
    (stop.toError (seen ++ stop.rest)).index = seen.length := by
  unfold toError
  split
  · exact absurd ‹_› hcause
  · rw [List.length_append, Nat.add_sub_cancel]

end Rejects

theorem Viable.of_prefix {before tokens : List Token} (h : Viable tokens)
    (hbegins : before <+: tokens) : Viable before := by
  obtain ⟨after, rfl⟩ := hbegins
  obtain ⟨rest, tree, htree⟩ := h
  exact ⟨after ++ rest, tree, by rwa [← List.append_assoc]⟩

theorem Grammar.IsLastUnclosed.lt_length {tokens : List Token} {index : Nat}
    (h : IsLastUnclosed tokens index) : index < tokens.length := by
  obtain ⟨before, opening, after, rfl, rfl, _⟩ := h
  simp

namespace ParseError

/-- What stands before the token can be completed, but not together with it. -/
def IsAtOffender (error : ParseError) (tokens : List Token) : Prop :=
  error.index < tokens.length ∧ Viable (tokens.take error.index) ∧
    ¬ Viable (tokens.take (error.index + 1))

def IsAtEnd (error : ParseError) (tokens : List Token) : Prop :=
  error.reason = "Expected number, name or parenthesis, found end of input" ∧
    error.index = tokens.length ∧ Viable tokens ∧ ¬ ∃ tree, IsExpression tokens tree

def IsAtUnclosed (error : ParseError) (tokens : List Token) : Prop :=
  error.reason = "Unclosed parenthesis" ∧ Viable tokens ∧ IsLastUnclosed tokens error.index

variable {error : ParseError} {tokens : List Token}

theorem not_isAtOffender_and_isAtEnd :
    ¬ (error.IsAtOffender tokens ∧ error.IsAtEnd tokens) := by
  intro hboth
  obtain ⟨⟨hlt, _⟩, _, hindex, _⟩ := hboth
  exact Nat.ne_of_lt hlt hindex

theorem not_isAtOffender_and_isAtUnclosed :
    ¬ (error.IsAtOffender tokens ∧ error.IsAtUnclosed tokens) := by
  intro hboth
  obtain ⟨⟨_, _, hnot⟩, _, hviable, _⟩ := hboth
  exact hnot (hviable.of_prefix (List.take_prefix _ _))

theorem not_isAtEnd_and_isAtUnclosed :
    ¬ (error.IsAtEnd tokens ∧ error.IsAtUnclosed tokens) := by
  intro hboth
  obtain ⟨⟨_, hindex, _⟩, _, _, hlast⟩ := hboth
  exact Nat.ne_of_lt hlast.lt_length hindex

end ParseError

section Place

variable {depth : Nat} {seen : List Token} {stop : Stop}

theorem Rejects.isAtOffender {token : Token} {cause : ParseError.Cause} {rest : List Token}
    (h : Rejects depth seen ⟨cause, token :: rest⟩) (hcause : cause.IsOffence) :
    (Stop.toError (seen ++ token :: rest) ⟨cause, token :: rest⟩).IsAtOffender
      (seen ++ token :: rest) := by
  have hindex := @Stop.index_toError seen ⟨cause, token :: rest⟩ hcause.ne_tooDeep
  refine ⟨?_, ?_, ?_⟩
  · rw [hindex, List.length_append, List.length_cons]
    omega
  · rw [hindex, List.take_left]
    exact h.viable
  · rw [hindex, List.append_cons, List.take_left' (by simp)]
    exact h.not_viable hcause

theorem Rejects.exists_same_error {token : Token} {cause : ParseError.Cause} {rest : List Token}
    (h : Rejects depth seen ⟨cause, token :: rest⟩) (hcause : cause.IsOffence)
    {others : List Token}
    (hbegins : (seen ++ token :: rest).take (seen.length + 1) <+: others) :
    ∃ other, parseWithin depth others = .error other ∧ other.reason = cause.reason ∧
      other.index = seen.length := by
  rw [List.append_cons, List.take_left' (by simp)] at hbegins
  obtain ⟨more, rfl⟩ := hbegins
  rw [List.append_assoc, List.singleton_append]
  exact ⟨_, parseWithin_of_rejects (h.change_rest hcause more), rfl,
    @Stop.index_toError seen ⟨cause, token :: more⟩ hcause.ne_tooDeep⟩

theorem Rejects.isAtEnd (h : Rejects depth seen ⟨.noOperand, []⟩) :
    (Stop.toError seen ⟨.noOperand, []⟩).IsAtEnd seen := by
  refine ⟨rfl, rfl, h.viable, ?_⟩
  intro hderived
  obtain ⟨tree, htree⟩ := hderived
  rw [← List.append_nil seen] at htree
  exact h.not_isExpression nofun tree htree

theorem Rejects.isAtUnclosed {rest : List Token} (h : Rejects depth seen ⟨.unclosed, rest⟩) :
    (Stop.toError (seen ++ rest) ⟨.unclosed, rest⟩).IsAtUnclosed (seen ++ rest) := by
  obtain ⟨hviable, hlast⟩ := h.of_unclosed rfl
  refine ⟨rfl, hviable, ?_⟩
  rwa [@Stop.index_toError seen ⟨.unclosed, rest⟩ nofun]

end Place

/-- An error stands at the first token that cannot be right, at the end of tokens that are not
complete, or at the last parenthesis that they end inside of. In the first case no token behind
that one matters. -/
theorem index_of_parse_error [Limits] (tokens : List Token) (error : ParseError)
    (hnumerals : Numerals tokens) (hnests : NestsWithin 110 tokens)
    (h : parse tokens = .error error) :
    (error.IsAtOffender tokens ∨ error.IsAtEnd tokens ∨ error.IsAtUnclosed tokens) ∧
      ¬ (error.IsAtOffender tokens ∧ error.IsAtEnd tokens) ∧
      ¬ (error.IsAtOffender tokens ∧ error.IsAtUnclosed tokens) ∧
      ¬ (error.IsAtEnd tokens ∧ error.IsAtUnclosed tokens) ∧
      (error.IsAtOffender tokens → ∀ others, tokens.take (error.index + 1) <+: others →
        ∃ other, parse others = .error other ∧ other.reason = error.reason ∧
          other.index = error.index) := by
  suffices hplace : (error.IsAtOffender tokens ∨ error.IsAtEnd tokens ∨
      error.IsAtUnclosed tokens) ∧ (error.IsAtOffender tokens → ∀ others,
        tokens.take (error.index + 1) <+: others → ∃ other, parse others = .error other ∧
          other.reason = error.reason ∧ other.index = error.index) from
    ⟨hplace.1, ParseError.not_isAtOffender_and_isAtEnd,
      ParseError.not_isAtOffender_and_isAtUnclosed, ParseError.not_isAtEnd_and_isAtUnclosed,
      hplace.2⟩
  obtain ⟨seen, ⟨cause, rest⟩, rfl, hrejects, rfl⟩ := rejects_of_parseWithin hnumerals h
  obtain ⟨hcause, token, rest, rfl⟩ | ⟨rfl, rfl⟩ | rfl | ⟨_, hdeep⟩ := hrejects.cases_cause
  · have hindex := @Stop.index_toError seen ⟨cause, token :: rest⟩ hcause.ne_tooDeep
    refine ⟨.inl (hrejects.isAtOffender hcause), ?_⟩
    intro _ others hbegins
    rw [hindex] at hbegins ⊢
    exact hrejects.exists_same_error hcause hbegins
  · rw [List.append_nil]
    refine ⟨.inr (.inl hrejects.isAtEnd), ?_⟩
    intro hoffender
    exact absurd ⟨hoffender, hrejects.isAtEnd⟩ ParseError.not_isAtOffender_and_isAtEnd
  · refine ⟨.inr (.inr hrejects.isAtUnclosed), ?_⟩
    intro hoffender
    exact absurd ⟨hoffender, hrejects.isAtUnclosed⟩ ParseError.not_isAtOffender_and_isAtUnclosed
  · have hbound := hnests seen (List.prefix_append _ _)
    rw [hdeep] at hbound
    have hlimit := le_nestingLimit
    omega

theorem parse_number_behind_number :
    let tokens : List Token :=
      [⟨.opening, "("⟩, ⟨.number, "1"⟩, ⟨.plus, "+"⟩, ⟨.number, "2"⟩, ⟨.number, "3"⟩]
    let error : ParseError := ⟨.unclosedBefore .number, tokens, 4⟩
    Numerals tokens ∧ NestsWithin 110 tokens ∧ parse tokens = .error error ∧
      error.IsAtOffender tokens ∧
      ∀ others, tokens <+: others → ∃ other, parse others = .error other ∧
        other.reason = "Unclosed parenthesis, expected ')', found NUMBER" ∧ other.index = 4 := by
  intro tokens error
  have hnumerals : Numerals tokens := by decide
  have hnests : NestsWithin 110 tokens := by decide +kernel
  have hparse : parse tokens = .error error := by decide +kernel
  obtain ⟨hplace, _, _, _, hbehind⟩ := index_of_parse_error tokens error hnumerals hnests hparse
  have hoffender : error.IsAtOffender tokens := by
    rcases hplace with hoffender | hend | hunclosed
    · exact hoffender
    · exact absurd hend.2.1 (by decide)
    · exact absurd hunclosed.1 (by decide)
  exact ⟨hnumerals, hnests, hparse, hoffender, fun others hbegins =>
    hbehind hoffender others hbegins⟩

end Abacus
