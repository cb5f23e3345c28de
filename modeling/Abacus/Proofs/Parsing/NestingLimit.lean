import Abacus.Proofs.Calculation
import Abacus.Proofs.Parsing.ErrorPosition
import Abacus.Proofs.Reading.Unlimited

namespace Abacus

open Text Grammar

/-- What has been read when it is known that reading stops: of tokens that end inside of a
parenthesis, all. -/
def Stop.partRead (stop : Stop) (seen : List Token) : List Token :=
  if stop.cause = .unclosed then seen ++ stop.rest else seen

/-- What is read of the tokens without a limit, up to the end or to the first error. -/
def partRead (tokens : List Token) : List Token :=
  match parseUnlimited tokens with
  | .ok _ => tokens
  | .error error => if error.cause = .unclosed then tokens else tokens.take error.index

theorem Stop.partRead_append (stop : Stop) (front seen : List Token) :
    stop.partRead (front ++ seen) = front ++ stop.partRead seen := by
  unfold partRead
  split
  · exact List.append_assoc _ _ _
  · rfl

namespace Grammar.Halts

variable {depth : Nat} {level : Level} {seen : List Token} {stop : Stop}

theorem nestsWithin (h : Halts depth level seen stop) (hcause : stop.cause ≠ .tooDeep) :
    NestsWithin depth (stop.partRead seen) := by
  induction h with
  | obstacle hobstacle =>
      cases hobstacle with
      | noOperand | notOperand | numberTooLong => exact .nil
      | tooDeep => exact absurd rfl hcause
      | unclosed htakes => exact htakes.nestsWithin.open
      | unclosedBefore htakes => exact htakes.nestsWithin.open
  | @inside _ opening seen stop _ ih =>
      rw [← List.singleton_append, Stop.partRead_append]
      exact (ih hcause).open
  | operand _ _ ih => exact ih hcause
  | chain _ hinfix htakes _ ih =>
      rw [List.append_cons, Stop.partRead_append, ← List.append_cons]
      exact htakes.nestsWithin.join htakes.derives.balanced.total hinfix.balance_eq (ih hcause)
  | @assign _ name equals seen stop _ ih =>
      change NestsWithin _ (stop.partRead ([⟨.name, name⟩, ⟨.equals, equals⟩] ++ seen))
      rw [Stop.partRead_append]
      exact (ih hcause).assign

theorem exists_opening (h : Halts depth level seen stop) (hcause : stop.cause = .tooDeep) :
    ∃ before opening, seen = before ++ [opening] ∧ NestsWithin depth before := by
  induction h with
  | obstacle hobstacle =>
      cases hobstacle <;> cases hcause
      exact ⟨[], _, rfl, .nil⟩
  | inside _ ih =>
      obtain ⟨before, opening, rfl, hbefore⟩ := ih hcause
      exact ⟨_ :: before, opening, rfl, hbefore.open⟩
  | operand _ _ ih => exact ih hcause
  | chain _ hinfix htakes _ ih =>
      obtain ⟨before, opening, rfl, hbefore⟩ := ih hcause
      exact ⟨_ ++ _ :: before, opening, by simp, htakes.nestsWithin.join
        htakes.derives.balanced.total hinfix.balance_eq hbefore⟩
  | assign _ ih =>
      obtain ⟨before, opening, rfl, hbefore⟩ := ih hcause
      exact ⟨_ :: _ :: before, opening, rfl, hbefore.assign⟩

end Grammar.Halts

section Rejects

variable {depth : Nat} {tokens seen : List Token} {stop : Stop}

theorem Rejects.nestsWithin (h : Rejects depth seen stop) (hcause : stop.cause ≠ .tooDeep) :
    NestsWithin depth (stop.partRead seen) := by
  cases h with
  | halts hhalts => exact hhalts.nestsWithin hcause
  | leftOver htakes => exact htakes.nestsWithin

theorem Rejects.exists_opening (h : Rejects depth seen stop) (hcause : stop.cause = .tooDeep) :
    ∃ before opening, seen = before ++ [opening] ∧ NestsWithin depth before ∧
      balance seen = depth + 1 ∧ ∀ more, Rejects depth seen ⟨.tooDeep, more⟩ := by
  cases h with
  | leftOver => cases hcause
  | halts hhalts =>
      obtain ⟨before, opening, hseen, hbefore⟩ := hhalts.exists_opening hcause
      refine ⟨before, opening, hseen, hbefore, hhalts.balance_of_tooDeep hcause, fun more => ?_⟩
      refine .halts (hhalts.replace_stop fun hobstacle => ?_)
      cases hobstacle <;> cases hcause
      exact .tooDeep

theorem Rejects.parseUnlimited (h : Rejects depth seen stop) (hcause : stop.cause ≠ .tooDeep) :
    parseUnlimited (seen ++ stop.rest) = .error (stop.toError (seen ++ stop.rest)) := by
  rw [← parseWithin_eq_parseUnlimited (Nat.le_max_right depth _)]
  exact parseWithin_of_rejects (h.deepen hcause (Nat.le_max_left _ _))

theorem parseUnlimited_of_takes {tree : Expr} (h : Takes depth .sequence tokens tree none) :
    parseUnlimited tokens = .ok tree := by
  rw [← parseWithin_eq_parseUnlimited (Nat.le_max_right depth _)]
  exact parseWithin_of_takes (h.deepen (Nat.le_max_left _ _))

theorem rejects_of_parseUnlimited {error : ParseError} (hnumerals : Numerals tokens)
    (h : parseUnlimited tokens = .error error) :
    ∃ seen stop, tokens = seen ++ stop.rest ∧ Rejects tokens.length seen stop ∧
      stop.cause ≠ .tooDeep := by
  rw [← parseWithin_eq_parseUnlimited (Nat.le_refl _)] at h
  obtain ⟨seen, stop, htokens, hrejects, _⟩ := rejects_of_parseWithin hnumerals h
  refine ⟨seen, stop, htokens, hrejects, fun hcause => ?_⟩
  -- No more parentheses can be open than there are tokens.
  obtain ⟨_, _, _, _, hbalance, _⟩ := hrejects.exists_opening hcause
  have hbound := nestsWithin_length tokens seen ⟨stop.rest, htokens.symm⟩
  omega

theorem partRead_of_takes {tree : Expr} (h : Takes depth .sequence tokens tree none) :
    partRead tokens = tokens := by
  rw [partRead, parseUnlimited_of_takes h]

theorem Rejects.partRead_eq (h : Rejects depth seen stop) (hcause : stop.cause ≠ .tooDeep) :
    partRead (seen ++ stop.rest) = stop.partRead seen := by
  rw [partRead, h.parseUnlimited hcause, Stop.partRead]
  change (if stop.cause = .unclosed then _ else _) = _
  rw [Stop.index_toError hcause, List.take_left]

theorem Stop.partRead_prefix (stop : Stop) (seen : List Token) :
    stop.partRead seen <+: seen ++ stop.rest := by
  unfold partRead
  split
  · exact List.prefix_refl _
  · exact List.prefix_append seen stop.rest

theorem Rejects.viable_partRead (h : Rejects depth seen stop) : Viable (stop.partRead seen) := by
  unfold Stop.partRead
  split
  · exact (h.of_unclosed ‹_›).1
  · exact h.viable

theorem Rejects.prefix_partRead_of_viable {before : List Token} (h : Rejects depth seen stop)
    (hcause : stop.cause ≠ .tooDeep) (hbefore : before <+: seen ++ stop.rest)
    (hviable : Viable before) : before <+: stop.partRead seen := by
  obtain ⟨cause, rest⟩ := stop
  obtain ⟨hoffence, token, behind, rfl⟩ | ⟨rfl, rfl⟩ | rfl | ⟨hdeep, _⟩ := h.cases_cause
  · -- The offender is the token behind what has been read, so nothing viable goes beyond that.
    have hunclosed : cause ≠ .unclosed := by
      rintro rfl
      exact hoffence
    have hoffender : seen ++ [token] <+: seen ++ token :: behind := ⟨behind, by simp⟩
    rw [Stop.partRead, if_neg hunclosed]
    rcases List.prefix_or_prefix_of_prefix hbefore hoffender with hshort | hlong
    · rcases List.prefix_concat_iff.mp hshort with rfl | hseen
      · exact absurd hviable (h.not_viable hoffence)
      · exact hseen
    · exact absurd (hviable.of_prefix hlong) (h.not_viable hoffence)
  · rw [List.append_nil] at hbefore
    exact hbefore
  · exact hbefore
  · exact absurd hdeep hcause

theorem prefix_partRead_iff {before : List Token} (hnumerals : Numerals tokens) :
    before <+: partRead tokens ↔ before <+: tokens ∧ Viable before := by
  cases hparse : parseUnlimited tokens with
  | ok tree =>
      have hread : partRead tokens = tokens := by rw [partRead, hparse]
      rw [← parseWithin_eq_parseUnlimited (Nat.le_refl _)] at hparse
      have hviable : Viable tokens :=
        ⟨[], tree, by rw [List.append_nil]; exact (takes_of_parseWithin hnumerals hparse).derives⟩
      rw [hread]
      exact ⟨fun hbefore => ⟨hbefore, hviable.of_prefix hbefore⟩, And.left⟩
  | error error =>
      obtain ⟨seen, stop, rfl, hrejects, hcause⟩ := rejects_of_parseUnlimited hnumerals hparse
      rw [hrejects.partRead_eq hcause]
      constructor
      · intro hbefore
        exact ⟨hbefore.trans (stop.partRead_prefix seen),
          hrejects.viable_partRead.of_prefix hbefore⟩
      · intro hbefore
        exact hrejects.prefix_partRead_of_viable hcause hbefore.1 hbefore.2

/-- Under a limit, reading comes to the same as without one, or stops at the first parenthesis that
is one too many. -/
theorem parseWithin_cases (hnumerals : Numerals tokens) (depth : Nat) :
    (parseWithin depth tokens = parseUnlimited tokens ∧ NestsWithin depth (partRead tokens)) ∨
      ∃ before opening, before ++ [opening] <+: partRead tokens ∧ NestsWithin depth before ∧
        balance (before ++ [opening]) = depth + 1 ∧
        ∀ more, parseWithin depth (before ++ opening :: more) =
          .error ⟨.tooDeep, before ++ opening :: more, 0⟩ := by
  cases hparse : parseWithin depth tokens with
  | ok tree =>
      have htakes := takes_of_parseWithin hnumerals hparse
      rw [parseUnlimited_of_takes htakes, partRead_of_takes htakes]
      exact .inl ⟨rfl, htakes.nestsWithin⟩
  | error error =>
      obtain ⟨seen, stop, rfl, hrejects, rfl⟩ := rejects_of_parseWithin hnumerals hparse
      by_cases hcause : stop.cause = .tooDeep
      · right
        obtain ⟨before, opening, rfl, hbefore, hbalance, hmore⟩ := hrejects.exists_opening hcause
        have hread := (prefix_partRead_iff hnumerals).mpr
          ⟨List.prefix_append (before ++ [opening]) stop.rest, hrejects.viable⟩
        refine ⟨before, opening, hread, hbefore, hbalance, fun more => ?_⟩
        have hrejected := parseWithin_of_rejects (hmore more)
        rwa [← List.append_cons] at hrejected
      · left
        rw [hrejects.parseUnlimited hcause, hrejects.partRead_eq hcause]
        exact ⟨rfl, hrejects.nestsWithin hcause⟩

end Rejects

section Limit

variable {depth : Nat} {tokens before : List Token}

theorem parseWithin_of_nestsWithin (hnumerals : Numerals tokens)
    (h : NestsWithin depth (partRead tokens)) :
    parseWithin depth tokens = parseUnlimited tokens := by
  rcases parseWithin_cases hnumerals depth with ⟨hsame, _⟩ | ⟨_, _, hread, _, hbalance, _⟩
  · exact hsame
  · have hbound := h _ hread
    omega

theorem parseWithin_of_lt_balance (hnumerals : Numerals tokens)
    (hread : before <+: partRead tokens) (h : depth < balance before) (more : List Token) :
    parseWithin depth (before ++ more) = .error ⟨.tooDeep, before ++ more, 0⟩ := by
  -- The parenthesis that is one too many is in `before`, as what precedes it nests within `depth`.
  rcases parseWithin_cases hnumerals depth with
    ⟨_, hnests⟩ | ⟨first, opening, hfirst, hnests, _, hmore⟩
  · have hbound := hnests before hread
    omega
  · rcases List.prefix_or_prefix_of_prefix hread hfirst with hshort | ⟨others, rfl⟩
    · rcases List.prefix_concat_iff.mp hshort with rfl | hinside
      · rw [List.append_assoc]
        exact hmore more
      · have hbound := hnests before hinside
        omega
    · rw [List.append_assoc, List.append_assoc]
      exact hmore (others ++ more)

end Limit

/-- Where no more than 110 parentheses are open at once before reading stops, the limit changes
nothing. Where 1000 are, the tokens are too deep, whatever stands behind them, and to calculate them
leaves the environment as it is. -/
theorem nesting_limit_only_cuts [Limits] (tokens : List Token) (hnumerals : Numerals tokens) :
    (NestsWithin 110 (partRead tokens) → parse tokens = parseUnlimited tokens) ∧
      ∀ before, before <+: partRead tokens → 1000 ≤ balance before → ∀ more,
        ∃ error, parse (before ++ more) = .error error ∧
          error.reason = "Expression nested too deeply" ∧ error.index = 0 ∧
          ∀ code env, tokenize code = .ok (before ++ more) →
            calculate code env = (.error (.parse error), env) := by
  constructor
  · intro hnests
    exact parseWithin_of_nestsWithin hnumerals (hnests.mono le_nestingLimit)
  · intro before hread hdeep more
    have hlimit : (nestingLimit : Int) < balance before :=
      Int.lt_of_lt_of_le (Int.ofNat_lt.mpr nestingLimit_lt) hdeep
    have hparse : parse (before ++ more) = _ :=
      parseWithin_of_lt_balance hnumerals hread hlimit more
    exact ⟨_, hparse, rfl, rfl, fun code env htokens => calculate_of_parse_error htokens hparse env⟩

theorem nesting_limit_at_thousand_parentheses :
    let opened : List Token := List.replicate 1000 ⟨.opening, "("⟩
    let early : List Token := ⟨.number, "1"⟩ :: ⟨.number, "2"⟩ :: opened
    let late : List Token := opened ++ [⟨.star, "*"⟩]
    Numerals early ∧ NestsWithin 110 (partRead early) ∧
      parseUnlimited early = .error ⟨.leftOver ⟨.number, "2"⟩, early, 1⟩ ∧
      parse early = parseUnlimited early ∧
      Numerals late ∧ opened <+: partRead late ∧ 1000 ≤ balance opened ∧
      parseUnlimited late = .error ⟨.notOperand .star, late, 1000⟩ ∧
      ∃ error, parse late = .error error ∧ error.reason = "Expression nested too deeply" ∧
        error.index = 0 := by
  intro opened early late
  have hearly : Numerals early := by decide +kernel
  have hnests : NestsWithin 110 (partRead early) := by decide +kernel
  have hlate : Numerals late := by decide +kernel
  have hread : opened <+: partRead late := by decide +kernel
  have hdeep : 1000 ≤ balance opened := by decide +kernel
  have hsame := (nesting_limit_only_cuts early hearly).1 hnests
  obtain ⟨error, herror, hreason, hindex, _⟩ :=
    (nesting_limit_only_cuts late hlate).2 opened hread hdeep [⟨.star, "*"⟩]
  exact ⟨hearly, hnests, by decide +kernel, hsame, hlate, hread, hdeep, by decide +kernel,
    error, herror, hreason, hindex⟩

end Abacus
