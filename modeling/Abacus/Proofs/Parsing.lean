import Abacus.Proofs.Reading.Exact

namespace Abacus

open Text Grammar

/-- What has been read of a list of tokens before it is rejected. -/
inductive Rejects (depth : Nat) : List Token → Stop → Prop
  | halts {seen : List Token} {stop : Stop} :
      Halts depth .sequence seen stop → Rejects depth seen stop
  | leftOver {taken rest : List Token} {token : Token} {tree : Expr} :
      Takes depth .sequence taken tree (some token.kind) →
      Level.sequence.Completes (some token.kind) →
      Rejects depth taken ⟨.leftOver token, token :: rest⟩

section Exact

variable {depth : Nat} {tokens : List Token}

theorem takes_of_parseWithin {tree : Expr} (hnumerals : Numerals tokens)
    (h : parseWithin depth tokens = .ok tree) : Takes depth .sequence tokens tree none := by
  unfold parseWithin at h
  split at h
  · cases h
  · next tree' hread =>
      cases h
      obtain ⟨taken, htokens, htakes, _⟩ :=
        (exact_reader depth .sequence).takes_of_read hnumerals hread
      rw [List.append_nil] at htokens
      rwa [htokens]
  · cases h

theorem parseWithin_of_takes {tree : Expr} (h : Takes depth .sequence tokens tree none) :
    parseWithin depth tokens = .ok tree := by
  have hread : (Reader.sequence (.term depth)).read (tokens ++ []) = .ok (tree, []) :=
    (exact_reader depth .sequence).read_of_takes h (Level.completes_none _)
  rw [List.append_nil] at hread
  rw [parseWithin, hread]

theorem rejects_of_parseWithin {error : ParseError} (hnumerals : Numerals tokens)
    (h : parseWithin depth tokens = .error error) :
    ∃ seen stop, tokens = seen ++ stop.rest ∧ Rejects depth seen stop ∧
      error = stop.toError tokens := by
  unfold parseWithin at h
  split at h
  · next stop hread =>
      cases h
      obtain ⟨seen, htokens, hhalts⟩ :=
        (exact_reader depth .sequence).halts_of_read hnumerals hread
      exact ⟨seen, stop, htokens, .halts hhalts, rfl⟩
  · cases h
  · next tree token rest hread =>
      cases h
      obtain ⟨taken, htokens, htakes, hcompletes⟩ :=
        (exact_reader depth .sequence).takes_of_read hnumerals hread
      exact ⟨taken, _, htokens, .leftOver htakes hcompletes, rfl⟩

theorem parseWithin_of_rejects {seen : List Token} {stop : Stop} (h : Rejects depth seen stop) :
    parseWithin depth (seen ++ stop.rest) = .error (stop.toError (seen ++ stop.rest)) := by
  cases h with
  | halts hhalts =>
      have hread : (Reader.sequence (.term depth)).read (seen ++ stop.rest) = .error stop :=
        (exact_reader depth .sequence).read_of_halts hhalts
      rw [parseWithin, hread]
  | @leftOver rest token tree htakes hcompletes =>
      have hread : (Reader.sequence (.term depth)).read (seen ++ token :: rest) =
          .ok (tree, token :: rest) :=
        (exact_reader depth .sequence).read_of_takes htakes hcompletes
      rw [parseWithin, hread]

end Exact

theorem Rejects.cause_ne_notNumeral {depth : Nat} {seen : List Token} {stop : Stop}
    (h : Rejects depth seen stop) (lexeme : String) : stop.cause ≠ .notNumeral lexeme := by
  cases h with
  | halts hhalts =>
      obtain ⟨_, _, _, _, hobstacle, _⟩ := hhalts.exists_place
      cases hobstacle <;> nofun
  | leftOver => nofun

theorem parseWithin_eq_ok_iff {depth : Nat} {tokens : List Token} {tree : Expr}
    (hnumerals : Numerals tokens) (hnests : NestsWithin depth tokens) :
    parseWithin depth tokens = .ok tree ↔ IsExpression tokens tree := by
  constructor
  · intro h
    exact (takes_of_parseWithin hnumerals h).derives
  · intro h
    exact parseWithin_of_takes (h.takes hnests (Level.bounds_none _))

theorem parse_eq_ok_iff [Limits] {tokens : List Token} {tree : Expr} (hnumerals : Numerals tokens)
    (hnests : NestsWithin 110 tokens) : parse tokens = .ok tree ↔ IsExpression tokens tree :=
  parseWithin_eq_ok_iff hnumerals (hnests.mono le_nestingLimit)

/-- A number is too long, too many parentheses are open at once, or the grammar derives no tree. -/
def IsRejected [Limits] (tokens : List Token) : Prop :=
  (∃ token ∈ tokens, token.kind = .number ∧ maxDigits < token.lexeme.length) ∨
    ¬ NestsWithin nestingLimit tokens ∨ ¬ ∃ tree, IsExpression tokens tree

theorem exists_parseError_iff [Limits] {tokens : List Token} (hnumerals : Numerals tokens) :
    (∃ error, parse tokens = .error error) ↔ IsRejected tokens := by
  constructor
  · intro hrefused
    obtain ⟨error, herror⟩ := hrefused
    by_cases hnests : NestsWithin nestingLimit tokens
    · right; right
      intro hderived
      obtain ⟨tree, htree⟩ := hderived
      cases herror.symm.trans ((parseWithin_eq_ok_iff hnumerals hnests).mpr htree)
    · exact .inr (.inl hnests)
  · intro hrejected
    cases hparse : parse tokens with
    | error error => exact ⟨error, rfl⟩
    | ok tree =>
        have htakes := takes_of_parseWithin hnumerals hparse
        rcases hrejected with ⟨token, htoken, hnumber, hlong⟩ | hdeep | hnone
        · have hshort := (htakes.derives.numbers token htoken hnumber).2
          exact absurd hlong (Nat.not_lt_of_le hshort)
        · exact absurd htakes.nestsWithin hdeep
        · exact absurd ⟨tree, htakes.derives⟩ hnone

/-- Parsing accepts the lists of tokens that the grammar derives, each with its only tree, and
rejects all others. -/
theorem parse_eq_ok_iff_isExpression [Limits] (tokens : List Token) (hnumerals : Numerals tokens)
    (hnests : NestsWithin 110 tokens) :
    (∀ tree, parse tokens = .ok tree ↔ IsExpression tokens tree) ∧
      (∀ tree other, IsExpression tokens tree → IsExpression tokens other → tree = other) ∧
      ((∃ error, parse tokens = .error error ∧ ∀ lexeme, error.cause ≠ .notNumeral lexeme) ↔
        ¬ ∃ tree, IsExpression tokens tree) := by
  have haccepts (tree : Expr) : parse tokens = .ok tree ↔ IsExpression tokens tree :=
    parseWithin_eq_ok_iff hnumerals (hnests.mono le_nestingLimit)
  refine ⟨haccepts, ?_, ?_, ?_⟩
  · intro tree other htree hother
    exact Except.ok.inj (((haccepts tree).mpr htree).symm.trans ((haccepts other).mpr hother))
  · intro hrejected haccepted
    obtain ⟨error, herror, _⟩ := hrejected
    obtain ⟨tree, htree⟩ := haccepted
    cases herror.symm.trans ((haccepts tree).mpr htree)
  · intro hnone
    cases hparse : parse tokens with
    | ok tree => exact absurd ⟨tree, (haccepts tree).mp hparse⟩ hnone
    | error error =>
        obtain ⟨seen, stop, _, hrejects, rfl⟩ := rejects_of_parseWithin hnumerals hparse
        exact ⟨_, rfl, hrejects.cause_ne_notNumeral⟩

theorem isExpression_product_behind_assignment :
    let tokens : List Token :=
      [⟨.name, "a"⟩, ⟨.equals, "="⟩, ⟨.number, "007"⟩, ⟨.semicolon, ";"⟩, ⟨.opening, "("⟩,
        ⟨.name, "a"⟩, ⟨.minus, "-"⟩, ⟨.number, "1"⟩, ⟨.minus, "-"⟩, ⟨.number, "2"⟩,
        ⟨.closing, ")"⟩, ⟨.star, "*"⟩, ⟨.name, "a"⟩]
    let difference : Expr := .binary .sub (.binary .sub (.var "a") (.lit 1)) (.lit 2)
    Numerals tokens ∧ NestsWithin 110 tokens ∧
      IsExpression tokens (.seq (.assign "a" (.lit 7)) (.binary .mul difference (.var "a"))) := by
  intro tokens difference
  have hnumerals : Numerals tokens := by decide
  have hnests : NestsWithin 110 tokens := by decide +kernel
  obtain ⟨haccepts, _⟩ := parse_eq_ok_iff_isExpression tokens hnumerals hnests
  exact ⟨hnumerals, hnests, (haccepts _).mp (by decide +kernel)⟩

end Abacus
