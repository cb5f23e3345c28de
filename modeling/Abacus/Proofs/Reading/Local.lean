import Abacus.Proofs.Reading.Exact

namespace Abacus.Grammar

open Text

/-! What is made of the tokens that a reader takes is settled by them and by the kind of the next
one. That holds for tokens of any kind, also where the lexemes of numbers are no numerals. -/

def Level.rank : Level → Nat
  | term => 0
  | multiplication => 1
  | addition => 2
  | assignment => 3
  | sequence => 4

theorem Level.rank_eq {level tighter : Level} (htighter : level.tighter? = some tighter) :
    level.rank = tighter.rank + 1 := by
  cases level <;> cases htighter <;> rfl

theorem Level.rank_injective {level other : Level} (h : level.rank = other.rank) :
    level = other := by
  cases level <;> cases other <;> first | rfl | cases h

/-- What comes next is an operator neither of the level nor of a tighter one. An equals sign is
none of any level: it stands behind a name, not between operands. -/
def Level.Ends (level : Level) (next : Option Token.Kind) : Prop :=
  ∀ other : Level, other.rank ≤ level.rank → other.Completes next

theorem Level.Ends.loosen {level tighter : Level} {next : Option Token.Kind}
    (h : tighter.Ends next) (htighter : level.tighter? = some tighter)
    (hcompletes : level.Completes next) : level.Ends next := by
  intro other hother
  rcases Nat.lt_or_eq_of_le hother with hlt | heq
  · rw [Level.rank_eq htighter] at hlt
    exact h other (Nat.le_of_lt_succ hlt)
  · rw [Level.rank_injective heq]
    exact hcompletes

theorem Level.ends_term (next : Option Token.Kind) : Level.term.Ends next := by
  intro other hother
  have hterm : other = .term := Level.rank_injective (Nat.le_zero.mp hother)
  subst hterm
  exact fun _ _ _ => nofun

/-- Of what stands behind the tokens that are taken, the kind of the first alone matters. -/
structure Local (level : Level) (read : List Token → Except Stop (Expr × List Token)) :
    Prop where
  split : ∀ {tokens rest : List Token} {tree : Expr}, read tokens = .ok (tree, rest) →
    ∃ taken, tokens = taken ++ rest ∧ level.Ends (lookahead rest) ∧
      ∀ other, lookahead other = lookahead rest → read (taken ++ other) = .ok (tree, other)

theorem lookahead_append {rest other : List Token} (h : lookahead other = lookahead rest)
    (front : List Token) : lookahead (front ++ other) = lookahead (front ++ rest) := by
  cases front with
  | nil => exact h
  | cons token front => rfl

section Chain

open Reader

variable {depth : Nat} {level tighter : Level}

theorem local_goOn (htighter : level.tighter? = some tighter)
    (operand : Local tighter (tighter.reader depth).read) {tokens rest : List Token}
    {tree result : Expr} (hends : tighter.Ends (lookahead tokens))
    (h : goOn level.joiner (tighter.reader depth) tree tokens = .ok (result, rest)) :
    ∃ more, tokens = more ++ rest ∧ level.Ends (lookahead rest) ∧
      ∀ other, lookahead other = lookahead rest →
        goOn level.joiner (tighter.reader depth) tree (more ++ other) = .ok (result, other) := by
  induction tree, tokens using goOn.induct level.joiner (tighter.reader depth) with
  | case1 tree =>
      cases (goOn_nil _ _ tree).symm.trans h
      have hcompletes := Level.completes_none level
      refine ⟨[], rfl, hends.loosen htighter hcompletes, fun other hother => ?_⟩
      exact goOn_eq_ok_of_completes (hother ▸ hcompletes)
  | case2 tree token following hjoin =>
      rw [goOn_cons, hjoin] at h
      cases h
      have hcompletes := Level.completes_iff_joiner.mpr hjoin
      refine ⟨[], rfl, hends.loosen htighter hcompletes, fun other hother => ?_⟩
      exact goOn_eq_ok_of_completes (hother ▸ hcompletes)
  | case3 tree token following join hjoin stop hread =>
      rw [goOn_cons, hjoin, hread] at h
      cases h
  | case4 tree token following join hjoin right rest' hread ih =>
      rw [goOn_cons, hjoin, hread] at h
      obtain ⟨taken, rfl, hends', hright⟩ := operand.split hread
      obtain ⟨more, rfl, hend, hmore⟩ := ih hends' h
      refine ⟨token :: (taken ++ more), by simp, hend, fun other hother => ?_⟩
      rw [List.cons_append, List.append_assoc, goOn_cons, hjoin,
        hright _ (lookahead_append hother more)]
      exact hmore other hother

theorem Local.chain (hlevel : level ≠ .assignment) (htighter : level.tighter? = some tighter)
    (operand : Local tighter (tighter.reader depth).read) :
    Local level (level.reader depth).read := by
  constructor
  intro tokens rest tree h
  rw [Level.read_chain hlevel htighter] at h
  obtain ⟨⟨first, following⟩, hfirst, hgoOn⟩ := bind_eq_ok.mp h
  obtain ⟨taken, rfl, hends, hoperand⟩ := operand.split hfirst
  obtain ⟨more, rfl, hend, hmore⟩ := local_goOn htighter operand hends hgoOn
  refine ⟨taken ++ more, (List.append_assoc _ _ _).symm, hend, fun other hother => ?_⟩
  rw [Level.read_chain hlevel htighter, List.append_assoc,
    hoperand _ (lookahead_append hother more)]
  exact hmore other hother

end Chain

section Assignment

def Assigns (tokens : List Token) : Prop :=
  (tokens.take 2).map Token.kind = [.name, .equals]

instance (tokens : List Token) : Decidable (Assigns tokens) :=
  inferInstanceAs (Decidable (_ = _))

theorem readAssignment_of_not_assigns {value : Reader} {tokens : List Token}
    (h : ¬ Assigns tokens) : Reader.readAssignment value tokens = value.read tokens := by
  unfold Reader.readAssignment
  split
  · exact absurd rfl h
  · rfl

theorem eq_cons_of_assigns {tokens : List Token} (h : Assigns tokens) :
    ∃ name equals rest, tokens = ⟨.name, name⟩ :: ⟨.equals, equals⟩ :: rest := by
  match tokens with
  | [] => cases h
  | [_] => simp [Assigns] at h
  | ⟨first, name⟩ :: ⟨second, equals⟩ :: rest =>
      obtain ⟨rfl, rfl⟩ : first = .name ∧ second = .equals := by simpa [Assigns] using h
      exact ⟨name, equals, rest, rfl⟩

theorem assigns_append_iff {taken rest other : List Token} (htaken : taken ≠ [])
    (h : lookahead other = lookahead rest) :
    Assigns (taken ++ other) ↔ Assigns (taken ++ rest) := by
  match taken, htaken with
  | [token], _ => cases rest <;> cases other <;> simp_all [Assigns, lookahead]
  | first :: second :: taken, _ => exact Iff.rfl

theorem local_readAssignment {value : Reader} (hvalue : Local .addition value.read) :
    Local .assignment (Reader.readAssignment value) := by
  constructor
  intro tokens rest tree h
  have hcompletes : Level.assignment.Completes (lookahead rest) := fun _ _ _ => nofun
  by_cases hassigns : Assigns tokens
  · obtain ⟨name, equals, following, rfl⟩ := eq_cons_of_assigns hassigns
    rw [Reader.readAssignment] at h
    obtain ⟨⟨read, rest'⟩, hread, htree⟩ := bind_eq_ok.mp h
    cases htree
    obtain ⟨taken, rfl, hends, htaken⟩ := hvalue.split hread
    refine ⟨_ :: _ :: taken, rfl, hends.loosen rfl hcompletes, fun other hother => ?_⟩
    rw [List.cons_append, List.cons_append, Reader.readAssignment, htaken other hother]
    rfl
  · rw [readAssignment_of_not_assigns hassigns] at h
    obtain ⟨taken, rfl, hends, htaken⟩ := hvalue.split h
    refine ⟨taken, rfl, hends.loosen rfl hcompletes, fun other hother => ?_⟩
    have hne : taken ≠ [] := by
      rintro rfl
      exact Nat.lt_irrefl _ (value.shortens h)
    rw [readAssignment_of_not_assigns (mt (assigns_append_iff hne hother).mp hassigns)]
    exact htaken other hother

end Assignment

theorem local_readAtom {inner : Reader} (hinner : Local .sequence inner.read) :
    Local .term (Reader.readAtom inner) := by
  constructor
  intro tokens rest tree h
  unfold Reader.readAtom at h
  split at h
  · cases h
  · next lexeme following =>
      split at h
      · cases h
      · next hshort =>
          split at h
          · next value hvalue =>
              cases h
              refine ⟨[_], rfl, Level.ends_term _, fun other _ => ?_⟩
              rw [List.singleton_append, Reader.readAtom, if_neg hshort, hvalue]
          · cases h
  · cases h
    exact ⟨[_], rfl, Level.ends_term _, fun other _ => rfl⟩
  · next opening following =>
      obtain ⟨⟨value, behind⟩, hread, hclose⟩ := bind_eq_ok.mp h
      obtain ⟨taken, rfl, _, htaken⟩ := hinner.split hread
      split at hclose
      · cases hclose
      · next closing _ hbehind =>
          cases hclose
          cases hbehind
          refine ⟨⟨.opening, opening⟩ :: (taken ++ [⟨.closing, closing⟩]), by simp,
            Level.ends_term _, fun other _ => ?_⟩
          rw [List.cons_append, List.append_assoc, List.singleton_append, Reader.readAtom,
            htaken (⟨.closing, closing⟩ :: other) rfl]
          rfl
      · cases hclose
  · cases h

theorem Local.of_inside {depth : Nat} (inner : Local .sequence (inside depth).read) :
    ∀ level : Level, Local level (level.reader depth).read := by
  have hterm : Local .term (Level.term.reader depth).read := by
    rw [funext (read_term depth)]
    exact local_readAtom inner
  have haddition : Local .addition (Level.addition.reader depth).read :=
    .chain nofun rfl (.chain nofun rfl hterm)
  have hassignment : Local .assignment (Level.assignment.reader depth).read :=
    local_readAssignment haddition
  intro level
  cases level with
  | term => exact hterm
  | multiplication => exact .chain nofun rfl hterm
  | addition => exact haddition
  | assignment => exact hassignment
  | sequence => exact .chain nofun rfl hassignment

theorem local_reader (depth : Nat) (level : Level) : Local level (level.reader depth).read := by
  induction depth generalizing level with
  | zero =>
      have hrefuse : Local .sequence (inside 0).read := ⟨fun h => nomatch h⟩
      exact hrefuse.of_inside level
  | succ depth ih =>
      have hinside : Local .sequence (inside (depth + 1)).read := ih .sequence
      exact hinside.of_inside level

end Abacus.Grammar
