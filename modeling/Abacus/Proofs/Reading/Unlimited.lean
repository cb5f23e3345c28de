import Abacus.Reader.Grammar

namespace Abacus

namespace Reader

def AgreeUpTo (length : Nat) (reader other : Reader) : Prop :=
  ∀ tokens : List Token, tokens.length ≤ length → reader.read tokens = other.read tokens

namespace AgreeUpTo

variable {length : Nat} {reader other : Reader}

theorem goOn (h : AgreeUpTo length reader other) (join : Joiner) {tree : Expr}
    {tokens : List Token} (htokens : tokens.length ≤ length) :
    Reader.goOn join reader tree tokens = Reader.goOn join other tree tokens := by
  induction tree, tokens using goOn.induct join reader with
  | case1 tree => rw [goOn_nil, goOn_nil]
  | case2 tree token rest hjoin => rw [goOn_cons, goOn_cons, hjoin]
  | case3 tree token rest joined hjoin stop hread =>
      rw [goOn_cons, goOn_cons, hjoin, ← h rest (Nat.le_of_succ_le htokens), hread]
      rfl
  | case4 tree token rest joined hjoin right rest' hread ih =>
      have hrest := Nat.le_trans (Nat.le_of_lt (reader.shortens hread)) (Nat.le_of_succ_le htokens)
      rw [goOn_cons, goOn_cons, hjoin, ← h rest (Nat.le_of_succ_le htokens), hread]
      exact ih hrest

theorem chain (h : AgreeUpTo length reader other) (join : Joiner) :
    AgreeUpTo length (Reader.chain join reader) (Reader.chain join other) := by
  intro tokens htokens
  simp only [Reader.chain, ← h tokens htokens]
  cases hread : reader.read tokens with
  | error stop => rfl
  | ok first =>
      have hrest := Nat.le_trans (Nat.le_of_lt (reader.shortens hread)) htokens
      exact h.goOn join hrest

theorem sequence (h : AgreeUpTo length reader other) :
    AgreeUpTo length (Reader.sequence reader) (Reader.sequence other) := by
  have haddition : AgreeUpTo length (addition reader) (addition other) := (h.chain _).chain _
  apply AgreeUpTo.chain
  intro tokens htokens
  simp only [assignment]
  unfold readAssignment
  split
  · rw [haddition _ (Nat.le_of_succ_le (Nat.le_of_succ_le htokens))]
  · exact haddition _ htokens

theorem atom (h : AgreeUpTo length reader other) :
    AgreeUpTo (length + 1) (Reader.atom reader) (Reader.atom other) := by
  intro tokens htokens
  simp only [Reader.atom]
  unfold readAtom
  split
  · rfl
  · rfl
  · rfl
  · rw [h _ (Nat.le_of_succ_le_succ htokens)]
  · rfl

end AgreeUpTo

theorem read_term_nil (depth : Nat) : (term depth).read [] = .error ⟨.noOperand, []⟩ := by
  cases depth <;> rfl

theorem term_agreeUpTo {length depth deeper : Nat} (hdepth : length ≤ depth)
    (hdeeper : length ≤ deeper) : AgreeUpTo length (term depth) (term deeper) := by
  induction length generalizing depth deeper with
  | zero =>
      intro tokens htokens
      obtain rfl := List.eq_nil_of_length_eq_zero (Nat.eq_zero_of_le_zero htokens)
      rw [read_term_nil, read_term_nil]
  | succ length ih =>
      obtain ⟨depth, rfl⟩ := Nat.exists_eq_add_one_of_ne_zero (Nat.ne_zero_of_lt hdepth)
      obtain ⟨deeper, rfl⟩ := Nat.exists_eq_add_one_of_ne_zero (Nat.ne_zero_of_lt hdeeper)
      exact (ih (Nat.le_of_succ_le_succ hdepth) (Nat.le_of_succ_le_succ hdeeper)).sequence.atom

/-- A term, inside of which any number of parentheses may be open at once. There are never more
than there are tokens. -/
def unlimitedTerm : Reader where
  read tokens := (term tokens.length).read tokens
  shortens h := (term _).shortens h

theorem unlimitedTerm_agreeUpTo (depth : Nat) : AgreeUpTo depth (term depth) unlimitedTerm :=
  fun _ htokens => term_agreeUpTo htokens (Nat.le_refl _) _ (Nat.le_refl _)

/-- Between parentheses, an unlimited sequence is read by the same rules as a limited one. -/
theorem read_unlimitedTerm (tokens : List Token) :
    unlimitedTerm.read tokens = (atom (sequence unlimitedTerm)).read tokens := by
  rw [← unlimitedTerm_agreeUpTo (tokens.length + 1) tokens (Nat.le_succ _)]
  exact (unlimitedTerm_agreeUpTo tokens.length).sequence.atom tokens (Nat.le_succ _)

end Reader

def parseBy (term : Reader) (tokens : List Token) : Except ParseError Expr :=
  match (Reader.sequence term).read tokens with
  | .error stop => .error (stop.toError tokens)
  | .ok (tree, []) => .ok tree
  | .ok (_, token :: rest) => .error ((Stop.mk (.leftOver token) (token :: rest)).toError tokens)

theorem parseWithin_eq_parseBy (depth : Nat) : parseWithin depth = parseBy (.term depth) := rfl

def parseUnlimited : List Token → Except ParseError Expr :=
  parseBy .unlimitedTerm

theorem parseWithin_eq_parseUnlimited {depth : Nat} {tokens : List Token}
    (h : tokens.length ≤ depth) : parseWithin depth tokens = parseUnlimited tokens := by
  have hread := (Reader.unlimitedTerm_agreeUpTo depth).sequence tokens h
  rw [parseWithin_eq_parseBy, parseUnlimited, parseBy, parseBy, hread]

end Abacus
