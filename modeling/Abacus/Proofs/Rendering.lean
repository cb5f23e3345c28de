import Abacus.Expr.Render
import Abacus.Proofs.Parsing
import Abacus.Proofs.Scanning

namespace Abacus

open Text Grammar

namespace Expr

/-- A tree that a text can spell: there are no signs, and names are made of letters. -/
def IsLegible : Expr → Prop
  | lit value => 0 ≤ value ∧ value < magnitudeBound
  | var name => Token.IsName name
  | assign name value => Token.IsName name ∧ value.IsLegible
  | binary _ left right => left.IsLegible ∧ right.IsLegible
  | seq first second => first.IsLegible ∧ second.IsLegible
  | stray _ => False

instance decidableIsLegible : DecidablePred IsLegible
  | lit value => inferInstanceAs (Decidable (0 ≤ value ∧ value < magnitudeBound))
  | var name => inferInstanceAs (Decidable (Token.IsName name))
  | assign _ value =>
      have := decidableIsLegible value
      inferInstanceAs (Decidable (_ ∧ _))
  | binary _ left right =>
      have := decidableIsLegible left
      have := decidableIsLegible right
      inferInstanceAs (Decidable (_ ∧ _))
  | seq first second =>
      have := decidableIsLegible first
      have := decidableIsLegible second
      inferInstanceAs (Decidable (_ ∧ _))
  | stray _ => inferInstanceAs (Decidable False)

end Expr

def Operator.token : Operator → Token
  | add => ⟨.plus, "+"⟩
  | sub => ⟨.minus, "-"⟩
  | mul => ⟨.star, "*"⟩
  | div => ⟨.slash, "/"⟩

def Token.enclose (inner : List Token) : List Token :=
  ⟨.opening, "("⟩ :: (inner ++ [⟨.closing, ")"⟩])

namespace Expr

open Token (enclose)

def tokens : Expr → List Token
  | lit value => [⟨.number, toString value⟩]
  | var name => [⟨.name, name⟩]
  | assign name value => enclose (⟨.name, name⟩ :: ⟨.equals, "="⟩ :: value.tokens)
  | binary op left right => enclose (left.tokens ++ op.token :: right.tokens)
  | seq first second => enclose (first.tokens ++ ⟨.semicolon, ";"⟩ :: second.tokens)
  | stray _ => []

theorem scan_symbol (op : Operator) (rest : List Char) :
    Token.scan (op.symbol.toList ++ rest) = (op.token :: ·) <$> Token.scan rest := by
  cases op <;> exact Token.scan_mark rfl rest

theorem scan_render {tree : Expr} (h : tree.IsLegible) {rest : List Char}
    (hrest : ∀ c ∈ rest.head?, c.isAlphanum = false) :
    Token.scan (tree.render.toList ++ rest) = (tree.tokens ++ ·) <$> Token.scan rest := by
  induction tree generalizing rest with
  | lit value =>
      obtain ⟨n, rfl⟩ := Int.eq_ofNat_of_zero_le h.1
      exact Token.scan_numeral_append (isNumeral_toString n) fun c hc =>
        (Bool.or_eq_false_iff.mp (hrest c hc)).2
  | var name =>
      exact Token.scan_name_append h fun c hc => (Bool.or_eq_false_iff.mp (hrest c hc)).1
  | assign name value ih =>
      have htext : (assign name value).render.toList ++ rest =
          '(' :: (name.toList ++ ' ' :: '=' :: ' ' :: (value.render.toList ++ ')' :: rest)) := by
        simp [render]
      rw [htext, Token.scan_mark rfl, Token.scan_name_append h.1 (by simp), Token.scan_space,
        Token.scan_mark rfl, Token.scan_space, ih h.2 (by simp), Token.scan_mark rfl]
      simp [tokens, enclose]
  | binary op left right ihLeft ihRight =>
      have htext : (binary op left right).render.toList ++ rest =
          '(' :: (left.render.toList ++ ' ' :: (op.symbol.toList ++
            ' ' :: (right.render.toList ++ ')' :: rest))) := by
        simp [render]
      rw [htext, Token.scan_mark rfl, ihLeft h.1 (by simp), Token.scan_space, scan_symbol,
        Token.scan_space, ihRight h.2 (by simp), Token.scan_mark rfl]
      simp [tokens, enclose]
  | seq first second ihFirst ihSecond =>
      have htext : (seq first second).render.toList ++ rest =
          '(' :: (first.render.toList ++ ';' :: ' ' :: (second.render.toList ++ ')' :: rest)) := by
        simp [render]
      rw [htext, Token.scan_mark rfl, ihFirst h.1 (by simp), Token.scan_mark rfl,
        Token.scan_space, ihSecond h.2 (by simp), Token.scan_mark rfl]
      simp [tokens, enclose]
  | stray item => exact h.elim

theorem tokenize_render {tree : Expr} (h : tree.IsLegible) :
    tokenize tree.render = .ok tree.tokens := by
  have hscan := @scan_render tree h [] (by simp)
  rw [List.append_nil, Token.scan] at hscan
  apply tokenize_eq_ok_iff.mpr
  exact hscan.trans (congrArg Except.ok (List.append_nil tree.tokens))

theorem derives_operation (op : Operator) {left right : List Token} {first second : Expr}
    (hleft : Derives .term left first) (hright : Derives .term right second) :
    IsExpression (left ++ op.token :: right) (.binary op first second) := by
  cases op with
  | add => exact (Derives.chain rfl .plus (hleft.of_term _) (hright.of_term _)).sequence
  | sub => exact (Derives.chain rfl .minus (hleft.of_term _) (hright.of_term _)).sequence
  | mul => exact (Derives.chain rfl .star (hleft.of_term _) (hright.of_term _)).sequence
  | div => exact (Derives.chain rfl .slash (hleft.of_term _) (hright.of_term _)).sequence

theorem derives_tokens {tree : Expr} (h : tree.IsLegible) : Derives .term tree.tokens tree := by
  induction tree with
  | lit value =>
      obtain ⟨n, rfl⟩ := Int.eq_ofNat_of_zero_le h.1
      have hshort : (toString n).length ≤ maxDigits :=
        (length_toString_le_maxDigits_iff n).mpr (Int.ofNat_lt.mp h.2)
      have hnumber := Derives.number (isNumeral_toString n) hshort
      rwa [numeralValue_toString] at hnumber
  | var name => exact .name
  | assign name value ih =>
      apply Derives.parenthesis
      exact (Derives.assign ((ih h.2).of_term .addition)).sequence
  | binary op left right ihLeft ihRight =>
      apply Derives.parenthesis
      exact derives_operation op (ihLeft h.1) (ihRight h.2)
  | seq first second ihFirst ihSecond =>
      apply Derives.parenthesis
      exact .chain rfl .semicolon ((ihFirst h.1).of_term _) ((ihSecond h.2).of_term _)
  | stray item => exact h.elim

theorem nestsWithin_enclose {tree : Expr} {inner : List Token} {depth : Nat}
    (h : NestsWithin depth inner) (hderives : Derives .term (enclose inner) tree) :
    NestsWithin (depth + 1) (enclose inner) := by
  apply h.enclose
  have hbalance := hderives.balanced.total
  rwa [enclose, balance_enclose] at hbalance

theorem nestsWithin_join {left right : List Token} {token : Token} {leftDepth rightDepth : Nat}
    (htoken : balance [token] = 0) (hbalance : balance left = 0)
    (hleft : NestsWithin leftDepth left) (hright : NestsWithin rightDepth right) :
    NestsWithin (max leftDepth rightDepth) (left ++ token :: right) :=
  (hleft.mono (Nat.le_max_left _ _)).join hbalance htoken (hright.mono (Nat.le_max_right _ _))

theorem nestsWithin_tokens {tree : Expr} (h : tree.IsLegible) :
    NestsWithin tree.height tree.tokens := by
  induction tree with
  | lit value => exact .singleton (Int.le_refl 0)
  | var name => exact .singleton (Int.le_refl 0)
  | assign name value ih =>
      apply nestsWithin_enclose _ (derives_tokens h)
      have hname : NestsWithin value.height [⟨.name, name⟩] := .singleton (Int.le_refl 0)
      have hinner := @nestsWithin_join _ _ ⟨.equals, "="⟩ _ _ rfl rfl hname (ih h.2)
      rwa [Nat.max_self] at hinner
  | binary op left right ihLeft ihRight =>
      apply nestsWithin_enclose _ (derives_tokens h)
      have hop : balance [op.token] = 0 := by cases op <;> rfl
      exact nestsWithin_join hop (derives_tokens h.1).balanced.total (ihLeft h.1) (ihRight h.2)
  | seq first second ihFirst ihSecond =>
      apply nestsWithin_enclose _ (derives_tokens h)
      exact nestsWithin_join rfl (derives_tokens h.1).balanced.total (ihFirst h.1) (ihSecond h.2)
  | stray item => exact h.elim

theorem parse_tokens [Limits] {tree : Expr} (h : tree.IsLegible) (hheight : tree.height ≤ 110) :
    parse tree.tokens = .ok tree := by
  have hderives := (derives_tokens h).sequence
  have hnests : NestsWithin 110 tree.tokens := (nestsWithin_tokens h).mono hheight
  exact (parse_eq_ok_iff hderives.numerals hnests).mpr hderives

end Expr

def read? [Limits] (code : String) : Option Expr := do
  let tokens ← (tokenize code).toOption
  (parse tokens).toOption

theorem read?_eq_some_iff [Limits] {code : String} {tree : Expr} :
    read? code = some tree ↔ ∃ tokens, tokenize code = .ok tokens ∧ parse tokens = .ok tree := by
  unfold read?
  cases tokenize code with
  | error _ => simp [Except.toOption]
  | ok tokens => cases htree : parse tokens <;> simp [Except.toOption, htree]

theorem numerals_of_tokenize {code : String} {tokens : List Token}
    (h : tokenize code = .ok tokens) : Numerals tokens := by
  intro token htoken hnumber
  have hlexeme := isWellFormed_of_tokenize h token htoken
  rwa [Token.IsWellFormed, hnumber] at hlexeme

theorem isLegible_join {level : Level} {kind : Token.Kind} {join : Expr → Expr → Expr}
    {first second : Expr} (h : Infix level kind join)
    (hfirst : first.IsLegible) (hsecond : second.IsLegible) : (join first second).IsLegible := by
  cases h <;> exact ⟨hfirst, hsecond⟩

theorem Grammar.Derives.isLegible {level : Level} {tokens : List Token} {tree : Expr}
    (h : Derives level tokens tree) (htokens : ∀ token ∈ tokens, token.IsWellFormed) :
    tree.IsLegible := by
  induction h with
  | @number lexeme hnumeral hshort =>
      have hlt := numeralValue_lt_magnitudeBound hnumeral hshort
      exact ⟨Int.natCast_nonneg _, Int.ofNat_lt.mpr hlt⟩
  | name => exact htokens _ List.mem_cons_self
  | parenthesis _ ih =>
      apply ih
      intro token htoken
      exact htokens token (List.mem_cons_of_mem _ (List.mem_append_left _ htoken))
  | lift _ _ ih => exact ih htokens
  | chain _ hinfix _ _ ihLeft ihRight =>
      have hleft := ihLeft fun token htoken => htokens token (List.mem_append_left _ htoken)
      have hright := ihRight fun token htoken =>
        htokens token (List.mem_append_right _ (List.mem_cons_of_mem _ htoken))
      exact isLegible_join hinfix hleft hright
  | assign _ ih =>
      constructor
      · exact htokens _ List.mem_cons_self
      · exact ih fun token htoken =>
          htokens token (List.mem_cons_of_mem _ (List.mem_cons_of_mem _ htoken))

theorem isLegible_of_read? [Limits] {code : String} {tree : Expr} (h : read? code = some tree) :
    tree.IsLegible := by
  obtain ⟨tokens, htokens, htree⟩ := read?_eq_some_iff.mp h
  have htakes := takes_of_parseWithin (numerals_of_tokenize htokens) htree
  exact htakes.derives.isLegible (isWellFormed_of_tokenize htokens)

theorem read?_render [Limits] {tree : Expr} (h : tree.IsLegible) (hheight : tree.height ≤ 110) :
    read? tree.render = some tree :=
  read?_eq_some_iff.mpr ⟨tree.tokens, Expr.tokenize_render h, Expr.parse_tokens h hheight⟩

/-- A rendering reads back as the tree that was rendered. All that is ever read can be rendered,
and rendering it gives a text that reading and rendering leave as it is. -/
theorem reading_undoes_rendering [Limits] :
    (∀ tree : Expr, tree.IsLegible → tree.height ≤ 110 →
      ∃ tokens, tokenize tree.render = .ok tokens ∧ parse tokens = .ok tree) ∧
    (∀ code tree, read? code = some tree →
      tree.IsLegible ∧
        (tree.height ≤ 110 → read? tree.render = some tree ∧
          (read? tree.render).map Expr.render = some tree.render)) := by
  constructor
  · intro tree h hheight
    exact ⟨tree.tokens, Expr.tokenize_render h, Expr.parse_tokens h hheight⟩
  · intro code tree hread
    have h := isLegible_of_read? hread
    refine ⟨h, fun hheight => ?_⟩
    have hagain := read?_render h hheight
    exact ⟨hagain, by rw [hagain, Option.map_some]⟩

theorem reading_undoes_rendering_assigned_sequence :
    let value : Expr := .seq (.assign "b" (.lit 2)) (.binary .sub (.lit 10) (.var "b"))
    let tree : Expr := .binary .mul (.assign "a" value) (.binary .div (.var "a") (.lit 3))
    let code := "((a = ((b = 2); (10 - b))) * (a / 3))"
    tree.render = code ∧ tree.IsLegible ∧ tree.height ≤ 110 ∧ read? code = some tree ∧
      (read? code).map Expr.render = some code := by
  intro value tree code
  have hcode : tree.render = code := by decide +kernel
  have hlegible : tree.IsLegible := by decide +kernel
  have hheight : tree.height ≤ 110 := by decide
  obtain ⟨hrendering, hreading⟩ := reading_undoes_rendering
  have hread : read? code = some tree := by
    rw [← hcode]
    exact read?_eq_some_iff.mpr (hrendering tree hlegible hheight)
  have hagain := ((hreading code tree hread).2 hheight).2
  rw [hcode] at hagain
  exact ⟨hcode, hlegible, hheight, hread, hagain⟩

end Abacus
