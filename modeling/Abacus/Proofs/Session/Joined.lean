import Abacus.Proofs.Session

namespace Abacus

open Grammar

namespace Session

/-- One text after another is calculated, up to the first that fails. -/
def inTurn [Limits] (env : Environment) (code : String) : List String → Outcome × Environment
  | [] => calculate code env
  | next :: codes =>
      match calculate code env with
      | (.ok _, env') => inTurn env' next codes
      | (.error error, env') => (.error error, env')

end Session

/-- The text is an expression by itself, with no more than 110 parentheses open at once and no
more than `depth` right sides inside of each other. -/
def ReadsWithin [Limits] (depth : Nat) (code : String) : Prop :=
  ∃ tokens tree, tokenize code = .ok tokens ∧ parse tokens = .ok tree ∧
    NestsWithin 110 tokens ∧ tree.nesting ≤ depth

theorem readsWithin_iff [Limits] {depth : Nat} {code : String} {tokens : List Token} {tree : Expr}
    (htokens : tokenize code = .ok tokens) (htree : parse tokens = .ok tree) :
    ReadsWithin depth code ↔ NestsWithin 110 tokens ∧ tree.nesting ≤ depth := by
  constructor
  · intro h
    obtain ⟨other, same, hother, hsame, hbounds⟩ := h
    cases htokens.symm.trans hother
    cases htree.symm.trans hsame
    exact hbounds
  · intro h
    exact ⟨tokens, tree, htokens, htree, h⟩

instance [Limits] (depth : Nat) (code : String) : Decidable (ReadsWithin depth code) :=
  match htokens : tokenize code with
  | .error _ => .isFalse fun ⟨_, _, h, _⟩ => nomatch htokens.symm.trans h
  | .ok tokens =>
      match htree : parse tokens with
      | .error _ => .isFalse fun ⟨_, _, h, h', _⟩ => by
          cases htokens.symm.trans h
          cases htree.symm.trans h'
      | .ok _ => decidable_of_iff _ (readsWithin_iff htokens htree).symm

theorem ReadsWithin.mono [Limits] {depth deeper : Nat} {code : String} (h : ReadsWithin depth code)
    (hle : depth ≤ deeper) : ReadsWithin deeper code := by
  obtain ⟨tokens, tree, htokens, htree, hnests, hdepth⟩ := h
  exact ⟨tokens, tree, htokens, htree, hnests, Nat.le_trans hdepth hle⟩

/-- Behind a semicolon a sequence goes on with the parts of another one, each as a part of its
own, which changes neither what is done nor in which order. -/
theorem Grammar.Derives.exists_joined {first second : List Token} {one two : Expr}
    (hfirst : Derives .sequence first one) (hsecond : Derives .sequence second two) :
    ∃ tree, IsExpression (first ++ ⟨.semicolon, ";"⟩ :: second) tree ∧
      tree.nesting ≤ max one.nesting (two.nesting + 1) ∧
      tree.inOrder = one.inOrder >>= fun _ => two.inOrder := by
  generalize hlevel : Level.sequence = level at hsecond
  induction hsecond with
  | number | name | parenthesis | assign => cases hlevel
  | lift htighter hpart =>
      subst hlevel
      cases htighter
      exact ⟨_, .chain rfl .semicolon hfirst hpart, Nat.le_refl _, rfl⟩
  | @chain _ _ left right token part last join htighter hinfix hleft hright ihLeft _ =>
      subst hlevel
      obtain ⟨tree, htree, hnesting, hinOrder⟩ := ihLeft rfl
      have hchain := Derives.chain htighter hinfix htree hright
      cases htighter
      cases token
      cases hinfix
      refine ⟨_, by simpa using hchain, ?_, ?_⟩
      · simp only [Expr.nesting] at hnesting ⊢
        omega
      · simp [Expr.inOrder, hinOrder]

theorem tokenize_joined {first second : String} {front back : List Token}
    (hfirst : tokenize first = .ok front) (hsecond : tokenize second = .ok back) :
    tokenize (first ++ ";" ++ second) = .ok (front ++ ⟨.semicolon, ";"⟩ :: back) := by
  rw [tokenize_eq_ok_iff] at hfirst hsecond ⊢
  have htext : (first ++ ";" ++ second).toList = first.toList ++ ';' :: second.toList := by simp
  rw [htext, Token.scan_append hfirst (.of_head (by simp)), Token.scan_mark rfl, hsecond]
  rfl

theorem calculate_joined_pair [Limits] {first second : String} (hfirst : ReadsWithin 100 first)
    (hsecond : ReadsWithin 99 second) :
    ReadsWithin 100 (first ++ ";" ++ second) ∧
      ∀ env, calculate (first ++ ";" ++ second) env = Session.inTurn env first [second] := by
  obtain ⟨front, one, hfront, hone, hnestsFront, hdepthOne⟩ := hfirst
  obtain ⟨back, two, hback, htwo, hnestsBack, hdepthTwo⟩ := hsecond
  have hderivesOne := (takes_of_parseWithin (numerals_of_tokenize hfront) hone).derives
  have hderivesTwo := (takes_of_parseWithin (numerals_of_tokenize hback) htwo).derives
  obtain ⟨tree, hderives, hdepth, hinOrder⟩ := hderivesOne.exists_joined hderivesTwo
  have hnests : NestsWithin 110 (front ++ ⟨.semicolon, ";"⟩ :: back) :=
    hnestsFront.join hderivesOne.balanced.total rfl hnestsBack
  have htokens := tokenize_joined hfront hback
  have htree := (parse_eq_ok_iff hderives.numerals hnests).mpr hderives
  refine ⟨⟨_, tree, htokens, htree, hnests, by omega⟩, fun env => ?_⟩
  have hlimit := Expr.le_depthLimit
  rw [calculate_of_parse htokens htree, Expr.evaluate_eq_outcome (by omega), hinOrder,
    Run.outcome_bind, Session.inTurn, calculate_of_parse hfront hone,
    Expr.evaluate_eq_outcome (by omega)]
  rcases one.inOrder.outcome env with ⟨fault | value, env'⟩
  · rfl
  · change _ = calculate second env'
    rw [calculate_of_parse hback htwo, Expr.evaluate_eq_outcome (by omega)]

theorem Session.inTurn_of_pair [Limits] {first second joined : String} {env : Environment}
    (h : calculate joined env = inTurn env first [second]) (codes : List String) :
    inTurn env joined codes = inTurn env first (second :: codes) := by
  cases codes with
  | nil => exact h
  | cons next codes =>
      rw [inTurn, h, inTurn, inTurn]
      rcases calculate first env with ⟨error | value, env'⟩
      · rfl
      · rfl

theorem calculate_joined_of_readsWithin [Limits] {code : String} {codes : List String}
    (hcode : ReadsWithin 100 code) (hcodes : ∀ other ∈ codes, ReadsWithin 99 other)
    (env : Environment) :
    calculate (";".intercalate (code :: codes)) env = Session.inTurn env code codes := by
  -- What has been joined already may be one deeper than the texts that are still to come.
  induction codes generalizing code with
  | nil => rw [String.intercalate_singleton, Session.inTurn]
  | cons next codes ih =>
      obtain ⟨hnext, hrest⟩ := List.forall_mem_cons.mp hcodes
      obtain ⟨hpair, hturn⟩ := calculate_joined_pair hcode hnext
      have htext : ";".intercalate (code :: next :: codes) =
          ";".intercalate ((code ++ ";" ++ next) :: codes) := by
        cases codes <;> simp [String.append_assoc]
      rw [htext, ih hpair hrest]
      exact Session.inTurn_of_pair (hturn env) codes

/-- A text that is joined of others by semicolons comes to what they come to in turn, and leaves
the same environment. -/
theorem calculate_joined [Limits] (code : String) (codes : List String)
    (h : ∀ other ∈ code :: codes, ReadsWithin 99 other) (env : Environment) :
    calculate (";".intercalate (code :: codes)) env = Session.inTurn env code codes := by
  obtain ⟨hcode, hcodes⟩ := List.forall_mem_cons.mp h
  exact calculate_joined_of_readsWithin (hcode.mono (by decide)) hcodes env

theorem calculate_joined_stops_at_division :
    let codes := ["z = y - 7; z / (x - y)", "w = 1"]
    (∀ other ∈ "x = 2; (y = x) * 3" :: codes, ReadsWithin 99 other) ∧
      calculate "x = 2; (y = x) * 3;z = y - 7; z / (x - y);w = 1" .empty =
        Session.inTurn .empty "x = 2; (y = x) * 3" codes ∧
      Session.inTurn .empty "x = 2; (y = x) * 3" codes =
        (.error (.fault .divisionByZero), .ofList [("x", 2), ("y", 2), ("z", -5)]) := by
  intro codes
  have hreads : ∀ other ∈ "x = 2; (y = x) * 3" :: codes, ReadsWithin 99 other := by
    decide +kernel
  exact ⟨hreads, calculate_joined _ codes hreads .empty, by decide +kernel⟩

end Abacus
