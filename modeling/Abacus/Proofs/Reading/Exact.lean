import Abacus.Proofs.Reading.Halts
import Abacus.Proofs.Reading.Numeral

namespace Abacus.Grammar

open Text

/-- The lexemes of all numbers are numerals, as they are in tokens that were cut from a text. -/
def Numerals (tokens : List Token) : Prop :=
  ∀ token ∈ tokens, token.kind = .number → IsNumeral token.lexeme

instance (tokens : List Token) : Decidable (Numerals tokens) :=
  inferInstanceAs (Decidable (∀ token ∈ tokens, _))

theorem Derives.numbers {level : Level} {tokens : List Token} {tree : Expr}
    (h : Derives level tokens tree) : ∀ token ∈ tokens, token.kind = .number →
      IsNumeral token.lexeme ∧ token.lexeme.length ≤ maxDigits := by
  induction h with
  | number hnumeral hshort => simp [hnumeral, hshort]
  | name => simp
  | parenthesis _ ih => simpa [or_imp, forall_and] using ih
  | lift _ _ ih => exact ih
  | @chain _ _ left right token _ _ _ _ hinfix _ _ ihLeft ihRight =>
      have htoken : token.kind ≠ .number := by
        intro hnumber
        rw [hnumber] at hinfix
        cases hinfix
      intro other hother
      rcases List.mem_append.mp hother with hleft | hbehind
      · exact ihLeft other hleft
      · rcases List.mem_cons.mp hbehind with rfl | hright
        · intro hnumber
          exact absurd hnumber htoken
        · exact ihRight other hright
  | assign _ ih => simpa using ih

theorem Derives.numerals {level : Level} {tokens : List Token} {tree : Expr}
    (h : Derives level tokens tree) : Numerals tokens :=
  fun token htoken hnumber => (h.numbers token htoken hnumber).1

theorem Numerals.of_cons {token : Token} {tokens : List Token}
    (h : Numerals (token :: tokens)) : Numerals tokens :=
  fun other hother => h other (List.mem_cons_of_mem token hother)

theorem Numerals.of_append_right {left right : List Token}
    (h : Numerals (left ++ right)) : Numerals right :=
  fun token htoken => h token (List.mem_append_right left htoken)

namespace Level

def reader (depth : Nat) : Level → Reader
  | term => .term depth
  | multiplication => .multiplication (.term depth)
  | addition => .addition (.term depth)
  | assignment => .assignment (.term depth)
  | sequence => .sequence (.term depth)

def joiner : Level → Reader.Joiner
  | multiplication => Token.Kind.multiplicative?
  | addition => Token.Kind.additive?
  | sequence => Token.Kind.sequencing?
  | _ => fun _ => none

theorem joiner_eq_some_iff {level : Level} {kind : Token.Kind} {join : Expr → Expr → Expr} :
    level.joiner kind = some join ↔ Infix level kind join := by
  constructor
  · intro h
    cases level <;> cases kind <;> cases h <;> constructor
  · intro h
    cases h <;> rfl

theorem completes_iff_joiner {level : Level} {kind : Token.Kind} :
    level.Completes (some kind) ↔ level.joiner kind = none := by
  rw [Option.eq_none_iff_forall_ne_some]
  constructor
  · intro h join hjoin
    exact h kind rfl join (joiner_eq_some_iff.mp hjoin)
  · intro h
    exact completes_of_eq fun join hinfix => h join (joiner_eq_some_iff.mpr hinfix)

theorem read_chain {level tighter : Level} (hlevel : level ≠ .assignment)
    (htighter : level.tighter? = some tighter) (depth : Nat) (tokens : List Token) :
    (level.reader depth).read tokens =
      (tighter.reader depth).read tokens >>= fun (tree, rest) =>
        Reader.goOn level.joiner (tighter.reader depth) tree rest := by
  cases level <;> cases htighter <;> first | rfl | exact absurd rfl hlevel

end Level

structure Exact (depth : Nat) (level : Level) : Prop where
  takes_of_read : ∀ {tokens rest : List Token} {tree : Expr},
    Numerals tokens → (level.reader depth).read tokens = .ok (tree, rest) →
    ∃ taken, tokens = taken ++ rest ∧ Takes depth level taken tree (lookahead rest) ∧
      level.Completes (lookahead rest)
  read_of_takes : ∀ {taken rest : List Token} {tree : Expr},
    Takes depth level taken tree (lookahead rest) → level.Completes (lookahead rest) →
    (level.reader depth).read (taken ++ rest) = .ok (tree, rest)
  halts_of_read : ∀ {tokens : List Token} {stop : Stop},
    Numerals tokens → (level.reader depth).read tokens = .error stop →
    ∃ seen, tokens = seen ++ stop.rest ∧ Halts depth level seen stop
  read_of_halts : ∀ {seen : List Token} {stop : Stop},
    Halts depth level seen stop → (level.reader depth).read (seen ++ stop.rest) = .error stop

section Chain

open Reader

variable {depth : Nat} {level tighter : Level}

theorem goOn_eq_ok_of_completes {operand : Reader} {tree : Expr} {rest : List Token}
    (h : level.Completes (lookahead rest)) :
    goOn level.joiner operand tree rest = .ok (tree, rest) := by
  cases rest with
  | nil => rw [goOn_nil]
  | cons token rest => rw [goOn_cons, Level.completes_iff_joiner.mp h]

theorem read_eq_goOn_of_takes (hlevel : level ≠ .assignment)
    (htighter : level.tighter? = some tighter) (exact : Exact depth tighter)
    {taken rest : List Token} {tree : Expr}
    (h : Takes depth level taken tree (lookahead rest)) :
    (level.reader depth).read (taken ++ rest) =
      goOn level.joiner (tighter.reader depth) tree rest := by
  generalize hnext : lookahead rest = next at h
  induction h generalizing rest with
  | number | name | parenthesis => cases htighter
  | plain | assign => exact absurd rfl hlevel
  | operand _ htighter' htakes hcompletes _ =>
      cases htighter.symm.trans htighter'
      subst hnext
      rw [Level.read_chain hlevel htighter, exact.read_of_takes htakes hcompletes]
      rfl
  | @chain depth next level tighter left right token first second join htighter' hinfix hleft
      hright hcompletes ihLeft _ =>
      cases htighter.symm.trans htighter'
      subst hnext
      rw [List.append_assoc, List.cons_append, ihLeft hlevel htighter exact rfl, goOn_cons,
        Level.joiner_eq_some_iff.mpr hinfix, exact.read_of_takes hright hcompletes]
      rfl

theorem takes_of_goOn (htighter : level.tighter? = some tighter)
    (exact : Exact depth tighter) {taken tokens rest : List Token} {tree result : Expr}
    (hnumerals : Numerals tokens) (htaken : Takes depth level taken tree (lookahead tokens))
    (h : goOn level.joiner (tighter.reader depth) tree tokens = .ok (result, rest)) :
    ∃ more, tokens = more ++ rest ∧ Takes depth level (taken ++ more) result (lookahead rest) ∧
      level.Completes (lookahead rest) := by
  -- Each operand that is read makes what has been taken of the chain one link longer.
  induction tree, tokens using goOn.induct level.joiner (tighter.reader depth)
      generalizing taken with
  | case1 tree =>
      cases (goOn_nil _ _ tree).symm.trans h
      exact ⟨[], rfl, by rwa [List.append_nil], Level.completes_none level⟩
  | case2 tree token following hjoin =>
      rw [goOn_cons, hjoin] at h
      cases h
      exact ⟨[], rfl, by rwa [List.append_nil], Level.completes_iff_joiner.mpr hjoin⟩
  | case3 tree token following join hjoin stop hread =>
      rw [goOn_cons, hjoin, hread] at h
      cases h
  | case4 tree token following join hjoin right rest' hread ih =>
      rw [goOn_cons, hjoin, hread] at h
      obtain ⟨operand, rfl, hoperand, hcompletes⟩ := exact.takes_of_read hnumerals.of_cons hread
      have hchain := Takes.chain htighter (Level.joiner_eq_some_iff.mp hjoin) htaken hoperand
        hcompletes
      obtain ⟨more, rfl, hmore, hend⟩ := ih hnumerals.of_cons.of_append_right hchain h
      exact ⟨token :: (operand ++ more), by simp, by simpa using hmore, hend⟩

theorem halts_of_goOn (htighter : level.tighter? = some tighter)
    (exact : Exact depth tighter) {taken tokens : List Token} {tree : Expr} {stop : Stop}
    (hnumerals : Numerals tokens) (htaken : Takes depth level taken tree (lookahead tokens))
    (h : goOn level.joiner (tighter.reader depth) tree tokens = .error stop) :
    ∃ seen, tokens = seen ++ stop.rest ∧ Halts depth level (taken ++ seen) stop := by
  induction tree, tokens using goOn.induct level.joiner (tighter.reader depth)
      generalizing taken with
  | case1 tree => cases (goOn_nil _ _ tree).symm.trans h
  | case2 tree token following hjoin =>
      rw [goOn_cons, hjoin] at h
      cases h
  | case3 tree token following join hjoin stop' hread =>
      rw [goOn_cons, hjoin, hread] at h
      cases h
      obtain ⟨seen, rfl, hseen⟩ := exact.halts_of_read hnumerals.of_cons hread
      exact ⟨token :: seen, rfl,
        .chain htighter (Level.joiner_eq_some_iff.mp hjoin) htaken hseen⟩
  | case4 tree token following join hjoin right rest' hread ih =>
      rw [goOn_cons, hjoin, hread] at h
      obtain ⟨operand, rfl, hoperand, hcompletes⟩ := exact.takes_of_read hnumerals.of_cons hread
      have hchain := Takes.chain htighter (Level.joiner_eq_some_iff.mp hjoin) htaken hoperand
        hcompletes
      obtain ⟨seen, rfl, hseen⟩ := ih hnumerals.of_cons.of_append_right hchain h
      exact ⟨token :: (operand ++ seen), by simp, by simpa using hseen⟩

theorem Exact.chain (hlevel : level ≠ .assignment) (htighter : level.tighter? = some tighter)
    (exact : Exact depth tighter) : Exact depth level := by
  have hread := Level.read_chain hlevel htighter depth
  constructor
  · intro tokens rest tree hnumerals h
    rw [hread] at h
    obtain ⟨⟨first, following⟩, hfirst, hgoOn⟩ := bind_eq_ok.mp h
    obtain ⟨operand, rfl, hoperand, hcompletes⟩ := exact.takes_of_read hnumerals hfirst
    obtain ⟨more, rfl, hmore, hend⟩ := takes_of_goOn htighter exact
      hnumerals.of_append_right (.operand hlevel htighter hoperand hcompletes) hgoOn
    exact ⟨operand ++ more, (List.append_assoc _ _ _).symm, hmore, hend⟩
  · intro taken rest tree htakes hcompletes
    rw [read_eq_goOn_of_takes hlevel htighter exact htakes, goOn_eq_ok_of_completes hcompletes]
  · intro tokens stop hnumerals h
    rw [hread] at h
    cases hfirst : (tighter.reader depth).read tokens with
    | error stop' =>
        rw [hfirst] at h
        cases h
        obtain ⟨seen, hseen, hhalts⟩ := exact.halts_of_read hnumerals hfirst
        exact ⟨seen, hseen, .operand htighter hhalts⟩
    | ok taken =>
        obtain ⟨first, following⟩ := taken
        rw [hfirst] at h
        obtain ⟨operand, rfl, hoperand, hcompletes⟩ := exact.takes_of_read hnumerals hfirst
        obtain ⟨seen, rfl, hseen⟩ := halts_of_goOn htighter exact
          hnumerals.of_append_right (.operand hlevel htighter hoperand hcompletes) h
        exact ⟨operand ++ seen, (List.append_assoc _ _ _).symm, hseen⟩
  · intro seen stop h
    cases h with
    | obstacle | inside => cases htighter
    | assign => exact absurd rfl hlevel
    | operand htighter' hhalts =>
        cases htighter.symm.trans htighter'
        rw [hread, exact.read_of_halts hhalts]
        rfl
    | chain htighter' hinfix htakes hhalts =>
        cases htighter.symm.trans htighter'
        rw [List.append_assoc, List.cons_append,
          read_eq_goOn_of_takes hlevel htighter exact htakes, goOn_cons,
          Level.joiner_eq_some_iff.mpr hinfix, exact.read_of_halts hhalts]
        rfl

end Chain

section Assignment

variable {depth : Nat}

theorem read_name_equals (exact : Exact depth .addition) (name equals : String)
    (rest : List Token) :
    (Level.addition.reader depth).read (⟨.name, name⟩ :: ⟨.equals, equals⟩ :: rest) =
      .ok (.var name, ⟨.equals, equals⟩ :: rest) :=
  @Exact.read_of_takes _ _ exact [⟨.name, name⟩] _ _
    (.operand nofun rfl (.operand nofun rfl .name (fun _ _ _ => nofun))
      (Level.completes_of_eq nofun))
    (Level.completes_of_eq nofun)

theorem takes_of_readAssignment (exact : Exact depth .addition) {tokens rest : List Token}
    {tree : Expr} (hnumerals : Numerals tokens)
    (h : Reader.readAssignment (Level.addition.reader depth) tokens = .ok (tree, rest)) :
    ∃ taken, tokens = taken ++ rest ∧ Takes depth .assignment taken tree (lookahead rest) := by
  unfold Reader.readAssignment at h
  split at h
  · obtain ⟨⟨value, following⟩, hvalue, hassign⟩ := bind_eq_ok.mp h
    cases hassign
    obtain ⟨taken, rfl, htakes, hcompletes⟩ :=
      exact.takes_of_read hnumerals.of_cons.of_cons hvalue
    exact ⟨_ :: _ :: taken, rfl, .assign htakes hcompletes⟩
  · next hplain =>
      obtain ⟨taken, rfl, htakes, hcompletes⟩ := exact.takes_of_read hnumerals h
      refine ⟨taken, rfl, .plain htakes hcompletes ?_⟩
      intro hequals name htaken
      subst htaken
      cases rest with
      | nil => cases hequals
      | cons token rest =>
          obtain ⟨kind, lexeme⟩ := token
          cases hequals
          exact hplain name lexeme rest rfl

theorem readAssignment_of_takes (exact : Exact depth .addition) {taken rest : List Token}
    {tree : Expr} (h : Takes depth .assignment taken tree (lookahead rest)) :
    Reader.readAssignment (Level.addition.reader depth) (taken ++ rest) = .ok (tree, rest) := by
  generalize hnext : lookahead rest = next at h
  cases h with
  | operand hlevel => exact absurd rfl hlevel
  | chain _ hinfix => cases hinfix
  | assign htakes hcompletes =>
      subst hnext
      rw [List.cons_append, List.cons_append, Reader.readAssignment,
        exact.read_of_takes htakes hcompletes]
      rfl
  | plain htakes hcompletes hequals =>
      subst hnext
      have hread := exact.read_of_takes htakes hcompletes
      unfold Reader.readAssignment
      split
      · next name equals following htokens =>
          rw [htokens, read_name_equals exact] at hread
          cases hread
          have htaken : taken = [⟨.name, name⟩] :=
            (List.append_left_inj (⟨.equals, equals⟩ :: following)).mp htokens
          exact absurd htaken (hequals rfl name)
      · exact hread

theorem halts_of_readAssignment (exact : Exact depth .addition) {tokens : List Token}
    {stop : Stop} (hnumerals : Numerals tokens)
    (h : Reader.readAssignment (Level.addition.reader depth) tokens = .error stop) :
    ∃ seen, tokens = seen ++ stop.rest ∧ Halts depth .assignment seen stop := by
  unfold Reader.readAssignment at h
  split at h
  · next name equals following =>
      cases hvalue : (Level.addition.reader depth).read following with
      | error stop' =>
          rw [hvalue] at h
          cases h
          obtain ⟨seen, rfl, hseen⟩ := exact.halts_of_read hnumerals.of_cons.of_cons hvalue
          exact ⟨_ :: _ :: seen, rfl, .assign hseen⟩
      | ok value =>
          rw [hvalue] at h
          cases h
  · obtain ⟨seen, hseen, hhalts⟩ := exact.halts_of_read hnumerals h
    exact ⟨seen, hseen, .operand rfl hhalts⟩

theorem readAssignment_of_halts (exact : Exact depth .addition) {seen : List Token}
    {stop : Stop} (h : Halts depth .assignment seen stop) :
    Reader.readAssignment (Level.addition.reader depth) (seen ++ stop.rest) = .error stop := by
  cases h with
  | chain _ hinfix => cases hinfix
  | assign hhalts =>
      rw [List.cons_append, List.cons_append, Reader.readAssignment, exact.read_of_halts hhalts]
      rfl
  | operand htighter hhalts =>
      cases htighter
      have hread := exact.read_of_halts hhalts
      unfold Reader.readAssignment
      split
      · next name equals following htokens =>
          rw [htokens, read_name_equals exact] at hread
          cases hread
      · exact hread

theorem Exact.assignment (exact : Exact depth .addition) : Exact depth .assignment where
  takes_of_read hnumerals h := by
    obtain ⟨taken, htokens, htakes⟩ := takes_of_readAssignment exact hnumerals h
    exact ⟨taken, htokens, htakes, fun _ _ _ => nofun⟩
  read_of_takes h _ := readAssignment_of_takes exact h
  halts_of_read hnumerals h := halts_of_readAssignment exact hnumerals h
  read_of_halts h := readAssignment_of_halts exact h

end Assignment

section Term

variable {depth : Nat}

def inside : Nat → Reader
  | 0 => .refuse .tooDeep
  | depth + 1 => Level.sequence.reader depth

theorem read_term (depth : Nat) (tokens : List Token) :
    (Level.term.reader depth).read tokens = Reader.readAtom (inside depth) tokens := by
  cases depth <;> rfl

theorem takes_of_readAtom (inner : ∀ less, depth = less + 1 → Exact less .sequence)
    {tokens rest : List Token} {tree : Expr} (hnumerals : Numerals tokens)
    (h : Reader.readAtom (inside depth) tokens = .ok (tree, rest)) :
    ∃ taken, tokens = taken ++ rest ∧ Takes depth .term taken tree (lookahead rest) := by
  unfold Reader.readAtom at h
  split at h
  · cases h
  · next lexeme following =>
      have hnumeral : IsNumeral lexeme := hnumerals _ List.mem_cons_self rfl
      split at h
      · cases h
      · next hshort =>
          rw [readInt?_of_isNumeral hnumeral] at h
          cases h
          exact ⟨[_], rfl, .number hnumeral (Nat.le_of_not_lt hshort)⟩
  · cases h
    exact ⟨[_], rfl, .name⟩
  · next opening following =>
      obtain ⟨⟨value, behind⟩, hinner, hclose⟩ := bind_eq_ok.mp h
      cases depth with
      | zero => cases hinner
      | succ depth =>
          obtain ⟨taken, rfl, htakes, _⟩ :=
            (inner depth rfl).takes_of_read hnumerals.of_cons hinner
          cases behind with
          | nil => cases hclose
          | cons token behind =>
              obtain ⟨kind, lexeme⟩ := token
              cases kind <;> cases hclose
              exact ⟨⟨.opening, opening⟩ :: (taken ++ [⟨.closing, lexeme⟩]), by simp,
                .parenthesis htakes⟩
  · cases h

theorem readAtom_of_takes (inner : ∀ less, depth = less + 1 → Exact less .sequence)
    {taken rest : List Token} {tree : Expr}
    (h : Takes depth .term taken tree (lookahead rest)) :
    Reader.readAtom (inside depth) (taken ++ rest) = .ok (tree, rest) := by
  cases h with
  | operand _ htighter | chain htighter => cases htighter
  | number hnumeral hshort =>
      rw [List.singleton_append, Reader.readAtom, if_neg (Nat.not_lt_of_le hshort),
        readInt?_of_isNumeral hnumeral]
  | name => rfl
  | @parenthesis depth _ opening closing taken _ htakes =>
      have hread := @Exact.read_of_takes _ _ (inner depth rfl) taken
        (⟨.closing, closing⟩ :: rest) tree htakes (Level.completes_closing _)
      rw [List.cons_append, List.append_assoc, List.singleton_append, Reader.readAtom, inside,
        hread]
      rfl

theorem halts_of_readAtom_opening (inner : ∀ less, depth = less + 1 → Exact less .sequence)
    {opening : String} {following : List Token} {stop : Stop} (hnumerals : Numerals following)
    (h : Reader.readAtom (inside depth) (⟨.opening, opening⟩ :: following) = .error stop) :
    ∃ seen, ⟨.opening, opening⟩ :: following = seen ++ stop.rest ∧
      Halts depth .term seen stop := by
  rw [Reader.readAtom] at h
  cases depth with
  | zero =>
      cases h
      exact ⟨[_], rfl, .obstacle .tooDeep⟩
  | succ depth =>
      cases hinner : (Level.sequence.reader depth).read following with
      | error stop' =>
          rw [inside, hinner] at h
          cases h
          obtain ⟨seen, rfl, hseen⟩ := (inner depth rfl).halts_of_read hnumerals hinner
          exact ⟨_ :: seen, rfl, .inside hseen⟩
      | ok read =>
          obtain ⟨value, behind⟩ := read
          rw [inside, hinner] at h
          obtain ⟨taken, rfl, htakes, hcompletes⟩ :=
            (inner depth rfl).takes_of_read hnumerals hinner
          cases behind with
          | nil =>
              cases h
              exact ⟨[], by simp, by simpa using .obstacle (.unclosed htakes)⟩
          | cons token behind =>
              obtain ⟨kind, lexeme⟩ := token
              cases kind <;> cases h <;>
                exact ⟨_ :: taken, rfl, .obstacle (.unclosedBefore htakes hcompletes (by simp))⟩

theorem halts_of_readAtom (inner : ∀ less, depth = less + 1 → Exact less .sequence)
    {tokens : List Token} {stop : Stop} (hnumerals : Numerals tokens)
    (h : Reader.readAtom (inside depth) tokens = .error stop) :
    ∃ seen, tokens = seen ++ stop.rest ∧ Halts depth .term seen stop := by
  unfold Reader.readAtom at h
  split at h
  · cases h
    exact ⟨[], rfl, .obstacle .noOperand⟩
  · next lexeme following =>
      split at h
      · next hlong =>
          cases h
          exact ⟨[], rfl, .obstacle (.numberTooLong hlong)⟩
      · rw [readInt?_of_isNumeral (hnumerals _ List.mem_cons_self rfl)] at h
        cases h
  · cases h
  · exact halts_of_readAtom_opening inner hnumerals.of_cons h
  · next token following hnumber hname hopening =>
      cases h
      obtain ⟨kind, lexeme⟩ := token
      refine ⟨[], rfl, .obstacle (.notOperand ?_ ?_ ?_)⟩
      · intro hkind
        exact hnumber lexeme (congrArg (Token.mk · lexeme) hkind)
      · intro hkind
        exact hname lexeme (congrArg (Token.mk · lexeme) hkind)
      · intro hkind
        exact hopening lexeme (congrArg (Token.mk · lexeme) hkind)

theorem readAtom_of_obstacle (inner : ∀ less, depth = less + 1 → Exact less .sequence)
    {seen : List Token} {stop : Stop} (h : Obstacle depth seen stop) :
    Reader.readAtom (inside depth) (seen ++ stop.rest) = .error stop := by
  cases h with
  | noOperand | tooDeep => rfl
  | @notOperand _ token rest hnumber hname hopening =>
      obtain ⟨kind, lexeme⟩ := token
      cases kind <;> first | rfl | exact absurd rfl ‹_›
  | numberTooLong hlong => rw [List.nil_append, Reader.readAtom, if_pos hlong]
  | @unclosed depth opening taken tree htakes =>
      have hread := @Exact.read_of_takes _ _ (inner depth rfl) taken [] tree htakes
        (Level.completes_none _)
      rw [List.append_nil] at hread
      rw [List.nil_append, Reader.readAtom, inside, hread]
      rfl
  | @unclosedBefore depth opening taken tree token rest htakes hcompletes hclosing =>
      have hread := @Exact.read_of_takes _ _ (inner depth rfl) taken (token :: rest) tree
        htakes hcompletes
      rw [List.cons_append, Reader.readAtom, inside, hread]
      obtain ⟨kind, lexeme⟩ := token
      cases kind <;> first | rfl | exact absurd rfl hclosing

theorem readAtom_of_halts (inner : ∀ less, depth = less + 1 → Exact less .sequence)
    {seen : List Token} {stop : Stop} (h : Halts depth .term seen stop) :
    Reader.readAtom (inside depth) (seen ++ stop.rest) = .error stop := by
  cases h with
  | operand htighter | chain htighter => cases htighter
  | obstacle hobstacle => exact readAtom_of_obstacle inner hobstacle
  | @inside depth opening seen _ hhalts =>
      rw [List.cons_append, Reader.readAtom, Grammar.inside,
        (inner depth rfl).read_of_halts hhalts]
      rfl

theorem Exact.term (inner : ∀ less, depth = less + 1 → Exact less .sequence) :
    Exact depth .term where
  takes_of_read hnumerals h := by
    rw [read_term] at h
    obtain ⟨taken, htokens, htakes⟩ := takes_of_readAtom inner hnumerals h
    exact ⟨taken, htokens, htakes, fun _ _ _ => nofun⟩
  read_of_takes h _ := by
    rw [read_term]
    exact readAtom_of_takes inner h
  halts_of_read hnumerals h := by
    rw [read_term] at h
    exact halts_of_readAtom inner hnumerals h
  read_of_halts h := by
    rw [read_term]
    exact readAtom_of_halts inner h

end Term

theorem Exact.of_term {depth : Nat} (term : Exact depth .term) : ∀ level, Exact depth level
  | .term => term
  | .multiplication => .chain nofun rfl term
  | .addition => .chain nofun rfl (.chain nofun rfl term)
  | .assignment => .assignment (.chain nofun rfl (.chain nofun rfl term))
  | .sequence => .chain nofun rfl (.assignment (.chain nofun rfl (.chain nofun rfl term)))

theorem exact_reader (depth : Nat) (level : Level) : Exact depth level := by
  -- All levels at once, as a parenthesis leads from terms back to sequences, one less deep.
  induction depth generalizing level with
  | zero => exact .of_term (.term fun less hless => by omega) level
  | succ depth ih =>
      refine .of_term (.term fun less hless => ?_) level
      cases hless
      exact ih .sequence

end Abacus.Grammar
