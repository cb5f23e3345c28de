import Abacus.Proofs.Scanning.Segmentation
import Abacus.Proofs.Session.Effects
import Mathlib.Data.List.DropRight
import Mathlib.Data.List.TakeWhile

namespace Abacus

open Text

/-! Lines of nothing but blanks: trimming leaves nothing of them, and no token is cut from them. -/

namespace Text

def HasContent (text : String) : Prop :=
  ∃ c ∈ text.toList, isBlank c = false

-- Named, because the search would find the one that goes through all characters there are.
instance : DecidablePred HasContent :=
  fun text => List.decidableBEx (isBlank · = false) text.toList

theorem not_hasContent_iff {text : String} :
    ¬ HasContent text ↔ ∀ c ∈ text.toList, isBlank c = true := by
  simp [HasContent]

theorem trim_eq_nil_iff {text : String} : trim text.toList = [] ↔ ¬ HasContent text := by
  rw [not_hasContent_iff, trim, trimBy, List.reverse_eq_nil_iff, List.dropWhile_eq_nil_iff]
  simp only [List.mem_reverse]
  rw [← List.dropWhile_eq_nil_iff, List.dropWhile_idempotent, List.dropWhile_eq_nil_iff]

end Text

theorem tokenize_eq_ok_nil_iff {code : String} : tokenize code = .ok [] ↔ ¬ HasContent code := by
  rw [tokenize_eq_ok_iff, not_hasContent_iff]
  constructor
  · intro h
    obtain ⟨segments, htext, htokens⟩ := Token.scan_eq_ok_iff.mp h
    have hpieces : segments.pieces = [] := List.map_eq_nil_iff.mp htokens
    have hfront : segments.front = code.toList := by
      simpa [Token.Segmentation.text, hpieces] using htext
    rw [← hfront]
    exact segments.blank_front
  · intro h
    have hscan := @Token.scan_blanks_append code.toList [] h
    rwa [List.append_nil, Token.scan] at hscan

namespace Dialogue

def IsQuit (line : String) : Prop :=
  trim line.toList = quitCommand.toList

instance : DecidablePred IsQuit :=
  fun line => inferInstanceAs (Decidable (trim line.toList = quitCommand.toList))

section Request

variable {line : String}

theorem Request.of_isQuit (h : IsQuit line) : Request.of line = .quit := by
  rw [Request.of, h]
  rfl

theorem Request.of_blank (h : ¬ HasContent line) : Request.of line = .nothing := by
  rw [Request.of, trim_eq_nil_iff.mpr h]

theorem Request.of_code (hquit : ¬ IsQuit line) (h : HasContent line) :
    Request.of line = .calculate line := by
  unfold Request.of
  split
  · next htrim => exact absurd h (trim_eq_nil_iff.mp htrim)
  · exact if_neg hquit

end Request

/-- The lines in front of the first interrupt and the first quit command. -/
def heard : List Read → List String
  | .line text :: reads => if IsQuit text then [] else text :: heard reads
  | _ => []

/-- What is read at the end of a dialogue, what is shown there, what is left unread, and why. -/
inductive Closes : List Read → List Event → List Read → Ending → Prop
  | endOfInput : Closes [] [.prompt, .write ""] [] .endOfInput
  | interrupt (unread : List Read) :
      Closes (.interrupt :: unread) [.prompt, .write ""] unread .interrupted
  | quit {line : String} (hquit : IsQuit line) (unread : List Read) :
      Closes (.line line :: unread) [.prompt] unread .quit

theorem Closes.run [Limits] {reads unread : List Read} {shown : List Event} {ending : Ending}
    (h : Closes reads shown unread ending) (env : Environment) :
    Dialogue.run env reads = ⟨shown, [], [], env, unread, ending⟩ := by
  cases h with
  | endOfInput => rfl
  | interrupt => rfl
  | quit hquit =>
      rw [run_line, Request.of_isQuit hquit]

theorem not_isQuit_of_mem_heard {reads : List Read} : ∀ line ∈ heard reads, ¬ IsQuit line := by
  induction reads with
  | nil => exact List.forall_mem_nil _
  | cons read reads ih =>
      cases read with
      | interrupt => exact List.forall_mem_nil _
      | line text =>
          rw [heard]
          split
          · exact List.forall_mem_nil _
          · next hquit => exact List.forall_mem_cons.mpr ⟨hquit, ih⟩

theorem exists_closes (reads : List Read) : ∃ rest shown unread ending,
    reads = (heard reads).map .line ++ rest ∧ Closes rest shown unread ending := by
  induction reads with
  | nil => exact ⟨[], _, _, _, rfl, .endOfInput⟩
  | cons read reads ih =>
      cases read with
      | interrupt => exact ⟨_, _, _, _, rfl, .interrupt reads⟩
      | line text =>
          rw [heard]
          split
          · next hquit => exact ⟨_, _, _, _, rfl, .quit hquit reads⟩
          · obtain ⟨rest, shown, unread, ending, hreads, hcloses⟩ := ih
            exact ⟨rest, shown, unread, ending, congrArg (.line text :: ·) hreads, hcloses⟩

structure Transcript where
  events : List Event
  calculations : List Calculation
  environment : Environment

def Event.written? : Event → Option String
  | .prompt => none
  | .write text => some text

namespace Transcript

def start (env : Environment) : Transcript :=
  ⟨[], [], env⟩

def hear [Limits] (sofar : Transcript) (line : String) : Transcript :=
  if HasContent line then
    let calculation := Calculation.of line sofar.environment
    { events := sofar.events ++ [.prompt, .write calculation.outcome.reply]
      calculations := sofar.calculations ++ [calculation]
      environment := calculation.after }
  else
    { sofar with events := sofar.events ++ [.prompt] }

def resume [Limits] (sofar : Transcript) (reads : List Read) : Dialogue :=
  let rest := Dialogue.run sofar.environment reads
  { rest with
    events := sofar.events ++ rest.events
    calculations := sofar.calculations ++ rest.calculations }

variable {sofar : Transcript} {line : String} {lines : List String}

theorem hear_of_blank [Limits] (h : ¬ HasContent line) :
    sofar.hear line = { sofar with events := sofar.events ++ [.prompt] } :=
  if_neg h

theorem hear_of_code [Limits] (h : HasContent line) :
    sofar.hear line =
      { events := sofar.events ++
          [.prompt, .write (Calculation.of line sofar.environment).outcome.reply]
        calculations := sofar.calculations ++ [Calculation.of line sofar.environment]
        environment := (Calculation.of line sofar.environment).after } :=
  if_pos h

theorem isWritable_hear [Limits] (h : sofar.environment.All (isWritable · = true)) (line : String) :
    (sofar.hear line).environment.All (isWritable · = true) := by
  unfold hear
  split
  · exact (staysWritable_of h line).after
  · exact h

theorem resume_line [Limits] (h : sofar.environment.All (isWritable · = true))
    (hquit : ¬ IsQuit line) (reads : List Read) :
    sofar.resume (.line line :: reads) = (sofar.hear line).resume reads := by
  by_cases hcontent : HasContent line
  · -- A value that cannot be written out would break the dialogue off here.
    have hwritable := (staysWritable_of h line).outcome_isWritable
    rw [resume, run_line, Request.of_code hquit hcontent, hear_of_code hcontent, resume]
    simp [hwritable]
  · rw [resume, run_line, Request.of_blank hcontent, hear_of_blank hcontent, resume]
    simp

theorem resume_lines [Limits] (h : sofar.environment.All (isWritable · = true))
    (hlines : ∀ line ∈ lines, ¬ IsQuit line) (rest : List Read) :
    sofar.resume (lines.map .line ++ rest) = (lines.foldl hear sofar).resume rest := by
  induction lines generalizing sofar with
  | nil => rfl
  | cons line lines ih =>
      obtain ⟨hquit, hlines⟩ := List.forall_mem_cons.mp hlines
      exact (resume_line h hquit _).trans (ih (isWritable_hear h line) hlines)

theorem resume_of_closes [Limits] {reads unread : List Read} {shown : List Event} {ending : Ending}
    (h : Closes reads shown unread ending) :
    sofar.resume reads =
      ⟨sofar.events ++ shown, sofar.calculations, [], sofar.environment, unread, ending⟩ := by
  rw [resume, h.run]
  simp

theorem calculations_foldl_hear [Limits] (lines : List String) (sofar : Transcript) :
    (lines.foldl hear sofar).calculations =
      sofar.calculations ++ Session.calculations sofar.environment (lines.filter HasContent) := by
  induction lines generalizing sofar with
  | nil => exact (List.append_nil _).symm
  | cons line lines ih =>
      rw [List.foldl_cons, ih]
      by_cases hcontent : HasContent line
      · simp [hear_of_code, hcontent, Session.calculations]
      · simp [hear_of_blank, hcontent]

theorem environment_foldl_hear [Limits] (lines : List String) (sofar : Transcript) :
    (lines.foldl hear sofar).environment =
      Session.after sofar.environment (lines.filter HasContent) := by
  induction lines generalizing sofar with
  | nil => rfl
  | cons line lines ih =>
      rw [List.foldl_cons, ih]
      by_cases hcontent : HasContent line
      · simp [hear_of_code, hcontent, Session.after, calculate]
      · simp [hear_of_blank, hcontent]

theorem count_prompt_foldl_hear [Limits] (lines : List String) (sofar : Transcript) :
    (lines.foldl hear sofar).events.count .prompt =
      sofar.events.count .prompt + lines.length := by
  induction lines generalizing sofar with
  | nil => rfl
  | cons line lines ih =>
      have hone : (sofar.hear line).events.count .prompt = sofar.events.count .prompt + 1 := by
        unfold hear
        split <;> simp
      rw [List.foldl_cons, ih, hone, List.length_cons]
      omega

def WritesReplies (sofar : Transcript) : Prop :=
  sofar.events.filterMap Event.written? = sofar.calculations.map (·.outcome.reply)

theorem writesReplies_start (env : Environment) : (start env).WritesReplies :=
  rfl

theorem WritesReplies.hear [Limits] (h : sofar.WritesReplies) (line : String) :
    (sofar.hear line).WritesReplies := by
  unfold WritesReplies at h ⊢
  unfold Transcript.hear
  split
  · rw [List.filterMap_append, h, List.map_append]
    rfl
  · rw [List.filterMap_append, h]
    exact List.append_nil _

theorem WritesReplies.foldl_hear [Limits] (h : sofar.WritesReplies) (lines : List String) :
    (lines.foldl Transcript.hear sofar).WritesReplies := by
  induction lines generalizing sofar with
  | nil => exact h
  | cons line lines ih => exact ih (h.hear line)

end Transcript

theorem exists_run_eq [Limits] {env : Environment} (henv : env.All (isWritable · = true))
    (reads : List Read) : ∃ rest shown, reads = (heard reads).map .line ++ rest ∧
      Closes rest shown (run env reads).unread (run env reads).ending ∧
      let final := (heard reads).foldl Transcript.hear (.start env)
      run env reads = ⟨final.events ++ shown, final.calculations, [], final.environment,
        (run env reads).unread, (run env reads).ending⟩ := by
  obtain ⟨rest, shown, unread, ending, hreads, hcloses⟩ := exists_closes reads
  have hrun :=
    calc run env reads
      _ = (Transcript.start env).resume ((heard reads).map .line ++ rest) := by rw [← hreads]; rfl
      _ = ((heard reads).foldl Transcript.hear (.start env)).resume rest :=
        Transcript.resume_lines henv not_isQuit_of_mem_heard rest
      _ = _ := Transcript.resume_of_closes hcloses
  refine ⟨rest, shown, hreads, ?_, ?_⟩
  · rw [hrun]
    exact hcloses
  · rw [hrun]

theorem Closes.count_prompt {reads unread : List Read} {shown : List Event} {ending : Ending}
    (h : Closes reads shown unread ending) : shown.count .prompt = 1 := by
  cases h <;> rfl

theorem Closes.written {reads unread : List Read} {shown : List Event} {ending : Ending}
    (h : Closes reads shown unread ending) :
    shown.filterMap Event.written? = if ending = .quit then [] else [""] := by
  cases h <;> rfl

end Dialogue

theorem Session.map_code_calculations [Limits] (env : Environment) (codes : List String) :
    (calculations env codes).map Calculation.code = codes := by
  induction codes generalizing env with
  | nil => rfl
  | cons code codes ih => exact congrArg (code :: ·) (ih _)

theorem Session.isReported_of_mem [Limits] {env : Environment} {codes : List String}
    {calculation : Calculation} {error : Error} (h : calculation ∈ calculations env codes)
    (herror : calculation.outcome = .error error) : error.IsReported := by
  have hof : ∀ calculation ∈ calculations env codes,
      ∃ code env', calculation = Calculation.of code env' :=
    @calculations_induction _ (fun _ => True) _ (fun code env _ => ⟨⟨code, env, rfl⟩, trivial⟩) env
      trivial codes
  obtain ⟨code, env', rfl⟩ := hof calculation h
  exact isReported_of_calculate herror

/-- From numbers that can be written out, a dialogue is the fold of its lines, one behind the other,
up to the first interrupt or quit command or the end of the input. The lines that are more than
blanks are calculated, each once and in the environment that the ones before have left; each is
replied to with its value or with the message of its error, and nothing else is written but the
empty line at an interrupt or at the end of the input. -/
theorem dialogue_folds_session [Limits] (env : Environment) (reads : List Dialogue.Read)
    (h : ∀ binding ∈ env.toList, binding.2.natAbs < 10 ^ maxDigits) :
    let dialogue := Dialogue.run env reads
    let lines := Dialogue.heard reads
    let codes := lines.filter HasContent
    let final := lines.foldl Dialogue.Transcript.hear (.start env)
    (∃ rest shown, reads = lines.map .line ++ rest ∧ (∀ line ∈ lines, ¬ Dialogue.IsQuit line) ∧
      Dialogue.Closes rest shown dialogue.unread dialogue.ending ∧
      dialogue.events = final.events ++ shown ∧ dialogue.calculations = final.calculations ∧
      dialogue.environment = final.environment) ∧
    dialogue.calculations = Session.calculations env codes ∧
    dialogue.calculations.map Calculation.code = codes ∧
    dialogue.environment = Session.after env codes ∧
    dialogue.events.count .prompt = lines.length + 1 ∧
    dialogue.events.filterMap Dialogue.Event.written? =
      dialogue.calculations.map (·.outcome.reply) ++
        (if dialogue.ending = .quit then [] else [""]) ∧
    ∀ calculation ∈ dialogue.calculations,
      tokenize calculation.code ≠ .ok [] ∧
      (∀ value, calculation.outcome = .ok value →
        calculation.outcome.reply = "Result: " ++ toString value ∧
          (toString value.natAbs).length ≤ maxDigits) ∧
      ∀ error, calculation.outcome = .error error →
        calculation.outcome.reply = error.message ∧ error.IsReported := by
  intro dialogue lines codes final
  have henv : env.All (isWritable · = true) := fun binding hbinding =>
    isWritable_iff_lt_pow.mpr (h binding hbinding)
  obtain ⟨rest, shown, hreads, hcloses, hrun⟩ := Dialogue.exists_run_eq henv reads
  have hevents : dialogue.events = final.events ++ shown := congrArg Dialogue.events hrun
  have hfinal : dialogue.calculations = final.calculations := congrArg Dialogue.calculations hrun
  have hafter : dialogue.environment = final.environment := congrArg Dialogue.environment hrun
  have hcalculations : dialogue.calculations = Session.calculations env codes :=
    hfinal.trans (Dialogue.Transcript.calculations_foldl_hear lines (.start env))
  have hcodes : dialogue.calculations.map Calculation.code = codes := by
    rw [hcalculations, Session.map_code_calculations]
  refine ⟨⟨rest, shown, hreads, Dialogue.not_isQuit_of_mem_heard, hcloses, hevents, hfinal,
    hafter⟩, hcalculations, hcodes,
    hafter.trans (Dialogue.Transcript.environment_foldl_hear lines (.start env)), ?_, ?_, ?_⟩
  · rw [hevents, List.count_append, hcloses.count_prompt,
      Dialogue.Transcript.count_prompt_foldl_hear]
    simp [Dialogue.Transcript.start]
  · have hwrites : final.WritesReplies :=
      (Dialogue.Transcript.writesReplies_start env).foldl_hear lines
    rw [hevents, List.filterMap_append, hcloses.written, hwrites, hfinal]
  · intro calculation hcalculation
    have hcode : calculation.code ∈ codes := hcodes ▸ List.mem_map_of_mem hcalculation
    have hcontent : HasContent calculation.code := by simpa using List.of_mem_filter hcode
    refine ⟨fun hnil => tokenize_eq_ok_nil_iff.mp hnil hcontent, ?_, ?_⟩
    · intro value hvalue
      have hstays := Session.staysWritable_of_mem henv (hcalculations ▸ hcalculation)
      rw [hvalue]
      exact ⟨rfl, isWritable_iff_length.mp (hstays.outcome value hvalue)⟩
    · intro error herror
      rw [herror]
      exact ⟨rfl, Session.isReported_of_mem (hcalculations ▸ hcalculation) herror⟩

theorem dialogue_folds_session_until_quit :
    let env : Environment := .ofList [("y", 5)]
    let reads : List Dialogue.Read :=
      [.line "x = y - 1", .line " \u3000", .line "(x + 5) * 2", .line "x / 0", .line "\tend ",
        .line "x", .interrupt]
    let codes := ["x = y - 1", "(x + 5) * 2", "x / 0"]
    (∀ binding ∈ env.toList, binding.2.natAbs < 10 ^ maxDigits) ∧
      (Dialogue.heard reads).filter HasContent = codes ∧
      (Dialogue.run env reads).calculations = Session.calculations env codes ∧
      (Dialogue.run env reads).events =
        [.prompt, .write "Result: 4", .prompt, .prompt, .write "Result: 18",
          .prompt, .write "[Runtime error] Cannot divide by 0", .prompt] ∧
      (Dialogue.run env reads).unread = [.line "x", .interrupt] := by
  intro env reads codes
  have henv : ∀ binding ∈ env.toList, binding.2.natAbs < 10 ^ maxDigits := by decide +kernel
  have hcodes : (Dialogue.heard reads).filter HasContent = codes := by decide +kernel
  obtain ⟨_, hcalculations, _⟩ := dialogue_folds_session env reads henv
  rw [hcodes] at hcalculations
  exact ⟨henv, hcodes, hcalculations, by decide +kernel, by decide +kernel⟩

end Abacus
