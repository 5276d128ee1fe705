import Mathlib.Control.Monad.Basic
import CommandLine.Cli.Run
import CommandLine.Proofs.JsonViews
import CommandLine.Proofs.Stations
/-!
# CommandLine.Proofs.Subcommands

**The subcommands agree stage by stage.** Each of the subcommands `tokens`, `ast`, `parse` and
`decode` goes its own way from the line to what it prints (`showStage`). Where one of them stops,
those that go further stop too, and print the same (`subcommands_agree`). What those that get
through print tells what they came to, and nothing else (`Outcome.Shows`).

The options and the format are given here, as is the way to draw pictures. From a stage to the
outcome the way is the same for all stages (`answer_stage_ok`, `answer_stage_error`), so it is
enough to look at what the stages show.
-/

namespace CommandLine.Cli

variable {w : Surroundings} {options : Options} {argument : Option String} {stage : Stage}
  {draw : Picture → String} {format : Format} {config config' : Config} {line text : String}
  {s : TokenStream} {t : Tree} {g : GrammarError} {e : AssemblyError}

/-! ### From the stage to the outcome -/

/-- All arguments but one are lines themselves. -/
theorem readLine_some (h : line ≠ "-") (stdin : List UInt8) :
    readLine (some line) stdin = .ok line := if_neg h

/-- What does not need any settings shows the same with all of them. -/
theorem showStage_congr (h : stage.needsConfig = false) :
    showStage stage config format line = showStage stage config' format line := by
  cases stage with
  | tokens => cases format <;> rfl
  | ast => rfl
  | parse => rfl
  | decode => cases h

theorem perform_stage (hline : readLine argument w.stdin = .ok line)
    (hconfig : stage.needsConfig = true → resolveConfig w options = .ok config) :
    perform w options format (.stage stage argument) =
      ((showStage stage config format line).mapError (.assembly line)).map
        fun text => { stdout := text } := by
  have hshown (used : Config) :
      ((showStage stage used format line).mapError (.assembly line) >>= fun text =>
          pure { stdout := text }) =
        ((showStage stage used format line).mapError (Failure.assembly line)).map
          fun text => ({ stdout := text } : Printed) := by
    cases showStage stage used format line <;> rfl
  rw [perform]
  by_cases hneeds : stage.needsConfig = true
  · rw [if_pos hneeds, hconfig hneeds, hline]
    exact hshown config
  · rw [if_neg hneeds, hline, showStage_congr (Bool.eq_false_iff.2 hneeds)]
    exact hshown .default

theorem answer_stage_ok (hline : readLine argument w.stdin = .ok line)
    (hconfig : stage.needsConfig = true → resolveConfig w options = .ok config)
    (hshow : showStage stage config format line = .ok text) :
    answer draw w options format (.stage stage argument) = ⟨0, text, ""⟩ := by
  rw [answer, perform_stage hline hconfig, hshow]
  rfl

theorem answer_stage_error (hline : readLine argument w.stdin = .ok line)
    (hconfig : stage.needsConfig = true → resolveConfig w options = .ok config)
    (hshow : showStage stage config format line = .error e) :
    answer draw w options format (.stage stage argument) =
      (Failure.assembly line e).outcome draw format := by
  rw [answer, perform_stage hline hconfig, hshow]
  rfl

@[simp] theorem Failure.exit_outcome (f : Failure) (draw : Picture → String) (format : Format) :
    (f.outcome draw format).exit = 1 := by
  cases f <;> cases format <;> rfl

/-- An outcome shows a value: a text and a line break are printed, and of all that `view` can make
of values, the text is a JSON text of what it makes of this one only. -/
def Outcome.Shows {α : Type} (o : Outcome) (view : α → Json.Value) (a : α) : Prop :=
  ∃ text, o = ⟨0, text ++ "\n", ""⟩ ∧ ∀ b, (view b).form.IsText text ↔ b = a

theorem Outcome.shows_jsonText {α : Type} {view : α → Json.Value} (h : Function.Injective view)
    (a : α) : Outcome.Shows ⟨0, jsonText (view a), ""⟩ view a :=
  ⟨_, rfl, fun _ => Json.isText_view_iff h⟩

/-- Tokens as a JSON array. -/
def tokensToJson (tokens : List Token) : Json.Value := .array (tokens.map Token.toJson)

theorem tokensToJson_injective : Function.Injective tokensToJson := by
  intro tokens tokens' h
  exact Token.toJson_injective.list_map (Json.Value.array.inj h)

/-! ### What the stages show -/

/-- Without tokens no stage has anything to show. -/
theorem showStage_of_tokenize_error (h : tokenize line = .error e) :
    showStage stage config format line = .error e := by
  have hparse : parse line = .error e := parse_eq_error_iff.2 (.inl h)
  cases stage with
  | tokens => cases format <;> rw [showStage, h] <;> rfl
  | ast => rw [showStage, h]; rfl
  | parse => rw [showStage, hparse]; rfl
  | decode => rw [showStage, hparse]; rfl

/-- Without a tree only the tokens can be shown. -/
theorem showStage_of_tree_error (hs : tokenize line = .ok s) (hg : Tree.ofStream s = .error g)
    (hstage : stage ≠ .tokens) :
    showStage stage config format line = .error (.grammatical g) := by
  have hparse : parse line = .error (.grammatical g) :=
    parse_eq_error_iff.2 (.inr ⟨s, g, hs, hg, rfl⟩)
  cases stage with
  | tokens => exact absurd rfl hstage
  | ast => exact bind_eq_error.2 (.inr ⟨s, hs, bind_eq_error.2 (.inl (by rw [hg]; rfl))⟩)
  | parse => rw [showStage, hparse]; rfl
  | decode => rw [showStage, hparse]; rfl

theorem exists_showStage_tokens (hs : tokenize line = .ok s) (config : Config) (format : Format) :
    ∃ text, showStage .tokens config format line = .ok text := by
  cases format with
  | pretty => exact ⟨_, by rw [showStage, hs]; rfl⟩
  | json => exact ⟨_, by rw [showStage, hs]; rfl⟩

theorem showStage_tokens (hs : tokenize line = .ok s) :
    showStage .tokens config .json line = .ok (jsonText (tokensToJson s.tokens)) := by
  rw [showStage, hs]
  rfl

theorem showStage_ast (hs : tokenize line = .ok s) (ht : Tree.ofStream s = .ok t) :
    showStage .ast config format line = .ok (jsonText t.toJson) :=
  bind_eq_ok.2 ⟨s, hs, bind_eq_ok.2 ⟨t, by rw [ht]; rfl, rfl⟩⟩

theorem showStage_parse (hs : tokenize line = .ok s) (ht : Tree.ofStream s = .ok t) :
    showStage .parse config format line = .ok (jsonText (BareCommand.ofTree t).toJson) := by
  rw [showStage, parse_of_tokenize hs, ht]
  rfl

/-- Decoding a bare command is assembling its line. -/
theorem showStage_decode :
    showStage .decode config format line =
      (assemble (decoder config) line).map fun c => jsonText c.toJson := by
  rw [showStage, assemble]
  cases parse line with
  | error e => rfl
  | ok b => cases (decoder config).decode b <;> rfl

/-- **The subcommands agree stage by stage.** Let the four of them be asked about the same line.
Without tokens all of them fail, and print the same. With tokens but without a tree `tokens`
succeeds, and the other three fail and print the same. With a tree `ast` shows it, and `parse`
shows the bare command of this tree. What `decode` shows is what assembling the line returns. So
if `decode` succeeds, all of them do; and whether and how a line is a syntax error does not depend
on the settings. -/
theorem subcommands_agree {w : Stage → Surroundings} {options : Stage → Options}
    {argument : Stage → Option String} {draw : Picture → String} {format : Format} {line : String}
    {config : Config} {answers : Stage → Outcome}
    (hline : ∀ stage, readLine (argument stage) (w stage).stdin = .ok line)
    (hconfig : resolveConfig (w .decode) (options .decode) = .ok config)
    (hanswers : ∀ stage, answers stage =
      answer draw (w stage) (options stage) format (.stage stage (argument stage))) :
    (∀ e, tokenize line = .error e → ∀ stage, (answers stage).exit = 1
        ∧ answers stage = (Failure.assembly line e).outcome draw format)
      ∧ (∀ s, tokenize line = .ok s →
        (answers .tokens).exit = 0
          ∧ (format = .json → (answers .tokens).Shows tokensToJson s.tokens)
          ∧ (∀ g, Tree.ofStream s = .error g → ∀ stage ≠ .tokens, (answers stage).exit = 1
            ∧ answers stage = (Failure.assembly line (.grammatical g)).outcome draw format)
          ∧ ∀ t, Tree.ofStream s = .ok t →
            (answers .ast).Shows Tree.toJson t
              ∧ (answers .parse).Shows BareCommand.toJson (BareCommand.ofTree t))
      ∧ (∀ c, assemble (decoder config) line = .ok c →
        (answers .decode).Shows AddressBook.Command.toJson c)
      ∧ (∀ e, assemble (decoder config) line = .error e → (answers .decode).exit = 1
        ∧ answers .decode = (Failure.assembly line e).outcome draw format)
      ∧ ((answers .decode).exit = 0 → ∀ stage, (answers stage).exit = 0)
      ∧ ∀ config' e, e.isSyntax = true →
        (assemble (decoder config) line = .error e ↔
          assemble (decoder config') line = .error e) := by
  have hneeds (stage : Stage) (h : stage.needsConfig = true) :
      resolveConfig (w stage) (options stage) = .ok config := by
    cases stage with
    | decode => exact hconfig
    | _ => cases h
  have hok (stage : Stage) (text : String) (hshow : showStage stage config format line = .ok text) :
      answers stage = ⟨0, text, ""⟩ :=
    (hanswers stage).trans (answer_stage_ok (hline stage) (hneeds stage) hshow)
  have herror (stage : Stage) (e : AssemblyError)
      (hshow : showStage stage config format line = .error e) :
      (answers stage).exit = 1
        ∧ answers stage = (Failure.assembly line e).outcome draw format := by
    have hfail := (hanswers stage).trans (answer_stage_error (hline stage) (hneeds stage) hshow)
    exact ⟨by rw [hfail, Failure.exit_outcome], hfail⟩
  have hshows {α : Type} {view : α → Json.Value} (hview : Function.Injective view) (stage : Stage)
      (a : α) (hshow : showStage stage config format line = .ok (jsonText (view a))) :
      (answers stage).Shows view a := by
    rw [hok stage _ hshow]
    exact Outcome.shows_jsonText hview a
  have htokens (s : TokenStream) (hs : tokenize line = .ok s) : (answers .tokens).exit = 0 := by
    obtain ⟨text, hshow⟩ := exists_showStage_tokens hs config format
    rw [hok _ _ hshow]
  refine ⟨fun e he stage => herror _ _ (showStage_of_tokenize_error he), fun s hs => ⟨htokens s hs,
    ?_, fun g hg stage hstage => herror _ _ (showStage_of_tree_error hs hg hstage), fun t ht => ?_⟩,
    fun c hc => ?_, fun e he => ?_, fun hexit stage => ?_, fun config' e he => ?_⟩
  · rintro rfl
    exact hshows tokensToJson_injective _ _ (showStage_tokens hs)
  · exact ⟨hshows Tree.toJson_injective _ _ (showStage_ast hs ht),
      hshows BareCommand.toJson_injective _ _ (showStage_parse hs ht)⟩
  · exact hshows AddressBook.Command.toJson_injective _ _ (by rw [showStage_decode, hc]; rfl)
  · exact herror _ _ (by rw [showStage_decode, he]; rfl)
  · cases htokenize : tokenize line with
    | error e =>
      have hfail := (herror .decode _ (showStage_of_tokenize_error htokenize)).1
      omega
    | ok s =>
      cases htree : Tree.ofStream s with
      | error g =>
        have hfail := (herror .decode _ (showStage_of_tree_error htokenize htree nofun)).1
        omega
      | ok t =>
        cases stage with
        | tokens => exact htokens s htokenize
        | ast => rw [hok _ _ (showStage_ast htokenize htree)]
        | parse => rw [hok _ _ (showStage_parse htokenize htree)]
        | decode => exact hexit
  · rw [assemble_eq_syntaxError_iff he, assemble_eq_syntaxError_iff he]

/-- A folder in which every file asks for whole keywords. -/
def exactNames : Surroundings where
  stdin := []
  file := fun _ => .ok "\x7b\"match_rule\": \"exact\"\x7d".toUTF8.toList

/-- Settings are read from a file. -/
def withFile : Options where
  config := some "c"

/-- The tokens of `add "é":`. -/
def strayColon : TokenStream where
  line := "add \"é\":"
  body := [⟨.word, "add", ⟨0, 3⟩⟩, ⟨.text, "é", ⟨4, 8⟩⟩, ⟨.colon, ":", ⟨8, 9⟩⟩]
  terminal := ⟨.terminal, "", ⟨9, 9⟩⟩
  body_kind := by decide
  terminal_kind := rfl

/-- A colon behind a parameter is no obstacle to `tokens`, and the same one to all others. -/
theorem subcommands_at_strayColon :
    (answer Picture.compact exactNames withFile .json
        (.stage .tokens (some "add \"é\":"))).Shows tokensToJson strayColon.tokens
      ∧ (answer Picture.compact exactNames withFile .json
        (.stage .decode (some "add \"é\":"))).exit = 1
      ∧ answer Picture.compact exactNames withFile .json (.stage .ast (some "add \"é\":"))
        = answer Picture.compact exactNames withFile .json
          (.stage .decode (some "add \"é\":")) := by
  have hconfig : resolveConfig exactNames withFile = .ok .exact := by decide +kernel
  have hs : tokenize "add \"é\":" = .ok strayColon := by decide +kernel
  have hg : Tree.ofStream strayColon = .error ⟨"add \"é\":", ⟨.colon, ":", ⟨8, 9⟩⟩,
      [.text, .word], [.text, .parameter, .parameterList, .command]⟩ := by decide +kernel
  have hdash : "add \"é\":" ≠ "-" := by decide
  obtain ⟨-, htokens, -⟩ := @subcommands_agree (fun _ => exactNames) (fun _ => withFile)
    (fun _ => some "add \"é\":") Picture.compact .json _ _ _ (fun _ => readLine_some hdash _)
    hconfig fun _ => rfl
  obtain ⟨-, hshows, hfail, -⟩ := htokens _ hs
  have hast := (hfail _ hg .ast nofun).2
  have hdecode := hfail _ hg .decode nofun
  exact ⟨hshows rfl, hdecode.1, hast.trans hdecode.2.symm⟩

end CommandLine.Cli
