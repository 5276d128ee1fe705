import Mathlib.Control.Monad.Basic
import CommandLine.Proofs.LexicalGrammar
import CommandLine.Proofs.Stages
/-!
# CommandLine.Proofs.ErrorTrail

**What an error says, read off the tokens in front of it.** The rules that an error of grammar
names are gathered while the readers are left one by one, from the inside out. Still they do not
depend on much: on the token right in front of the error, and on whether an option has begun
before it (`Tree.complaint`). The same goes for the kinds that the error lists.

An error is known from the stage at which reading stopped. `Tree.Stage.Behind` says what the
tokens in front of a stage are like; one token leads from such a stage to another such
(`Tree.Stage.Behind.step`), and so do all tokens of a line (`Tree.Stage.behind_of_run`).
-/

namespace CommandLine.Tree

open Token (kinds)

/-- What an error says behind tokens of some kinds: the rules that it names, the innermost first,
and the kinds that it lists. A slash is only looked for if no mark stands right in front of the
error. -/
def complaint (before : List Token.Kind) : List Rule × List Token.Kind :=
  match before.getLast? with
  | none => ([.word, .imperative, .command], [.word])
  | some .slash => ([.word, .option, .optionList, .command], [.word])
  | some .colon => ([.text, .option, .optionList, .command], [.text, .word])
  | some .plus | some .minus => ([.text, .parameter, .parameterList, .command], [.text, .word])
  | some _ =>
    if .slash ∈ before then ([.optionList, .command], [.slash, .terminal])
    else ([.text, .parameter, .parameterList, .command], [.text, .word])

namespace Stage

variable {p q : Stage} {k : Token.Kind} {ks ls : List Token.Kind}

/-! ### The tokens in front of a stage -/

/-- The kinds of tokens that lead to a stage; to the start none does. -/
def entries : Stage → List (Option Token.Kind)
  | start => [none]
  | parameters | valued => [some .word, some .text]
  | named => [some .word]
  | marked => [some .plus, some .minus]
  | slashed => [some .slash]
  | coloned => [some .colon]
  | finished => [some .terminal]

/-- Whether an option has begun. -/
def inOptions : Stage → Bool
  | start | parameters | marked | finished => false
  | slashed | named | coloned | valued => true

/-- Tokens of these kinds are such as stand in front of the stage. -/
structure Behind (q : Stage) (ks : List Token.Kind) : Prop where
  getLast?_mem : ks.getLast? ∈ q.entries
  slash_mem_iff : .slash ∈ ks ↔ q.inOptions = true

theorem mem_entries_of_step (h : p.step k = some q) : some k ∈ q.entries := by
  cases p <;> cases k <;> cases h <;> decide

/-- An option begins with a slash, and options never end before the line. -/
theorem inOptions_of_step (hk : k ≠ .terminal) (h : p.step k = some q) :
    q.inOptions = true ↔ p.inOptions = true ∨ k = .slash := by
  revert hk
  cases p <;> cases k <;> cases h <;> decide

/-- One token more. -/
theorem Behind.step (h : p.Behind ks) (hk : k ≠ .terminal) (hstep : p.step k = some q) :
    q.Behind (ks ++ [k]) where
  getLast?_mem := by
    rw [List.getLast?_concat]
    exact mem_entries_of_step hstep
  slash_mem_iff := by
    rw [List.mem_append, List.mem_singleton, h.slash_mem_iff, inOptions_of_step hk hstep,
      @eq_comm _ k]

theorem Behind.run (h : p.Behind ks) (hls : ∀ k ∈ ls, k ≠ .terminal)
    (hrun : p.run ls = some q) : q.Behind (ks ++ ls) := by
  induction ls generalizing p ks with
  | nil =>
    cases hrun
    rwa [List.append_nil]
  | cons k ls ih =>
    obtain ⟨hk, hls⟩ := List.forall_mem_cons.1 hls
    obtain ⟨p', hstep, hrun⟩ := Option.bind_eq_some_iff.1 hrun
    rw [List.append_cons]
    exact ih (h.step hk hstep) hls hrun

theorem behind_of_run (hks : ∀ k ∈ ks, k ≠ .terminal) (h : start.run ks = some q) :
    q.Behind ks := by
  have hstart : start.Behind [] := ⟨List.mem_singleton_self _, by decide⟩
  exact hstart.run hks h

/-! ### What the stage says -/

/-- The error of a stage is that of the tokens in front of it. -/
theorem Behind.complaint_eq (h : q.Behind ks) (hq : q ≠ finished) :
    complaint ks = (q.rules, q.expected) := by
  obtain ⟨hlast, hslash⟩ := h
  unfold complaint
  simp only [hslash]
  -- what is left of the tokens is which one is the last
  revert hq hlast
  generalize ks.getLast? = last
  rcases last with _ | k
  · cases q <;> decide
  · cases q <;> cases k <;> decide

/-- Among parameters, only a colon cannot stand behind a word or a text. -/
theorem Behind.eq_colon {last : Token.Kind} (h : q.Behind ks) (hq : q ≠ finished)
    (hslash : .slash ∉ ks) (hlast : ks.getLast? = some last)
    (hmark : last ≠ .plus ∧ last ≠ .minus) (hnone : q.step k = none) : k = .colon := by
  have hmem := h.getLast?_mem
  rw [h.slash_mem_iff] at hslash
  rw [hlast] at hmem
  revert hq hslash hmem hmark hnone
  cases q <;> cases last <;> cases k <;> decide

/-- Reading stops in the middle of a command. -/
theorem getLast?_rules (hq : q ≠ finished) : q.rules.getLast? = some .command := by
  revert hq
  cases q <;> decide

end Stage

/-- The path of an error begins with the outermost rule. -/
theorem exists_rulePath {e : GrammarError} {rule : Rule} (h : e.rules.getLast? = some rule) :
    ∃ inner, e.rulePath = rule.name ++ inner := by
  obtain ⟨rules, hrules⟩ := List.getLast?_eq_some_iff.1 h
  rw [GrammarError.rulePath, hrules, List.reverse_concat, List.map_cons]
  cases rules.reverse.map Rule.name with
  | nil => exact ⟨"", by simp⟩
  | cons name names => exact ⟨_, by rw [String.intercalate_cons_cons, String.append_assoc]⟩

/-- **An error says what the tokens in front of it say.** The error is about one token of the
line, which its span tells from all others. The rules that it names and the kinds that it lists
are those of `complaint` for the tokens in front of this one. If there are such, and neither a
slash is among them nor a mark the last of them, the token is a colon; the last of them is never
the end of the line. The outermost rule is always that of the command, with which the path of the
error begins; and where options are read to their end, so is the line. -/
theorem error_by_tokens_before {line : String} {s : TokenStream} {e : GrammarError}
    (hs : tokenize line = .ok s) (he : ofStream s = .error e) :
    (∃ j, ∃ hj : j < s.tokens.length, e.found = s.tokens[j]
        ∧ (∀ i (hi : i < s.tokens.length), s.tokens[i].span = e.found.span → i = j)
        ∧ (e.rules, e.expected) = complaint (kinds (s.tokens.take j))
        ∧ ∀ last, (kinds (s.tokens.take j)).getLast? = some last → last ≠ .terminal
          ∧ (.slash ∉ kinds (s.tokens.take j) → last ≠ .plus ∧ last ≠ .minus →
            e.found.kind = .colon))
      ∧ e.rules.getLast? = some .command
      ∧ (∃ inner, e.rulePath = Rule.command.name ++ inner)
      ∧ ∀ ts os rest, readOptions ts = .ok (os, rest) → expectEnd rest = .ok () := by
  obtain ⟨used, after, q, htokens, hbody, hrun, hnone, hexpected, hrules, -⟩ :=
    exists_stage_of_error he
  have htake : s.tokens.take used.length = used := by rw [htokens, List.take_left]
  have hkinds : ∀ k ∈ kinds used, k ≠ .terminal :=
    List.forall_mem_map.2 fun t ht => s.body_kind t (hbody.subset ht)
  have hq : q ≠ .finished := Stage.ne_finished_of_run Stage.noConfusion hkinds hrun
  have hbehind := Stage.behind_of_run hkinds hrun
  have hcommand : e.rules.getLast? = some .command := by
    rw [hrules]
    exact Stage.getLast?_rules hq
  have hj : used.length < s.tokens.length := by simp [htokens]
  have hfound : e.found = s.tokens[used.length] := by simp [htokens]
  refine ⟨⟨used.length, hj, hfound, fun i hi hspan => ?_, ?_, fun last hlast => ⟨?_, ?_⟩⟩, hcommand,
    exists_rulePath hcommand, fun ts os rest hread => ?_⟩
  · rw [hfound] at hspan
    exact TokenStream.index_unique hs hi hj hspan
  · rw [htake, hbehind.complaint_eq hq, hrules, hexpected]
  · rw [htake] at hlast
    exact hkinds last (List.mem_of_getLast? hlast)
  · rw [htake] at hlast ⊢
    exact fun hslash hmark => hbehind.eq_colon hq hslash hlast hmark hnone
  · obtain ⟨-, rfl⟩ := readOptions_eq_ok.1 hread
    rfl

/-- The tokens of `tag 17 /x:"é" 9`, where a word stands behind the value of an option. -/
def wordBehindValue : TokenStream where
  line := "tag 17 /x:\"é\" 9"
  body := [⟨.word, "tag", ⟨0, 3⟩⟩, ⟨.word, "17", ⟨4, 6⟩⟩, ⟨.slash, "/", ⟨7, 8⟩⟩,
    ⟨.word, "x", ⟨8, 9⟩⟩, ⟨.colon, ":", ⟨9, 10⟩⟩, ⟨.text, "é", ⟨10, 14⟩⟩, ⟨.word, "9", ⟨15, 16⟩⟩]
  terminal := ⟨.terminal, "", .empty 16⟩
  body_kind := by decide
  terminal_kind := rfl

/-- Both words that follow the imperative are alike, but the second one stands behind an option. -/
theorem error_at_wordBehindValue :
    tokenize "tag 17 /x:\"é\" 9" = .ok wordBehindValue
      ∧ ofStream wordBehindValue = .error ⟨"tag 17 /x:\"é\" 9", ⟨.word, "9", ⟨15, 16⟩⟩,
        [.slash, .terminal], [.optionList, .command]⟩
      ∧ complaint [.word, .word, .slash, .word, .colon, .text]
        = ([.optionList, .command], [.slash, .terminal]) := by
  have hs : tokenize "tag 17 /x:\"é\" 9" = .ok wordBehindValue := by decide +kernel
  have he : ofStream wordBehindValue = .error ⟨"tag 17 /x:\"é\" 9", ⟨.word, "9", ⟨15, 16⟩⟩,
      [.slash, .terminal], [.optionList, .command]⟩ := by decide +kernel
  obtain ⟨⟨j, -, -, hplace, hcomplaint, -⟩, -⟩ := error_by_tokens_before hs he
  obtain rfl : 6 = j := hplace 6 (by decide) rfl
  exact ⟨hs, he, hcomplaint.symm⟩

end CommandLine.Tree
