import CommandLine.AddressBook.Shape
import CommandLine.Proofs.QuoteParity
import CommandLine.Proofs.Stages
import CommandLine.Proofs.Stations
/-!
# CommandLine.Proofs.Culprit

**A syntax error points at the text at fault.** The characters that an error of tokens or of
grammar complains of stand in the line, at the span of the error: these are the fragment that
begins no token, or the token that cannot stand where it stands, with its quotes. The report has
its carets below just these characters (`syntaxError_points_at_culprit`).

The span is made by the scanner and counts bytes, the carets are placed by characters. What ties
the two together is `Span.Delimits`: a span that is that of some characters is cut out of the line
without any rounding.
-/

namespace CommandLine

open Text (byteLength cutAtByte cutAtByte_byteLength)

section

variable {line : String} {span : Span} {before mid after : List Char}

/-- The carets of a span between characters: none of them is shared with a neighbour. -/
theorem Span.Delimits.columns_eq (h : span.Delimits line before mid after) :
    span.columns line.toList = (before.length, mid.length) := by
  have hwidth : span.stop - byteLength before = byteLength mid := by
    rw [h.stop_eq]
    omega
  rw [Span.columns, h.cutAtByte_start]
  dsimp only
  rw [hwidth, cutAtByte_byteLength]

theorem Span.Delimits.caretLines_eq (h : span.Delimits line before mid after) :
    caretLines line span = line ++ "\n" ++ String.ofList (List.replicate before.length ' ')
      ++ String.ofList (List.replicate (max 1 mid.length) '^') := by
  rw [caretLines, h.columns_eq]

end

/-- The end of the line is the last token and no other one. -/
theorem TokenStream.eq_terminal {s : TokenStream} {t : Token} (ht : t ∈ s.tokens)
    (hkind : t.kind = .terminal) : t = s.terminal := by
  rcases List.mem_append.1 ht with ht | ht
  · exact absurd hkind (s.body_kind t ht)
  · exact List.mem_singleton.1 ht

namespace AssemblyError

/-- The error says that the characters `culprit` of a line are at fault, which stand at `span`.
Its report has carets below them, and `note` at its end. -/
structure PointsAt (e : AssemblyError) (line : String) (span : Span) (culprit : List Char)
    (note : String) : Prop where
  line?_eq : e.line? = some line
  span?_eq : e.span? = some span
  span_toDiagnostic : e.toDiagnostic.span = some span
  start_le_stop : span.start ≤ span.stop
  stop_le : span.stop ≤ line.utf8ByteSize
  isValid_start : String.Pos.Raw.IsValid line ⟨span.start⟩
  isValid_stop : String.Pos.Raw.IsValid line ⟨span.stop⟩
  extract_eq : line.toUTF8.extract span.start span.stop = culprit.utf8Encode
  exists_report : ∃ before after, span.Delimits line before culprit after
    ∧ e.report = e.headline ++ "\n" ++ line ++ "\n"
      ++ String.ofList (List.replicate before.length ' ')
      ++ String.ofList (List.replicate (max 1 culprit.length) '^') ++ note

variable {e : AssemblyError} {line : String} {span : Span} {before culprit after : List Char}

/-- To point at characters it is enough to have their span. -/
theorem pointsAt_of_delimits (h : span.Delimits line before culprit after)
    (hline : e.line? = some line) (hspan : e.span? = some span) :
    e.PointsAt line span culprit e.grammarNote where
  line?_eq := hline
  span?_eq := hspan
  span_toDiagnostic := hspan
  start_le_stop := h.start_le_stop
  stop_le := h.stop_le
  isValid_start := h.isValid_start
  isValid_stop := h.isValid_stop
  extract_eq := h.extract_eq
  exists_report := by
    refine ⟨before, after, h, ?_⟩
    simp only [report, hline, hspan, h.caretLines_eq, String.append_assoc]

/-- The fragment without a token is in the line. -/
theorem pointsAt_of_tokenize {x : LexicalError} (h : tokenize line = .error (.lexical x)) :
    (lexical x).PointsAt line x.span x.fragment.toList "" ∧ x.span.start < x.span.stop := by
  obtain ⟨hfails, rfl⟩ := tokenize_eq_lexical_iff.1 h
  obtain ⟨hne, before, after, hdelimits⟩ := hfails.exists_delimits
  refine ⟨pointsAt_of_delimits hdelimits rfl rfl, ?_⟩
  have hwidth := mt hdelimits.start_eq_stop_iff.1 hne
  have hle := hdelimits.start_le_stop
  omega

/-- The token that cannot stand where it stands is in the line, or is its end. -/
theorem pointsAt_of_ofStream {s : TokenStream} {g : GrammarError} (hs : tokenize line = .ok s)
    (h : Tree.ofStream s = .error g) :
    (grammatical g).PointsAt line g.found.span g.found.spelling (grammatical g).grammarNote
      ∧ (g.found.span.start = g.found.span.stop ↔ g.found.kind = .terminal)
      ∧ (g.found.kind = .terminal → g.found.span = .empty line.utf8ByteSize) := by
  obtain ⟨used, rest, q, htokens, -, -, -, -, -, hline⟩ := Tree.exists_stage_of_error h
  have hfound : g.found ∈ s.tokens := by simp [htokens]
  obtain ⟨-, hterminal, hline'⟩ := TokenStream.of_tokenize hs
  obtain ⟨before, after, hdelimits, hempty⟩ := TokenStream.exists_delimits hs hfound
  have hseen : (grammatical g).line? = some line := congrArg some (hline.trans hline')
  refine ⟨pointsAt_of_delimits hdelimits hseen rfl, ?_, fun hkind => ?_⟩
  · rw [hdelimits.start_eq_stop_iff, hempty]
  · rw [TokenStream.eq_terminal hfound hkind, hterminal, ← Text.utf8ByteSize_eq]

end AssemblyError

open AssemblyError in
/-- **A syntax error points at the text at fault.** If a line has no command because of its tokens,
the error is about a fragment of the line that is not empty. If it is because of the grammar, the
error is about one of the tokens, as it is written in the line; that one has no width only at the
end of the line, and the rules and the kinds of tokens are told below the carets. All other errors
have no place in the line, and their reports are one line only. -/
theorem syntaxError_points_at_culprit {α : Type} {d : Decoder α} {line : String}
    {e : AssemblyError} (h : assemble d line = .error e) :
    (∀ x, e = .lexical x →
        e.PointsAt line x.span x.fragment.toList "" ∧ x.span.start < x.span.stop)
      ∧ (∀ g, e = .grammatical g →
        e.PointsAt line g.found.span g.found.spelling
            ("\nrule: " ++ g.rulePath ++ "\nexpected: " ++ g.expectedList ++ ", found: "
              ++ g.found.kind.name)
          ∧ (g.found.span.start = g.found.span.stop ↔ g.found.kind = .terminal)
          ∧ (g.found.kind = .terminal → g.found.span = .empty line.utf8ByteSize))
      ∧ (e.isSyntax = false →
        e.line? = none ∧ e.span? = none ∧ e.report = e.headline) := by
  refine ⟨?_, ?_, ?_⟩
  · rintro x rfl
    rcases parse_eq_error_iff.1 ((assemble_eq_syntaxError_iff rfl).1 h) with htokens | hgrammar
    · exact pointsAt_of_tokenize htokens
    · obtain ⟨_, _, -, -, hother⟩ := hgrammar
      cases hother
  · rintro g rfl
    rcases parse_eq_error_iff.1 ((assemble_eq_syntaxError_iff rfl).1 h) with htokens | hgrammar
    · obtain ⟨_, -, hother⟩ := tokenize_eq_error_iff.1 htokens
      cases hother
    · obtain ⟨s, _, hs, htree, hg⟩ := hgrammar
      cases hg
      exact pointsAt_of_ofStream hs htree
  · intro hsyntax
    cases e with
    | lexical _ => cases hsyntax
    | grammatical _ => cases hsyntax
    | resolution _ => simp [line?, span?, report, grammarNote]
    | validation _ => simp [line?, span?, report, grammarNote]

/-- The error of `add "ü" /"é"`: the name of an option has no quotes. -/
def quotedName : GrammarError where
  line := "add \"ü\" /\"é\""
  found := ⟨.text, "é", ⟨10, 14⟩⟩
  expected := [.word]
  rules := [.word, .option, .optionList, .command]

/-- The error is about the quotes too, which are not in the literal of the token, and both letters
take two bytes. -/
theorem points_at_quotedName :
    assemble ⟨AddressBook.table, .default⟩ "add \"ü\" /\"é\"" = .error (.grammatical quotedName)
      ∧ (AssemblyError.grammatical quotedName).PointsAt "add \"ü\" /\"é\"" ⟨10, 14⟩ ['"', 'é', '"']
        "\nrule: command > option_list > option > word\nexpected: Word, found: Text" := by
  have h : assemble ⟨AddressBook.table, .default⟩ "add \"ü\" /\"é\""
      = .error (.grammatical quotedName) :=
    (assemble_eq_syntaxError_iff rfl).2 (by decide +kernel)
  exact ⟨h, ((syntaxError_points_at_culprit h).2.1 _ rfl).1⟩

example : (AssemblyError.grammatical quotedName).report =
    "error[CMD2001]: unexpected Text `é`\nadd \"ü\" /\"é\"\n         ^^^\n"
      ++ "rule: command > option_list > option > word\nexpected: Word, found: Text" := by
  decide +kernel

end CommandLine
