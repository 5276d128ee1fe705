import CommandLine.Proofs.Culprit
import CommandLine.Proofs.DiagnosticRoundTrip
import CommandLine.Proofs.JsonUniqueness
import CommandLine.Proofs.Subcommands
import CommandLine.Proofs.Wording
/-!
# CommandLine.Proofs.FailureObject

**The object that tells of a failure tells all of it.** Where a line has no command, programs get
one JSON object about it. Its text says the line itself, and a diagnostic that is read back as the
one of the error (`Cli.failure_is_told_in_full`), whatever characters stand in the line. From the
line and the diagnostic the error can be made out (`AssemblyError.eq_of_tells`), so different
failures are told by different objects.

On the way the members of the object and of the objects in it are put in the order of their keys.
For objects with keys that are known this is `SortedMap.entries_ofList_eq`; a context is in order
already (`Diagnostic.sorted_contextToJson`). The parts of a diagnostic are read in this order as
well as in the order in which a diagnostic alone is written (`Diagnostic.gives_sorted`).
-/

namespace CommandLine

open Json (Form Reader Record Value)
open Json.Record (FieldPart)

/-! ### Members in the order of their keys -/

theorem Json.Value.sortedMembers_eq_map (members : List (String × Value)) :
    sortedMembers members = members.map fun m => (m.1, m.2.sorted) := by
  induction members with
  | nil => rfl
  | cons m members ih => rw [sortedMembers, ih, List.map_cons]

/-- An object with different keys has the same members, each in order, in the order of the keys. -/
theorem Json.Value.sorted_object {members ordered : List (String × Value)}
    (hnodup : (members.map (·.1)).Nodup)
    (hmem : ∀ m, m ∈ ordered ↔ m ∈ members.map fun m => (m.1, m.2.sorted))
    (hordered : (ordered.map (·.1)).Pairwise (· < ·)) :
    (Value.object members).sorted = .object ordered := by
  have hkeys : (members.map fun m => (m.1, m.2.sorted)).map (·.1) = members.map (·.1) := by
    rw [List.map_map]
    rfl
  rw [Value.sorted, sortedMembers_eq_map]
  exact congrArg Value.object
    (SortedMap.entries_ofList_eq (hkeys ▸ hnodup) hmem (List.pairwise_map.1 hordered))

/-- The end of a span comes before its start then. -/
theorem Span.sorted_toJson (span : Span) :
    span.toJson.sorted = .object [("end", .natural span.stop), ("start", .natural span.start)] := by
  have hkeys : ["end", "start"].Pairwise (· < ·) := by decide
  refine Value.sorted_object (by simp) (fun m => ?_) hkeys
  simp [Value.sorted, or_comm]

/-- A span is read back, in this order too. -/
theorem Span.gives_sorted {span : Span} (h : span.Fits) :
    record.reader.Gives span.toJson.sorted.form (some span) := by
  have hform : span.toJson.sorted.form = .object (span.parts.reverse.map FieldPart.member) := by
    rw [sorted_toJson]
    rfl
  rw [hform]
  refine Record.gives_parts _ (fun part hpart => ?_) (by simp [parts]) rfl
  simp only [parts, List.mem_reverse, List.mem_cons, List.not_mem_nil, or_false] at hpart
  rcases hpart with rfl | rfl
  · exact ⟨_, rfl, Record.gives_field (Json.gives_toDigits h.1) _ _⟩
  · exact ⟨_, rfl, Record.gives_field (Json.gives_toDigits h.2) _ _⟩

namespace Diagnostic

/-- The entries of a context are in order, and stay there. -/
theorem sorted_contextToJson (context : SortedMap String) :
    (contextToJson context).sorted = contextToJson context := by
  let members : SortedMap Value :=
    ⟨context.entries.map fun e => (e.1, .text e.2), List.pairwise_map.2 context.sorted⟩
  have hmap : Value.sortedMembers members.entries = members.entries := by
    rw [Value.sortedMembers_eq_map, List.map_map]
    exact List.map_congr_left fun e _ => rfl
  show (Value.object members.entries).sorted = .object members.entries
  rw [Value.sorted, hmap, SortedMap.ofList_entries]

/-- The members of a diagnostic in the order of their keys. -/
def orderedMembers (d : Diagnostic) : List (String × Value) :=
  (d.context.map fun context => ("context", contextToJson context)).toList
    ++ [("id", .text d.id), ("message", .text d.message), ("severity", .text d.severity.name)]
    ++ (d.span.map fun span => ("span", span.toJson.sorted)).toList

theorem sorted_toJson (d : Diagnostic) : d.toJson.sorted = .object d.orderedMembers := by
  obtain ⟨id, severity, message, span, context⟩ := d
  have hcontext (context : SortedMap String) := sorted_contextToJson context
  have hkeys : ["context", "id", "message", "severity", "span"].Pairwise (· < ·) := by decide
  cases span <;> cases context <;>
    refine Value.sorted_object (by simp) (fun m => ?_) (hkeys.sublist (by simp [orderedMembers])) <;>
    simp [orderedMembers, Value.sorted, hcontext] <;> tauto

/-- The same members, with what the fields of a diagnostic make of them. -/
def orderedParts (d : Diagnostic) : List (FieldPart Partial) :=
  (d.context.map fun context =>
      ⟨"context", (contextToJson context).form, fun p => { p with context := some context }⟩).toList
    ++ [⟨"id", .text (some d.id), fun p => { p with id := some d.id }⟩,
      ⟨"message", .text (some d.message), fun p => { p with message := some d.message }⟩,
      ⟨"severity", .text (some d.severity.name), fun p => { p with severity := some d.severity }⟩]
    ++ (d.span.map fun span =>
      ⟨"span", span.toJson.sorted.form, fun p => { p with span := some span }⟩).toList

theorem form_sorted (d : Diagnostic) :
    d.toJson.sorted.form = .object (d.orderedParts.map FieldPart.member) := by
  rw [sorted_toJson]
  obtain ⟨id, severity, message, span, context⟩ := d
  cases span <;> cases context <;> rfl

/-- A diagnostic is read back also when its members are in the order of their keys. -/
theorem gives_sorted {d : Diagnostic} (h : ∀ span ∈ d.span, span.Fits) :
    record.reader.Gives d.toJson.sorted.form (some d) := by
  rw [form_sorted]
  refine Record.gives_parts d.orderedParts (fun part hpart => ?_) ?_ ?_
  · -- but for the span, these are the parts that are written for a diagnostic alone
    rcases List.mem_append.1 hpart with hpart | hpart
    · refine gives_parts h ?_
      rcases List.mem_append.1 hpart with hcontext | htexts
      · exact List.mem_append_right _ hcontext
      · refine List.mem_append_left _ (List.mem_append_left _ ?_)
        simp only [List.mem_cons, List.not_mem_nil, or_false] at htexts ⊢
        tauto
    · rw [Option.mem_toList, Option.map_eq_some_iff] at hpart
      obtain ⟨span, hspan, rfl⟩ := hpart
      have hnull : span.toJson.sorted.form ≠ .null := by
        rw [Span.sorted_toJson]
        exact nofun
      exact ⟨_, rfl, Record.gives_field ((Span.gives_sorted (h span hspan)).optional hnull) _ _⟩
  · obtain ⟨id, severity, message, span, context⟩ := d
    cases span <;> cases context <;> simp [orderedParts]
  · obtain ⟨id, severity, message, span, context⟩ := d
    cases span <;> cases context <;> rfl

/-- A value in a JSON text tells of a diagnostic: it is the value of whole texts too, and all of
them are read as the diagnostic. -/
def ToldBy (d : Diagnostic) (v : Form) : Prop :=
  (∃ text, v.IsText text) ∧ ∀ text, v.IsText text → parse text = .ok d

theorem toldBy_sorted {d : Diagnostic} (h : ∀ span ∈ d.span, span.Fits) :
    d.ToldBy d.toJson.sorted.form :=
  ⟨⟨_, d.toJson.sorted.isText_compact⟩, fun _ htext => htext.parse_eq_ok (gives_sorted h)⟩

end Diagnostic

/-! ### The object of a failure -/

namespace AssemblyError

variable {α : Type} {d : Decoder α} {line : String} {e : AssemblyError}

/-- What is at fault where the text of a line is. -/
theorem exists_pointsAt_of_assemble (h : assemble d line = .error e) (hseen : e.isSyntax = true) :
    ∃ span culprit note, e.PointsAt line span culprit note := by
  rcases parse_eq_error_iff.1 ((assemble_eq_syntaxError_iff hseen).1 h) with
    htokens | ⟨s, g, hs, htree, rfl⟩
  · obtain ⟨fault, -, rfl⟩ := tokenize_eq_error_iff.1 htokens
    exact ⟨_, _, _, (pointsAt_of_tokenize htokens).1⟩
  · exact ⟨_, _, _, (pointsAt_of_ofStream hs htree).1⟩

/-- An error has a place just when it is about the text of the line. -/
theorem isSome_span? (e : AssemblyError) : e.span?.isSome = e.isSyntax := by
  cases e <;> rfl

/-- An error lies within its line, so its offsets fit where those of the line do. -/
theorem span_fits (h : assemble d line = .error e) (hsize : line.utf8ByteSize < Nat.pow 2 64) :
    ∀ span ∈ e.span?, span.Fits := by
  intro span hspan
  have hseen : e.isSyntax = true := by
    rw [← isSome_span?, hspan]
    rfl
  obtain ⟨_, _, _, hpoints⟩ := exists_pointsAt_of_assemble h hseen
  obtain rfl := Option.some.inj (hspan.symm.trans hpoints.span?_eq)
  have hle := hpoints.start_le_stop
  have hstop := hpoints.stop_le
  exact ⟨by omega, by omega⟩

/-- The line that an error is about is the one that was read. -/
theorem line?_of_assemble (h : assemble d line = .error e) :
    e.line? = if e.isSyntax then some line else none := by
  by_cases hseen : e.isSyntax = true
  · obtain ⟨_, _, _, hpoints⟩ := exists_pointsAt_of_assemble h hseen
    rw [if_pos hseen, hpoints.line?_eq]
  · rw [if_neg hseen]
    cases e with
    | lexical | grammatical => exact absurd rfl hseen
    | resolution | validation => rfl

/-- The parts of errors of lines are as they should be, if this goes for the keywords. -/
theorem regular_of_assemble (hkeywords : ∀ keyword ∈ d.table.keywords, IsItem ',' keyword)
    (h : assemble d line = .error e) : e.Regular := by
  cases e with
  | lexical | validation => trivial
  | grammatical g =>
    intro hterminal
    rcases parse_eq_error_iff.1 ((assemble_eq_syntaxError_iff rfl).1 h) with
      htokens | ⟨s, g', hs, htree, hg⟩
    · obtain ⟨_, -, hother⟩ := tokenize_eq_error_iff.1 htokens
      cases hother
    · cases hg
      obtain ⟨used, rest, q, htokens, -⟩ := Tree.exists_stage_of_error htree
      have hfound : g.found ∈ s.tokens := by simp [htokens]
      rw [TokenStream.eq_terminal hfound hterminal, (TokenStream.of_tokenize hs).2.1]
  | resolution r =>
    rcases assemble_eq_error_iff.1 h with ⟨hseen, -⟩ | ⟨-, b, -, hdecode⟩
    · cases hseen
    · have hselect : d.select b.imperative = .error r := by
        rcases bind_eq_error.1 hdecode with hresolve | ⟨_, -, hconstruct⟩
        · obtain ⟨_, hselect, hr⟩ := mapError_eq_error.1 hresolve
          cases hr
          exact hselect
        · obtain ⟨_, -, hother⟩ := mapError_eq_error.1 hconstruct
          cases hother
      rcases Decoder.of_select_eq_error hselect with ⟨-, rfl⟩ | ⟨-, rfl⟩
      · trivial
      · intro keyword hkeyword
        rw [Decoder.candidates_eq] at hkeyword
        exact hkeywords keyword ((List.filter_sublist.map _).subset hkeyword)

end AssemblyError

namespace Cli

theorem assemblyFailure_eq (line : String) (d : Diagnostic) :
    assemblyFailure line d = .object [("diagnostics", .array [d.toJson.sorted]),
      ("error", .text "assembly_failed"), ("input", .text line), ("success", .boolean false)] := by
  have hkeys : ["diagnostics", "error", "input", "success"].Pairwise (· < ·) := by decide
  refine Value.sorted_object (by simp) (fun m => ?_) hkeys
  simp only [List.map_cons, List.map_nil, Value.sorted, Value.sortedItems, List.mem_cons,
    List.not_mem_nil, or_false]
  tauto

/-- The text of an object tells the line and what is said of the diagnostic. -/
theorem of_assemblyFailure_pretty_eq {line line' : String} {d d' : Diagnostic}
    (h : (assemblyFailure line d).pretty = (assemblyFailure line' d').pretty) :
    line = line' ∧ d.toJson.sorted = d'.toJson.sorted := by
  have hobject := Value.pretty_injective h
  rw [assemblyFailure_eq, assemblyFailure_eq] at hobject
  simpa [and_comm] using hobject

/-- Different failures of the address book are told by different objects. -/
theorem eq_of_assemblyFailure_pretty_eq {config config' : Config} {line line' : String}
    {e e' : AssemblyError} (h : assemble (decoder config) line = .error e)
    (h' : assemble (decoder config') line' = .error e') (hsize : line.utf8ByteSize < Nat.pow 2 64)
    (htext : (assemblyFailure line e.toDiagnostic).pretty =
      (assemblyFailure line' e'.toDiagnostic).pretty) : line' = line ∧ e' = e := by
  obtain ⟨rfl, hsorted⟩ := of_assemblyFailure_pretty_eq htext
  refine ⟨rfl, ?_⟩
  have htold : e.toDiagnostic.ToldBy e.toDiagnostic.toJson.sorted.form :=
    Diagnostic.toldBy_sorted (AssemblyError.span_fits h hsize)
  have htold' : e'.toDiagnostic.ToldBy e'.toDiagnostic.toJson.sorted.form :=
    Diagnostic.toldBy_sorted (AssemblyError.span_fits h' hsize)
  rw [← hsorted] at htold'
  -- the same text is read as both diagnostics
  have hdiagnostic : e.toDiagnostic = e'.toDiagnostic := by
    obtain ⟨text, htext⟩ := htold.1
    exact Except.ok.inj ((htold.2 text htext).symm.trans (htold'.2 text htext))
  have hkeywords : ∀ keyword ∈ AddressBook.table.keywords, IsItem ',' keyword := by
    decide +kernel
  have hseen : e.isSyntax = e'.isSyntax := by
    rw [← e.isSome_span?, ← e'.isSome_span?]
    exact congrArg (·.span.isSome) hdiagnostic
  refine (AssemblyError.eq_of_tells (AssemblyError.regular_of_assemble hkeywords h)
    (AssemblyError.regular_of_assemble hkeywords h') ?_ (AssemblyError.tells_iff.2 rfl)
    (AssemblyError.tells_iff.2 hdiagnostic)).symm
  rw [AssemblyError.line?_of_assemble h, AssemblyError.line?_of_assemble h', hseen]

/-- **A failure is told in full.** If a line has no command, what is printed for programs is a text
and a line break, whatever the options and wherever the line comes from. The text is a JSON text,
and says one thing only: an object with just four members, of which `input` is the line and
`success` is not true. The one item of `diagnostics` is read as the diagnostic of the error, as
long as the offsets into the line are machine words. This diagnostic tells of the error, and no
other failure has the same text. -/
theorem failure_is_told_in_full {config : Config} {line : String} {e : AssemblyError}
    {draw : Picture → String} (h : assemble (decoder config) line = .error e) :
    ∃ text told, (Failure.assembly line e).outcome draw .json = ⟨1, text ++ "\n", ""⟩
      ∧ (∀ w options argument, readLine argument w.stdin = .ok line →
        resolveConfig w options = .ok config →
          answer draw w options .json (.stage .decode argument) = ⟨1, text ++ "\n", ""⟩)
      ∧ (∀ v : Form, v.IsText text ↔ v = .object [(some "diagnostics", .array [told]),
        (some "error", .text (some "assembly_failed")), (some "input", .text (some line)),
        (some "success", .boolean false)])
      ∧ (∀ d, e.Tells d ↔ d = e.toDiagnostic)
      ∧ (line.utf8ByteSize < Nat.pow 2 64 → e.toDiagnostic.ToldBy told
        ∧ ∀ config' line' e', assemble (decoder config') line' = .error e' →
          (Failure.assembly line' e').outcome draw .json = ⟨1, text ++ "\n", ""⟩ →
            line' = line ∧ e' = e) := by
  have htext := (assemblyFailure line e.toDiagnostic).isText_pretty
  have hform : (assemblyFailure line e.toDiagnostic).form
      = .object [(some "diagnostics", .array [e.toDiagnostic.toJson.sorted.form]),
        (some "error", .text (some "assembly_failed")), (some "input", .text (some line)),
        (some "success", .boolean false)] := by
    rw [assemblyFailure_eq]
    rfl
  rw [hform] at htext
  refine ⟨_, _, rfl, fun w options argument hline hconfig => ?_, fun v =>
    ⟨fun hv => hv.unique htext, ?_⟩, fun d => AssemblyError.tells_iff, fun hsize =>
    ⟨Diagnostic.toldBy_sorted (AssemblyError.span_fits h hsize),
      fun config' line' e' h' houtcome => ?_⟩⟩
  · exact answer_stage_error hline (fun _ => hconfig) (by rw [showStage_decode, h]; rfl)
  · rintro rfl
    exact htext
  · have hprinted : (assemblyFailure line' e'.toDiagnostic).pretty ++ "\n"
        = (assemblyFailure line e.toDiagnostic).pretty ++ "\n" := congrArg Outcome.stdout houtcome
    exact eq_of_assemblyFailure_pretty_eq h h' hsize (by simpa using hprinted.symm)

/-- The error of a line in which a control character and a backslash stand behind a quote that
nothing closes. -/
def unclosedQuote : LexicalError where
  cause := .unterminatedText
  fragment := "\"\x01\\é"
  span := ⟨4, 9⟩
  line := "add \"\x01\\é"

/-- The quote, the control character and the backslash are in the line, in the message and in the
context, and all three are told as they are. -/
theorem unclosedQuote_is_told :
    assemble (decoder .exact) unclosedQuote.line = .error (.lexical unclosedQuote)
      ∧ ∃ text told, answer Picture.compact exactNames withFile .json
          (.stage .decode (some unclosedQuote.line)) = ⟨1, text ++ "\n", ""⟩
        ∧ (∀ v : Form, v.IsText text ↔ v = .object [(some "diagnostics", .array [told]),
          (some "error", .text (some "assembly_failed")),
          (some "input", .text (some unclosedQuote.line)), (some "success", .boolean false)])
        ∧ (AssemblyError.lexical unclosedQuote).toDiagnostic.ToldBy told := by
  have h : assemble (decoder .exact) unclosedQuote.line = .error (.lexical unclosedQuote) := by
    decide +kernel
  have hconfig : resolveConfig exactNames withFile = .ok .exact := by decide +kernel
  have hdash : unclosedQuote.line ≠ "-" := by decide
  obtain ⟨text, told, -, hanswer, htext, -, htold⟩ :=
    @failure_is_told_in_full _ _ _ Picture.compact h
  exact ⟨h, text, told, hanswer _ _ _ (readLine_some hdash _) hconfig, htext,
    (htold (by decide +kernel)).1⟩

end Cli

end CommandLine
