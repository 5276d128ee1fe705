import Mathlib.Data.List.Basic
import CommandLine.AssemblyError
import CommandLine.Proofs.JsonViews
import CommandLine.Proofs.SortedMap
import CommandLine.Tree.Node
/-!
# CommandLine.Proofs.Wording

**Nothing is lost when an error is told.** Rules are named like the nodes that they make
(`Tree.Node.rule?_eq_some_iff`). Lists of rules and of kinds of tokens are told by names with a
separator in between, and can be told apart again (`GrammarError.rulePath_eq_iff`,
`GrammarError.expectedList_eq_iff`).

A diagnostic holds the code, the summary and the place of its error, and the facts about it
(`AssemblyError.tells_iff`). But for its line the error can be made out from that
(`AssemblyError.eq_of_tells`), unless its parts are such as no error has: a text at the
end of the line, or keywords with commas in them.
-/

namespace CommandLine

/-! ### Names with a separator in between -/

/-- A text that can be an item of a list whose separator begins with `c`. -/
def IsItem (c : Char) (s : String) : Prop := s ≠ "" ∧ c ∉ s.toList

instance (c : Char) (s : String) : Decidable (IsItem c s) :=
  inferInstanceAs (Decidable (_ ∧ _))

/-- What stands before the first `c` and what stands behind it are told apart. -/
theorem append_cons_inj {c : Char} {before before' after after' : List Char}
    (hbefore : c ∉ before) (hbefore' : c ∉ before')
    (h : before ++ c :: after = before' ++ c :: after') : before = before' ∧ after = after' := by
  rcases List.append_eq_append_iff.1 h with ⟨more, rfl, hmore⟩ | ⟨more, rfl, hmore⟩
  · cases more with
    | nil => simpa using hmore
    | cons d more =>
      obtain ⟨rfl, -⟩ := List.cons.inj hmore
      simp at hbefore'
  · cases more with
    | nil => simpa [eq_comm] using hmore
    | cons d more =>
      obtain ⟨rfl, -⟩ := List.cons.inj hmore
      simp at hbefore

theorem eq_of_intercalate_chars_eq {c : Char} {cs : List Char} {xs ys : List (List Char)}
    (hxs : ∀ x ∈ xs, x ≠ [] ∧ c ∉ x) (hys : ∀ y ∈ ys, y ≠ [] ∧ c ∉ y)
    (h : (c :: cs).intercalate xs = (c :: cs).intercalate ys) : xs = ys := by
  induction xs generalizing ys with
  | nil =>
    cases ys with
    | nil => rfl
    | cons y ys =>
      have hy := (hys y List.mem_cons_self).1
      cases ys <;> simp_all
  | cons x xs ih =>
    obtain ⟨⟨hx, hcx⟩, hrest⟩ := List.forall_mem_cons.1 hxs
    cases ys with
    | nil => cases xs <;> simp_all
    | cons y ys =>
      obtain ⟨⟨hy, hcy⟩, hrest'⟩ := List.forall_mem_cons.1 hys
      cases xs with
      | nil =>
        cases ys with
        | nil => simpa using h
        | cons y' ys =>
          rw [List.intercalate_singleton, List.intercalate_cons_cons] at h
          simp [h] at hcx
      | cons x' xs =>
        cases ys with
        | nil =>
          rw [List.intercalate_singleton, List.intercalate_cons_cons] at h
          simp [← h] at hcy
        | cons y' ys =>
          simp only [List.intercalate_cons_cons, List.append_assoc, List.cons_append] at h
          obtain ⟨rfl, hmore⟩ := append_cons_inj hcx hcy h
          rw [ih hrest hrest' (List.append_cancel_left hmore)]

/-- Items with a separator in between are told apart by it. -/
theorem eq_of_intercalate_eq {sep : String} {c : Char} {cs : List Char} {xs ys : List String}
    (hsep : sep.toList = c :: cs) (hxs : ∀ x ∈ xs, IsItem c x) (hys : ∀ y ∈ ys, IsItem c y)
    (h : sep.intercalate xs = sep.intercalate ys) : xs = ys := by
  have hitems {zs : List String} (hzs : ∀ z ∈ zs, IsItem c z) :
      ∀ z ∈ zs.map String.toList, z ≠ [] ∧ c ∉ z := by
    intro z hz
    obtain ⟨s, hs, rfl⟩ := List.mem_map.1 hz
    exact ⟨fun hnil => (hzs s hs).1 (String.toList_eq_nil_iff.1 hnil), (hzs s hs).2⟩
  have hchars := congrArg String.toList h
  rw [String.toList_intercalate, String.toList_intercalate, hsep] at hchars
  have hlists := eq_of_intercalate_chars_eq (hitems hxs) (hitems hys) hchars
  exact List.map_injective_iff.2 (fun _ _ => String.toList_injective) hlists

/-! ### Rules and kinds of tokens -/

theorem Tree.Rule.name_injective : Function.Injective name := by
  intro r r' h
  cases r <;> cases r' <;> first | rfl | exact absurd h (by decide)

theorem Tree.Rule.isItem_name (r : Rule) : IsItem ' ' r.name := by
  cases r <;> decide

theorem Token.Kind.isItem_name (k : Kind) : IsItem ' ' k.name := by
  cases k <;> decide

/-- A name whose words begin with capitals, in small letters and with an underscore between two
words. -/
def snakeCase (s : String) : String :=
  String.ofList
    ((s.toList.flatMap fun c => if c.isUpper then ['_', c.toLower] else [c]).drop 1)

namespace Tree.Node

variable {n : Node} {r : Rule}

/-- The rule that makes a node. The name and the value of an option are told apart as nodes only. -/
def rule? : Node → Option Rule
  | command _ => some .command
  | imperative _ => some .imperative
  | parameterList _ => some .parameterList
  | parameter _ => some .parameter
  | optionList _ => some .optionList
  | option _ => some .option
  | text _ => some .text
  | word _ => some .word
  | optionName _ | optionValue _ => none

theorem name_of_rule? (h : n.rule? = some r) : r.name = snakeCase n.kindName := by
  cases n <;> cases h <;> dsimp only [kindName] <;> decide +kernel

/-- **A rule makes a node just if it is named like the node.** -/
theorem rule?_eq_some_iff : n.rule? = some r ↔ r.name = snakeCase n.kindName := by
  constructor
  · exact name_of_rule?
  · intro h
    cases hrule : n.rule? with
    | some r' => rw [Rule.name_injective ((name_of_rule? hrule).trans h.symm)]
    | none =>
      cases n with
      | optionName | optionValue =>
        dsimp only [kindName] at h
        cases r <;> exact absurd h (by decide +kernel)
      | _ => cases hrule

end Tree.Node

namespace GrammarError

variable {g g' : GrammarError}

theorem rulePath_eq_iff : g.rulePath = g'.rulePath ↔ g.rules = g'.rules := by
  constructor
  · intro h
    have hitems (rules : List Tree.Rule) : ∀ s ∈ rules.map Tree.Rule.name, IsItem ' ' s :=
      List.forall_mem_map.2 fun r _ => r.isItem_name
    have hnames := eq_of_intercalate_eq rfl (hitems _) (hitems _) h
    exact List.reverse_injective (Tree.Rule.name_injective.list_map hnames)
  · intro h
    rw [rulePath, rulePath, h]

/-- The path of a colon that stands where the text of a parameter should. -/
example : GrammarError.rulePath ⟨"test :", ⟨.colon, ":", ⟨5, 6⟩⟩, [.text, .word],
    [.text, .parameter, .parameterList, .command]⟩
      = "command > parameter_list > parameter > text" := by
  decide +kernel

theorem expectedList_eq_iff : g.expectedList = g'.expectedList ↔ g.expected = g'.expected := by
  constructor
  · intro h
    have hitems (kinds : List Token.Kind) : ∀ s ∈ kinds.map Token.Kind.name, IsItem ' ' s :=
      List.forall_mem_map.2 fun k _ => k.isItem_name
    exact Token.Kind.name_injective.list_map (eq_of_intercalate_eq rfl (hitems _) (hitems _) h)
  · intro h
    rw [expectedList, expectedList, h]

/-- The literal is told, but at the end of the line. -/
theorem literal_eq_of_summary_eq (hkind : g.found.kind = g'.found.kind)
    (hregular : g.found.kind = .terminal → g.found.literal = g'.found.literal)
    (h : g.summary = g'.summary) : g.found.literal = g'.found.literal := by
  by_cases hterminal : g.found.kind = .terminal
  · exact hregular hterminal
  · rw [summary, summary, if_neg hterminal, ← hkind, if_neg hterminal] at h
    simpa using h

end GrammarError

/-! ### Diagnostics of errors -/

theorem Code.id_injective : Function.Injective Code.id := by
  intro c c' h
  have hfound := congrArg Code.ofId? h
  rwa [Code.ofId?_id, Code.ofId?_id, Option.some.injEq] at hfound

namespace AssemblyError

/-- A report begins as the diagnostic of the error does. -/
theorem headline_eq (e : AssemblyError) : e.headline = e.toDiagnostic.headline := rfl

/-- The facts about an error, by name. -/
inductive Fact : AssemblyError → String → String → Prop
  | fragment (x : LexicalError) : Fact (.lexical x) "fragment" x.fragment
  | expected (g : GrammarError) : Fact (.grammatical g) "expected" g.expectedList
  | found (g : GrammarError) : Fact (.grammatical g) "found" g.found.kind.name
  | rules (g : GrammarError) : Fact (.grammatical g) "rules" g.rulePath
  | unknown (i : String) : Fact (.resolution (.unknown i)) "imperative" i
  | ambiguous (i : String) (cs : List String) :
      Fact (.resolution (.ambiguous i cs)) "imperative" i
  | candidates (i : String) (cs : List String) :
      Fact (.resolution (.ambiguous i cs)) "candidates" (", ".intercalate cs)
  | command (x : ValidationError) : Fact (.validation x) "command" x.command

/-- A diagnostic tells of an error: its code, its summary, its place, and just the facts about it. -/
structure Tells (e : AssemblyError) (d : Diagnostic) : Prop where
  id : d.id = e.code.id
  severity : d.severity = .error
  message : d.message = e.summary
  span : d.span = e.span?
  context : ∃ context, d.context = some context
    ∧ ∀ key value, context.get? key = some value ↔ e.Fact key value

theorem mem_context_iff {e : AssemblyError} {key value : String} :
    (key, value) ∈ e.context ↔ e.Fact key value := by
  constructor
  · intro h
    have hfact : ∀ entry ∈ e.context, e.Fact entry.1 entry.2 := by
      cases e with
      | lexical x => simpa [context] using Fact.fragment x
      | grammatical g => simpa [context] using ⟨Fact.expected g, Fact.found g, Fact.rules g⟩
      | resolution r =>
        cases r with
        | unknown i => simpa [context] using Fact.unknown i
        | ambiguous i cs => simpa [context] using ⟨Fact.candidates i cs, Fact.ambiguous i cs⟩
      | validation x => simpa [context] using Fact.command x
    exact hfact _ h
  · intro h
    cases h <;> simp [context]

/-- No fact is told twice. -/
theorem nodup_context (e : AssemblyError) : (e.context.map (·.1)).Nodup := by
  cases e with
  | resolution r => cases r <;> simp [context]
  | _ => simp [context]

theorem get?_context {e : AssemblyError} {key value : String} :
    (SortedMap.ofList e.context).get? key = some value ↔ e.Fact key value := by
  rw [SortedMap.get?_eq_some_iff, SortedMap.mem_entries_ofList e.nodup_context, mem_context_iff]

/-- **The diagnostic of an error tells of it**, and no other diagnostic does. -/
theorem tells_iff {e : AssemblyError} {d : Diagnostic} : e.Tells d ↔ d = e.toDiagnostic := by
  constructor
  · intro h
    obtain ⟨context, hcontext, hfacts⟩ := h.context
    have hsame : context = .ofList e.context :=
      SortedMap.ext_get? fun key => Option.ext fun value => by rw [hfacts, get?_context]
    obtain ⟨id, severity, message, span, context'⟩ := d
    obtain ⟨rfl, rfl, rfl, rfl, -⟩ := h
    simp_all [toDiagnostic]
  · rintro rfl
    exact ⟨rfl, rfl, rfl, rfl, _, rfl, fun _ _ => get?_context⟩

/-- An error whose parts are like those of the errors of lines: there is no text at the end of the
line, and keywords have no commas. -/
def Regular : AssemblyError → Prop
  | grammatical g => g.found.kind = .terminal → g.found.literal = ""
  | resolution (.ambiguous _ candidates) => ∀ keyword ∈ candidates, IsItem ',' keyword
  | lexical _ | resolution (.unknown _) | validation _ => True

variable {e e' : AssemblyError} {d : Diagnostic}

/-- The same facts are true of errors that one diagnostic tells of. -/
theorem Tells.mem_context (h : e.Tells d) (h' : e'.Tells d) :
    ∀ entry ∈ e.context, entry ∈ e'.context := by
  intro entry hentry
  obtain ⟨context, hcontext, hfacts⟩ := h.context
  obtain ⟨context', hcontext', hfacts'⟩ := h'.context
  obtain rfl := Option.some.inj (hcontext.symm.trans hcontext')
  rw [mem_context_iff] at hentry ⊢
  exact (hfacts' _ _).1 ((hfacts _ _).2 hentry)

/-- The code tells why a line has no tokens, the fragment and the place where. -/
theorem lexical_eq {x x' : LexicalError} (hcode : (lexical x).code = (lexical x').code)
    (hspan : x.span = x'.span) (hline : x.line = x'.line)
    (hcontext : ∀ entry ∈ (lexical x).context, entry ∈ (lexical x').context) : x = x' := by
  have hcause : x.cause = x'.cause := by
    cases hx : x.cause <;> cases hx' : x'.cause <;> simp_all [code]
  have hfragment : x.fragment = x'.fragment := by simpa [context] using hcontext
  obtain ⟨⟨cause, fragment, span⟩, line⟩ := x
  obtain ⟨⟨cause', fragment', span'⟩, line'⟩ := x'
  obtain rfl : cause = cause' := hcause
  obtain rfl : fragment = fragment' := hfragment
  obtain rfl : span = span' := hspan
  obtain rfl : line = line' := hline
  rfl

/-- The facts about an error of grammar tell its rules and the kinds of its tokens, the summary
tells the literal. -/
theorem grammatical_eq {g g' : GrammarError} (hregular : (grammatical g).Regular)
    (hregular' : (grammatical g').Regular) (hsummary : g.summary = g'.summary)
    (hspan : g.found.span = g'.found.span) (hline : g.line = g'.line)
    (hcontext : ∀ entry ∈ (grammatical g).context, entry ∈ (grammatical g').context) : g = g' := by
  obtain ⟨hexpected, hfound, hrules⟩ : g.expectedList = g'.expectedList
      ∧ g.found.kind.name = g'.found.kind.name ∧ g.rulePath = g'.rulePath := by
    simpa [context] using hcontext
  have hkind := Token.Kind.name_injective hfound
  have hliteral := GrammarError.literal_eq_of_summary_eq hkind
    (fun hterminal => (hregular hterminal).trans (hregular' (hkind ▸ hterminal)).symm) hsummary
  rw [GrammarError.expectedList_eq_iff] at hexpected
  rw [GrammarError.rulePath_eq_iff] at hrules
  obtain ⟨line, ⟨kind, literal, span⟩, expected, rules⟩ := g
  obtain ⟨line', ⟨kind', literal', span'⟩, expected', rules'⟩ := g'
  simp_all

theorem resolution_eq {r r' : ResolutionError} (hregular : (resolution r).Regular)
    (hregular' : (resolution r').Regular) (hcode : (resolution r).code = (resolution r').code)
    (hcontext : ∀ entry ∈ (resolution r).context, entry ∈ (resolution r').context) : r = r' := by
  cases r with
  | unknown i =>
    cases r' with
    | unknown i' => simpa [context] using hcontext
    | ambiguous => cases hcode
  | ambiguous i cs =>
    cases r' with
    | unknown => cases hcode
    | ambiguous i' cs' =>
      obtain ⟨hcandidates, hi⟩ : ", ".intercalate cs = ", ".intercalate cs' ∧ i = i' := by
        simpa [context] using hcontext
      rw [hi, eq_of_intercalate_eq rfl hregular hregular' hcandidates]

theorem validation_eq {x x' : ValidationError} (hmessage : x.message = x'.message)
    (hcontext : ∀ entry ∈ (validation x).context, entry ∈ (validation x').context) : x = x' := by
  have hcommand : x.command = x'.command := by simpa [context] using hcontext
  obtain ⟨command, complaint⟩ := x
  obtain ⟨command', complaint'⟩ := x'
  obtain rfl : command = command' := hcommand
  have hcomplaint : complaint = complaint' := by simpa [ValidationError.message] using hmessage
  rw [hcomplaint]

/-- Lines apart, an error can be made out from a diagnostic that tells of it. -/
theorem eq_of_tells (he : e.Regular) (he' : e'.Regular) (hline : e.line? = e'.line?)
    (h : e.Tells d) (h' : e'.Tells d) : e = e' := by
  have hcode : e.code = e'.code := Code.id_injective (h.id.symm.trans h'.id)
  have hsummary : e.summary = e'.summary := h.message.symm.trans h'.message
  have hspan : e.span? = e'.span? := h.span.symm.trans h'.span
  have hcontext := h.mem_context h'
  clear h h'
  -- the names of the facts tell what kind of error it is
  cases e with
  | lexical x =>
    cases e' with
    | lexical x' =>
      rw [lexical_eq hcode (Option.some.inj hspan) (Option.some.inj hline) hcontext]
    | resolution r => cases r <;> simp [context] at hcontext
    | _ => simp [context] at hcontext
  | grammatical g =>
    cases e' with
    | grammatical g' =>
      rw [grammatical_eq he he' hsummary (Option.some.inj hspan) (Option.some.inj hline) hcontext]
    | resolution r => cases r <;> simp [context] at hcontext
    | _ => simp [context] at hcontext
  | resolution r =>
    cases e' with
    | resolution r' => rw [resolution_eq he he' hcode hcontext]
    | _ => cases r <;> simp [context] at hcontext
  | validation x =>
    cases e' with
    | validation x' => rw [validation_eq hsummary hcontext]
    | resolution r => cases r <;> simp [context] at hcontext
    | _ => simp [context] at hcontext

end AssemblyError

end CommandLine
