import CommandLine.Token.Lexer
import CommandLine.Tree.Basic
/-!
# CommandLine.Tree.Parser

From tokens to the tree, by the grammar

```text
command        = imperative parameter_list option_list TERMINAL
imperative     = word
parameter_list = parameter*
parameter      = text | PLUS text | MINUS text
option_list    = (SLASH option)*
option         = word (COLON text)?
text           = TEXT | WORD
word           = WORD
```

One function per rule takes the tokens that are left of the line and gives back what
it read and the tokens left then; the end of the line is the end of the list. One
token ahead decides what to do, so nothing is ever taken back. A function that cannot
go on says so by a `Stuck`: what it expected, the rules it was in, and the tokens it
did not take.
-/

namespace CommandLine

/-- The rules of the grammar. -/
inductive Tree.Rule where
  | command
  | imperative
  | parameterList
  | parameter
  | optionList
  | option
  | text
  | word
  deriving Repr, DecidableEq

/-- The name of a rule. -/
def Tree.Rule.name : Tree.Rule → String
  | command => "command"
  | imperative => "imperative"
  | parameterList => "parameter_list"
  | parameter => "parameter"
  | optionList => "option_list"
  | option => "option"
  | text => "text"
  | word => "word"

/-- Tokens that no tree has: the first one that cannot stand where it stands, the
kinds that could, and the rules that were being read, the innermost first. -/
structure GrammarError where
  line : String
  found : Token
  expected : List Token.Kind
  rules : List Tree.Rule
  deriving Repr, DecidableEq

namespace GrammarError

/-- The rules from the outermost to the innermost one. -/
def rulePath (e : GrammarError) : String :=
  " > ".intercalate (e.rules.reverse.map Tree.Rule.name)

/-- The kinds that could stand there. -/
def expectedList (e : GrammarError) : String := Token.Kind.alternatives e.expected

/-- What was found. -/
def summary (e : GrammarError) : String :=
  if e.found.kind = .terminal then "unexpected end of input"
  else "unexpected " ++ e.found.kind.name ++ " `" ++ e.found.literal ++ "`"

/-- What was found, where, and what was expected. -/
def message (e : GrammarError) : String :=
  "unexpected " ++ e.found.kind.name ++ " `" ++ e.found.literal ++ "` at " ++ e.found.span.text
    ++ "; expected " ++ e.expectedList

end GrammarError

namespace Tree

/-- Where and why reading a tree stopped. -/
structure Stuck where
  /-- The kinds of tokens that could come next. -/
  expected : List Token.Kind
  /-- The rules being read, the innermost first. -/
  rules : List Rule
  /-- The tokens not taken; the first of them is the one that cannot stand. -/
  rest : List Token
  deriving Repr, DecidableEq

/-- Notes that reading, if it stops, stopped in a rule. -/
def within {α : Type} (rule : Rule) (reading : Except Stuck α) : Except Stuck α :=
  reading.mapError fun stuck => { stuck with rules := stuck.rules ++ [rule] }

/-- Takes the next token if it is of one of some kinds. -/
def expect (kinds : List Token.Kind) : List Token → Except Stuck (Token × List Token)
  | [] => .error ⟨kinds, [], []⟩
  | t :: rest => if t.kind ∈ kinds then .ok (t, rest) else .error ⟨kinds, [], t :: rest⟩

/-- Takes the end of the line. -/
def expectEnd : List Token → Except Stuck Unit
  | [] => .ok ()
  | t :: rest => .error ⟨[.terminal], [], t :: rest⟩

/-- Reads a word. -/
def readWord (ts : List Token) : Except Stuck (Token × List Token) :=
  within .word (expect [.word] ts)

/-- Reads a text, or a word in the place of one. -/
def readText (ts : List Token) : Except Stuck (Token × List Token) :=
  within .text (expect [.text, .word] ts)

/-- Reads the imperative. -/
def readImperative (ts : List Token) : Except Stuck (Token × List Token) :=
  within .imperative (readWord ts)

/-- Takes the mark of a parameter, if there is one. -/
def takeMarking : List Token → Marking × List Token
  | [] => (.normal, [])
  | t :: rest =>
    match t.kind with
    | .plus => (.additive, rest)
    | .minus => (.subtractive, rest)
    | _ => (.normal, t :: rest)

/-- Reads a parameter. -/
def readParameter (ts : List Token) : Except Stuck (Parameter × List Token) :=
  within .parameter do
    let (marking, rest) := takeMarking ts
    let (text, rest) ← readText rest
    return (⟨marking, text⟩, rest)

/-- Reads the value of an option, which is there if a colon is. -/
def readValue : List Token → Except Stuck (Option Token × List Token)
  | [] => .ok (none, [])
  | t :: rest =>
    if t.kind = .colon then (readText rest).map fun (text, rest) => (some text, rest)
    else .ok (none, t :: rest)

/-- Reads an option, behind its slash. -/
def readOption (ts : List Token) : Except Stuck (NamedOption × List Token) :=
  within .option do
    let (name, rest) ← readWord ts
    let (value, rest) ← readValue rest
    return (⟨name, value⟩, rest)

/-! ### Every rule takes a token -/

theorem within_eq_ok {α : Type} {rule : Rule} {reading : Except Stuck α} {a : α} :
    within rule reading = .ok a ↔ reading = .ok a := by
  cases reading with
  | error stuck => exact ⟨nofun, nofun⟩
  | ok b => exact Iff.rfl

theorem expect_eq_ok {kinds : List Token.Kind} {ts rest : List Token} {t : Token} :
    expect kinds ts = .ok (t, rest) ↔ ts = t :: rest ∧ t.kind ∈ kinds := by
  cases ts with
  | nil => simp [expect]
  | cons head tail =>
    rw [expect]
    split
    · next h =>
      simp only [Except.ok.injEq, Prod.mk.injEq, List.cons.injEq]
      constructor
      · rintro ⟨rfl, rfl⟩
        exact ⟨⟨rfl, rfl⟩, h⟩
      · exact fun h => h.1
    · next h =>
      simp only [reduceCtorEq, List.cons.injEq, false_iff]
      rintro ⟨⟨rfl, rfl⟩, hk⟩
      exact h hk

theorem readWord_eq_ok {ts rest : List Token} {t : Token} :
    readWord ts = .ok (t, rest) ↔ ts = t :: rest ∧ t.kind = .word := by
  simp [readWord, within_eq_ok, expect_eq_ok]

theorem readText_eq_ok {ts rest : List Token} {t : Token} :
    readText ts = .ok (t, rest) ↔ ts = t :: rest ∧ (t.kind = .text ∨ t.kind = .word) := by
  simp [readText, within_eq_ok, expect_eq_ok]

theorem length_takeMarking_le (ts : List Token) : (takeMarking ts).2.length ≤ ts.length := by
  unfold takeMarking
  split
  · exact Nat.le_refl _
  · split <;> simp

theorem length_le_of_readValue {ts rest : List Token} {value : Option Token}
    (h : readValue ts = .ok (value, rest)) : rest.length ≤ ts.length := by
  unfold readValue at h
  split at h
  · cases h
    exact Nat.le_refl _
  · split at h
    · cases htext : readText _ with
      | error stuck => rw [htext] at h; cases h
      | ok result =>
        rw [htext] at h
        cases h
        rw [(readText_eq_ok.1 htext).1]
        simp only [List.length_cons]
        omega
    · cases h
      exact Nat.le_refl _

theorem length_lt_of_readParameter {ts rest : List Token} {p : Parameter}
    (h : readParameter ts = .ok (p, rest)) : rest.length < ts.length := by
  rw [readParameter, within_eq_ok] at h
  have hmark := length_takeMarking_le ts
  cases htext : readText (takeMarking ts).2 with
  | error stuck => simp [htext, bind, Except.bind] at h
  | ok result =>
    simp only [htext, bind, Except.bind, pure, Except.pure] at h
    cases h
    rw [(readText_eq_ok.1 htext).1, List.length_cons] at hmark
    exact hmark

theorem length_lt_of_readOption {ts rest : List Token} {o : NamedOption}
    (h : readOption ts = .ok (o, rest)) : rest.length < ts.length := by
  rw [readOption, within_eq_ok] at h
  cases hword : readWord ts with
  | error stuck => simp [hword, bind, Except.bind] at h
  | ok name =>
    simp only [hword, bind, Except.bind, pure, Except.pure] at h
    cases hvalue : readValue name.2 with
    | error stuck => simp [hvalue] at h
    | ok value =>
      simp only [hvalue] at h
      cases h
      rw [(readWord_eq_ok.1 hword).1]
      exact Nat.lt_succ_of_le (length_le_of_readValue hvalue)

/-! ### Lists and the whole line -/

/-- Reads parameters up to a slash or the end of the line. -/
def readParameters (ts : List Token) : Except Stuck (List Parameter × List Token) :=
  match ts with
  | [] => .ok ([], [])
  | t :: rest =>
    if t.kind = .slash then .ok ([], t :: rest)
    else
      match _h : readParameter (t :: rest) with
      | .error stuck => .error stuck
      | .ok (p, after) => (readParameters after).map fun (ps, rest) => (p :: ps, rest)
termination_by ts.length
decreasing_by exact length_lt_of_readParameter _h

/-- Reads options up to the end of the line. -/
def readOptions (ts : List Token) : Except Stuck (List NamedOption × List Token) :=
  match ts with
  | [] => .ok ([], [])
  | t :: rest =>
    if t.kind = .slash then
      match _h : readOption rest with
      | .error stuck => .error stuck
      | .ok (o, after) => (readOptions after).map fun (os, rest) => (o :: os, rest)
    else .error ⟨[.slash, .terminal], [], t :: rest⟩
termination_by ts.length
decreasing_by exact Nat.lt_succ_of_lt (length_lt_of_readOption _h)

/-- Reads a whole line. -/
def readCommand (ts : List Token) : Except Stuck Tree :=
  within .command do
    let (imperative, rest) ← readImperative ts
    let (parameters, rest) ← within .parameterList (readParameters rest)
    let (options, rest) ← within .optionList (readOptions rest)
    expectEnd rest
    return ⟨imperative, parameters, options⟩

/-- The tree of a line's tokens. -/
def ofStream (s : TokenStream) : Except GrammarError Tree :=
  (readCommand s.body).mapError fun stuck =>
    ⟨s.line, stuck.rest.headD s.terminal, stuck.expected, stuck.rules⟩

end Tree

end CommandLine
