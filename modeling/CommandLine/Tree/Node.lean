import CommandLine.Tree.Basic
/-!
# CommandLine.Tree.Node

The nodes of a tree, from the root down and from left to right, and the part of the
line that each of them covers.
-/

namespace CommandLine.Tree

/-- A node of a tree. -/
inductive Node where
  | command (tree : Tree)
  | imperative (word : Token)
  | parameterList (parameters : List Parameter)
  | parameter (parameter : Parameter)
  | optionList (options : List NamedOption)
  | option (option : NamedOption)
  | optionName (word : Token)
  | optionValue (text : Token)
  | text (text : Token)
  | word (word : Token)
  deriving Repr, DecidableEq

/-- What kind of node it is. -/
def Node.kindName : Node → String
  | command _ => "Command"
  | imperative _ => "Imperative"
  | parameterList _ => "ParameterList"
  | parameter _ => "Parameter"
  | optionList _ => "OptionList"
  | option _ => "Option"
  | optionName _ => "OptionName"
  | optionValue _ => "OptionValue"
  | text _ => "Text"
  | word _ => "Word"

/-- A parameter and what is below it. -/
def Parameter.nodes (p : Parameter) : List Node :=
  [.parameter p, .text p.text]

/-- An option and what is below it. -/
def NamedOption.nodes (o : NamedOption) : List Node :=
  [.option o, .optionName o.name, .word o.name]
    ++ o.value.elim [] fun value => [.optionValue value, .text value]

/-- All nodes: each before the nodes below it, these from left to right. -/
def nodes (t : Tree) : List Node :=
  [.command t, .imperative t.imperative, .word t.imperative, .parameterList t.parameters]
    ++ t.parameters.flatMap Parameter.nodes
    ++ .optionList t.options :: t.options.flatMap NamedOption.nodes

/-! ### What nodes cover -/

/-- From the start of one span to the stop of another. -/
def hull (first last : Span) : Span := ⟨first.start, last.stop⟩

/-- An option covers its name and its value. -/
def NamedOption.span (o : NamedOption) : Span :=
  hull o.name.span (o.value.getD o.name).span

/-- Parameters cover the line from the text of the first one to that of the last
one. -/
def parametersSpan? (ps : List Parameter) : Option Span := do
  return hull (← ps.head?).text.span (← ps.getLast?).text.span

/-- Options cover the line from the name of the first one to the end of the last
one. -/
def optionsSpan? (os : List NamedOption) : Option Span := do
  return hull (← os.head?).span (← os.getLast?).span

/-- A tree covers the line from its imperative to the end of its last leaf. -/
def span (t : Tree) : Span :=
  hull t.imperative.span
    ((optionsSpan? t.options).or (parametersSpan? t.parameters) |>.getD t.imperative.span)

/-- The part of the line that the words and texts of a node cover; empty lists
cover nothing. -/
def Node.span? : Node → Option Span
  | command tree => some tree.span
  | parameterList parameters => parametersSpan? parameters
  | parameter p => some p.text.span
  | optionList options => optionsSpan? options
  | option o => some o.span
  | imperative leaf | optionName leaf | optionValue leaf | text leaf | word leaf => some leaf.span

end CommandLine.Tree
