import CommandLine.AddressBook.Command
import CommandLine.AddressBook.Index
import CommandLine.Binding
/-!
# CommandLine.AddressBook.Shape

Which arguments each command of the address book accepts, and what it makes of them.

* A command is made of the whole bare command. What several commands check in the same way is told
  which command it is for, so that its complaint is about that one.
* Every command looks for unknown options before anything else, so of several faults an unknown
  option is the one that is told.
-/

namespace CommandLine.AddressBook

/-- What can be wrong with the arguments of a command. -/
inductive ShapeFault where
  /-- An option that the command does not have. -/
  | unknownOption (name : String)
  /-- Parameters for a command without any. -/
  | parametersGiven
  /-- Not just one parameter. -/
  | notExactlyOne (what : String)
  /-- A `+` or `-` where none belongs. -/
  | marked (value : String)
  /-- No mark where one belongs. -/
  | unmarked (value : String)
  /-- A parameter that is no index. -/
  | notAnIndex (value : String)
  /-- No index for an edit. -/
  | indexMissing
  /-- A tag in the place of the index. -/
  | indexNotFirst
  /-- An edit that edits nothing. -/
  | nothingToChange
  /-- A search for nothing. -/
  | keywordMissing
  /-- Several topics. -/
  | severalTopics
  /-- Neither index nor tag. -/
  | indexAndTagMissing
  /-- No tag. -/
  | tagMissing
  /-- A flag where a value belongs. -/
  | valueMissing (option : String)
  /-- Several values where one belongs. -/
  | severalValues (option : String)
  deriving Repr, DecidableEq

/-- What a fault is called. -/
def ShapeFault.message : ShapeFault → String
  | unknownOption name => "unknown option /" ++ name
  | parametersGiven => "takes no parameters"
  | notExactlyOne what => "expects exactly one " ++ what
  | marked value => "parameter `" ++ value ++ "` must not be marked with + or -"
  | unmarked value => "unexpected parameter `" ++ value ++ "`; mark tags with + or -"
  | notAnIndex value => "INDEX must be a positive integer, got `" ++ value ++ "`"
  | indexMissing => "expects an INDEX"
  | indexNotFirst => "INDEX must come first"
  | nothingToChange => "nothing to change"
  | keywordMissing => "expects at least one KEYWORD"
  | severalTopics => "expects at most one COMMAND"
  | indexAndTagMissing => "expects INDEX TAG..."
  | tagMissing => "expects at least one TAG"
  | valueMissing option => "option /" ++ option ++ " needs a value"
  | severalValues option => "option /" ++ option ++ " given more than once"

/-- The complaint that a command has about its arguments. -/
def complaint (command : String) (fault : ShapeFault) : ValidationError :=
  ⟨command, fault.message⟩

/-! ### Parts of shapes -/

/-- No option but some allowed ones. -/
def onlyOptions (b : BareCommand) (command : String) (allowed : List String) :
    Except ValidationError Unit :=
  match b.optionNames.find? (· ∉ allowed) with
  | some name => .error (complaint command (.unknownOption name))
  | none => .ok ()

/-- The value of a parameter without mark. -/
def normalValue (command : String) (p : Parameter) : Except ValidationError String :=
  if p.marking = .normal then .ok p.value else .error (complaint command (.marked p.value))

/-- The values of the parameters, none of which has a mark. -/
def normalValues (b : BareCommand) (command : String) : Except ValidationError (List String) :=
  b.parameters.mapM (normalValue command)

/-- The value of the only parameter, which has no mark. -/
def theNormalValue (b : BareCommand) (command what : String) : Except ValidationError String := do
  match ← normalValues b command with
  | [value] => .ok value
  | _ => .error (complaint command (.notExactlyOne what))

/-- The index that a value stands for. -/
def indexOf (command value : String) : Except ValidationError Nat :=
  match index? value with
  | some index => .ok index
  | none => .error (complaint command (.notAnIndex value))

/-- The value of an option that may be given once. -/
def optionalValue (b : BareCommand) (command option : String) :
    Except ValidationError (Option String) :=
  match b.optionValues? option with
  | none => .ok none
  | some [] => .error (complaint command (.valueMissing option))
  | some [value] => .ok (some value)
  | some _ => .error (complaint command (.severalValues option))

/-- The values of an option that may be given many times. -/
def allValues (b : BareCommand) (command option : String) :
    Except ValidationError (List String) :=
  match b.optionValues? option with
  | none => .ok []
  | some [] => .error (complaint command (.valueMissing option))
  | some values => .ok values

/-- Neither options nor parameters. -/
def noArguments (b : BareCommand) (command : String) : Except ValidationError Unit := do
  onlyOptions b command []
  if b.parameters = [] then .ok () else .error (complaint command .parametersGiven)

/-- The values of the parameters with a mark. -/
def valuesMarked (marking : Marking) (ps : List Parameter) : List String :=
  (ps.filter (·.marking = marking)).map (·.value)

/-- Every parameter has a mark. -/
def allMarked (command : String) (ps : List Parameter) : Except ValidationError Unit :=
  match ps.find? (·.marking = .normal) with
  | some p => .error (complaint command (.unmarked p.value))
  | none => .ok ()

/-- An index and at least one tag, all without mark. -/
def indexAndTags (b : BareCommand) (command : String) :
    Except ValidationError (Nat × List String) := do
  onlyOptions b command []
  match ← normalValues b command with
  | [] => .error (complaint command .indexAndTagMissing)
  | first :: tags =>
    let index ← indexOf command first
    if tags = [] then .error (complaint command .tagMissing) else .ok (index, tags)

/-! ### Commands -/

/-- A name, and options for the other fields and for tags. -/
def makeAdd (b : BareCommand) : Except ValidationError Command := do
  onlyOptions b Keyword.add.name ["phone", "email", "tag"]
  let name ← theNormalValue b Keyword.add.name "NAME"
  let phone ← optionalValue b Keyword.add.name "phone"
  let email ← optionalValue b Keyword.add.name "email"
  let tags ← allValues b Keyword.add.name "tag"
  return .add name phone email tags

/-- Nothing. -/
def makeClear (b : BareCommand) : Except ValidationError Command := do
  noArguments b Keyword.clear.name
  return .clear

/-- An index. -/
def makeDelete (b : BareCommand) : Except ValidationError Command := do
  onlyOptions b Keyword.delete.name []
  let value ← theNormalValue b Keyword.delete.name "INDEX"
  return .delete (← indexOf Keyword.delete.name value)

/-- An index, then tags with marks; options for the fields; at least one change. -/
def makeEdit (b : BareCommand) : Except ValidationError Command := do
  onlyOptions b Keyword.edit.name ["name", "phone", "email"]
  match b.parameters with
  | [] => .error (complaint Keyword.edit.name .indexMissing)
  | first :: tags =>
    if first.marking ≠ .normal then
      .error (complaint Keyword.edit.name .indexNotFirst)
    else
      let index ← indexOf Keyword.edit.name first.value
      allMarked Keyword.edit.name tags
      let name ← optionalValue b Keyword.edit.name "name"
      let phone ← optionalValue b Keyword.edit.name "phone"
      let email ← optionalValue b Keyword.edit.name "email"
      let details : Details := ⟨name, phone, email⟩
      if details.isEmpty ∧ tags = [] then
        .error (complaint Keyword.edit.name .nothingToChange)
      else
        return .edit index details (valuesMarked .additive tags) (valuesMarked .subtractive tags)

/-- Nothing. -/
def makeExit (b : BareCommand) : Except ValidationError Command := do
  noArguments b Keyword.exit.name
  return .exit

/-- One keyword or more. -/
def makeFind (b : BareCommand) : Except ValidationError Command := do
  onlyOptions b Keyword.find.name []
  let keywords ← normalValues b Keyword.find.name
  if keywords = [] then .error (complaint Keyword.find.name .keywordMissing)
  else return .find keywords

/-- A topic or none. -/
def makeHelp (b : BareCommand) : Except ValidationError Command := do
  onlyOptions b Keyword.help.name []
  match ← normalValues b Keyword.help.name with
  | [] => return .help none
  | [topic] => return .help (some topic)
  | _ => .error (complaint Keyword.help.name .severalTopics)

/-- Nothing. -/
def makeList (b : BareCommand) : Except ValidationError Command := do
  noArguments b Keyword.list.name
  return .list

/-- An index and tags to put on. -/
def makeTag (b : BareCommand) : Except ValidationError Command := do
  let (index, tags) ← indexAndTags b Keyword.tag.name
  return .tag index tags

/-- An index and tags to take off. -/
def makeUntag (b : BareCommand) : Except ValidationError Command := do
  let (index, tags) ← indexAndTags b Keyword.untag.name
  return .untag index tags

namespace Keyword

/-- The command of a keyword, or what is wrong with its arguments. -/
def construct : Keyword → BareCommand → Except ValidationError Command
  | add => makeAdd
  | clear => makeClear
  | delete => makeDelete
  | edit => makeEdit
  | exit => makeExit
  | find => makeFind
  | help => makeHelp
  | list => makeList
  | tag => makeTag
  | untag => makeUntag

/-- The keyword with the way to build its command. -/
def binding (k : Keyword) : Binding Command := ⟨k.name, k.construct⟩

end Keyword

/-- The commands of the address book, in the order of their keywords. -/
def table : BindingTable Command := ⟨Keyword.all.map Keyword.binding⟩

end CommandLine.AddressBook
