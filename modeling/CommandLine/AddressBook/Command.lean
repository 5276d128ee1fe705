import CommandLine.Json.Value
/-!
# CommandLine.AddressBook.Command

The commands of the address book. Building one checks its shape only; nothing here
carries it out.
-/

namespace CommandLine.AddressBook

/-- The keywords of the address book. -/
inductive Keyword where
  | add
  | clear
  | delete
  | edit
  | exit
  | find
  | help
  | list
  | tag
  | untag
  deriving Repr, DecidableEq

namespace Keyword

/-- All keywords, in the order of their text. -/
def all : List Keyword := [add, clear, delete, edit, exit, find, help, list, tag, untag]

/-- The text of a keyword. -/
def name : Keyword → String
  | add => "add"
  | clear => "clear"
  | delete => "delete"
  | edit => "edit"
  | exit => "exit"
  | find => "find"
  | help => "help"
  | list => "list"
  | tag => "tag"
  | untag => "untag"

end Keyword

/-- The fields of a contact that an option can set. -/
structure Details where
  name : Option String
  phone : Option String
  email : Option String
  deriving Repr, DecidableEq

/-- Whether no field is set. -/
def Details.isEmpty (d : Details) : Bool :=
  d.name.isNone && d.phone.isNone && d.email.isNone

/-- A command of the address book. Indices count the contacts on display from one. -/
inductive Command where
  /-- Add a contact. -/
  | add (name : String) (phone email : Option String) (tags : List String)
  /-- Remove all contacts. -/
  | clear
  /-- Remove a contact. -/
  | delete (index : Nat)
  /-- Change fields and tags of a contact. -/
  | edit (index : Nat) (details : Details) (addedTags removedTags : List String)
  /-- Leave the program. -/
  | exit
  /-- Find the contacts whose name has one of the keywords. -/
  | find (keywords : List String)
  /-- Show how to use the program or one command. -/
  | help (topic : Option String)
  /-- Show all contacts. -/
  | list
  /-- Put tags on a contact. -/
  | tag (index : Nat) (tags : List String)
  /-- Take tags off a contact. -/
  | untag (index : Nat) (tags : List String)
  deriving Repr, DecidableEq

namespace Command

/-- The keyword of a command. -/
def keyword : Command → Keyword
  | add .. => .add
  | clear => .clear
  | delete _ => .delete
  | edit .. => .edit
  | exit => .exit
  | find _ => .find
  | help _ => .help
  | list => .list
  | tag .. => .tag
  | untag .. => .untag

/-- The content of a command as members of a JSON object; absent fields are left
out. -/
def members : Command → List (String × Json.Value)
  | add name phone email tags =>
    ("name", .text name) :: Json.Value.member? "phone" phone ++ Json.Value.member? "email" email
      ++ [("tags", .texts tags)]
  | delete index => [("index", .natural index)]
  | edit index details addedTags removedTags =>
    ("index", .natural index) :: Json.Value.member? "name" details.name
      ++ Json.Value.member? "phone" details.phone ++ Json.Value.member? "email" details.email
      ++ [("added_tags", .texts addedTags), ("removed_tags", .texts removedTags)]
  | find keywords => [("keywords", .texts keywords)]
  | help topic => Json.Value.member? "topic" topic
  | tag index tags | untag index tags => [("index", .natural index), ("tags", .texts tags)]
  | clear | exit | list => []

/-- The command as a JSON object, its keyword first. -/
def toJson (c : Command) : Json.Value :=
  .object (("command", .text c.keyword.name) :: c.members)

end Command

end CommandLine.AddressBook
