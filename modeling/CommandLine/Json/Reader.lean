import CommandLine.Json.Literal
import CommandLine.Json.Number
/-!
# CommandLine.Json.Reader

Reading JSON texts into values of a given type.

A `Reader` takes the characters that are left, reads one value off their front and gives
back the characters left then. That these are an end of the earlier ones is part of the
type, so a loop over readers ends. The text is read once, from the front; the first thing
that is wrong with it is the one that is told, be it the form of the text or the type of a
value.
-/

namespace CommandLine.Json

/-- Reads a value of type `α` off the front of a text. -/
structure Reader (α : Type) where
  run : List Char → Except Fault (α × List Char)
  suffix : ∀ {s a r}, run s = .ok (a, r) → r <:+ s

namespace Reader

variable {α β : Type}

/-- Reads a value and makes another one of it. -/
def map (f : α → β) (reader : Reader α) : Reader β where
  run s := (reader.run s).map fun (a, r) => (f a, r)
  suffix {s b r} h := by
    cases ha : reader.run s with
    | error fault => rw [ha] at h; cases h
    | ok result =>
      rw [ha] at h
      cases h
      exact reader.suffix ha

/-- Reads a value behind blanks. -/
def afterBlanks (reader : Reader α) : Reader α where
  run s := reader.run (skipBlanks s)
  suffix h := (reader.suffix h).trans (skipBlanks_suffix _)

/-- Reads nothing and finds fault. -/
def fail (fault : List Char → Fault) : Reader α where
  run s := .error (fault s)
  suffix h := by cases h

/-- Reads one value and then another one. -/
def bind (reader : Reader α) (next : α → Reader β) : Reader β where
  run s :=
    match reader.run s with
    | .error fault => .error fault
    | .ok (a, r) => (next a).run r
  suffix {s b r} h := by
    cases ha : reader.run s with
    | error fault => rw [ha] at h; cases h
    | ok result =>
      rw [ha] at h
      exact ((next _).suffix h).trans (reader.suffix ha)

/-! ### Values of the wrong type -/

/-- What is wrong with a text whose next value is not of the expected type. The value is
read as far as is needed to say what it is; if that fails, the failure is told. -/
def mismatch (expected : String) (s : List Char) : Fault :=
  let told (found : Found) (rest : Except Fault (List Char)) : Fault :=
    match rest with
    | .ok rest => .after (.wrongType found expected) rest
    | .error fault => fault
  match s with
  | [] => .next .endInValue []
  | 'n' :: rest => told .null (expectLetters ['u', 'l', 'l'] rest)
  | 't' :: rest => told (.boolean true) (expectLetters ['r', 'u', 'e'] rest)
  | 'f' :: rest => told (.boolean false) (expectLetters ['a', 'l', 's', 'e'] rest)
  | '"' :: rest =>
    match readString rest with
    | .ok (text, rest) => .after (.wrongType (.text text) expected) rest
    | .error fault => fault
  | '[' :: _ => .after (.wrongType .sequence expected) s
  | '\x7b' :: _ => .after (.wrongType .map expected) s
  | c :: _ =>
    if c = '-' ∨ c.isDigit then
      match readNumber s with
      | .ok (number, rest) => .after (.wrongType number.found expected) rest
      | .error fault => fault
    else .next .valueExpected s

/-! ### Values without parts -/

/-- Reads the name of a value behind its first letter. -/
def named (letters : List Char) (a : α) : Reader α where
  run s := (expectLetters letters s).map fun r => (a, r)
  suffix {s a r} h := by
    cases hr : expectLetters letters s with
    | error fault => rw [hr] at h; cases h
    | ok rest =>
      rw [hr] at h
      cases h
      exact suffix_of_expectLetters hr

/-- Reads a value by its first character: `pick` says which reader goes on behind it. If
it says none, the value is not of the expected type. -/
def byFirst (expected : String) (pick : Char → Option (Reader α)) : Reader α :=
  afterBlanks {
    run := fun s =>
      match s with
      | [] => .error (mismatch expected [])
      | c :: rest =>
        match pick c with
        | some reader => reader.run rest
        | none => .error (mismatch expected (c :: rest))
    suffix := by
      intro s a r h
      split at h
      · cases h
      · split at h
        · next reader _ => exact (reader.suffix h).trans (List.suffix_cons _ _)
        · cases h }

/-- Reads the rest of a string, behind its first quote. -/
def stringTail : Reader String := ⟨readString, suffix_of_readString⟩

/-- Reads a string. -/
def text : Reader String :=
  byFirst "a string" fun c => if c = '"' then some stringTail else none

/-- Reads `true` or `false`. -/
def boolean : Reader Bool :=
  byFirst "a boolean" fun c =>
    if c = 't' then some (named ['r', 'u', 'e'] true)
    else if c = 'f' then some (named ['a', 'l', 's', 'e'] false)
    else none

/-- Reads `null`, where nothing else will do. -/
def null : Reader Unit :=
  byFirst "unit" fun c => if c = 'n' then some (named ['u', 'l', 'l'] ()) else none

/-- What a natural number below `2 ^ 64` is called where another value stands. -/
def naturalName : String := "usize"

/-- Reads a number that should be natural. -/
def readNatural (s : List Char) : Except Fault (Nat × List Char) :=
  match readNumber s with
  | .error fault => .error fault
  | .ok (.natural n, r) => .ok (n, r)
  | .ok (.negative n, r) => .error (.after (.wrongValue (.negative n) naturalName) r)
  | .ok (number, r) => .error (.after (.wrongType number.found naturalName) r)

theorem suffix_of_readNatural {s r : List Char} {n : Nat} (h : readNatural s = .ok (n, r)) :
    r <:+ s := by
  unfold readNatural at h
  split at h
  · cases h
  · next hnumber => cases h; exact suffix_of_readNumber hnumber
  · cases h
  · cases h

/-- Reads a natural number below `2 ^ 64`. -/
def natural : Reader Nat :=
  afterBlanks {
    run := fun s =>
      match s with
      | [] => .error (mismatch naturalName [])
      | c :: rest =>
        if c = '-' ∨ c.isDigit then readNatural (c :: rest)
        else .error (mismatch naturalName (c :: rest))
    suffix := by
      intro s n r h
      split at h
      · cases h
      · split at h
        · exact suffix_of_readNatural h
        · cases h }

/-- Reads `null` as no value and everything else as a value. -/
def optional (reader : Reader α) : Reader (Option α) :=
  afterBlanks {
    run := fun s =>
      match s with
      | 'n' :: rest => (named ['u', 'l', 'l'] none).run rest
      | s => (reader.map some).run s
    suffix := by
      intro s a r h
      split at h
      · exact ((named _ _).suffix h).trans (List.suffix_cons _ _)
      · exact (reader.map some).suffix h }

/-! ### Single characters between values -/

/-- Reads the colon behind a key. -/
def colon : Reader Unit :=
  afterBlanks {
    run := fun s =>
      match s with
      | [] => .error (.next .endInObject [])
      | ':' :: rest => .ok ((), rest)
      | s => .error (.next .colonExpected s)
    suffix := by
      intro s a r h
      split at h
      · cases h
      · cases h; exact List.suffix_cons _ _
      · cases h }

/-- Reads the value of a member, behind its key. -/
def member (reader : Reader α) : Reader α := colon.bind fun _ => reader

/-! ### One of several names -/

/-- Reads a string, behind its first quote, that is one of several names. -/
def nameTail (choices : List (String × α)) : Reader α where
  run s :=
    match readString s with
    | .error fault => .error fault
    | .ok (name, r) =>
      match choices.lookup name with
      | some a => .ok (a, r)
      | none => .error (.after (.unknownVariant name (choices.map (·.1))) r)
  suffix {s a r} h := by
    split at h
    · cases h
    · next hname =>
      split at h <;> cases h
      exact suffix_of_readString hname

/-- Reads the brace behind the only member of an object. What stands there instead is told
of the place before it. -/
def closeVariant : Reader Unit :=
  afterBlanks {
    run := fun s =>
      match s with
      | [] => .error (.after .endInObject [])
      | '\x7d' :: rest => .ok ((), rest)
      | s => .error (.after .valueExpected s)
    suffix := by
      intro s a r h
      split at h
      · cases h
      · cases h; exact List.suffix_cons _ _
      · cases h }

/-- Reads the string that a value must start with: `reader` goes on behind the quote. -/
def quotedOnly (reader : Reader α) : Reader α :=
  afterBlanks {
    run := fun s =>
      match s with
      | [] => .error (.next .endInValue [])
      | '"' :: rest => reader.run rest
      | s => .error (.next .valueExpected s)
    suffix := by
      intro s a r h
      split at h
      · cases h
      · exact (reader.suffix h).trans (List.suffix_cons _ _)
      · cases h }

/-- Reads the key of the only member of an object: `reader` goes on behind the quote. -/
def onlyKey (reader : Reader α) : Reader α :=
  afterBlanks {
    run := fun s =>
      match s with
      | [] => .error (.next .endInObject [])
      | '"' :: rest => reader.run rest
      | '\x7d' :: rest => .error (.next .valueExpected ('\x7d' :: rest))
      | s => .error (.next .keyExpected s)
    suffix := by
      intro s a r h
      split at h
      · cases h
      · exact (reader.suffix h).trans (List.suffix_cons _ _)
      · cases h
      · cases h }

/-- Reads one of several names: a string, or an object whose only member has the name for
its key and `null` for its value. -/
def variant (choices : List (String × α)) : Reader α :=
  let tagged : Reader α :=
    (onlyKey (nameTail choices)).bind fun a =>
      (member null).bind fun _ => closeVariant.map fun _ => a
  afterBlanks {
    run := fun s =>
      match s with
      | '\x7b' :: rest => tagged.run rest
      | s => (quotedOnly (nameTail choices)).run s
    suffix := by
      intro s a r h
      split at h
      · exact (tagged.suffix h).trans (List.suffix_cons _ _)
      · exact (quotedOnly _).suffix h }

/-! ### Whole texts -/

/-- Reads a text that holds one value and nothing else but blanks. -/
def parse (reader : Reader α) (text : String) : Except Error α :=
  let whole := text.toList
  let result := do
    let (a, rest) ← reader.run whole
    match skipBlanks rest with
    | [] => .ok a
    | rest => .error (.next .trailingCharacters rest)
  result.mapError fun fault => ⟨fault.problem, fault.position whole⟩

end Reader

end CommandLine.Json
