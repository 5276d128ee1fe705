import CommandLine.Json.Skip
import CommandLine.SortedMap
/-!
# CommandLine.Json.Record

Reading objects: maps from keys to values of one type, and records with named fields.

A record may be written as an object, its fields in any order, or as an array of its
fields in their declared order. Either way a field is read by its own reader, and what was
read is put into a state, of which the record is made in the end.
-/

namespace CommandLine.Json

/-! ### Members of objects -/

/-- Reads a key behind its first quote. -/
def keyTail (s : List Char) : Except Fault (Option String × List Char) :=
  (readString s).map fun (key, r) => (some key, r)

/-- Reads the key of the next member or the end of the object, in which case there is no
key. Before every member but the first one there is a comma. -/
def nextKey (first : Bool) (s : List Char) : Except Fault (Option String × List Char) :=
  match skipBlanks s with
  | [] => .error (.next .endInObject [])
  | '\x7d' :: rest => .ok (none, rest)
  | '"' :: rest =>
    if first then keyTail rest else .error (.next .objectCommaOrEnd ('"' :: rest))
  | c :: rest =>
    if first then .error (.next .keyExpected (c :: rest))
    else if c = ',' then
      match skipBlanks rest with
      | [] => .error (.next .endInValue [])
      | '"' :: rest => keyTail rest
      | '\x7d' :: rest => .error (.next .trailingComma ('\x7d' :: rest))
      | rest => .error (.next .keyExpected rest)
    else .error (.next .objectCommaOrEnd (c :: rest))

theorem suffix_of_keyTail {s r : List Char} {key : Option String}
    (h : keyTail s = .ok (key, r)) : r <:+ s := by
  unfold keyTail at h
  cases hs : readString s with
  | error fault => rw [hs] at h; cases h
  | ok result =>
    rw [hs] at h
    cases h
    exact suffix_of_readString hs

/-- Reading a key takes at least one character, and leaves an end of the text. -/
theorem suffix_of_nextKey {first : Bool} {s r : List Char} {key : Option String}
    (h : nextKey first s = .ok (key, r)) : r <:+ s ∧ r.length < s.length := by
  have proper : ∀ {c : Char} {rest : List Char}, skipBlanks s = c :: rest → r <:+ rest →
      r <:+ s ∧ r.length < s.length := by
    intro c rest hs hr
    have hlen := (skipBlanks_suffix s).length_le
    rw [hs, List.length_cons] at hlen
    exact ⟨hr.trans ((List.suffix_cons c rest).trans (hs ▸ skipBlanks_suffix s)),
      Nat.lt_of_le_of_lt hr.length_le hlen⟩
  unfold nextKey at h
  split at h
  · cases h
  · next rest hs =>
    cases h
    exact proper hs (List.suffix_refl _)
  · next rest hs =>
    split at h
    · exact proper hs (suffix_of_keyTail h)
    · cases h
  · next c rest _ _ hs =>
    split at h
    · cases h
    · split at h
      · split at h
        · cases h
        · next rest' hr =>
          exact proper hs ((suffix_of_keyTail h).trans
            ((List.suffix_cons _ _).trans (hr ▸ skipBlanks_suffix rest)))
        · cases h
        · cases h
      · cases h

/-- Reads members up to the end of the object: `visit` reads the colon and the value
behind a key. -/
def readMembers {σ : Type} (visit : String → σ → Reader σ) (first : Bool) (state : σ)
    (s : List Char) : Except Fault (σ × List Char) :=
  match _h : nextKey first s with
  | .error fault => .error fault
  | .ok (none, rest) => .ok (state, rest)
  | .ok (some key, rest) =>
    match _h' : (visit key state).run rest with
    | .error fault => .error fault
    | .ok (state, rest) => readMembers visit false state rest
termination_by s.length
decreasing_by
  exact Nat.lt_of_le_of_lt ((visit key _).suffix _h').length_le (suffix_of_nextKey _h).2

theorem suffix_of_readMembers {σ : Type} {visit : String → σ → Reader σ} {first : Bool}
    {state state' : σ} {s r : List Char}
    (h : readMembers visit first state s = .ok (state', r)) : r <:+ s := by
  fun_induction readMembers visit first state s with
  | case1 => cases h
  | case2 first state s rest hkey => cases h; exact (suffix_of_nextKey hkey).1
  | case3 => cases h
  | case4 first state s key rest hkey state'' rest' hvisit ih =>
    exact (ih h).trans (((visit key state).suffix hvisit).trans (suffix_of_nextKey hkey).1)

/-! ### Maps -/

/-- Reads an object as a map; of several values for a key the last one stays. -/
def Reader.sortedMap {α : Type} (value : Reader α) : Reader (SortedMap α) :=
  let visit (key : String) (m : SortedMap α) := (Reader.member value).map (m.insert key)
  Reader.byFirst "a map" fun c =>
    if c = '\x7b' then some ⟨readMembers visit true .empty, suffix_of_readMembers⟩ else none

/-! ### Records -/

/-- A field of a record: its name, and how what stands there changes the state. -/
structure Field (σ : Type) where
  name : String
  reader : Reader (σ → σ)

/-- A field whose value is put into the state by `put`. -/
def Field.of {σ α : Type} (name : String) (value : Reader α) (put : α → σ → σ) : Field σ :=
  ⟨name, value.map put⟩

/-- A kind of record: how to read a value of type `α` by way of a state. -/
structure Record (σ α : Type) where
  /-- What messages call the record. -/
  name : String
  /-- The fields, in their declared order. -/
  fields : List (Field σ)
  /-- The state before anything is read. -/
  start : σ
  /-- Whether an object may have no members but the fields; else others are skipped. -/
  strict : Bool
  /-- Whether an array must have all fields; else the last ones may be left out. -/
  complete : Bool
  /-- The record that a state stands for, or what it lacks. -/
  finish : σ → Except Problem α

namespace Record

variable {σ α : Type}

/-- The names of the fields. -/
def fieldNames (record : Record σ α) : List String := record.fields.map (·.name)

/-- The characters behind the end of an object, if it ends here, and else behind the
blanks. What is wrong with a key is told of this place. -/
def skipEnd (s : List Char) : List Char :=
  match skipBlanks s with
  | '\x7d' :: rest => rest
  | rest => rest

/-- Reads the value of a member. The state comes with the names of the fields that were
read already. -/
def visit (record : Record σ α) (key : String) (state : σ × List String) :
    Reader (σ × List String) :=
  match record.fields.find? (·.name == key) with
  | none =>
    if record.strict then
      Reader.fail fun s => .after (.unknownField key record.fieldNames) (skipEnd s)
    else (Reader.member .skip).map fun _ => state
  | some field =>
    if key ∈ state.2 then Reader.fail fun s => .after (.duplicateField key) (skipEnd s)
    else (Reader.member field.reader).map fun put => (put state.1, key :: state.2)

/-- What the end of reading makes of a state, at the place behind the record. -/
def close (record : Record σ α) (state : σ) (s : List Char) : Except Fault (α × List Char) :=
  match record.finish state with
  | .ok a => .ok (a, s)
  | .error problem => .error (.after problem s)

theorem suffix_of_close {record : Record σ α} {state : σ} {s r : List Char} {a : α}
    (h : record.close state s = .ok (a, r)) : r <:+ s := by
  unfold close at h
  split at h <;> cases h
  exact List.suffix_refl _

/-- Reads the record as an object, behind its brace. -/
def readObject (record : Record σ α) (s : List Char) : Except Fault (α × List Char) :=
  match readMembers record.visit true (record.start, []) s with
  | .error fault => .error fault
  | .ok ((state, _), rest) => record.close state rest

theorem suffix_of_readObject {record : Record σ α} {s r : List Char} {a : α}
    (h : record.readObject s = .ok (a, r)) : r <:+ s := by
  unfold readObject at h
  split at h
  · cases h
  · next hmembers => exact (suffix_of_close h).trans (suffix_of_readMembers hmembers)

/-- Reads up to the next item of an array or its end: whether there is an item. Before
every item but the first one there is a comma. -/
def nextItem (first : Bool) (s : List Char) : Except Fault (Bool × List Char) :=
  match skipBlanks s with
  | [] => .error (.next .endInList [])
  | ']' :: rest => .ok (false, rest)
  | c :: rest =>
    if first then .ok (true, c :: rest)
    else if c = ',' then
      match skipBlanks rest with
      | [] => .error (.next .endInValue [])
      | ']' :: rest => .error (.next .trailingComma (']' :: rest))
      | rest => .ok (true, rest)
    else .error (.next .listCommaOrEnd (c :: rest))

theorem suffix_of_nextItem {first more : Bool} {s r : List Char}
    (h : nextItem first s = .ok (more, r)) : r <:+ s := by
  unfold nextItem at h
  split at h
  · cases h
  · next hs =>
    cases h
    exact (List.suffix_cons _ _).trans (hs ▸ skipBlanks_suffix s)
  · next c rest _ hs =>
    have hrest : rest <:+ s := (List.suffix_cons _ _).trans (hs ▸ skipBlanks_suffix s)
    split at h
    · cases h
      exact hs ▸ skipBlanks_suffix s
    · split at h
      · split at h
        · cases h
        · cases h
        · cases h
          exact (skipBlanks_suffix rest).trans hrest
      · cases h

/-- Reads the end of an array that has no more items. -/
def endOfList (s : List Char) : Except Fault (List Char) :=
  match skipBlanks s with
  | [] => .error (.next .endInList [])
  | ']' :: rest => .ok rest
  | c :: rest =>
    if c = ',' then
      match skipBlanks rest with
      | ']' :: rest => .error (.next .trailingComma (']' :: rest))
      | rest => .error (.next .trailingCharacters rest)
    else .error (.next .trailingCharacters (c :: rest))

theorem suffix_of_endOfList {s r : List Char} (h : endOfList s = .ok r) : r <:+ s := by
  unfold endOfList at h
  split at h
  · cases h
  · next hs =>
    cases h
    exact (List.suffix_cons _ _).trans (hs ▸ skipBlanks_suffix s)
  · split at h
    · split at h <;> cases h
    · cases h

/-- What an array that is too short should be. -/
def lengthName (record : Record σ α) : String :=
  record.name ++ " with " ++ toString record.fields.length ++ " elements"

/-- Reads the fields that are left, as items of an array of which `count` items have been
read. -/
def readItems (record : Record σ α) (count : Nat) (fields : List (Field σ)) (state : σ)
    (s : List Char) : Except Fault (σ × List Char) :=
  match fields with
  | [] => (endOfList s).map fun rest => (state, rest)
  | field :: fields =>
    match nextItem (count == 0) s with
    | .error fault => .error fault
    | .ok (false, rest) =>
      if record.complete then .error (.after (.wrongLength count record.lengthName) rest)
      else .ok (state, rest)
    | .ok (true, rest) =>
      match field.reader.run rest with
      | .error fault => .error fault
      | .ok (put, rest) => readItems record (count + 1) fields (put state) rest

theorem suffix_of_readItems {record : Record σ α} {count : Nat} {fields : List (Field σ)}
    {state state' : σ} {s r : List Char}
    (h : record.readItems count fields state s = .ok (state', r)) : r <:+ s := by
  induction fields generalizing count state s with
  | nil =>
    rw [readItems] at h
    cases hend : endOfList s with
    | error fault => rw [hend] at h; cases h
    | ok rest =>
      rw [hend] at h
      cases h
      exact suffix_of_endOfList hend
  | cons field fields ih =>
    rw [readItems] at h
    split at h
    · cases h
    · next hitem =>
      split at h
      · cases h
      · cases h
        exact suffix_of_nextItem hitem
    · next hitem =>
      split at h
      · cases h
      · next hread =>
        exact (ih h).trans ((field.reader.suffix hread).trans (suffix_of_nextItem hitem))

/-- Reads the record as an array, behind its bracket. -/
def readList (record : Record σ α) (s : List Char) : Except Fault (α × List Char) :=
  match record.readItems 0 record.fields record.start s with
  | .error fault => .error fault
  | .ok (state, rest) => record.close state rest

theorem suffix_of_readList {record : Record σ α} {s r : List Char} {a : α}
    (h : record.readList s = .ok (a, r)) : r <:+ s := by
  unfold readList at h
  split at h
  · cases h
  · next hitems => exact (suffix_of_close h).trans (suffix_of_readItems hitems)

/-- Reads the record. -/
def reader (record : Record σ α) : Reader α :=
  Reader.byFirst record.name fun c =>
    if c = '\x7b' then some ⟨record.readObject, suffix_of_readObject⟩
    else if c = '[' then some ⟨record.readList, suffix_of_readList⟩
    else none

end Record

end CommandLine.Json
