import CommandLine.Json.Fault
/-!
# CommandLine.Json.Literal

The parts of JSON texts that are read character by character: blanks, the names
`null`, `true` and `false`, and strings.

Each function takes the characters that are left and gives back what it read and the
characters left then. These are always an end of the earlier ones (`List.IsSuffix`), from
which it follows that reading comes to an end.
-/

namespace CommandLine.Json

open Text (byteLength)

/-- Blank, tab and the two characters that end lines. -/
def isBlank (c : Char) : Bool := c = ' ' || c = '\t' || c = '\n' || c = '\r'

/-- Leaves out blanks. -/
def skipBlanks (s : List Char) : List Char := s.dropWhile isBlank

theorem skipBlanks_suffix (s : List Char) : skipBlanks s <:+ s := List.dropWhile_suffix _

/-- Reads the letters of a name, one by one. -/
def expectLetters : List Char → List Char → Except Fault (List Char)
  | [], s => .ok s
  | _ :: _, [] => .error (.after .endInValue [])
  | letter :: letters, c :: s =>
    if c = letter then expectLetters letters s else .error (.next .identExpected (c :: s))

theorem suffix_of_expectLetters {letters s r : List Char} (h : expectLetters letters s = .ok r) :
    r <:+ s := by
  induction letters generalizing s with
  | nil => cases h; exact List.suffix_refl _
  | cons letter letters ih =>
    cases s with
    | nil => cases h
    | cons c s =>
      rw [expectLetters] at h
      split at h
      · exact (ih h).trans (List.suffix_cons _ _)
      · cases h

/-! ### Escapes -/

/-- The value of a hexadecimal digit. -/
def hexValue? (c : Char) : Option Nat :=
  if '0' ≤ c ∧ c ≤ '9' then some (c.toNat - '0'.toNat)
  else if 'a' ≤ c ∧ c ≤ 'f' then some (c.toNat - 'a'.toNat + 10)
  else if 'A' ≤ c ∧ c ≤ 'F' then some (c.toNat - 'A'.toNat + 10)
  else none

/-- The value of four hexadecimal digits. -/
def hexValue4? (a b c d : Char) : Option Nat := do
  return 4096 * (← hexValue? a) + 256 * (← hexValue? b) + 16 * (← hexValue? c)
    + (← hexValue? d)

/-- What is wrong with four bytes that should be hexadecimal digits. -/
def hexFault (s : List Char) : Fault :=
  if byteLength s < 4 then .after .endInString [] else ⟨.invalidEscape, s, 4⟩

/-- Reads four hexadecimal digits. -/
def readHex4 (s : List Char) : Except Fault (Nat × List Char) :=
  match s with
  | a :: b :: c :: d :: rest =>
    match hexValue4? a b c d with
    | some n => .ok (n, rest)
    | none => .error (hexFault s)
  | _ => .error (hexFault s)

theorem suffix_of_readHex4 {s r : List Char} {n : Nat} (h : readHex4 s = .ok (n, r)) :
    r <:+ s := by
  unfold readHex4 at h
  split at h
  · split at h <;> cases h
    exact ⟨[_, _, _, _], rfl⟩
  · cases h

/-- Reads a character by a part of the text that must be there. -/
def expectEscape (wanted : Char) : List Char → Except Fault (List Char)
  | [] => .error (.after .endInString [])
  | c :: s => if c = wanted then .ok s else .error (.next .surrogateEnds (c :: s))

theorem suffix_of_expectEscape {wanted : Char} {s r : List Char}
    (h : expectEscape wanted s = .ok r) : r <:+ s := by
  unfold expectEscape at h
  split at h
  · cases h
  · split at h <;> cases h
    exact List.suffix_cons _ _

/-- Whether a 16-bit unit is the second half of a surrogate pair. -/
def isLowSurrogate (n : Nat) : Bool := 0xdc00 ≤ n && n ≤ 0xdfff

/-- Whether a 16-bit unit is the first half of a surrogate pair. -/
def isHighSurrogate (n : Nat) : Bool := 0xd800 ≤ n && n ≤ 0xdbff

/-- The character of a surrogate pair. -/
def ofSurrogates (high low : Nat) : Char :=
  Char.ofNat (0x10000 + 0x400 * (high - 0xd800) + (low - 0xdc00))

/-- Reads the escape of the second half of a surrogate pair. -/
def readLowSurrogate (high : Nat) (s : List Char) : Except Fault (Char × List Char) := do
  let s ← expectEscape '\\' s
  let s ← expectEscape 'u' s
  let (low, s) ← readHex4 s
  if isLowSurrogate low then .ok (ofSurrogates high low, s)
  else .error (.after .loneSurrogate s)

theorem suffix_of_readLowSurrogate {high : Nat} {s r : List Char} {c : Char}
    (h : readLowSurrogate high s = .ok (c, r)) : r <:+ s := by
  unfold readLowSurrogate at h
  cases hslash : expectEscape '\\' s with
  | error fault => rw [hslash] at h; cases h
  | ok s₁ =>
    rw [hslash] at h
    cases hu : expectEscape 'u' s₁ with
    | error fault => simp [bind, Except.bind, hu] at h
    | ok s₂ =>
      cases hlow : readHex4 s₂ with
      | error fault => simp [bind, Except.bind, hu, hlow] at h
      | ok low =>
        simp only [bind, Except.bind, hu, hlow] at h
        split at h
        · have hr := congrArg Prod.snd (Except.ok.inj h)
          subst hr
          exact (suffix_of_readHex4 hlow).trans
            ((suffix_of_expectEscape hu).trans (suffix_of_expectEscape hslash))
        · cases h

/-- Reads the character of a numeric escape, behind its `u`. A character beyond 16 bits
takes two escapes. -/
def readUnicode (s : List Char) : Except Fault (Char × List Char) :=
  match readHex4 s with
  | .error fault => .error fault
  | .ok (n, s) =>
    if isLowSurrogate n then .error (.after .loneSurrogate s)
    else if isHighSurrogate n then readLowSurrogate n s
    else .ok (Char.ofNat n, s)

theorem suffix_of_readUnicode {s r : List Char} {c : Char} (h : readUnicode s = .ok (c, r)) :
    r <:+ s := by
  unfold readUnicode at h
  split at h
  · cases h
  · next hfirst =>
    have hs := suffix_of_readHex4 hfirst
    split at h
    · cases h
    · split at h
      · exact (suffix_of_readLowSurrogate h).trans hs
      · have hr := congrArg Prod.snd (Except.ok.inj h)
        subst hr
        exact hs

/-- The characters that a letter behind a backslash stands for. -/
def shortEscape? : Char → Option Char
  | '"' => some '"'
  | '\\' => some '\\'
  | '/' => some '/'
  | 'b' => some '\x08'
  | 'f' => some '\x0c'
  | 'n' => some '\n'
  | 'r' => some '\r'
  | 't' => some '\t'
  | _ => none

/-- Reads the character of an escape, behind its backslash. -/
def readEscape : List Char → Except Fault (Char × List Char)
  | [] => .error (.after .endInString [])
  | c :: s =>
    match shortEscape? c with
    | some escaped => .ok (escaped, s)
    | none => if c = 'u' then readUnicode s else .error (.next .invalidEscape (c :: s))

theorem suffix_of_readEscape {s r : List Char} {c : Char} (h : readEscape s = .ok (c, r)) :
    r <:+ s := by
  unfold readEscape at h
  split at h
  · cases h
  · split at h
    · cases h
      exact List.suffix_cons _ _
    · split at h
      · exact (suffix_of_readUnicode h).trans (List.suffix_cons _ _)
      · cases h

/-! ### Strings -/

/-- Reads the characters of a string and the quote behind them. -/
def readCharacters (s : List Char) : Except Fault (List Char × List Char) :=
  match s with
  | [] => .error (.after .endInString [])
  | '"' :: s => .ok ([], s)
  | '\\' :: s =>
    match _h : readEscape s with
    | .error fault => .error fault
    | .ok (c, s') => (readCharacters s').map fun (cs, s) => (c :: cs, s)
  | c :: s =>
    if c.toNat < 0x20 then .error (.next .controlCharacter (c :: s))
    else (readCharacters s).map fun (cs, s) => (c :: cs, s)
termination_by s.length
decreasing_by
  · exact Nat.lt_succ_of_le (suffix_of_readEscape _h).length_le
  · exact Nat.lt_succ_self _

theorem suffix_of_readCharacters {s r cs : List Char} (h : readCharacters s = .ok (cs, r)) :
    r <:+ s := by
  fun_induction readCharacters s generalizing cs r with
  | case1 => cases h
  | case2 => cases h; exact List.suffix_cons _ _
  | case3 => cases h
  | case4 s c s' hescape ih =>
    cases hrest : readCharacters s' with
    | error fault => rw [hrest] at h; cases h
    | ok result =>
      rw [hrest] at h
      cases h
      exact (ih hrest).trans ((suffix_of_readEscape hescape).trans (List.suffix_cons _ _))
  | case5 => cases h
  | case6 c s _ _ _ ih =>
    cases hrest : readCharacters s with
    | error fault => rw [hrest] at h; cases h
    | ok result =>
      rw [hrest] at h
      cases h
      exact (ih hrest).trans (List.suffix_cons _ _)

/-- Reads a string, behind its first quote. -/
def readString (s : List Char) : Except Fault (String × List Char) :=
  (readCharacters s).map fun (cs, s) => (String.ofList cs, s)

theorem suffix_of_readString {s r : List Char} {text : String}
    (h : readString s = .ok (text, r)) : r <:+ s := by
  unfold readString at h
  cases hcs : readCharacters s with
  | error fault => rw [hcs] at h; cases h
  | ok result =>
    rw [hcs] at h
    cases h
    exact suffix_of_readCharacters hcs

end CommandLine.Json
