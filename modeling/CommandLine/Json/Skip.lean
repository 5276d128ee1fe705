import CommandLine.Json.Reader
/-!
# CommandLine.Json.Skip

Reading over values that nobody asked for.

A value that is skipped only has to have the form of one: numbers may be of any size, and
escapes may name half of a surrogate pair. Values may be nested to any depth, so the open
brackets are kept in a list.
-/

namespace CommandLine.Json

/-! ### Values without parts -/

/-- Skips an escape, behind its backslash. -/
def skipEscape : List Char → Except Fault (List Char)
  | [] => .error (.after .endInString [])
  | c :: s =>
    if (shortEscape? c).isSome then .ok s
    else if c = 'u' then (readHex4 s).map (·.2)
    else .error (.next .invalidEscape (c :: s))

theorem suffix_of_skipEscape {s r : List Char} (h : skipEscape s = .ok r) : r <:+ s := by
  unfold skipEscape at h
  split at h
  · cases h
  · split at h
    · cases h
      exact List.suffix_cons _ _
    · split at h
      · next c s _ _ =>
        cases hex : readHex4 s with
        | error fault => rw [hex] at h; cases h
        | ok result =>
          rw [hex] at h
          cases h
          exact (suffix_of_readHex4 hex).trans (List.suffix_cons _ _)
      · cases h

/-- Skips the rest of a string, behind its first quote. -/
def skipString (s : List Char) : Except Fault (List Char) :=
  match s with
  | [] => .error (.after .endInString [])
  | '"' :: s => .ok s
  | '\\' :: s =>
    match _h : skipEscape s with
    | .error fault => .error fault
    | .ok s' => skipString s'
  | c :: s => if c.toNat < 0x20 then .error (.after .controlCharacter (c :: s)) else skipString s
termination_by s.length
decreasing_by
  · exact Nat.lt_succ_of_le (suffix_of_skipEscape _h).length_le
  · exact Nat.lt_succ_self _

theorem suffix_of_skipString {s r : List Char} (h : skipString s = .ok r) : r <:+ s := by
  fun_induction skipString s with
  | case1 => cases h
  | case2 => cases h; exact List.suffix_cons _ _
  | case3 => cases h
  | case4 s s' hescape ih =>
    exact (ih h).trans ((suffix_of_skipEscape hescape).trans (List.suffix_cons _ _))
  | case5 => cases h
  | case6 c s _ _ _ ih => exact (ih h).trans (List.suffix_cons _ _)

/-- Skips the digits of an exponent and its sign, behind its `e`. -/
def skipExponent (s : List Char) : Except Fault (List Char) :=
  let digits := (readSign s).2
  if startsWithDigit digits then .ok (skipDigits digits) else .error (.next .invalidNumber digits)

/-- Skips an exponent, if there is one. -/
def skipScale (s : List Char) : Except Fault (List Char) :=
  match s with
  | 'e' :: rest | 'E' :: rest => skipExponent rest
  | _ => .ok s

/-- Skips what follows the integer part of a number. -/
def skipTail (s : List Char) : Except Fault (List Char) :=
  match s with
  | '.' :: rest =>
    if startsWithDigit rest then skipScale (skipDigits rest)
    else .error (.next .invalidNumber rest)
  | _ => skipScale s

/-- Skips a number behind its sign. -/
def skipUnsigned (s : List Char) : Except Fault (List Char) :=
  match s with
  | '0' :: rest =>
    if startsWithDigit rest then .error (.next .invalidNumber rest) else skipTail rest
  | _ => if startsWithDigit s then skipTail (skipDigits s) else .error (.next .invalidNumber s)

theorem suffix_of_skipExponent {s r : List Char} (h : skipExponent s = .ok r) : r <:+ s := by
  simp only [skipExponent] at h
  split at h <;> cases h
  exact (skipDigits_suffix _).trans (readSign_suffix _)

theorem suffix_of_skipScale {s r : List Char} (h : skipScale s = .ok r) : r <:+ s := by
  unfold skipScale at h
  split at h
  · exact (suffix_of_skipExponent h).trans (List.suffix_cons _ _)
  · exact (suffix_of_skipExponent h).trans (List.suffix_cons _ _)
  · cases h
    exact List.suffix_refl _

theorem suffix_of_skipTail {s r : List Char} (h : skipTail s = .ok r) : r <:+ s := by
  unfold skipTail at h
  split at h
  · split at h
    · exact (suffix_of_skipScale h).trans ((skipDigits_suffix _).trans (List.suffix_cons _ _))
    · cases h
  · exact suffix_of_skipScale h

theorem suffix_of_skipUnsigned {s r : List Char} (h : skipUnsigned s = .ok r) : r <:+ s := by
  unfold skipUnsigned at h
  split at h
  · split at h
    · cases h
    · exact (suffix_of_skipTail h).trans (List.suffix_cons _ _)
  · split at h
    · exact (suffix_of_skipTail h).trans (skipDigits_suffix _)
    · cases h

/-- Skips a value without parts that starts with `c`. -/
def skipScalar (c : Char) (rest : List Char) : Except Fault (List Char) :=
  match c with
  | 'n' => expectLetters ['u', 'l', 'l'] rest
  | 't' => expectLetters ['r', 'u', 'e'] rest
  | 'f' => expectLetters ['a', 'l', 's', 'e'] rest
  | '"' => skipString rest
  | '-' => skipUnsigned rest
  | c =>
    if c.isDigit then skipUnsigned (c :: rest) else .error (.next .valueExpected (c :: rest))

theorem suffix_of_skipScalar {c : Char} {rest r : List Char} (h : skipScalar c rest = .ok r) :
    r <:+ c :: rest := by
  unfold skipScalar at h
  split at h
  · exact (suffix_of_expectLetters h).trans (List.suffix_cons _ _)
  · exact (suffix_of_expectLetters h).trans (List.suffix_cons _ _)
  · exact (suffix_of_expectLetters h).trans (List.suffix_cons _ _)
  · exact (suffix_of_skipString h).trans (List.suffix_cons _ _)
  · exact (suffix_of_skipUnsigned h).trans (List.suffix_cons _ _)
  · split at h
    · exact suffix_of_skipUnsigned h
    · cases h

/-! ### Values with parts -/

/-- A bracket that was opened. -/
inductive Bracket where
  | square
  | curly
  deriving Repr, DecidableEq

namespace Bracket

/-- The bracket that closes it. -/
def closing : Bracket → Char
  | square => ']'
  | curly => '\x7d'

/-- What is wrong if the text ends before it is closed. -/
def endProblem : Bracket → Problem
  | square => .endInList
  | curly => .endInObject

/-- What is wrong if neither the closing bracket nor a comma follows a value. -/
def commaOrEnd : Bracket → Problem
  | square => .listCommaOrEnd
  | curly => .objectCommaOrEnd

end Bracket

/-- Skips a key and the colon behind it. -/
def skipKey (s : List Char) : Except Fault (List Char) :=
  match skipBlanks s with
  | [] => .error (.next .endInObject [])
  | '"' :: rest =>
    match skipString rest with
    | .error fault => .error fault
    | .ok rest => (Reader.colon.run rest).map (·.2)
  | s => .error (.next .keyExpected s)

theorem suffix_of_skipKey {s r : List Char} (h : skipKey s = .ok r) : r <:+ s := by
  unfold skipKey at h
  split at h
  · cases h
  · next rest hs =>
    split at h
    · cases h
    · next rest' hstring =>
      cases hcolon : Reader.colon.run rest' with
      | error fault => rw [hcolon] at h; cases h
      | ok result =>
        rw [hcolon] at h
        cases h
        exact (Reader.colon.suffix hcolon).trans ((suffix_of_skipString hstring).trans
          ((List.suffix_cons _ _).trans (hs ▸ skipBlanks_suffix s)))
  · cases h

/-- Skips what belongs to an item behind its bracket or comma, up to its value: in an
object, the key. -/
def skipLabel : Bracket → List Char → Except Fault (List Char)
  | .square, s => .ok s
  | .curly, s => skipKey s

theorem suffix_of_skipLabel {b : Bracket} {s r : List Char} (h : skipLabel b s = .ok r) :
    r <:+ s := by
  cases b with
  | square => cases h; exact List.suffix_refl _
  | curly => exact suffix_of_skipKey h

/-- The bracket that a character opens. -/
def opening? : Char → Option Bracket
  | '[' => some .square
  | '\x7b' => some .curly
  | _ => none

/-- Skips up to the end of all open brackets, the innermost first. If `awaited`, a value
comes next; else one has just ended. -/
def skipNested (awaited : Bool) (opened : List Bracket) (s : List Char) :
    Except Fault (List Char) :=
  match awaited, opened with
  | false, [] => .ok s
  | false, b :: outer =>
    match _h : skipBlanks s with
    | [] => .error (.next b.endProblem [])
    | c :: rest =>
      if c = ',' then
        match _h' : skipLabel b rest with
        | .error fault => .error fault
        | .ok rest => skipNested true (b :: outer) rest
      else if c = b.closing then skipNested false outer rest
      else .error (.next b.commaOrEnd (c :: rest))
  | true, opened =>
    match _h : skipBlanks s with
    | [] => .error (.next .endInValue [])
    | c :: rest =>
      match opening? c with
      | some b =>
        match _h' : skipBlanks rest with
        | [] => .error (.next b.endProblem [])
        | d :: rest' =>
          if d = b.closing then skipNested false opened rest'
          else
            match _h'' : skipLabel b rest with
            | .error fault => .error fault
            | .ok rest => skipNested true (b :: opened) rest
      | none =>
        match _h' : skipScalar c rest with
        | .error fault => .error fault
        | .ok rest => skipNested false opened rest
termination_by (s.length, awaited.toNat)
decreasing_by
  all_goals
    have hs := (skipBlanks_suffix s).length_le
    rw [_h, List.length_cons] at hs
  · exact .left _ _ (Nat.lt_of_le_of_lt (suffix_of_skipLabel _h').length_le hs)
  · exact .left _ _ hs
  · have hr := (skipBlanks_suffix rest).length_le
    rw [_h', List.length_cons] at hr
    exact .left _ _ (by omega)
  · exact .left _ _ (Nat.lt_of_le_of_lt (suffix_of_skipLabel _h'').length_le hs)
  · have hr := (suffix_of_skipScalar _h').length_le
    rw [List.length_cons] at hr
    rcases Nat.lt_or_eq_of_le (Nat.le_trans hr hs) with hlt | heq
    · exact .left _ _ hlt
    · rw [heq]
      exact .right _ (by decide)

theorem suffix_of_skipNested {awaited : Bool} {opened : List Bracket} {s r : List Char}
    (h : skipNested awaited opened s = .ok r) : r <:+ s := by
  fun_induction skipNested awaited opened s with
  | case1 => cases h; exact List.suffix_refl _
  | case2 => cases h
  | case3 => cases h
  | case4 s b outer rest rest' hlabel hs ih =>
    exact (ih h).trans ((suffix_of_skipLabel hlabel).trans
      ((List.suffix_cons _ _).trans (hs ▸ skipBlanks_suffix s)))
  | case5 s b outer rest hs _ ih =>
    exact (ih h).trans ((List.suffix_cons _ _).trans (hs ▸ skipBlanks_suffix s))
  | case6 => cases h
  | case7 => cases h
  | case8 => cases h
  | case9 s opened c rest hs b _ rest' hr ih =>
    exact (ih h).trans ((List.suffix_cons _ _).trans ((hr ▸ skipBlanks_suffix rest).trans
      ((List.suffix_cons _ _).trans (hs ▸ skipBlanks_suffix s))))
  | case10 => cases h
  | case11 s opened c rest hs b _ d rest' _ _ rest'' hlabel ih =>
    exact (ih h).trans ((suffix_of_skipLabel hlabel).trans
      ((List.suffix_cons _ _).trans (hs ▸ skipBlanks_suffix s)))
  | case12 => cases h
  | case13 s opened c rest hs _ rest' hscalar ih =>
    exact (ih h).trans ((suffix_of_skipScalar hscalar).trans (hs ▸ skipBlanks_suffix s))

/-- Skips a value. -/
def Reader.skip : Reader Unit where
  run s := (skipNested true [] s).map fun r => ((), r)
  suffix {s a r} h := by
    cases hr : skipNested true [] s with
    | error fault => rw [hr] at h; cases h
    | ok rest =>
      rw [hr] at h
      cases h
      exact suffix_of_skipNested hr

end CommandLine.Json
