import Mathlib.Data.List.TakeWhile
import Mathlib.Tactic.SplitIfs
import CommandLine.Proofs.ByteOrder
import CommandLine.Proofs.Carets
import CommandLine.Proofs.Outcome
import CommandLine.Proofs.Spelling
/-!
# CommandLine.Proofs.ByteScanner

**Scanning bytes gives the tokens of the line.** `Token.scan` goes over the characters of a line. A
scanner can as well go over its bytes with a cursor, and take the parts of the line between two
offsets. This module has such a scanner, in which much can go wrong: there is no text between two
offsets if one of them lies inside a character, no span between offsets that are not in order, and
nothing makes the cursor come to the end of the line but an allowance of rounds.

None of this happens, and the tokens and the faults are the same (`tokens_eq_ofLine`). For all
bytes that begin a token are ASCII, and the first byte of a character is that of an ASCII character
only if it is this character (`firstByte_eq_iff`). So the cursor is between two characters at the
begin of each round (`round_eq`).
-/

namespace CommandLine.Token.Bytewise

open Text (byteLength)

/-! ### The scanner -/

/-- Why scanning ends without tokens. -/
inductive Stop where
  /-- The line has none. -/
  | fault (fault : LexicalFault)
  /-- There is no text between two offsets. -/
  | noText
  /-- There is no span between two offsets. -/
  | inverted (e : Span.Inverted)
  /-- The allowance of rounds is used up. -/
  | exhausted
  deriving Repr, DecidableEq

def slice (line : String) (start stop : Nat) : Except Stop String :=
  match slice? line start stop with
  | some text => .ok text
  | none => .error .noText

def span (start stop : Nat) : Except Stop Span := (Span.between? start stop).mapError .inverted

/-- A token with the literal and the span that lie between offsets. -/
def token (line : String) (kind : Kind) (start stop first last : Nat) : Except Stop Token := do
  let literal ← slice line start stop
  return ⟨kind, literal, ← span first last⟩

/-- Stops at the text between two offsets. -/
def refuse {α : Type} (line : String) (cause : LexicalError.Cause) (start stop : Nat) :
    Except Stop α := do
  let span ← span start stop
  let fragment ← slice line span.start span.stop
  throw (.fault ⟨cause, fragment, span⟩)

/-- The bytes of ASCII letters and digits. -/
def isWordByte (b : UInt8) : Bool :=
  (0x30 ≤ b && b ≤ 0x39) || (0x41 ≤ b && b ≤ 0x5a) || (0x61 ≤ b && b ≤ 0x7a)

/-- The kind of the tokens that consist of one byte. -/
def markKind? (b : UInt8) : Option Kind :=
  if b = 0x2f then some .slash
  else if b = 0x3a then some .colon
  else if b = 0x2b then some .plus
  else if b = 0x2d then some .minus
  else none

/-- The offset behind all bytes of letters and digits from one on. -/
def wordEnd (line : String) (i : Nat) : Nat :=
  if h : i < line.toUTF8.size then
    if isWordByte line.toUTF8[i] then wordEnd line (i + 1) else i
  else i
termination_by line.toUTF8.size - i
decreasing_by exact Nat.sub_succ_lt_self _ _ h

/-- The bytes before the first quote of a text. -/
def findQuote? (text : String) : Option Nat :=
  if '"' ∈ text.toList then some (byteLength (text.toList.takeWhile (· ≠ '"'))) else none

/-- The word that begins at an offset, and the offset behind it. -/
def readWord (line : String) (i : Nat) : Except Stop (Option Token × Nat) := do
  let stop := wordEnd line (i + 1)
  return (some (← token line .word i stop i stop), stop)

/-- The text whose first quote is at an offset, and the offset behind it. -/
def readText (line : String) (i : Nat) : Except Stop (Option Token × Nat) := do
  let rest ← slice line (i + 1) line.toUTF8.size
  match findQuote? rest with
  | none => refuse line .unterminatedText i line.toUTF8.size
  | some offset =>
    let close := i + 1 + offset
    return (some (← token line .text (i + 1) close i (close + 1)), close + 1)

/-- The token of one byte at an offset, and the offset behind it. -/
def readMark (line : String) (kind : Kind) (i : Nat) : Except Stop (Option Token × Nat) := do
  return (some (← token line kind i (i + 1) i (i + 1)), i + 1)

/-- Stops at the whole character that begins at an offset. -/
def refuseCharacter (line : String) (i : Nat) : Except Stop (Option Token × Nat) := do
  let rest ← slice line i line.toUTF8.size
  refuse line .unexpectedCharacter i (i + rest.toList.head?.elim 1 Char.utf8Size)

/-- What begins with a byte at an offset: a token, or none if it is a blank, and the offset
behind it. -/
def round (line : String) (i : Nat) (b : UInt8) : Except Stop (Option Token × Nat) :=
  if b = 0x20 then .ok (none, i + 1)
  else if isWordByte b then readWord line i
  else if b = 0x22 then readText line i
  else
    match markKind? b with
    | some kind => readMark line kind i
    | none => refuseCharacter line i

/-- Goes on from an offset, round by round, with the tokens that were found before it. -/
def scanFrom (line : String) : Nat → Nat → List Token → Except Stop (List Token)
  | 0, _, _ => .error .exhausted
  | allowance + 1, i, found =>
    if h : i < line.toUTF8.size then do
      let (next, i) ← round line i line.toUTF8[i]
      scanFrom line allowance i (found ++ next.toList)
    else .ok found

/-- The tokens of a line, with a round for each byte and one more. -/
def tokens (line : String) : Except Stop (List Token) := do
  let size := line.toUTF8.size
  let found ← scanFrom line (size + 1) 0 []
  return found ++ [⟨.terminal, ← slice line size size, .empty size⟩]

/-! ### Bytes that begin characters -/

/-- The first byte of a character. -/
def firstByte (c : Char) : UInt8 := (String.utf8EncodeChar c).headD 0

variable {line : String} {before cs : List Char} {c : Char}

theorem length_flatMap_utf8EncodeChar (cs : List Char) :
    (cs.flatMap String.utf8EncodeChar).length = byteLength cs := by
  induction cs with
  | nil => rfl
  | cons c cs ih =>
    rw [List.flatMap_cons, List.length_append, ih, String.length_utf8EncodeChar,
      Text.byteLength_cons]

theorem getElem_eq_firstByte (h : line.toList = before ++ c :: cs)
    (hlt : byteLength before < line.toUTF8.size) :
    line.toUTF8[byteLength before] = firstByte c := by
  have hbyte : (Text.bytes line)[byteLength before]? = some line.toUTF8[byteLength before] := by
    rw [Text.bytes, Array.getElem?_toList]
    exact getElem?_pos line.toUTF8.data _ hlt
  have hfirst : (Text.bytes line)[byteLength before]? = some (firstByte c) := by
    rw [Text.bytes_eq, h, List.flatMap_append, ← length_flatMap_utf8EncodeChar,
      List.getElem?_append_right (Nat.le_refl _), Nat.sub_self, List.flatMap_cons, firstByte]
    cases hbytes : String.utf8EncodeChar c with
    | nil => exact absurd hbytes String.utf8EncodeChar_ne_nil
    | cons b bs => rfl
  exact Option.some.inj (hbyte.symm.trans hfirst)

/-- Bytes of ASCII are the first ones of ASCII characters only. -/
theorem firstByte_cases (c : Char) :
    c.val.toNat < 128 ∧ (firstByte c).toNat = c.val.toNat
      ∨ 128 ≤ c.val.toNat ∧ 128 ≤ (firstByte c).toNat := by
  have hmax : c.val.toNat < 0x110000 := by
    rcases c.valid with hc | hc
    · omega
    · exact hc.2
  have htoNat (k : Nat) (hk : k < 256) : (UInt8.ofNat k).toNat = k := by
    rw [UInt8.toNat_ofNat', Nat.mod_eq_of_lt hk]
  simp only [firstByte, String.utf8EncodeChar]
  generalize c.val.toNat = n at hmax ⊢
  split_ifs <;> simp (disch := omega) only [List.headD_cons, htoNat, and_true] <;> omega

theorem isWordChar_iff (c : Char) : isWordChar c = true ↔ 48 ≤ c.val.toNat ∧ c.val.toNat ≤ 57
    ∨ 65 ≤ c.val.toNat ∧ c.val.toNat ≤ 90 ∨ 97 ≤ c.val.toNat ∧ c.val.toNat ≤ 122 := by
  show ((decide (65 ≤ c.val ∧ c.val ≤ 90) || decide (97 ≤ c.val) && decide (c.val ≤ 122))
    || decide (48 ≤ c.val) && decide (c.val ≤ 57)) = true ↔ _
  simp only [Bool.or_eq_true, Bool.and_eq_true, decide_eq_true_eq, UInt32.le_iff_toNat_le]
  show (65 ≤ c.val.toNat ∧ c.val.toNat ≤ 90 ∨ 97 ≤ c.val.toNat ∧ c.val.toNat ≤ 122)
    ∨ 48 ≤ c.val.toNat ∧ c.val.toNat ≤ 57 ↔ _
  omega

theorem isWordByte_firstByte (c : Char) : isWordByte (firstByte c) = isWordChar c := by
  have hword (b : UInt8) : isWordByte b = true ↔ 48 ≤ b.toNat ∧ b.toNat ≤ 57
      ∨ 65 ≤ b.toNat ∧ b.toNat ≤ 90 ∨ 97 ≤ b.toNat ∧ b.toNat ≤ 122 := by
    simp [isWordByte, UInt8.le_iff_toNat_le, or_assoc]
  rw [Bool.eq_iff_iff, hword, isWordChar_iff]
  rcases firstByte_cases c with ⟨-, h⟩ | ⟨hlarge, h⟩
  · rw [h]
  · omega

/-- A byte of ASCII begins the character that it is. -/
theorem firstByte_eq_iff (d : Char) (hd : d.val.toNat < 128) :
    firstByte c = UInt8.ofNat d.val.toNat ↔ c = d := by
  have hbyte : (UInt8.ofNat d.val.toNat).toNat = d.val.toNat := by
    rw [UInt8.toNat_ofNat', Nat.mod_eq_of_lt (by omega)]
  rw [← Char.toNat_inj, ← UInt8.toNat_inj, hbyte]
  show (firstByte c).toNat = d.val.toNat ↔ c.val.toNat = d.val.toNat
  rcases firstByte_cases c with ⟨-, h⟩ | ⟨hlarge, h⟩
  · rw [h]
  · omega

theorem markKind?_firstByte (c : Char) : markKind? (firstByte c) = Kind.ofMark? c := by
  have hslash : firstByte c = 0x2f ↔ c = '/' := firstByte_eq_iff '/' (by decide)
  have hcolon : firstByte c = 0x3a ↔ c = ':' := firstByte_eq_iff ':' (by decide)
  have hplus : firstByte c = 0x2b ↔ c = '+' := firstByte_eq_iff '+' (by decide)
  have hminus : firstByte c = 0x2d ↔ c = '-' := firstByte_eq_iff '-' (by decide)
  simp only [markKind?, hslash, hcolon, hplus, hminus]
  unfold Kind.ofMark?
  split_ifs <;> simp_all

/-! ### Parts of the line -/

theorem size_eq (line : String) : line.toUTF8.size = byteLength line.toList := by
  rw [String.toUTF8_eq_toByteArray, String.size_toByteArray, Text.utf8ByteSize_eq]

theorem slice_eq {w after : List Char} (h : line.toList = before ++ (w ++ after)) :
    slice line (byteLength before) (byteLength before + byteLength w) = .ok (String.ofList w) := by
  rw [slice, slice?_of_toList h]

/-- The text from an offset on. -/
theorem slice_size_eq (h : line.toList = before ++ cs) :
    slice line (byteLength before) line.toUTF8.size = .ok (String.ofList cs) := by
  have hline : line.toList = before ++ (cs ++ []) := by rw [h, List.append_nil]
  rw [size_eq, h, Text.byteLength_append, slice_eq hline]

theorem span_eq (start width : Nat) : span start (start + width) = .ok ⟨start, start + width⟩ := by
  rw [span, Span.between?, if_neg (by omega)]
  rfl

theorem token_eq {w after : List Char} {kind : Kind} {first width : Nat}
    (h : line.toList = before ++ (w ++ after)) :
    token line kind (byteLength before) (byteLength before + byteLength w) first (first + width)
      = .ok ⟨kind, String.ofList w, ⟨first, first + width⟩⟩ := by
  rw [token, slice_eq h, span_eq]
  rfl

theorem refuse_eq {α : Type} {w after : List Char} {cause : LexicalError.Cause}
    (h : line.toList = before ++ (w ++ after)) :
    (refuse line cause (byteLength before) (byteLength before + byteLength w) : Except Stop α)
      = .error (.fault ⟨cause, String.ofList w,
        ⟨byteLength before, byteLength before + byteLength w⟩⟩) := by
  rw [refuse, span_eq]
  show (slice line _ _ >>= fun _ => _) = _
  rw [slice_eq h]
  rfl

theorem utf8Size_of_isWordChar (h : isWordChar c = true) : c.utf8Size = 1 := by
  rw [isWordChar_iff] at h
  rw [Char.utf8Size_eq_one_iff, UInt32.le_iff_toNat_le]
  show c.val.toNat ≤ 127
  omega

/-- The bytes of letters and digits are those of the characters that are ones. -/
theorem wordEnd_eq (h : line.toList = before ++ cs) :
    wordEnd line (byteLength before)
      = byteLength before + byteLength (cs.takeWhile isWordChar) := by
  induction cs generalizing before with
  | nil =>
    rw [wordEnd, dif_neg (by rw [size_eq, h, List.append_nil]; exact Nat.lt_irrefl _)]
    rfl
  | cons c cs ih =>
    rw [wordEnd, dif_pos (Text.lt_size_of_toList h), getElem_eq_firstByte h,
      isWordByte_firstByte]
    by_cases hword : isWordChar c = true
    · have hsize := utf8Size_of_isWordChar hword
      have hline : line.toList = (before ++ [c]) ++ cs := by rw [h, List.append_cons]
      have hnext := ih hline
      rw [if_pos hword, List.takeWhile_cons_of_pos hword, Text.byteLength_cons]
      simp only [Text.byteLength_append, Text.byteLength_cons, Text.byteLength_nil, hsize,
        Nat.add_zero] at hnext ⊢
      omega
    · rw [if_neg hword, List.takeWhile_cons_of_neg hword]
      rfl

/-! ### Rounds -/

/-- What is read in a round, as `Token.first` reads it. -/
def asRound (result : Except LexicalFault (Token × List Char)) : Except Stop (Option Token × Nat) :=
  (result.map fun p => (some p.1, p.1.span.stop)).mapError .fault

theorem byteLength_snoc (hsize : c.utf8Size = 1) :
    byteLength (before ++ [c]) = byteLength before + 1 := by
  rw [Text.byteLength_append, Text.byteLength_cons, hsize, Text.byteLength_nil]

theorem readWord_eq (h : line.toList = before ++ c :: cs) (hword : isWordChar c = true) :
    readWord line (byteLength before) = asRound (first (byteLength before) c cs) := by
  have hsize := utf8Size_of_isWordChar hword
  have hstop : wordEnd line (byteLength before + 1)
      = byteLength before + byteLength (c :: cs.takeWhile isWordChar) := by
    have hline : line.toList = (before ++ [c]) ++ cs := by rw [h, List.append_cons]
    rw [← byteLength_snoc hsize, wordEnd_eq hline, byteLength_snoc hsize, Text.byteLength_cons,
      hsize, Nat.add_assoc]
  have hline : line.toList
      = before ++ ((c :: cs.takeWhile isWordChar) ++ cs.dropWhile isWordChar) := by
    rw [h, List.cons_append, List.takeWhile_append_dropWhile]
  rw [readWord, hstop, token_eq hline, first, if_pos hword]
  rfl

/-- What stands behind a quote. -/
theorem slice_behind_quote (h : line.toList = before ++ '"' :: cs) :
    slice line (byteLength before + 1) line.toUTF8.size = .ok (String.ofList cs) := by
  have hsize : '"'.utf8Size = 1 := rfl
  have hnext : line.toList = (before ++ ['"']) ++ cs := by rw [h, List.append_cons]
  rw [← byteLength_snoc hsize, slice_size_eq hnext]

theorem readText_closed {w after : List Char}
    (h : line.toList = before ++ '"' :: (w ++ '"' :: after)) (hw : '"' ∉ w) :
    readText line (byteLength before) =
      asRound (first (byteLength before) '"' (w ++ '"' :: after)) := by
  have hsize : '"'.utf8Size = 1 := rfl
  have hnext : line.toList = (before ++ ['"']) ++ (w ++ '"' :: after) := by rw [h, List.append_cons]
  have hmem : '"' ∈ w ++ '"' :: after := by simp
  have hfind : findQuote? (String.ofList (w ++ '"' :: after)) = some (byteLength w) := by
    rw [findQuote?, String.toList_ofList, if_pos hmem, takeWhile_quote hw]
  have htoken := @token_eq _ _ _ _ .text (byteLength before) (byteLength w + 2) hnext
  have hclose : byteLength before + 1 + byteLength w + 1
      = byteLength before + (byteLength w + 2) := by omega
  rw [byteLength_snoc hsize] at htoken
  rw [readText, slice_behind_quote h, first_text hw]
  dsimp only [bind, Except.bind]
  rw [hfind]
  dsimp only
  rw [hclose, htoken]
  rfl

/-- A text that nothing closes is at fault up to the end of the line. -/
theorem readText_unclosed (h : line.toList = before ++ '"' :: cs) (hmem : '"' ∉ cs) :
    readText line (byteLength before) = asRound (first (byteLength before) '"' cs) := by
  have hfind : findQuote? (String.ofList cs) = none := by
    rw [findQuote?, String.toList_ofList, if_neg hmem]
  have hdrop : cs.dropWhile (· ≠ '"') = [] := by
    rw [List.dropWhile_eq_nil_iff]
    exact fun d hd => decide_eq_true (ne_of_mem_of_not_mem hd hmem)
  have hline : line.toList = before ++ ('"' :: cs ++ []) := by rw [h, List.append_nil]
  have hend : line.toUTF8.size = byteLength before + byteLength ('"' :: cs) := by
    rw [size_eq, h, Text.byteLength_append]
  rw [readText, slice_behind_quote h]
  dsimp only [bind, Except.bind]
  rw [hfind]
  dsimp only
  rw [hend, refuse_eq hline, first, if_neg (by decide), if_pos rfl, hdrop]
  rfl

theorem readText_eq (h : line.toList = before ++ '"' :: cs) :
    readText line (byteLength before) = asRound (first (byteLength before) '"' cs) := by
  by_cases hmem : '"' ∈ cs
  · obtain ⟨w, after, rfl, hw⟩ := List.eq_append_cons_of_mem hmem
    exact readText_closed h hw
  · exact readText_unclosed h hmem

theorem readMark_eq (h : line.toList = before ++ c :: cs) {kind : Kind}
    (hmark : Kind.ofMark? c = some kind) :
    readMark line kind (byteLength before) = asRound (first (byteLength before) c cs) := by
  obtain ⟨-, -, -, -, hsize⟩ := of_ofMark? hmark
  have hline : line.toList = before ++ ([c] ++ cs) := h
  have hwidth : byteLength [c] = 1 := hsize
  have htoken := @token_eq _ _ [c] _ kind (byteLength before) 1 hline
  rw [hwidth] at htoken
  rw [readMark, htoken, first_mark hmark]
  rfl

theorem refuseCharacter_eq (h : line.toList = before ++ c :: cs) (hword : isWordChar c = false)
    (hquote : c ≠ '"') (hmark : Kind.ofMark? c = none) :
    refuseCharacter line (byteLength before) = asRound (first (byteLength before) c cs) := by
  have hline : line.toList = before ++ ([c] ++ cs) := h
  have hrefuse := @refuse_eq _ _ (Option Token × Nat) [c] _ .unexpectedCharacter hline
  rw [refuseCharacter, slice_size_eq h, first, if_neg (by simp [hword]), if_neg hquote, hmark]
  dsimp only [bind, Except.bind]
  rw [String.toList_ofList]
  exact hrefuse

/-- A round reads what begins with the character at the cursor. -/
theorem round_eq (h : line.toList = before ++ c :: cs) :
    round line (byteLength before) (firstByte c) =
      if c = ' ' then .ok (none, byteLength before + 1)
      else asRound (first (byteLength before) c cs) := by
  have hblank : firstByte c = 0x20 ↔ c = ' ' := firstByte_eq_iff ' ' (by decide)
  have hquote : firstByte c = 0x22 ↔ c = '"' := firstByte_eq_iff '"' (by decide)
  simp only [round, hblank, hquote, isWordByte_firstByte, markKind?_firstByte]
  split_ifs with hc hword hq
  · rfl
  · exact readWord_eq h hword
  · subst hq
    exact readText_eq h
  · cases hmark : Kind.ofMark? c with
    | some kind => exact readMark_eq h hmark
    | none => exact refuseCharacter_eq h (Bool.eq_false_iff.2 hword) hq hmark

/-! ### All rounds -/

/-- There are rounds enough for the bytes that are left, so scanning goes on to the end of the line
or to a fault. -/
theorem scanFrom_eq (h : line.toList = before ++ cs) {allowance : Nat}
    (hallowance : byteLength cs < allowance) (found : List Token) :
    scanFrom line allowance (byteLength before) found =
      ((scan (byteLength before) cs).map (found ++ ·)).mapError .fault := by
  induction allowance generalizing before cs found with
  | zero => omega
  | succ allowance ih =>
    cases cs with
    | nil =>
      rw [scanFrom, dif_neg (by rw [size_eq, h, List.append_nil]; exact Nat.lt_irrefl _)]
      simp [scan, Except.map, Except.mapError]
    | cons c cs =>
      rw [scanFrom, dif_pos (Text.lt_size_of_toList h), getElem_eq_firstByte h, round_eq h, scan]
      by_cases hc : c = ' '
      · subst hc
        have hsize : ' '.utf8Size = 1 := rfl
        have hline : line.toList = (before ++ [' ']) ++ cs := by rw [h, List.append_cons]
        rw [Text.byteLength_cons, hsize] at hallowance
        have hrest := ih hline (by omega) found
        rw [byteLength_snoc hsize] at hrest
        rw [if_pos rfl, if_pos rfl, ← hrest]
        simp [bind, Except.bind]
      · rw [if_neg hc, if_neg hc]
        split
        · next fault hfirst =>
          rw [hfirst]
          rfl
        · next t after hfirst =>
          obtain ⟨hnext, hspelling⟩ := next_of_first hfirst
          have hline : line.toList = (before ++ t.spelling) ++ after := by
            rw [h, hspelling, List.append_assoc]
          have hstop : t.span.stop = byteLength (before ++ t.spelling) := by
            rw [hnext.span_eq, Text.byteLength_append]
          have hwidth : byteLength before < byteLength before + byteLength t.spelling := by
            simpa [hnext.span_eq] using hnext.start_lt_stop
          rw [hspelling, Text.byteLength_append] at hallowance
          have hrest := ih hline (by omega) (found ++ [t])
          rw [← hstop] at hrest
          rw [hfirst]
          show scanFrom line allowance t.span.stop (found ++ [t]) = _
          rw [hrest]
          cases scan t.span.stop after with
          | error fault => rfl
          | ok ts => simp [Except.map, Except.mapError]

/-- **Scanning bytes gives the tokens of the line.** All that can go wrong is that the line has no
tokens, and the fault is the same then. -/
theorem tokens_eq_ofLine (line : String) :
    tokens line =
      ((TokenStream.ofLine line).map TokenStream.tokens).mapError fun e => .fault e.toLexicalFault := by
  have hscan : scanFrom line (line.toUTF8.size + 1) 0 []
      = ((scan 0 line.toList).map ([] ++ ·)).mapError .fault :=
    @scanFrom_eq line [] line.toList rfl _ (by rw [size_eq]; exact Nat.lt_succ_self _) []
  have hend : slice line line.toUTF8.size line.toUTF8.size = .ok "" := by
    have hline : line.toList = line.toList ++ [] := (List.append_nil _).symm
    have hslice := slice_size_eq hline
    rwa [← size_eq] at hslice
  unfold TokenStream.ofLine
  split
  · next fault hfault =>
    rw [hfault] at hscan
    rw [tokens, hscan]
    rfl
  · next body hbody =>
    rw [hbody] at hscan
    rw [tokens, hscan, hend]
    show Except.ok (body ++ [⟨.terminal, "", .empty line.toUTF8.size⟩])
      = .ok (body ++ [⟨.terminal, "", .empty (byteLength line.toList)⟩])
    rw [size_eq]

end CommandLine.Token.Bytewise
