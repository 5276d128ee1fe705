import CommandLine.Text.Bytes
import CommandLine.Token.Basic
/-!
# CommandLine.Token.Lexer

From a line to its tokens.

* Words are longest runs of ASCII letters and digits; a text runs from one double
  quote to the next and knows no escapes; `/`, `:`, `+` and `-` stand for
  themselves; blanks (U+0020 only) separate and are dropped.
* `Token.scan` goes over the characters once, from left to right, and stops at the
  first character that begins no token. `Token.first` reads the one token that
  begins with a given character, so what the two say can be looked at apart.
* `TokenStream` is the result: the tokens before the end of the line and the token
  that stands for the end. That no token before the end is of kind `terminal` is
  part of the type.
-/

namespace CommandLine

/-- Why a line has no tokens. -/
inductive LexicalError.Cause where
  /-- A character that begins no token. -/
  | unexpectedCharacter
  /-- A quote without a partner. -/
  | unterminatedText
  deriving Repr, DecidableEq

/-- What a cause is called. -/
def LexicalError.Cause.description : LexicalError.Cause → String
  | unexpectedCharacter => "unexpected character"
  | unterminatedText => "unterminated string"

/-- The place where a line stops having tokens: the characters that begin no
token, and where they stand. -/
structure LexicalFault where
  cause : LexicalError.Cause
  fragment : String
  span : Span
  deriving Repr, DecidableEq

/-- A fault together with the line that has it. -/
structure LexicalError extends LexicalFault where
  line : String
  deriving Repr, DecidableEq

namespace LexicalError

/-- The cause and the fragment. -/
def summary (e : LexicalError) : String :=
  e.cause.description ++ ": `" ++ e.fragment ++ "`"

/-- The cause, the fragment and where it stands. -/
def message (e : LexicalError) : String :=
  e.summary ++ " at " ++ e.span.text

end LexicalError

namespace Token

open Text (byteLength)

/-- The characters that words are made of: ASCII letters and digits. -/
def isWordChar (c : Char) : Bool := c.isAlphanum

/-- The kind of the tokens that consist of one character. -/
def Kind.ofMark? : Char → Option Kind
  | '/' => some slash
  | ':' => some colon
  | '+' => some plus
  | '-' => some minus
  | _ => none

theorem Kind.ofMark?_ne_terminal {c : Char} {kind : Kind} (h : ofMark? c = some kind) :
    kind ≠ terminal := by
  unfold ofMark? at h
  split at h <;> simp_all <;> simp [← h]

/-- The token that begins with `c`, which stands at byte `offset` and is followed
by `rest`, together with the characters behind it. -/
def first (offset : Nat) (c : Char) (rest : List Char) :
    Except LexicalFault (Token × List Char) :=
  if isWordChar c then
    let word := c :: rest.takeWhile isWordChar
    .ok (⟨.word, String.ofList word, ⟨offset, offset + byteLength word⟩⟩,
      rest.dropWhile isWordChar)
  else if c = '"' then
    let content := rest.takeWhile (· ≠ '"')
    match rest.dropWhile (· ≠ '"') with
    | [] =>
      .error ⟨.unterminatedText, String.ofList (c :: rest),
        ⟨offset, offset + byteLength (c :: rest)⟩⟩
    | _ :: after =>
      .ok (⟨.text, String.ofList content, ⟨offset, offset + byteLength content + 2⟩⟩, after)
  else
    match Kind.ofMark? c with
    | some kind => .ok (⟨kind, String.ofList [c], ⟨offset, offset + 1⟩⟩, rest)
    | none =>
      .error ⟨.unexpectedCharacter, String.ofList [c], ⟨offset, offset + c.utf8Size⟩⟩

/-- Reading a token takes at least its first character. -/
theorem length_le_of_first {offset : Nat} {c : Char} {rest after : List Char} {token : Token}
    (h : first offset c rest = .ok (token, after)) : after.length ≤ rest.length := by
  unfold first at h
  split at h
  · cases h
    exact (List.dropWhile_sublist _).length_le
  · split at h
    · split at h
      · cases h
      · next heq =>
        cases h
        have := (List.dropWhile_sublist (l := rest) (· ≠ '"')).length_le
        rw [heq, List.length_cons] at this
        omega
    · split at h <;> cases h
      exact Nat.le_refl _

/-- The end of the line is no token that begins with a character. -/
theorem kind_ne_terminal_of_first {offset : Nat} {c : Char} {rest after : List Char}
    {token : Token} (h : first offset c rest = .ok (token, after)) : token.kind ≠ .terminal := by
  unfold first at h
  split at h
  · cases h; exact Kind.noConfusion
  · split at h
    · split at h <;> cases h
      exact Kind.noConfusion
    · split at h
      · next hmark => cases h; exact Kind.ofMark?_ne_terminal hmark
      · cases h

/-- The tokens of the characters from byte `offset` on. -/
def scan (offset : Nat) : List Char → Except LexicalFault (List Token)
  | [] => .ok []
  | c :: rest =>
    if c = ' ' then scan (offset + 1) rest
    else
      match _h : first offset c rest with
      | .error fault => .error fault
      | .ok (token, after) => (scan token.span.stop after).map (token :: ·)
termination_by cs => cs.length
decreasing_by
  · simp
  · have := length_le_of_first _h
    simp only [List.length_cons]
    omega

/-- Scanning finds no end of the line before the end. -/
theorem kind_ne_terminal_of_scan {offset : Nat} {cs : List Char} {tokens : List Token}
    (h : scan offset cs = .ok tokens) : ∀ t ∈ tokens, t.kind ≠ .terminal := by
  fun_induction scan offset cs generalizing tokens with
  | case1 => cases h; simp
  | case2 offset rest ih => exact ih h
  | case3 offset c rest _ fault _ => cases h
  | case4 offset c rest _ token after hfirst ih =>
    cases hscan : scan token.span.stop after with
    | error fault => rw [hscan] at h; cases h
    | ok tail =>
      rw [hscan] at h
      cases h
      intro t ht
      rcases List.mem_cons.1 ht with rfl | ht
      · exact kind_ne_terminal_of_first hfirst
      · exact ih hscan t ht

end Token

/-- The tokens of a line, with the one that stands for its end kept apart. -/
structure TokenStream where
  line : String
  body : List Token
  terminal : Token
  body_kind : ∀ t ∈ body, t.kind ≠ .terminal
  terminal_kind : terminal.kind = .terminal
  deriving DecidableEq

namespace TokenStream

/-- All tokens, the end of the line last. -/
def tokens (s : TokenStream) : List Token := s.body ++ [s.terminal]

/-- The number of tokens, the end of the line included. -/
def length (s : TokenStream) : Nat := s.tokens.length

/-- Whether nothing stands before the end of the line. -/
def isEmpty (s : TokenStream) : Bool := s.body.isEmpty

/-- The token at an index; the end of the line at every index behind it. -/
def get (s : TokenStream) (index : Nat) : Token := s.body.getD index s.terminal

/-- The tokens of a line. -/
def ofLine (line : String) : Except LexicalError TokenStream :=
  match h : Token.scan 0 line.toList with
  | .error fault => .error { fault with line }
  | .ok body =>
    .ok {
      line, body
      terminal := ⟨.terminal, "", .empty (Text.byteLength line.toList)⟩
      body_kind := Token.kind_ne_terminal_of_scan h
      terminal_kind := rfl }

/-- The tokens as a JSON array. -/
def toJson (s : TokenStream) : Json.Value := .array (s.tokens.map Token.toJson)

end TokenStream

end CommandLine
