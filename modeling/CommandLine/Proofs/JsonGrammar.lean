import CommandLine.Json.Literal
/-!
# CommandLine.Proofs.JsonGrammar

**Which texts are JSON texts, and what they say.** The readers of this library go over a text
once and stop at the first fault. The grammar here says without them how values are written:

* `Form` is what a text says: a value with the members of its objects in the order of the text,
  also where keys are repeated, and with numbers as they are written.
* `Form.Spells v t r` says that the text `t` begins with a spelling of `v`, and that `r` is what
  is left behind it. Blanks may stand between all parts of a value.
* `Form.IsText v text` says that a whole text is a spelling of `v`, with blanks around it.

A string literal may hold half of a surrogate pair. It is a literal like others then, but no
string is its content.
-/

namespace CommandLine.Json

/-- The text `t` is blanks and then `r`. -/
def Blanks (t r : List Char) : Prop := ∃ bs, (∀ c ∈ bs, isBlank c) ∧ t = bs ++ r

/-! ### Strings -/

/-- A part of a string literal: a character, or a unit of UTF-16 that is given by its number. -/
inductive Piece where
  | char (c : Char)
  | unit (n : Nat)

/-- The text `t` is a part of a string literal and then `r`. -/
inductive Piece.Spells : Piece → List Char → List Char → Prop
  /-- A character that stands for itself. -/
  | plain {c : Char} {r : List Char} (hquote : c ≠ '"') (hslash : c ≠ '\\')
      (hcontrol : 0x20 ≤ c.toNat) : Spells (.char c) (c :: r) r
  /-- A character with a short form. -/
  | short {letter c : Char} {r : List Char} (h : shortEscape? letter = some c) :
      Spells (.char c) ('\\' :: letter :: r) r
  /-- Four hexadecimal digits. -/
  | numbered {a b c d : Char} {n : Nat} {r : List Char} (h : hexValue4? a b c d = some n) :
      Spells (.unit n) ('\\' :: 'u' :: a :: b :: c :: d :: r) r

/-- The text `t` is the parts of a string literal, its closing quote and then `r`. -/
inductive SpellsPieces : List Piece → List Char → List Char → Prop
  | close {r : List Char} : SpellsPieces [] ('"' :: r) r
  | piece {p : Piece} {ps : List Piece} {t t' r : List Char} (hpiece : p.Spells t t')
      (hpieces : SpellsPieces ps t' r) : SpellsPieces (p :: ps) t r

/-- Whether a unit of UTF-16 is half of a surrogate pair. -/
def isSurrogate (n : Nat) : Bool := isHighSurrogate n || isLowSurrogate n

/-- The characters that the parts of a literal stand for. Halves of surrogate pairs stand for a
character two by two, the high one first, and for nothing alone. -/
def decode? : List Piece → Option (List Char)
  | [] => some []
  | .char c :: ps => (decode? ps).map (c :: ·)
  | .unit n :: .unit m :: ps =>
    if isHighSurrogate n && isLowSurrogate m then (decode? ps).map (ofSurrogates n m :: ·)
    else if isSurrogate n then none
    else (decode? (.unit m :: ps)).map (Char.ofNat n :: ·)
  | .unit n :: ps => if isSurrogate n then none else (decode? ps).map (Char.ofNat n :: ·)

/-- The text `t` is the rest of a string literal, behind its first quote, and then `r`. The
literal stands for `content`, if it stands for a string at all. -/
def Literal (content : Option String) (t r : List Char) : Prop :=
  ∃ ps, SpellsPieces ps t r ∧ (decode? ps).map String.ofList = content

/-! ### Numbers -/

/-- Decimal digits, at least one. -/
def IsDigits (ds : List Char) : Prop := ds ≠ [] ∧ ∀ c ∈ ds, c.isDigit

/-- The integer part of a number: digits without leading zeros. -/
inductive IsWhole : List Char → Prop
  | zero : IsWhole ['0']
  | digits {c : Char} {ds : List Char} (h : IsDigits (c :: ds)) (hzero : c ≠ '0') :
      IsWhole (c :: ds)

/-- The fraction of a number, if there is one. -/
inductive IsFraction : List Char → Prop
  | none : IsFraction []
  | digits {ds : List Char} (h : IsDigits ds) : IsFraction ('.' :: ds)

/-- The exponent of a number, if there is one. -/
inductive IsExponent : List Char → Prop
  | none : IsExponent []
  | digits {mark : Char} {sign ds : List Char} (hmark : mark = 'e' ∨ mark = 'E')
      (hsign : sign = [] ∨ sign = ['+'] ∨ sign = ['-']) (h : IsDigits ds) :
      IsExponent (mark :: (sign ++ ds))

/-- A number as it is written. -/
def IsNumber (literal : List Char) : Prop :=
  ∃ sign whole fraction exponent : List Char,
    literal = sign ++ (whole ++ (fraction ++ exponent))
      ∧ (sign = [] ∨ sign = ['-']) ∧ IsWhole whole ∧ IsFraction fraction ∧ IsExponent exponent

/-! ### Values -/

/-- What a JSON text says. Strings and keys are there by their content, if they have one. -/
inductive Form where
  | null
  | boolean (b : Bool)
  | number (literal : List Char)
  | text (content : Option String)
  | array (items : List Form)
  | object (members : List (Option String × Form))

/-- The text `t` is what stands before an item or a member, and then `r`: blanks, and a comma
before all but the first one. -/
def Separated (first : Bool) (t r : List Char) : Prop :=
  if first then Blanks t r else ∃ t', Blanks t (',' :: t') ∧ Blanks t' r

mutual

/-- The text `t` is a spelling of a value and then `r`. -/
inductive Form.Spells : Form → List Char → List Char → Prop
  | null {r : List Char} : Form.Spells .null ('n' :: 'u' :: 'l' :: 'l' :: r) r
  | yes {r : List Char} : Form.Spells (.boolean true) ('t' :: 'r' :: 'u' :: 'e' :: r) r
  | no {r : List Char} : Form.Spells (.boolean false) ('f' :: 'a' :: 'l' :: 's' :: 'e' :: r) r
  | number {literal r : List Char} (h : IsNumber literal) :
      Form.Spells (.number literal) (literal ++ r) r
  | text {content : Option String} {t r : List Char} (h : Literal content t r) :
      Form.Spells (.text content) ('"' :: t) r
  | array {items : List Form} {t r : List Char} (h : SpellsItems true items t r) :
      Form.Spells (.array items) ('[' :: t) r
  | object {members : List (Option String × Form)} {t r : List Char}
      (h : SpellsMembers true members t r) : Form.Spells (.object members) ('\x7b' :: t) r

/-- The text `t` is the items of an array from some place on, its end and then `r`. -/
inductive SpellsItems : Bool → List Form → List Char → List Char → Prop
  | close {first : Bool} {t r : List Char} (h : Blanks t (']' :: r)) : SpellsItems first [] t r
  | item {first : Bool} {v : Form} {items : List Form} {t t₁ t₂ r : List Char}
      (hbefore : Separated first t t₁) (hitem : v.Spells t₁ t₂)
      (hitems : SpellsItems false items t₂ r) : SpellsItems first (v :: items) t r

/-- The text `t` is the members of an object from some place on, its end and then `r`. -/
inductive SpellsMembers : Bool → List (Option String × Form) → List Char → List Char → Prop
  | close {first : Bool} {t r : List Char} (h : Blanks t ('\x7d' :: r)) :
      SpellsMembers first [] t r
  | member {first : Bool} {key : Option String} {v : Form} {members : List (Option String × Form)}
      {t t₁ t₂ t₃ t₄ t₅ r : List Char} (hbefore : Separated first t ('"' :: t₁))
      (hkey : Literal key t₁ t₂) (hcolon : Blanks t₂ (':' :: t₃)) (hblanks : Blanks t₃ t₄)
      (hvalue : v.Spells t₄ t₅) (hmembers : SpellsMembers false members t₅ r) :
      SpellsMembers first ((key, v) :: members) t r

end

/-- A whole text is a spelling of a value, with blanks around it. -/
def Form.IsText (v : Form) (text : String) : Prop :=
  ∃ t r, Blanks text.toList t ∧ v.Spells t r ∧ Blanks r []

/-! ### Blanks are skipped -/

section Blanks

variable {t r : List Char} {c : Char}

theorem Blanks.refl (r : List Char) : Blanks r r := ⟨[], nofun, rfl⟩

theorem skipBlanks_of_blanks (h : Blanks t r) : skipBlanks t = skipBlanks r := by
  obtain ⟨bs, hbs, rfl⟩ := h
  rw [skipBlanks, List.dropWhile_append_of_pos hbs]
  rfl

theorem skipBlanks_of_blanks_cons (h : Blanks t (c :: r)) (hc : isBlank c = false) :
    skipBlanks t = c :: r := by
  rw [skipBlanks_of_blanks h, skipBlanks, List.dropWhile_cons_of_neg (by simp [hc])]

theorem skipBlanks_of_blanks_nil (h : Blanks t []) : skipBlanks t = [] := skipBlanks_of_blanks h

end Blanks

/-! ### How values begin and end -/

/-- What can stand behind a number: nothing that would go on with it. -/
def NumberEnds (r : List Char) : Prop :=
  ∀ c ∈ r.head?, c.isDigit = false ∧ c ≠ '.' ∧ c ≠ 'e' ∧ c ≠ 'E'

theorem numberEnds_nil : NumberEnds [] := nofun

theorem NumberEnds.of_blanks {t r : List Char} (h : Blanks t r) (hr : NumberEnds r) :
    NumberEnds t := by
  obtain ⟨bs, hbs, rfl⟩ := h
  cases bs with
  | nil => exact hr
  | cons b bs =>
    intro c hc
    obtain rfl : b = c := Option.some.inj hc
    have hb : isBlank b = true := hbs b List.mem_cons_self
    simp only [isBlank, Bool.or_eq_true, decide_eq_true_eq] at hb
    rcases hb with ((rfl | rfl) | rfl) | rfl <;> decide

theorem SpellsMembers.numberEnds {members : List (Option String × Form)} {t r : List Char}
    (h : SpellsMembers false members t r) : NumberEnds t := by
  cases h with
  | close h => exact .of_blanks h (by rintro c ⟨⟩; decide)
  | member hbefore =>
    obtain ⟨t', h, -⟩ := hbefore
    exact .of_blanks h (by rintro c ⟨⟩; decide)

/-- The first character of a spelling says which kind of value it is. -/
def Form.OpensWith : Form → Char → Prop
  | null, c => c = 'n'
  | boolean true, c => c = 't'
  | boolean false, c => c = 'f'
  | number _, c => c = '-' ∨ c.isDigit
  | text _, c => c = '"'
  | array _, c => c = '['
  | object _, c => c = '\x7b'

theorem IsWhole.exists_cons {ds : List Char} (h : IsWhole ds) :
    ∃ c cs, ds = c :: cs ∧ IsDigits ds := by
  cases h with
  | zero => exact ⟨'0', [], rfl, nofun, by simp⟩
  | @digits c cs h => exact ⟨c, cs, rfl, h⟩

theorem Form.Spells.exists_cons {v : Form} {t r : List Char} (h : v.Spells t r) :
    ∃ c t', t = c :: t' ∧ v.OpensWith c := by
  cases h with
  | number h =>
    obtain ⟨sign, whole, fraction, exponent, rfl, hsign, hwhole, -, -⟩ := h
    obtain ⟨c, cs, rfl, hdigits⟩ := hwhole.exists_cons
    rcases hsign with rfl | rfl
    · exact ⟨c, _, rfl, .inr (hdigits.2 c List.mem_cons_self)⟩
    · exact ⟨'-', _, rfl, .inl rfl⟩
  | null | yes | no | text | array | object => exact ⟨_, _, rfl, rfl⟩

theorem isDigit_not_isBlank {c : Char} (h : c.isDigit) : isBlank c = false := by
  rw [Bool.eq_false_iff]
  intro hblank
  simp only [isBlank, Bool.or_eq_true, decide_eq_true_eq] at hblank
  rcases hblank with ((rfl | rfl) | rfl) | rfl <;> exact absurd h (by decide)

theorem Form.OpensWith.not_isBlank {v : Form} {c : Char} (h : v.OpensWith c) :
    isBlank c = false := by
  cases v with
  | number literal =>
    rcases h with rfl | h
    · rfl
    · exact isDigit_not_isBlank h
  | boolean b => cases b <;> cases h <;> rfl
  | null | text | array | object => cases h; rfl

/-! The other way round: the kind of value that a first character tells. -/

section Openings

variable {v : Form}

theorem Form.OpensWith.eq_null (h : v.OpensWith 'n') : v = .null := by
  cases v with
  | null => rfl
  | boolean b => cases b <;> cases h
  | number => rcases h with h | h <;> cases h
  | text | array | object => cases h

theorem Form.OpensWith.eq_true (h : v.OpensWith 't') : v = .boolean true := by
  cases v with
  | boolean b =>
    cases b with
    | true => rfl
    | false => cases h
  | number => rcases h with h | h <;> cases h
  | null | text | array | object => cases h

theorem Form.OpensWith.eq_false (h : v.OpensWith 'f') : v = .boolean false := by
  cases v with
  | boolean b =>
    cases b with
    | true => cases h
    | false => rfl
  | number => rcases h with h | h <;> cases h
  | null | text | array | object => cases h

theorem Form.OpensWith.exists_text (h : v.OpensWith '"') : ∃ content, v = .text content := by
  cases v with
  | text content => exact ⟨content, rfl⟩
  | boolean b => cases b <;> cases h
  | number => rcases h with h | h <;> cases h
  | null | array | object => cases h

theorem Form.OpensWith.exists_object (h : v.OpensWith '\x7b') : ∃ members, v = .object members := by
  cases v with
  | object members => exact ⟨members, rfl⟩
  | boolean b => cases b <;> cases h
  | number => rcases h with h | h <;> cases h
  | null | text | array => cases h

theorem Form.OpensWith.exists_number {c : Char} (h : v.OpensWith c) (hc : c = '-' ∨ c.isDigit) :
    ∃ literal, v = .number literal := by
  cases v with
  | number literal => exact ⟨literal, rfl⟩
  | boolean b => cases b <;> cases h <;> rcases hc with hc | hc <;> cases hc
  | null | text | array | object => cases h; rcases hc with hc | hc <;> cases hc

end Openings

/-- Behind blanks, a value begins at its first character. -/
theorem Form.Spells.exists_skipBlanks {v : Form} {t₀ t r : List Char} (hblanks : Blanks t₀ t)
    (h : v.Spells t r) : ∃ c t', t = c :: t' ∧ v.OpensWith c ∧ skipBlanks t₀ = t := by
  obtain ⟨c, t', rfl, hc⟩ := h.exists_cons
  exact ⟨c, t', rfl, hc, skipBlanks_of_blanks_cons hblanks hc.not_isBlank⟩

end CommandLine.Json
