import CommandLine.Proofs.JsonNumbers
/-!
# CommandLine.Proofs.JsonUniqueness

**A JSON text says one thing only.** The grammar of texts is a relation, and texts are written in
many ways; but each text is a spelling of one value (`Form.IsText.unique`). So whoever knows of
some value that a text is a spelling of it knows what the text says.

What comes next is always told by the first character, apart from blanks. Only numbers do not show
where they end; but what stands behind a value in a text cannot go on with a number
(`Form.Spells.unique` asks for `NumberEnds` on both sides).
-/

namespace CommandLine.Json

variable {t r r' : List Char}

/-- Behind blanks a text goes on in one way only. -/
theorem Blanks.unique {c c' : Char} (h : Blanks t (c :: r)) (h' : Blanks t (c' :: r'))
    (hc : isBlank c = false) (hc' : isBlank c' = false) : c = c' ∧ r = r' := by
  have heq := skipBlanks_of_blanks_cons h hc
  rw [skipBlanks_of_blanks_cons h' hc'] at heq
  obtain ⟨rfl, rfl⟩ := List.cons.inj heq
  exact ⟨rfl, rfl⟩

/-! ### Strings -/

theorem Piece.Spells.unique {p p' : Piece} (h : p.Spells t r) (h' : p'.Spells t r') :
    p = p' ∧ r = r' := by
  cases h with
  | plain _ hslash =>
    cases h' with
    | plain => exact ⟨rfl, rfl⟩
    | short | numbered => exact absurd rfl hslash
  | short hc =>
    cases h' with
    | plain _ hslash => exact absurd rfl hslash
    | short hc' =>
      obtain rfl := Option.some.inj (hc.symm.trans hc')
      exact ⟨rfl, rfl⟩
    | numbered => cases hc
  | numbered hn =>
    cases h' with
    | plain _ hslash => exact absurd rfl hslash
    | short hc' => cases hc'
    | numbered hn' =>
      obtain rfl := Option.some.inj (hn.symm.trans hn')
      exact ⟨rfl, rfl⟩

/-- The quote that ends a literal is no part of it. -/
theorem Piece.not_spells_quote {p : Piece} : ¬p.Spells ('"' :: t) r := by
  intro h
  cases h with
  | plain hquote => exact hquote rfl

theorem SpellsPieces.unique {ps ps' : List Piece} (h : SpellsPieces ps t r)
    (h' : SpellsPieces ps' t r') : ps = ps' ∧ r = r' := by
  induction h generalizing ps' with
  | close =>
    cases h' with
    | close => exact ⟨rfl, rfl⟩
    | piece hpiece => exact absurd hpiece Piece.not_spells_quote
  | piece hpiece _ ih =>
    cases h' with
    | close => exact absurd hpiece Piece.not_spells_quote
    | piece hpiece' hpieces' =>
      obtain ⟨rfl, rfl⟩ := hpiece.unique hpiece'
      obtain ⟨rfl, rfl⟩ := ih hpieces'
      exact ⟨rfl, rfl⟩

theorem Literal.unique {content content' : Option String} (h : Literal content t r)
    (h' : Literal content' t r') : content = content' ∧ r = r' := by
  obtain ⟨ps, hps, rfl⟩ := h
  obtain ⟨ps', hps', rfl⟩ := h'
  obtain ⟨rfl, rfl⟩ := hps.unique hps'
  exact ⟨rfl, rfl⟩

/-! ### Numbers -/

/-- Behind a part of a number neither a digit nor a point follows. -/
def PartEnds (r : List Char) : Prop := startsWithDigit r = false ∧ r.head? ≠ some '.'

/-- Digits show where they begin. -/
theorem startsWithDigit_append {ds : List Char} (h : IsDigits ds) (r : List Char) :
    startsWithDigit (ds ++ r) = true := by
  obtain ⟨hne, hdigits⟩ := h
  cases ds with
  | nil => exact absurd rfl hne
  | cons c ds => exact hdigits c List.mem_cons_self

theorem IsDigits.unique {ds ds' : List Char} (h : IsDigits ds) (h' : IsDigits ds')
    (hr : startsWithDigit r = false) (hr' : startsWithDigit r' = false)
    (heq : ds ++ r = ds' ++ r') : ds = ds' ∧ r = r' :=
  eq_of_digits_append heq h.2 h'.2 hr hr'

/-- A sign before digits is there or not; no digit is a sign. -/
theorem sign_unique {sign sign' : List Char}
    (hsign : sign = [] ∨ ∃ c, sign = [c] ∧ c.isDigit = false)
    (hsign' : sign' = [] ∨ ∃ c, sign' = [c] ∧ c.isDigit = false)
    (hr : startsWithDigit r = true) (hr' : startsWithDigit r' = true)
    (heq : sign ++ r = sign' ++ r') : sign = sign' ∧ r = r' := by
  rcases hsign with rfl | ⟨c, rfl, hc⟩ <;> rcases hsign' with rfl | ⟨c', rfl, hc'⟩
  · exact ⟨rfl, heq⟩
  · obtain rfl : r = c' :: r' := heq
    exact absurd (hr.symm.trans hc') Bool.noConfusion
  · obtain rfl : c :: r = r' := heq
    exact absurd (hr'.symm.trans hc) Bool.noConfusion
  · obtain ⟨rfl, rfl⟩ := List.cons.inj heq
    exact ⟨rfl, rfl⟩

theorem IsExponent.partEnds {exponent : List Char} (h : IsExponent exponent)
    (hr : NumberEnds r) : PartEnds (exponent ++ r) := by
  cases h with
  | none =>
    obtain ⟨hdigit, hother⟩ := numberEnds_iff.1 hr
    exact ⟨hdigit, fun hpoint => (hother '.' hpoint).1 rfl⟩
  | digits hmark => rcases hmark with rfl | rfl <;> exact ⟨rfl, by simp⟩

theorem IsFraction.startsWithDigit_eq {fraction : List Char} (h : IsFraction fraction)
    (hr : PartEnds r) : startsWithDigit (fraction ++ r) = false := by
  cases h with
  | none => exact hr.1
  | digits => rfl

/-- An exponent is there just when its mark is. -/
theorem not_numberEnds_mark {mark : Char} (hmark : mark = 'e' ∨ mark = 'E') :
    ¬NumberEnds (mark :: r) := by
  intro h
  obtain ⟨-, -, hsmall, hcapital⟩ := h mark rfl
  exact hmark.elim hsmall hcapital

theorem IsExponent.unique {exponent exponent' : List Char} (h : IsExponent exponent)
    (h' : IsExponent exponent') (hr : NumberEnds r) (hr' : NumberEnds r')
    (heq : exponent ++ r = exponent' ++ r') : exponent = exponent' ∧ r = r' := by
  have hnot {sign : List Char} (hsign : sign = [] ∨ sign = ['+'] ∨ sign = ['-']) :
      sign = [] ∨ ∃ c, sign = [c] ∧ c.isDigit = false := by
    rcases hsign with rfl | rfl | rfl
    · exact .inl rfl
    · exact .inr ⟨'+', rfl, rfl⟩
    · exact .inr ⟨'-', rfl, rfl⟩
  cases h with
  | none =>
    cases h' with
    | none => exact ⟨rfl, heq⟩
    | digits hmark' =>
      obtain rfl : r = _ := heq
      exact absurd hr (not_numberEnds_mark hmark')
  | digits hmark hsign hdigits =>
    cases h' with
    | none =>
      obtain rfl : _ = r' := heq
      exact absurd hr' (not_numberEnds_mark hmark)
    | digits hmark' hsign' hdigits' =>
      simp only [List.cons_append, List.append_assoc, List.cons.injEq] at heq
      obtain ⟨rfl, hbehind⟩ := heq
      obtain ⟨rfl, hunsigned⟩ := sign_unique (hnot hsign) (hnot hsign')
        (startsWithDigit_append hdigits r) (startsWithDigit_append hdigits' r') hbehind
      obtain ⟨rfl, rfl⟩ :=
        hdigits.unique hdigits' (numberEnds_iff.1 hr).1 (numberEnds_iff.1 hr').1 hunsigned
      exact ⟨rfl, rfl⟩

theorem IsFraction.unique {fraction fraction' : List Char} (h : IsFraction fraction)
    (h' : IsFraction fraction') (hr : PartEnds r) (hr' : PartEnds r')
    (heq : fraction ++ r = fraction' ++ r') : fraction = fraction' ∧ r = r' := by
  cases h with
  | none =>
    cases h' with
    | none => exact ⟨rfl, heq⟩
    | digits =>
      obtain rfl : r = _ := heq
      exact absurd rfl hr.2
  | digits hdigits =>
    cases h' with
    | none =>
      obtain rfl : _ = r' := heq
      exact absurd rfl hr'.2
    | digits hdigits' =>
      obtain ⟨-, heq⟩ := List.cons.inj heq
      obtain ⟨rfl, rfl⟩ := hdigits.unique hdigits' hr.1 hr'.1 heq
      exact ⟨rfl, rfl⟩

/-- **A number is told from what stands behind it**, as long as that does not go on with it. -/
theorem IsNumber.unique {literal literal' : List Char} (h : IsNumber literal)
    (h' : IsNumber literal') (hr : NumberEnds r) (hr' : NumberEnds r')
    (heq : literal ++ r = literal' ++ r') : literal = literal' ∧ r = r' := by
  obtain ⟨sign, whole, fraction, exponent, rfl, hsign, hwhole, hfraction, hexponent⟩ := h
  obtain ⟨sign', whole', fraction', exponent', rfl, hsign', hwhole', hfraction', hexponent'⟩ := h'
  obtain ⟨-, -, -, hdigits⟩ := hwhole.exists_cons
  obtain ⟨-, -, -, hdigits'⟩ := hwhole'.exists_cons
  have hminus {sign : List Char} (hsign : sign = [] ∨ sign = ['-']) :
      sign = [] ∨ ∃ c, sign = [c] ∧ c.isDigit = false :=
    hsign.imp_right fun hsign => ⟨'-', hsign, rfl⟩
  simp only [List.append_assoc] at heq
  -- part by part, each one told from the rest by how the rest begins
  have hends := hexponent.partEnds hr
  have hends' := hexponent'.partEnds hr'
  obtain ⟨rfl, hunsigned⟩ := sign_unique (hminus hsign) (hminus hsign')
    (startsWithDigit_append hdigits _) (startsWithDigit_append hdigits' _) heq
  obtain ⟨rfl, hbehind⟩ := hdigits.unique hdigits' (hfraction.startsWithDigit_eq hends)
    (hfraction'.startsWithDigit_eq hends') hunsigned
  obtain ⟨rfl, hscale⟩ := hfraction.unique hfraction' hends hends' hbehind
  obtain ⟨rfl, rfl⟩ := hexponent.unique hexponent' hr hr' hscale
  exact ⟨rfl, rfl⟩

/-! ### Values -/

theorem Form.OpensWith.exists_array {v : Form} (h : v.OpensWith '[') :
    ∃ items, v = .array items := by
  cases v with
  | array items => exact ⟨items, rfl⟩
  | boolean b => cases b <;> cases h
  | number => rcases h with h | h <;> cases h
  | null | text | object => cases h

/-- No value begins with the end of an array. -/
theorem Form.not_opensWith_close {v : Form} : ¬v.OpensWith ']' := by
  intro h
  cases v with
  | boolean b => cases b <;> cases h
  | number => rcases h with h | h <;> cases h
  | null | text | array | object => cases h

theorem SpellsItems.numberEnds {items : List Form} (h : SpellsItems false items t r) :
    NumberEnds t := by
  cases h with
  | close h => exact .of_blanks h (by rintro c ⟨⟩; decide)
  | item hbefore =>
    obtain ⟨t', h, -⟩ := hbefore
    exact .of_blanks h (by rintro c ⟨⟩; decide)

/-- What stands before an item or a member ends in one way only. -/
theorem Separated.unique {first : Bool} {c c' : Char} (h : Separated first t (c :: r))
    (h' : Separated first t (c' :: r')) (hc : isBlank c = false) (hc' : isBlank c' = false) :
    c = c' ∧ r = r' := by
  cases first with
  | true => exact Blanks.unique h h' hc hc'
  | false =>
    obtain ⟨t₁, hcomma, h⟩ := h
    obtain ⟨t₂, hcomma', h'⟩ := h'
    obtain ⟨-, rfl⟩ := hcomma.unique hcomma' rfl rfl
    exact h.unique h' hc hc'

/-- An end is not the beginning of one more part. -/
theorem Separated.eq_of_close {first : Bool} {c close : Char} (h : Separated first t (c :: r))
    (h' : Blanks t (close :: r')) (hc : isBlank c = false) (hclose : isBlank close = false)
    (hcomma : close ≠ ',') : c = close := by
  cases first with
  | true => exact (Blanks.unique h h' hc hclose).1
  | false =>
    obtain ⟨_, h, -⟩ := h
    exact absurd (h'.unique h hclose rfl).1 hcomma

theorem Form.Spells.of_number {literal : List Char} (h : (Form.number literal).Spells t r) :
    IsNumber literal ∧ t = literal ++ r := by
  cases h with
  | number hnumber => exact ⟨hnumber, rfl⟩

mutual

/-- **A spelling is one of a single value.** -/
theorem Form.Spells.unique {v v' : Form} {t r r' : List Char} (h : v.Spells t r)
    (h' : v'.Spells t r') (hr : NumberEnds r) (hr' : NumberEnds r') : v = v' ∧ r = r' := by
  obtain ⟨c, s, ht, hc'⟩ := h'.exists_cons
  have hc : v.OpensWith c := by
    obtain ⟨_, _, hcons, hc⟩ := h.exists_cons
    obtain ⟨rfl, -⟩ := List.cons.inj (hcons.symm.trans ht)
    exact hc
  match h with
  | .null =>
    cases ht
    obtain rfl := hc'.eq_null
    cases h'
    exact ⟨rfl, rfl⟩
  | .yes =>
    cases ht
    obtain rfl := hc'.eq_true
    cases h'
    exact ⟨rfl, rfl⟩
  | .no =>
    cases ht
    obtain rfl := hc'.eq_false
    cases h'
    exact ⟨rfl, rfl⟩
  | .number hnumber =>
    obtain ⟨literal', rfl⟩ := hc'.exists_number hc
    obtain ⟨hnumber', heq⟩ := h'.of_number
    obtain ⟨rfl, rfl⟩ := hnumber.unique hnumber' hr hr' heq
    exact ⟨rfl, rfl⟩
  | .text hliteral =>
    cases ht
    obtain ⟨content, rfl⟩ := hc'.exists_text
    cases h' with
    | text hliteral' =>
      obtain ⟨rfl, rfl⟩ := hliteral.unique hliteral'
      exact ⟨rfl, rfl⟩
  | .array hitems =>
    cases ht
    obtain ⟨items, rfl⟩ := hc'.exists_array
    cases h' with
    | array hitems' =>
      obtain ⟨rfl, rfl⟩ := SpellsItems.unique hitems hitems'
      exact ⟨rfl, rfl⟩
  | .object hmembers =>
    cases ht
    obtain ⟨members, rfl⟩ := hc'.exists_object
    cases h' with
    | object hmembers' =>
      obtain ⟨rfl, rfl⟩ := SpellsMembers.unique hmembers hmembers'
      exact ⟨rfl, rfl⟩

theorem SpellsItems.unique {first : Bool} {items items' : List Form} {t r r' : List Char}
    (h : SpellsItems first items t r) (h' : SpellsItems first items' t r') :
    items = items' ∧ r = r' := by
  match h with
  | .close hclose =>
    cases h' with
    | close hclose' => exact ⟨rfl, (hclose.unique hclose' rfl rfl).2⟩
    | item hbefore' hitem' _ =>
      obtain ⟨c, s, rfl, hc⟩ := hitem'.exists_cons
      obtain rfl := hbefore'.eq_of_close hclose hc.not_isBlank rfl (by decide)
      exact absurd hc Form.not_opensWith_close
  | .item hbefore hitem hitems =>
    obtain ⟨c, s, rfl, hc⟩ := hitem.exists_cons
    cases h' with
    | close hclose' =>
      obtain rfl := hbefore.eq_of_close hclose' hc.not_isBlank rfl (by decide)
      exact absurd hc Form.not_opensWith_close
    | item hbefore' hitem' hitems' =>
      obtain ⟨c', s', rfl, hc'⟩ := hitem'.exists_cons
      obtain ⟨rfl, rfl⟩ := hbefore.unique hbefore' hc.not_isBlank hc'.not_isBlank
      obtain ⟨rfl, rfl⟩ := Form.Spells.unique hitem hitem' hitems.numberEnds hitems'.numberEnds
      obtain ⟨rfl, rfl⟩ := SpellsItems.unique hitems hitems'
      exact ⟨rfl, rfl⟩

theorem SpellsMembers.unique {first : Bool} {members members' : List (Option String × Form)}
    {t r r' : List Char} (h : SpellsMembers first members t r)
    (h' : SpellsMembers first members' t r') : members = members' ∧ r = r' := by
  match h with
  | .close hclose =>
    cases h' with
    | close hclose' => exact ⟨rfl, (hclose.unique hclose' rfl rfl).2⟩
    | member hbefore' => cases hbefore'.eq_of_close hclose rfl rfl (by decide)
  | .member hbefore hkey hcolon hblanks hvalue hmembers =>
    cases h' with
    | close hclose' => cases hbefore.eq_of_close hclose' rfl rfl (by decide)
    | member hbefore' hkey' hcolon' hblanks' hvalue' hmembers' =>
      obtain ⟨-, rfl⟩ := hbefore.unique hbefore' rfl rfl
      obtain ⟨rfl, rfl⟩ := hkey.unique hkey'
      obtain ⟨-, rfl⟩ := hcolon.unique hcolon' rfl rfl
      obtain ⟨c, s, rfl, hc⟩ := hvalue.exists_cons
      obtain ⟨c', s', rfl, hc'⟩ := hvalue'.exists_cons
      obtain ⟨rfl, rfl⟩ := hblanks.unique hblanks' hc.not_isBlank hc'.not_isBlank
      obtain ⟨rfl, rfl⟩ :=
        Form.Spells.unique hvalue hvalue' hmembers.numberEnds hmembers'.numberEnds
      obtain ⟨rfl, rfl⟩ := SpellsMembers.unique hmembers hmembers'
      exact ⟨rfl, rfl⟩

end

/-- **A JSON text says one thing only.** -/
theorem Form.IsText.unique {v v' : Form} {text : String} (h : v.IsText text)
    (h' : v'.IsText text) : v = v' := by
  obtain ⟨t, r, hbefore, hspells, hbehind⟩ := h
  obtain ⟨t', r', hbefore', hspells', hbehind'⟩ := h'
  obtain ⟨c, s, rfl, hc⟩ := hspells.exists_cons
  obtain ⟨c', s', rfl, hc'⟩ := hspells'.exists_cons
  obtain ⟨rfl, rfl⟩ := hbefore.unique hbefore' hc.not_isBlank hc'.not_isBlank
  exact (hspells.unique hspells' (.of_blanks hbehind numberEnds_nil)
    (.of_blanks hbehind' numberEnds_nil)).1

end CommandLine.Json
