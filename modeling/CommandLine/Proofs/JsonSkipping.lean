import CommandLine.Json.Skip
import CommandLine.Proofs.JsonReading
import CommandLine.Proofs.JsonUniqueness
/-!
# CommandLine.Proofs.JsonSkipping

**What nobody asked for is skipped just as far as it goes.** A value that is skipped is never
read: `skipNested` only looks for the ends of strings, numbers and brackets. Still it takes off a
text what a spelling of any value takes, be the value ever so large or ever so deep.

The brackets that are open stand in a list, not in the recursion of the function. So the lemma for
values is about any such list: from a value that is awaited, skipping comes to the place behind it,
with the same brackets open. The lemmas for items and members come to the place behind the bracket
that closes them.
-/

namespace CommandLine.Json

variable {t₀ t r ds : List Char} {opened : List Bracket}

/-! ### Strings -/

theorem skipEscape_of_shortEscape {letter c : Char} (h : shortEscape? letter = some c) :
    skipEscape (letter :: r) = .ok r := by
  rw [skipEscape, h]
  rfl

theorem skipEscape_of_hexValue {a b c d : Char} {n : Nat} (h : hexValue4? a b c d = some n) :
    skipEscape ('u' :: a :: b :: c :: d :: r) = .ok r := by
  rw [skipEscape, if_neg (by decide), if_pos rfl, readHex4_digits h]
  rfl

theorem skipString_backslash (h : skipEscape t = .ok r) :
    skipString ('\\' :: t) = skipString r := by
  rw [skipString]
  split
  · next heq => rw [h] at heq; cases heq
  · next heq => rw [h] at heq; cases heq; rfl

theorem skipString_of_spellsPieces {ps : List Piece} (h : SpellsPieces ps t r) :
    skipString t = .ok r := by
  induction h with
  | close => rw [skipString]
  | piece hpiece _ ih =>
    cases hpiece with
    | plain hquote hslash hcontrol =>
      rw [skipString, if_neg (Nat.not_lt.2 hcontrol)]
      · exact ih
      · exact hquote
      · exact hslash
    | short h => rw [skipString_backslash (skipEscape_of_shortEscape h), ih]
    | numbered h => rw [skipString_backslash (skipEscape_of_hexValue h), ih]

/-! ### Numbers -/

theorem skipDigits_append (hds : ∀ c ∈ ds, c.isDigit) (hr : startsWithDigit r = false) :
    skipDigits (ds ++ r) = r := by
  rw [skipDigits, List.dropWhile_append_of_pos hds]
  cases r with
  | nil => rfl
  | cons c r => exact List.dropWhile_cons_of_neg (Bool.eq_false_iff.1 hr)

theorem readSign_append {sign s : List Char} (hsign : sign = [] ∨ sign = ['+'] ∨ sign = ['-'])
    (hs : startsWithDigit s = true) : (readSign (sign ++ s)).2 = s := by
  rcases hsign with rfl | rfl | rfl
  · rw [List.nil_append]
    unfold readSign
    split
    · cases hs
    · cases hs
    · rfl
  · rfl
  · rfl

theorem skipScale_append {exponent : List Char} (h : IsExponent exponent) (hr : NumberEnds r) :
    skipScale (exponent ++ r) = .ok r := by
  have hstop := (numberEnds_iff.1 hr).1
  cases h with
  | none =>
    rw [List.nil_append]
    unfold skipScale
    split
    · exact absurd hr (not_numberEnds_mark (.inl rfl))
    · exact absurd hr (not_numberEnds_mark (.inr rfl))
    · rfl
  | @digits mark sign ds hmark hsign hds =>
    have hstarts : startsWithDigit (ds ++ r) = true := startsWithDigit_append hds r
    have hsigned := readSign_append hsign hstarts
    have hexponent : skipExponent (sign ++ (ds ++ r)) = .ok r := by
      simp only [skipExponent, hsigned, hstarts, if_true, skipDigits_append hds.2 hstop]
    rw [List.cons_append, List.append_assoc]
    rcases hmark with rfl | rfl
    · exact hexponent
    · exact hexponent

theorem skipTail_append {fraction exponent : List Char} (hfraction : IsFraction fraction)
    (hexponent : IsExponent exponent) (hr : NumberEnds r) :
    skipTail (fraction ++ (exponent ++ r)) = .ok r := by
  have hends := hexponent.partEnds hr
  cases hfraction with
  | none =>
    rw [List.nil_append]
    unfold skipTail
    split
    · next heq =>
      rw [heq] at hends
      exact absurd rfl hends.2
    · exact skipScale_append hexponent hr
  | digits hds =>
    have hstarts := startsWithDigit_append hds (exponent ++ r)
    rw [List.cons_append, skipTail, if_pos hstarts, skipDigits_append hds.2 hends.1]
    exact skipScale_append hexponent hr

theorem skipUnsigned_append {whole fraction exponent : List Char} (hwhole : IsWhole whole)
    (hfraction : IsFraction fraction) (hexponent : IsExponent exponent) (hr : NumberEnds r) :
    skipUnsigned (whole ++ (fraction ++ (exponent ++ r))) = .ok r := by
  have hstop := hfraction.startsWithDigit_eq (hexponent.partEnds hr)
  have htail := skipTail_append hfraction hexponent hr
  cases hwhole with
  | zero =>
    rw [List.cons_append, List.nil_append, skipUnsigned, hstop, if_neg Bool.false_ne_true, htail]
  | @digits c ds hds hzero =>
    have hstarts := startsWithDigit_append hds (fraction ++ (exponent ++ r))
    unfold skipUnsigned
    split
    · next heq => exact absurd (List.cons.inj heq).1 hzero
    · rw [if_pos hstarts, skipDigits_append hds.2 hstop, htail]

theorem skipScalar_number {literal : List Char} {c : Char} (h : IsNumber literal)
    (hr : NumberEnds r) (heq : literal ++ r = c :: t) : skipScalar c t = .ok r := by
  obtain ⟨sign, whole, fraction, exponent, rfl, hsign, hwhole, hfraction, hexponent⟩ := h
  have hunsigned := skipUnsigned_append hwhole hfraction hexponent hr
  simp only [List.append_assoc] at heq
  rcases hsign with rfl | rfl
  · obtain ⟨d, ds, rfl, hdigits⟩ := hwhole.exists_cons
    have hdigit : d.isDigit := hdigits.2 d List.mem_cons_self
    obtain ⟨rfl, rfl⟩ := List.cons.inj heq
    unfold skipScalar
    split
    iterate 5 cases hdigit
    rw [if_pos hdigit]
    exact hunsigned
  · obtain ⟨rfl, rfl⟩ := List.cons.inj heq
    exact hunsigned

/-! ### One step -/

section Steps

variable {b : Bracket} {c : Char}

theorem skipNested_scalar (hs : skipBlanks t₀ = c :: t) (hc : opening? c = none)
    (h : skipScalar c t = .ok r) : skipNested true opened t₀ = skipNested false opened r := by
  rw [skipNested]
  split
  · next heq => rw [hs] at heq; cases heq
  · next heq =>
    rw [hs] at heq
    cases heq
    split
    · next heq => rw [hc] at heq; cases heq
    · split
      · next heq => rw [h] at heq; cases heq
      · next heq => rw [h] at heq; cases heq; rfl

theorem skipNested_empty (hs : skipBlanks t₀ = c :: t) (hc : opening? c = some b)
    (hclose : skipBlanks t = b.closing :: r) :
    skipNested true opened t₀ = skipNested false opened r := by
  rw [skipNested]
  split
  · next heq => rw [hs] at heq; cases heq
  · next heq =>
    rw [hs] at heq
    cases heq
    split
    · next heq =>
      rw [hc] at heq
      cases heq
      split
      · next heq => rw [hclose] at heq; cases heq
      · next heq =>
        rw [hclose] at heq
        cases heq
        rw [if_pos rfl]
    · next heq => rw [hc] at heq; cases heq

theorem skipNested_open {d : Char} {t' : List Char} (hs : skipBlanks t₀ = c :: t)
    (hc : opening? c = some b) (hnext : skipBlanks t = d :: t') (hd : d ≠ b.closing)
    (hlabel : skipLabel b t = .ok r) :
    skipNested true opened t₀ = skipNested true (b :: opened) r := by
  rw [skipNested]
  split
  · next heq => rw [hs] at heq; cases heq
  · next heq =>
    rw [hs] at heq
    cases heq
    split
    · next heq =>
      rw [hc] at heq
      cases heq
      split
      · next heq => rw [hnext] at heq; cases heq
      · next heq =>
        rw [hnext] at heq
        cases heq
        rw [if_neg hd]
        split
        · next heq => rw [hlabel] at heq; cases heq
        · next heq => rw [hlabel] at heq; cases heq; rfl
    · next heq => rw [hc] at heq; cases heq

theorem skipNested_comma (hs : skipBlanks t₀ = ',' :: t) (hlabel : skipLabel b t = .ok r) :
    skipNested false (b :: opened) t₀ = skipNested true (b :: opened) r := by
  rw [skipNested]
  split
  · next heq => rw [hs] at heq; cases heq
  · next heq =>
    rw [hs] at heq
    cases heq
    rw [if_pos rfl]
    split
    · next heq => rw [hlabel] at heq; cases heq
    · next heq => rw [hlabel] at heq; cases heq; rfl

theorem skipNested_close (hs : skipBlanks t₀ = b.closing :: t) :
    skipNested false (b :: opened) t₀ = skipNested false opened t := by
  rw [skipNested]
  split
  · next heq => rw [hs] at heq; cases heq
  · next heq =>
    rw [hs] at heq
    cases heq
    rw [if_neg (by cases b <;> decide), if_pos rfl]

theorem skipKey_of_literal {key : Option String} {t₁ t₂ t₃ : List Char}
    (hbefore : Blanks t ('"' :: t₁)) (hkey : Literal key t₁ t₂) (hcolon : Blanks t₂ (':' :: t₃)) :
    skipLabel .curly t = .ok t₃ := by
  obtain ⟨ps, hps, -⟩ := hkey
  have hrun : Reader.colon.run t₂ = .ok ((), t₃) := by
    simp only [Reader.colon, Reader.afterBlanks, skipBlanks_of_blanks_cons hcolon (by decide)]
  simp only [skipLabel, skipKey, skipBlanks_of_blanks_cons hbefore (by decide),
    skipString_of_spellsPieces hps, hrun]
  rfl

end Steps

/-! ### All steps -/

mutual

/-- **A value that is awaited is skipped**, and the open brackets stay what they are. -/
theorem skipNested_of_spells {v : Form} {t₀ t r : List Char} (h : v.Spells t r)
    (hblanks : Blanks t₀ t) (hr : NumberEnds r) (opened : List Bracket) :
    skipNested true opened t₀ = skipNested false opened r := by
  obtain ⟨c, s, ht, hc⟩ := h.exists_cons
  have hs : skipBlanks t₀ = c :: s := skipBlanks_of_blanks_cons (ht ▸ hblanks) hc.not_isBlank
  match h with
  | .null =>
    cases ht
    exact skipNested_scalar hs rfl rfl
  | .yes =>
    cases ht
    exact skipNested_scalar hs rfl rfl
  | .no =>
    cases ht
    exact skipNested_scalar hs rfl rfl
  | .number hnumber =>
    have hopening : opening? c = none := by
      unfold opening?
      split
      · rcases hc with hc | hc <;> cases hc
      · rcases hc with hc | hc <;> cases hc
      · rfl
    exact skipNested_scalar hs hopening (skipScalar_number hnumber hr ht)
  | .text hliteral =>
    cases ht
    obtain ⟨ps, hps, -⟩ := hliteral
    exact skipNested_scalar hs rfl (skipString_of_spellsPieces hps)
  | .array (.close hclose) =>
    cases ht
    exact skipNested_empty hs rfl (skipBlanks_of_blanks_cons hclose (by decide))
  | .array (.item hbefore hitem hitems) =>
    cases ht
    obtain ⟨d, s', ht₁, hd⟩ := hitem.exists_cons
    have hnext : skipBlanks s = d :: s' :=
      skipBlanks_of_blanks_cons (ht₁ ▸ hbefore) hd.not_isBlank
    have hnotClose : d ≠ Bracket.square.closing := by
      rintro rfl
      exact Form.not_opensWith_close hd
    rw [skipNested_open hs rfl hnext hnotClose rfl,
      skipNested_of_spells hitem hbefore hitems.numberEnds]
    exact skipNested_of_items hitems opened
  | .object (.close hclose) =>
    cases ht
    exact skipNested_empty hs rfl (skipBlanks_of_blanks_cons hclose (by decide))
  | .object (.member hbefore hkey hcolon hblanks' hvalue hmembers) =>
    cases ht
    have hnext := skipBlanks_of_blanks_cons hbefore (by decide)
    rw [skipNested_open hs rfl hnext (by decide) (skipKey_of_literal hbefore hkey hcolon),
      skipNested_of_spells hvalue hblanks' hmembers.numberEnds]
    exact skipNested_of_members hmembers opened

theorem skipNested_of_items {items : List Form} {t r : List Char}
    (h : SpellsItems false items t r) (opened : List Bracket) :
    skipNested false (.square :: opened) t = skipNested false opened r := by
  match h with
  | .close hclose => exact skipNested_close (skipBlanks_of_blanks_cons hclose (by decide))
  | .item hbefore hitem hitems =>
    obtain ⟨t', hcomma, hblanks⟩ := hbefore
    rw [skipNested_comma (skipBlanks_of_blanks_cons hcomma (by decide)) rfl,
      skipNested_of_spells hitem hblanks hitems.numberEnds]
    exact skipNested_of_items hitems opened

theorem skipNested_of_members {members : List (Option String × Form)} {t r : List Char}
    (h : SpellsMembers false members t r) (opened : List Bracket) :
    skipNested false (.curly :: opened) t = skipNested false opened r := by
  match h with
  | .close hclose => exact skipNested_close (skipBlanks_of_blanks_cons hclose (by decide))
  | .member hbefore hkey hcolon hblanks hvalue hmembers =>
    obtain ⟨t', hcomma, hquote⟩ := hbefore
    rw [skipNested_comma (skipBlanks_of_blanks_cons hcomma (by decide))
        (skipKey_of_literal hquote hkey hcolon),
      skipNested_of_spells hvalue hblanks hmembers.numberEnds]
    exact skipNested_of_members hmembers opened

end

/-- **Any value is skipped**, and nothing behind it. -/
theorem Reader.gives_skip (v : Form) : skip.Gives v (some ()) := by
  intro t₀ t r hblanks hspells hr
  change (skipNested true [] t₀).map _ = .ok ((), r)
  rw [skipNested_of_spells hspells hblanks hr, skipNested]
  rfl

end CommandLine.Json
