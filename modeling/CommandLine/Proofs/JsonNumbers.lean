import CommandLine.Json.Reader
import CommandLine.Proofs.JsonGrammar
/-!
# CommandLine.Proofs.JsonNumbers

**Which numbers are read as natural numbers.** Numbers with a sign, a fraction or an exponent
and those beyond 64 bits become doubles, whatever their value. So a number literal gives a natural
number just when it consists of digits only and its value has room (`readNatural_eq_ok_iff`).

That a reader gave a natural number says how the text begins (`of_readNumber_eq_natural`), and a
run of digits can be cut off a text in one way only (`eq_of_digits_append`). The rest of the
argument is about these digits.
-/

namespace CommandLine.Json

variable {minus : Bool} {significand dropped limit m n : Nat} {exponent : Int} {c : Char}
  {s r ds : List Char} {x : Number}

/-! ### Runs of digits -/

theorem numberEnds_iff :
    NumberEnds r ↔ startsWithDigit r = false ∧ ∀ c ∈ r.head?, c ≠ '.' ∧ c ≠ 'e' ∧ c ≠ 'E' := by
  cases r with
  | nil => simp [NumberEnds, startsWithDigit]
  | cons c r => simp [NumberEnds, startsWithDigit]

/-- A text has one longest run of digits at its front. -/
theorem eq_of_digits_append {ds' r' : List Char} (h : ds ++ r = ds' ++ r')
    (hds : ∀ c ∈ ds, c.isDigit) (hds' : ∀ c ∈ ds', c.isDigit) (hr : startsWithDigit r = false)
    (hr' : startsWithDigit r' = false) : ds = ds' ∧ r = r' := by
  have htake {es t : List Char} (hes : ∀ c ∈ es, c.isDigit) (ht : startsWithDigit t = false) :
      (es ++ t).takeWhile Char.isDigit = es := by
    rw [List.takeWhile_append_of_pos hes]
    cases t with
    | nil => simp
    | cons c t => rw [List.takeWhile_cons_of_neg (by simpa [startsWithDigit] using ht)]; simp
  have hds : ds = ds' := by rw [← htake hds hr, h, htake hds' hr']
  subst hds
  exact ⟨rfl, List.append_cancel_left h⟩

theorem startsWithDigit_skipDigits (s : List Char) : startsWithDigit (skipDigits s) = false := by
  unfold skipDigits
  cases h : s.dropWhile Char.isDigit with
  | nil => rfl
  | cons c r =>
    have hne : s.dropWhile Char.isDigit ≠ [] := by simp [h]
    simpa [h, startsWithDigit] using List.head_dropWhile_not Char.isDigit hne

theorem le_ofDigitChars (ds : List Char) (n : Nat) : n ≤ Nat.ofDigitChars 10 ds n := by
  induction ds generalizing n with
  | nil => exact Nat.le_refl _
  | cons c ds ih =>
    rw [Nat.ofDigitChars_cons]
    have := ih (10 * n + (c.toNat - '0'.toNat))
    omega

/-- Digits that have room are all taken. -/
theorem takeDigits_append (hds : ∀ c ∈ ds, c.isDigit) (hr : startsWithDigit r = false)
    (hroom : Nat.ofDigitChars 10 ds n ≤ limit) :
    takeDigits limit n (ds ++ r) = (Nat.ofDigitChars 10 ds n, r) := by
  induction ds generalizing n with
  | nil =>
    cases r with
    | nil => rfl
    | cons c r =>
      have hc : ¬(c.isDigit ∧ 10 * n + (c.toNat - '0'.toNat) ≤ limit) := by
        intro h
        rw [startsWithDigit, h.1] at hr
        cases hr
      rw [List.nil_append, takeDigits, if_neg hc]
      rfl
  | cons c ds ih =>
    rw [Nat.ofDigitChars_cons] at hroom ⊢
    have hle := le_ofDigitChars ds (10 * n + (c.toNat - '0'.toNat))
    rw [List.cons_append, takeDigits, if_pos ⟨hds c List.mem_cons_self, by omega⟩]
    exact ih (fun d hd => hds d (List.mem_cons_of_mem _ hd)) hroom

/-- What is taken are digits, and they have room. -/
theorem of_takeDigits (h : takeDigits limit n s = (m, r)) (hn : n ≤ limit) :
    ∃ ds, s = ds ++ r ∧ (∀ c ∈ ds, c.isDigit) ∧ Nat.ofDigitChars 10 ds n = m ∧ m ≤ limit := by
  induction s generalizing n with
  | nil =>
    cases h
    exact ⟨[], rfl, nofun, rfl, hn⟩
  | cons c s ih =>
    rw [takeDigits] at h
    split at h
    · next hc =>
      obtain ⟨ds, rfl, hds, hvalue, hm⟩ := ih h hc.2
      refine ⟨c :: ds, rfl, ?_, by rw [Nat.ofDigitChars_cons, hvalue], hm⟩
      intro d hd
      rcases List.mem_cons.1 hd with rfl | hd
      · exact hc.1
      · exact hds d hd
    · cases h
      exact ⟨[], rfl, nofun, rfl, hn⟩

/-! ### Doubles are no natural numbers -/

/-- A number that was read as a natural number. -/
def Number.IsNatural : Number → Prop
  | natural _ => True
  | _ => False

theorem not_isNatural_of_scale (h : scale minus significand exponent s = .ok (x, r)) :
    ¬x.IsNatural := by
  unfold scale at h
  split at h <;> cases h
  exact id

theorem not_isNatural_of_readExponent
    (h : readExponent minus significand exponent s = .ok (x, r)) : ¬x.IsNatural := by
  simp only [readExponent] at h
  split at h
  · cases h
  · split at h
    · cases h
    · split at h
      · split at h <;> cases h
        exact id
      · exact not_isNatural_of_scale h

theorem not_isNatural_of_readScale (h : readScale minus significand exponent s = .ok (x, r)) :
    ¬x.IsNatural := by
  unfold readScale at h
  split at h
  · exact not_isNatural_of_readExponent h
  · exact not_isNatural_of_readExponent h
  · exact not_isNatural_of_scale h

theorem not_isNatural_of_readFraction
    (h : readFraction minus significand exponent s = .ok (x, r)) : ¬x.IsNatural := by
  simp only [readFraction] at h
  split at h
  · cases h
  · split at h
    · cases h
    · exact not_isNatural_of_readScale h

/-! ### Natural numbers -/

theorem integer_eq_natural (h : integer minus significand = .natural n) :
    minus = false ∧ significand = n := by
  unfold integer at h
  split at h
  · next hminus =>
    cases h
    exact ⟨by simpa using hminus, rfl⟩
  · split at h <;> cases h

/-- Behind the integer part of a natural number nothing goes on with it. -/
theorem of_readTail_eq_natural (h : readTail minus significand dropped s = .ok (.natural n, r)) :
    minus = false ∧ dropped = 0 ∧ significand = n ∧ r = s
      ∧ ∀ c ∈ s.head?, c ≠ '.' ∧ c ≠ 'e' ∧ c ≠ 'E' := by
  unfold readTail at h
  split at h
  · exact absurd trivial (not_isNatural_of_readFraction h)
  · exact absurd trivial (not_isNatural_of_readScale h)
  · exact absurd trivial (not_isNatural_of_readScale h)
  · next hpoint hsmall hcapital =>
    split at h
    · next hdropped =>
      obtain ⟨hinteger, rfl⟩ := Prod.mk.inj (Except.ok.inj h)
      obtain ⟨hminus, hn⟩ := integer_eq_natural hinteger
      refine ⟨hminus, hdropped, hn, rfl, fun c hc => ?_⟩
      cases s with
      | nil => cases hc
      | cons d s =>
        obtain rfl : d = c := Option.some.inj hc
        exact ⟨fun h => hpoint s (h ▸ rfl), fun h => hsmall s (h ▸ rfl),
          fun h => hcapital s (h ▸ rfl)⟩
    · exact absurd trivial (not_isNatural_of_scale h)

/-- A natural number is read from its digits, and no digit or part of a number follows. -/
theorem of_readUnsigned_eq_natural (h : readUnsigned minus s = .ok (.natural n, r)) :
    minus = false ∧ ∃ ds, s = ds ++ r ∧ IsDigits ds ∧ Nat.ofDigitChars 10 ds 0 = n
      ∧ n ≤ maxNatural ∧ NumberEnds r := by
  unfold readUnsigned at h
  split at h
  · cases h
  · next rest =>
    split at h
    · cases h
    · next hrest =>
      obtain ⟨hminus, -, rfl, rfl, hends⟩ := of_readTail_eq_natural h
      exact ⟨hminus, ['0'], rfl, ⟨nofun, by simp⟩, by decide, Nat.zero_le _,
        numberEnds_iff.2 ⟨Bool.eq_false_iff.2 hrest, hends⟩⟩
  · split at h
    · cases h
    · next hstarts =>
      simp only at h
      obtain ⟨hminus, hdropped, rfl, rfl, hends⟩ := of_readTail_eq_natural h
      -- no digit was dropped, so those that were taken are all
      have hsuffix := skipDigits_suffix (takeDigits maxNatural 0 s).2
      have hskip := hsuffix.eq_of_length (by have := hsuffix.length_le; omega)
      rw [hskip] at hends ⊢
      have hstop : startsWithDigit (takeDigits maxNatural 0 s).2 = false := by
        rw [← hskip]
        exact startsWithDigit_skipDigits _
      obtain ⟨ds, hs, hds, hvalue, hroom⟩ :=
        of_takeDigits (rfl : takeDigits maxNatural 0 s = (_, _)) (Nat.zero_le _)
      refine ⟨hminus, ds, hs, ⟨?_, hds⟩, hvalue, hroom, numberEnds_iff.2 ⟨hstop, hends⟩⟩
      rintro rfl
      rw [hs, List.nil_append, hstop] at hstarts
      exact hstarts rfl

theorem of_readNumber_eq_natural (h : readNumber s = .ok (.natural n, r)) :
    ∃ ds, s = ds ++ r ∧ IsDigits ds ∧ Nat.ofDigitChars 10 ds 0 = n ∧ n ≤ maxNatural
      ∧ NumberEnds r := by
  unfold readNumber at h
  split at h
  · cases (of_readUnsigned_eq_natural h).1
  · exact (of_readUnsigned_eq_natural h).2

/-- A number that is a run of digits is read as a natural number, if its value has room. -/
theorem readNumber_whole (h : IsWhole ds) (hr : NumberEnds r)
    (hroom : Nat.ofDigitChars 10 ds 0 ≤ maxNatural) :
    readNumber (ds ++ r) = .ok (.natural (Nat.ofDigitChars 10 ds 0), r) := by
  have htail (n : Nat) : readTail false n 0 r = .ok (.natural n, r) := by
    unfold readTail
    split
    · exact absurd rfl (hr '.' rfl).2.1
    · exact absurd rfl (hr 'e' rfl).2.2.1
    · exact absurd rfl (hr 'E' rfl).2.2.2
    · rfl
  have hstop := (numberEnds_iff.1 hr).1
  cases h with
  | zero =>
    change readUnsigned false ('0' :: r) = _
    rw [readUnsigned, hstop, if_neg Bool.false_ne_true, htail]
    rfl
  | @digits c ds h hzero =>
    have hc := h.2 c List.mem_cons_self
    have hminus : c ≠ '-' := by
      rintro rfl
      cases hc
    have hnumber : readNumber (c :: ds ++ r) = readUnsigned false (c :: ds ++ r) := by
      unfold readNumber
      split
      · next heq => exact absurd (List.cons.inj heq).1 hminus
      · rfl
    rw [hnumber]
    unfold readUnsigned
    split
    · next heq => cases heq
    · next heq => exact absurd (List.cons.inj heq).1 hzero
    · have hskip : skipDigits r = r := by
        cases r with
        | nil => rfl
        | cons d r => exact List.dropWhile_cons_of_neg (Bool.eq_false_iff.1 hstop)
      simp only [takeDigits_append h.2 hstop hroom, hskip, Nat.sub_self, htail]
      rw [List.cons_append, startsWithDigit, hc]
      rfl

/-- What follows the integer part of a number says so by its first character. -/
theorem fraction_exponent_cases {fraction exponent : List Char} (hfraction : IsFraction fraction)
    (hexponent : IsExponent exponent) :
    fraction ++ exponent = []
      ∨ ∃ c cs, fraction ++ exponent = c :: cs ∧ (c = '.' ∨ c = 'e' ∨ c = 'E') := by
  cases hfraction with
  | none =>
    cases hexponent with
    | none => exact .inl rfl
    | digits hmark => exact .inr ⟨_, _, rfl, .inr hmark⟩
  | digits => exact .inr ⟨_, _, rfl, .inl rfl⟩

/-- A number literal is read as a natural number just when it consists of digits only and its
value has room. -/
theorem readNatural_eq_ok_iff {literal r' : List Char} (h : IsNumber literal)
    (hr : NumberEnds r) :
    Reader.readNatural (literal ++ r) = .ok (n, r') ↔
      r' = r ∧ (∀ c ∈ literal, c.isDigit) ∧ Nat.ofDigitChars 10 literal 0 = n
        ∧ n ≤ maxNatural := by
  obtain ⟨sign, whole, fraction, exponent, rfl, hsign, hwhole, hfraction, hexponent⟩ := h
  obtain ⟨-, -, -, hdigits⟩ := hwhole.exists_cons
  have htail := fraction_exponent_cases hfraction hexponent
  generalize fraction ++ exponent = tail at htail
  constructor
  · intro h
    have hnumber : readNumber (sign ++ (whole ++ tail) ++ r) = .ok (.natural n, r') := by
      unfold Reader.readNatural at h
      split at h <;> cases h
      assumption
    obtain ⟨ds, htext, hds, hvalue, hroom, hends⟩ := of_readNumber_eq_natural hnumber
    rcases hsign with rfl | rfl
    · have hstop : startsWithDigit (tail ++ r) = false := by
        rcases htail with rfl | ⟨c, cs, rfl, rfl | rfl | rfl⟩
        · exact (numberEnds_iff.1 hr).1
        all_goals rfl
      rw [List.nil_append, List.append_assoc] at htext
      obtain ⟨rfl, rfl⟩ :=
        eq_of_digits_append htext hdigits.2 hds.2 hstop (numberEnds_iff.1 hends).1
      rcases htail with rfl | ⟨c, cs, rfl, hc⟩
      · rw [List.append_nil]
        exact ⟨rfl, hds.2, hvalue, hroom⟩
      · have hgoes := (hends c rfl).2
        rcases hc with hc | hc | hc
        · exact absurd hc hgoes.1
        · exact absurd hc hgoes.2.1
        · exact absurd hc hgoes.2.2
    · cases ds with
      | nil => exact absurd rfl hds.1
      | cons d ds =>
        obtain rfl : '-' = d := (List.cons.inj htext).1
        exact absurd (hds.2 '-' List.mem_cons_self) (by decide)
  · rintro ⟨rfl, hall, rfl, hroom⟩
    rcases hsign with rfl | rfl
    · rcases htail with rfl | ⟨c, cs, rfl, hc⟩
      · rw [List.nil_append, List.append_nil] at hroom ⊢
        rw [Reader.readNatural, readNumber_whole hwhole hr hroom]
      · have hdigit := hall c (by simp)
        rcases hc with rfl | rfl | rfl <;> cases hdigit
    · exact absurd (hall '-' (by simp)) (by decide)

end CommandLine.Json
