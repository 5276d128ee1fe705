import CommandLine.Proofs.JsonGrammar
import CommandLine.Proofs.Outcome
/-!
# CommandLine.Proofs.JsonStrings

**String literals are read for what they stand for, and only those are read.** The reader meets
the halves of a surrogate pair one after the other and may find out late that the second one is
missing; `readString_of_literal` says that it accepts just the literals that have a content.
-/

namespace CommandLine.Json

variable {α β : Type} {t t' r s : List Char} {c : Char} {n : Nat} {ps : List Piece}

/-- A reader's result is the answer, if there is one, and else a fault. -/
def Answers (result : Except Fault (α × List Char)) (answer : Option α) (r : List Char) : Prop :=
  match answer with
  | some a => result = .ok (a, r)
  | none => ∃ fault, result = .error fault

theorem Answers.map {result : Except Fault (α × List Char)} {answer : Option α}
    (h : Answers result answer r) (f : α → β) :
    Answers (result.map fun (a, r) => (f a, r)) (answer.map f) r := by
  cases answer with
  | some a =>
    obtain rfl : result = .ok (a, r) := h
    rfl
  | none =>
    obtain ⟨fault, rfl⟩ := h
    exact ⟨fault, rfl⟩

/-! ### One part of a literal -/

theorem readCharacters_close (r : List Char) : readCharacters ('"' :: r) = .ok ([], r) := by
  rw [readCharacters]

theorem readCharacters_plain (hquote : c ≠ '"') (hslash : c ≠ '\\') (hcontrol : 0x20 ≤ c.toNat) :
    readCharacters (c :: s) = (readCharacters s).map fun (cs, s) => (c :: cs, s) := by
  rw [readCharacters, if_neg (by omega)]
  · exact hquote
  · exact hslash

theorem readCharacters_escape (h : readEscape s = .ok (c, t)) :
    readCharacters ('\\' :: s) = (readCharacters t).map fun (cs, s) => (c :: cs, s) := by
  rw [readCharacters]
  split
  · next herror =>
    rw [h] at herror
    cases herror
  · next hok =>
    rw [h] at hok
    cases hok
    rfl

theorem exists_of_readEscape_error {fault : Fault} (h : readEscape s = .error fault) :
    ∃ fault, readCharacters ('\\' :: s) = .error fault := by
  refine ⟨fault, ?_⟩
  rw [readCharacters]
  split
  · next herror =>
    rw [h] at herror
    cases herror
    rfl
  · next hok =>
    rw [h] at hok
    cases hok

theorem readEscape_short {letter : Char} (h : shortEscape? letter = some c) :
    readEscape (letter :: s) = .ok (c, s) := by
  rw [readEscape, h]

theorem readEscape_numbered (s : List Char) : readEscape ('u' :: s) = readUnicode s := by
  rw [readEscape, if_pos rfl]
  rfl

theorem readHex4_digits {a b c d : Char} (h : hexValue4? a b c d = some n) (s : List Char) :
    readHex4 (a :: b :: c :: d :: s) = .ok (n, s) := by
  rw [readHex4, h]

/-! ### Surrogate pairs -/

section Surrogates

variable {a b c' d : Char} {m : Nat}

theorem readEscape_low (h : hexValue4? a b c' d = some n) (hlow : isLowSurrogate n = true)
    (s : List Char) : ∃ fault, readEscape ('u' :: a :: b :: c' :: d :: s) = .error fault := by
  rw [readEscape_numbered, readUnicode, readHex4_digits h]
  exact ⟨_, if_pos hlow⟩

theorem readEscape_high (h : hexValue4? a b c' d = some n) (hhigh : isHighSurrogate n = true)
    (s : List Char) : readEscape ('u' :: a :: b :: c' :: d :: s) = readLowSurrogate n s := by
  have hlow : isLowSurrogate n = false := by
    simp only [isHighSurrogate, isLowSurrogate, Bool.and_eq_true, Bool.and_eq_false_iff,
      decide_eq_true_eq, decide_eq_false_iff_not] at hhigh ⊢
    omega
  rw [readEscape_numbered, readUnicode, readHex4_digits h]
  simp only [hlow, hhigh, if_true, Bool.false_eq_true, if_false]

theorem readEscape_unit (h : hexValue4? a b c' d = some n) (hn : isSurrogate n = false)
    (s : List Char) : readEscape ('u' :: a :: b :: c' :: d :: s) = .ok (Char.ofNat n, s) := by
  rw [isSurrogate, Bool.or_eq_false_iff] at hn
  rw [readEscape_numbered, readUnicode, readHex4_digits h]
  simp only [hn.1, hn.2, Bool.false_eq_true, if_false]

theorem readLowSurrogate_unit (h : hexValue4? a b c' d = some m) (s : List Char) :
    readLowSurrogate n ('\\' :: 'u' :: a :: b :: c' :: d :: s) =
      if isLowSurrogate m then .ok (ofSurrogates n m, s) else .error (.after .loneSurrogate s) := by
  simp only [readLowSurrogate, expectEscape, if_true, bind, Except.bind, readHex4_digits h]

/-- Behind the first half of a pair there must be another unit. -/
theorem exists_of_readLowSurrogate (h : SpellsPieces ps t r)
    (hps : ∀ m ps', ps ≠ .unit m :: ps') : ∃ fault, readLowSurrogate n t = .error fault := by
  cases h with
  | close => exact ⟨_, rfl⟩
  | @piece _ _ _ s _ hpiece _ =>
    cases hpiece with
    | @plain c _ _ hslash _ =>
      have hc : expectEscape '\\' (c :: s) = .error (.next .surrogateEnds (c :: s)) :=
        if_neg hslash
      exact ⟨_, by rw [readLowSurrogate, hc]; rfl⟩
    | @short letter _ _ h =>
      have hletter : expectEscape 'u' (letter :: s)
          = .error (.next .surrogateEnds (letter :: s)) := by
        refine if_neg ?_
        rintro rfl
        cases h
      have hslash : expectEscape '\\' ('\\' :: letter :: s) = .ok (letter :: s) := rfl
      refine ⟨.next .surrogateEnds (letter :: s), ?_⟩
      simp only [readLowSurrogate, hslash, bind, Except.bind, hletter]
    | numbered => exact absurd rfl (hps _ _)

end Surrogates

/-! ### All parts of a literal -/

theorem SpellsPieces.exists_of_unit (h : SpellsPieces (.unit n :: ps) t r) :
    ∃ a b c d t', t = '\\' :: 'u' :: a :: b :: c :: d :: t' ∧ hexValue4? a b c d = some n
      ∧ SpellsPieces ps t' r := by
  cases h with
  | piece hpiece hpieces =>
    cases hpiece with
    | numbered h => exact ⟨_, _, _, _, _, rfl, h, hpieces⟩

/-- A unit that is no half of a pair is read as a character. -/
theorem answers_of_unit {answer : Option (List Char)} (h : SpellsPieces (.unit n :: ps) t r)
    (hn : isSurrogate n = false)
    (ih : ∀ {t'}, SpellsPieces ps t' r → Answers (readCharacters t') answer r) :
    Answers (readCharacters t) (answer.map (Char.ofNat n :: ·)) r := by
  obtain ⟨a, b, c, d, t', rfl, hhex, hpieces⟩ := h.exists_of_unit
  rw [readCharacters_escape (readEscape_unit hhex hn _)]
  exact (ih hpieces).map _

/-- A half of a pair that has no other half behind it is at fault. -/
theorem exists_of_surrogate (h : SpellsPieces (.unit n :: ps) t r) (hn : isSurrogate n = true)
    (hps : ∀ m ps', ps = .unit m :: ps' → isHighSurrogate n = true → isLowSurrogate m = false) :
    ∃ fault, readCharacters t = .error fault := by
  obtain ⟨a, b, c, d, t', rfl, hhex, hpieces⟩ := h.exists_of_unit
  suffices ∃ fault, readEscape ('u' :: a :: b :: c :: d :: t') = .error fault by
    obtain ⟨fault, hfault⟩ := this
    exact exists_of_readEscape_error hfault
  rcases Bool.or_eq_true_iff.1 hn with hhigh | hlow
  · rw [readEscape_high hhex hhigh]
    by_cases hunit : ∃ m ps', ps = .unit m :: ps'
    · obtain ⟨m, ps', rfl⟩ := hunit
      obtain ⟨a', b', c', d', t'', rfl, hhex', -⟩ := hpieces.exists_of_unit
      rw [readLowSurrogate_unit hhex', hps m ps' rfl hhigh]
      exact ⟨_, rfl⟩
    · exact exists_of_readLowSurrogate hpieces fun m ps' heq => hunit ⟨m, ps', heq⟩
  · exact readEscape_low hhex hlow _

/-- A literal is read for the characters that it stands for. If it stands for none, some half of
a surrogate pair is at fault. -/
theorem answers_readCharacters (h : SpellsPieces ps t r) :
    Answers (readCharacters t) (decode? ps) r := by
  fun_induction decode? ps generalizing t with
  | case1 =>
    cases h
    exact readCharacters_close r
  | case2 c ps ih =>
    cases h with
    | piece hpiece hpieces =>
      cases hpiece with
      | plain hquote hslash hcontrol =>
        rw [readCharacters_plain hquote hslash hcontrol]
        exact (ih hpieces).map _
      | short hletter =>
        rw [readCharacters_escape (readEscape_short hletter)]
        exact (ih hpieces).map _
  | case3 n m ps hpair ih =>
    rw [Bool.and_eq_true] at hpair
    obtain ⟨a, b, c, d, t', rfl, hn, hpieces⟩ := h.exists_of_unit
    obtain ⟨a', b', c', d', t'', rfl, hm, hpieces⟩ := hpieces.exists_of_unit
    have hread := readLowSurrogate_unit (n := n) hm t''
    rw [if_pos hpair.2, ← readEscape_high hn hpair.1] at hread
    rw [readCharacters_escape hread]
    exact (ih hpieces).map _
  | case4 n m ps hpair hsurrogate =>
    refine exists_of_surrogate h hsurrogate fun m' ps' heq hhigh => ?_
    cases heq
    rw [hhigh, Bool.true_and] at hpair
    exact Bool.eq_false_iff.2 hpair
  | case5 n m ps _ hunit ih => exact answers_of_unit h (Bool.eq_false_iff.2 hunit) ih
  | case6 n ps hps hsurrogate =>
    exact exists_of_surrogate h hsurrogate fun m ps' heq => absurd heq (hps m ps')
  | case7 n ps hps hunit ih => exact answers_of_unit h (Bool.eq_false_iff.2 hunit) ih

/-- String literals are read for their content. -/
theorem readString_of_literal {content : Option String} (h : Literal content t r) :
    Answers (readString t) content r := by
  obtain ⟨ps, hps, rfl⟩ := h
  exact (answers_readCharacters hps).map String.ofList

end CommandLine.Json
