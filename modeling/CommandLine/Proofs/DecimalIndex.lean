import CommandLine.AddressBook.Index
import CommandLine.Proofs.Rendering
/-!
# CommandLine.Proofs.DecimalIndex

**Which texts are indices.** `AddressBook.index?_eq_some_iff` takes the reading of an index
apart into its digits and its value. `AddressBook.Denotes` says without the reading which
number a text is an index for. A number that can be an index is one when it is written in
decimal (`AddressBook.index?_toString`), and can be typed as a word then. Its other spellings
differ from that one by zeros and a plus sign in front (`AddressBook.denotes_iff_isSpelling`).
-/

namespace CommandLine.AddressBook

/-- A number that counts contacts from one and has at most 64 bits. -/
def IsIndex (n : Nat) : Prop := 1 ≤ n ∧ n < Nat.pow 2 64

instance (n : Nat) : Decidable (IsIndex n) := inferInstanceAs (Decidable (_ ∧ _))

theorem index?_eq_some_iff {text : String} {n : Nat} :
    index? text = some n ↔
      dropPlus text.toList ≠ [] ∧ (dropPlus text.toList).all Char.isDigit
        ∧ decimalValue (dropPlus text.toList) = n ∧ IsIndex n := by
  unfold index? IsIndex
  dsimp only
  split
  · next h =>
    obtain ⟨hne, hdigits, hpos, hlt⟩ := h
    rw [Option.some.injEq]
    constructor
    · rintro rfl
      exact ⟨hne, hdigits, rfl, hpos, hlt⟩
    · exact fun h => h.2.2.1
  · next h =>
    constructor
    · intro hn
      cases hn
    · intro h
      obtain ⟨hne, hdigits, rfl, hpos, hlt⟩ := h
      exact absurd ⟨hne, hdigits, hpos, hlt⟩ h

theorem isIndex_of_index? {text : String} {n : Nat} (h : index? text = some n) : IsIndex n :=
  (index?_eq_some_iff.1 h).2.2.2

/-! ### What a text denotes -/

/-- A text is an index for a number: digits with the number as their decimal value, and at
most one plus sign in front of them. -/
def Denotes (text : String) (n : Nat) : Prop :=
  ∃ digits : List Char, (text.toList = digits ∨ text.toList = '+' :: digits) ∧ digits ≠ []
    ∧ (∀ c ∈ digits, c.isDigit) ∧ Nat.ofDigitChars 10 digits 0 = n ∧ IsIndex n

theorem decimalValue_eq (digits : List Char) : decimalValue digits = Nat.ofDigitChars 10 digits 0 :=
  Nat.ofDigitChars_eq_foldl.symm

/-- Digits have no sign that could be dropped. -/
theorem dropPlus_digits {digits : List Char} (h : ∀ c ∈ digits, c.isDigit) :
    dropPlus digits = digits := by
  unfold dropPlus
  split
  · next rest =>
    have hplus := h '+' List.mem_cons_self
    exact absurd hplus (by decide)
  · rfl

theorem eq_of_dropPlus (cs : List Char) : cs = dropPlus cs ∨ cs = '+' :: dropPlus cs := by
  unfold dropPlus
  split
  · exact .inr rfl
  · exact .inl rfl

theorem index?_eq_some_iff_denotes {text : String} {n : Nat} :
    index? text = some n ↔ Denotes text n := by
  rw [index?_eq_some_iff, decimalValue_eq]
  constructor
  · intro h
    obtain ⟨hne, hdigits, hvalue, hn⟩ := h
    exact ⟨dropPlus text.toList, eq_of_dropPlus _, hne, List.all_eq_true.1 hdigits, hvalue, hn⟩
  · intro h
    obtain ⟨digits, htext, hne, hdigits, hvalue, hn⟩ := h
    have hdrop : dropPlus text.toList = digits := by
      rcases htext with htext | htext
      · rw [htext, dropPlus_digits hdigits]
      · rw [htext, dropPlus]
    rw [hdrop]
    exact ⟨hne, List.all_eq_true.2 hdigits, hvalue, hn⟩

/-! ### Numbers in decimal -/

theorem toList_toString (n : Nat) : (toString n).toList = Nat.toDigits 10 n := Nat.toList_repr

theorem isDigit_of_mem_toString {n : Nat} {c : Char} (h : c ∈ (toString n).toList) :
    c.isDigit := by
  rw [toList_toString] at h
  exact Nat.isDigit_of_mem_toDigits (by decide) (by decide) h

theorem dropPlus_toString (n : Nat) : dropPlus (toString n).toList = (toString n).toList :=
  dropPlus_digits fun _ => isDigit_of_mem_toString

theorem decimalValue_toString (n : Nat) : decimalValue (toString n).toList = n := by
  rw [toList_toString, decimalValue_eq, Nat.ofDigitChars_ten_toDigits]

theorem isWord_toString (n : Nat) : IsWord (toString n) := by
  constructor
  · intro hempty
    have hnil : Nat.toDigits 10 n = [] := by rw [← toList_toString, hempty]; rfl
    exact Nat.toDigits_ne_nil hnil
  · intro c hc
    rw [Char.isAlphanum, isDigit_of_mem_toString hc, Bool.or_true]

/-- An index in decimal is read as itself. -/
theorem index?_toString {n : Nat} (h : IsIndex n) : index? (toString n) = some n := by
  rw [index?_eq_some_iff, dropPlus_toString, decimalValue_toString]
  refine ⟨?_, ?_, rfl, h⟩
  · intro hnil
    exact (isWord_toString n).1 (String.toList_eq_nil_iff.1 hnil)
  · exact List.all_eq_true.2 fun c => isDigit_of_mem_toString

/-! ### The spellings of a number -/

/-- A text spells a number: its decimal digits, maybe with zeros in front of them, and maybe with
a plus sign in front of all. -/
def IsSpelling (text : String) (n : Nat) : Prop :=
  ∃ (sign : List Char) (zeros : Nat), (sign = [] ∨ sign = ['+'])
    ∧ text.toList = sign ++ (List.replicate zeros '0' ++ Nat.toDigits 10 n)

/-- A digit has a value below ten, and is how this value is written. -/
theorem toDigits_digit {c : Char} (h : c.isDigit) :
    c.toNat - '0'.toNat < 10 ∧ Nat.toDigits 10 (c.toNat - '0'.toNat) = [c] := by
  have hzero : '0'.toNat = 48 := rfl
  have hbounds : 48 ≤ c.toNat ∧ c.toNat ≤ 57 := by
    simpa [Char.isDigit, UInt32.le_iff_toNat_le] using h
  have hlt : c.toNat - '0'.toNat < 10 := by omega
  have hchar : Nat.digitChar (c.toNat - '0'.toNat) = c := by
    rw [← Char.toNat_inj, Nat.toNat_digitChar_of_lt_ten hlt]
    omega
  exact ⟨hlt, by rw [Nat.toDigits_of_lt_base hlt, hchar]⟩

/-- Digits that are read behind a number go behind its own digits. -/
theorem toDigits_ofDigitChars {digits : List Char} {n : Nat} (hn : 0 < n)
    (hdigits : ∀ c ∈ digits, c.isDigit) :
    Nat.toDigits 10 (Nat.ofDigitChars 10 digits n) = Nat.toDigits 10 n ++ digits := by
  induction digits generalizing n with
  | nil => rw [Nat.ofDigitChars_nil, List.append_nil]
  | cons c digits ih =>
    rw [List.forall_mem_cons] at hdigits
    obtain ⟨hlt, hc⟩ := toDigits_digit hdigits.1
    rw [Nat.ofDigitChars_cons, ih (by omega) hdigits.2,
      ← Nat.toDigits_append_toDigits (by decide) hn hlt, hc, List.append_assoc,
      List.singleton_append]

/-- Digits of a positive value are how it is written, behind some zeros. -/
theorem exists_zeros {digits : List Char} (hdigits : ∀ c ∈ digits, c.isDigit)
    (hpos : 0 < Nat.ofDigitChars 10 digits 0) :
    ∃ zeros, digits =
      List.replicate zeros '0' ++ Nat.toDigits 10 (Nat.ofDigitChars 10 digits 0) := by
  induction digits with
  | nil => exact absurd hpos (Nat.lt_irrefl 0)
  | cons c digits ih =>
    rw [List.forall_mem_cons] at hdigits
    rw [Nat.ofDigitChars_cons] at hpos ⊢
    obtain ⟨-, hc⟩ := toDigits_digit hdigits.1
    rcases Nat.eq_zero_or_pos (c.toNat - '0'.toNat) with hzero | hfirst
    · rw [hzero, Nat.toDigits_zero] at hc
      obtain ⟨zeros, hzeros⟩ := ih hdigits.2 (by rwa [hzero] at hpos)
      refine ⟨zeros + 1, ?_⟩
      rw [hzero, List.replicate_succ, List.cons_append, ← hzeros, ← (List.cons.inj hc).1]
    · refine ⟨0, ?_⟩
      rw [Nat.mul_zero, Nat.zero_add, toDigits_ofDigitChars hfirst hdigits.2, hc]
      rfl

/-- Whatever denotes an index is a spelling of it, and all its spellings do. -/
theorem denotes_iff_isSpelling {text : String} {n : Nat} :
    Denotes text n ↔ IsIndex n ∧ IsSpelling text n := by
  constructor
  · intro h
    obtain ⟨digits, htext, -, hdigits, rfl, hn⟩ := h
    obtain ⟨zeros, hzeros⟩ := exists_zeros hdigits hn.1
    refine ⟨hn, ?_⟩
    rcases htext with htext | htext
    · exact ⟨[], zeros, .inl rfl, by rw [htext, ← hzeros]; rfl⟩
    · exact ⟨['+'], zeros, .inr rfl, by rw [htext, ← hzeros]; rfl⟩
  · intro h
    obtain ⟨hn, sign, zeros, hsign, htext⟩ := h
    refine ⟨List.replicate zeros '0' ++ Nat.toDigits 10 n, ?_, by simp, ?_, ?_, hn⟩
    · rcases hsign with rfl | rfl
      · exact .inl htext
      · exact .inr htext
    · rw [List.forall_mem_append]
      refine ⟨fun c hc => ?_, fun c => Nat.isDigit_of_mem_toDigits (by decide) (by decide)⟩
      rw [List.eq_of_mem_replicate hc]
      rfl
    · rw [Nat.ofDigitChars_append, Nat.ofDigitChars_replicate_zero, Nat.mul_zero,
        Nat.ofDigitChars_ten_toDigits]

end CommandLine.AddressBook
