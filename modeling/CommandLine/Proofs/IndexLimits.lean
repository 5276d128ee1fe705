import Mathlib.Data.Nat.Digits.Defs
import CommandLine.Proofs.Abbreviations
/-!
# CommandLine.Proofs.IndexLimits

**Indices are exact up to the limit of 64 bits.** `AddressBook.IsNumeral` says which texts are
decimal numerals, and of which number, by the place of each digit: there is no reading, no limit
and no bound on the length in it. A text is read as an index just when it is a numeral for a number
from 1 to `2 ^ 64 - 1`, and then as this number (`AddressBook.index_exact_up_to_limit`).

* Adding up digits from the front is counting them by their places
  (`AddressBook.ofDigitChars_eq`), so no digit is lost however many there are.
* A text is a numeral for one number at most, so a numeral beyond the limit is not read as another
  number.
* `delete` shows it from the line on: its only parameter decides alone what comes out
  (`AddressBook.assemble_delete`).
-/

namespace CommandLine.AddressBook

/-- The number that digits stand for by their places: the last one counts once, the one before it
ten times, and so on. -/
def placeValue (digits : List Char) : Nat :=
  Nat.ofDigits 10 (digits.reverse.map fun c => c.toNat - '0'.toNat)

/-- The text is a decimal numeral for a number: at least one digit, behind at most one plus
sign. -/
def IsNumeral (text : String) (n : Nat) : Prop :=
  ∃ sign digits : List Char, text.toList = sign ++ digits ∧ (sign = [] ∨ sign = ['+'])
    ∧ digits ≠ [] ∧ (∀ c ∈ digits, '0' ≤ c ∧ c ≤ '9') ∧ placeValue digits = n

/-- A number in decimal behind some zeros. -/
def padded (zeros n : Nat) : String := String.ofList (List.replicate zeros '0') ++ toString n

variable {command text : String} {n m : Nat}

/-! ### Digits by their places -/

@[simp] theorem placeValue_nil : placeValue [] = 0 := rfl

theorem placeValue_cons (c : Char) (digits : List Char) :
    placeValue (c :: digits) =
      10 ^ digits.length * (c.toNat - '0'.toNat) + placeValue digits := by
  unfold placeValue
  rw [List.reverse_cons, List.map_append, Nat.ofDigits_append, List.length_map,
    List.length_reverse, List.map_singleton, Nat.ofDigits_singleton, Nat.add_comm]

/-- Adding digits up behind a number moves it up by their count and adds what they are worth. -/
theorem ofDigitChars_eq (digits : List Char) (n : Nat) :
    Nat.ofDigitChars 10 digits n = 10 ^ digits.length * n + placeValue digits := by
  induction digits generalizing n with
  | nil => simp
  | cons c digits ih =>
    rw [Nat.ofDigitChars_cons, ih, placeValue_cons, List.length_cons, Nat.pow_succ, Nat.mul_add,
      Nat.mul_assoc, Nat.add_assoc]

theorem isDigit_iff {c : Char} : c.isDigit ↔ '0' ≤ c ∧ c ≤ '9' := by
  simp [Char.isDigit, Char.le_def]

/-! ### Numerals -/

/-- What can be an index for a number is a numeral for it, and the number is an index. -/
theorem denotes_iff : Denotes text n ↔ IsNumeral text n ∧ IsIndex n := by
  have hvalue (digits : List Char) : Nat.ofDigitChars 10 digits 0 = placeValue digits := by
    rw [ofDigitChars_eq, Nat.mul_zero, Nat.zero_add]
  simp only [Denotes, IsNumeral, hvalue, isDigit_iff]
  constructor
  · intro h
    obtain ⟨digits, htext, hne, hdigits, hn, hindex⟩ := h
    rcases htext with htext | htext
    · exact ⟨⟨[], digits, htext, .inl rfl, hne, hdigits, hn⟩, hindex⟩
    · exact ⟨⟨['+'], digits, htext, .inr rfl, hne, hdigits, hn⟩, hindex⟩
  · intro h
    obtain ⟨⟨sign, digits, htext, hsign, hne, hdigits, hn⟩, hindex⟩ := h
    refine ⟨digits, ?_, hne, hdigits, hn, hindex⟩
    rcases hsign with rfl | rfl
    · exact .inl htext
    · exact .inr htext

/-- A text is a numeral for one number at most. -/
theorem IsNumeral.unique (h : IsNumeral text n) (h' : IsNumeral text m) : n = m := by
  have hdigits {k : Nat} (h : IsNumeral text k) : placeValue (dropPlus text.toList) = k := by
    obtain ⟨sign, digits, htext, hsign, -, hdigits, hk⟩ := h
    rcases hsign with rfl | rfl
    · rw [htext, List.nil_append, dropPlus_digits fun c hc => isDigit_iff.2 (hdigits c hc), hk]
    · rw [htext, ← hk]
      rfl
  rw [← hdigits h, hdigits h']

theorem toList_padded (zeros n : Nat) :
    (padded zeros n).toList = List.replicate zeros '0' ++ Nat.toDigits 10 n := by
  rw [padded, String.toList_append, String.toList_ofList, toList_toString]

theorem isDigit_of_mem_padded {zeros n : Nat} {c : Char} (h : c ∈ (padded zeros n).toList) :
    c.isDigit := by
  rw [toList_padded] at h
  rcases List.mem_append.1 h with h | h
  · rw [List.eq_of_mem_replicate h]
    rfl
  · exact Nat.isDigit_of_mem_toDigits (by decide) (by decide) h

theorem padded_ne_nil (zeros n : Nat) : (padded zeros n).toList ≠ [] := by
  rw [toList_padded]
  intro h
  exact Nat.toDigits_ne_nil (List.append_eq_nil_iff.1 h).2

/-- Zeros in front do not change the number. -/
theorem isNumeral_padded (zeros n : Nat) : IsNumeral (padded zeros n) n := by
  refine ⟨[], (padded zeros n).toList, rfl, .inl rfl, padded_ne_nil zeros n,
    fun c hc => isDigit_iff.1 (isDigit_of_mem_padded hc), ?_⟩
  have hvalue := ofDigitChars_eq (padded zeros n).toList 0
  rw [Nat.mul_zero, Nat.zero_add] at hvalue
  rw [← hvalue, toList_padded, Nat.ofDigitChars_append, Nat.ofDigitChars_replicate_zero,
    Nat.mul_zero, Nat.ofDigitChars_ten_toDigits]

theorem isWord_padded (zeros n : Nat) : IsWord (padded zeros n) := by
  constructor
  · intro hempty
    exact padded_ne_nil zeros n (String.toList_eq_nil_iff.2 hempty)
  · intro c hc
    rw [Char.isAlphanum, isDigit_of_mem_padded hc, Bool.or_true]

/-! ### Reading an index -/

theorem isIndex_iff : IsIndex n ↔ 1 ≤ n ∧ n ≤ 2 ^ 64 - 1 := by
  unfold IsIndex
  norm_num
  omega

theorem indexOf_eq_ok_iff_isNumeral :
    indexOf command text = .ok n ↔ IsNumeral text n ∧ IsIndex n := by
  rw [indexOf_eq_ok, index?_eq_some_iff_denotes, denotes_iff]

/-- There is one way only to fail. -/
theorem indexOf_cases (command text : String) :
    (∃ n, indexOf command text = .ok n)
      ∨ indexOf command text = .error (complaint command (.notAnIndex text)) := by
  unfold indexOf
  split
  · next n _ => exact .inl ⟨n, rfl⟩
  · exact .inr rfl

theorem indexOf_eq_error_iff :
    indexOf command text = .error (complaint command (.notAnIndex text)) ↔
      ∀ n, IsNumeral text n → ¬IsIndex n := by
  constructor
  · intro h n hn hindex
    rw [indexOf_eq_ok_iff_isNumeral.2 ⟨hn, hindex⟩] at h
    cases h
  · intro h
    rcases indexOf_cases command text with ⟨n, hn⟩ | herror
    · obtain ⟨hnumeral, hindex⟩ := indexOf_eq_ok_iff_isNumeral.1 hn
      exact absurd hindex (h n hnumeral)
    · exact herror

/-- What is read from a numeral: its number, unless that is no index. -/
theorem indexOf_of_isNumeral (h : IsNumeral text n) :
    indexOf command text =
      if IsIndex n then .ok n else .error (complaint command (.notAnIndex text)) := by
  split
  · next hindex => exact indexOf_eq_ok_iff_isNumeral.2 ⟨h, hindex⟩
  · next hindex =>
    refine indexOf_eq_error_iff.2 fun m hm => ?_
    rwa [hm.unique h]

/-! ### Deleting by an index -/

/-- What `delete` makes of one parameter without a mark. -/
theorem construct_delete {b : BareCommand} (hoptions : OnlyOptions b.toArguments [])
    (hparameters : b.parameters = normals [text]) :
    Keyword.delete.construct b = (indexOf Keyword.delete.name text).map Command.delete := by
  have hnone : onlyOptions b Keyword.delete.name [] = .ok () := onlyOptions_eq_ok.2 hoptions
  show makeDelete b = _
  rw [makeDelete, hnone, theNormalValue_eq_ok.2 hparameters]
  show (indexOf Keyword.delete.name text >>= fun n => pure (Command.delete n)) = _
  cases indexOf Keyword.delete.name text <;> rfl

/-- The bare command of `delete` with one word behind it. -/
theorem exists_parse_delete (h : IsWord text) :
    ∃ b, parse ("delete " ++ text) = .ok b ∧ b.imperative = "delete"
      ∧ b.parameters = normals [text] ∧ OnlyOptions b.toArguments [] := by
  have hblank : "delete ".toList = "delete".toList ++ [' '] := rfl
  have hprintable : (Tree.ofParts "delete" [⟨.normal, .ofWord text⟩] []).Printable := by
    refine Tree.printable_ofParts (by decide) (fun p hp => ?_) nofun
    obtain rfl := List.mem_singleton.1 hp
    exact ⟨.inr rfl, h⟩
  have hline : (Tree.ofParts "delete" [⟨.normal, .ofWord text⟩] []).write
      = ("delete " ++ text).toList := by
    rw [Tree.write_ofParts, String.toList_append, hblank]
    simp [Tree.Parameter.write, Token.ofWord, Marking.sign]
  have hparse := Tree.parse_write hprintable
  rw [hline, String.ofList_toList] at hparse
  refine ⟨_, hparse, Tree.imperative_ofTree _, Tree.parameters_ofTree _, fun name hname => ?_⟩
  rw [Arguments.optionNames, SortedMap.mem_keys_iff, Tree.get?_ofParts List.Pairwise.nil] at hname
  cases hname

/-- The line with a number in decimal behind `delete`, under any settings. -/
theorem assemble_delete (config : Config) (zeros n : Nat) :
    assemble ⟨table, config⟩ ("delete " ++ padded zeros n) =
      if IsIndex n then .ok (.delete n)
      else .error (.validation ⟨"delete", (ShapeFault.notAnIndex (padded zeros n)).message⟩) := by
  obtain ⟨b, hparse, himperative, hparameters, hoptions⟩ :=
    exists_parse_delete (isWord_padded zeros n)
  have hselect : (Decoder.mk table config).resolve b = .ok Keyword.delete.binding := by
    rw [Decoder.resolve, himperative]
    exact select_name config .delete
  rw [assemble, hparse]
  change (Decoder.mk table config).decode b = _
  rw [decode_of_selects hselect rfl, construct_delete hoptions hparameters,
    indexOf_of_isNumeral (isNumeral_padded zeros n)]
  split <;> rfl

/-- **Indices are exact up to the limit of 64 bits.** For every command a text is read as an index
just when it is a decimal numeral for a number from 1 to `2 ^ 64 - 1`, and then as this number.
Every other text is refused, and told in the complaint: no numeral at all, or one for zero or for a
number beyond the limit. So `delete` with a number in decimal behind it, and with any zeros in
front of that, is about this number or is refused. -/
theorem index_exact_up_to_limit :
    (∀ (command text : String) (n : Nat),
        indexOf command text = .ok n ↔ IsNumeral text n ∧ 1 ≤ n ∧ n ≤ 2 ^ 64 - 1)
      ∧ (∀ command text : String,
        indexOf command text
            = .error ⟨command, "INDEX must be a positive integer, got `" ++ text ++ "`"⟩ ↔
          ∀ n, IsNumeral text n → n = 0 ∨ 2 ^ 64 ≤ n)
      ∧ (∀ (b : BareCommand) (zeros n : Nat), OnlyOptions b.toArguments [] →
        b.parameters = [⟨.normal, padded zeros n⟩] →
        Keyword.delete.construct b =
          if 1 ≤ n ∧ n < 2 ^ 64 then .ok (.delete n)
          else .error ⟨"delete", "INDEX must be a positive integer, got `" ++ padded zeros n ++ "`"⟩)
      ∧ ∀ (config : Config) (zeros n : Nat),
        assemble ⟨table, config⟩ ("delete " ++ padded zeros n) =
          if 1 ≤ n ∧ n < 2 ^ 64 then .ok (.delete n)
          else .error (.validation
            ⟨"delete", "INDEX must be a positive integer, got `" ++ padded zeros n ++ "`"⟩) := by
  refine ⟨fun command text n => ?_, fun command text => ?_,
    fun b zeros n hoptions hparameters => ?_, assemble_delete⟩
  · rw [indexOf_eq_ok_iff_isNumeral, isIndex_iff]
  · refine indexOf_eq_error_iff.trans ?_
    refine forall_congr' fun n => imp_congr_right fun _ => ?_
    rw [isIndex_iff]
    omega
  · rw [construct_delete hoptions hparameters, indexOf_of_isNumeral (isNumeral_padded zeros n)]
    change _ = if IsIndex n then _ else _
    split <;> rfl

/-- An imperative, and a number with zeros in front. -/
def shortDelete : BareCommand := ⟨⟨[⟨.normal, padded 2 18446744073709551615⟩], .empty⟩, "del"⟩

/-- The largest index with a sign and zeros, zeros alone, and the first number that is no index. -/
theorem index_near_limit :
    indexOf "tag" "+0018446744073709551615" = .ok 18446744073709551615
      ∧ indexOf "tag" "00" = .error ⟨"tag", "INDEX must be a positive integer, got `00`"⟩
      ∧ Keyword.delete.construct shortDelete = .ok (.delete 18446744073709551615)
      ∧ "delete " ++ padded 1 18446744073709551616 = "delete 018446744073709551616"
      ∧ assemble ⟨table, .exact⟩ "delete 018446744073709551616" = .error (.validation
        ⟨"delete", "INDEX must be a positive integer, got `018446744073709551616`"⟩) := by
  obtain ⟨hok, herror, hconstruct, hassemble⟩ := index_exact_up_to_limit
  have hpadded : padded 1 18446744073709551616 = "018446744073709551616" := by decide +kernel
  have hlargest : IsNumeral "+0018446744073709551615" 18446744073709551615 :=
    ⟨['+'], "0018446744073709551615".toList, by decide, .inr rfl, by decide,
      by simp, by decide +kernel⟩
  have hzero : IsNumeral "00" 0 :=
    ⟨[], ['0', '0'], by decide, .inl rfl, by decide, by simp, by decide⟩
  refine ⟨(hok _ _ _).2 ⟨hlargest, by decide, by decide⟩, ?_, ?_, by rw [hpadded]; rfl, ?_⟩
  · exact (herror "tag" "00").2 fun n hn => .inl (hn.unique hzero)
  · have hnone : onlyOptions shortDelete "delete" [] = .ok () := rfl
    exact hconstruct shortDelete 2 18446744073709551615 (onlyOptions_eq_ok.1 hnone) rfl
  · have hline := hassemble .exact 1 18446744073709551616
    rw [hpadded] at hline
    exact hline

end CommandLine.AddressBook
