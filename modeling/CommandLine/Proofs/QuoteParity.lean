import Mathlib.Algebra.Ring.Parity
import Mathlib.Data.List.TakeWhile
import CommandLine.Proofs.Spelling
/-!
# CommandLine.Proofs.QuoteParity

**Why a line has no tokens.** A character is outside of texts when an even number of quotes
stands before it. `Token.FailsBy` says by this parity alone what is wrong with a line: the
first character outside of texts that cannot stand there, or else the last quote, if the
quotes are odd in number. Nothing else is ever wrong (`tokenize_by_quoteParity`).

The scanner counts no quotes, it goes from token to token. What ties the two together is
`Token.Balanced`: whatever the scanner leaves behind has no stray character and an even number
of quotes, so what is ahead of it is judged as if it stood at the start of a line.
-/

namespace CommandLine

/-- The fault of the characters `w`, which stand behind `before`; these begin at byte
`offset`. -/
def LexicalFault.behind (offset : Nat) (before w : List Char) (cause : LexicalError.Cause) :
    LexicalFault :=
  ⟨cause, String.ofList w,
    ⟨offset + Text.byteLength before, offset + Text.byteLength before + Text.byteLength w⟩⟩

theorem LexicalFault.delimits_behind {line : String} {before w after : List Char}
    {cause : LexicalError.Cause} (h : line.toList = before ++ (w ++ after)) :
    (LexicalFault.behind 0 before w cause).span.Delimits line before
      (LexicalFault.behind 0 before w cause).fragment.toList after := by
  simp only [LexicalFault.behind, String.toList_ofList, Nat.zero_add]
  exact ⟨h, rfl, rfl⟩

namespace Token

open Text (byteLength byteLength_append)

/-! ### Inside and outside of texts -/

/-- What stands behind `before` is outside of texts: the quotes so far are in pairs. -/
def Outside (before : List Char) : Prop := Even (before.count '"')

/-- The characters that can stand outside of texts. -/
def CanStand (c : Char) : Prop := c.isAlphanum ∨ c ∈ [' ', '"', '/', ':', '+', '-']

/-- Behind `before`, the character `c` stands outside of texts and cannot stand there. -/
def Stray (before : List Char) (c : Char) : Prop := Outside before ∧ ¬CanStand c

/-- Some character stands outside of texts and cannot stand there. -/
def HasStray (cs : List Char) : Prop :=
  ∃ before c after, cs = before ++ c :: after ∧ Stray before c

/-- Why the characters `cs`, which begin at byte `offset` outside of texts, have no
tokens. -/
inductive FailsBy (offset : Nat) (cs : List Char) : LexicalFault → Prop
  /-- The first stray character. -/
  | stray {before after : List Char} {c : Char} (hcs : cs = before ++ c :: after)
      (hstray : Stray before c) (hfirst : ¬HasStray before) :
      FailsBy offset cs (.behind offset before [c] .unexpectedCharacter)
  /-- Without one, the last quote, if it has no partner. -/
  | unpaired {before after : List Char} (hcs : cs = before ++ '"' :: after)
      (hlast : '"' ∉ after) (hodd : Odd (cs.count '"')) (hnone : ¬HasStray cs) :
      FailsBy offset cs (.behind offset before ('"' :: after) .unterminatedText)

instance (before : List Char) : Decidable (Outside before) := inferInstanceAs (Decidable (Even _))

instance (c : Char) : Decidable (CanStand c) := inferInstanceAs (Decidable (_ ∨ _))

instance (before : List Char) (c : Char) : Decidable (Stray before c) :=
  inferInstanceAs (Decidable (_ ∧ _))

instance (cs : List Char) : Decidable (HasStray cs) :=
  decidable_of_iff (∃ i : Fin cs.length, Stray (cs.take i) cs[i]) <| by
    constructor
    · intro ⟨i, hstray⟩
      exact ⟨cs.take i, cs[i], cs.drop (i + 1), by simp, hstray⟩
    · intro ⟨before, c, after, hcs, hstray⟩
      subst hcs
      exact ⟨⟨before.length, by simp⟩, by simpa using hstray⟩

variable {offset : Nat} {w cs before after : List Char} {c : Char} {fault : LexicalFault}

theorem canStand_of_ofMark? {kind : Kind} (h : Kind.ofMark? c = some kind) : CanStand c := by
  unfold Kind.ofMark? at h
  split at h <;> cases h <;> decide

/-- A character that begins no token cannot stand outside of texts. -/
theorem not_canStand (hword : c.isAlphanum = false) (hblank : c ≠ ' ') (hquote : c ≠ '"')
    (hmark : Kind.ofMark? c = none) : ¬CanStand c := by
  rintro (halnum | hmem)
  · rw [hword] at halnum
    cases halnum
  · simp only [List.mem_cons, List.not_mem_nil, or_false] at hmem
    rcases hmem with rfl | rfl | rfl | rfl | rfl | rfl
    · exact hblank rfl
    · exact hquote rfl
    all_goals cases hmark

/-- Behind quotes in pairs, it only matters which quotes follow. -/
theorem outside_append (hw : Outside w) : Outside (w ++ cs) ↔ Outside cs := by
  unfold Outside at hw ⊢
  rw [List.count_append, Nat.even_add]
  exact ⟨fun h => h.1 hw, fun h => ⟨fun _ => h, fun _ => hw⟩⟩

theorem stray_append (hw : Outside w) : Stray (w ++ before) c ↔ Stray before c := by
  unfold Stray
  rw [outside_append hw]

/-- A stray character of two parts is in the first one or in the second. -/
theorem hasStray_append :
    HasStray (w ++ cs) ↔
      HasStray w ∨ ∃ before c after, cs = before ++ c :: after ∧ Stray (w ++ before) c := by
  constructor
  · intro ⟨before, c, after, hcs, hstray⟩
    rcases List.append_eq_append_iff.1 hcs with ⟨mid, rfl, hmid⟩ | ⟨mid, rfl, hmid⟩
    · exact .inr ⟨mid, c, after, hmid, hstray⟩
    · cases mid with
      | nil =>
        rw [List.append_nil]
        exact .inr ⟨[], c, after, hmid.symm, by rwa [List.append_nil]⟩
      | cons d mid =>
        obtain ⟨rfl, -⟩ := List.cons.inj hmid
        exact .inl ⟨before, c, mid, rfl, hstray⟩
  · rintro (⟨before, c, after, rfl, hstray⟩ | ⟨before, c, after, rfl, hstray⟩)
    · exact ⟨before, c, after ++ cs, by simp, hstray⟩
    · exact ⟨w ++ before, c, after, by simp, hstray⟩

/-! ### Characters that need nothing behind them -/

/-- No character is stray, and the quotes are in pairs. -/
structure Balanced (w : List Char) : Prop where
  no_stray : ¬HasStray w
  outside : Outside w

theorem Balanced.hasStray_append (hw : Balanced w) : HasStray (w ++ cs) ↔ HasStray cs := by
  rw [Token.hasStray_append]
  simp only [stray_append hw.outside]
  exact or_iff_right hw.no_stray

theorem Balanced.append (hw : Balanced w) (hcs : Balanced cs) : Balanced (w ++ cs) :=
  ⟨mt hw.hasStray_append.1 hcs.no_stray, (outside_append hw.outside).2 hcs.outside⟩

theorem balanced_of_forall (h : ∀ c ∈ w, CanStand c ∧ c ≠ '"') : Balanced w := by
  constructor
  · intro ⟨before, c, after, hw, _, hc⟩
    exact hc (h c (by simp [hw])).1
  · have hquote : '"' ∉ w := fun hmem => (h _ hmem).2 rfl
    rw [Outside, List.count_eq_zero.2 hquote]
    exact .zero

/-- Behind a single quote no character is outside of texts. -/
theorem not_hasStray_quote (hw : '"' ∉ w) : ¬HasStray ('"' :: w) := by
  intro ⟨before, c, after, hcs, hout, hc⟩
  cases before with
  | nil =>
    obtain ⟨rfl, -⟩ := List.cons.inj hcs
    exact hc (by decide)
  | cons d before =>
    rw [List.cons_append] at hcs
    obtain ⟨rfl, rfl⟩ := List.cons.inj hcs
    rw [List.mem_append, not_or] at hw
    rw [Outside, List.count_cons_self, List.count_eq_zero.2 hw.1] at hout
    exact absurd hout (by decide)

theorem balanced_quoted (hw : '"' ∉ w) : Balanced ('"' :: (w ++ ['"'])) := by
  constructor
  · rw [← List.cons_append, hasStray_append]
    rintro (hstray | ⟨before, c, after, hcs, -, hc⟩)
    · exact not_hasStray_quote hw hstray
    · -- the only character that is left is the second quote
      obtain rfl : c = '"' := by
        have hmem : c ∈ ['"'] := by rw [hcs]; simp
        exact List.mem_singleton.1 hmem
      exact hc (by decide)
  · rw [Outside, List.count_cons_self, List.count_append, List.count_eq_zero.2 hw]
    decide

theorem balanced_blank : Balanced [' '] :=
  balanced_of_forall (List.forall_mem_singleton.2 (by decide))

/-- A token as it is written. -/
theorem balanced_spelling {t : Token} (hkind : t.kind ≠ .terminal) (h : t.Proper) :
    Balanced t.spelling := by
  cases form_of_proper hkind h with
  | @word d w _ hd hw =>
    rw [spelling_word, String.toList_ofList]
    refine balanced_of_forall fun c hc => ?_
    have hword : c.isAlphanum := by
      rcases List.mem_cons.1 hc with rfl | hc
      · exact hd
      · exact hw c hc
    refine ⟨.inl hword, ?_⟩
    rintro rfl
    cases hword
  | text hw =>
    rw [spelling_text, String.toList_ofList]
    exact balanced_quoted hw
  | mark hmark =>
    rw [spelling_mark hmark]
    refine balanced_of_forall fun c hc => ?_
    obtain rfl := List.mem_singleton.1 hc
    exact ⟨canStand_of_ofMark? hmark, (of_ofMark? hmark).2.2.1⟩

/-! ### What scanning finds -/

/-- All that is read is balanced. -/
theorem Reads.balanced {ts : List Token} (h : Reads offset cs ts) : Balanced cs := by
  induction h with
  | done => exact balanced_of_forall nofun
  | blank _ ih => exact balanced_blank.append ih
  | token hnext _ ih => exact (balanced_spelling hnext.kind_ne hnext.proper).append ih

/-- What fails, fails also behind balanced characters, at its place there. -/
theorem FailsBy.append (hw : Balanced w) (h : FailsBy (offset + byteLength w) cs fault) :
    FailsBy offset (w ++ cs) fault := by
  have hplace (before v : List Char) (cause : LexicalError.Cause) :
      LexicalFault.behind (offset + byteLength w) before v cause
        = .behind offset (w ++ before) v cause := by
    simp only [LexicalFault.behind, byteLength_append, Nat.add_assoc]
  cases h with
  | @stray before after c hcs hstray hfirst =>
    rw [hplace]
    exact .stray (by rw [hcs, List.append_assoc]) ((stray_append hw.outside).2 hstray)
      (mt hw.hasStray_append.1 hfirst)
  | @unpaired before after hcs hlast hodd hnone =>
    rw [hplace]
    refine .unpaired (by rw [hcs, List.append_assoc]) hlast ?_ (mt hw.hasStray_append.1 hnone)
    rw [List.count_append]
    exact Even.add_odd hw.outside hodd

/-- Where no token begins, the first character is at fault. -/
theorem failsBy_of_first {rest : List Char} (hblank : c ≠ ' ')
    (h : first offset c rest = .error fault) : FailsBy offset (c :: rest) fault := by
  unfold first at h
  split at h
  · cases h
  · next hword =>
    split at h
    · next hquote =>
      subst hquote
      split at h
      · next hdrop =>
        cases h
        have hrest : '"' ∉ rest := by
          intro hmem
          simpa using List.dropWhile_eq_nil_iff.1 hdrop _ hmem
        have hodd : Odd (('"' :: rest).count '"') := by
          rw [List.count_cons_self, List.count_eq_zero.2 hrest]
          decide
        exact @FailsBy.unpaired offset _ [] rest rfl hrest hodd (not_hasStray_quote hrest)
      · cases h
    · next hquote =>
      split at h
      · cases h
      · next hmark =>
        cases h
        have hc := not_canStand (Bool.eq_false_iff.2 hword) hblank hquote hmark
        exact @FailsBy.stray offset _ [] rest c rfl ⟨.zero, hc⟩ (by decide)

theorem failsBy_of_scan (h : scan offset cs = .error fault) : FailsBy offset cs fault := by
  fun_induction scan offset cs with
  | case1 => cases h
  | case2 offset rest ih => exact (ih h).append balanced_blank
  | case3 offset c rest hblank _ hfirst =>
    cases h
    exact failsBy_of_first hblank hfirst
  | case4 offset c rest _ t after hfirst ih =>
    obtain ⟨hnext, hs⟩ := next_of_first hfirst
    cases hscan : scan t.span.stop after with
    | ok ts => rw [hscan] at h; cases h
    | error fault' =>
      rw [hscan] at h
      cases h
      have hfails := ih hscan
      rw [hnext.span_eq] at hfails
      rw [hs]
      exact hfails.append (balanced_spelling hnext.kind_ne hnext.proper)

/-! ### There is one fault at most -/

/-- Of two places in a list one is further back, unless they are the same. -/
theorem append_cons_cases {before' after' : List Char} {d : Char}
    (h : before ++ c :: after = before' ++ d :: after') :
    (before = before' ∧ c = d ∧ after = after')
      ∨ (∃ mid, before' = before ++ c :: mid ∧ after = mid ++ d :: after')
      ∨ ∃ mid, before = before' ++ d :: mid ∧ after' = mid ++ c :: after := by
  rcases List.append_eq_append_iff.1 h with ⟨mid, rfl, hmid⟩ | ⟨mid, rfl, hmid⟩
  · cases mid with
    | nil => exact .inl (by simpa using hmid)
    | cons _ mid =>
      obtain ⟨rfl, rfl⟩ := List.cons.inj hmid
      exact .inr (.inl ⟨mid, rfl, rfl⟩)
  · cases mid with
    | nil => exact .inl (by simpa [eq_comm] using hmid)
    | cons _ mid =>
      obtain ⟨rfl, rfl⟩ := List.cons.inj hmid
      exact .inr (.inr ⟨mid, rfl, rfl⟩)

theorem FailsBy.unique {fault' : LexicalFault} (h : FailsBy offset cs fault)
    (h' : FailsBy offset cs fault') : fault = fault' := by
  cases h with
  | @stray before after c hcs hstray hfirst =>
    cases h' with
    | @stray before' after' d hcs' hstray' hfirst' =>
      rcases append_cons_cases (hcs.symm.trans hcs') with ⟨rfl, rfl, -⟩ | ⟨mid, rfl, -⟩ | ⟨mid, rfl, -⟩
      · rfl
      · exact absurd ⟨before, c, mid, rfl, hstray⟩ hfirst'
      · exact absurd ⟨before', d, mid, rfl, hstray'⟩ hfirst
    | unpaired _ _ _ hnone => exact absurd ⟨before, c, after, hcs, hstray⟩ hnone
  | @unpaired before after hcs hlast _ hnone =>
    cases h' with
    | @stray before' after' d hcs' hstray' _ =>
      exact absurd ⟨before', d, after', hcs', hstray'⟩ hnone
    | @unpaired before' after' hcs' hlast' _ _ =>
      rcases append_cons_cases (hcs.symm.trans hcs') with ⟨rfl, -, rfl⟩ | ⟨mid, -, rfl⟩ | ⟨mid, -, rfl⟩
      · rfl
      · exact absurd (by simp) hlast
      · exact absurd (by simp) hlast'

theorem FailsBy.not_balanced (h : FailsBy offset cs fault) : ¬Balanced cs := by
  intro hbalanced
  cases h with
  | stray hcs hstray _ => exact hbalanced.no_stray ⟨_, _, _, hcs, hstray⟩
  | unpaired _ _ hodd _ => exact Nat.not_odd_iff_even.2 hbalanced.outside hodd

/-- Scanning fails by the parity of quotes. -/
theorem scan_eq_error_iff : scan offset cs = .error fault ↔ FailsBy offset cs fault := by
  constructor
  · exact failsBy_of_scan
  · intro h
    cases hscan : scan offset cs with
    | ok ts => exact absurd (scan_eq_ok_iff.1 hscan).balanced h.not_balanced
    | error fault' => rw [h.unique (failsBy_of_scan hscan)]

theorem exists_scan_iff : (∃ ts, scan offset cs = .ok ts) ↔ Balanced cs := by
  constructor
  · intro ⟨ts, h⟩
    exact (scan_eq_ok_iff.1 h).balanced
  · intro h
    cases hscan : scan offset cs with
    | ok ts => exact ⟨ts, rfl⟩
    | error fault => exact absurd h (failsBy_of_scan hscan).not_balanced

end Token

open Token (Balanced FailsBy HasStray)

namespace Token.FailsBy

variable {cs : List Char} {fault : LexicalFault} {offset : Nat}

/-- Which of the two faults it is. -/
theorem cause_cases (h : FailsBy offset cs fault) :
    fault.cause = .unexpectedCharacter ∧ HasStray cs
      ∨ fault.cause = .unterminatedText ∧ ¬HasStray cs ∧ Odd (cs.count '"') := by
  cases h with
  | stray hcs hstray _ => exact .inl ⟨rfl, _, _, _, hcs, hstray⟩
  | unpaired _ _ hodd hnone => exact .inr ⟨rfl, hnone, hodd⟩

/-- The fragment stands where the fault says. -/
theorem exists_delimits {line : String} (h : FailsBy 0 line.toList fault) :
    fault.fragment.toList ≠ [] ∧ ∃ before after,
      fault.span.Delimits line before fault.fragment.toList after := by
  cases h with
  | @stray before after c hcs _ _ =>
    refine ⟨by simp [LexicalFault.behind], before, after, ?_⟩
    exact LexicalFault.delimits_behind hcs
  | @unpaired before after hcs _ _ _ =>
    refine ⟨by simp [LexicalFault.behind], before, [], ?_⟩
    exact LexicalFault.delimits_behind (by rw [hcs, List.append_nil])

/-- The fragment is what the span cuts out of the line. -/
theorem fragment_eq {line : String} (h : FailsBy 0 line.toList fault) :
    String.Pos.Raw.IsValid line ⟨fault.span.start⟩ ∧ String.Pos.Raw.IsValid line ⟨fault.span.stop⟩
      ∧ line.toUTF8.extract fault.span.start fault.span.stop = fault.fragment.toUTF8 := by
  obtain ⟨-, before, after, hdelimits⟩ := h.exists_delimits
  refine ⟨hdelimits.isValid_start, hdelimits.isValid_stop, ?_⟩
  rw [hdelimits.extract_eq, String.toUTF8_eq_toByteArray, ← String.utf8Encode_toList]

end Token.FailsBy

theorem tokenize_eq_error_iff {line : String} {e : AssemblyError} :
    tokenize line = .error e ↔
      ∃ fault, FailsBy 0 line.toList fault ∧ e = .lexical ⟨fault, line⟩ := by
  simp only [← Token.scan_eq_error_iff]
  unfold tokenize TokenStream.ofLine
  split
  · next fault hscan => simp [hscan, Except.mapError, eq_comm]
  · next body hscan => simp [hscan, Except.mapError]

theorem tokenize_eq_lexical_iff {line : String} {e : LexicalError} :
    tokenize line = .error (.lexical e) ↔
      FailsBy 0 line.toList e.toLexicalFault ∧ e.line = line := by
  rw [tokenize_eq_error_iff]
  constructor
  · intro h
    obtain ⟨fault, hfails, heq⟩ := h
    cases heq
    exact ⟨hfails, rfl⟩
  · intro h
    obtain ⟨hfails, rfl⟩ := h
    exact ⟨e.toLexicalFault, hfails, rfl⟩

theorem exists_tokenize_iff {line : String} :
    (∃ s, tokenize line = .ok s) ↔ Balanced line.toList := by
  rw [← @Token.exists_scan_iff 0]
  constructor
  · intro ⟨s, hs⟩
    exact ⟨s.body, (TokenStream.of_tokenize hs).1⟩
  · intro ⟨ts, hscan⟩
    obtain ⟨s, hs, -⟩ := TokenStream.exists_of_scan hscan
    exact ⟨s, hs⟩

theorem exists_error_of_not_balanced {line : String} (h : ¬Balanced line.toList) :
    ∃ fault, FailsBy 0 line.toList fault ∧ tokenize line = .error (.lexical ⟨fault, line⟩) := by
  cases htokenize : tokenize line with
  | ok s => exact absurd (exists_tokenize_iff.1 ⟨s, htokenize⟩) h
  | error e =>
    obtain ⟨fault, hfails, rfl⟩ := tokenize_eq_error_iff.1 htokenize
    exact ⟨fault, hfails, rfl⟩

/-- **A line fails by the parity of its quotes.** The fault of a line is the one that
`Token.FailsBy` names. There is an unexpected character just when some character outside of
texts cannot stand there, without one there is an unterminated text just when the quotes are
odd in number, and otherwise the line has tokens. The fragment of a fault is what its span
cuts out of the line. -/
theorem tokenize_by_quoteParity (line : String) :
    (∀ e, tokenize line = .error e ↔
        ∃ fault, FailsBy 0 line.toList fault ∧ e = .lexical ⟨fault, line⟩)
      ∧ ((∃ e, tokenize line = .error (.lexical e) ∧ e.cause = .unexpectedCharacter) ↔
        HasStray line.toList)
      ∧ ((∃ e, tokenize line = .error (.lexical e) ∧ e.cause = .unterminatedText) ↔
        ¬HasStray line.toList ∧ Odd (line.toList.count '"'))
      ∧ ((∃ s, tokenize line = .ok s) ↔
        ¬HasStray line.toList ∧ Even (line.toList.count '"'))
      ∧ ∀ e, tokenize line = .error (.lexical e) →
        e.line = line ∧ String.Pos.Raw.IsValid line ⟨e.span.start⟩
          ∧ String.Pos.Raw.IsValid line ⟨e.span.stop⟩
          ∧ line.toUTF8.extract e.span.start e.span.stop = e.fragment.toUTF8 := by
  have hfails (e : LexicalError) (h : tokenize line = .error (.lexical e)) :
      FailsBy 0 line.toList e.toLexicalFault ∧ e.line = line := by
    obtain ⟨fault, hfault, heq⟩ := tokenize_eq_error_iff.1 h
    cases heq
    exact ⟨hfault, rfl⟩
  refine ⟨fun e => tokenize_eq_error_iff, ⟨?_, ?_⟩, ⟨?_, ?_⟩, ?_, ?_⟩
  · intro ⟨e, he, hcause⟩
    rcases (hfails e he).1.cause_cases with ⟨-, hstray⟩ | ⟨hother, -⟩
    · exact hstray
    · rw [hcause] at hother
      cases hother
  · intro hstray
    obtain ⟨fault, hfault, he⟩ := exists_error_of_not_balanced fun h => h.no_stray hstray
    rcases hfault.cause_cases with ⟨hcause, -⟩ | ⟨-, hnone, -⟩
    · exact ⟨_, he, hcause⟩
    · exact absurd hstray hnone
  · intro ⟨e, he, hcause⟩
    rcases (hfails e he).1.cause_cases with ⟨hother, -⟩ | ⟨-, hunpaired⟩
    · rw [hcause] at hother
      cases hother
    · exact hunpaired
  · intro ⟨hnone, hodd⟩
    obtain ⟨fault, hfault, he⟩ := exists_error_of_not_balanced fun h =>
      Nat.not_even_iff_odd.2 hodd h.outside
    rcases hfault.cause_cases with ⟨-, hstray⟩ | ⟨hcause, -⟩
    · exact absurd hstray hnone
    · exact ⟨_, he, hcause⟩
  · rw [exists_tokenize_iff]
    exact ⟨fun h => ⟨h.no_stray, h.outside⟩, fun h => ⟨h.1, h.2⟩⟩
  · intro e he
    exact ⟨(hfails e he).2, (hfails e he).1.fragment_eq⟩

/-- The letter between quotes is no fault, the same letter behind them is, and the quote at the
end, which has no partner, is never looked at. -/
theorem tokenize_strayBeforeUnpaired :
    tokenize "a \"é;\" é; \"" =
        .error (.lexical ⟨⟨.unexpectedCharacter, "é", ⟨8, 10⟩⟩, "a \"é;\" é; \""⟩)
      ∧ "a \"é;\" é; \"".toUTF8.extract 8 10 = "é".toUTF8 := by
  have hfails : FailsBy 0 "a \"é;\" é; \"".toList ⟨.unexpectedCharacter, "é", ⟨8, 10⟩⟩ :=
    @FailsBy.stray 0 _ "a \"é;\" ".toList "; \"".toList 'é' rfl (by decide) (by decide)
  have htokenize := ((tokenize_by_quoteParity _).1 _).2 ⟨_, hfails, rfl⟩
  exact ⟨htokenize, ((tokenize_by_quoteParity _).2.2.2.2 _ htokenize).2.2.2⟩

end CommandLine
