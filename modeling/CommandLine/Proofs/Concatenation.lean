import CommandLine.Proofs.LexicalGrammar
import CommandLine.Proofs.QuoteParity
import CommandLine.Proofs.Splicing
/-!
# CommandLine.Proofs.Concatenation

**Lines that are put together.** The scanner can be resumed behind everything that it has read:
what stands apart from it is scanned as if it stood alone, only further back in the line
(`Token.scan_append`, `Token.scan_moved`). A blank keeps any two lines apart.

What becomes of a fault when more characters follow depends on its cause. An unexpected character
stays where it is and what it is (`Token.FailsBy.append_right`). A text that has not ended takes
everything up to the next quote, so one quote more makes it a token
(`Token.FailsBy.exists_closed`). Together these say how tokens and faults of a line come from
those of its parts (`tokenize_concatenation`).
-/

namespace CommandLine

/-- The fault, `k` bytes further back in the line. -/
def LexicalFault.moved (k : Nat) (fault : LexicalFault) : LexicalFault :=
  { fault with span := fault.span.moved k }

theorem LexicalFault.moved_behind (offset k : Nat) (before w : List Char)
    (cause : LexicalError.Cause) :
    (behind offset before w cause).moved k = behind (offset + k) before w cause := by
  simp only [behind, moved, Span.moved, Nat.add_right_comm]

namespace Token

open Text (byteLength byteLength_append byteLength_cons)

variable {offset : Nat} {cs ds before content : List Char} {ts : List Token} {fault : LexicalFault}

/-! ### Going on with a scan -/

/-- Behind what was read, scanning goes on as if it began there. -/
theorem scan_append (h : scan offset cs = .ok ts) (hapart : Apart ds) :
    scan offset (cs ++ ds) = (scan (offset + byteLength cs) ds).map (ts ++ ·) := by
  have hreads := scan_eq_ok_iff.1 h
  cases hds : scan (offset + byteLength cs) ds with
  | ok us => exact scan_eq_ok_iff.2 (hreads.append hapart (scan_eq_ok_iff.1 hds))
  | error fault => exact scan_eq_error_iff.2 ((scan_eq_error_iff.1 hds).append hreads.balanced)

/-- The same characters further back fail for the same reason, further back. -/
theorem FailsBy.moved (h : FailsBy offset cs fault) (k : Nat) :
    FailsBy (offset + k) cs (fault.moved k) := by
  cases h with
  | stray hcs hstray hfirst =>
    rw [LexicalFault.moved_behind]
    exact .stray hcs hstray hfirst
  | unpaired hcs hlast hodd hnone =>
    rw [LexicalFault.moved_behind]
    exact .unpaired hcs hlast hodd hnone

/-- Further back in the line everything is as it was, further back. -/
theorem scan_moved (offset k : Nat) (cs : List Char) :
    scan (offset + k) cs =
      ((scan offset cs).map (List.map (Token.moved k))).mapError (LexicalFault.moved k) := by
  cases h : scan offset cs with
  | ok ts => exact scan_eq_ok_iff.2 ((scan_eq_ok_iff.1 h).moved k)
  | error fault => exact scan_eq_error_iff.2 ((scan_eq_error_iff.1 h).moved k)

/-- Behind a blank, the tokens and the faults of a line are what they are alone. -/
theorem scan_append_blank (h : scan 0 cs = .ok ts) (ds : List Char) :
    scan 0 (cs ++ ' ' :: ds) =
      ((scan 0 ds).map fun us => ts ++ us.map (Token.moved (byteLength cs + 1))).mapError
        (LexicalFault.moved (byteLength cs + 1)) := by
  rw [scan_append h (apart_cons.2 rfl), scan_blank, Nat.add_assoc, scan_moved]
  cases scan 0 ds <;> rfl

/-! ### Going on behind a fault -/

/-- What follows a stray character is never looked at. -/
theorem FailsBy.append_right (h : FailsBy offset cs fault)
    (hcause : fault.cause = .unexpectedCharacter) (ds : List Char) :
    FailsBy offset (cs ++ ds) fault := by
  cases h with
  | @stray before after c hcs hstray hfirst =>
    have hcs' : cs ++ ds = before ++ c :: (after ++ ds) := by
      rw [hcs, List.append_assoc, List.cons_append]
    exact .stray hcs' hstray hfirst
  | unpaired => cases hcause

/-- In front of the last of an odd number of quotes everything is in order, if the line is so up
to there. -/
theorem balanced_before_last (hcontent : '"' ∉ content)
    (hodd : Odd ((before ++ '"' :: content).count '"'))
    (hnone : ¬HasStray (before ++ '"' :: content)) : Balanced before where
  no_stray := fun hstray => hnone (hasStray_append.2 (.inl hstray))
  outside := by
    rw [List.count_append, List.count_cons_self, List.count_eq_zero.2 hcontent] at hodd
    exact Nat.not_odd_iff_even.1 fun hbefore =>
      Nat.not_odd_iff_even.2 (hbefore.add_odd odd_one) hodd

/-- A quote ends the text that has not ended. -/
theorem FailsBy.exists_closed (h : FailsBy offset cs fault)
    (hcause : fault.cause = .unterminatedText) :
    ∃ front content ts, cs = front ++ '"' :: content
      ∧ fault.span.start = offset + byteLength front ∧ scan offset front = .ok ts
      ∧ scan offset (cs ++ ['"']) = .ok (ts ++ [⟨.text, String.ofList content,
        ⟨fault.span.start, offset + byteLength cs + 1⟩⟩]) := by
  cases h with
  | stray => cases hcause
  | @unpaired front content hcs hlast hodd hnone =>
    subst hcs
    obtain ⟨ts, hts⟩ := exists_scan_iff.2 (balanced_before_last hlast hodd hnone)
    refine ⟨front, content, ts, rfl, rfl, hts, ?_⟩
    have hquote : '"'.utf8Size = 1 := rfl
    have hstop : offset + byteLength (front ++ '"' :: content) + 1
        = offset + byteLength front + byteLength content + 2 := by
      rw [byteLength_append, byteLength_cons, hquote]
      omega
    have hnext := @next_text (offset + byteLength front) [] (.ofList content)
      (by rwa [String.toList_ofList])
    rw [String.toList_ofList, ← hstop] at hnext
    have hscan := scan_next hnext
    rw [spelling_text, String.toList_ofList, List.append_nil] at hscan
    rw [List.append_assoc, List.cons_append, scan_append hts (apart_cons.2 rfl), hscan]
    rw [scan]
    rfl

end Token

/-! ### Whole lines -/

theorem toList_joined (a b : String) : (a ++ " " ++ b).toList = a.toList ++ ' ' :: b.toList := by
  simp

theorem utf8ByteSize_joined (a b : String) :
    (a ++ " " ++ b).utf8ByteSize = a.utf8ByteSize + 1 + b.utf8ByteSize := by
  rw [String.utf8ByteSize_append, String.utf8ByteSize_append]
  rfl

section

variable {a b : String} {s u : TokenStream} {e : LexicalError}

theorem scan_joined (hs : tokenize a = .ok s) (b : String) :
    Token.scan 0 (a ++ " " ++ b).toList =
      ((Token.scan 0 b.toList).map fun us =>
        s.body ++ us.map (Token.moved (a.utf8ByteSize + 1))).mapError
          (LexicalFault.moved (a.utf8ByteSize + 1)) := by
  obtain ⟨hscan, -, -⟩ := TokenStream.of_tokenize hs
  rw [toList_joined, Token.scan_append_blank hscan, Text.utf8ByteSize_eq]

theorem exists_tokenize_joined (hs : tokenize a = .ok s) (hu : tokenize b = .ok u) :
    ∃ v, tokenize (a ++ " " ++ b) = .ok v
      ∧ v.tokens = s.body ++ u.tokens.map (Token.moved (a.utf8ByteSize + 1)) := by
  obtain ⟨huscan, hterminal, -⟩ := TokenStream.of_tokenize hu
  have hjoined := scan_joined hs b
  rw [huscan] at hjoined
  refine LexicalGrammar.tokenize_eq_ok_iff.2 ⟨_, ?_, Token.scan_eq_ok_iff.1 hjoined⟩
  have hend : u.terminal.moved (a.utf8ByteSize + 1)
      = ⟨.terminal, "", .empty (a ++ " " ++ b).utf8ByteSize⟩ := by
    rw [hterminal, utf8ByteSize_joined, ← Text.utf8ByteSize_eq, Nat.add_comm _ b.utf8ByteSize]
    rfl
  rw [TokenStream.tokens, List.map_append, List.map_singleton, hend, List.append_assoc]

theorem tokenize_joined_error (hs : tokenize a = .ok s) (he : tokenize b = .error (.lexical e)) :
    tokenize (a ++ " " ++ b) = .error (.lexical
      ⟨e.toLexicalFault.moved (a.utf8ByteSize + 1), a ++ " " ++ b⟩) := by
  have hjoined := scan_joined hs b
  rw [Token.scan_eq_error_iff.2 (tokenize_eq_lexical_iff.1 he).1] at hjoined
  exact tokenize_eq_lexical_iff.2 ⟨Token.scan_eq_error_iff.1 hjoined, rfl⟩

theorem tokenize_append_error (he : tokenize a = .error (.lexical e))
    (hcause : e.cause = .unexpectedCharacter) (b : String) :
    tokenize (a ++ b) = .error (.lexical ⟨e.toLexicalFault, a ++ b⟩) := by
  have hfails := (tokenize_eq_lexical_iff.1 he).1.append_right hcause b.toList
  rw [← String.toList_append] at hfails
  exact tokenize_eq_lexical_iff.2 ⟨hfails, rfl⟩

theorem exists_tokenize_closed (he : tokenize a = .error (.lexical e))
    (hcause : e.cause = .unterminatedText) :
    ∃ front content s v, a = front ++ "\"" ++ content ∧ front.utf8ByteSize = e.span.start
      ∧ tokenize front = .ok s ∧ tokenize (a ++ "\"") = .ok v
      ∧ v.tokens = s.body ++ [⟨.text, content, ⟨e.span.start, a.utf8ByteSize + 1⟩⟩,
        ⟨.terminal, "", .empty (a.utf8ByteSize + 1)⟩] := by
  obtain ⟨front, content, ts, ha, hstart, hfront, hclosed⟩ :=
    (tokenize_eq_lexical_iff.1 he).1.exists_closed hcause
  rw [Nat.zero_add] at hstart hclosed
  rw [← String.toList_ofList (l := front)] at hfront hstart
  rw [← Text.utf8ByteSize_eq] at hstart hclosed
  obtain ⟨s, hs, hbody⟩ := TokenStream.exists_of_scan hfront
  have hline : (a ++ "\"").toList = a.toList ++ ['"'] := String.toList_append
  rw [← hline] at hclosed
  obtain ⟨v, hv, htokens⟩ := LexicalGrammar.tokenize_eq_ok_iff.2
    ⟨_, rfl, Token.scan_eq_ok_iff.1 hclosed⟩
  refine ⟨.ofList front, .ofList content, s, v, String.toList_injective ?_, hstart.symm, hs, hv, ?_⟩
  · simpa using ha
  · rw [htokens, hbody, String.utf8ByteSize_append, List.append_assoc]
    rfl

end

/-- **Lines are scanned part by part.** A line that has tokens can be followed by a blank and any
other line. Together they have tokens just when the other line has; these are the tokens of both,
those of the second one moved, and a fault of the second one is moved as they are. An unexpected
character is at fault whatever follows it. A text that has not ended becomes a token by a quote at
the end of the line, behind the tokens of what is in front of it. -/
theorem tokenize_concatenation (a : String) :
    (∀ s, tokenize a = .ok s → ∀ b,
      ((∃ v, tokenize (a ++ " " ++ b) = .ok v) ↔ ∃ u, tokenize b = .ok u)
        ∧ (∀ u, tokenize b = .ok u → ∃ v, tokenize (a ++ " " ++ b) = .ok v
          ∧ v.tokens = s.body ++ u.tokens.map (Token.moved (a.utf8ByteSize + 1)))
        ∧ ∀ e, tokenize b = .error (.lexical e) → tokenize (a ++ " " ++ b) =
          .error (.lexical ⟨e.toLexicalFault.moved (a.utf8ByteSize + 1), a ++ " " ++ b⟩))
      ∧ ∀ e, tokenize a = .error (.lexical e) →
        (e.cause = .unexpectedCharacter → ∀ b,
          tokenize (a ++ b) = .error (.lexical ⟨e.toLexicalFault, a ++ b⟩))
        ∧ (e.cause = .unterminatedText → ∃ front content s v, a = front ++ "\"" ++ content
          ∧ front.utf8ByteSize = e.span.start ∧ tokenize front = .ok s
          ∧ tokenize (a ++ "\"") = .ok v
          ∧ v.tokens = s.body ++ [⟨.text, content, ⟨e.span.start, a.utf8ByteSize + 1⟩⟩,
            ⟨.terminal, "", .empty (a.utf8ByteSize + 1)⟩]) := by
  refine ⟨fun s hs b => ⟨⟨fun h => ?_, fun h => ?_⟩, fun u hu => exists_tokenize_joined hs hu,
    fun e he => tokenize_joined_error hs he⟩, fun e he =>
    ⟨tokenize_append_error he, exists_tokenize_closed he⟩⟩
  · obtain ⟨v, hv⟩ := h
    cases hb : tokenize b with
    | ok u => exact ⟨u, rfl⟩
    | error e =>
      obtain ⟨fault, -, rfl⟩ := tokenize_eq_error_iff.1 hb
      rw [tokenize_joined_error hs hb] at hv
      cases hv
  · obtain ⟨u, hu⟩ := h
    obtain ⟨v, hv, -⟩ := exists_tokenize_joined hs hu
    exact ⟨v, hv⟩

/-- The letter takes two bytes. Its text needs one quote more, and the semicolon that stands behind
the text and a blank is at fault with or without another quote at the end of the line. -/
theorem concatenation_multibyte :
    (∃ front content s v, "+\"é" = front ++ "\"" ++ content ∧ front.utf8ByteSize = 1
        ∧ tokenize front = .ok s ∧ tokenize "+\"é\"" = .ok v
        ∧ v.tokens = s.body ++ [⟨.text, content, ⟨1, 5⟩⟩, ⟨.terminal, "", .empty 5⟩])
      ∧ tokenize "+\"é\" x;" = .error (.lexical ⟨⟨.unexpectedCharacter, ";", ⟨7, 8⟩⟩, "+\"é\" x;"⟩)
      ∧ tokenize "+\"é\" x;\"" =
        .error (.lexical ⟨⟨.unexpectedCharacter, ";", ⟨7, 8⟩⟩, "+\"é\" x;\""⟩) := by
  have hopen : tokenize "+\"é" =
      .error (.lexical ⟨⟨.unterminatedText, "\"é", ⟨1, 4⟩⟩, "+\"é"⟩) := by
    decide +kernel
  have hstray : tokenize "x;" = .error (.lexical ⟨⟨.unexpectedCharacter, ";", ⟨1, 2⟩⟩, "x;"⟩) := by
    decide +kernel
  have hclosed := ((tokenize_concatenation "+\"é").2 _ hopen).2 rfl
  obtain ⟨front, content, s, v, hline, hstart, hs, hv, htokens⟩ := hclosed
  have hjoined := ((tokenize_concatenation "+\"é\"").1 v hv "x;").2.2 _ hstray
  have hfollowed := ((tokenize_concatenation "+\"é\" x;").2 _ hjoined).1 rfl "\""
  exact ⟨⟨front, content, s, v, hline, hstart, hs, hv, htokens⟩, hjoined, hfollowed⟩

end CommandLine
