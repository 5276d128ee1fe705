import CommandLine.Proofs.Spelling
/-!
# CommandLine.Proofs.Splicing

**A line with a part of it replaced.** `Text.splice` puts characters in the place of the bytes
of a span. The tokens of the new line are put together from those of the old one: in front of
the span nothing changes, and behind it the tokens are the same, further back or further ahead
in the line. So there is one lemma for moving (`Token.Reads.moved`); reading the parts one after
the other is `Token.Reads.append`.
-/

namespace CommandLine

/-- The span, `k` bytes further back in the line. -/
def Span.moved (k : Nat) (s : Span) : Span := ⟨s.start + k, s.stop + k⟩

namespace Text

/-- A line with characters in the place of the bytes of a span. -/
def splice (line : String) (span : Span) (w : List Char) : String :=
  .ofList ((cutAtByte span.start line.toList).1 ++ (w ++ (cutAtByte span.stop line.toList).2))

end Text

namespace Span.Delimits

open Text

variable {line : String} {span : Span} {before mid after : List Char}

/-- The characters are replaced, and nothing else. -/
theorem toList_splice (h : span.Delimits line before mid after) (w : List Char) :
    (splice line span w).toList = before ++ (w ++ after) := by
  rw [splice, h.cutAtByte_start, h.cutAtByte_stop, String.toList_ofList]

/-- The bytes in front of the span and behind it are those of the line. -/
theorem toUTF8_splice (h : span.Delimits line before mid after) (w : List Char) :
    (splice line span w).toUTF8 = line.toUTF8.extract 0 span.start ++ w.utf8Encode
      ++ line.toUTF8.extract span.stop line.utf8ByteSize := by
  rw [h.extract_before, h.extract_after, toUTF8_of_toList (h.toList_splice w),
    List.utf8Encode_append, ByteArray.append_assoc]

end Span.Delimits

namespace Token

open Text (byteLength byteLength_append)

/-- The token, `k` bytes further back in the line. -/
def moved (k : Nat) (t : Token) : Token := { t with span := t.span.moved k }

@[simp] theorem spelling_moved (k : Nat) (t : Token) : (t.moved k).spelling = t.spelling := rfl

variable {offset : Nat} {cs : List Char} {t : Token} {ts : List Token}

theorem Next.moved (h : Next offset t cs) (k : Nat) : Next (offset + k) (t.moved k) cs where
  kind_ne := h.kind_ne
  proper := h.proper
  span_eq := by
    have hstop : offset + byteLength t.spelling + k = offset + k + byteLength t.spelling := by
      omega
    show t.span.moved k = _
    rw [h.span_eq, Span.moved, hstop, spelling_moved]
  munch := h.munch

/-- The same characters further back have the same tokens further back. -/
theorem Reads.moved (h : Reads offset cs ts) (k : Nat) :
    Reads (offset + k) cs (ts.map (Token.moved k)) := by
  induction h with
  | done => exact .done
  | @blank offset cs ts _ ih =>
    refine .blank ?_
    rwa [Nat.add_right_comm] at ih
  | @token offset t after ts hnext _ ih =>
    rw [← spelling_moved k]
    exact .token (hnext.moved k) ih

/-- Blanks in front are dropped. -/
theorem Reads.blanks {k : Nat} (h : Reads (offset + k) cs ts) :
    Reads offset (List.replicate k ' ' ++ cs) ts := by
  induction k generalizing offset with
  | zero => exact h
  | succ k ih =>
    rw [List.replicate_succ, List.cons_append]
    refine .blank (ih ?_)
    rwa [Nat.add_right_comm, Nat.add_assoc]

/-- Tokens lie within the characters that they are read from. -/
theorem Reads.inside (h : Reads offset cs ts) (ht : t ∈ ts) :
    offset ≤ t.span.start ∧ t.span.start < t.span.stop
      ∧ t.span.stop ≤ offset + byteLength cs := by
  obtain ⟨before, after, rfl, hnext⟩ := exists_of_mem_reads h ht
  have hlt := hnext.start_lt_stop
  have hspan := hnext.span_eq
  refine ⟨?_, hlt, ?_⟩
  · rw [hspan]
    show offset ≤ offset + byteLength before
    omega
  · rw [hspan, byteLength_append, byteLength_append]
    show offset + byteLength before + byteLength t.spelling ≤ _
    omega

end Token

namespace TokenStream

variable {line : String} {s : TokenStream} {front back : List Token} {w : Token}

/-- A line is cut in three around one of its tokens. What replaces the token is read in its
place, as long as no word in front of it could go on. -/
theorem exists_cut (hs : tokenize line = .ok s) (hbody : s.body = front ++ w :: back) :
    ∃ before after, w.span.Delimits line before w.spelling after ∧ w.Proper
      ∧ Token.Reads w.span.stop after back
      ∧ ∀ u vs, Token.Apart (u ++ after) → Token.Reads w.span.start (u ++ after) vs →
        ∃ s', tokenize (Text.splice line w.span u) = .ok s' ∧ s'.body = front ++ vs := by
  have hreads := Token.scan_eq_ok_iff.1 (of_tokenize hs).1
  rw [hbody] at hreads
  obtain ⟨before, after, hline, hbefore, hnext, hafter⟩ := hreads.exists_of_append_cons
  have hspan := hnext.span_eq
  rw [Nat.zero_add] at hspan
  have hdelimits : w.span.Delimits line before w.spelling after := by
    rw [hspan]
    exact ⟨hline, rfl, rfl⟩
  refine ⟨before, after, hdelimits, hnext.proper, hafter, fun u vs hapart hvs => ?_⟩
  rw [hdelimits.start_eq, ← Nat.zero_add (Text.byteLength before)] at hvs
  have hscan : Token.scan 0 (Text.splice line w.span u).toList = .ok (front ++ vs) := by
    rw [hdelimits.toList_splice]
    exact Token.scan_eq_ok_iff.2 (hbefore.append hapart hvs)
  exact exists_of_scan hscan

end TokenStream

end CommandLine
