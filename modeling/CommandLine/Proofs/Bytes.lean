import CommandLine.Span
import CommandLine.Text.Bytes
/-!
# CommandLine.Proofs.Bytes

**Bytes of a text and its characters.** Positions in a line are offsets into its UTF-8
bytes, the scanner goes over its characters. The lemmas here carry facts from one view to
the other at an offset that is known to lie between two characters.

The point is `Text.exists_of_extract`: if the bytes from such an offset on are those of some
characters, then these characters stand there. So an offset that bytes alone name turns out
to lie between characters too.

`Span.Delimits` says of a span that it is that of some characters of a line. All that is needed
of such a span follows from it: where it begins and ends, and the bytes that it cuts out.
-/

namespace CommandLine

namespace Text

theorem size_utf8Encode (cs : List Char) : cs.utf8Encode.size = byteLength cs := by
  induction cs with
  | nil => rfl
  | cons c cs ih =>
    rw [List.utf8Encode_cons, ByteArray.size_append, ih, List.utf8Encode_singleton,
      List.size_toByteArray, String.length_utf8EncodeChar, byteLength_cons]

theorem byteLength_eq_zero_iff {cs : List Char} : byteLength cs = 0 ↔ cs = [] := by
  cases cs with
  | nil => simp
  | cons c cs =>
    have := c.utf8Size_pos
    rw [byteLength_cons]
    exact ⟨fun h => absurd h (by omega), nofun⟩

theorem utf8ByteSize_eq (line : String) : line.utf8ByteSize = byteLength line.toList := by
  rw [← size_utf8Encode, String.utf8Encode_toList, String.size_toByteArray]

/-- The bytes of a text are those of its parts. -/
theorem toUTF8_of_toList {line : String} {before cs : List Char}
    (h : line.toList = before ++ cs) : line.toUTF8 = before.utf8Encode ++ cs.utf8Encode := by
  rw [String.toUTF8_eq_toByteArray, ← String.utf8Encode_toList, h, List.utf8Encode_append]

/-- The bytes that belong to characters in the middle of a text. -/
theorem extract_of_toList {line : String} {before w after : List Char}
    (h : line.toList = before ++ w ++ after) :
    line.toUTF8.extract (byteLength before) (byteLength before + byteLength w)
      = w.utf8Encode := by
  rw [List.append_assoc] at h
  have hextract := ByteArray.extract_append_size_add' (b := (w ++ after).utf8Encode) (i := 0)
    (j := byteLength w) (size_utf8Encode before).symm
  rw [Nat.add_zero] at hextract
  rw [toUTF8_of_toList h, hextract, List.utf8Encode_append]
  exact ByteArray.extract_append_eq_left (size_utf8Encode w).symm

/-- Characters whose bytes follow on an offset between two characters stand there. -/
theorem exists_of_extract {line : String} {before cs w : List Char} {stop : Nat}
    (hline : line.toList = before ++ cs) (hstart : byteLength before ≤ stop)
    (hstop : stop ≤ line.utf8ByteSize)
    (h : line.toUTF8.extract (byteLength before) stop = w.utf8Encode) :
    ∃ after, cs = w ++ after ∧ stop = byteLength before + byteLength w := by
  obtain ⟨k, rfl⟩ := Nat.exists_eq_add_of_le hstart
  have hk : k ≤ cs.utf8Encode.size := by
    rw [utf8ByteSize_eq, hline, byteLength_append] at hstop
    rw [size_utf8Encode]
    omega
  have hextract := ByteArray.extract_append_size_add' (b := cs.utf8Encode) (i := 0)
    (j := k) (size_utf8Encode before).symm
  rw [toUTF8_of_toList hline] at h
  rw [Nat.add_zero, h] at hextract
  -- the bytes of `cs` begin with those of `w`, and no character begins inside another one
  have hcs : w.utf8Encode ++ cs.utf8Encode.extract k cs.utf8Encode.size = cs.utf8Encode := by
    rw [hextract, ← ByteArray.extract_eq_extract_append_extract k (Nat.zero_le k) hk,
      ByteArray.extract_zero_size]
  obtain ⟨after, rfl⟩ := List.isPrefix_of_utf8Encode_append_eq_utf8Encode _ hcs
  refine ⟨after, rfl, ?_⟩
  have hsize := congrArg ByteArray.size hextract
  rw [size_utf8Encode, ByteArray.size_extract] at hsize
  omega

theorem lt_size_of_toList {line : String} {before cs : List Char} {c : Char}
    (h : line.toList = before ++ c :: cs) : byteLength before < line.toUTF8.size := by
  have := c.utf8Size_pos
  rw [String.toUTF8_eq_toByteArray, String.size_toByteArray, utf8ByteSize_eq, h,
    byteLength_append, byteLength_cons]
  omega

/-- Only a blank has the byte `0x20` as its first one. -/
theorem getElem_eq_blank_iff {line : String} {before cs : List Char} {c : Char}
    (h : line.toList = before ++ c :: cs) (hlt : byteLength before < line.toUTF8.size) :
    line.toUTF8[byteLength before] = 0x20 ↔ c = ' ' := by
  have hone := ByteArray.extract_add_one hlt
  have hblank : [' '].utf8Encode = [(0x20 : UInt8)].toByteArray := rfl
  constructor
  · intro hbyte
    rw [hbyte, ← hblank] at hone
    obtain ⟨after, hafter, -⟩ := exists_of_extract h (Nat.le_succ _) hlt hone
    exact (List.cons.inj hafter).1
  · rintro rfl
    rw [List.append_cons] at h
    have hwidth : byteLength [' '] = 1 := rfl
    have hextract := extract_of_toList h
    rw [hwidth, hone, hblank] at hextract
    have hlist := congrArg (fun bytes => bytes.data.toList) hextract
    simpa only [List.toList_data_toByteArray, List.cons.injEq, and_true] using hlist

/-- An offset behind some characters of a text lies between two characters. -/
theorem isValid_of_toList {line : String} {before cs : List Char}
    (h : line.toList = before ++ cs) : String.Pos.Raw.IsValid line ⟨byteLength before⟩ := by
  refine String.Pos.Raw.isValid_iff_exists_append.2 ⟨.ofList before, .ofList cs, ?_, ?_⟩
  · rw [← String.ofList_append, ← h, String.ofList_toList]
  · rw [String.Pos.Raw.ext_iff, String.byteIdx_rawEndPos, utf8ByteSize_eq, String.toList_ofList]

end Text

/-- The span is that of the characters `mid`, between `before` and `after`. -/
structure Span.Delimits (span : Span) (line : String) (before mid after : List Char) : Prop where
  line_eq : line.toList = before ++ (mid ++ after)
  start_eq : span.start = Text.byteLength before
  stop_eq : span.stop = Text.byteLength before + Text.byteLength mid

namespace Span.Delimits

open Text

variable {line : String} {span : Span} {before mid after : List Char}

theorem line_eq' (h : span.Delimits line before mid after) :
    line.toList = before ++ mid ++ after := by
  rw [h.line_eq, List.append_assoc]

theorem cutAtByte_start (h : span.Delimits line before mid after) :
    cutAtByte span.start line.toList = (before, mid ++ after) := by
  rw [h.start_eq, h.line_eq, cutAtByte_byteLength]

theorem cutAtByte_stop (h : span.Delimits line before mid after) :
    cutAtByte span.stop line.toList = (before ++ mid, after) := by
  rw [h.stop_eq, h.line_eq', ← byteLength_append, cutAtByte_byteLength]

/-- A span between characters cuts their bytes out of the line. -/
theorem extract_eq (h : span.Delimits line before mid after) :
    line.toUTF8.extract span.start span.stop = mid.utf8Encode := by
  rw [h.start_eq, h.stop_eq]
  exact extract_of_toList h.line_eq'

theorem extract_before (h : span.Delimits line before mid after) :
    line.toUTF8.extract 0 span.start = before.utf8Encode := by
  have hextract := @extract_of_toList line [] before (mid ++ after) h.line_eq
  rwa [byteLength_nil, Nat.zero_add, ← h.start_eq] at hextract

theorem extract_after (h : span.Delimits line before mid after) :
    line.toUTF8.extract span.stop line.utf8ByteSize = after.utf8Encode := by
  have hsize : line.utf8ByteSize = byteLength (before ++ mid) + byteLength after := by
    rw [utf8ByteSize_eq, h.line_eq', byteLength_append]
  have hline : line.toList = before ++ mid ++ after ++ [] := by rw [h.line_eq', List.append_nil]
  have hextract := extract_of_toList hline
  rwa [← hsize, byteLength_append, ← h.stop_eq] at hextract

theorem isValid_start (h : span.Delimits line before mid after) :
    String.Pos.Raw.IsValid line ⟨span.start⟩ := by
  rw [h.start_eq]
  exact isValid_of_toList h.line_eq

theorem isValid_stop (h : span.Delimits line before mid after) :
    String.Pos.Raw.IsValid line ⟨span.stop⟩ := by
  rw [h.stop_eq, ← byteLength_append]
  exact isValid_of_toList h.line_eq'

theorem start_le_stop (h : span.Delimits line before mid after) : span.start ≤ span.stop := by
  rw [h.start_eq, h.stop_eq]
  exact Nat.le_add_right ..

theorem stop_le (h : span.Delimits line before mid after) : span.stop ≤ line.utf8ByteSize := by
  rw [h.stop_eq, utf8ByteSize_eq, h.line_eq', byteLength_append, byteLength_append]
  exact Nat.le_add_right ..

/-- A span has no width only if there are no characters in it. -/
theorem start_eq_stop_iff (h : span.Delimits line before mid after) :
    span.start = span.stop ↔ mid = [] := by
  rw [← byteLength_eq_zero_iff, h.start_eq, h.stop_eq]
  omega

end Span.Delimits

end CommandLine
