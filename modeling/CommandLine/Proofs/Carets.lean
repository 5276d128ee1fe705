import CommandLine.Diagnostic.Caret
import CommandLine.Proofs.Bytes
/-!
# CommandLine.Proofs.Carets

**Carets stand under the characters of a span.** Any two offsets can be a span: the second may lie
before the first, both may lie behind the line or inside a character. `caretLines` cuts the line in
three for them. The same is said here in two other ways.

* `Text.lastBytes` tells for each character where its last byte stands. The characters in front of
  the span are those that end before its start, and those in it the others that end before its
  stop (`Span.Parts`), so they can be counted without a cut.
* `drawCarets?` goes over bytes and offsets, where something can go wrong: to go back to a boundary
  may lead to no place at all, and the part between two offsets is no text if one of them lies
  inside a character. It never does go wrong, and draws the same (`carets_under_characters`).
-/

namespace CommandLine

/-! ### Where characters end -/

namespace Text

/-- Where the last byte of each character stands, if the first character begins at `base`. -/
def lastBytes (base : Nat) : List Char → List Nat
  | [] => []
  | c :: cs => (base + c.utf8Size - 1) :: lastBytes (base + c.utf8Size) cs

variable {base offset p : Nat} {cs : List Char}

@[simp] theorem length_lastBytes (base : Nat) (cs : List Char) :
    (lastBytes base cs).length = cs.length := by
  induction cs generalizing base with
  | nil => rfl
  | cons c cs ih => rw [lastBytes, List.length_cons, List.length_cons, ih]

theorem lastBytes_append (base : Nat) (cs ds : List Char) :
    lastBytes base (cs ++ ds) = lastBytes base cs ++ lastBytes (base + byteLength cs) ds := by
  induction cs generalizing base with
  | nil => rfl
  | cons c cs ih =>
    rw [List.cons_append, lastBytes, ih, lastBytes, List.cons_append, byteLength_cons,
      Nat.add_assoc]

theorem bounds_of_mem_lastBytes (h : p ∈ lastBytes base cs) :
    base ≤ p ∧ p < base + byteLength cs := by
  induction cs generalizing base with
  | nil => cases h
  | cons c cs ih =>
    have hsize := c.utf8Size_pos
    rw [byteLength_cons]
    rcases List.mem_cons.1 h with rfl | h
    · omega
    · have := ih h
      omega

/-- The last byte of some characters is that of the last one of them. -/
theorem pred_mem_lastBytes (base : Nat) (h : cs ≠ []) :
    base + byteLength cs - 1 ∈ lastBytes base cs := by
  induction cs generalizing base with
  | nil => exact absurd rfl h
  | cons c cs ih =>
    rw [lastBytes, byteLength_cons, ← Nat.add_assoc]
    by_cases hcs : cs = []
    · simp [hcs]
    · exact List.mem_cons_of_mem _ (ih _ hcs)

/-- Characters behind a cut do not end before it. -/
theorem le_of_mem_lastBytes_cutAtByte
    (h : p ∈ lastBytes (base + byteLength (cutAtByte offset cs).1) (cutAtByte offset cs).2) :
    base + offset ≤ p := by
  induction cs generalizing base offset with
  | nil => cases h
  | cons c cs ih =>
    rw [cutAtByte] at h
    split at h
    · next hle =>
      rw [byteLength_cons, ← Nat.add_assoc] at h
      have := ih h
      omega
    · next hlt =>
      rw [byteLength_nil, Nat.add_zero] at h
      have hsize := c.utf8Size_pos
      rcases List.mem_cons.1 h with rfl | h
      · omega
      · have := (bounds_of_mem_lastBytes h).1
        omega

/-- A cut loses nothing, and is the last one that does not lie behind the offset. -/
theorem of_cutAtByte {before after : List Char} (h : cutAtByte offset cs = (before, after)) :
    cs = before ++ after ∧ byteLength before ≤ offset
      ∧ ∀ base, ∀ p ∈ lastBytes (base + byteLength before) after, base + offset ≤ p := by
  have happend := cutAtByte_append offset cs
  have hle := byteLength_cutAtByte_le offset cs
  have hbehind : ∀ base,
      ∀ p ∈ lastBytes (base + byteLength (cutAtByte offset cs).1) (cutAtByte offset cs).2,
        base + offset ≤ p := fun _ _ => le_of_mem_lastBytes_cutAtByte
  rw [h] at happend hle hbehind
  exact ⟨happend.symm, hle, hbehind⟩

/-- Offsets between characters are those behind the last byte of one, and the first offset. -/
theorem pred_mem_of_isValid {line : String} {r : Nat} (h : String.Pos.Raw.IsValid line ⟨r⟩)
    (hpos : 0 < r) : r - 1 ∈ lastBytes 0 line.toList := by
  obtain ⟨s, t, rfl, hr⟩ := String.Pos.Raw.isValid_iff_exists_append.1 h
  obtain rfl : r = byteLength s.toList := by
    rw [← utf8ByteSize_eq, ← String.byteIdx_rawEndPos, ← hr]
  have hne : s.toList ≠ [] := by
    intro hnil
    rw [hnil] at hpos
    exact absurd hpos (Nat.lt_irrefl 0)
  have hlast := pred_mem_lastBytes 0 hne
  rw [String.toList_append, lastBytes_append]
  rw [Nat.zero_add] at hlast
  exact List.mem_append_left _ hlast

end Text

open Text

/-! ### Characters in front of a span and in it -/

/-- How many characters of a line end before an offset. -/
def charactersBefore (line : String) (offset : Nat) : Nat :=
  (lastBytes 0 line.toList).countP (· < offset)

/-- How many characters of a line end in a span. -/
def charactersIn (line : String) (span : Span) : Nat :=
  (lastBytes 0 line.toList).countP fun p => span.start ≤ p ∧ p < span.stop

/-- A line in three parts: the characters that end before a span, those that end in it, and the
others. -/
structure Span.Parts (span : Span) (line : String) (before inside after : List Char) : Prop where
  line_eq : line.toList = before ++ (inside ++ after)
  ends_before : ∀ p ∈ lastBytes 0 before, p < span.start
  ends_inside : ∀ p ∈ lastBytes (byteLength before) inside, span.start ≤ p ∧ p < span.stop
  ends_behind : ∀ p ∈ lastBytes (byteLength before + byteLength inside) after,
    span.start ≤ p ∧ span.stop ≤ p

variable {line : String} {span : Span} {before inside after : List Char}

/-- The columns of a span are those of its parts. -/
theorem Span.exists_parts (span : Span) (line : String) :
    ∃ before inside after, span.Parts line before inside after
      ∧ span.columns line.toList = (before.length, inside.length) := by
  rcases hstart : cutAtByte span.start line.toList with ⟨before, rest⟩
  rcases hstop : cutAtByte (span.stop - byteLength before) rest with ⟨inside, after⟩
  obtain ⟨hline, hle, hrest⟩ := of_cutAtByte hstart
  obtain ⟨rfl, hwidth, hafter⟩ := of_cutAtByte hstop
  have hcolumns : span.columns line.toList = (before.length, inside.length) := by
    rw [columns, hstart]
    dsimp only
    rw [hstop]
  have hbehind (p : Nat) (hp : p ∈ lastBytes (byteLength before) (inside ++ after)) :
      span.start ≤ p := by
    have := hrest 0 p (by rwa [Nat.zero_add])
    omega
  rw [lastBytes_append] at hbehind
  refine ⟨before, inside, after, ⟨hline, fun p hp => ?_, fun p hp => ⟨?_, ?_⟩,
    fun p hp => ⟨?_, ?_⟩⟩, hcolumns⟩
  · have := (bounds_of_mem_lastBytes hp).2
    omega
  · exact hbehind p (List.mem_append_left _ hp)
  · have := bounds_of_mem_lastBytes hp
    omega
  · exact hbehind p (List.mem_append_right _ hp)
  · have := hafter (byteLength before) p hp
    omega

namespace Span.Parts

theorem lastBytes_eq (h : span.Parts line before inside after) :
    lastBytes 0 line.toList = lastBytes 0 before ++ (lastBytes (byteLength before) inside
      ++ lastBytes (byteLength before + byteLength inside) after) := by
  rw [h.line_eq, lastBytes_append, lastBytes_append, Nat.zero_add]

theorem charactersBefore_eq (h : span.Parts line before inside after) :
    charactersBefore line span.start = before.length := by
  have hbefore : (lastBytes 0 before).countP (· < span.start) = before.length := by
    rw [← length_lastBytes 0 before, List.countP_eq_length]
    simpa using h.ends_before
  have hinside : (lastBytes (byteLength before) inside).countP (· < span.start) = 0 := by
    simpa [List.countP_eq_zero] using fun p hp => (h.ends_inside p hp).1
  have hafter :
      (lastBytes (byteLength before + byteLength inside) after).countP (· < span.start) = 0 := by
    simpa [List.countP_eq_zero] using fun p hp => (h.ends_behind p hp).1
  rw [charactersBefore, h.lastBytes_eq, List.countP_append, List.countP_append, hbefore, hinside,
    hafter, Nat.add_zero]

theorem charactersIn_eq (h : span.Parts line before inside after) :
    charactersIn line span = inside.length := by
  have hbefore : (lastBytes 0 before).countP (fun p => span.start ≤ p ∧ p < span.stop) = 0 := by
    rw [List.countP_eq_zero]
    intro p hp
    have := h.ends_before p hp
    simp only [decide_eq_true_eq]
    omega
  have hinside : (lastBytes (byteLength before) inside).countP
      (fun p => span.start ≤ p ∧ p < span.stop) = inside.length := by
    rw [← length_lastBytes (byteLength before) inside, List.countP_eq_length]
    simpa using h.ends_inside
  have hafter : (lastBytes (byteLength before + byteLength inside) after).countP
      (fun p => span.start ≤ p ∧ p < span.stop) = 0 := by
    rw [List.countP_eq_zero]
    intro p hp
    have := h.ends_behind p hp
    simp only [decide_eq_true_eq]
    omega
  rw [charactersIn, h.lastBytes_eq, List.countP_append, List.countP_append, hbefore, hinside,
    hafter, Nat.zero_add, Nat.add_zero]

end Span.Parts

/-! ### Carets by bytes -/

/-- The boundary that is reached by going back from an offset, one byte at a time. There is no
place before the first byte to go to. -/
def boundary? (line : String) : Nat → Option Nat
  | 0 => if String.Pos.Raw.IsValid line ⟨0⟩ then some 0 else none
  | p + 1 => if String.Pos.Raw.IsValid line ⟨p + 1⟩ then some (p + 1) else boundary? line p

/-- The text between two offsets, if they are in order and neither lies inside a character. -/
def slice? (line : String) (start stop : Nat) : Option String :=
  if start ≤ stop ∧ String.Pos.Raw.IsValid line ⟨start⟩ ∧ String.Pos.Raw.IsValid line ⟨stop⟩ then
    String.fromUTF8? (line.toUTF8.extract start stop)
  else none

/-- A line and carets below it, drawn by the bytes of the line. -/
def drawCarets? (line : String) (span : Span) : Option String := do
  let start ← boundary? line (min span.start line.utf8ByteSize)
  let stop ← boundary? line (min span.stop line.utf8ByteSize)
  let before ← slice? line 0 start
  let inside ← slice? line start (max stop start)
  return line ++ "\n" ++ String.ofList (List.replicate before.length ' ')
    ++ String.ofList (List.replicate (max 1 inside.length) '^')

theorem isValid_zero (line : String) : String.Pos.Raw.IsValid line ⟨0⟩ := by
  have hline : line.toList = [] ++ line.toList := rfl
  exact isValid_of_toList hline

/-- Going back ends at the last boundary that does not lie behind the offset. -/
theorem boundary?_eq_some_iff {p q : Nat} :
    boundary? line p = some q ↔ q ≤ p ∧ String.Pos.Raw.IsValid line ⟨q⟩
      ∧ ∀ r, q < r → r ≤ p → ¬String.Pos.Raw.IsValid line ⟨r⟩ := by
  induction p with
  | zero =>
    rw [boundary?, if_pos (isValid_zero line), Option.some.injEq]
    constructor
    · rintro rfl
      exact ⟨Nat.le_refl 0, isValid_zero line, fun r hlt hle => absurd hlt (by omega)⟩
    · intro h
      exact (Nat.le_zero.1 h.1).symm
  | succ p ih =>
    rw [boundary?]
    by_cases hvalid : String.Pos.Raw.IsValid line ⟨p + 1⟩
    · rw [if_pos hvalid, Option.some.injEq]
      constructor
      · rintro rfl
        exact ⟨Nat.le_refl _, hvalid, fun r hlt hle => absurd hlt (by omega)⟩
      · intro h
        rcases Nat.lt_or_eq_of_le h.1 with hlt | heq
        · exact absurd hvalid (h.2.2 (p + 1) hlt (Nat.le_refl _))
        · exact heq.symm
    · rw [if_neg hvalid, ih]
      constructor
      · intro h
        obtain ⟨hle, hq, hbetween⟩ := h
        refine ⟨by omega, hq, fun r hlt hr => ?_⟩
        rcases Nat.lt_or_eq_of_le hr with hr | rfl
        · exact hbetween r hlt (by omega)
        · exact hvalid
      · intro h
        obtain ⟨hle, hq, hbetween⟩ := h
        have hne : q ≠ p + 1 := fun heq => hvalid (heq ▸ hq)
        exact ⟨by omega, hq, fun r hlt hr => hbetween r hlt (by omega)⟩

theorem exists_boundary? (line : String) (p : Nat) : ∃ q, boundary? line p = some q := by
  induction p with
  | zero => exact ⟨0, if_pos (isValid_zero line)⟩
  | succ p ih =>
    rw [boundary?]
    split
    · exact ⟨p + 1, rfl⟩
    · exact ih

/-- Going back from an offset, or from the end of the line if the offset lies behind it, ends where
the characters begin that do not end before the offset. -/
theorem boundary?_of_toList {front back : List Char} {offset : Nat}
    (hline : line.toList = front ++ back) (hfront : ∀ p ∈ lastBytes 0 front, p < offset)
    (hback : ∀ p ∈ lastBytes (byteLength front) back, offset ≤ p) :
    boundary? line (min offset line.utf8ByteSize) = some (byteLength front) := by
  have hle : byteLength front ≤ offset := by
    by_cases hnil : front = []
    · simp [hnil]
    · have := hfront _ (pred_mem_lastBytes 0 hnil)
      omega
  have hsize : byteLength front ≤ line.utf8ByteSize := by
    rw [utf8ByteSize_eq, hline, byteLength_append]
    exact Nat.le_add_right ..
  refine boundary?_eq_some_iff.2 ⟨by omega, isValid_of_toList hline, fun r hlt hr hvalid => ?_⟩
  have hlast := pred_mem_of_isValid hvalid (by omega)
  rw [hline, lastBytes_append, Nat.zero_add, List.mem_append] at hlast
  rcases hlast with hlast | hlast
  · have := (bounds_of_mem_lastBytes hlast).2
    omega
  · have := hback _ hlast
    omega

theorem slice?_of_toList {w : List Char} (h : line.toList = before ++ (w ++ after)) :
    slice? line (byteLength before) (byteLength before + byteLength w)
      = some (String.ofList w) := by
  have hline : line.toList = before ++ w ++ after := by rw [h, List.append_assoc]
  have hstop := isValid_of_toList hline
  rw [byteLength_append] at hstop
  rw [slice?, if_pos ⟨Nat.le_add_right .., isValid_of_toList h, hstop⟩, extract_of_toList hline]
  exact dif_pos ByteArray.isValidUTF8_utf8Encode

namespace Span.Parts

theorem boundary?_start (h : span.Parts line before inside after) :
    boundary? line (min span.start line.utf8ByteSize) = some (byteLength before) := by
  refine boundary?_of_toList h.line_eq h.ends_before fun p hp => ?_
  rw [lastBytes_append] at hp
  rcases List.mem_append.1 hp with hp | hp
  · exact (h.ends_inside p hp).1
  · exact (h.ends_behind p hp).1

/-- The part in a span ends where going back from the stop ends, but not before it begins. -/
theorem exists_boundary?_stop (h : span.Parts line before inside after) :
    ∃ q, boundary? line (min span.stop line.utf8ByteSize) = some q
      ∧ max q (byteLength before) = byteLength before + byteLength inside := by
  by_cases horder : span.start ≤ span.stop
  · have hline : line.toList = before ++ inside ++ after := by rw [h.line_eq, List.append_assoc]
    refine ⟨byteLength (before ++ inside),
      boundary?_of_toList hline (fun p hp => ?_) fun p hp => ?_, by rw [byteLength_append]; omega⟩
    · rw [lastBytes_append, Nat.zero_add] at hp
      rcases List.mem_append.1 hp with hp | hp
      · exact Nat.lt_of_lt_of_le (h.ends_before p hp) horder
      · exact (h.ends_inside p hp).2
    · rw [byteLength_append] at hp
      exact (h.ends_behind p hp).2
  · -- no character ends in an inverted span, and its stop goes back to where its start does, or
    -- further
    have hnil : inside = [] := by
      cases inside with
      | nil => rfl
      | cons c cs =>
        have := h.ends_inside _ (pred_mem_lastBytes _ (List.cons_ne_nil c cs))
        omega
    obtain ⟨q, hq⟩ := exists_boundary? line (min span.stop line.utf8ByteSize)
    obtain ⟨hle, hvalid, -⟩ := boundary?_eq_some_iff.1 hq
    obtain ⟨-, -, hbetween⟩ := boundary?_eq_some_iff.1 h.boundary?_start
    have hnot : ¬byteLength before < q := fun hlt => hbetween q hlt (by omega) hvalid
    exact ⟨q, hq, by rw [hnil, byteLength_nil]; omega⟩

theorem drawCarets?_eq (h : span.Parts line before inside after) :
    drawCarets? line span = some (line ++ "\n"
      ++ String.ofList (List.replicate before.length ' ')
      ++ String.ofList (List.replicate (max 1 inside.length) '^')) := by
  obtain ⟨q, hstop, hmax⟩ := h.exists_boundary?_stop
  have hbefore := @slice?_of_toList line [] (inside ++ after) before h.line_eq
  rw [byteLength_nil, Nat.zero_add] at hbefore
  rw [drawCarets?, h.boundary?_start, hstop]
  dsimp only [bind, Option.bind]
  rw [hbefore, hmax, slice?_of_toList h.line_eq]
  dsimp only
  rw [String.length_ofList, String.length_ofList]
  rfl

/-- Between two boundaries of a line stand the characters of the part in the span. -/
theorem slice?_eq (h : span.Parts line before inside after)
    (hstart : String.Pos.Raw.IsValid line ⟨span.start⟩)
    (hstop : String.Pos.Raw.IsValid line ⟨span.stop⟩) (horder : span.start < span.stop)
    (hsize : span.stop ≤ line.utf8ByteSize) :
    inside ≠ [] ∧ slice? line span.start span.stop = some (String.ofList inside) := by
  have hself {p : Nat} (hvalid : String.Pos.Raw.IsValid line ⟨p⟩) (hle : p ≤ line.utf8ByteSize) :
      boundary? line (min p line.utf8ByteSize) = some p := by
    rw [Nat.min_eq_left hle]
    exact boundary?_eq_some_iff.2 ⟨Nat.le_refl p, hvalid, fun r hlt hr => absurd hlt (by omega)⟩
  have hbegin : span.start = byteLength before :=
    Option.some.inj ((hself hstart (by omega)).symm.trans h.boundary?_start)
  obtain ⟨q, hq, hmax⟩ := h.exists_boundary?_stop
  have hend : span.stop = q := Option.some.inj ((hself hstop hsize).symm.trans hq)
  have hwidth : span.stop = byteLength before + byteLength inside := by omega
  refine ⟨fun hnil => ?_, ?_⟩
  · rw [hnil, byteLength_nil] at hwidth
    omega
  · rw [hbegin, hwidth]
    exact slice?_of_toList h.line_eq

end Span.Parts

/-- **Carets stand under the characters of a span.** Below a line there are as many blanks as
characters end before the start of the span, and then as many carets as other characters end before
its stop, or one if there are none. They take at most one column more than the line. To go back
from the two offsets to boundaries of the line always succeeds, and so does taking the parts of the
line; what is drawn by them is the same. If both ends of the span are boundaries of the line, in
order, then the carets stand under just the characters whose bytes it takes. -/
theorem carets_under_characters (line : String) (span : Span) :
    caretLines line span = line ++ "\n"
        ++ String.ofList (List.replicate (charactersBefore line span.start) ' ')
        ++ String.ofList (List.replicate (max 1 (charactersIn line span)) '^')
      ∧ drawCarets? line span = some (caretLines line span)
      ∧ 1 ≤ max 1 (charactersIn line span)
      ∧ charactersBefore line span.start + max 1 (charactersIn line span) ≤ line.length + 1
      ∧ (String.Pos.Raw.IsValid line ⟨span.start⟩ → String.Pos.Raw.IsValid line ⟨span.stop⟩ →
        span.start < span.stop → span.stop ≤ line.utf8ByteSize →
        slice? line span.start span.stop = some (String.ofList
          ((line.toList.drop (charactersBefore line span.start)).take
            (max 1 (charactersIn line span))))) := by
  obtain ⟨before, inside, after, h, hcolumns⟩ := span.exists_parts line
  have hdrawn : caretLines line span = line ++ "\n"
      ++ String.ofList (List.replicate before.length ' ')
      ++ String.ofList (List.replicate (max 1 inside.length) '^') := by
    rw [caretLines, hcolumns]
  rw [h.charactersBefore_eq, h.charactersIn_eq]
  refine ⟨hdrawn, ?_, Nat.le_max_left .., ?_, fun hstart hstop horder hsize => ?_⟩
  · rw [hdrawn, h.drawCarets?_eq]
  · have hlength : line.length = before.length + (inside.length + after.length) := by
      rw [← String.length_toList, h.line_eq, List.length_append, List.length_append]
    omega
  · obtain ⟨hne, hslice⟩ := h.slice?_eq hstart hstop horder hsize
    have hpos := List.length_pos_iff.2 hne
    rw [hslice, h.line_eq, List.drop_left, Nat.max_eq_right hpos, List.take_left]

/-- Two characters of several bytes get a caret each; and an inverted span whose ends both lie
inside characters gets one below the character in which it starts. -/
theorem carets_multibyte :
    String.Pos.Raw.IsValid "aé€x" ⟨1⟩ ∧ String.Pos.Raw.IsValid "aé€x" ⟨6⟩
      ∧ slice? "aé€x" 1 6 = some "é€"
      ∧ caretLines "aé€x" ⟨1, 6⟩ = "aé€x\n ^^"
      ∧ caretLines "aé€x" ⟨4, 2⟩ = "aé€x\n  ^" := by
  have hstart : String.Pos.Raw.IsValid "aé€x" ⟨1⟩ := by decide +kernel
  have hstop : String.Pos.Raw.IsValid "aé€x" ⟨6⟩ := by decide +kernel
  obtain ⟨hdrawn, -, -, -, hslice⟩ := carets_under_characters "aé€x" ⟨1, 6⟩
  have hinverted := (carets_under_characters "aé€x" ⟨4, 2⟩).1
  refine ⟨hstart, hstop, ?_, ?_, ?_⟩
  · rw [hslice hstart hstop (by decide) (by decide +kernel)]
    decide +kernel
  · rw [hdrawn]
    decide +kernel
  · rw [hinverted]
    decide +kernel

end CommandLine
