/-!
# CommandLine.Text.Bytes

Sizes and cuts of a text, counted in UTF-8 bytes.

Positions in a line are byte offsets, while the line itself is a list of
characters here; `byteLength` is the bridge between the two. `cutAtByte`
takes any offset, also one past the end or inside a character, and cuts at
the last character boundary that does not lie behind it.
-/

namespace CommandLine.Text

/-- The number of bytes that the characters take in UTF-8. -/
def byteLength (cs : List Char) : Nat := cs.foldr (fun c n => c.utf8Size + n) 0

@[simp] theorem byteLength_nil : byteLength [] = 0 := rfl

@[simp] theorem byteLength_cons (c : Char) (cs : List Char) :
    byteLength (c :: cs) = c.utf8Size + byteLength cs := rfl

@[simp] theorem byteLength_append (cs ds : List Char) :
    byteLength (cs ++ ds) = byteLength cs + byteLength ds := by
  induction cs with
  | nil => rw [List.nil_append, byteLength_nil, Nat.zero_add]
  | cons c cs ih => rw [List.cons_append, byteLength_cons, byteLength_cons, ih, Nat.add_assoc]

/-- Cuts a text in two at the last character boundary at or before `offset`. -/
def cutAtByte (offset : Nat) : List Char → List Char × List Char
  | [] => ([], [])
  | c :: cs =>
    if c.utf8Size ≤ offset then
      let (before, after) := cutAtByte (offset - c.utf8Size) cs
      (c :: before, after)
    else ([], c :: cs)

/-- A cut loses nothing. -/
theorem cutAtByte_append (offset : Nat) (cs : List Char) :
    (cutAtByte offset cs).1 ++ (cutAtByte offset cs).2 = cs := by
  induction cs generalizing offset with
  | nil => rfl
  | cons c cs ih =>
    rw [cutAtByte]
    split
    · simp [ih]
    · rfl

/-- The part before a cut never reaches behind the offset. -/
theorem byteLength_cutAtByte_le (offset : Nat) (cs : List Char) :
    byteLength (cutAtByte offset cs).1 ≤ offset := by
  induction cs generalizing offset with
  | nil => simp [cutAtByte]
  | cons c cs ih =>
    rw [cutAtByte]
    split
    · have := ih (offset - c.utf8Size)
      simp only [byteLength_cons]
      omega
    · simp

/-- At an offset between two characters nothing is rounded. -/
theorem cutAtByte_byteLength (before after : List Char) :
    cutAtByte (byteLength before) (before ++ after) = (before, after) := by
  induction before with
  | nil =>
    cases after with
    | nil => rfl
    | cons c after =>
      have := c.utf8Size_pos
      rw [List.nil_append, byteLength_nil, cutAtByte, if_neg (by omega)]
  | cons c before ih =>
    rw [List.cons_append, byteLength_cons, cutAtByte, if_pos (Nat.le_add_right ..),
      Nat.add_sub_cancel_left, ih]

end CommandLine.Text
