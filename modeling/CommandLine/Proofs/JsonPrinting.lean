import Mathlib.Tactic.SplitIfs
import CommandLine.Json.Value
import CommandLine.Proofs.JsonReading
/-!
# CommandLine.Proofs.JsonPrinting

**What is written is JSON, and says what was to be written.** `Value.form` is what the text of a
value should say; `Value.spells_render` says that the text does so in either layout, at any depth
and before anything else. Together with what the readers make of a form, wherever it is spelled,
this is how a value that was written is read back.
-/

namespace CommandLine.Json

variable {n : Nat} {r : List Char}

/-! ### Strings -/

/-- A unit that is no half of a pair stands for a character, whatever comes after it. -/
theorem decode?_unit (h : isSurrogate n = false) (ps : List Piece) :
    decode? (.unit n :: ps) = (decode? ps).map (Char.ofNat n :: ·) := by
  have hhigh : isHighSurrogate n = false := (Bool.or_eq_false_iff.1 h).1
  cases ps with
  | nil => simp only [decode?, h, Bool.false_eq_true, if_false]
  | cons p ps =>
    cases p with
    | char c => simp only [decode?, h, Bool.false_eq_true, if_false]
    | unit m => simp only [decode?, h, hhigh, Bool.false_and, Bool.false_eq_true, if_false]

/-- The code of a control character. -/
theorem hexValue4?_control (h : n < 0x20) :
    hexValue4? '0' '0' (hexDigit (n / 16)) (hexDigit (n % 16)) = some n
      ∧ isSurrogate n = false := by
  revert n
  decide

/-- What is written for a character is one part of a literal and stands for the character. -/
theorem exists_spells_escapeChar (c : Char) (r : List Char) :
    ∃ p : Piece, p.Spells (escapeChar c ++ r) r
      ∧ ∀ ps, decode? (p :: ps) = (decode? ps).map (c :: ·) := by
  have short {letter : Char} (h : shortEscape? letter = some c) :
      ∃ p : Piece, p.Spells ('\\' :: letter :: r) r
        ∧ ∀ ps, decode? (p :: ps) = (decode? ps).map (c :: ·) :=
    ⟨.char c, .short h, fun _ => rfl⟩
  unfold escapeChar
  split_ifs with hquote hslash hbackspace htab hline hfeed hreturn hcontrol
  · exact short (by rw [hquote]; rfl)
  · exact short (by rw [hslash]; rfl)
  · exact short (by rw [hbackspace]; rfl)
  · exact short (by rw [htab]; rfl)
  · exact short (by rw [hline]; rfl)
  · exact short (by rw [hfeed]; rfl)
  · exact short (by rw [hreturn]; rfl)
  · obtain ⟨hvalue, hunit⟩ := hexValue4?_control hcontrol
    refine ⟨.unit c.toNat, .numbered hvalue, fun ps => ?_⟩
    rw [decode?_unit hunit, Char.ofNat_toNat]
  · exact ⟨.char c, .plain hquote hslash (by omega), fun _ => rfl⟩

theorem exists_spellsPieces (cs r : List Char) :
    ∃ ps, SpellsPieces ps (cs.flatMap escapeChar ++ '"' :: r) r ∧ decode? ps = some cs := by
  induction cs with
  | nil => exact ⟨[], .close, rfl⟩
  | cons c cs ih =>
    obtain ⟨ps, hps, hdecode⟩ := ih
    obtain ⟨p, hp, hc⟩ := exists_spells_escapeChar c (cs.flatMap escapeChar ++ '"' :: r)
    refine ⟨p :: ps, ?_, ?_⟩
    · rw [List.flatMap_cons, List.append_assoc]
      exact .piece hp hps
    · rw [hc, hdecode]
      rfl

/-- What is written for a string is a literal with this content. -/
theorem exists_quote_append (s : String) (r : List Char) :
    ∃ t, quote s ++ r = '"' :: t ∧ Literal (some s) t r := by
  obtain ⟨ps, hps, hdecode⟩ := exists_spellsPieces s.toList r
  refine ⟨s.toList.flatMap escapeChar ++ '"' :: r, ?_, ps, hps, ?_⟩
  · simp [quote]
  · rw [hdecode, Option.map_some, String.ofList_toList]

/-! ### Numbers -/

theorem isDigits_toDigits (n : Nat) : IsDigits (Nat.toDigits 10 n) :=
  ⟨Nat.toDigits_ne_nil, fun _ hc => Nat.isDigit_of_mem_toDigits (by decide) (by decide) hc⟩

/-- Only zero begins with a zero. -/
theorem exists_toDigits_of_pos (hn : 0 < n) : ∃ c ds, Nat.toDigits 10 n = c :: ds ∧ c ≠ '0' := by
  induction n using Nat.strongRecOn with
  | ind n ih =>
    rcases Nat.lt_or_ge n 10 with hlt | hge
    · have hnonzero : ∀ m < 10, 0 < m → Nat.digitChar m ≠ '0' := by decide
      exact ⟨n.digitChar, [], Nat.toDigits_of_lt_base hlt, hnonzero n hlt hn⟩
    · obtain ⟨c, ds, hds, hc⟩ := ih (n / 10) (by omega) (by omega)
      exact ⟨c, ds ++ [(n % 10).digitChar], by
        rw [Nat.toDigits_of_base_le (by decide) hge, hds, List.cons_append], hc⟩

/-- Numbers are written without leading zeros. -/
theorem isWhole_toDigits (n : Nat) : IsWhole (Nat.toDigits 10 n) := by
  rcases Nat.eq_zero_or_pos n with rfl | hpos
  · exact .zero
  · obtain ⟨c, ds, hds, hc⟩ := exists_toDigits_of_pos hpos
    have hdigits := isDigits_toDigits n
    rw [hds] at hdigits ⊢
    exact .digits hdigits hc

theorem natural?_toDigits (h : n < Nat.pow 2 64) :
    (Form.number (Nat.toDigits 10 n)).natural? = some n := by
  have hvalue : Nat.ofDigitChars 10 (Nat.toDigits 10 n) 0 = n :=
    Nat.ofDigitChars_toDigits (by decide) (by decide)
  rw [Form.natural?, hvalue]
  exact if_pos ⟨List.all_eq_true.2 (isDigits_toDigits n).2, h⟩

theorem gives_toDigits (h : n < Nat.pow 2 64) :
    Reader.natural.Gives (.number (Nat.toDigits 10 n)) (some n) := by
  have hgives := Reader.gives_natural (.number (Nat.toDigits 10 n))
  rwa [natural?_toDigits h] at hgives

theorem isNumber_toDigits (n : Nat) : IsNumber (Nat.toDigits 10 n) :=
  ⟨[], Nat.toDigits 10 n, [], [], by simp, .inl rfl, isWhole_toDigits n, .none, .none⟩

/-! ### Values -/

theorem Layout.blanks_lineBreak (layout : Layout) (depth : Nat) (r : List Char) :
    Blanks (layout.lineBreak depth ++ r) r := by
  refine ⟨layout.lineBreak depth, ?_, rfl⟩
  cases layout with
  | compact => exact nofun
  | indented =>
    intro c hc
    rcases List.mem_cons.1 hc with rfl | hc
    · rfl
    · rw [List.eq_of_mem_replicate hc]
      rfl

/-- Behind a key stand a colon and at most blanks. -/
theorem Layout.exists_colon_append (layout : Layout) (r : List Char) :
    ∃ t, layout.colon ++ r = ':' :: t ∧ Blanks t r := by
  cases layout with
  | compact => exact ⟨r, rfl, .refl r⟩
  | indented => exact ⟨' ' :: r, rfl, [' '], by simp [isBlank], rfl⟩

theorem Layout.separated_lineBreak (layout : Layout) (depth : Nat) (r : List Char) :
    Separated true (layout.lineBreak depth ++ r) r
      ∧ Separated false (',' :: (layout.lineBreak depth ++ r)) r :=
  ⟨layout.blanks_lineBreak depth r, _, .refl _, layout.blanks_lineBreak depth r⟩

namespace Value

mutual

/-- What the text of a value says. -/
def form : Value → Form
  | null => .null
  | boolean b => .boolean b
  | natural n => .number (Nat.toDigits 10 n)
  | text s => .text (some s)
  | array items => .array (formItems items)
  | object members => .object (formMembers members)

/-- What the texts of the items say. -/
def formItems : List Value → List Form
  | [] => []
  | item :: items => item.form :: formItems items

/-- What the texts of the members say. -/
def formMembers : List (String × Value) → List (Option String × Form)
  | [] => []
  | (key, value) :: members => (some key, value.form) :: formMembers members

end

theorem formMembers_eq_map (members : List (String × Value)) :
    formMembers members = members.map fun m => (some m.1, m.2.form) := by
  induction members with
  | nil => rfl
  | cons m members ih => rw [formMembers, ih, List.map_cons]

/-- A member is spelled behind what separates it from the earlier ones. -/
theorem spellsMembers_cons {first : Bool} {layout : Layout} {key : String} {v : Form}
    {members : List (Option String × Form)} {t t₁ t₂ : List Char}
    (hbefore : Separated first t (quote key ++ (layout.colon ++ t₁)))
    (hvalue : v.Spells t₁ t₂) (hmembers : SpellsMembers false members t₂ r) :
    SpellsMembers first ((some key, v) :: members) t r := by
  obtain ⟨t₃, hcolon, hblanks⟩ := layout.exists_colon_append t₁
  obtain ⟨t₄, hquote, hkey⟩ := exists_quote_append key (':' :: t₃)
  rw [hcolon, hquote] at hbefore
  exact .member hbefore hkey (.refl _) hblanks hvalue hmembers

mutual

/-- **The text of a value is a spelling of its form.** -/
theorem spells_render (layout : Layout) (depth : Nat) (r : List Char) (v : Value) :
    v.form.Spells (v.render layout depth ++ r) r := by
  match v with
  | null => exact .null
  | boolean true => exact .yes
  | boolean false => exact .no
  | natural n => exact .number (isNumber_toDigits n)
  | text s =>
    obtain ⟨t, ht, hliteral⟩ := exists_quote_append s r
    rw [render, ht]
    exact .text hliteral
  | array [] => exact .array (.close (.refl _))
  | array (item :: items) =>
    simp only [render, List.cons_append, List.append_assoc]
    exact .array (.item (layout.separated_lineBreak (depth + 1) _).1
      (spells_render layout (depth + 1) _ item) (spells_renderItems layout depth r items))
  | object [] => exact .object (.close (.refl _))
  | object ((key, value) :: members) =>
    simp only [render, List.cons_append, List.append_assoc]
    exact .object (spellsMembers_cons (layout.separated_lineBreak (depth + 1) _).1
      (spells_render layout (depth + 1) _ value) (spells_renderMembers layout depth r members))

/-- The same for the items behind the first one. -/
theorem spells_renderItems (layout : Layout) (depth : Nat) (r : List Char) (items : List Value) :
    SpellsItems false (formItems items) (renderItems layout depth items ++ r) r := by
  match items with
  | [] =>
    rw [renderItems, List.append_assoc]
    exact .close (layout.blanks_lineBreak depth _)
  | item :: items =>
    simp only [renderItems, List.cons_append, List.append_assoc]
    exact .item (layout.separated_lineBreak (depth + 1) _).2
      (spells_render layout (depth + 1) _ item) (spells_renderItems layout depth r items)

/-- The same for the members behind the first one. -/
theorem spells_renderMembers (layout : Layout) (depth : Nat) (r : List Char)
    (members : List (String × Value)) :
    SpellsMembers false (formMembers members) (renderMembers layout depth members ++ r) r := by
  match members with
  | [] =>
    rw [renderMembers, List.append_assoc]
    exact .close (layout.blanks_lineBreak depth _)
  | (key, value) :: members =>
    simp only [renderMembers, List.cons_append, List.append_assoc]
    exact spellsMembers_cons (layout.separated_lineBreak (depth + 1) _).2
      (spells_render layout (depth + 1) _ value) (spells_renderMembers layout depth r members)

end

/-- The text of a value in a layout, as it is written when nothing stands around it. -/
theorem isText_render (layout : Layout) (v : Value) :
    v.form.IsText (String.ofList (v.render layout 0)) := by
  refine ⟨v.render layout 0, [], ?_, ?_, .refl []⟩
  · rw [String.toList_ofList]
    exact .refl _
  · have h := v.spells_render layout 0 []
    rwa [List.append_nil] at h

theorem isText_compact (v : Value) : v.form.IsText v.compact := v.isText_render .compact

theorem isText_pretty (v : Value) : v.form.IsText v.pretty := v.isText_render .indented

end Value

end CommandLine.Json
