import Mathlib.Data.List.Basic
import Mathlib.Data.List.Induction
import CommandLine.Proofs.ByteOrder
import CommandLine.Proofs.Subcommands
/-!
# CommandLine.Proofs.FirstLine

**A line is the same from standard input and as an argument.** On standard input the line ends
somewhere in a stream of bytes, and the rest need not even be text. `IsFirstLine` says which bytes
are looked at, and `Stripped` which characters of them are the line. Reading fails just when the
bytes that are looked at are no text (`readLine_from_input`).

A line without a line feed that does not end in a carriage return is all that is left of itself,
however it ends in the stream (`LineEnding`). So with the same options and in the same format the
program answers it as it answers the argument (`input_is_like_argument`).
-/

namespace CommandLine.Cli

open Text (bytes)

variable {all line before after : List UInt8} {text : String}

/-! ### The first line of some bytes -/

/-- The first line of some bytes: everything up to the first line feed, this one included, or all
bytes if there is none. -/
inductive IsFirstLine : List UInt8 → List UInt8 → Prop
  | ended {before after : List UInt8} (h : lineFeed ∉ before) :
      IsFirstLine (before ++ [lineFeed]) (before ++ lineFeed :: after)
  | unended {all : List UInt8} (h : lineFeed ∉ all) : IsFirstLine all all

theorem firstLine_append (h : lineFeed ∉ before) :
    firstLine (before ++ lineFeed :: after) = before ++ [lineFeed] := by
  induction before with
  | nil => simp [firstLine]
  | cons b before ih =>
    rw [List.mem_cons, not_or] at h
    rw [List.cons_append, firstLine, if_neg (Ne.symm h.1), ih h.2, List.cons_append]

theorem firstLine_of_not_mem (h : lineFeed ∉ all) : firstLine all = all := by
  induction all with
  | nil => rfl
  | cons b all ih =>
    rw [List.mem_cons, not_or] at h
    rw [firstLine, if_neg (Ne.symm h.1), ih h.2]

theorem isFirstLine_iff : IsFirstLine line all ↔ firstLine all = line := by
  constructor
  · intro h
    cases h with
    | ended h => exact firstLine_append h
    | unended h => exact firstLine_of_not_mem h
  · intro h
    subst h
    by_cases hmem : lineFeed ∈ all
    · obtain ⟨before, after, rfl, hbefore⟩ := List.eq_append_cons_of_mem hmem
      rw [firstLine_append hbefore]
      exact .ended hbefore
    · rw [firstLine_of_not_mem hmem]
      exact .unended hmem

/-! ### Bytes that are a text -/

theorem decodeText_eq_ok_iff : decodeText all = .ok text ↔ bytes text = all := by
  have hbytes : bytes text = all ↔ text.toByteArray = ⟨all.toArray⟩ := by
    rw [bytes, String.toUTF8_eq_toByteArray, ByteArray.ext_iff, ← Array.toList_inj]
  rw [hbytes, decodeText]
  unfold String.fromUTF8?
  split
  · next found hfound =>
    split at hfound
    · cases hfound
      rw [Except.ok.injEq, ← String.toByteArray_inj]
      exact eq_comm
    · cases hfound
  · next hnone =>
    split at hnone
    · cases hnone
    · next hinvalid =>
      constructor
      · intro h
        cases h
      · intro h
        exact absurd (h ▸ text.isValidUTF8) hinvalid

theorem decodeText_eq_error_iff :
    decodeText all = .error .notText ↔ ¬∃ text, bytes text = all := by
  constructor
  · intro h ⟨text, htext⟩
    rw [decodeText_eq_ok_iff.2 htext] at h
    cases h
  · intro h
    unfold decodeText
    split
    · next text hfound =>
      have hread : decodeText all = .ok text := by rw [decodeText, hfound]
      exact absurd ⟨text, decodeText_eq_ok_iff.1 hread⟩ h
    · rfl

/-- The byte of a line feed occurs in the encoding of no other character. -/
theorem lineFeed_mem_utf8EncodeChar {c : Char} :
    lineFeed ∈ String.utf8EncodeChar c ↔ c = '\n' := by
  rw [← Char.toNat_inj]
  show (10 : UInt8) ∈ _ ↔ c.val.toNat = 10
  have hmax : c.val.toNat < 0x110000 := by
    rcases c.valid with hc | hc
    · omega
    · exact hc.2
  have hten (k : Nat) (hk : k < 256) : (10 : UInt8) = UInt8.ofNat k ↔ k = 10 := by
    rw [← UInt8.toNat_inj, UInt8.toNat_ofNat', Nat.mod_eq_of_lt hk]
    exact eq_comm
  simp only [String.utf8EncodeChar]
  generalize c.val.toNat = n at hmax ⊢
  -- all bytes of longer encodings are above those of ASCII
  split_ifs <;>
    simp (disch := omega) only [List.mem_cons, List.not_mem_nil, or_false, hten] <;> omega

theorem lineFeed_mem_bytes_iff : lineFeed ∈ bytes text ↔ '\n' ∈ text.toList := by
  simp [Text.bytes_eq, lineFeed_mem_utf8EncodeChar]

/-- If the bytes of a text are the first line of a stream, then a line feed can only be its last
character. -/
theorem IsFirstLine.exists_feed (h : IsFirstLine (bytes text) all) :
    ∃ cs feed, text.toList = cs ++ feed ∧ '\n' ∉ cs ∧ (feed = [] ∨ feed = ['\n']) := by
  generalize hline : bytes text = line at h
  cases h with
  | unended h =>
    rw [← hline, lineFeed_mem_bytes_iff] at h
    exact ⟨text.toList, [], by simp, h, .inl rfl⟩
  | @ended before after h =>
    have hmem : lineFeed ∈ bytes text := by simp [hline]
    obtain ⟨cs, rest, htext, hcs⟩ :=
      List.eq_append_cons_of_mem (lineFeed_mem_bytes_iff.1 hmem)
    have hfeed : String.utf8EncodeChar '\n' = [lineFeed] := by decide
    rw [Text.bytes_eq, htext, List.flatMap_append, List.flatMap_cons, hfeed,
      List.singleton_append] at hline
    obtain ⟨-, -, hrest⟩ := (List.append_cons_inj_of_notMem h List.not_mem_nil).1 hline.symm
    -- a character has at least one byte, so no characters are left
    have hnil : rest = [] := by
      cases rest with
      | nil => rfl
      | cons c rest => simp [String.utf8EncodeChar_ne_nil] at hrest
    exact ⟨cs, ['\n'], by rw [htext, hnil], hcs, .inr rfl⟩

/-! ### The end of a line -/

/-- A line is what is left of a text without a line feed at its end and without all carriage returns
in front of that. -/
def Stripped (text line : String) : Prop :=
  ∃ (returns : Nat) (feed : List Char),
    text.toList = line.toList ++ (List.replicate returns '\r' ++ feed)
      ∧ (feed = [] ∨ feed = ['\n']) ∧ '\n' ∉ line.toList ∧ line.toList.getLast? ≠ some '\r'

/-- The end of a line is dropped, and nothing in front of it. -/
theorem dropLineEnd_eq {kept ends : List Char} (htext : text.toList = kept ++ ends)
    (hends : ∀ c ∈ ends, c = '\n' ∨ c = '\r')
    (hkept : ∀ c ∈ kept.getLast?, c ≠ '\n' ∧ c ≠ '\r') :
    dropLineEnd text = String.ofList kept := by
  unfold dropLineEnd
  dsimp only
  rw [htext, List.reverse_append, List.dropWhile_append_of_pos (by simpa using hends)]
  rw [← List.head?_reverse] at hkept
  have hstay : kept.reverse.dropWhile (fun c => c = '\n' || c = '\r') = kept.reverse := by
    cases hreverse : kept.reverse with
    | nil => rfl
    | cons c rest =>
      rw [hreverse] at hkept
      exact List.dropWhile_cons_of_neg (by simpa using hkept c rfl)
  simp only [hstay, List.reverse_reverse]

theorem dropLineEnd_of_stripped {line : String} (h : Stripped text line) :
    dropLineEnd text = line := by
  obtain ⟨returns, feed, htext, hfeed, hline, hlast⟩ := h
  have hends : ∀ c ∈ List.replicate returns '\r' ++ feed, c = '\n' ∨ c = '\r' := by
    intro c hc
    rcases List.mem_append.1 hc with hc | hc
    · exact .inr (List.eq_of_mem_replicate hc)
    · rcases hfeed with rfl | rfl
      · cases hc
      · exact .inl (List.mem_singleton.1 hc)
  have hkept : ∀ c ∈ line.toList.getLast?, c ≠ '\n' ∧ c ≠ '\r' := by
    intro c hc
    refine ⟨fun heq => hline (heq ▸ List.mem_of_getLast? hc), fun heq => hlast (heq ▸ hc)⟩
  rw [dropLineEnd_eq htext hends hkept, String.ofList_toList]

/-- Carriage returns at the end of some characters can be told from the rest. -/
theorem exists_returns (cs : List Char) :
    ∃ kept returns, cs = kept ++ List.replicate returns '\r' ∧ kept.getLast? ≠ some '\r' := by
  induction cs using List.reverseRecOn with
  | nil => exact ⟨[], 0, rfl, by simp⟩
  | append_singleton cs c ih =>
    by_cases hc : c = '\r'
    · obtain ⟨kept, returns, rfl, hkept⟩ := ih
      refine ⟨kept, returns + 1, ?_, hkept⟩
      rw [hc, List.replicate_succ', List.append_assoc]
    · exact ⟨cs ++ [c], 0, by simp, by simpa using hc⟩

/-- What is left of the text of a first line. -/
theorem IsFirstLine.stripped (h : IsFirstLine (bytes text) all) :
    Stripped text (dropLineEnd text) := by
  obtain ⟨cs, feed, htext, hcs, hfeed⟩ := h.exists_feed
  obtain ⟨kept, returns, rfl, hkept⟩ := exists_returns cs
  have hstripped : Stripped text (String.ofList kept) := by
    refine ⟨returns, feed, ?_, hfeed, ?_, ?_⟩
    · rw [htext, String.toList_ofList, List.append_assoc]
    · rw [String.toList_ofList]
      exact fun hmem => hcs (List.mem_append_left _ hmem)
    · rwa [String.toList_ofList]
  rwa [dropLineEnd_of_stripped hstripped]

/-! ### Reading a line -/

/-- An argument that stands for the first line of standard input. -/
def IsInput (argument : Option String) : Prop := argument = none ∨ argument = some "-"

variable {argument argument' : Option String} {stdin stdin' : List UInt8} {l : String}

theorem readLine_of_isInput (h : IsInput argument) :
    readLine argument stdin = (decodeText (firstLine stdin)).map dropLineEnd := by
  rcases h with rfl | rfl <;> rfl

theorem readLine_eq_ok_iff (h : IsInput argument) :
    readLine argument stdin = .ok l ↔
      ∃ text, IsFirstLine (bytes text) stdin ∧ Stripped text l := by
  rw [readLine_of_isInput h, map_eq_ok]
  refine exists_congr fun text => ?_
  rw [decodeText_eq_ok_iff, isFirstLine_iff, eq_comm (a := firstLine stdin)]
  refine and_congr_right fun htext => ?_
  have hfirst : IsFirstLine (bytes text) stdin := isFirstLine_iff.2 htext.symm
  constructor
  · intro hl
    rw [← hl]
    exact hfirst.stripped
  · exact dropLineEnd_of_stripped

theorem readLine_eq_error_iff (h : IsInput argument) :
    readLine argument stdin = .error .notText ↔ ¬∃ text, IsFirstLine (bytes text) stdin := by
  rw [readLine_of_isInput h, map_eq_error, decodeText_eq_error_iff]
  simp only [isFirstLine_iff, eq_comm]

/-! ### A line that could be an argument -/

/-- A line that standard input can give: no line feed is in it, and no carriage return ends it. -/
def IsLine (l : String) : Prop := '\n' ∉ l.toList ∧ l.toList.getLast? ≠ some '\r'

/-- What can follow a line: nothing, or one of the usual ends and then anything. -/
inductive LineEnding : List UInt8 → Prop
  | missing : LineEnding []
  | feed (rest : List UInt8) : LineEnding (lineFeed :: rest)
  | returnFeed (rest : List UInt8) : LineEnding (13 :: lineFeed :: rest)

/-- A line is all that is left of its own first line. -/
theorem exists_isFirstLine {ending : List UInt8} (hl : IsLine l) (hending : LineEnding ending) :
    ∃ text, IsFirstLine (bytes text) (bytes l ++ ending) ∧ Stripped text l := by
  have hbytes : lineFeed ∉ bytes l := fun hmem => hl.1 (lineFeed_mem_bytes_iff.1 hmem)
  have happend (cs : List Char) : bytes (l ++ String.ofList cs)
      = bytes l ++ cs.flatMap String.utf8EncodeChar := by
    rw [Text.bytes_eq, Text.bytes_eq, String.toList_append, String.toList_ofList,
      List.flatMap_append]
  cases hending with
  | missing =>
    rw [List.append_nil]
    exact ⟨l, .unended hbytes, 0, [], by simp, .inl rfl, hl⟩
  | feed rest =>
    have hfeed : bytes (l ++ String.ofList ['\n']) = bytes l ++ [lineFeed] := happend ['\n']
    refine ⟨l ++ String.ofList ['\n'], ?_, 0, ['\n'], by simp, .inr rfl, hl⟩
    rw [hfeed]
    exact .ended hbytes
  | returnFeed rest =>
    have hfeed : bytes (l ++ String.ofList ['\r', '\n']) = bytes l ++ [13] ++ [lineFeed] := by
      rw [List.append_assoc]
      exact happend ['\r', '\n']
    refine ⟨l ++ String.ofList ['\r', '\n'], ?_, 1, ['\n'], by simp, .inr rfl, hl⟩
    rw [hfeed, List.append_cons (bytes l) 13 (lineFeed :: rest)]
    refine .ended ?_
    rw [List.mem_append, not_or]
    exact ⟨hbytes, by decide⟩

theorem readLine_of_isLine {ending : List UInt8} (h : IsInput argument) (hl : IsLine l)
    (hending : LineEnding ending) : readLine argument (bytes l ++ ending) = .ok l :=
  (readLine_eq_ok_iff h).2 (exists_isFirstLine hl hending)

/-! ### The same outcome -/

/-- How a line is answered does not depend on where it came from. -/
theorem answer_congr {draw : Picture → String} {w : Surroundings} {options : Options}
    {format : Format} {stage : Stage} (h : readLine argument stdin = readLine argument' stdin') :
    answer draw { w with stdin } options format (.stage stage argument) =
      answer draw { w with stdin := stdin' } options format (.stage stage argument') := by
  rw [answer, answer, perform, perform, h]
  rfl

/-- **A line is the same from standard input and as an argument.** Without an argument and for `-`,
reading a line succeeds just when the first line of standard input is text, whatever comes behind
it, and then gives this text without its end: there is no line feed in it, and no carriage return
ends it. Every such line but `-` can be an argument as well, and is read alike from standard input,
however it ends there and whatever comes behind it. So the program has the same outcome when it is
asked for a stage of standard input and when it is asked for this stage of the line. -/
theorem input_is_like_argument :
    (∀ (argument : Option String) (stdin : List UInt8), IsInput argument →
        ((∃ l, readLine argument stdin = .ok l) ↔ ∃ text, IsFirstLine (bytes text) stdin)
          ∧ (readLine argument stdin = .error .notText ↔ ¬∃ text, IsFirstLine (bytes text) stdin)
          ∧ (∀ l, readLine argument stdin = .ok l ↔
            ∃ text, IsFirstLine (bytes text) stdin ∧ Stripped text l)
          ∧ ∀ l, readLine argument stdin = .ok l → IsLine l)
      ∧ ∀ (l : String) (ending : List UInt8), IsLine l → l ≠ "-" → LineEnding ending →
        ∀ (argument : Option String) (w : Surroundings), IsInput argument →
          readLine argument (bytes l ++ ending) = .ok l
            ∧ readLine (some l) w.stdin = .ok l
            ∧ ∀ (draw : Picture → String) (options : Options) (format : Format) (stage : Stage),
              answer draw { w with stdin := bytes l ++ ending } options format
                  (.stage stage argument) =
                answer draw w options format (.stage stage (some l)) := by
  refine ⟨fun argument stdin hinput => ⟨?_, readLine_eq_error_iff hinput,
    fun l => readLine_eq_ok_iff hinput, fun l hread => ?_⟩,
    fun l ending hl hdash hending argument w hinput => ?_⟩
  · simp only [readLine_eq_ok_iff hinput]
    constructor
    · intro ⟨_, text, hfirst, _⟩
      exact ⟨text, hfirst⟩
    · intro ⟨text, hfirst⟩
      exact ⟨_, text, hfirst, hfirst.stripped⟩
  · obtain ⟨text, -, returns, feed, -, -, hl⟩ := (readLine_eq_ok_iff hinput).1 hread
    exact hl
  · have hread : readLine argument (bytes l ++ ending) = .ok l :=
      readLine_of_isLine hinput hl hending
    have hargument : readLine (some l) w.stdin = .ok l := readLine_some hdash _
    exact ⟨hread, hargument, fun _ _ _ _ => answer_congr (hread.trans hargument.symm)⟩

/-- Nothing but standard input, with junk behind a line. -/
def junkBehind : Surroundings where
  stdin := bytes "-é\ry" ++ [13, lineFeed, 0xff]
  file := fun _ => .error .missing

/-- Returns at the end of a line, a line that is no text, and one that begins like an option, has a
return in it, and has junk behind it. -/
theorem input_with_junkBehind :
    readLine none [0x61, 13, 13, lineFeed, 0xff] = .ok "a"
      ∧ readLine (some "-") [0xff, lineFeed, 0x61] = .error .notText
      ∧ answer Picture.compact junkBehind {} .json (.stage .ast (some "-"))
        = answer Picture.compact junkBehind {} .json (.stage .ast (some "-é\ry")) := by
  obtain ⟨hinput, hlike⟩ := input_is_like_argument
  have hline : IsLine "-é\ry" := ⟨by decide, by decide⟩
  obtain ⟨-, -, hsame⟩ := hlike "-é\ry" [13, lineFeed, 0xff] hline (by decide) (.returnFeed [0xff])
    (some "-") junkBehind (.inr rfl)
  refine ⟨?_, ?_, hsame _ _ _ _⟩
  · obtain ⟨-, -, hok, -⟩ := hinput none [0x61, 13, 13, lineFeed, 0xff] (.inl rfl)
    refine (hok "a").2 ⟨"a\r\r\n", isFirstLine_iff.2 (by decide +kernel), 2, ['\n'], ?_⟩
    exact ⟨by decide, .inr rfl, by decide, by decide⟩
  · obtain ⟨-, herror, -, -⟩ := hinput (some "-") [0xff, lineFeed, 0x61] (.inr rfl)
    have hjunk : decodeText (firstLine [0xff, lineFeed, 0x61]) = .error .notText := by
      decide +kernel
    refine herror.2 fun h => ?_
    obtain ⟨text, hfirst⟩ := h
    exact decodeText_eq_error_iff.1 hjunk ⟨text, (isFirstLine_iff.1 hfirst).symm⟩

end CommandLine.Cli
