import CommandLine.Assembly
import CommandLine.Proofs.Bytes
import CommandLine.Proofs.Spelling
/-!
# CommandLine.Proofs.LexicalGrammar

**Which tokens a line has.** `LexicalGrammar` describes the tokens of a line by the bytes
that their spans cut out of it, without a word on how to find them. A line has at most one
such list of tokens, and `tokenize` returns it whenever there is one.

The proof goes through `LexicalGrammar.Cover`, which says the same of the part of the line
from an offset on. One scanning step takes a blank or a token off the front of a cover, and
a cover shows which of the two it is: a token that covers the byte at the offset begins
there, since the tokens are in order, and a byte that no token covers is a blank.
-/

namespace CommandLine

open Text

/-- The byte at an offset belongs to a span. -/
def Span.Covers (s : Span) (i : Nat) : Prop := s.start ≤ i ∧ i < s.stop

/-- The bytes of the line that a token's span cuts out are those of its spelling, and its
literal is one that its kind can have. -/
def Token.CutFrom (t : Token) (line : String) : Prop :=
  t.Proper ∧ line.toUTF8.extract t.span.start t.span.stop = t.spelling.utf8Encode

/-- `ts` are the tokens of `line`, the end of the line included. -/
structure LexicalGrammar (line : String) (ts : List Token) : Prop where
  /-- The last token, and no other one, is the end of the line. -/
  ending : ∃ body, ts = body ++ [⟨.terminal, "", .empty line.utf8ByteSize⟩]
    ∧ ∀ t ∈ body, t.kind ≠ .terminal
  /-- Tokens do not overlap and are listed from left to right. -/
  ordered : ts.Pairwise (·.span.stop ≤ ·.span.start)
  /-- Between tokens there are blanks only. -/
  blank : ∀ i (h : i < line.toUTF8.size), (∀ t ∈ ts, ¬t.span.Covers i) → line.toUTF8[i] = 0x20
  /-- Tokens are what the line has at their place. -/
  cut : ∀ t ∈ ts, t.CutFrom line
  /-- Words are as long as they can be. -/
  munch : ∀ t ∈ ts, ∀ u ∈ ts, t.kind = .word → u.kind = .word → t.span.stop ≠ u.span.start

namespace LexicalGrammar

/-- `ts` are the tokens of `line` from byte `offset` on, without its end. -/
structure Cover (line : String) (offset : Nat) (ts : List Token) : Prop where
  kind_ne : ∀ t ∈ ts, t.kind ≠ .terminal
  inside : ∀ t ∈ ts, offset ≤ t.span.start ∧ t.span.stop ≤ line.utf8ByteSize
  ordered : ts.Pairwise (·.span.stop ≤ ·.span.start)
  blank : ∀ i (h : i < line.toUTF8.size), offset ≤ i → (∀ t ∈ ts, ¬t.span.Covers i) →
    line.toUTF8[i] = 0x20
  cut : ∀ t ∈ ts, t.CutFrom line
  munch : ∀ t ∈ ts, ∀ u ∈ ts, t.kind = .word → u.kind = .word → t.span.stop ≠ u.span.start

variable {line : String} {offset : Nat} {before cs : List Char} {t : Token} {ts : List Token}

theorem not_covers_empty (offset i : Nat) : ¬(Span.empty offset).Covers i :=
  fun h => Nat.lt_irrefl _ (Nat.lt_of_le_of_lt h.1 h.2)

/-- The end of the line aside, the tokens of a line cover it from its start on. -/
theorem iff_cover : LexicalGrammar line ts ↔
    ∃ body, ts = body ++ [⟨.terminal, "", .empty line.utf8ByteSize⟩] ∧ Cover line 0 body := by
  constructor
  · intro h
    obtain ⟨body, rfl, hkind⟩ := h.ending
    have hordered := List.pairwise_append.1 h.ordered
    have hmem : ∀ t ∈ body, t ∈ body ++ [⟨.terminal, "", .empty line.utf8ByteSize⟩] :=
      fun t ht => List.mem_append_left _ ht
    refine ⟨body, rfl, hkind, fun t ht => ⟨Nat.zero_le _, ?_⟩, hordered.1, ?_,
      fun t ht => h.cut t (hmem t ht), fun t ht u hu => h.munch t (hmem t ht) u (hmem u hu)⟩
    · exact hordered.2.2 t ht _ List.mem_cons_self
    · intro i hi _ hfree
      refine h.blank i hi fun t ht => ?_
      rcases List.mem_append.1 ht with ht | ht
      · exact hfree t ht
      · -- the end of the line has no width, so it covers no byte
        rw [List.mem_singleton.1 ht]
        exact not_covers_empty _ i
  · intro h
    obtain ⟨body, rfl, h⟩ := h
    refine ⟨⟨body, rfl, h.kind_ne⟩, ?_, ?_, ?_, ?_⟩
    · refine List.pairwise_append.2 ⟨h.ordered, List.pairwise_singleton _ _, fun t ht u hu => ?_⟩
      rw [List.mem_singleton.1 hu]
      exact (h.inside t ht).2
    · intro i hi hfree
      exact h.blank i hi (Nat.zero_le i) fun t ht => hfree t (List.mem_append_left _ ht)
    · intro t ht
      rcases List.mem_append.1 ht with ht | ht
      · exact h.cut t ht
      · rw [List.mem_singleton.1 ht]
        exact ⟨rfl, ByteArray.extract_same⟩
    · intro t ht u hu htw huw
      have hbody : ∀ v ∈ body ++ [⟨.terminal, "", .empty line.utf8ByteSize⟩],
          v.kind = .word → v ∈ body := by
        intro v hv hvw
        rcases List.mem_append.1 hv with hv | hv
        · exact hv
        · rw [List.mem_singleton.1 hv] at hvw
          cases hvw
      exact h.munch t (hbody t ht htw) u (hbody u hu huw) htw huw

/-! ### One step -/

/-- No token is empty. -/
theorem Cover.start_lt_stop (h : Cover line offset ts) (ht : t ∈ ts) :
    t.span.start < t.span.stop := by
  obtain ⟨hproper, hcut⟩ := h.cut t ht
  obtain ⟨c, w, hcw, -⟩ := Token.spelling_eq_cons (h.kind_ne t ht) hproper
  have hsize := congrArg ByteArray.size hcut
  have := c.utf8Size_pos
  rw [hcw, size_utf8Encode, byteLength_cons, ByteArray.size_extract] at hsize
  omega

/-- A token that begins at an offset between two characters stands there. -/
theorem Cover.exists_of_start (h : Cover line offset ts) (ht : t ∈ ts)
    (hline : line.toList = before ++ cs) (hstart : t.span.start = byteLength before) :
    ∃ after, cs = t.spelling ++ after
      ∧ t.span = ⟨byteLength before, byteLength before + byteLength t.spelling⟩ := by
  have hlt := h.start_lt_stop ht
  have hcut := (h.cut t ht).2
  rw [hstart] at hlt
  rw [hstart] at hcut
  obtain ⟨after, hafter, hstop⟩ :=
    exists_of_extract hline (Nat.le_of_lt hlt) (h.inside t ht).2 hcut
  exact ⟨after, hafter, by rw [← hstop, ← hstart]⟩

theorem cover_done (hline : line.toList = before) : Cover line (byteLength before) [] := by
  refine ⟨nofun, nofun, .nil, fun i hi hle => ?_, nofun, nofun⟩
  rw [String.toUTF8_eq_toByteArray, String.size_toByteArray, utf8ByteSize_eq, hline] at hi
  omega

theorem byteLength_snoc_blank (before : List Char) :
    byteLength (before ++ [' ']) = byteLength before + 1 := byteLength_append before [' ']

/-- A blank in front of a cover. -/
theorem cover_blank (hline : line.toList = before ++ ' ' :: cs)
    (h : Cover line (byteLength before + 1) ts) : Cover line (byteLength before) ts := by
  refine { h with inside := fun t ht => ?_, blank := fun i hi hle hfree => ?_ }
  · obtain ⟨hstart, hstop⟩ := h.inside t ht
    exact ⟨Nat.le_of_succ_le hstart, hstop⟩
  · rcases Nat.eq_or_lt_of_le hle with rfl | hlt
    · exact (getElem_eq_blank_iff hline hi).2 rfl
    · exact h.blank i hi hlt hfree

/-- No word begins where a word cannot go on. -/
theorem Cover.kind_ne_word (h : Cover line offset ts) (ht : t ∈ ts)
    (hline : line.toList = before ++ cs) (hcs : Token.Apart cs)
    (hstart : t.span.start = byteLength before) : t.kind ≠ .word := by
  intro hword
  obtain ⟨after, rfl, -⟩ := h.exists_of_start ht hline hstart
  obtain ⟨c, w, hcw, -, hiff⟩ := Token.spelling_eq_cons (h.kind_ne t ht) (h.cut t ht).1
  rw [hcw, List.cons_append, Token.apart_cons, hiff.1 hword] at hcs
  cases hcs

/-- A token in front of a cover. -/
theorem cover_token {after : List Char} (hline : line.toList = before ++ t.spelling ++ after)
    (hnext : t.Next (byteLength before) after) (h : Cover line t.span.stop ts) :
    Cover line (byteLength before) (t :: ts) := by
  obtain ⟨hstart, hstop⟩ : t.span.start = byteLength before
      ∧ t.span.stop = byteLength (before ++ t.spelling) := by
    rw [hnext.span_eq, byteLength_append]
    exact ⟨rfl, rfl⟩
  have hcut : t.CutFrom line := by
    refine ⟨hnext.proper, ?_⟩
    rw [hnext.span_eq]
    exact extract_of_toList hline
  have hlt : t.span.start < t.span.stop := hnext.start_lt_stop
  have hle : t.span.stop ≤ line.utf8ByteSize := by
    rw [hstop, utf8ByteSize_eq, hline, byteLength_append (before ++ t.spelling)]
    exact Nat.le_add_right _ _
  constructor
  case kind_ne => exact List.forall_mem_cons.2 ⟨hnext.kind_ne, h.kind_ne⟩
  case inside =>
    refine List.forall_mem_cons.2 ⟨⟨Nat.le_of_eq hstart.symm, hle⟩, fun u hu => ?_⟩
    have := h.inside u hu
    omega
  case ordered => exact List.pairwise_cons.2 ⟨fun u hu => (h.inside u hu).1, h.ordered⟩
  case blank =>
    intro i hi hle hfree
    obtain ⟨hfree, hfrees⟩ := List.forall_mem_cons.1 hfree
    exact h.blank i hi (Nat.le_of_not_lt fun hlt => hfree ⟨by omega, hlt⟩) hfrees
  case cut => exact List.forall_mem_cons.2 ⟨hcut, h.cut⟩
  case munch =>
    -- words that touch are `t` and a later one, which cannot begin right behind `t`, or both
    -- are later ones
    intro u hu v hv huw hvw heq
    rcases List.mem_cons.1 hu with rfl | hu'
    · rcases List.mem_cons.1 hv with rfl | hv'
      · omega
      · exact h.kind_ne_word hv' hline (hnext.munch huw) (heq.symm.trans hstop) hvw
    · rcases List.mem_cons.1 hv with rfl | hv'
      · have := h.inside u hu'
        have := h.start_lt_stop hu'
        omega
      · exact h.munch u hu' v hv' huw hvw heq

/-- The tokens that are read cover the line. -/
theorem cover_of_reads (h : Token.Reads offset cs ts) (hline : line.toList = before ++ cs)
    (hoffset : offset = byteLength before) : Cover line offset ts := by
  induction h generalizing before with
  | done =>
    rw [hoffset]
    exact cover_done (by simpa using hline)
  | blank _ ih =>
    rw [List.append_cons] at hline
    rw [hoffset] at ih ⊢
    exact cover_blank (by simpa using hline) (ih hline (byteLength_snoc_blank before).symm)
  | @token _ t after ts hnext _ ih =>
    subst hoffset
    rw [← List.append_assoc] at hline
    refine cover_token hline hnext (ih hline ?_)
    rw [hnext.span_eq, byteLength_append]

/-! ### What a cover shows -/

/-- Without a token at the offset there is a blank. -/
theorem Cover.of_blank {c : Char} (h : Cover line (byteLength before) ts)
    (hline : line.toList = before ++ c :: cs)
    (hnone : ∀ t ∈ ts, t.span.start ≠ byteLength before) :
    c = ' ' ∧ Cover line (byteLength before + 1) ts := by
  constructor
  · have hlt := lt_size_of_toList hline
    refine (getElem_eq_blank_iff hline hlt).1 (h.blank _ hlt (Nat.le_refl _) fun t ht hcov => ?_)
    exact hnone t ht (Nat.le_antisymm hcov.1 (h.inside t ht).1)
  · refine { h with inside := fun t ht => ?_, blank := fun i hi hle => ?_ }
    · obtain ⟨hstart, hstop⟩ := h.inside t ht
      exact ⟨Nat.lt_of_le_of_ne hstart (hnone t ht).symm, hstop⟩
    · exact h.blank i hi (Nat.le_of_succ_le hle)

/-- The first token left away, the others cover the line from its end on. -/
theorem Cover.tail (h : Cover line offset (t :: ts)) : Cover line t.span.stop ts := by
  have hmem : ∀ u ∈ ts, u ∈ t :: ts := fun u hu => List.mem_cons_of_mem _ hu
  obtain ⟨hordered, hordered'⟩ := List.pairwise_cons.1 h.ordered
  refine ⟨fun u hu => h.kind_ne u (hmem u hu),
    fun u hu => ⟨hordered u hu, (h.inside u (hmem u hu)).2⟩, hordered', fun i hi hle hfree => ?_,
    fun u hu => h.cut u (hmem u hu), fun u hu v hv => h.munch u (hmem u hu) v (hmem v hv)⟩
  have hlt := h.start_lt_stop List.mem_cons_self
  have hinside := h.inside t List.mem_cons_self
  refine h.blank i hi (by omega) (List.forall_mem_cons.2 ⟨fun hcov => ?_, hfree⟩)
  exact Nat.lt_irrefl _ (Nat.lt_of_lt_of_le hcov.2 hle)

/-- A word is not followed by a character that it could have taken. -/
theorem Cover.apart {after : List Char} (h : Cover line offset (t :: ts))
    (hline : line.toList = before ++ after) (hstop : t.span.stop = byteLength before)
    (hword : t.kind = .word) : Token.Apart after := by
  cases after with
  | nil => exact Token.apart_nil
  | cons c after =>
    refine Token.apart_cons.2 (Bool.eq_false_iff.2 fun hc => ?_)
    have htail := h.tail
    rw [hstop] at htail
    -- The character is no blank, so a token begins there, and this token is a word.
    by_cases hex : ∃ u ∈ ts, u.span.start = byteLength before
    · obtain ⟨u, hu, hstart⟩ := hex
      obtain ⟨after', hafter, -⟩ := htail.exists_of_start hu hline hstart
      obtain ⟨d, w, hdw, -, hiff⟩ := Token.spelling_eq_cons (htail.kind_ne u hu) (htail.cut u hu).1
      rw [hdw] at hafter
      cases hafter
      exact h.munch t List.mem_cons_self u (List.mem_cons_of_mem _ hu) hword (hiff.2 hc)
        (hstop.trans hstart.symm)
    · obtain ⟨rfl, -⟩ := htail.of_blank hline fun u hu hstart => hex ⟨u, hu, hstart⟩
      cases hc

/-- A token at the offset is the first one, and no other token could be there. -/
theorem Cover.of_token (h : Cover line (byteLength before) ts)
    (hline : line.toList = before ++ cs) (ht : t ∈ ts)
    (hstart : t.span.start = byteLength before) :
    ∃ after us, ts = t :: us ∧ cs = t.spelling ++ after ∧ t.Next (byteLength before) after
      ∧ Cover line t.span.stop us := by
  obtain ⟨u, us, rfl⟩ := List.exists_cons_of_ne_nil (List.ne_nil_of_mem ht)
  obtain rfl : t = u := by
    rcases List.mem_cons.1 ht with rfl | ht'
    · rfl
    · -- a token in front of `t` would lie before the offset
      have := (List.pairwise_cons.1 h.ordered).1 t ht'
      have := h.inside u List.mem_cons_self
      have := h.start_lt_stop List.mem_cons_self
      omega
  obtain ⟨after, rfl, hspan⟩ := h.exists_of_start ht hline hstart
  refine ⟨after, us, rfl, rfl, ⟨h.kind_ne t ht, (h.cut t ht).1, hspan, fun hword => ?_⟩, h.tail⟩
  rw [← List.append_assoc] at hline
  exact h.apart hline (by rw [hspan, byteLength_append]) hword

/-- A cover of a line is what is read there. -/
theorem reads_of_cover (hline : line.toList = before ++ cs)
    (h : Cover line (byteLength before) ts) : Token.Reads (byteLength before) cs ts := by
  -- Blanks leave the tokens as they are, so the induction is on the characters left.
  induction hn : cs.length using Nat.strongRecOn generalizing before cs ts with
  | ind n ih =>
    subst hn
    by_cases hex : ∃ t ∈ ts, t.span.start = byteLength before
    · obtain ⟨t, ht, hstart⟩ := hex
      obtain ⟨after, us, rfl, rfl, hnext, htail⟩ := h.of_token hline ht hstart
      obtain ⟨c, w, hcw, -⟩ := Token.spelling_eq_cons hnext.kind_ne hnext.proper
      have hlt : after.length < (t.spelling ++ after).length := by
        rw [hcw, List.length_append, List.length_cons]
        omega
      have hstop : t.span.stop = byteLength (before ++ t.spelling) := by
        rw [hnext.span_eq, byteLength_append]
      rw [← List.append_assoc] at hline
      rw [hstop] at htail
      refine .token hnext ?_
      rw [hstop]
      exact ih _ hlt hline htail rfl
    · have hnone : ∀ t ∈ ts, t.span.start ≠ byteLength before :=
        fun t ht hstart => hex ⟨t, ht, hstart⟩
      cases cs with
      | nil =>
        cases ts with
        | nil => exact .done
        | cons t ts =>
          -- there is no room for a token behind the last character
          have hinside := h.inside t List.mem_cons_self
          have hlt := h.start_lt_stop List.mem_cons_self
          rw [utf8ByteSize_eq, hline, List.append_nil] at hinside
          omega
      | cons c cs =>
        obtain ⟨rfl, htail⟩ := h.of_blank hline hnone
        rw [List.append_cons] at hline
        rw [← byteLength_snoc_blank] at htail
        refine .blank ?_
        rw [← byteLength_snoc_blank]
        exact ih _ (Nat.lt_succ_self _) hline htail rfl

/-- Reading and covering a line are the same. -/
theorem cover_iff_reads : Cover line 0 ts ↔ Token.Reads 0 line.toList ts :=
  ⟨reads_of_cover (List.nil_append _).symm, fun h => cover_of_reads h (List.nil_append _).symm rfl⟩

/-! ### Whole lines -/

/-- The tokens of a line are those that are read from its start on, and its end. -/
theorem tokenize_eq_ok_iff : (∃ s, tokenize line = .ok s ∧ s.tokens = ts) ↔
    ∃ body, ts = body ++ [⟨.terminal, "", .empty line.utf8ByteSize⟩]
      ∧ Token.Reads 0 line.toList body := by
  simp only [← Token.scan_eq_ok_iff, utf8ByteSize_eq]
  constructor
  · intro h
    obtain ⟨s, hs, rfl⟩ := h
    obtain ⟨hscan, hterminal, -⟩ := TokenStream.of_tokenize hs
    exact ⟨s.body, by rw [TokenStream.tokens, hterminal], hscan⟩
  · intro h
    obtain ⟨body, rfl, hscan⟩ := h
    obtain ⟨s, hs, rfl⟩ := TokenStream.exists_of_scan hscan
    exact ⟨s, hs, by rw [TokenStream.tokens, (TokenStream.of_tokenize hs).2.1]⟩

/-- Scanning decides the lexical grammar. -/
theorem iff_tokenize :
    LexicalGrammar line ts ↔ ∃ s, tokenize line = .ok s ∧ s.tokens = ts := by
  simp only [iff_cover, cover_iff_reads, tokenize_eq_ok_iff]

theorem unique {us : List Token} (h : LexicalGrammar line ts) (h' : LexicalGrammar line us) :
    ts = us := by
  obtain ⟨s, hs, rfl⟩ := iff_tokenize.1 h
  obtain ⟨s', hs', rfl⟩ := iff_tokenize.1 h'
  rw [hs] at hs'
  cases hs'
  rfl

/-- Spans begin and end between characters. -/
theorem isValid (h : LexicalGrammar line ts) (ht : t ∈ ts) :
    String.Pos.Raw.IsValid line ⟨t.span.start⟩ ∧ String.Pos.Raw.IsValid line ⟨t.span.stop⟩ := by
  obtain ⟨s, hs, rfl⟩ := iff_tokenize.1 h
  obtain ⟨before, after, hdelimits, -⟩ := TokenStream.exists_delimits hs ht
  exact ⟨hdelimits.isValid_start, hdelimits.isValid_stop⟩

end LexicalGrammar

/-! ### Where tokens stand -/

namespace TokenStream

variable {line : String} {s : TokenStream} {t : Token}

/-- Tokens are listed from left to right and do not overlap. -/
theorem ordered (hs : tokenize line = .ok s) : s.tokens.Pairwise (·.span.stop ≤ ·.span.start) :=
  (LexicalGrammar.iff_tokenize.2 ⟨s, hs, rfl⟩).ordered

/-- Before the end of the line no token is empty, and none goes past the end. -/
theorem span_of_mem_body (hs : tokenize line = .ok s) (ht : t ∈ s.body) :
    t.span.start < t.span.stop ∧ t.span.stop ≤ line.utf8ByteSize := by
  obtain ⟨before, after, hdelimits, hempty⟩ := exists_delimits hs (List.mem_append_left _ ht)
  have hne := mt (hdelimits.start_eq_stop_iff.trans hempty).1 (s.body_kind t ht)
  exact ⟨Nat.lt_of_le_of_ne hdelimits.start_le_stop hne, hdelimits.stop_le⟩

/-- No two tokens stand at the same place. -/
theorem index_unique (hs : tokenize line = .ok s) {i j : Nat} (hi : i < s.tokens.length)
    (hj : j < s.tokens.length) (h : s.tokens[i].span = s.tokens[j].span) : i = j := by
  -- of two tokens the one in front is not the end of the line, so it is not empty
  have hapart : ∀ a b (hb : b < s.tokens.length) (hab : a < b),
      s.tokens[a].span ≠ s.tokens[b].span := by
    intro a b hb hab heq
    have hlength : s.tokens.length = s.body.length + 1 := by simp [tokens]
    have ha : a < s.body.length := by omega
    have hget : s.tokens[a] = s.body[a] := List.getElem_append_left ha
    have hlt := (span_of_mem_body hs (List.getElem_mem ha)).1
    have hle := List.pairwise_iff_getElem.1 (ordered hs) a b (by omega) hb hab
    rw [← heq, hget] at hle
    omega
  rcases Nat.lt_trichotomy i j with hlt | heq | hlt
  · exact absurd h (hapart i j hj hlt)
  · exact heq
  · exact absurd h.symm (hapart j i hi hlt)

end TokenStream

/-- **A line has the tokens that the lexical grammar gives it.** Tokenizing returns `ts` just
when `ts` are tokens of the line in the sense of `LexicalGrammar`; the spans of such tokens
begin and end between characters, and a line has them in one way only. -/
theorem tokenize_iff_lexicalGrammar (line : String) (ts : List Token) :
    ((∃ s, tokenize line = .ok s ∧ s.tokens = ts) ↔ LexicalGrammar line ts)
      ∧ (LexicalGrammar line ts → ∀ t ∈ ts, String.Pos.Raw.IsValid line ⟨t.span.start⟩
          ∧ String.Pos.Raw.IsValid line ⟨t.span.stop⟩)
      ∧ ∀ us, LexicalGrammar line ts → LexicalGrammar line us → ts = us :=
  ⟨LexicalGrammar.iff_tokenize.symm, fun h _ => h.isValid, fun _ => LexicalGrammar.unique⟩

/-- The letter of the text takes two bytes. -/
theorem lexicalGrammar_multibyte :
    LexicalGrammar "a1\"é\" +" [⟨.word, "a1", ⟨0, 2⟩⟩, ⟨.text, "é", ⟨2, 6⟩⟩, ⟨.plus, "+", ⟨7, 8⟩⟩,
      ⟨.terminal, "", ⟨8, 8⟩⟩] := by
  have hword : Token.Next 0 ⟨.word, "a1", ⟨0, 2⟩⟩ "\"é\" +".toList :=
    ⟨by decide, (Token.proper_word 'a' ['1'] _).2 ⟨rfl, List.forall_mem_singleton.2 rfl⟩, rfl,
      fun _ => Token.apart_cons.2 rfl⟩
  have htext : Token.Next 2 ⟨.text, "é", ⟨2, 6⟩⟩ " +".toList :=
    ⟨by decide, (Token.proper_text ['é'] _).2 (by decide), rfl, fun h => by cases h⟩
  have hplus : Token.Next 7 ⟨.plus, "+", ⟨7, 8⟩⟩ [] :=
    ⟨by decide, rfl, rfl, fun h => by cases h⟩
  have hreads : Token.Reads 0 "a1\"é\" +".toList
      [⟨.word, "a1", ⟨0, 2⟩⟩, ⟨.text, "é", ⟨2, 6⟩⟩, ⟨.plus, "+", ⟨7, 8⟩⟩] :=
    .token hword (.token htext (.blank (.token hplus .done)))
  refine (tokenize_iff_lexicalGrammar _ _).1.1 ?_
  obtain ⟨s, hs, hbody⟩ := TokenStream.exists_of_scan (Token.scan_eq_ok_iff.2 hreads)
  refine ⟨s, hs, ?_⟩
  rw [TokenStream.tokens, hbody, (TokenStream.of_tokenize hs).2.1]
  rfl

end CommandLine
