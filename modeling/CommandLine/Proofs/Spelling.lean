import CommandLine.Assembly
import CommandLine.Proofs.Bytes
/-!
# CommandLine.Proofs.Spelling

**What scanning reads.** `Token.Reads` says, without the scanner, which tokens a list of
characters has from a byte offset on; `Token.scan_eq_ok_iff` says that the scanner finds
exactly these.

* `Token.spelling` is the way back from a token to the characters it stands for, and
  `Token.Proper` says which literals a kind of token can have.
* `Token.Next` describes one token in front of the rest of a line. Its last field is
  maximal munch: a word is not followed by a character that it could have taken.
* `Token.exists_of_mem_reads` finds each token of a line at the place that its span names;
  `TokenStream.exists_delimits` says the same of a whole line, its end included.
-/

namespace CommandLine

namespace Token

open Text

/-- The characters that a token stands for: a text gets its quotes back. -/
def spelling (t : Token) : List Char :=
  match t.kind with
  | .text => '"' :: (t.literal.toList ++ ['"'])
  | _ => t.literal.toList

/-- The literal is one that a token of this kind can have. -/
def Proper (t : Token) : Prop :=
  match t.kind with
  | .word => t.literal ≠ "" ∧ ∀ c ∈ t.literal.toList, c.isAlphanum
  | .text => '"' ∉ t.literal.toList
  | .slash => t.literal = "/"
  | .colon => t.literal = ":"
  | .plus => t.literal = "+"
  | .minus => t.literal = "-"
  | .terminal => t.literal = ""

/-! ### Where words and texts end -/

/-- No word that ends here goes on into these characters. -/
def Apart (cs : List Char) : Prop := ∀ c ∈ cs.head?, c.isAlphanum = false

@[simp] theorem apart_nil : Apart [] := by simp [Apart]

@[simp] theorem apart_cons {c : Char} {cs : List Char} :
    Apart (c :: cs) ↔ c.isAlphanum = false := by simp [Apart]

theorem Apart.append {cs ds : List Char} (hcs : Apart cs) (hds : Apart ds) : Apart (cs ++ ds) := by
  cases cs with
  | nil => exact hds
  | cons c cs => exact hcs

theorem Apart.of_append {cs ds : List Char} (h : Apart (cs ++ ds)) : Apart cs := by
  cases cs with
  | nil => exact apart_nil
  | cons c cs => exact h

theorem apart_dropWhile (cs : List Char) : Apart (cs.dropWhile isWordChar) := by
  have hhead := List.head?_dropWhile_not isWordChar cs
  intro c hc
  rw [Option.mem_def.1 hc] at hhead
  exact hhead

theorem takeWhile_append {w cs : List Char} (hw : ∀ c ∈ w, c.isAlphanum) (hcs : Apart cs) :
    (w ++ cs).takeWhile isWordChar = w := by
  rw [List.takeWhile_append_of_pos (p := isWordChar) hw]
  cases cs with
  | nil => simp
  | cons c cs => simp [isWordChar, apart_cons.1 hcs]

theorem dropWhile_append {w cs : List Char} (hw : ∀ c ∈ w, c.isAlphanum) (hcs : Apart cs) :
    (w ++ cs).dropWhile isWordChar = cs := by
  rw [List.dropWhile_append_of_pos (p := isWordChar) hw]
  cases cs with
  | nil => rfl
  | cons c cs => simp [isWordChar, apart_cons.1 hcs]

theorem takeWhile_quote {w : List Char} (hw : '"' ∉ w) (cs : List Char) :
    (w ++ '"' :: cs).takeWhile (· ≠ '"') = w := by
  rw [List.takeWhile_append_of_pos (by simpa using fun c hc => ne_of_mem_of_not_mem hc hw)]
  simp

theorem dropWhile_quote {w : List Char} (hw : '"' ∉ w) (cs : List Char) :
    (w ++ '"' :: cs).dropWhile (· ≠ '"') = '"' :: cs := by
  rw [List.dropWhile_append_of_pos (by simpa using fun c hc => ne_of_mem_of_not_mem hc hw)]
  simp

theorem quote_not_mem_takeWhile (cs : List Char) : '"' ∉ cs.takeWhile (· ≠ '"') := by
  intro h
  simpa using List.all_eq_true.1 List.all_takeWhile _ h

/-- What is left from the next quote on begins with it. -/
theorem eq_quote_of_dropWhile {cs after : List Char} {q : Char}
    (h : cs.dropWhile (· ≠ '"') = q :: after) : q = '"' := by
  have hhead := List.head?_dropWhile_not (· ≠ '"') cs
  rw [h] at hhead
  simpa using hhead

/-! ### The three forms of tokens -/

/-- What there is to know about a mark: it is the character that it is made of. -/
theorem of_ofMark? {c : Char} {kind : Kind} (h : Kind.ofMark? c = some kind) :
    kind ≠ .word ∧ c.isAlphanum = false ∧ c ≠ '"' ∧ c ≠ ' ' ∧ c.utf8Size = 1 := by
  unfold Kind.ofMark? at h
  split at h <;> cases h <;> decide

theorem proper_word (c : Char) (w : List Char) (span : Span) :
    (⟨.word, String.ofList (c :: w), span⟩ : Token).Proper ↔
      c.isAlphanum ∧ ∀ d ∈ w, d.isAlphanum := by
  simp [Proper]

theorem proper_text (w : List Char) (span : Span) :
    (⟨.text, String.ofList w, span⟩ : Token).Proper ↔ '"' ∉ w := by
  simp [Proper]

theorem proper_mark {c : Char} {kind : Kind} (h : Kind.ofMark? c = some kind) (span : Span) :
    (⟨kind, String.ofList [c], span⟩ : Token).Proper := by
  unfold Kind.ofMark? at h
  split at h <;> cases h <;> rfl

@[simp] theorem spelling_word (literal : String) (span : Span) :
    (⟨.word, literal, span⟩ : Token).spelling = literal.toList := rfl

@[simp] theorem spelling_text (literal : String) (span : Span) :
    (⟨.text, literal, span⟩ : Token).spelling = '"' :: (literal.toList ++ ['"']) := rfl

theorem spelling_mark {c : Char} {kind : Kind} (h : Kind.ofMark? c = some kind) (span : Span) :
    (⟨kind, String.ofList [c], span⟩ : Token).spelling = [c] := by
  unfold Kind.ofMark? at h
  split at h <;> cases h <;> simp [spelling]

/-- A word, a text or a mark, by the characters that it consists of. -/
inductive Form : Token → Prop
  | word {c : Char} {w : List Char} {span : Span} (hc : c.isAlphanum)
      (hw : ∀ d ∈ w, d.isAlphanum) : Form ⟨.word, String.ofList (c :: w), span⟩
  | text {w : List Char} {span : Span} (hw : '"' ∉ w) : Form ⟨.text, String.ofList w, span⟩
  | mark {c : Char} {kind : Kind} {span : Span} (h : Kind.ofMark? c = some kind) :
      Form ⟨kind, String.ofList [c], span⟩

theorem form_of_proper {t : Token} (hkind : t.kind ≠ .terminal) (h : t.Proper) : t.Form := by
  obtain ⟨kind, literal, span⟩ := t
  obtain ⟨w, rfl⟩ : ∃ w, literal = String.ofList w := ⟨literal.toList, by simp⟩
  cases kind with
  | word =>
    cases w with
    | nil => exact absurd rfl h.1
    | cons c w => exact .word ((proper_word c w span).1 h).1 ((proper_word c w span).1 h).2
  | text => exact .text ((proper_text w span).1 h)
  | slash =>
    obtain rfl : w = ['/'] := String.ofList_injective h
    exact .mark rfl
  | colon =>
    obtain rfl : w = [':'] := String.ofList_injective h
    exact .mark rfl
  | plus =>
    obtain rfl : w = ['+'] := String.ofList_injective h
    exact .mark rfl
  | minus =>
    obtain rfl : w = ['-'] := String.ofList_injective h
    exact .mark rfl
  | terminal => exact absurd rfl hkind

/-! ### One token -/

theorem first_word {c : Char} (hc : c.isAlphanum) {w after : List Char}
    (hw : ∀ d ∈ w, d.isAlphanum) (hafter : Apart after) (offset : Nat) :
    first offset c (w ++ after) =
      .ok (⟨.word, String.ofList (c :: w), ⟨offset, offset + byteLength (c :: w)⟩⟩, after) := by
  have hc' : isWordChar c := hc
  rw [first, if_pos hc', takeWhile_append hw hafter, dropWhile_append hw hafter]

theorem first_text {w : List Char} (hw : '"' ∉ w) (offset : Nat) (after : List Char) :
    first offset '"' (w ++ '"' :: after) =
      .ok (⟨.text, String.ofList w, ⟨offset, offset + byteLength w + 2⟩⟩, after) := by
  rw [first, if_neg (by decide), if_pos rfl, takeWhile_quote hw, dropWhile_quote hw]

theorem first_mark {c : Char} {kind : Kind} (h : Kind.ofMark? c = some kind) (offset : Nat)
    (rest : List Char) :
    first offset c rest = .ok (⟨kind, String.ofList [c], ⟨offset, offset + 1⟩⟩, rest) := by
  obtain ⟨-, hc, hq, -⟩ := of_ofMark? h
  rw [first, if_neg (by simp [isWordChar, hc]), if_neg hq, h]

/-- `t` can stand at byte `offset` with `after` behind it. -/
structure Next (offset : Nat) (t : Token) (after : List Char) : Prop where
  kind_ne : t.kind ≠ .terminal
  proper : t.Proper
  span_eq : t.span = ⟨offset, offset + byteLength t.spelling⟩
  munch : t.kind = .word → Apart after

theorem byteLength_quoted (w : List Char) :
    byteLength ('"' :: (w ++ ['"'])) = byteLength w + 2 := by
  have : '"'.utf8Size = 1 := rfl
  simp only [byteLength_cons, byteLength_append, byteLength_nil]
  omega

/-- What has no quote in it can stand anywhere as a text. -/
theorem next_text {offset : Nat} {after : List Char} {literal : String}
    (h : '"' ∉ literal.toList) :
    Next offset ⟨.text, literal, ⟨offset, offset + byteLength literal.toList + 2⟩⟩ after where
  kind_ne := Kind.noConfusion
  proper := h
  span_eq := by rw [spelling_text, byteLength_quoted, Nat.add_assoc]
  munch := fun hword => Kind.noConfusion hword

/-- What `first` reads can stand there, and no character is lost. -/
theorem next_of_first {offset : Nat} {c : Char} {rest after : List Char} {t : Token}
    (h : first offset c rest = .ok (t, after)) :
    Next offset t after ∧ c :: rest = t.spelling ++ after := by
  have hkind := kind_ne_terminal_of_first h
  unfold first at h
  split at h
  · next hc =>
    cases h
    -- a word takes all characters that it can, so it is apart from the rest
    have hall : ∀ d ∈ rest.takeWhile isWordChar, d.isAlphanum :=
      fun d hd => List.all_eq_true.1 List.all_takeWhile d hd
    refine ⟨⟨hkind, (proper_word ..).2 ⟨hc, hall⟩, by simp, fun _ => ?_⟩, by simp⟩
    exact apart_dropWhile rest
  · split at h
    · next hc =>
      split at h
      · cases h
      · next q tail hdrop =>
        cases h
        -- the characters up to the next quote, the quote, and what is behind it
        have hrest := List.takeWhile_append_dropWhile (p := (· ≠ '"')) (l := rest)
        rw [hdrop, eq_quote_of_dropWhile hdrop] at hrest
        refine ⟨⟨hkind, (proper_text ..).2 ?_, ?_, fun hw => Kind.noConfusion hw⟩, ?_⟩
        · exact quote_not_mem_takeWhile rest
        · rw [spelling_text, String.toList_ofList, byteLength_quoted, Nat.add_assoc]
        · rw [spelling_text, String.toList_ofList, hc, List.cons_append, List.append_assoc,
            List.singleton_append, hrest]
    · split at h
      · next kind hmark =>
        cases h
        obtain ⟨hword, -, -, -, hsize⟩ := of_ofMark? hmark
        refine ⟨⟨hkind, proper_mark hmark _, ?_, fun hw => absurd hw hword⟩, ?_⟩
        · rw [spelling_mark hmark, byteLength_cons, byteLength_nil, hsize]
        · rw [spelling_mark hmark, List.singleton_append]
      · cases h

/-- What can stand there is what `first` reads. -/
theorem first_of_next {offset : Nat} {c : Char} {rest after : List Char} {t : Token}
    (h : Next offset t after) (hs : c :: rest = t.spelling ++ after) :
    first offset c rest = .ok (t, after) := by
  obtain ⟨hkind, hproper, hspan, hmunch⟩ := h
  cases form_of_proper hkind hproper with
  | @word d w span hd hw =>
    rw [spelling_word, String.toList_ofList] at hs hspan
    obtain rfl : span = ⟨offset, offset + byteLength (d :: w)⟩ := hspan
    cases hs
    exact first_word hd hw (hmunch rfl) offset
  | @text w span hw =>
    rw [spelling_text, String.toList_ofList] at hs hspan
    obtain rfl : span = ⟨offset, offset + byteLength ('"' :: (w ++ ['"']))⟩ := hspan
    rw [List.cons_append, List.append_assoc] at hs
    cases hs
    rw [List.singleton_append, first_text hw, byteLength_quoted, Nat.add_assoc]
  | @mark d kind span hmark =>
    rw [spelling_mark hmark] at hs hspan
    obtain rfl : span = ⟨offset, offset + byteLength [d]⟩ := hspan
    cases hs
    rw [first_mark hmark, byteLength_cons, byteLength_nil, (of_ofMark? hmark).2.2.2.2]
    rfl

theorem spelling_eq_cons {t : Token} (hkind : t.kind ≠ .terminal) (h : t.Proper) :
    ∃ c w, t.spelling = c :: w ∧ c ≠ ' ' ∧ (t.kind = .word ↔ c.isAlphanum) := by
  cases form_of_proper hkind h with
  | @word c w _ hc _ =>
    refine ⟨c, w, by rw [spelling_word, String.toList_ofList], ?_, by simp [hc]⟩
    rintro rfl
    cases hc
  | text _ => exact ⟨'"', _, rfl, by decide, nofun, nofun⟩
  | mark hmark =>
    obtain ⟨hword, hc, -, hblank, -⟩ := of_ofMark? hmark
    exact ⟨_, [], spelling_mark hmark _, hblank, by simp [hword, hc]⟩

/-- No token is empty. -/
theorem Next.start_lt_stop {offset : Nat} {t : Token} {cs : List Char} (h : Next offset t cs) :
    t.span.start < t.span.stop := by
  obtain ⟨c, w, hcw, -⟩ := spelling_eq_cons h.kind_ne h.proper
  have hpos := c.utf8Size_pos
  rw [h.span_eq, hcw, byteLength_cons]
  show offset < offset + (c.utf8Size + byteLength w)
  omega

/-! ### All tokens -/

/-- `ts` are the tokens of the characters `cs`, which begin at byte `offset` of a line. -/
inductive Reads : Nat → List Char → List Token → Prop
  /-- Nothing is left. -/
  | done {offset : Nat} : Reads offset [] []
  /-- A blank is dropped. -/
  | blank {offset : Nat} {cs : List Char} {ts : List Token} (h : Reads (offset + 1) cs ts) :
      Reads offset (' ' :: cs) ts
  /-- A token is taken. -/
  | token {offset : Nat} {t : Token} {after : List Char} {ts : List Token}
      (hnext : Next offset t after) (h : Reads t.span.stop after ts) :
      Reads offset (t.spelling ++ after) (t :: ts)

theorem scan_blank (offset : Nat) (cs : List Char) :
    scan offset (' ' :: cs) = scan (offset + 1) cs := by
  rw [scan, if_pos rfl]

theorem scan_next {offset : Nat} {t : Token} {after : List Char} (h : Next offset t after) :
    scan offset (t.spelling ++ after) = (scan t.span.stop after).map (t :: ·) := by
  obtain ⟨c, w, hcw, hblank, -⟩ := spelling_eq_cons h.kind_ne h.proper
  have hfirst : first offset c (w ++ after) = .ok (t, after) :=
    first_of_next h (by rw [hcw, List.cons_append])
  rw [hcw, List.cons_append, scan, if_neg hblank]
  split
  · next fault hf => rw [hfirst] at hf; cases hf
  · next t' after' hf => rw [hfirst] at hf; cases hf; rfl

theorem reads_of_scan {offset : Nat} {cs : List Char} {ts : List Token}
    (h : scan offset cs = .ok ts) : Reads offset cs ts := by
  fun_induction scan offset cs generalizing ts with
  | case1 => cases h; exact .done
  | case2 offset rest ih => exact .blank (ih h)
  | case3 => cases h
  | case4 offset c rest _ t after hfirst ih =>
    obtain ⟨hnext, hs⟩ := next_of_first hfirst
    cases hscan : scan t.span.stop after with
    | error fault => rw [hscan] at h; cases h
    | ok tail =>
      rw [hscan] at h
      cases h
      exact hs ▸ .token hnext (ih hscan)

/-- The scanner finds exactly the tokens that are there. -/
theorem scan_eq_ok_iff {offset : Nat} {cs : List Char} {ts : List Token} :
    scan offset cs = .ok ts ↔ Reads offset cs ts := by
  refine ⟨reads_of_scan, fun h => ?_⟩
  induction h with
  | done => rw [scan]
  | blank _ ih => rw [scan_blank, ih]
  | token hnext _ ih => rw [scan_next hnext, ih]; rfl

/-! ### Parts of what is read -/

/-- What stands apart is read behind what was read. -/
theorem Reads.append {offset : Nat} {cs ds : List Char} {ts us : List Token}
    (hcs : Reads offset cs ts) (hapart : Apart ds) (hds : Reads (offset + byteLength cs) ds us) :
    Reads offset (cs ++ ds) (ts ++ us) := by
  induction hcs with
  | done => exact hds
  | @blank offset cs ts _ ih =>
    refine .blank (ih ?_)
    have hblank : ' '.utf8Size = 1 := rfl
    rwa [Nat.add_assoc, ← hblank]
  | @token offset t after ts hnext _ ih =>
    rw [List.append_assoc]
    refine .token { hnext with munch := fun hword => (hnext.munch hword).append hapart } (ih ?_)
    rwa [hnext.span_eq, Nat.add_assoc, ← byteLength_append]

/-- A line can be cut around one of its tokens: the tokens in front of it are read up to it, and
those behind it from its end on. -/
theorem Reads.exists_of_append_cons {offset : Nat} {cs : List Char} {ts us : List Token}
    {t : Token} (h : Reads offset cs (ts ++ t :: us)) :
    ∃ before after, cs = before ++ (t.spelling ++ after) ∧ Reads offset before ts
      ∧ Next (offset + byteLength before) t after ∧ Reads t.span.stop after us := by
  generalize hall : ts ++ t :: us = all at h
  induction h generalizing ts with
  | done => exact absurd hall (by simp)
  | blank _ ih =>
    obtain ⟨before, after, rfl, hbefore, hnext, hafter⟩ := ih hall
    refine ⟨' ' :: before, after, rfl, .blank hbefore, ?_, hafter⟩
    have : ' '.utf8Size = 1 := rfl
    rwa [byteLength_cons, this, ← Nat.add_assoc]
  | @token offset u after all hnext hafter ih =>
    cases ts with
    | nil =>
      obtain ⟨rfl, rfl⟩ := List.cons.inj hall
      exact ⟨[], after, rfl, .done, hnext, hafter⟩
    | cons v ts =>
      obtain ⟨rfl, htail⟩ := List.cons.inj hall
      obtain ⟨before, after', rfl, hbefore, hnext', hafter'⟩ := ih htail
      -- the token at the front pushes all others back
      refine ⟨v.spelling ++ before, after', by rw [List.append_assoc], .token ?_ hbefore, ?_, hafter'⟩
      · exact { hnext with munch := fun hword => (hnext.munch hword).of_append }
      · rw [hnext.span_eq] at hnext'
        rwa [byteLength_append, ← Nat.add_assoc]

/-- A token of a line has its spelling at the place that its span names. -/
theorem exists_of_mem_reads {offset : Nat} {cs : List Char} {ts : List Token} {t : Token}
    (h : Reads offset cs ts) (ht : t ∈ ts) :
    ∃ before after, cs = before ++ t.spelling ++ after
      ∧ Next (offset + byteLength before) t after := by
  obtain ⟨us, vs, rfl⟩ := List.mem_iff_append.1 ht
  obtain ⟨before, after, rfl, -, hnext, -⟩ := h.exists_of_append_cons
  exact ⟨before, after, by rw [List.append_assoc], hnext⟩

end Token

/-! ### Token streams -/

/-- A stream of tokens holds what is read from the start of its line on. -/
theorem TokenStream.of_tokenize {line : String} {s : TokenStream} (h : tokenize line = .ok s) :
    Token.scan 0 line.toList = .ok s.body
      ∧ s.terminal = ⟨.terminal, "", .empty (Text.byteLength line.toList)⟩ ∧ s.line = line := by
  unfold tokenize TokenStream.ofLine at h
  split at h <;> cases h
  next hscan => exact ⟨hscan, rfl, rfl⟩

theorem TokenStream.exists_of_scan {line : String} {ts : List Token}
    (h : Token.scan 0 line.toList = .ok ts) :
    ∃ s, tokenize line = .ok s ∧ s.body = ts := by
  unfold tokenize TokenStream.ofLine
  split
  · next fault hscan => rw [h] at hscan; cases hscan
  · next body hscan => rw [h] at hscan; cases hscan; exact ⟨_, rfl, rfl⟩

/-- The span of a token is that of its spelling, and the end of the line is the only token without
any width. -/
theorem TokenStream.exists_delimits {line : String} {s : TokenStream} {t : Token}
    (hs : tokenize line = .ok s) (ht : t ∈ s.tokens) :
    ∃ before after, t.span.Delimits line before t.spelling after
      ∧ (t.spelling = [] ↔ t.kind = .terminal) := by
  obtain ⟨hscan, hterminal, -⟩ := of_tokenize hs
  rcases List.mem_append.1 ht with ht | ht
  · obtain ⟨before, after, hline, hnext⟩ :=
      Token.exists_of_mem_reads (Token.scan_eq_ok_iff.1 hscan) ht
    obtain ⟨c, w, hcw, -⟩ := Token.spelling_eq_cons hnext.kind_ne hnext.proper
    refine ⟨before, after, ?_, by simp [hcw, hnext.kind_ne]⟩
    rw [hnext.span_eq, Nat.zero_add]
    exact ⟨by rw [hline, List.append_assoc], rfl, rfl⟩
  · rw [List.mem_singleton.1 ht, hterminal]
    exact ⟨line.toList, [], ⟨(List.append_nil _).symm, rfl, rfl⟩, ⟨fun _ => rfl, fun _ => rfl⟩⟩

end CommandLine
