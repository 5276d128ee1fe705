import CommandLine.Proofs.Rendering
import CommandLine.Proofs.Splicing
import CommandLine.Proofs.Stages
import CommandLine.Proofs.Stations
/-!
# CommandLine.Proofs.Quoting

**Quotes around a value mean nothing, around a name they are an error.** A line keeps its command
when a word among its values is put between quotes, and when a text that could have been typed as
a word loses its quotes and gets blanks instead. The imperative and the names of options have to
be words, and quoted ones are reported where they stand (`quotes_around_values_and_names`).

Both halves look at one token in its place among the others. A value may be exchanged for any
other value with the same literal (`Tree.exists_exchange`), and a name stands where reading has no
step for a text (`Tree.exists_stage_of_name`).
-/

namespace CommandLine

namespace Tree

/-- The words and texts of a tree that are values: those of parameters and those of options. -/
def values (t : Tree) : List Token := t.parameters.map (·.text) ++ t.options.filterMap (·.value)

/-- The words of a tree that are names: the imperative and those of options. -/
def names (t : Tree) : List Token := t.imperative :: t.options.map (·.name)

variable {t : Tree} {w : Token} {ts : List Token}

/-! ### Values -/

/-- The text of a parameter stands behind its mark, and any other value could stand there. -/
theorem Parameter.Yields.exchange {p : Parameter} (h : p.Yields ts) :
    ∃ mark, ts = mark ++ [p.text] ∧ ∀ v : Token, v.IsValue →
      Parameter.Yields ⟨p.marking, v⟩ (mark ++ [v]) := by
  cases h with
  | normal _ => exact ⟨[], rfl, fun _ => .normal⟩
  | @additive plus _ hplus _ => exact ⟨[plus], rfl, fun _ => .additive hplus⟩
  | @subtractive minus _ hminus _ => exact ⟨[minus], rfl, fun _ => .subtractive hminus⟩

/-- The value of an option stands behind its colon, and any other value could stand there. -/
theorem NamedOption.Yields.exchange {o : NamedOption} (h : o.Yields ts) (hw : o.value = some w) :
    ∃ front, ts = front ++ [w] ∧ ∀ v : Token, v.IsValue →
      NamedOption.Yields ⟨o.name, some v⟩ (front ++ [v]) := by
  cases h with
  | flag _ _ => cases hw
  | @valued slash name colon _ hslash hname hcolon _ =>
    cases hw
    exact ⟨[slash, name, colon], rfl, fun _ => .valued hslash hname hcolon⟩

/-- What may be exchanged in an item may be exchanged in the list. -/
theorem ListYields.exchange {α : Type} {yields : α → List Token → Prop} {as : List α} {a : α}
    {g : Token → α} (h : ListYields yields as ts) (ha : a ∈ as)
    (hitem : ∀ used, yields a used → ∃ front, used = front ++ [w] ∧
      ∀ v : Token, v.IsValue → yields (g v) (front ++ [v])) :
    ∃ before after front back, as = before ++ a :: after ∧ ts = front ++ w :: back
      ∧ ∀ v : Token, v.IsValue →
        ListYields yields (before ++ g v :: after) (front ++ v :: back) := by
  obtain ⟨before, after, front, used, back, rfl, rfl, hfront, hused, hback⟩ := h.exists_of_mem ha
  obtain ⟨middle, rfl, hexchange⟩ := hitem used hused
  refine ⟨before, after, front ++ middle, back, rfl, by simp, fun v hv => ?_⟩
  have hlist := hfront.append (.cons (hexchange v hv) hback)
  simpa using hlist

/-- A value may be exchanged for another one with the same literal: there is a tree again, and it
says the same about its command. -/
theorem exists_exchange (h : readCommand ts = .ok t) (hw : w ∈ t.values) :
    ∃ front back, ts = front ++ w :: back ∧ ∀ v : Token, v.IsValue → v.literal = w.literal →
      ∃ u, readCommand (front ++ v :: back) = .ok u ∧ u.steps = t.steps := by
  obtain ⟨imperative, parameters, options⟩ := t
  obtain ⟨ps, os, rfl, hword, hps, hos⟩ := readCommand_eq_ok_iff.1 h
  rcases List.mem_append.1 hw with hparameter | hoption
  · obtain ⟨p, hp, rfl⟩ := List.mem_map.1 hparameter
    obtain ⟨before, after, front, back, rfl, rfl, hexchange⟩ :=
      ListYields.exchange hps hp fun _ hused => hused.exchange
    refine ⟨imperative :: front, back ++ os, by simp, fun v hv hliteral => ?_⟩
    refine ⟨⟨imperative, before ++ ⟨p.marking, v⟩ :: after, options⟩, ?_, ?_⟩
    · exact readCommand_eq_ok_iff.2 ⟨_, os, by simp, hword, hexchange v hv, hos⟩
    · simp [steps, Parameter.step, hliteral]
  · obtain ⟨o, ho, hvalue⟩ := List.mem_filterMap.1 hoption
    obtain ⟨before, after, front, back, rfl, rfl, hexchange⟩ :=
      ListYields.exchange hos ho fun _ hused => hused.exchange hvalue
    refine ⟨imperative :: (ps ++ front), back, by simp, fun v hv hliteral => ?_⟩
    refine ⟨⟨imperative, parameters, before ++ ⟨o.name, some v⟩ :: after⟩, ?_, ?_⟩
    · exact readCommand_eq_ok_iff.2 ⟨ps, _, by simp, hword, hps, hexchange v hv⟩
    · simp [steps, NamedOption.step, hvalue, hliteral]

/-- A text among the tokens of a parameter is the text of the parameter. -/
theorem Parameter.Yields.eq_text {p : Parameter} (h : p.Yields ts) (hw : w ∈ ts)
    (hkind : w.kind = .text) : p.text = w := by
  cases h with
  | normal _ => exact (List.mem_singleton.1 hw).symm
  | additive hplus _ =>
    rcases List.mem_pair.1 hw with rfl | rfl
    · simp [hplus] at hkind
    · rfl
  | subtractive hminus _ =>
    rcases List.mem_pair.1 hw with rfl | rfl
    · simp [hminus] at hkind
    · rfl

/-- A text among the tokens of an option is its value. -/
theorem NamedOption.Yields.value_eq {o : NamedOption} (h : o.Yields ts) (hw : w ∈ ts)
    (hkind : w.kind = .text) : o.value = some w := by
  cases h with
  | flag hslash hname =>
    rcases List.mem_pair.1 hw with rfl | rfl
    · simp [hslash] at hkind
    · simp [hname] at hkind
  | valued hslash hname hcolon _ =>
    simp only [List.mem_cons, List.not_mem_nil, or_false] at hw
    rcases hw with rfl | rfl | rfl | rfl
    · simp [hslash] at hkind
    · simp [hname] at hkind
    · simp [hcolon] at hkind
    · rfl

/-- Texts are values. -/
theorem mem_values_of_text (h : readCommand ts = .ok t) (hw : w ∈ ts) (hkind : w.kind = .text) :
    w ∈ t.values := by
  obtain ⟨ps, os, rfl, hword, hps, hos⟩ := readCommand_eq_ok_iff.1 h
  rcases List.mem_cons.1 hw with rfl | hw
  · rw [hword] at hkind
    cases hkind
  · rcases List.mem_append.1 hw with hw | hw
    · obtain ⟨p, hp, used, hused, hmem⟩ := hps.exists_of_mem_tokens hw
      exact List.mem_append_left _ (List.mem_map.2 ⟨p, hp, hused.eq_text hmem hkind⟩)
    · obtain ⟨o, ho, used, hused, hmem⟩ := hos.exists_of_mem_tokens hw
      exact List.mem_append_right _ (List.mem_filterMap.2 ⟨o, ho, hused.value_eq hmem hkind⟩)

/-! ### Names -/

/-- The name of an option stands behind its slash. -/
theorem NamedOption.Yields.exists_name {o : NamedOption} (h : o.Yields ts) :
    ∃ slash rest, ts = slash :: o.name :: rest ∧ slash.kind = .slash ∧ o.name.kind = .word := by
  cases h with
  | flag hslash hname => exact ⟨_, [], rfl, hslash, hname⟩
  | valued hslash hname _ _ => exact ⟨_, _, rfl, hslash, hname⟩

/-- A name stands where nothing but a word can stand. -/
theorem exists_stage_of_name (h : readCommand ts = .ok t) (hw : w ∈ t.names) :
    ∃ front back q, ts = front ++ w :: back ∧ w.kind = .word
      ∧ Stage.start.run (Token.kinds front) = some q ∧ (q = .start ∨ q = .slashed) := by
  obtain ⟨ps, os, rfl, hword, hps, hos⟩ := readCommand_eq_ok_iff.1 h
  rcases List.mem_cons.1 hw with rfl | hname
  · exact ⟨[], ps ++ os, .start, rfl, hword, rfl, .inl rfl⟩
  · obtain ⟨o, ho, rfl⟩ := List.mem_map.1 hname
    clear hname
    obtain ⟨before, after, front, used, back, -, rfl, hfront, hused, -⟩ := hos.exists_of_mem ho
    obtain ⟨q, hrun, hq⟩ := run_kinds_options (p := .parameters) hfront rfl
    have himperative : Stage.start.run (Token.kinds [t.imperative]) = some .parameters :=
      run_kinds_singleton hword rfl
    have hbefore := run_kinds_append (run_kinds_append himperative (run_kinds_parameters hps)) hrun
    obtain ⟨slash, rest, rfl, hslash, hname⟩ := hused.exists_name
    refine ⟨t.imperative :: (ps ++ front) ++ [slash], rest ++ back, .slashed, by simp, hname, ?_,
      .inr rfl⟩
    have hrun' := run_kinds_append hbefore (run_kinds_singleton hslash hq)
    simpa using hrun'

end Tree

/-! ### Quotes that come and go -/

open Text (byteLength)

namespace Token

variable {offset : Nat} {after : List Char} {literal : String}

theorem next_word (h : IsWord literal) (hafter : Apart after) :
    Next offset ⟨.word, literal, ⟨offset, offset + byteLength literal.toList⟩⟩ after where
  kind_ne := Kind.noConfusion
  proper := h
  span_eq := by rw [spelling_word]
  munch := fun _ => hafter

end Token

namespace TokenStream

variable {line : String} {s : TokenStream} {front back : List Token} {w : Token}

/-- A word that is put between quotes is a text there, and the tokens behind it move by the two
quotes. -/
theorem exists_quoted (hs : tokenize line = .ok s) (hbody : s.body = front ++ w :: back)
    (hword : w.kind = .word) :
    ∃ s', tokenize (Text.splice line w.span (inQuotes w.literal).toList) = .ok s'
      ∧ s'.body = front ++ ⟨.text, w.literal, ⟨w.span.start, w.span.stop + 2⟩⟩
        :: back.map (Token.moved 2) := by
  obtain ⟨before, after, hdelimits, hproper, hback, hsplice⟩ := exists_cut hs hbody
  have hspelling : w.spelling = w.literal.toList := by rw [Token.spelling, hword]
  have hstop : w.span.stop = w.span.start + byteLength w.literal.toList := by
    rw [hdelimits.stop_eq, hdelimits.start_eq, hspelling]
  have hnext := @Token.next_text w.span.start after w.literal (hproper.quotable (.inr hword))
  rw [← hstop] at hnext
  have hreads := Token.Reads.token hnext (hback.moved 2)
  rw [Token.spelling_text, ← toList_inQuotes] at hreads
  have hapart : Token.Apart ((inQuotes w.literal).toList ++ after) := by
    rw [toList_inQuotes]
    exact Token.apart_cons.2 rfl
  exact hsplice _ _ hapart hreads

/-- A text that could be typed as a word is one when its quotes are blanks. The tokens behind it
stay where they are. -/
theorem exists_unquoted (hs : tokenize line = .ok s) (hbody : s.body = front ++ w :: back)
    (htext : w.kind = .text) (hliteral : IsWord w.literal) :
    ∃ s', tokenize (Text.splice line w.span (' ' :: (w.literal.toList ++ [' ']))) = .ok s'
      ∧ s'.body = front ++ ⟨.word, w.literal, ⟨w.span.start + 1, w.span.stop - 1⟩⟩ :: back := by
  obtain ⟨before, after, hdelimits, -, hback, hsplice⟩ := exists_cut hs hbody
  have hspelling : w.spelling = '"' :: (w.literal.toList ++ ['"']) := by
    rw [Token.spelling, htext]
  have hstop : w.span.stop - 1 = w.span.start + 1 + byteLength w.literal.toList := by
    rw [hdelimits.stop_eq, hdelimits.start_eq, hspelling, Token.byteLength_quoted]
    omega
  have hnext := @Token.next_word (w.span.start + 1) (' ' :: after) _ hliteral
    (Token.apart_cons.2 rfl)
  rw [← hstop] at hnext
  have hlast : w.span.stop - 1 + 1 = w.span.stop := by omega
  have hblank : Token.Reads (w.span.stop - 1) (' ' :: after) back := .blank (by rwa [hlast])
  have hreads := Token.Reads.blank (.token hnext hblank)
  rw [Token.spelling_word, List.append_cons, ← List.cons_append] at hreads
  exact hsplice _ _ (Token.apart_cons.2 rfl) hreads

end TokenStream

/-- Two lines have the same command, and every decoder makes the same of them. -/
def Agree (line line' : String) : Prop :=
  ∃ b, parse line = .ok b ∧ parse line' = .ok b
    ∧ ∀ (α : Type) (d : Decoder α), assemble d line' = assemble d line

section

variable {line line' : String} {s s' : TokenStream} {t : Tree} {w : Token}

theorem agree_of_parse {b : BareCommand} (h : parse line = .ok b) (h' : parse line' = .ok b) :
    Agree line line' :=
  ⟨b, h, h', fun _ _ => by rw [assemble_of_parse h, assemble_of_parse h']⟩

/-- Lines agree if their tokens are the same up to one value, which keeps its literal. -/
theorem agree_of_exchange (hs : tokenize line = .ok s) (ht : Tree.ofStream s = .ok t)
    (hw : w ∈ t.values)
    (h : ∀ front back, s.body = front ++ w :: back → ∃ s' v back', tokenize line' = .ok s'
      ∧ s'.body = front ++ v :: back' ∧ back'.map Token.unplaced = back.map Token.unplaced
      ∧ v.IsValue ∧ v.literal = w.literal) :
    Agree line line' := by
  obtain ⟨front, back, hbody, hexchange⟩ := Tree.exists_exchange (mapError_eq_ok.1 ht) hw
  obtain ⟨s', v, back', hs', hbody', hback, hvalue, hliteral⟩ := h front back hbody
  obtain ⟨u, hu, hsteps⟩ := hexchange v hvalue hliteral
  have hunplaced : s'.body.map Token.unplaced = (front ++ v :: back).map Token.unplaced := by
    simp [hbody', hback]
  obtain ⟨t', ht', hmap⟩ := Tree.readCommand_of_unplaced hunplaced hu
  have hcommand : BareCommand.ofTree t' = BareCommand.ofTree t := by
    rw [← Tree.ofTree_map Token.literal_unplaced t', hmap, Tree.ofTree_map Token.literal_unplaced,
      Tree.ofTree_eq, Tree.ofTree_eq, hsteps]
  have hparse : parse line = .ok (BareCommand.ofTree t) := by
    rw [parse_of_tokenize hs, ht]
    rfl
  have hparse' : parse line' = .ok (BareCommand.ofTree t) := by
    rw [parse_of_tokenize hs', Tree.ofStream, ht', ← hcommand]
    rfl
  exact agree_of_parse hparse hparse'

end

/-- **Quotes around a value mean nothing, around a name they are an error.** In a line that has a
tree, a word among the values can be put between quotes, and a text that could be typed as a word
can be given a blank on each side instead of its quotes: the line has the same command, and every
decoder makes the same of it. With quotes around the imperative or around the name of an option
the line has an error of grammar, at this text, and what is expected is a word. -/
theorem quotes_around_values_and_names {line : String} {s : TokenStream} {t : Tree}
    (hs : tokenize line = .ok s) (ht : Tree.ofStream s = .ok t) :
    (∀ w, w ∈ t.values ∨ w ∈ t.names → w ∈ s.body)
      ∧ (∀ w ∈ s.body, ∀ u : List Char,
        line.toUTF8.extract w.span.start w.span.stop = w.spelling.utf8Encode
          ∧ (Text.splice line w.span u).toUTF8 = line.toUTF8.extract 0 w.span.start ++ u.utf8Encode
            ++ line.toUTF8.extract w.span.stop line.utf8ByteSize)
      ∧ (∀ w ∈ t.values, w.kind = .word →
        Agree line (Text.splice line w.span (inQuotes w.literal).toList))
      ∧ (∀ w ∈ s.body, w.kind = .text → IsWord w.literal →
        Agree line (Text.splice line w.span (' ' :: (w.literal.toList ++ [' ']))))
      ∧ ∀ w ∈ t.names, ∃ e,
        parse (Text.splice line w.span (inQuotes w.literal).toList) = .error (.grammatical e)
          ∧ e.expected = [.word] ∧ e.found = ⟨.text, w.literal, ⟨w.span.start, w.span.stop + 2⟩⟩ := by
  have hread := mapError_eq_ok.1 ht
  refine ⟨fun w hw => ?_, fun w hw u => ?_, fun w hw hword => ?_, fun w hw htext hliteral => ?_,
    fun w hw => ?_⟩
  · rcases hw with hvalue | hname
    · obtain ⟨front, back, hbody, -⟩ := Tree.exists_exchange hread hvalue
      simp [hbody]
    · obtain ⟨front, back, q, hbody, -⟩ := Tree.exists_stage_of_name hread hname
      simp [hbody]
  · obtain ⟨front, back, hbody⟩ := List.mem_iff_append.1 hw
    obtain ⟨before, after, hdelimits, -⟩ := TokenStream.exists_cut hs hbody
    exact ⟨hdelimits.extract_eq, hdelimits.toUTF8_splice u⟩
  · refine agree_of_exchange hs ht hw fun front back hbody => ?_
    obtain ⟨s', hs', hbody'⟩ := TokenStream.exists_quoted hs hbody hword
    refine ⟨s', _, _, hs', hbody', ?_, .inl rfl, rfl⟩
    rw [List.map_map]
    rfl
  · refine agree_of_exchange hs ht (Tree.mem_values_of_text hread hw htext) fun front back hbody => ?_
    obtain ⟨s', hs', hbody'⟩ := TokenStream.exists_unquoted hs hbody htext hliteral
    exact ⟨s', _, back, hs', hbody', rfl, .inr rfl, rfl⟩
  · obtain ⟨front, back, q, hbody, hword, hrun, hq⟩ := Tree.exists_stage_of_name hread hw
    obtain ⟨s', hs', hbody'⟩ := TokenStream.exists_quoted hs hbody hword
    have htokens : s'.tokens = front ++ ⟨.text, w.literal, ⟨w.span.start, w.span.stop + 2⟩⟩
        :: (back.map (Token.moved 2) ++ [s'.terminal]) := by
      rw [TokenStream.tokens, hbody', List.append_assoc, List.cons_append]
    have hstep : q.step .text = none ∧ q.expected = [.word] := by
      rcases hq with rfl | rfl <;> exact ⟨rfl, rfl⟩
    have herror := Tree.ofStream_eq_error_of_stage htokens hrun hstep.1
    refine ⟨⟨s'.line, _, q.expected, q.rules⟩, ?_, hstep.2, rfl⟩
    rw [parse_of_tokenize hs', herror]
    rfl

/-- The tokens of `a"é"1/c:"d"`, which touch each other. -/
def touching : TokenStream where
  line := "a\"é\"1/c:\"d\""
  body := [⟨.word, "a", ⟨0, 1⟩⟩, ⟨.text, "é", ⟨1, 5⟩⟩, ⟨.word, "1", ⟨5, 6⟩⟩, ⟨.slash, "/", ⟨6, 7⟩⟩,
    ⟨.word, "c", ⟨7, 8⟩⟩, ⟨.colon, ":", ⟨8, 9⟩⟩, ⟨.text, "d", ⟨9, 12⟩⟩]
  terminal := ⟨.terminal, "", .empty 12⟩
  body_kind := by decide
  terminal_kind := rfl

/-- The tree of `touching`. -/
def touchingTree : Tree where
  imperative := ⟨.word, "a", ⟨0, 1⟩⟩
  parameters := [⟨.normal, ⟨.text, "é", ⟨1, 5⟩⟩⟩, ⟨.normal, ⟨.word, "1", ⟨5, 6⟩⟩⟩]
  options := [⟨⟨.word, "c", ⟨7, 8⟩⟩, some ⟨.text, "d", ⟨9, 12⟩⟩⟩]

/-- Tokens that touch each other are not torn apart and do not grow together: the second
parameter can have quotes, the value of the option can lose its quotes, and the name of the option
cannot have any. -/
theorem quotes_touching :
    Agree "a\"é\"1/c:\"d\"" "a\"é\"\"1\"/c:\"d\""
      ∧ Agree "a\"é\"1/c:\"d\"" "a\"é\"1/c: d "
      ∧ ∃ e, parse "a\"é\"1/\"c\":\"d\"" = .error (.grammatical e) ∧ e.expected = [.word]
        ∧ e.found = ⟨.text, "c", ⟨7, 10⟩⟩ := by
  have hs : tokenize "a\"é\"1/c:\"d\"" = .ok touching := by decide +kernel
  have ht : Tree.ofStream touching = .ok touchingTree := by decide +kernel
  obtain ⟨-, -, hquoted, hunquoted, hname⟩ := quotes_around_values_and_names hs ht
  have hvalue : Text.splice "a\"é\"1/c:\"d\"" ⟨5, 6⟩ (inQuotes "1").toList
      = "a\"é\"\"1\"/c:\"d\"" := by decide +kernel
  have htext : Text.splice "a\"é\"1/c:\"d\"" ⟨9, 12⟩ (' ' :: ("d".toList ++ [' ']))
      = "a\"é\"1/c: d " := by decide +kernel
  have hoption : Text.splice "a\"é\"1/c:\"d\"" ⟨7, 8⟩ (inQuotes "c").toList
      = "a\"é\"1/\"c\":\"d\"" := by decide +kernel
  refine ⟨?_, ?_, ?_⟩
  · have hagree := hquoted ⟨.word, "1", ⟨5, 6⟩⟩ (by decide) rfl
    rwa [hvalue] at hagree
  · have hagree := hunquoted ⟨.text, "d", ⟨9, 12⟩⟩ (by decide) rfl (by decide)
    rwa [htext] at hagree
  · have herror := hname ⟨.word, "c", ⟨7, 8⟩⟩ (by decide)
    rwa [hoption] at herror

end CommandLine
