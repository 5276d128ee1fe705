import CommandLine.Proofs.Outcome
import CommandLine.Tree.Parser
/-!
# CommandLine.Proofs.Yield

**The grammar of token streams.** `Tree.Yields` lists, rule by rule, the token streams that
a tree stands for. Reading and yielding are two views of one relation: each reader succeeds
just when the tokens in front of it are a yield, and takes exactly these.

The two readers of lists have a look at one token ahead. `readParameters` stops in front of
a slash or the end of the line, and `readOption` must not find a colon behind an option that
it takes for a flag. Both conditions say how the tokens go on, so the lemmas about these
readers speak of the tokens that are left as well.
-/

namespace CommandLine

/-- A token that can stand in the place of a text. -/
def Token.IsValue (t : Token) : Prop := t.kind = .text ∨ t.kind = .word

instance (t : Token) : Decidable t.IsValue := inferInstanceAs (Decidable (_ ∨ _))

namespace Tree

/-! ### Yields -/

/-- The tokens of a parameter: its mark, if it has one, and its text. -/
inductive Parameter.Yields : Parameter → List Token → Prop
  | normal {text : Token} (htext : text.IsValue) : Yields ⟨.normal, text⟩ [text]
  | additive {plus text : Token} (hplus : plus.kind = .plus) (htext : text.IsValue) :
      Yields ⟨.additive, text⟩ [plus, text]
  | subtractive {minus text : Token} (hminus : minus.kind = .minus) (htext : text.IsValue) :
      Yields ⟨.subtractive, text⟩ [minus, text]

/-- The tokens of an option: a slash, its name and, for an option with a value, a colon and
the value. -/
inductive NamedOption.Yields : NamedOption → List Token → Prop
  | flag {slash name : Token} (hslash : slash.kind = .slash) (hname : name.kind = .word) :
      Yields ⟨name, none⟩ [slash, name]
  | valued {slash name colon value : Token} (hslash : slash.kind = .slash)
      (hname : name.kind = .word) (hcolon : colon.kind = .colon) (hvalue : value.IsValue) :
      Yields ⟨name, some value⟩ [slash, name, colon, value]

/-- The tokens of a list, one item after the other. -/
inductive ListYields {α : Type} (yields : α → List Token → Prop) : List α → List Token → Prop
  | nil : ListYields yields [] []
  | cons {a : α} {as : List α} {ts us : List Token} (ha : yields a ts)
      (has : ListYields yields as us) : ListYields yields (a :: as) (ts ++ us)

/-- The tokens of a line with this tree. -/
inductive Yields : Tree → List Token → Prop
  | command {imperative terminal : Token} {parameters : List Parameter}
      {options : List NamedOption} {ps os : List Token} (himperative : imperative.kind = .word)
      (hparameters : ListYields Parameter.Yields parameters ps)
      (hoptions : ListYields NamedOption.Yields options os)
      (hterminal : terminal.kind = .terminal) :
      Yields ⟨imperative, parameters, options⟩ (imperative :: ps ++ os ++ [terminal])

/-! ### One parameter, one option -/

/-- The mark that is taken is the one that the tokens begin with. -/
theorem exists_of_takeMarking (ts : List Token) :
    ∃ mark, ts = mark ++ (takeMarking ts).2 ∧ ∀ text : Token, text.IsValue →
      Parameter.Yields ⟨(takeMarking ts).1, text⟩ (mark ++ [text]) := by
  unfold takeMarking
  split
  · exact ⟨[], rfl, fun _ => .normal⟩
  · next t rest =>
    split
    · next hplus => exact ⟨[t], rfl, fun _ => .additive hplus⟩
    · next hminus => exact ⟨[t], rfl, fun _ => .subtractive hminus⟩
    · exact ⟨[], rfl, fun _ => .normal⟩

/-- In front of a text with or without a mark, just this mark is taken. -/
theorem takeMarking_of_yields {p : Parameter} {used : List Token} (h : p.Yields used)
    (rest : List Token) :
    takeMarking (used ++ rest) = (p.marking, p.text :: rest) ∧ p.text.IsValue := by
  cases h with
  | normal htext =>
    refine ⟨?_, htext⟩
    rcases htext with htext | htext <;> simp [takeMarking, htext]
  | additive hplus htext => exact ⟨by simp [takeMarking, hplus], htext⟩
  | subtractive hminus htext => exact ⟨by simp [takeMarking, hminus], htext⟩

/-- A parameter is read just when its tokens come next. -/
theorem readParameter_eq_ok {ts rest : List Token} {p : Parameter} :
    readParameter ts = .ok (p, rest) ↔ ∃ used, p.Yields used ∧ ts = used ++ rest := by
  rw [readParameter, within_eq_ok]
  simp only [bind_eq_ok, pure_eq_ok, Prod.mk.injEq, Prod.exists, readText_eq_ok]
  constructor
  · intro h
    obtain ⟨text, after, ⟨htaken, htext⟩, rfl, rfl⟩ := h
    obtain ⟨mark, hts, hyields⟩ := exists_of_takeMarking ts
    rw [htaken] at hts
    exact ⟨mark ++ [text], hyields text htext, by rw [hts, List.append_assoc]; rfl⟩
  · intro h
    obtain ⟨used, hyields, rfl⟩ := h
    obtain ⟨htaken, htext⟩ := takeMarking_of_yields hyields rest
    exact ⟨p.text, rest, ⟨by rw [htaken], htext⟩, by rw [htaken], rfl⟩

/-- Tokens that do not go on with a value, after the name of an option. -/
def NoColon (ts : List Token) : Prop := ∀ t ∈ ts.head?, t.kind ≠ .colon

theorem noColon_nil : NoColon [] := fun _ h => by cases h

/-- A value is read behind a colon, and only there. -/
theorem readValue_eq_ok {ts rest : List Token} {value : Option Token} :
    readValue ts = .ok (value, rest) ↔
      (value = none ∧ ts = rest ∧ NoColon rest)
        ∨ ∃ colon v, value = some v ∧ ts = colon :: v :: rest ∧ colon.kind = .colon
          ∧ v.IsValue := by
  cases ts with
  | nil =>
    simp only [readValue, Except.ok.injEq, Prod.mk.injEq]
    constructor
    · intro h
      obtain ⟨rfl, rfl⟩ := h
      exact .inl ⟨rfl, rfl, noColon_nil⟩
    · intro h
      rcases h with ⟨rfl, rfl, -⟩ | ⟨colon, v, -, hts, -⟩
      · exact ⟨rfl, rfl⟩
      · cases hts
  | cons t tail =>
    by_cases hcolon : t.kind = .colon
    · simp only [readValue, if_pos hcolon, map_eq_ok, Prod.exists, readText_eq_ok, Prod.mk.injEq]
      constructor
      · intro h
        obtain ⟨v, after, ⟨rfl, hv⟩, rfl, rfl⟩ := h
        exact .inr ⟨t, v, rfl, rfl, hcolon, hv⟩
      · intro h
        rcases h with ⟨-, rfl, hno⟩ | ⟨colon, v, rfl, hts, -, hv⟩
        · exact absurd hcolon (hno t rfl)
        · cases hts
          exact ⟨v, rest, ⟨rfl, hv⟩, rfl, rfl⟩
    · simp only [readValue, if_neg hcolon, Except.ok.injEq, Prod.mk.injEq]
      constructor
      · intro h
        obtain ⟨rfl, rfl⟩ := h
        exact .inl ⟨rfl, rfl, by simpa [NoColon] using hcolon⟩
      · intro h
        rcases h with ⟨rfl, rfl, -⟩ | ⟨colon, v, -, hts, hkind, -⟩
        · exact ⟨rfl, rfl⟩
        · cases hts
          exact absurd hkind hcolon

/-- An option is read just when its tokens come next, behind its slash. A flag is not
followed by a colon, which would belong to it. -/
theorem readOption_eq_ok {slash : Token} (hslash : slash.kind = .slash) {ts rest : List Token}
    {o : NamedOption} :
    readOption ts = .ok (o, rest) ↔
      ∃ used, o.Yields (slash :: used) ∧ ts = used ++ rest ∧ (o.value = none → NoColon rest) := by
  rw [readOption, within_eq_ok]
  simp only [bind_eq_ok, pure_eq_ok, Prod.mk.injEq, Prod.exists, readWord_eq_ok, readValue_eq_ok]
  constructor
  · intro h
    obtain ⟨name, after, ⟨rfl, hname⟩, value, after', hvalue, rfl, rfl⟩ := h
    rcases hvalue with ⟨rfl, rfl, hno⟩ | ⟨colon, v, rfl, rfl, hcolon, hv⟩
    · exact ⟨[name], .flag hslash hname, rfl, fun _ => hno⟩
    · exact ⟨[name, colon, v], .valued hslash hname hcolon hv, rfl, fun h => by cases h⟩
  · intro h
    obtain ⟨used, hyields, rfl, hno⟩ := h
    cases hyields with
    | @flag _ name _ hname =>
      exact ⟨name, rest, ⟨rfl, hname⟩, none, rest, .inl ⟨rfl, rfl, hno rfl⟩, rfl, rfl⟩
    | @valued _ name colon v _ hname hcolon hv =>
      exact ⟨name, colon :: v :: rest, ⟨rfl, hname⟩, some v, rest,
        .inr ⟨colon, v, rfl, rfl, hcolon, hv⟩, rfl, rfl⟩

/-! ### Lists -/

namespace ListYields

variable {α : Type} {yields : α → List Token → Prop} {as bs : List α} {ts us : List Token}

theorem append (has : ListYields yields as ts) (hbs : ListYields yields bs us) :
    ListYields yields (as ++ bs) (ts ++ us) := by
  induction has with
  | nil => exact hbs
  | cons ha _ ih =>
    rw [List.cons_append, List.append_assoc]
    exact .cons ha ih

/-- The tokens of two lists are those of the first one and then those of the second. -/
theorem append_iff : ListYields yields (as ++ bs) ts ↔
    ∃ us vs, ts = us ++ vs ∧ ListYields yields as us ∧ ListYields yields bs vs := by
  constructor
  · intro h
    induction as generalizing ts with
    | nil => exact ⟨[], ts, rfl, .nil, h⟩
    | cons a as ih =>
      cases h with
      | @cons _ _ first rest ha hrest =>
        obtain ⟨us, vs, rfl, hus, hvs⟩ := ih hrest
        exact ⟨first ++ us, vs, by rw [List.append_assoc], .cons ha hus, hvs⟩
  · intro h
    obtain ⟨us, vs, rfl, hus, hvs⟩ := h
    exact hus.append hvs

/-- An item of a list has its tokens in the middle of those of the list. -/
theorem exists_of_mem {a : α} (h : ListYields yields as ts) (ha : a ∈ as) :
    ∃ before after front used back, as = before ++ a :: after ∧ ts = front ++ (used ++ back)
      ∧ ListYields yields before front ∧ yields a used ∧ ListYields yields after back := by
  obtain ⟨before, after, rfl⟩ := List.mem_iff_append.1 ha
  obtain ⟨front, rest, rfl, hfront, hrest⟩ := append_iff.1 h
  cases hrest with
  | @cons _ _ used back hused hback =>
    exact ⟨before, after, front, used, back, rfl, rfl, hfront, hused, hback⟩

/-- A token of a list is one of an item. -/
theorem exists_of_mem_tokens {t : Token} (h : ListYields yields as ts) (ht : t ∈ ts) :
    ∃ a ∈ as, ∃ used, yields a used ∧ t ∈ used := by
  induction h with
  | nil => cases ht
  | @cons a as used _ ha _ ih =>
    rcases List.mem_append.1 ht with ht | ht
    · exact ⟨a, List.mem_cons_self, used, ha, ht⟩
    · obtain ⟨b, hb, used', hused, ht'⟩ := ih ht
      exact ⟨b, List.mem_cons_of_mem _ hb, used', hused, ht'⟩

end ListYields

/-- Tokens in front of which a list of parameters ends. -/
def AtSlash (ts : List Token) : Prop := ∀ t ∈ ts.head?, t.kind = .slash

theorem Parameter.Yields.exists_cons {p : Parameter} {ts : List Token} (h : p.Yields ts) :
    ∃ t us, ts = t :: us ∧ t.kind ≠ .slash := by
  cases h with
  | normal htext => exact ⟨_, _, rfl, by rcases htext with h | h <;> simp [h]⟩
  | additive hplus _ => exact ⟨_, _, rfl, by simp [hplus]⟩
  | subtractive hminus _ => exact ⟨_, _, rfl, by simp [hminus]⟩

theorem NamedOption.Yields.exists_cons {o : NamedOption} {ts : List Token} (h : o.Yields ts) :
    ∃ slash us, ts = slash :: us ∧ slash.kind = .slash := by
  cases h with
  | flag hslash _ => exact ⟨_, _, rfl, hslash⟩
  | valued hslash _ _ _ => exact ⟨_, _, rfl, hslash⟩

/-- Options begin with a slash. -/
theorem atSlash_of_options {os : List NamedOption} {ts : List Token}
    (h : ListYields NamedOption.Yields os ts) : AtSlash ts := by
  cases h with
  | nil => exact nofun
  | cons ho _ =>
    obtain ⟨slash, us, rfl, hslash⟩ := ho.exists_cons
    simpa [AtSlash] using hslash

theorem AtSlash.noColon {ts : List Token} (h : AtSlash ts) : NoColon ts := by
  intro t ht hcolon
  have hslash := h t ht
  rw [hcolon] at hslash
  cases hslash

theorem readParameters_of_atSlash {ts : List Token} (h : AtSlash ts) :
    readParameters ts = .ok ([], ts) := by
  cases ts with
  | nil => rw [readParameters]
  | cons t rest => rw [readParameters, if_pos (h t rfl)]

/-- Reading one more parameter. -/
theorem readParameters_cons {t : Token} {rest : List Token} (h : t.kind ≠ .slash) :
    readParameters (t :: rest) = (readParameter (t :: rest)).bind fun (p, after) =>
      (readParameters after).map fun (ps, rest) => (p :: ps, rest) := by
  rw [readParameters, if_neg h]
  split
  · next hread => rw [hread]; rfl
  · next hread => rw [hread]; rfl

theorem readOptions_cons {slash : Token} {rest : List Token} (h : slash.kind = .slash) :
    readOptions (slash :: rest) = (readOption rest).bind fun (o, after) =>
      (readOptions after).map fun (os, rest) => (o :: os, rest) := by
  rw [readOptions, if_pos h]
  split
  · next hread => rw [hread]; rfl
  · next hread => rw [hread]; rfl

/-- Parameters are read just when their tokens come next and a slash or nothing behind
them. -/
theorem readParameters_eq_ok {ts rest : List Token} {ps : List Parameter} :
    readParameters ts = .ok (ps, rest) ↔
      ∃ used, ListYields Parameter.Yields ps used ∧ ts = used ++ rest ∧ AtSlash rest := by
  constructor
  · intro h
    -- forth along the reader's own recursion, back along the list of parameters
    fun_induction readParameters ts generalizing ps with
    | case1 => cases h; exact ⟨[], .nil, rfl, nofun⟩
    | case2 t tail hslash => cases h; exact ⟨[], .nil, rfl, by simpa [AtSlash] using hslash⟩
    | case3 => cases h
    | case4 t tail _ p after hread ih =>
      obtain ⟨⟨qs, rest'⟩, hqs, heq⟩ := map_eq_ok.1 h
      cases heq
      obtain ⟨used, hyields, rfl, hrest⟩ := ih hqs
      obtain ⟨first, hfirst, hts⟩ := readParameter_eq_ok.1 hread
      exact ⟨first ++ used, .cons hfirst hyields, by rw [hts, List.append_assoc], hrest⟩
  · intro h
    obtain ⟨used, hyields, rfl, hrest⟩ := h
    induction hyields with
    | nil => exact readParameters_of_atSlash hrest
    | @cons p ps first used hfirst _ ih =>
      obtain ⟨t, us, rfl, hslash⟩ := hfirst.exists_cons
      have hread : readParameter (t :: (us ++ used ++ rest)) = .ok (p, used ++ rest) :=
        readParameter_eq_ok.2 ⟨t :: us, hfirst, by simp⟩
      rw [List.cons_append, List.cons_append, readParameters_cons hslash, hread]
      exact map_eq_ok.2 ⟨_, ih, rfl⟩

/-- Options are read just when the tokens are theirs, to the end. -/
theorem readOptions_eq_ok {ts rest : List Token} {os : List NamedOption} :
    readOptions ts = .ok (os, rest) ↔ ListYields NamedOption.Yields os ts ∧ rest = [] := by
  constructor
  · intro h
    fun_induction readOptions ts generalizing os with
    | case1 => cases h; exact ⟨.nil, rfl⟩
    | case2 => cases h
    | case3 slash tail hslash o after hread ih =>
      obtain ⟨⟨qs, rest'⟩, hqs, heq⟩ := map_eq_ok.1 h
      cases heq
      obtain ⟨hyields, rfl⟩ := ih hqs
      obtain ⟨used, hfirst, rfl, -⟩ := (readOption_eq_ok hslash).1 hread
      exact ⟨.cons hfirst hyields, rfl⟩
    | case4 => cases h
  · intro h
    obtain ⟨hyields, rfl⟩ := h
    induction hyields with
    | nil => rw [readOptions]
    | @cons o os first used hfirst hyields ih =>
      obtain ⟨slash, us, rfl, hslash⟩ := hfirst.exists_cons
      -- the next option begins with a slash, so no colon is taken for a flag
      have hread : readOption (us ++ used) = .ok (o, used) :=
        (readOption_eq_ok hslash).2 ⟨us, hfirst, rfl, fun _ => (atSlash_of_options hyields).noColon⟩
      rw [List.cons_append, readOptions_cons hslash, hread]
      exact map_eq_ok.2 ⟨_, ih, rfl⟩

/-! ### Whole lines -/

/-- A tree is read just when the tokens are its yield, up to the end of the line. -/
theorem readCommand_eq_ok {ts : List Token} {t : Tree} {terminal : Token}
    (hterminal : terminal.kind = .terminal) :
    readCommand ts = .ok t ↔ t.Yields (ts ++ [terminal]) := by
  rw [readCommand, within_eq_ok]
  simp only [bind_eq_ok, pure_eq_ok, Prod.exists, readImperative, within_eq_ok, readWord_eq_ok,
    readParameters_eq_ok, readOptions_eq_ok]
  constructor
  · intro h
    obtain ⟨imperative, after, ⟨rfl, hword⟩, parameters, after', ⟨ps, hps, rfl, -⟩, options,
      rest, ⟨hos, rfl⟩, -, -, rfl⟩ := h
    exact .command hword hps hos hterminal
  · intro h
    generalize hts : ts ++ [terminal] = line at h
    cases h with
    | @command imperative _ parameters options ps os hword hps hos _ =>
      obtain ⟨rfl, -⟩ := List.append_inj' hts rfl
      have hslash : AtSlash os := atSlash_of_options hos
      exact ⟨imperative, ps ++ os, ⟨rfl, hword⟩, parameters, os, ⟨ps, hps, rfl, hslash⟩, options,
        [], ⟨hos, rfl⟩, (), rfl, rfl⟩

/-- The tokens of a tree in front of the end of the line, part by part. -/
theorem readCommand_eq_ok_iff {ts : List Token} {t : Tree} :
    readCommand ts = .ok t ↔ ∃ ps os, ts = t.imperative :: (ps ++ os) ∧ t.imperative.kind = .word
      ∧ ListYields Parameter.Yields t.parameters ps
      ∧ ListYields NamedOption.Yields t.options os := by
  let terminal : Token := ⟨.terminal, "", .empty 0⟩
  have hterminal : terminal.kind = .terminal := rfl
  rw [readCommand_eq_ok hterminal]
  constructor
  · intro h
    generalize hline : ts ++ [terminal] = line at h
    cases h with
    | @command imperative _ parameters options ps os hword hps hos _ =>
      obtain ⟨rfl, -⟩ := List.append_inj' hline rfl
      exact ⟨ps, os, rfl, hword, hps, hos⟩
  · intro h
    obtain ⟨ps, os, rfl, hword, hps, hos⟩ := h
    exact .command hword hps hos hterminal

theorem Yields.exists_append {t : Tree} {ts : List Token} (h : t.Yields ts) :
    ∃ body terminal, ts = body ++ [terminal] ∧ terminal.kind = .terminal := by
  cases h with
  | command _ _ _ hterminal => exact ⟨_, _, rfl, hterminal⟩

/-- A stream of tokens is the yield of one tree at most. -/
theorem Yields.unique {t u : Tree} {ts : List Token} (ht : t.Yields ts) (hu : u.Yields ts) :
    t = u := by
  obtain ⟨body, terminal, rfl, hterminal⟩ := ht.exists_append
  have hread := (readCommand_eq_ok hterminal).2 ht
  rw [(readCommand_eq_ok hterminal).2 hu] at hread
  cases hread
  rfl

theorem ofStream_eq_ok {s : TokenStream} {t : Tree} : ofStream s = .ok t ↔ t.Yields s.tokens := by
  rw [ofStream, mapError_eq_ok, readCommand_eq_ok s.terminal_kind, TokenStream.tokens]

/-- **A stream of tokens has the tree whose yield it is.** The tree is found just when there
is one; no stream is the yield of two trees; and a stream that is the yield of no tree is an
error. -/
theorem ofStream_iff_yields (s : TokenStream) :
    (∀ t, ofStream s = .ok t ↔ t.Yields s.tokens)
      ∧ (∀ (t u : Tree) (ts : List Token), t.Yields ts → u.Yields ts → t = u)
      ∧ ((¬∃ t : Tree, t.Yields s.tokens) → ∃ e, ofStream s = .error e) := by
  refine ⟨fun t => ofStream_eq_ok, fun t u ts => Yields.unique, fun hnone => ?_⟩
  cases h : ofStream s with
  | error e => exact ⟨e, rfl⟩
  | ok t => exact absurd ⟨t, ofStream_eq_ok.1 h⟩ hnone

/-- The tokens of `tag -7 /x:"" /y`. -/
def markedStream : TokenStream where
  line := "tag -7 /x:\"\" /y"
  body := [⟨.word, "tag", ⟨0, 3⟩⟩, ⟨.minus, "-", ⟨4, 5⟩⟩, ⟨.word, "7", ⟨5, 6⟩⟩,
    ⟨.slash, "/", ⟨7, 8⟩⟩, ⟨.word, "x", ⟨8, 9⟩⟩, ⟨.colon, ":", ⟨9, 10⟩⟩, ⟨.text, "", ⟨10, 12⟩⟩,
    ⟨.slash, "/", ⟨13, 14⟩⟩, ⟨.word, "y", ⟨14, 15⟩⟩]
  terminal := ⟨.terminal, "", .empty 15⟩
  body_kind := by decide
  terminal_kind := rfl

theorem ofStream_markedStream :
    ofStream markedStream = .ok {
      imperative := ⟨.word, "tag", ⟨0, 3⟩⟩
      parameters := [⟨.subtractive, ⟨.word, "7", ⟨5, 6⟩⟩⟩]
      options := [⟨⟨.word, "x", ⟨8, 9⟩⟩, some ⟨.text, "", ⟨10, 12⟩⟩⟩,
        ⟨⟨.word, "y", ⟨14, 15⟩⟩, none⟩] } := by
  refine ((ofStream_iff_yields markedStream).1 _).2 ?_
  have hparameters : ListYields Parameter.Yields [⟨.subtractive, ⟨.word, "7", ⟨5, 6⟩⟩⟩]
      [⟨.minus, "-", ⟨4, 5⟩⟩, ⟨.word, "7", ⟨5, 6⟩⟩] :=
    .cons (Parameter.Yields.subtractive rfl (.inr rfl)) .nil
  refine .command rfl hparameters ?_ rfl
  exact .cons (NamedOption.Yields.valued rfl rfl rfl (.inl rfl))
    (.cons (NamedOption.Yields.flag rfl rfl) .nil)

end Tree

end CommandLine
