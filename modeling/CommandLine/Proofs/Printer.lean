import CommandLine.Proofs.Relabelling
import CommandLine.Proofs.Spelling
/-!
# CommandLine.Proofs.Printer

**Every tree with proper leaves has a line.** `Tree.write` puts a tree back into characters,
with one blank in front of each parameter and of each option. The tree of that line is the
same tree again, up to where its leaves stand (`Tree.exists_of_write`), and so its command is
the same (`Tree.parse_write`). Nothing else than such trees comes out of reading a line
(`Tree.printable_of_parseTree`).

`Token.Spells` is reading without positions, so lines can be put together from their parts
before it is known at which byte each part will stand.
-/

namespace CommandLine

namespace Token

/-- `ts` are the tokens of the characters `cs`, up to where they stand. -/
inductive Spells : List Char → List Token → Prop
  /-- Nothing is left. -/
  | done : Spells [] []
  /-- A blank is dropped. -/
  | blank {cs : List Char} {ts : List Token} (h : Spells cs ts) : Spells (' ' :: cs) ts
  /-- A token is taken. -/
  | token {t : Token} {after : List Char} {ts : List Token} (hkind : t.kind ≠ .terminal)
      (hproper : t.Proper) (hmunch : t.kind = .word → Apart after) (h : Spells after ts) :
      Spells (t.spelling ++ after) (t :: ts)

/-- Characters that spell tokens are read as these tokens, from any byte on. -/
theorem Spells.exists_reads {cs : List Char} {us : List Token} (h : Spells cs us)
    (offset : Nat) : ∃ ts, Reads offset cs ts ∧ ts.map unplaced = us.map unplaced := by
  induction h generalizing offset with
  | done => exact ⟨[], .done, rfl⟩
  | blank _ ih =>
    obtain ⟨ts, hreads, hts⟩ := ih (offset + 1)
    exact ⟨ts, .blank hreads, hts⟩
  | @token t after us hkind hproper hmunch _ ih =>
    -- the token is put where it stands: its kind, literal and spelling do not change
    let placed : Token := { t with span := ⟨offset, offset + Text.byteLength t.spelling⟩ }
    obtain ⟨ts, hreads, hts⟩ := ih placed.span.stop
    have hnext : Next offset placed after := ⟨hkind, hproper, rfl, hmunch⟩
    refine ⟨placed :: ts, .token hnext hreads, ?_⟩
    show t.unplaced :: ts.map unplaced = t.unplaced :: us.map unplaced
    rw [hts]

/-- A mark is written as its character. -/
theorem Spells.mark {c : Char} {kind : Kind} (hmark : Kind.ofMark? c = some kind) {span : Span}
    {after : List Char} {ts : List Token} (h : Spells after ts) :
    Spells (c :: after) (⟨kind, String.ofList [c], span⟩ :: ts) := by
  have hspells := Spells.token (Kind.ofMark?_ne_terminal hmark) (proper_mark hmark span)
    (fun hword => absurd hword (of_ofMark? hmark).1) h
  rwa [spelling_mark hmark] at hspells

/-- A text or a word that can stand for one. -/
theorem IsValue.ne_terminal {t : Token} (h : t.IsValue) : t.kind ≠ .terminal := by
  rcases h with h | h <;> simp [h]

end Token

namespace Tree

open Token (Spells Apart unplaced)

/-! ### Trees as characters and as tokens -/

/-- The text or word of a parameter is one that can be written. -/
def Parameter.Printable (p : Parameter) : Prop := p.text.IsValue ∧ p.text.Proper

/-- The name and the value of an option can be written. -/
structure NamedOption.Printable (o : NamedOption) : Prop where
  name_kind : o.name.kind = .word
  name_proper : o.name.Proper
  value : ∀ v ∈ o.value, v.IsValue ∧ v.Proper

/-- All leaves of the tree can be written. -/
structure Printable (t : Tree) : Prop where
  imperative_kind : t.imperative.kind = .word
  imperative_proper : t.imperative.Proper
  parameters : ∀ p ∈ t.parameters, p.Printable
  options : ∀ o ∈ t.options, o.Printable

/-- A parameter, with a blank in front. -/
def Parameter.write (p : Parameter) : List Char := ' ' :: (p.marking.sign ++ p.text.spelling)

/-- An option, with a blank in front. -/
def NamedOption.write (o : NamedOption) : List Char :=
  ' ' :: '/' :: (o.name.spelling ++ o.value.elim [] fun v => ':' :: v.spelling)

/-- The characters of a line with this tree. -/
def write (t : Tree) : List Char :=
  t.imperative.spelling
    ++ (t.parameters.flatMap Parameter.write ++ t.options.flatMap NamedOption.write)

/-- The token of a mark that stands nowhere in particular. -/
def markToken (kind : Token.Kind) (c : Char) : Token := ⟨kind, String.ofList [c], .empty 0⟩

/-- The tokens of a parameter. -/
def Parameter.tokens (p : Parameter) : List Token :=
  match p.marking with
  | .normal => [p.text]
  | .additive => [markToken .plus '+', p.text]
  | .subtractive => [markToken .minus '-', p.text]

/-- The tokens of an option. -/
def NamedOption.tokens (o : NamedOption) : List Token :=
  markToken .slash '/' :: o.name :: o.value.elim [] fun v => [markToken .colon ':', v]

/-- The tokens of a line with this tree, up to the end of the line. -/
def tokens (t : Tree) : List Token :=
  t.imperative :: (t.parameters.flatMap Parameter.tokens ++ t.options.flatMap NamedOption.tokens)

theorem Parameter.yields_tokens {p : Parameter} (h : p.Printable) : p.Yields p.tokens := by
  obtain ⟨marking, text⟩ := p
  cases marking with
  | normal => exact .normal h.1
  | additive => exact .additive rfl h.1
  | subtractive => exact .subtractive rfl h.1

theorem NamedOption.yields_tokens {o : NamedOption} (h : o.Printable) : o.Yields o.tokens := by
  obtain ⟨name, value⟩ := o
  cases value with
  | none => exact .flag rfl h.name_kind
  | some v => exact .valued rfl h.name_kind rfl (h.value v rfl).1

theorem ListYields.flatMap {α : Type} {yields : α → List Token → Prop} {g : α → List Token}
    {as : List α} (h : ∀ a ∈ as, yields a (g a)) : ListYields yields as (as.flatMap g) := by
  induction as with
  | nil => exact .nil
  | cons a as ih =>
    rw [List.forall_mem_cons] at h
    exact .cons h.1 (ih h.2)

theorem readCommand_tokens {t : Tree} (h : t.Printable) : readCommand t.tokens = .ok t := by
  have hparameters := ListYields.flatMap fun p hp => Parameter.yields_tokens (h.parameters p hp)
  have hoptions := ListYields.flatMap fun o ho => NamedOption.yields_tokens (h.options o ho)
  let terminal : Token := ⟨.terminal, "", .empty 0⟩
  have hyields : t.Yields (t.tokens ++ [terminal]) :=
    .command h.imperative_kind hparameters hoptions rfl
  exact (readCommand_eq_ok rfl).2 hyields

/-! ### Characters spell tokens -/

/-- Parts that begin with a blank can be written one after the other. -/
theorem spells_append {α : Type} {g : α → List Char} {tokens : α → List Token}
    {as : List α} (hg : ∀ a, ∃ w, g a = ' ' :: w)
    (h : ∀ a ∈ as, ∀ cs ts, Apart cs → Spells cs ts → Spells (g a ++ cs) (tokens a ++ ts))
    {cs : List Char} {ts : List Token} (hcs : Apart cs) (hspells : Spells cs ts) :
    Apart (as.flatMap g ++ cs) ∧ Spells (as.flatMap g ++ cs) (as.flatMap tokens ++ ts) := by
  induction as with
  | nil => exact ⟨hcs, hspells⟩
  | cons a as ih =>
    rw [List.forall_mem_cons] at h
    obtain ⟨hapart, hrest⟩ := ih h.2
    rw [List.flatMap_cons, List.flatMap_cons, List.append_assoc, List.append_assoc]
    refine ⟨?_, h.1 _ _ hapart hrest⟩
    -- the blank in front keeps a word before it apart
    obtain ⟨w, hw⟩ := hg a
    rw [hw]
    exact Token.apart_cons.2 rfl

theorem Parameter.spells {p : Parameter} (h : p.Printable) {cs : List Char} {ts : List Token}
    (hcs : Apart cs) (hspells : Spells cs ts) : Spells (p.write ++ cs) (p.tokens ++ ts) := by
  have htext : Spells (p.text.spelling ++ cs) (p.text :: ts) :=
    .token h.1.ne_terminal h.2 (fun _ => hcs) hspells
  rw [write, tokens]
  refine .blank ?_
  cases p.marking with
  | normal => exact htext
  | additive => exact .mark rfl htext
  | subtractive => exact .mark rfl htext

theorem NamedOption.spells {o : NamedOption} (h : o.Printable) {cs : List Char}
    {ts : List Token} (hcs : Apart cs) (hspells : Spells cs ts) :
    Spells (o.write ++ cs) (o.tokens ++ ts) := by
  obtain ⟨name, value⟩ := o
  have hname {cs ts} (hcs : Apart cs) (hspells : Spells cs ts) :
      Spells (' ' :: '/' :: (name.spelling ++ cs)) (markToken .slash '/' :: name :: ts) := by
    refine .blank (.mark rfl (.token ?_ h.name_proper (fun _ => hcs) hspells))
    rw [h.name_kind]
    decide
  cases value with
  | none => simpa [write, tokens] using hname hcs hspells
  | some v =>
    have hvalue : Spells (':' :: (v.spelling ++ cs)) (markToken .colon ':' :: v :: ts) :=
      .mark rfl (.token (h.value v rfl).1.ne_terminal (h.value v rfl).2 (fun _ => hcs) hspells)
    simpa [write, tokens] using hname (Token.apart_cons.2 rfl) hvalue

theorem spells_write {t : Tree} (h : t.Printable) : Spells t.write t.tokens := by
  obtain ⟨hapart, hoptions⟩ := spells_append (g := NamedOption.write) (fun _ => ⟨_, rfl⟩)
    (fun o ho _ _ => NamedOption.spells (h.options o ho)) Token.apart_nil .done
  rw [List.append_nil] at hapart
  rw [List.append_nil, List.append_nil] at hoptions
  obtain ⟨hapart, hparameters⟩ := spells_append (g := Parameter.write) (fun _ => ⟨_, rfl⟩)
    (fun p hp _ _ => Parameter.spells (h.parameters p hp)) hapart hoptions
  refine .token ?_ h.imperative_proper (fun _ => hapart) hparameters
  rw [h.imperative_kind]
  decide

/-! ### The line of a tree -/

/-- The line of a tree has this tree, up to where the leaves stand. -/
theorem exists_of_write {t : Tree} (h : t.Printable) :
    ∃ u, parseTree (String.ofList t.write) = .ok u ∧ u.map unplaced = t.map unplaced := by
  obtain ⟨ts, hreads, hts⟩ := (spells_write h).exists_reads 0
  have hscan : Token.scan 0 (String.ofList t.write).toList = .ok ts := by
    rw [String.toList_ofList]
    exact Token.scan_eq_ok_iff.2 hreads
  obtain ⟨s, htokenize, hbody⟩ := TokenStream.exists_of_scan hscan
  obtain ⟨u, hread, hu⟩ := readCommand_of_unplaced hts (readCommand_tokens h)
  refine ⟨u, bind_eq_ok.2 ⟨s, htokenize, ?_⟩, hu⟩
  rw [mapError_eq_ok, ofStream, mapError_eq_ok, hbody, hread]

/-- The command of a tree's line is the command of the tree. -/
theorem parse_write {t : Tree} (h : t.Printable) :
    parse (String.ofList t.write) = .ok (BareCommand.ofTree t) := by
  obtain ⟨u, hparse, hu⟩ := exists_of_write h
  refine map_eq_ok.2 ⟨u, hparse, ?_⟩
  rw [← ofTree_map Token.literal_unplaced u, hu, ofTree_map Token.literal_unplaced]

/-! ### The trees of lines -/

theorem Parameter.Yields.isValue {p : Parameter} {ts : List Token} (h : p.Yields ts) :
    p.text.IsValue ∧ p.text ∈ ts := by
  cases h with
  | normal htext => exact ⟨htext, by simp⟩
  | additive _ htext => exact ⟨htext, by simp⟩
  | subtractive _ htext => exact ⟨htext, by simp⟩

theorem NamedOption.Yields.leaves {o : NamedOption} {ts : List Token} (h : o.Yields ts) :
    (o.name.kind = .word ∧ o.name ∈ ts) ∧ ∀ v ∈ o.value, v.IsValue ∧ v ∈ ts := by
  cases h with
  | flag _ hname => exact ⟨⟨hname, by simp⟩, nofun⟩
  | valued _ hname _ hvalue =>
    refine ⟨⟨hname, by simp⟩, fun v hv => ?_⟩
    cases hv
    exact ⟨hvalue, by simp⟩

/-- A tree whose tokens have proper literals can be written. -/
theorem Yields.printable {t : Tree} {ts : List Token} (h : t.Yields ts)
    (hproper : ∀ u ∈ ts, u.Proper) : t.Printable := by
  cases h with
  | @command imperative terminal parameters options ps os hword hparameters hoptions _ =>
    simp only [List.forall_mem_append, List.forall_mem_cons] at hproper
    obtain ⟨⟨⟨himperative, hps⟩, hos⟩, -⟩ := hproper
    refine ⟨hword, himperative, fun p hp => ?_, fun o ho => ?_⟩
    · obtain ⟨-, -, front, used, back, -, rfl, -, hused, -⟩ := hparameters.exists_of_mem hp
      exact ⟨hused.isValue.1, hps _ (by simp [hused.isValue.2])⟩
    · obtain ⟨-, -, front, used, back, -, rfl, -, hused, -⟩ := hoptions.exists_of_mem ho
      obtain ⟨⟨hkind, hname⟩, hvalue⟩ := hused.leaves
      refine ⟨hkind, hos _ (by simp [hname]), fun v hv => ?_⟩
      exact ⟨(hvalue v hv).1, hos _ (by simp [(hvalue v hv).2])⟩

/-- The tokens of a line have proper literals. -/
theorem proper_of_tokenize {line : String} {s : TokenStream} (h : tokenize line = .ok s) :
    ∀ t ∈ s.tokens, t.Proper := by
  obtain ⟨hscan, hterminal, -⟩ := TokenStream.of_tokenize h
  rw [TokenStream.tokens, List.forall_mem_append]
  constructor
  · intro t ht
    obtain ⟨before, after, -, hnext⟩ := Token.exists_of_mem_reads (Token.scan_eq_ok_iff.1 hscan) ht
    exact hnext.proper
  · rw [List.forall_mem_singleton, hterminal]
    rfl

/-- The tree of a line can be written. -/
theorem printable_of_parseTree {line : String} {t : Tree} (h : parseTree line = .ok t) :
    t.Printable := by
  obtain ⟨s, htokenize, htree⟩ := bind_eq_ok.1 h
  exact (ofStream_eq_ok.1 (mapError_eq_ok.1 htree)).printable (proper_of_tokenize htokenize)

end Tree

end CommandLine
