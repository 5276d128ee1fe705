import CommandLine.Proofs.DecimalIndex
import CommandLine.Proofs.Resolution
import CommandLine.Proofs.RoundTrip
import CommandLine.Proofs.Shapes
/-!
# CommandLine.Proofs.AddressBookLines

**Commands of the address book and their lines.** `AddressBook.Command.line` writes a command
with its whole keyword, its index in decimal and everything else in quotes. However keywords
are matched, assembling the line makes the command again, as long as it is
`AddressBook.Command.WellFormed`; and nothing else than well-formed commands is ever made.

* No keyword begins with another one, so a whole keyword selects its own binding under every
  configuration (`AddressBook.select_name`).
* `AddressBook.Command.IsSaidBy` lies between a command and its line: arguments with just the
  index, the values and the options of the command. They fit the command.
-/

namespace CommandLine.AddressBook

/-! ### Keywords typed in full -/

theorem matching_name (rule : MatchRule) (k : Keyword) :
    table.matching (rule.selects k.name) = [k.binding] := by
  have hfilter : Keyword.all.filter (fun other => rule.selects k.name other.name) = [k] := by
    cases rule <;> cases k <;> decide
  rw [BindingTable.matching, table, List.filter_map]
  exact congrArg (List.map Keyword.binding) hfilter

/-- A keyword typed in full selects its binding, by whatever rule. -/
theorem select_name (config : Config) (k : Keyword) :
    (Decoder.mk table config).select k.name = .ok k.binding :=
  Decoder.select_eq_ok.2 (.inl (matching_name _ k))

theorem exists_of_mem_table {binding : Binding Command} (h : binding ∈ table.bindings) :
    ∃ k : Keyword, binding = k.binding := by
  obtain ⟨k, -, rfl⟩ := List.mem_map.1 h
  exact ⟨k, rfl⟩

/-- The command of a line whose imperative is a whole keyword. -/
theorem assemble_of_fits {line : String} {b : BareCommand} {c : Command} (config : Config)
    (hparse : parse line = .ok b) (hkeyword : b.imperative = c.keyword.name)
    (hfits : c.Fits b.toArguments) : assemble ⟨table, config⟩ line = .ok c := by
  refine Decoder.assemble_eq_ok.2 ⟨b, hparse, Decoder.decode_eq_ok.2 ⟨c.keyword.binding, ?_, ?_⟩⟩
  · rw [hkeyword]
    exact select_name config c.keyword
  · exact Keyword.construct_eq_ok.2 ⟨rfl, hfits⟩

/-- The arguments of a line fit the command that it makes. -/
theorem fits_of_assemble {line : String} {c : Command} {config : Config}
    (h : assemble ⟨table, config⟩ line = .ok c) :
    ∃ b, parse line = .ok b ∧ c.Fits b.toArguments := by
  obtain ⟨b, hparse, binding, hmem, hconstruct⟩ := Decoder.exists_of_assemble h
  obtain ⟨k, rfl⟩ := exists_of_mem_table hmem
  exact ⟨b, hparse, (Keyword.construct_eq_ok.1 hconstruct).2⟩

/-! ### Well-formed commands and their lines -/

namespace Command

/-- All texts of a command. -/
def texts : Command → List String
  | add name phone email tags => name :: phone.toList ++ email.toList ++ tags
  | edit _ details added removed =>
    details.name.toList ++ details.phone.toList ++ details.email.toList ++ added ++ removed
  | find keywords => keywords
  | help topic => topic.toList
  | tag _ tags | untag _ tags => tags
  | delete _ | clear | exit | list => []

/-- The index of the contact that a command is about. -/
def target? : Command → Option Nat
  | delete n | edit n .. | tag n _ | untag n _ => some n
  | _ => none

/-- A search has a keyword, tags are put on or taken off, and an edit changes something. -/
def HasContent : Command → Prop
  | edit _ details added removed =>
    details.name.isSome ∨ details.phone.isSome ∨ details.email.isSome ∨ added ≠ [] ∨ removed ≠ []
  | find keywords => keywords ≠ []
  | tag _ tags | untag _ tags => tags ≠ []
  | _ => True

/-- A command that can be typed. -/
structure WellFormed (c : Command) : Prop where
  texts : ∀ text ∈ c.texts, Quotable text
  index : ∀ n ∈ c.target?, IsIndex n
  content : c.HasContent

/-- The parameters of a command behind its index. -/
def positional : Command → List Parameter
  | add name .. => normals [name]
  | edit _ _ added removed => added.map (⟨.additive, ·⟩) ++ removed.map (⟨.subtractive, ·⟩)
  | find keywords => normals keywords
  | help topic => normals topic.toList
  | tag _ tags | untag _ tags => normals tags
  | delete _ | clear | exit | list => []

/-- The options of a command, each with all its values. -/
def options : Command → List (String × List String)
  | add _ phone email tags =>
    [("phone", phone.toList), ("email", email.toList), ("tag", tags)]
  | edit _ details _ _ =>
    [("phone", details.phone.toList), ("email", details.email.toList),
      ("name", details.name.toList)]
  | _ => []

/-- A command as a line: the keyword, the index in decimal, the other parameters in quotes and
the values of the options in quotes. -/
def line (c : Command) : String :=
  c.keyword.name ++ (c.target?.elim "" fun n => " " ++ toString n)
    ++ String.join (c.positional.map Parameter.render)
    ++ String.join (c.options.map fun (name, values) => renderValues name values)

/-! ### What the line of a command says -/

/-- Values of an option that is there only if it has some. -/
def nonEmpty? (values : List String) : Option (List String) :=
  if values = [] then none else some values

theorem nonEmpty?_toList (value : Option String) :
    nonEmpty? value.toList = value.map ([·]) := by
  cases value <;> rfl

/-- The arguments are the index, the values and the options of the command, and nothing
else. -/
def IsSaidBy (c : Command) (a : Arguments) : Prop :=
  a.parameters = c.target?.toList.map (fun n => ⟨.normal, toString n⟩) ++ c.positional
    ∧ ∀ name, a.optionValues? name = nonEmpty? ((c.options.lookup name).getD [])

variable {c : Command} {a : Arguments}

theorem IsSaidBy.onlyOptions (h : c.IsSaidBy a) {allowed : List String}
    (hallowed : ∀ entry ∈ c.options, entry.1 ∈ allowed) : OnlyOptions a allowed := by
  intro name hname
  rw [Arguments.optionNames, SortedMap.mem_keys_iff] at hname
  have hvalues := h.2 name
  cases hlookup : c.options.lookup name with
  | none =>
    rw [hlookup] at hvalues
    rw [Arguments.optionValues?] at hvalues
    rw [hvalues] at hname
    cases hname
  | some values =>
    obtain ⟨before, after, hoptions, -⟩ := List.lookup_eq_some_iff.1 hlookup
    exact hallowed (name, values) (by simp [hoptions])

theorem valuesMarked_append (marking : Marking) (ps qs : List Parameter) :
    valuesMarked marking (ps ++ qs) = valuesMarked marking ps ++ valuesMarked marking qs := by
  rw [valuesMarked, List.filter_append, List.map_append]
  rfl

theorem valuesMarked_self (marking : Marking) (values : List String) :
    valuesMarked marking (values.map (⟨marking, ·⟩)) = values := by
  induction values with
  | nil => rfl
  | cons value values ih => simpa [valuesMarked] using ih

theorem valuesMarked_of_ne {marking other : Marking} (h : other ≠ marking) (values : List String) :
    valuesMarked marking (values.map (⟨other, ·⟩)) = [] := by
  simp [valuesMarked, h]

/-- Tags of an edit are told apart by their marks. -/
theorem valuesMarked_positional (n : Nat) (details : Details) (added removed : List String) :
    valuesMarked .additive (edit n details added removed).positional = added
      ∧ valuesMarked .subtractive (edit n details added removed).positional = removed := by
  rw [positional, valuesMarked_append, valuesMarked_append, valuesMarked_self, valuesMarked_self,
    valuesMarked_of_ne (by decide), valuesMarked_of_ne (by decide), List.append_nil]
  exact ⟨rfl, rfl⟩

/-- An edit changes something just when it has a field or a tag. -/
theorem hasContent_edit {n : Nat} {details : Details} {added removed : List String} :
    (edit n details added removed).HasContent ↔
      ¬(details.isEmpty ∧ (edit n details added removed).positional = []) := by
  obtain ⟨name, phone, email⟩ := details
  cases name <;> cases phone <;> cases email <;> cases added <;>
    simp [HasContent, Details.isEmpty, positional]

/-- Such arguments fit the command. -/
theorem IsSaidBy.fits (h : c.IsSaidBy a) (hcontent : c.HasContent)
    (hindex : ∀ n ∈ c.target?, IsIndex n) : c.Fits a := by
  have hread (n : Nat) (hn : n ∈ c.target?) : AddressBook.index? (toString n) = some n :=
    index?_toString (hindex n hn)
  obtain ⟨hparameters, hoptions⟩ := id h
  cases c with
  | add name phone email tags =>
    refine ⟨h.onlyOptions (by simp [options]), hparameters, ?_, ?_, ?_⟩
    · show a.optionValues? "phone" = phone.map ([·])
      rw [hoptions, ← nonEmpty?_toList]
      rfl
    · show a.optionValues? "email" = email.map ([·])
      rw [hoptions, ← nonEmpty?_toList]
      rfl
    · show a.optionValues? "tag" = nonEmpty? tags
      rw [hoptions]
      rfl
  | clear => exact ⟨h.onlyOptions (by simp [options]), hparameters⟩
  | delete n =>
    exact ⟨h.onlyOptions (by simp [options]), toString n, hparameters, hread n rfl⟩
  | edit n details added removed =>
    obtain ⟨hadded, hremoved⟩ := valuesMarked_positional n details added removed
    refine ⟨h.onlyOptions (by simp [options]), ?_, ?_, ?_, toString n,
      (edit n details added removed).positional, hparameters, hread n rfl, ?_, hadded, hremoved,
      hasContent_edit.1 hcontent⟩
    · show a.optionValues? "name" = details.name.map ([·])
      rw [hoptions, ← nonEmpty?_toList]
      rfl
    · show a.optionValues? "phone" = details.phone.map ([·])
      rw [hoptions, ← nonEmpty?_toList]
      rfl
    · show a.optionValues? "email" = details.email.map ([·])
      rw [hoptions, ← nonEmpty?_toList]
      rfl
    · intro p hp
      rcases List.mem_append.1 hp with hp | hp
      · obtain ⟨tag, -, rfl⟩ := List.mem_map.1 hp
        exact Marking.noConfusion
      · obtain ⟨tag, -, rfl⟩ := List.mem_map.1 hp
        exact Marking.noConfusion
  | exit => exact ⟨h.onlyOptions (by simp [options]), hparameters⟩
  | find keywords => exact ⟨h.onlyOptions (by simp [options]), hcontent, hparameters⟩
  | help topic => exact ⟨h.onlyOptions (by simp [options]), hparameters⟩
  | list => exact ⟨h.onlyOptions (by simp [options]), hparameters⟩
  | tag n tags =>
    exact ⟨h.onlyOptions (by simp [options]), hcontent, toString n, hparameters, hread n rfl⟩
  | untag n tags =>
    exact ⟨h.onlyOptions (by simp [options]), hcontent, toString n, hparameters, hread n rfl⟩

/-! ### The tree of a command's line -/

/-- The tree of a command's line. -/
def toTree (c : Command) : Tree :=
  .ofParts c.keyword.name
    (c.target?.toList.map (fun n => ⟨.normal, .ofWord (toString n)⟩)
      ++ c.positional.map Tree.Parameter.ofBare)
    (c.options.filter (·.2 ≠ []))

theorem isWord_name (k : Keyword) : IsWord k.name := by
  cases k <;> decide

/-- The values of the parameters are texts of the command. -/
theorem value_mem_texts {p : Parameter} (h : p ∈ c.positional) : p.value ∈ c.texts := by
  cases c with
  | edit n details added removed =>
    rcases List.mem_append.1 h with h | h
    · obtain ⟨tag, htag, rfl⟩ := List.mem_map.1 h
      simp [texts, htag]
    · obtain ⟨tag, htag, rfl⟩ := List.mem_map.1 h
      simp [texts, htag]
  | add | find | help | tag | untag =>
    obtain ⟨value, hvalue, rfl⟩ := List.mem_map.1 h
    simp_all [texts]
  | delete | clear | exit | list => cases h

/-- The options have names that can be typed. -/
theorem isWord_of_mem_options {entry : String × List String} (h : entry ∈ c.options) :
    IsWord entry.1 := by
  have hnames : ∀ name ∈ ["phone", "email", "tag", "name"], IsWord name := by decide
  refine hnames _ ?_
  cases c with
  | add | edit =>
    simp only [options, List.mem_cons, List.not_mem_nil, or_false] at h
    rcases h with rfl | rfl | rfl <;> simp
  | _ => cases h

/-- The values of the options are texts of the command. -/
theorem value_mem_texts_of_option {entry : String × List String} (h : entry ∈ c.options)
    {value : String} (hvalue : value ∈ entry.2) : value ∈ c.texts := by
  cases c with
  | add | edit =>
    simp only [options, List.mem_cons, List.not_mem_nil, or_false] at h
    rcases h with rfl | rfl | rfl <;> simp_all [texts]
  | _ => cases h

theorem options_pairwise (c : Command) : c.options.Pairwise (·.1 ≠ ·.1) := by
  cases c <;> simp [options]

theorem printable_toTree (h : c.WellFormed) : c.toTree.Printable := by
  refine Tree.printable_ofParts (isWord_name _) (fun p hp => ?_) fun entry hentry => ?_
  · rcases List.mem_append.1 hp with hp | hp
    · obtain ⟨n, -, rfl⟩ := List.mem_map.1 hp
      exact ⟨.inr rfl, isWord_toString n⟩
    · obtain ⟨q, hq, rfl⟩ := List.mem_map.1 hp
      exact Tree.Parameter.printable_ofBare (h.texts _ (value_mem_texts hq))
  · have hoption : entry ∈ c.options := (List.mem_filter.1 hentry).1
    refine ⟨isWord_of_mem_options hoption, fun value hvalue => ?_⟩
    exact h.texts value (value_mem_texts_of_option hoption hvalue)

/-- An option without values is not written at all. -/
theorem flatMap_filter_renderOption (entries : List (String × List String)) :
    ((entries.filter (·.2 ≠ [])).flatMap fun (name, values) => (renderOption name values).toList)
      = entries.flatMap fun (name, values) => (renderValues name values).toList := by
  induction entries with
  | nil => rfl
  | cons entry rest ih =>
    obtain ⟨name, values⟩ := entry
    cases values with
    | nil => simpa [renderValues] using ih
    | cons value values => simpa [renderOption] using ih

theorem write_toTree (c : Command) : c.toTree.write = c.line.toList := by
  have hblank : " ".toList = [' '] := rfl
  have hindex : (c.target?.toList.map fun n =>
      (⟨.normal, .ofWord (toString n)⟩ : Tree.Parameter)).flatMap Tree.Parameter.write
        = (c.target?.elim "" fun n => " " ++ toString n).toList := by
    cases c.target? with
    | none => rfl
    | some n =>
      simp [Tree.Parameter.write, Token.ofWord, Marking.sign, hblank]
  rw [toTree, Tree.write_ofParts, flatMap_filter_renderOption, List.flatMap_append, hindex,
    List.flatMap_map, line, String.toList_append, String.toList_append, String.toList_append,
    String.toList_join, String.toList_join, List.flatMap_map, List.flatMap_map]
  simp only [Tree.Parameter.write_ofBare, List.append_assoc]

/-- An option is looked up where it has values. -/
theorem lookup_filter {entries : List (String × List String)}
    (h : entries.Pairwise (·.1 ≠ ·.1)) (name : String) :
    (entries.filter (·.2 ≠ [])).lookup name = nonEmpty? ((entries.lookup name).getD []) := by
  induction entries with
  | nil => rfl
  | cons entry rest ih =>
    obtain ⟨key, values⟩ := entry
    obtain ⟨hfirst, hrest⟩ := List.pairwise_cons.1 h
    rw [List.filter_cons, List.lookup_cons]
    by_cases hkey : name = key
    · subst hkey
      have hnone : rest.lookup name = none :=
        List.lookup_eq_none_iff.2 fun e he => bne_iff_ne.2 (hfirst e he)
      cases values with
      | nil =>
        -- the option is left out, and no later one has its name
        rw [if_neg (by simp), ih hrest, hnone, beq_self_eq_true]
        rfl
      | cons value values => simp [nonEmpty?]
    · rw [beq_eq_false_iff_ne.2 hkey, ← ih hrest]
      cases values with
      | nil => rfl
      | cons value values =>
        rw [if_pos (by simp), List.lookup_cons, beq_eq_false_iff_ne.2 hkey]

theorem isSaidBy_toTree (c : Command) :
    c.IsSaidBy (BareCommand.ofTree c.toTree).toArguments := by
  constructor
  · rw [Tree.parameters_ofTree, toTree, Tree.ofParts, List.map_append, List.map_map, List.map_map]
    exact congrArg _ (List.map_id _)
  · intro name
    rw [Arguments.optionValues?, toTree, Tree.get?_ofParts ((options_pairwise c).filter _),
      lookup_filter (options_pairwise c)]

/-- The line of a well-formed command is read, and what is read fits the command. -/
theorem parse_line (h : c.WellFormed) :
    ∃ b, parse c.line = .ok b ∧ b.imperative = c.keyword.name ∧ c.Fits b.toArguments := by
  have hparse := Tree.parse_write (printable_toTree h)
  rw [write_toTree, String.ofList_toList] at hparse
  exact ⟨_, hparse, Tree.imperative_ofTree _, (isSaidBy_toTree c).fits h.content h.index⟩

/-! ### Nothing but well-formed commands -/

theorem quotable_of_normals {values : List String} {b : BareCommand} (hb : b.WellFormed)
    (hvalues : b.parameters = normals values) : ∀ value ∈ values, Quotable value := by
  intro value hvalue
  refine hb.parameters ⟨.normal, value⟩ ?_
  rw [hvalues]
  exact List.mem_map_of_mem hvalue

theorem quotable_of_option {name : String} {values : List String} {b : BareCommand}
    (hb : b.WellFormed) (hvalues : b.optionValues? name = some values) :
    ∀ value ∈ values, Quotable value :=
  hb.values (name, values) (SortedMap.get?_eq_some_iff.1 hvalues)

theorem quotable_of_optionalValue {name : String} {value : Option String} {b : BareCommand}
    (hb : b.WellFormed) (hvalue : b.optionValues? name = value.map ([·])) :
    ∀ text ∈ value.toList, Quotable text := by
  cases value with
  | none => simp
  | some value => exact quotable_of_option hb hvalue

theorem quotable_of_marked {marking : Marking} {ps : List Parameter}
    (hps : ∀ p ∈ ps, Quotable p.value) : ∀ text ∈ valuesMarked marking ps, Quotable text := by
  intro text htext
  obtain ⟨p, hp, rfl⟩ := List.mem_map.1 htext
  exact hps p (List.mem_filter.1 hp).1

/-- A parameter with a mark is counted among the added or the removed tags. -/
theorem eq_nil_of_valuesMarked {ps : List Parameter} (hmarked : ∀ p ∈ ps, p.marking ≠ .normal)
    (hadded : valuesMarked .additive ps = []) (hremoved : valuesMarked .subtractive ps = []) :
    ps = [] := by
  have hnone {marking : Marking} (h : valuesMarked marking ps = []) :
      ∀ p ∈ ps, p.marking ≠ marking := by
    intro p hp hmarking
    have hmem : p.value ∈ valuesMarked marking ps :=
      List.mem_map_of_mem (List.mem_filter.2 ⟨hp, by simpa using hmarking⟩)
    rw [h] at hmem
    cases hmem
  refine List.eq_nil_iff_forall_not_mem.2 fun p hp => ?_
  cases hmarking : p.marking with
  | normal => exact hmarked p hp hmarking
  | additive => exact hnone hadded p hp hmarking
  | subtractive => exact hnone hremoved p hp hmarking

/-- What is made of arguments of a line is well-formed. -/
theorem wellFormed_of_fits {b : BareCommand} (hb : b.WellFormed) (h : c.Fits b.toArguments) :
    c.WellFormed := by
  cases c with
  | add name phone email tags =>
    obtain ⟨-, hname, hphone, hemail, htags⟩ := h
    refine ⟨?_, nofun, trivial⟩
    simp only [texts, List.forall_mem_append, List.forall_mem_cons]
    refine ⟨⟨⟨quotable_of_normals hb hname name (by simp), quotable_of_optionalValue hb hphone⟩,
      quotable_of_optionalValue hb hemail⟩, ?_⟩
    split at htags
    · next hnil => simp [hnil]
    · exact quotable_of_option hb htags
  | clear => exact ⟨nofun, nofun, trivial⟩
  | delete n =>
    obtain ⟨-, first, -, hindex⟩ := h
    refine ⟨nofun, fun m hm => ?_, trivial⟩
    cases hm
    exact isIndex_of_index? hindex
  | edit n details added removed =>
    obtain ⟨-, hname, hphone, hemail, first, tags, hparameters, hindex, hmarked, rfl, rfl,
      hchange⟩ := h
    have htags : ∀ p ∈ tags, Quotable p.value := by
      intro p hp
      exact hb.parameters p (by simp [hparameters, hp])
    refine ⟨?_, fun m hm => ?_, ?_⟩
    · simp only [texts, List.forall_mem_append]
      exact ⟨⟨⟨⟨quotable_of_optionalValue hb hname, quotable_of_optionalValue hb hphone⟩,
        quotable_of_optionalValue hb hemail⟩, quotable_of_marked htags⟩, quotable_of_marked htags⟩
    · cases hm
      exact isIndex_of_index? hindex
    · -- an edit without a field has tags, and each of them is added or removed
      rw [hasContent_edit]
      intro ⟨hempty, hnone⟩
      obtain ⟨hadded, hremoved⟩ := List.append_eq_nil_iff.1 hnone
      exact hchange ⟨hempty, eq_nil_of_valuesMarked hmarked (List.map_eq_nil_iff.1 hadded)
        (List.map_eq_nil_iff.1 hremoved)⟩
  | exit => exact ⟨nofun, nofun, trivial⟩
  | find keywords =>
    obtain ⟨-, hne, hkeywords⟩ := h
    exact ⟨quotable_of_normals hb hkeywords, nofun, hne⟩
  | help topic =>
    obtain ⟨-, htopic⟩ := h
    exact ⟨quotable_of_normals hb htopic, nofun, trivial⟩
  | list => exact ⟨nofun, nofun, trivial⟩
  | tag n tags | untag n tags =>
    obtain ⟨-, hne, first, hparameters, hindex⟩ := h
    refine ⟨fun text htext => ?_, fun m hm => ?_, hne⟩
    · exact quotable_of_normals hb hparameters text (List.mem_cons_of_mem _ htext)
    · cases hm
      exact isIndex_of_index? hindex

end Command

/-- **Assembling undoes writing a command, and makes well-formed commands only.** This holds
for each way to match keywords. -/
theorem assemble_line_and_image (config : Config) :
    (∀ c : Command, c.WellFormed → assemble ⟨table, config⟩ c.line = .ok c)
      ∧ (∀ (line : String) (c : Command), assemble ⟨table, config⟩ line = .ok c → c.WellFormed)
      ∧ ∀ c : Command, (∃ line, assemble ⟨table, config⟩ line = .ok c) ↔ c.WellFormed := by
  have hwrite (c : Command) (h : c.WellFormed) : assemble ⟨table, config⟩ c.line = .ok c := by
    obtain ⟨b, hparse, hkeyword, hfits⟩ := Command.parse_line h
    exact assemble_of_fits config hparse hkeyword hfits
  have himage (line : String) (c : Command) (h : assemble ⟨table, config⟩ line = .ok c) :
      c.WellFormed := by
    obtain ⟨b, hparse, hfits⟩ := fits_of_assemble h
    exact Command.wellFormed_of_fits (wellFormed_of_parse hparse) hfits
  refine ⟨hwrite, himage, fun c => ?_⟩
  constructor
  · intro ⟨line, h⟩
    exact himage line c h
  · intro h
    exact ⟨c.line, hwrite c h⟩

/-- An edit at the last index there is, with texts that look like other parts of a line. -/
def farEdit : Command :=
  .edit 18446744073709551615 ⟨some "é: /x", none, some ""⟩ ["a b", ""] ["+"]

theorem farEdit_wellFormed : farEdit.WellFormed where
  texts := by decide
  index := by decide
  content := .inl rfl

theorem assemble_line_farEdit :
    farEdit.line =
        "edit 18446744073709551615 +\"a b\" +\"\" -\"+\" /email:\"\" /name:\"é: /x\""
      ∧ assemble ⟨table, ⟨.leading, true, 0⟩⟩ farEdit.line = .ok farEdit :=
  ⟨by decide, (assemble_line_and_image _).1 farEdit farEdit_wellFormed⟩

end CommandLine.AddressBook
