import CommandLine.Proofs.Rendering
/-!
# CommandLine.Proofs.RoundTrip

**Bare commands and their lines.** `BareCommand.render` writes a bare command as a line: all
values in quotes, options in the order of their names, one place for each value. Reading the
line gives the command back, as long as the command is `BareCommand.WellFormed`, and reading
never gives one that is not.
-/

namespace CommandLine

namespace BareCommand

/-- The imperative and the names can be typed as words, and the values between quotes. -/
structure WellFormed (b : BareCommand) : Prop where
  imperative : IsWord b.imperative
  parameters : ∀ p ∈ b.parameters, Quotable p.value
  names : ∀ name ∈ b.optionNames, IsWord name
  values : ∀ entry ∈ b.options.entries, ∀ value ∈ entry.2, Quotable value

instance (b : BareCommand) : Decidable b.WellFormed :=
  decidable_of_iff (IsWord b.imperative ∧ (∀ p ∈ b.parameters, Quotable p.value)
      ∧ (∀ name ∈ b.optionNames, IsWord name)
      ∧ ∀ entry ∈ b.options.entries, ∀ value ∈ entry.2, Quotable value)
    ⟨fun ⟨himperative, hparameters, hnames, hvalues⟩ =>
        ⟨himperative, hparameters, hnames, hvalues⟩,
      fun h => ⟨h.imperative, h.parameters, h.names, h.values⟩⟩

/-- The command as a line, its options in the order of their names. -/
def render (b : BareCommand) : String :=
  b.imperative ++ String.join (b.parameters.map Parameter.render)
    ++ String.join (b.options.entries.map fun (name, values) => renderOption name values)

end BareCommand

/-! ### The tree of a rendered command -/

namespace Tree

/-- A tree with the content of a command. -/
def ofBare (b : BareCommand) : Tree :=
  ofParts b.imperative (b.parameters.map Parameter.ofBare) b.options.entries

theorem printable_ofBare {b : BareCommand} (h : b.WellFormed) : (ofBare b).Printable := by
  refine printable_ofParts h.imperative ?_ fun entry hentry => ?_
  · rw [List.forall_mem_map]
    exact fun p hp => Parameter.printable_ofBare (h.parameters p hp)
  · exact ⟨h.names _ (List.mem_map_of_mem hentry), h.values entry hentry⟩

theorem write_ofBare (b : BareCommand) : (ofBare b).write = b.render.toList := by
  rw [ofBare, write_ofParts, BareCommand.render, String.toList_append, String.toList_append,
    String.toList_join, String.toList_join, List.flatMap_map, List.flatMap_map, List.flatMap_map,
    List.append_assoc]
  simp only [Parameter.write_ofBare]

/-- The tree with the content of a command has this command. -/
theorem ofTree_ofBare (b : BareCommand) : BareCommand.ofTree (ofBare b) = b := by
  refine BareCommand.eq_of_parts (imperative_ofTree _) ?_ fun name => ?_
  · rw [parameters_ofTree, ofBare, ofParts, List.map_map]
    exact List.map_id _
  · refine get?_ofParts (b.options.sorted.imp fun hlt heq => ?_) name
    exact String.lt_irrefl _ (heq ▸ hlt)

end Tree

/-! ### Reading rendered lines, and reading any line -/

/-- A rendered command is read as it was. -/
theorem parse_of_wellFormed {b : BareCommand} (h : b.WellFormed) : parse b.render = .ok b := by
  have hparse := Tree.parse_write (Tree.printable_ofBare h)
  rwa [Tree.write_ofBare, String.ofList_toList, Tree.ofTree_ofBare] at hparse

/-- The command of a tree that can be written is well-formed. -/
theorem Tree.Printable.wellFormed {t : Tree} (h : t.Printable) :
    (BareCommand.ofTree t).WellFormed where
  imperative := by
    rw [imperative_ofTree]
    exact h.imperative_proper.isWord h.imperative_kind
  parameters := by
    rw [parameters_ofTree, List.forall_mem_map]
    intro p hp
    exact (h.parameters p hp).2.quotable (h.parameters p hp).1
  names := by
    intro name hname
    rw [Arguments.optionNames, SortedMap.mem_keys_iff, get?_ofTree] at hname
    split at hname
    · next hmem =>
      obtain ⟨o, ho, rfl⟩ := List.mem_map.1 hmem
      exact (h.options o ho).name_proper.isWord (h.options o ho).name_kind
    · cases hname
  values := by
    intro (name, values) hentry value hvalue
    have hget := SortedMap.get?_eq_some_iff.2 hentry
    rw [get?_ofTree] at hget
    split at hget
    · cases hget
      obtain ⟨o, ho, hof⟩ := List.mem_filterMap.1 hvalue
      rw [NamedOption.value?] at hof
      split at hof
      · obtain ⟨v, hv, rfl⟩ := Option.map_eq_some_iff.1 hof
        exact ((h.options o ho).value v hv).2.quotable ((h.options o ho).value v hv).1
      · cases hof
    · cases hget

theorem wellFormed_of_parse {line : String} {b : BareCommand} (h : parse line = .ok b) :
    b.WellFormed := by
  obtain ⟨t, ht, rfl⟩ := map_eq_ok.1 h
  exact (Tree.printable_of_parseTree ht).wellFormed

/-- **Reading undoes rendering, and gives well-formed commands only.** So a bare command is
read from some line just when it is well-formed. -/
theorem parse_render_and_image :
    (∀ b : BareCommand, b.WellFormed → parse b.render = .ok b)
      ∧ (∀ (line : String) (b : BareCommand), parse line = .ok b → b.WellFormed)
      ∧ ∀ b : BareCommand, (∃ line, parse line = .ok b) ↔ b.WellFormed := by
  refine ⟨fun b => parse_of_wellFormed, fun line b => wellFormed_of_parse, fun b => ?_⟩
  constructor
  · intro ⟨line, h⟩
    exact wellFormed_of_parse h
  · intro h
    exact ⟨b.render, parse_of_wellFormed h⟩

/-- A command whose values look like other parts of a line. -/
def lookAlike : BareCommand where
  imperative := "tag2"
  parameters := [⟨.normal, "/é: +"⟩, ⟨.additive, ""⟩, ⟨.subtractive, " "⟩]
  options := .ofList [("vip", []), ("7", ["/a", ":b", "/a"])]

theorem parse_render_lookAlike :
    lookAlike.render = "tag2 \"/é: +\" +\"\" -\" \" /7:\"/a\" /7:\":b\" /7:\"/a\" /vip"
      ∧ parse lookAlike.render = .ok lookAlike :=
  ⟨by decide, parse_render_and_image.1 lookAlike (by decide)⟩

end CommandLine
