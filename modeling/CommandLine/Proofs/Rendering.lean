import CommandLine.Proofs.Printer
/-!
# CommandLine.Proofs.Rendering

**Lines put together from parts.** An imperative, parameters and options with their values
make a tree (`Tree.ofParts`). It can be written if the parts can be typed, it is written as
the parts one after the other, and its command has these parts again: three lemmas that do
not know of each other.

Values are written between quotes, so a value may hold everything but a quote.
-/

namespace CommandLine

/-- A text that can be typed as one word. -/
def IsWord (s : String) : Prop := s ≠ "" ∧ ∀ c ∈ s.toList, c.isAlphanum

/-- A text that can be typed between quotes. -/
def Quotable (s : String) : Prop := '"' ∉ s.toList

-- The characters are gone through one by one; there is also an instance that goes through all
-- characters there are.
instance (s : String) : Decidable (IsWord s) :=
  decidable_of_iff (s ≠ "" ∧ s.toList.all Char.isAlphanum)
    (by simp only [IsWord, List.all_eq_true])

instance (s : String) : Decidable (Quotable s) := inferInstanceAs (Decidable (¬_))

/-- A text between quotes, as it is. -/
def inQuotes (s : String) : String := "\"" ++ s ++ "\""

theorem toList_inQuotes (s : String) : (inQuotes s).toList = '"' :: (s.toList ++ ['"']) := by
  simp [inQuotes, String.toList_append]

namespace Token

/-- A word without a place. -/
def ofWord (s : String) : Token := ⟨.word, s, .empty 0⟩

/-- A text without a place. -/
def ofText (s : String) : Token := ⟨.text, s, .empty 0⟩

theorem spelling_ofText (s : String) : (ofText s).spelling = (inQuotes s).toList := by
  rw [toList_inQuotes]
  rfl

theorem Proper.isWord {t : Token} (h : t.Proper) (hkind : t.kind = .word) : IsWord t.literal := by
  unfold Proper at h
  rwa [hkind] at h

/-- No literal that stands for a value has a quote in it. -/
theorem Proper.quotable {t : Token} (h : t.Proper) (hvalue : t.IsValue) : Quotable t.literal := by
  rcases hvalue with hkind | hkind
  · unfold Proper at h
    rwa [hkind] at h
  · intro hquote
    exact absurd ((h.isWord hkind).2 _ hquote) (by decide)

end Token

/-! ### Parts of lines -/

/-- A parameter with its mark, in quotes. -/
def Parameter.render (p : Parameter) : String :=
  " " ++ String.ofList p.marking.sign ++ inQuotes p.value

/-- An option, once for each of its values. -/
def renderValues (name : String) (values : List String) : String :=
  String.join (values.map fun value => " /" ++ name ++ ":" ++ inQuotes value)

/-- An option, once for each of its values, or as a flag if it has none. -/
def renderOption (name : String) : List String → String
  | [] => " /" ++ name
  | values => renderValues name values

/-! ### The tree of some parts -/

namespace Tree

/-- A parameter of a command, as one of a tree that stands in quotes. -/
def Parameter.ofBare (p : CommandLine.Parameter) : Parameter := ⟨p.marking, .ofText p.value⟩

/-- The places of an option in the tree, one for each value. -/
def placesOf (name : String) : List String → List NamedOption
  | [] => [⟨.ofWord name, none⟩]
  | values => values.map fun value => ⟨.ofWord name, some (.ofText value)⟩

/-- The tree with some imperative, parameters, and options with their values. -/
def ofParts (imperative : String) (parameters : List Parameter)
    (entries : List (String × List String)) : Tree where
  imperative := .ofWord imperative
  parameters := parameters
  options := entries.flatMap fun (name, values) => placesOf name values

theorem name_of_mem_placesOf {name : String} {values : List String} {o : NamedOption}
    (h : o ∈ placesOf name values) :
    o.name = .ofWord name ∧ ∀ v ∈ o.value, ∃ value ∈ values, v = .ofText value := by
  cases values with
  | nil =>
    obtain rfl : o = ⟨.ofWord name, none⟩ := by simpa [placesOf] using h
    exact ⟨rfl, nofun⟩
  | cons value values =>
    obtain ⟨v, hv, rfl⟩ := List.mem_map.1 h
    refine ⟨rfl, fun u hu => ?_⟩
    cases hu
    exact ⟨v, hv, rfl⟩

theorem mem_names_placesOf {name other : String} {values : List String} :
    other ∈ (placesOf name values).map (·.name.literal) ↔ other = name := by
  cases values with
  | nil => exact List.mem_singleton
  | cons value values =>
    constructor
    · intro h
      obtain ⟨o, ho, rfl⟩ := List.mem_map.1 h
      rw [(name_of_mem_placesOf ho).1]
      rfl
    · rintro rfl
      exact List.mem_cons_self

/-- The places of an option give its values back. -/
theorem filterMap_placesOf_self (name : String) (values : List String) :
    (placesOf name values).filterMap (NamedOption.value? name) = values := by
  have hvalue (value : String) :
      NamedOption.value? name ⟨.ofWord name, some (.ofText value)⟩ = some value := if_pos rfl
  cases values with
  | nil => simp [placesOf, NamedOption.value?]
  | cons value values => simp [placesOf, List.filterMap_map, hvalue]

theorem filterMap_placesOf_of_ne {name other : String} (h : other ≠ name) (values : List String) :
    (placesOf other values).filterMap (NamedOption.value? name) = [] := by
  refine List.filterMap_eq_nil_iff.2 fun o ho => ?_
  refine if_neg ?_
  rw [(name_of_mem_placesOf ho).1]
  exact h

theorem Parameter.printable_ofBare {p : CommandLine.Parameter} (h : Quotable p.value) :
    (ofBare p).Printable := ⟨.inl rfl, h⟩

variable {imperative : String} {parameters : List Parameter}
  {entries : List (String × List String)}

theorem printable_ofParts (himperative : IsWord imperative)
    (hparameters : ∀ p ∈ parameters, p.Printable)
    (hentries : ∀ entry ∈ entries, IsWord entry.1 ∧ ∀ value ∈ entry.2, Quotable value) :
    (ofParts imperative parameters entries).Printable := by
  refine ⟨rfl, himperative, hparameters, fun o ho => ?_⟩
  obtain ⟨⟨name, values⟩, hentry, ho⟩ := List.mem_flatMap.1 ho
  obtain ⟨hname, hvalue⟩ := name_of_mem_placesOf ho
  obtain ⟨hword, hvalues⟩ := hentries _ hentry
  refine ⟨by rw [hname]; rfl, by rw [hname]; exact hword, fun v hv => ?_⟩
  obtain ⟨value, hmem, rfl⟩ := hvalue v hv
  exact ⟨.inl rfl, hvalues value hmem⟩

/-! ### How it is written -/

theorem Parameter.write_ofBare (p : CommandLine.Parameter) :
    (ofBare p).write = p.render.toList := by
  have hblank : " ".toList = [' '] := rfl
  simp [ofBare, write, CommandLine.Parameter.render, Token.spelling_ofText, hblank]

theorem write_placesOf (name : String) (values : List String) :
    (placesOf name values).flatMap NamedOption.write = (renderOption name values).toList := by
  have hslash : " /".toList = [' ', '/'] := rfl
  have hcolon : ":".toList = [':'] := rfl
  cases values with
  | nil => simp [placesOf, renderOption, NamedOption.write, Token.ofWord, hslash]
  | cons value values =>
    simp only [placesOf, renderOption, renderValues, String.toList_join, List.flatMap_map]
    refine congrArg (fun g => (value :: values).flatMap g) (funext fun v => ?_)
    simp [NamedOption.write, Token.spelling_ofText, Token.ofWord, hslash, hcolon]

theorem write_ofParts :
    (ofParts imperative parameters entries).write =
      imperative.toList ++ (parameters.flatMap Parameter.write
        ++ entries.flatMap fun (name, values) => (renderOption name values).toList) := by
  simp only [write, ofParts, List.flatMap_assoc, write_placesOf]
  rfl

/-! ### What its command has -/

/-- Of the places of all options, a name finds those of its own option. -/
theorem filterMap_places (h : entries.Pairwise (·.1 ≠ ·.1)) (name : String) :
    (entries.flatMap fun (name, values) => placesOf name values).filterMap
      (NamedOption.value? name) = (entries.lookup name).getD [] := by
  induction entries with
  | nil => rfl
  | cons entry rest ih =>
    obtain ⟨key, values⟩ := entry
    obtain ⟨hfirst, hrest⟩ := List.pairwise_cons.1 h
    rw [List.flatMap_cons, List.filterMap_append, ih hrest]
    by_cases hkey : key = name
    · -- no later option has the name again
      subst hkey
      have hnone : rest.lookup key = none :=
        List.lookup_eq_none_iff.2 fun e he => bne_iff_ne.2 (hfirst e he)
      simp [filterMap_placesOf_self, hnone]
    · rw [filterMap_placesOf_of_ne hkey, List.lookup_cons, beq_eq_false_iff_ne.2 (Ne.symm hkey)]
      rfl

/-- The options that have places are the given ones. -/
theorem mem_names_ofParts {name : String} :
    name ∈ (ofParts imperative parameters entries).options.map (·.name.literal) ↔
      (entries.lookup name).isSome := by
  rw [ofParts, List.map_flatMap, List.mem_flatMap, List.lookup_isSome_iff]
  simp only [mem_names_placesOf, beq_iff_eq]

/-- The command has the options that were given, with their values. -/
theorem get?_ofParts (h : entries.Pairwise (·.1 ≠ ·.1)) (name : String) :
    (BareCommand.ofTree (ofParts imperative parameters entries)).options.get? name =
      entries.lookup name := by
  have hvalues : (ofParts imperative parameters entries).options.filterMap
      (NamedOption.value? name) = (entries.lookup name).getD [] := filterMap_places h name
  rw [get?_ofTree, hvalues]
  cases hlookup : entries.lookup name with
  | none => rw [if_neg (by simp [mem_names_ofParts, hlookup])]
  | some values => rw [if_pos (by simp [mem_names_ofParts, hlookup]), Option.getD_some]

end Tree

end CommandLine
