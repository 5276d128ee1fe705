import CommandLine.Proofs.Abbreviations
import CommandLine.Proofs.Extraction
import CommandLine.Proofs.Stations
/-!
# CommandLine.Proofs.UnknownOptions

**Unknown options come first.** A command of the address book has few options
(`AddressBook.Keyword.optionNames`), and each keyword looks for other ones before it looks at
anything else (`AddressBook.Keyword.construct_of_unknown`). So an unknown option is what is told about
arguments with several faults.

Of several unknown options the one whose name has the smallest bytes is told: names are kept in
this order, wherever in the line the options stand
(`AddressBook.Keyword.find?_unknown_eq_some_iff`). So nothing changes when the options of a line
change places (`AddressBook.unknown_option_told_first`).
-/

namespace CommandLine

/-- A tree with the imperative of another one and with options of the same names, one for one, in
whatever order. -/
structure Tree.SameOptionNames (t u : Tree) : Prop where
  imperative : u.imperative.literal = t.imperative.literal
  names : (u.options.map (·.name.literal)).Perm (t.options.map (·.name.literal))

theorem Tree.mem_optionNames_ofTree {t : Tree} {name : String} :
    name ∈ (BareCommand.ofTree t).optionNames ↔ name ∈ t.options.map (·.name.literal) := by
  rw [Arguments.optionNames, SortedMap.mem_keys_iff, get?_ofTree]
  by_cases h : name ∈ t.options.map (·.name.literal) <;> simp [h]

/-- The options of a line can be put into any order. -/
theorem Tree.exists_reordered {line : String} {t : Tree} (h : parseTree line = .ok t)
    {options : List NamedOption} (hperm : options.Perm t.options) :
    ∃ line' u, parseTree line' = .ok u
      ∧ u.map Token.unplaced = ({ t with options := options } : Tree).map Token.unplaced := by
  have hprintable := printable_of_parseTree h
  obtain ⟨u, hu, hsame⟩ := exists_of_write (t := { t with options := options })
    { hprintable with options := fun o ho => hprintable.options o (hperm.mem_iff.1 ho) }
  exact ⟨_, u, hu, hsame⟩

namespace AddressBook

variable {k : Keyword} {b : BareCommand} {config : Config} {n : String}

namespace Keyword

/-- The names of the options that the command of a keyword may have. -/
def optionNames : Keyword → List String
  | add => ["phone", "email", "tag"]
  | edit => ["name", "phone", "email"]
  | clear | delete | exit | find | help | list | tag | untag => []

/-- Of the names that are no options of the keyword, the one with the smallest bytes. -/
structure LeastUnknown (k : Keyword) (names : List String) (n : String) : Prop where
  mem : n ∈ names
  unknown : n ∉ k.optionNames
  least : ∀ m ∈ names, m ∉ k.optionNames → m ≠ n → Text.bytes n < Text.bytes m

theorem LeastUnknown.congr {names names' : List String} (h : k.LeastUnknown names n)
    (hnames : ∀ m, m ∈ names' ↔ m ∈ names) : k.LeastUnknown names' n where
  mem := (hnames n).2 h.mem
  unknown := h.unknown
  least := fun m hm => h.least m ((hnames m).1 hm)

theorem LeastUnknown.unique {names : List String} {m : String} (h : k.LeastUnknown names n)
    (h' : k.LeastUnknown names m) : m = n := by
  by_contra hne
  have hlt := h.least m h'.mem h'.unknown hne
  exact List.lt_asymm hlt (h'.least n h.mem h.unknown (Ne.symm hne))

/-- The names of the options are kept in order, so the first unknown one is the least. -/
theorem find?_unknown_eq_some_iff :
    b.optionNames.find? (· ∉ k.optionNames) = some n ↔ k.LeastUnknown b.optionNames n := by
  have hfirst {m : String} (h : b.optionNames.find? (· ∉ k.optionNames) = some m) :
      k.LeastUnknown b.optionNames m := by
    obtain ⟨hunknown, before, after, hnames, hbefore⟩ := List.find?_eq_some_iff_append.1 h
    have hsorted := b.optionNames_pairwise
    rw [hnames] at hsorted ⊢
    refine ⟨by simp, by simpa using hunknown, fun name hname hother hne => ?_⟩
    rcases List.mem_append.1 hname with hname | hname
    · -- what stands in front is known
      exact absurd (by simpa using hbefore name hname) hother
    · have hafter := (List.mem_cons.1 hname).resolve_left hne
      exact List.rel_of_pairwise_cons (List.pairwise_append.1 hsorted).2.1 hafter
  refine ⟨hfirst, fun h => ?_⟩
  cases hfind : b.optionNames.find? (· ∉ k.optionNames) with
  | none =>
    have hknown := List.find?_eq_none.1 hfind n h.mem
    exact absurd h.unknown (by simpa using hknown)
  | some m => rw [h.unique (hfirst hfind)]

/-- An unknown option is told before anything else, by each keyword. -/
theorem construct_of_unknown {e : ValidationError}
    (h : onlyOptions b k.name k.optionNames = .error e) : k.construct b = .error e := by
  cases k with
  | add | delete | edit | find | help => exact bind_eq_error.2 (.inl h)
  | clear | exit | list =>
    have hnone : noArguments b _ = .error e := bind_eq_error.2 (.inl h)
    exact bind_eq_error.2 (.inl hnone)
  | tag | untag =>
    have hnone : indexAndTags b _ = .error e := bind_eq_error.2 (.inl h)
    exact bind_eq_error.2 (.inl hnone)

end Keyword

/-- The least unknown option of a bare command is what is told about it. -/
theorem decode_of_leastUnknown (h : (Decoder.mk table config).resolve b = .ok k.binding)
    (hleast : k.LeastUnknown b.optionNames n) :
    (Decoder.mk table config).decode b
      = .error (.validation ⟨k.name, "unknown option /" ++ n⟩) := by
  have honly : onlyOptions b k.name k.optionNames
      = .error (complaint k.name (.unknownOption n)) := by
    rw [onlyOptions, Keyword.find?_unknown_eq_some_iff.2 hleast]
  rw [decode_of_selects h rfl, Keyword.construct_of_unknown honly]
  rfl

/-- **Unknown options are the first complaint.** Let a bare command select a keyword and have
options that are none of the keyword's. Then the one of them whose name has the smallest bytes is
what is told, whatever else is wrong. So for a line of which the bare command is read: its options
can be put into any order, and whatever line has options of these names, in whatever order, is told
the same. -/
theorem unknown_option_told_first (h : (Decoder.mk table config).resolve b = .ok k.binding)
    (hunknown : ∃ name ∈ b.optionNames, name ∉ k.optionNames) :
    ∃ n, k.LeastUnknown b.optionNames n
      ∧ (Decoder.mk table config).decode b
        = .error (.validation ⟨k.name, "unknown option /" ++ n⟩)
      ∧ ∀ line t, parseTree line = .ok t → BareCommand.ofTree t = b →
        (∀ options, options.Perm t.options → ∃ line' u, parseTree line' = .ok u
          ∧ u.map Token.unplaced = ({ t with options := options } : Tree).map Token.unplaced)
        ∧ ∀ line' u, parseTree line' = .ok u → t.SameOptionNames u →
          assemble (Decoder.mk table config) line'
            = .error (.validation ⟨k.name, "unknown option /" ++ n⟩) := by
  obtain ⟨name, hname, hother⟩ := hunknown
  have hsome : (b.optionNames.find? (· ∉ k.optionNames)).isSome :=
    List.find?_isSome.2 ⟨name, hname, by simpa using hother⟩
  obtain ⟨n, hfind⟩ := Option.isSome_iff_exists.1 hsome
  have hleast := Keyword.find?_unknown_eq_some_iff.1 hfind
  refine ⟨n, hleast, decode_of_leastUnknown h hleast, fun line t ht htree => ⟨?_, ?_⟩⟩
  · exact fun options hperm => Tree.exists_reordered ht hperm
  · intro line' u hu hsame
    subst htree
    have hresolve : (Decoder.mk table config).resolve (BareCommand.ofTree u) = .ok k.binding := by
      rw [Decoder.resolve, Tree.imperative_ofTree, hsame.imperative, ← Tree.imperative_ofTree]
      exact h
    have hnames (m : String) :
        m ∈ (BareCommand.ofTree u).optionNames ↔ m ∈ (BareCommand.ofTree t).optionNames := by
      rw [Tree.mem_optionNames_ofTree, Tree.mem_optionNames_ofTree, hsame.names.mem_iff]
    have hparse : parse line' = .ok (BareCommand.ofTree u) := map_eq_ok.2 ⟨u, hu, rfl⟩
    rw [assemble_of_parse hparse]
    exact decode_of_leastUnknown hresolve (hleast.congr hnames)

/-- The tree of `del +x /zoo:1 /b /Zoo`. -/
def deleteWithOptions : Tree where
  imperative := ⟨.word, "del", ⟨0, 3⟩⟩
  parameters := [⟨.additive, ⟨.word, "x", ⟨5, 6⟩⟩⟩]
  options := [⟨⟨.word, "zoo", ⟨8, 11⟩⟩, some ⟨.word, "1", ⟨12, 13⟩⟩⟩,
    ⟨⟨.word, "b", ⟨15, 16⟩⟩, none⟩, ⟨⟨.word, "Zoo", ⟨18, 21⟩⟩, none⟩]

/-- The tree of `del /Zoo /zoo /b`. -/
def deleteWithFlags : Tree where
  imperative := ⟨.word, "del", ⟨0, 3⟩⟩
  parameters := []
  options := [⟨⟨.word, "Zoo", ⟨5, 8⟩⟩, none⟩, ⟨⟨.word, "zoo", ⟨10, 13⟩⟩, none⟩,
    ⟨⟨.word, "b", ⟨15, 16⟩⟩, none⟩]

/-- Capitals have smaller bytes than small letters, so `Zoo` is told first, wherever it stands; and
it is told before the mark of the parameter, or that there is no parameter. -/
theorem capitals_told_first :
    (Decoder.mk table .default).resolve (BareCommand.ofTree deleteWithOptions)
        = .ok Keyword.delete.binding
      ∧ (∃ name ∈ (BareCommand.ofTree deleteWithOptions).optionNames,
        name ∉ Keyword.delete.optionNames)
      ∧ (Decoder.mk table .default).decode (BareCommand.ofTree deleteWithOptions)
        = .error (.validation ⟨"delete", "unknown option /Zoo"⟩)
      ∧ assemble (Decoder.mk table .default) "del /Zoo /zoo /b"
        = .error (.validation ⟨"delete", "unknown option /Zoo"⟩) := by
  have hresolve : (Decoder.mk table .default).resolve (BareCommand.ofTree deleteWithOptions)
      = .ok Keyword.delete.binding := by rfl
  have hunknown : ∃ name ∈ (BareCommand.ofTree deleteWithOptions).optionNames,
      name ∉ Keyword.delete.optionNames := ⟨"b", by decide +kernel, by decide⟩
  have ht : parseTree "del +x /zoo:1 /b /Zoo" = .ok deleteWithOptions := by decide +kernel
  have hu : parseTree "del /Zoo /zoo /b" = .ok deleteWithFlags := by decide +kernel
  have htold : (Decoder.mk table .default).decode (BareCommand.ofTree deleteWithOptions)
      = .error (.validation ⟨"delete", "unknown option /Zoo"⟩) := by decide +kernel
  obtain ⟨n, -, hdecode, hlines⟩ := unknown_option_told_first hresolve hunknown
  have hline := (hlines _ _ ht rfl).2 _ _ hu ⟨rfl, by decide⟩
  rw [← hdecode, htold] at hline
  exact ⟨hresolve, hunknown, htold, hline⟩

end AddressBook

end CommandLine
