import CommandLine.Proofs.AddressBookLines
import CommandLine.Proofs.Complaints
import CommandLine.Proofs.FullKeywords
/-!
# CommandLine.Proofs.Abbreviations

**An abbreviation means its keyword.** However an imperative comes to select a keyword of the
address book, by its beginning or in full and under whatever settings, what is made of the bare
command depends on the keyword and on the arguments only (`AddressBook.abbreviation_means_keyword`).
The command that is made is the keyword's, and a complaint is about the keyword and not about what
was typed (`AddressBook.Keyword.construct_cases`).
-/

namespace CommandLine.AddressBook

variable {config config' : Config} {b b' : BareCommand} {binding binding' : Binding Command}

/-- Arguments make a command of the keyword, or a complaint about it. -/
theorem Keyword.construct_cases (k : Keyword) (b : BareCommand) :
    (∃ c, k.construct b = .ok c ∧ c.keyword = k)
      ∨ ∃ e, k.construct b = .error e ∧ e.command = k.name := by
  cases h : k.construct b with
  | ok c => exact .inl ⟨c, rfl, (construct_eq_ok.1 h).1⟩
  | error e => exact .inr ⟨e, rfl, k.reproves_construct b e h⟩

/-- What is made of a bare command depends on the keyword that it selects, and on its arguments. -/
theorem decode_of_selects {k : Keyword} (h : (Decoder.mk table config).resolve b = .ok k.binding)
    (harguments : b.toArguments = b'.toArguments) :
    (Decoder.mk table config).decode b = (k.construct b').mapError .validation := by
  rw [Decoder.decode_of_resolve h]
  show (k.construct b).mapError _ = _
  rw [k.construct_congr harguments]

/-- What is selected is the binding of some keyword. -/
theorem exists_of_resolve (h : (Decoder.mk table config).resolve b = .ok binding) :
    ∃ k : Keyword, binding = k.binding :=
  exists_of_mem_table (Decoder.mem_of_select h)

theorem keywords_nodup : table.keywords.Nodup := by
  decide

/-- Selections of the same keyword are the same. -/
theorem eq_of_resolve (h : (Decoder.mk table config).resolve b = .ok binding)
    (h' : (Decoder.mk table config').resolve b' = .ok binding')
    (hkeyword : binding.keyword = binding'.keyword) : binding = binding' :=
  BindingTable.eq_of_keyword_eq keywords_nodup (Decoder.mem_of_select h')
    (Decoder.mem_of_select h) hkeyword

/-- **An abbreviation means its keyword.** Let two bare commands have the same arguments, and let
their imperatives select the same keyword, maybe under different settings. Then the same is made of
both: the same command, or the same complaint. So it is what is made of the keyword typed in full,
under any settings. A command is the keyword's, and a complaint is about the keyword. -/
theorem abbreviation_means_keyword
    (h : (Decoder.mk table config).resolve b = .ok binding)
    (h' : (Decoder.mk table config').resolve b' = .ok binding')
    (hkeyword : binding.keyword = binding'.keyword) (harguments : b.toArguments = b'.toArguments) :
    (Decoder.mk table config).decode b = (Decoder.mk table config').decode b'
      ∧ (∀ config'', (Decoder.mk table config'').decode { b with imperative := binding.keyword }
        = (Decoder.mk table config).decode b)
      ∧ ((∃ c, (Decoder.mk table config).decode b = .ok c ∧ c.keyword.name = binding.keyword)
        ∨ ∃ e, (Decoder.mk table config).decode b = .error (.validation e)
          ∧ e.command = binding.keyword) := by
  obtain rfl := eq_of_resolve h h' hkeyword
  obtain ⟨k, rfl⟩ := exists_of_resolve h
  have hmade := decode_of_selects h rfl
  refine ⟨hmade.trans (decode_of_selects h' harguments.symm).symm, fun config'' => ?_, ?_⟩
  · have hfull : (Decoder.mk table config'').resolve { b with imperative := k.binding.keyword }
        = .ok k.binding := select_name config'' k
    have hsame : ({ b with imperative := k.binding.keyword } : BareCommand).toArguments
        = b.toArguments := rfl
    exact (decode_of_selects hfull hsame).trans hmade.symm
  · rw [hmade]
    rcases k.construct_cases b with ⟨c, hc, rfl⟩ | ⟨e, he, hcommand⟩
    · exact .inl ⟨c, mapError_eq_ok.2 hc, rfl⟩
    · exact .inr ⟨e, mapError_eq_error.2 ⟨e, he, rfl⟩, hcommand⟩

/-- Arguments that `untag` does not take. -/
def markedTag : Arguments := ⟨[⟨.normal, "1"⟩, ⟨.additive, "x"⟩], .empty⟩

/-- A complaint about `unt` is one about `untag`. -/
theorem unt_means_untag :
    (Decoder.mk table ⟨.leading, false, 3⟩).resolve { markedTag with imperative := "unt" }
        = .ok Keyword.untag.binding
      ∧ (Decoder.mk table .exact).resolve { markedTag with imperative := "untag" }
        = .ok Keyword.untag.binding
      ∧ (Decoder.mk table ⟨.leading, false, 3⟩).decode { markedTag with imperative := "unt" }
        = .error (.validation ⟨"untag", "parameter `x` must not be marked with + or -"⟩) := by
  have habbreviated : (Decoder.mk table ⟨.leading, false, 3⟩).resolve
      { markedTag with imperative := "unt" } = .ok Keyword.untag.binding := rfl
  have hfull : (Decoder.mk table .exact).resolve { markedTag with imperative := "untag" }
      = .ok Keyword.untag.binding := rfl
  refine ⟨habbreviated, hfull, ?_⟩
  rw [(abbreviation_means_keyword habbreviated hfull rfl rfl).1]
  rfl

end CommandLine.AddressBook
