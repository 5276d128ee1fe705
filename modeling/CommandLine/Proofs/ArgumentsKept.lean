import CommandLine.Proofs.Abbreviations
/-!
# CommandLine.Proofs.ArgumentsKept

**A command keeps its arguments.** No option and no parameter of an accepted bare command is lost
on the way to its command: the same command is made of another one just when that has the same
options and the same parameters (`AddressBook.same_command_iff_same_arguments`). Two things only
are forgotten, both about parameters and both named in `AddressBook.Keyword.SameParameters`: how an
index was spelled, and how the tags of an edit that are put on were mixed with those that are taken
off.

`AddressBook.Command.fits_iff_of_fits` says it of the arguments that fit a command, and is put
together from one lemma for options, one for an index in front of other parameters, and one for
mixed tags.
-/

namespace CommandLine.AddressBook

variable {a a' : Arguments} {c : Command} {ps qs : List Parameter}

/-! ### Arguments that are the same -/

/-- Two texts spell the same index. -/
def SameIndex (text text' : String) : Prop :=
  ∃ n, IsIndex n ∧ IsSpelling text n ∧ IsSpelling text' n

/-- The parameters with each mark are the same, in the same order. -/
def SameButMixed (ps qs : List Parameter) : Prop :=
  ∀ marking : Marking, ps.filter (·.marking = marking) = qs.filter (·.marking = marking)

/-- The first parameters have no mark and spell the same index; the later ones are the same, in
the sense of `same`. -/
def SameBehindIndex (same : List Parameter → List Parameter → Prop) (ps qs : List Parameter) :
    Prop :=
  ∃ text text' later later', ps = ⟨.normal, text⟩ :: later ∧ qs = ⟨.normal, text'⟩ :: later'
    ∧ SameIndex text text' ∧ same later later'

/-- What a command of the keyword cannot tell apart: the spellings of its index, and for an edit
how the tags with different marks are mixed. -/
def Keyword.SameParameters : Keyword → List Parameter → List Parameter → Prop
  | delete | tag | untag => SameBehindIndex (· = ·)
  | edit => SameBehindIndex SameButMixed
  | add | clear | exit | find | help | list => (· = ·)

/-! ### Options -/

/-- Options are the same if they are the same among the allowed ones. -/
theorem options_eq {allowed : List String} (h : OnlyOptions a allowed)
    (h' : OnlyOptions a' allowed)
    (hsame : ∀ name ∈ allowed, a.optionValues? name = a'.optionValues? name) :
    a.options = a'.options := by
  have hnone {a : Arguments} (h : OnlyOptions a allowed) {name : String} (hname : name ∉ allowed) :
      a.options.get? name = none := by
    rw [← Option.not_isSome_iff_eq_none, ← SortedMap.mem_keys_iff]
    exact fun hmem => hname (h name hmem)
  refine SortedMap.ext_get? fun name => ?_
  by_cases hname : name ∈ allowed
  · exact hsame name hname
  · rw [hnone h hname, hnone h' hname]

/-- No options are the same as no options. -/
theorem onlyOptions_nil_iff_options_eq (h : OnlyOptions a []) :
    OnlyOptions a' [] ↔ a.options = a'.options := by
  constructor
  · exact fun h' => options_eq h h' fun name hname => absurd hname List.not_mem_nil
  · intro hoptions
    rwa [OnlyOptions, Arguments.optionNames, ← hoptions]

/-! ### Parameters -/

theorem sameIndex_iff {text text' : String} {n : Nat} (h : index? text = some n) :
    SameIndex text text' ↔ index? text' = some n := by
  have hsame : SameIndex text text' ↔ ∃ m, index? text = some m ∧ index? text' = some m := by
    simp only [index?_eq_some_iff_denotes, denotes_iff_isSpelling]
    constructor
    · intro h
      obtain ⟨m, hm, htext, htext'⟩ := h
      exact ⟨m, ⟨hm, htext⟩, hm, htext'⟩
    · intro h
      obtain ⟨m, ⟨hm, htext⟩, -, htext'⟩ := h
      exact ⟨m, hm, htext, htext'⟩
  rw [hsame, h]
  simp

/-- Behind an index the parameters of a command are known one by one. -/
theorem exists_index_iff {rest : List String} {n : Nat}
    (h : ∃ first, ps = normals (first :: rest) ∧ index? first = some n) :
    (∃ first, qs = normals (first :: rest) ∧ index? first = some n)
      ↔ SameBehindIndex (· = ·) ps qs := by
  obtain ⟨text, rfl, hindex⟩ := h
  constructor
  · intro h
    obtain ⟨text', rfl, hindex'⟩ := h
    exact ⟨text, text', normals rest, normals rest, rfl, rfl, (sameIndex_iff hindex).2 hindex', rfl⟩
  · intro h
    obtain ⟨_, text', _, later, hps, rfl, hsame, rfl⟩ := h
    cases hps
    exact ⟨text', rfl, (sameIndex_iff hindex).1 hsame⟩

theorem filter_eq_map_valuesMarked (marking : Marking) (ps : List Parameter) :
    ps.filter (·.marking = marking) = (valuesMarked marking ps).map (⟨marking, ·⟩) := by
  induction ps with
  | nil => rfl
  | cons p ps ih =>
    obtain ⟨own, value⟩ := p
    by_cases h : own = marking
    · subst h
      simpa [valuesMarked] using ih
    · simpa [valuesMarked, h] using ih

theorem SameButMixed.mem_iff (h : SameButMixed ps qs) {p : Parameter} : p ∈ ps ↔ p ∈ qs := by
  have hmem (rs : List Parameter) : p ∈ rs ↔ p ∈ rs.filter (·.marking = p.marking) := by
    simp
  rw [hmem ps, h p.marking, ← hmem qs]

/-- Tags are the same but for the way they are mixed if those with the same mark are the same. -/
theorem sameButMixed_iff (h : ∀ p ∈ ps, p.marking ≠ .normal) :
    SameButMixed ps qs ↔ (∀ q ∈ qs, q.marking ≠ .normal)
      ∧ valuesMarked .additive qs = valuesMarked .additive ps
      ∧ valuesMarked .subtractive qs = valuesMarked .subtractive ps := by
  have hnone {rs : List Parameter} (h : ∀ p ∈ rs, p.marking ≠ .normal) :
      rs.filter (·.marking = .normal) = [] := by
    simpa using h
  constructor
  · intro hsame
    refine ⟨fun q hq => h q (hsame.mem_iff.2 hq), ?_, ?_⟩
    · rw [valuesMarked, valuesMarked, hsame .additive]
    · rw [valuesMarked, valuesMarked, hsame .subtractive]
  · intro hvalues marking
    obtain ⟨h', hadditive, hsubtractive⟩ := hvalues
    cases marking with
    | normal => rw [hnone h, hnone h']
    | additive => rw [filter_eq_map_valuesMarked, filter_eq_map_valuesMarked, hadditive]
    | subtractive => rw [filter_eq_map_valuesMarked, filter_eq_map_valuesMarked, hsubtractive]

/-! ### Arguments that fit the same command -/

namespace Command

/-- Arguments that are equal fit the same command; this is all there is to show for commands that
forget nothing. -/
theorem fits_of_eq (h : c.Fits a) (hoptions : a.options = a'.options)
    (hparameters : a.parameters = a'.parameters) : c.Fits a' := by
  obtain ⟨ps, os⟩ := a
  obtain ⟨qs, us⟩ := a'
  obtain rfl : os = us := hoptions
  obtain rfl : ps = qs := hparameters
  exact h

/-- A command without arguments is made where there are none. -/
theorem noArguments_iff (h : OnlyOptions a [] ∧ a.parameters = []) :
    OnlyOptions a' [] ∧ a'.parameters = [] ↔
      a.options = a'.options ∧ a.parameters = a'.parameters := by
  rw [onlyOptions_nil_iff_options_eq h.1, h.2]
  exact and_congr_right fun _ => eq_comm

theorem fits_edit_iff_of_fits {n : Nat} {details : Details} {added removed : List String}
    (h : (edit n details added removed).Fits a) :
    (edit n details added removed).Fits a' ↔
      a.options = a'.options ∧ SameBehindIndex SameButMixed a.parameters a'.parameters := by
  obtain ⟨honly, hname, hphone, hemail, text, tags, hps, hindex, hmarked, hadded, hremoved,
    hchange⟩ := h
  constructor
  · intro h'
    obtain ⟨honly', hname', hphone', hemail', text', tags', hqs, hindex', hmarked', hadded',
      hremoved', -⟩ := h'
    refine ⟨options_eq honly honly' ?_, text, text', tags, tags', hps, hqs,
      (sameIndex_iff hindex).2 hindex', ?_⟩
    · simp only [List.mem_cons, List.not_mem_nil, or_false, forall_eq_or_imp, forall_eq]
      exact ⟨hname.trans hname'.symm, hphone.trans hphone'.symm, hemail.trans hemail'.symm⟩
    · rw [sameButMixed_iff hmarked, hadded, hremoved]
      exact ⟨hmarked', hadded', hremoved'⟩
  · intro hsame
    obtain ⟨hoptions, _, text', _, tags', hparameters, hqs, hsameIndex, htags⟩ := hsame
    cases hps.symm.trans hparameters
    obtain ⟨hmarked', hadded', hremoved'⟩ := (sameButMixed_iff hmarked).1 htags
    -- an edit with tags still has some when they are mixed in another way
    have hnil : tags' = [] ↔ tags = [] := by
      simp only [List.eq_nil_iff_forall_not_mem, htags.mem_iff]
    simp only [Fits, OnlyOptions, Arguments.optionNames, Arguments.optionValues?, ← hoptions]
    exact ⟨honly, hname, hphone, hemail, text', tags', hqs, (sameIndex_iff hindex).1 hsameIndex,
      hmarked', hadded'.trans hadded, hremoved'.trans hremoved, by rwa [hnil]⟩

/-- **Arguments that fit the same command.** They have the same options, and the same parameters
but for what the keyword forgets. -/
theorem fits_iff_of_fits (h : c.Fits a) :
    c.Fits a' ↔
      a.options = a'.options ∧ c.keyword.SameParameters a.parameters a'.parameters := by
  cases c with
  | add name phone email tags =>
    refine ⟨fun h' => ?_, fun hsame => fits_of_eq h hsame.1 hsame.2⟩
    obtain ⟨honly, hname, hphone, hemail, htag⟩ := h
    obtain ⟨honly', hname', hphone', hemail', htag'⟩ := h'
    refine ⟨options_eq honly honly' ?_, hname.trans hname'.symm⟩
    simp only [List.mem_cons, List.not_mem_nil, or_false, forall_eq_or_imp, forall_eq]
    exact ⟨hphone.trans hphone'.symm, hemail.trans hemail'.symm, htag.trans htag'.symm⟩
  | clear | exit | list => exact noArguments_iff h
  | delete n => exact and_congr (onlyOptions_nil_iff_options_eq h.1) (exists_index_iff h.2)
  | edit n details added removed => exact fits_edit_iff_of_fits h
  | find keywords =>
    refine ⟨fun h' => ?_, fun hsame => fits_of_eq h hsame.1 hsame.2⟩
    exact ⟨(onlyOptions_nil_iff_options_eq h.1).1 h'.1, h.2.2.trans h'.2.2.symm⟩
  | help topic =>
    refine ⟨fun h' => ?_, fun hsame => fits_of_eq h hsame.1 hsame.2⟩
    exact ⟨(onlyOptions_nil_iff_options_eq h.1).1 h'.1, h.2.trans h'.2.symm⟩
  | tag n tags | untag n tags =>
    obtain ⟨hnone, htags, hindex⟩ := h
    show OnlyOptions a' [] ∧ tags ≠ [] ∧ _ ↔ _ ∧ SameBehindIndex _ _ _
    rw [onlyOptions_nil_iff_options_eq hnone, exists_index_iff hindex, and_iff_right htags]

end Command

/-! ### Bare commands that are decoded to the same command -/

/-- A command is made by its keyword, of arguments that fit it. -/
theorem decode_eq_ok_iff_fits {config : Config} {b : BareCommand} :
    (Decoder.mk table config).decode b = .ok c ↔
      (Decoder.mk table config).resolve b = .ok c.keyword.binding ∧ c.Fits b.toArguments := by
  rw [Decoder.decode_eq_ok]
  constructor
  · intro h
    obtain ⟨binding, hselect, hconstruct⟩ := h
    obtain ⟨k, rfl⟩ := exists_of_resolve hselect
    obtain ⟨rfl, hfits⟩ := Keyword.construct_eq_ok.1 hconstruct
    exact ⟨hselect, hfits⟩
  · intro h
    exact ⟨c.keyword.binding, h.1, Keyword.construct_eq_ok.2 ⟨rfl, h.2⟩⟩

/-- **No accepted argument is dropped.** Let a command be made of a bare command. The same command
is made of another one, maybe under other settings, just when the imperative selects its keyword,
the options are the same, and the parameters are the same: all of them and in the same order, but
that `delete`, `edit`, `tag` and `untag` forget how their index was spelled, and `edit` forgets how
the tags that it puts on were mixed with those that it takes off. -/
theorem same_command_iff_same_arguments {config : Config} {b : BareCommand}
    (h : (Decoder.mk table config).decode b = .ok c) (config' : Config) (b' : BareCommand) :
    (Decoder.mk table config').decode b' = .ok c ↔
      (Decoder.mk table config').resolve b' = .ok c.keyword.binding
        ∧ b.options = b'.options ∧ c.keyword.SameParameters b.parameters b'.parameters := by
  rw [decode_eq_ok_iff_fits, Command.fits_iff_of_fits (decode_eq_ok_iff_fits.1 h).2]

/-- A bare command that changes the tags of a contact. -/
def retag (index : String) (tags : List (Marking × String)) : BareCommand :=
  { imperative := "edit"
    parameters := ⟨.normal, index⟩ :: tags.map fun (marking, tag) => ⟨marking, tag⟩
    options := .empty }

/-- An index with a plus sign and zeros is as good as one without, and tags may be taken off before
others are put on; but the tags that are put on keep their order. -/
theorem retag_mixed :
    (Decoder.mk table .default).decode
          (retag "+007" [(.additive, "a"), (.subtractive, "b"), (.additive, "c")])
        = .ok (.edit 7 ⟨none, none, none⟩ ["a", "c"] ["b"])
      ∧ SameBehindIndex SameButMixed
          (retag "+007" [(.additive, "a"), (.subtractive, "b"), (.additive, "c")]).parameters
          (retag "7" [(.subtractive, "b"), (.additive, "a"), (.additive, "c")]).parameters
      ∧ ¬SameBehindIndex SameButMixed
          (retag "+007" [(.additive, "a"), (.subtractive, "b"), (.additive, "c")]).parameters
          (retag "7" [(.subtractive, "b"), (.additive, "c"), (.additive, "a")]).parameters := by
  have hmade : (Decoder.mk table .default).decode
      (retag "+007" [(.additive, "a"), (.subtractive, "b"), (.additive, "c")])
        = .ok (.edit 7 ⟨none, none, none⟩ ["a", "c"] ["b"]) := by rfl
  have hkept := same_command_iff_same_arguments hmade .default
  refine ⟨hmade, ?_, fun hsame => ?_⟩
  · exact ((hkept (retag "7" [(.subtractive, "b"), (.additive, "a"), (.additive, "c")])).1 rfl).2.2
  · have hswapped :=
      (hkept (retag "7" [(.subtractive, "b"), (.additive, "c"), (.additive, "a")])).2
        ⟨rfl, rfl, hsame⟩
    exact absurd hswapped (by decide)

end CommandLine.AddressBook
