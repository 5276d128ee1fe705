import CommandLine.Proofs.DecimalIndex
import CommandLine.Proofs.Shapes
import CommandLine.Proofs.SortedMap
/-!
# CommandLine.Proofs.Acceptance

**What a keyword accepts and what it reports.** `Keyword.Accepts` says of arguments alone that
they have the shape of a keyword's command, whatever is made of them. `Command.Reports` says of
a command alone that its fields are what the arguments hold, whatever their shape. The two
together are what `Command.Fits` says (`Command.fits_iff`), and there is something to report
for all accepted arguments (`Keyword.exists_reports`). So a keyword makes a command just of what
it accepts, and reports it (`Keyword.construct_shape_and_content`).
-/

namespace CommandLine.AddressBook

variable {a : Arguments} {c : Command} {option : String}

/-! ### Shapes of arguments -/

/-- No parameter has a mark. -/
def AllNormal (ps : List Parameter) : Prop := ∀ p ∈ ps, p.marking = .normal

/-- The values of the parameters, in their order. -/
def values (ps : List Parameter) : List String := ps.map (·.value)

/-- A text is an index. -/
def IsIndexText (text : String) : Prop := ∃ n, Denotes text n

/-- An option is not there, or there with just one value. -/
def AtMostOnce (a : Arguments) (option : String) : Prop :=
  a.optionValues? option = none ∨ ∃ value, a.optionValues? option = some [value]

/-- The arguments have the shape of the keyword's command. -/
def Keyword.Accepts : Keyword → Arguments → Prop
  | add, a =>
    OnlyOptions a ["phone", "email", "tag"]
      ∧ AllNormal a.parameters ∧ (∃ name, values a.parameters = [name])
      ∧ AtMostOnce a "phone" ∧ AtMostOnce a "email" ∧ a.optionValues? "tag" ≠ some []
  | clear, a | exit, a | list, a => a.optionNames = [] ∧ a.parameters = []
  | delete, a =>
    a.optionNames = [] ∧ AllNormal a.parameters
      ∧ ∃ text, values a.parameters = [text] ∧ IsIndexText text
  | edit, a =>
    OnlyOptions a ["name", "phone", "email"]
      ∧ AtMostOnce a "name" ∧ AtMostOnce a "phone" ∧ AtMostOnce a "email"
      ∧ ∃ first later, a.parameters = first :: later
        ∧ first.marking = .normal ∧ IsIndexText first.value
        ∧ (∀ p ∈ later, p.marking ≠ .normal) ∧ (later ≠ [] ∨ a.optionNames ≠ [])
  | find, a => a.optionNames = [] ∧ AllNormal a.parameters ∧ a.parameters ≠ []
  | help, a => a.optionNames = [] ∧ AllNormal a.parameters ∧ a.parameters.length ≤ 1
  | tag, a | untag, a =>
    a.optionNames = [] ∧ AllNormal a.parameters
      ∧ ∃ text tags, values a.parameters = text :: tags ∧ IsIndexText text ∧ tags ≠ []

/-! ### Content of commands -/

/-- The fields of the command are what the arguments hold, in the order of the arguments. -/
def Command.Reports : Command → Arguments → Prop
  | add name phone email tags, a =>
    values a.parameters = [name]
      ∧ phone = a.firstValue? "phone" ∧ email = a.firstValue? "email"
      ∧ tags = (a.optionValues? "tag").getD []
  | clear, _ | exit, _ | list, _ => True
  | delete n, a => ∃ text, values a.parameters = [text] ∧ Denotes text n
  | edit n details added removed, a =>
    (∃ text later, values a.parameters = text :: later ∧ Denotes text n)
      ∧ details = ⟨a.firstValue? "name", a.firstValue? "phone", a.firstValue? "email"⟩
      ∧ added = valuesMarked .additive a.parameters
      ∧ removed = valuesMarked .subtractive a.parameters
  | find keywords, a => keywords = values a.parameters
  | help topic, a => topic.toList = values a.parameters
  | tag n tags, a | untag n tags, a =>
    ∃ text, values a.parameters = text :: tags ∧ Denotes text n

/-! ### Parts of a command as shape and content -/

theorem onlyOptions_nil : OnlyOptions a [] ↔ a.optionNames = [] := by
  rw [List.eq_nil_iff_forall_not_mem]
  simp only [OnlyOptions, List.not_mem_nil]

theorem values_normals (texts : List String) : values (normals texts) = texts := by
  rw [values, normals, List.map_map]
  exact List.map_id'' (fun _ => rfl) texts

theorem normals_values {ps : List Parameter} (h : AllNormal ps) : normals (values ps) = ps := by
  rw [values, normals, List.map_map]
  refine (List.map_congr_left fun p hp => ?_).trans (List.map_id ps)
  show (⟨.normal, p.value⟩ : Parameter) = p
  rw [← h p hp]

/-- Parameters without marks, and the values that are reported for them. -/
theorem eq_normals_iff {ps : List Parameter} {texts : List String} :
    ps = normals texts ↔ AllNormal ps ∧ values ps = texts := by
  constructor
  · rintro rfl
    exact ⟨by simp [AllNormal, normals], values_normals texts⟩
  · intro h
    obtain ⟨hnormal, rfl⟩ := h
    exact (normals_values hnormal).symm

/-- An option that may be given once, and the value that is reported for it. -/
theorem optionValues?_eq_map {value : Option String} :
    a.optionValues? option = value.map ([·]) ↔
      AtMostOnce a option ∧ value = a.firstValue? option := by
  unfold AtMostOnce Arguments.firstValue?
  constructor
  · intro h
    cases value with
    | none => exact ⟨.inl h, by rw [h]; rfl⟩
    | some value => exact ⟨.inr ⟨value, h⟩, by rw [h]; rfl⟩
  · intro h
    obtain ⟨hnone | ⟨only, hone⟩, rfl⟩ := h
    · rw [hnone]
      rfl
    · rw [hone]
      rfl

/-- An option that may be given many times, and the values that are reported for it. -/
theorem optionValues?_eq_ite {texts : List String} :
    (a.optionValues? option = if texts = [] then none else some texts) ↔
      a.optionValues? option ≠ some [] ∧ texts = (a.optionValues? option).getD [] := by
  cases a.optionValues? option with
  | none => cases texts <;> simp
  | some given => cases given <;> cases texts <;> simp [eq_comm]

/-- An option that may be given once is there just when a value is reported for it. -/
theorem firstValue?_eq_none (h : AtMostOnce a option) :
    a.firstValue? option = none ↔ option ∉ a.optionNames := by
  have hmem : option ∈ a.optionNames ↔ (a.optionValues? option).isSome := SortedMap.mem_keys_iff
  rw [hmem, Arguments.firstValue?]
  rcases h with hnone | ⟨value, hone⟩
  · simp [hnone]
  · simp [hone]

/-- An edit has no field just when it has no option. -/
theorem isEmpty_details (hoptions : OnlyOptions a ["name", "phone", "email"])
    (hname : AtMostOnce a "name") (hphone : AtMostOnce a "phone") (hemail : AtMostOnce a "email") :
    (⟨a.firstValue? "name", a.firstValue? "phone", a.firstValue? "email"⟩ : Details).isEmpty
      ↔ a.optionNames = [] := by
  simp only [Details.isEmpty, Bool.and_eq_true, Option.isNone_iff_eq_none,
    firstValue?_eq_none hname, firstValue?_eq_none hphone, firstValue?_eq_none hemail]
  constructor
  · intro h
    obtain ⟨⟨hnoName, hnoPhone⟩, hnoEmail⟩ := h
    refine List.eq_nil_iff_forall_not_mem.2 fun option hoption => ?_
    have hallowed := hoptions option hoption
    simp only [List.mem_cons, List.not_mem_nil, or_false] at hallowed
    rcases hallowed with rfl | rfl | rfl
    · exact hnoName hoption
    · exact hnoPhone hoption
    · exact hnoEmail hoption
  · intro hnone
    simp [hnone]

/-- A parameter without mark is not among the marked ones. -/
theorem valuesMarked_cons_normal {marking : Marking} (h : marking ≠ .normal) {first : Parameter}
    (hfirst : first.marking = .normal) (later : List Parameter) :
    valuesMarked marking (first :: later) = valuesMarked marking later := by
  rw [valuesMarked, List.filter_cons_of_neg (by simpa [hfirst] using h.symm), valuesMarked]

namespace Command

/-- An index and tags, as shape and content. -/
theorem indexAndTags_iff {n : Nat} {tags : List String} :
    (OnlyOptions a [] ∧ tags ≠ []
        ∧ ∃ first, a.parameters = normals (first :: tags) ∧ index? first = some n)
      ↔ Keyword.tag.Accepts a ∧ (Command.tag n tags).Reports a := by
  simp only [Keyword.Accepts, Reports, onlyOptions_nil, eq_normals_iff, index?_eq_some_iff_denotes]
  constructor
  · intro h
    obtain ⟨hnone, htags, text, ⟨hnormal, hvalues⟩, hindex⟩ := h
    exact ⟨⟨hnone, hnormal, text, tags, hvalues, ⟨n, hindex⟩, htags⟩, text, hvalues, hindex⟩
  · intro h
    obtain ⟨⟨hnone, hnormal, text, tags', hvalues, -, htags⟩, text', hvalues', hindex⟩ := h
    obtain ⟨rfl, rfl⟩ := List.cons.inj (hvalues.symm.trans hvalues')
    exact ⟨hnone, htags, text, ⟨hnormal, hvalues⟩, hindex⟩

theorem fits_edit_iff {n : Nat} {details : Details} {added removed : List String} :
    (edit n details added removed).Fits a ↔
      Keyword.edit.Accepts a ∧ (edit n details added removed).Reports a := by
  obtain ⟨name, phone, email⟩ := details
  simp only [Fits, Keyword.Accepts, Reports, optionValues?_eq_map, index?_eq_some_iff_denotes]
  constructor
  · intro h
    obtain ⟨hoptions, ⟨hname, rfl⟩, ⟨hphone, rfl⟩, ⟨hemail, rfl⟩, text, later, hparameters, hindex,
      hmarked, rfl, rfl, hchange⟩ := h
    rw [isEmpty_details hoptions hname hphone hemail, and_comm, not_and_or] at hchange
    refine ⟨⟨hoptions, hname, hphone, hemail, _, later, hparameters, rfl, ⟨n, hindex⟩, hmarked,
      hchange⟩, ⟨text, values later, by rw [hparameters]; rfl, hindex⟩, rfl, ?_, ?_⟩
    · rw [hparameters, valuesMarked_cons_normal (by decide) rfl]
    · rw [hparameters, valuesMarked_cons_normal (by decide) rfl]
  · intro h
    obtain ⟨⟨hoptions, hname, hphone, hemail, ⟨_, text⟩, later, hparameters, rfl, -, hmarked,
      hchange⟩, ⟨text', later', hvalues, hindex⟩, hdetails, rfl, rfl⟩ := h
    cases hdetails
    -- the index that is reported is the text of the first parameter
    rw [hparameters] at hvalues
    obtain ⟨rfl, -⟩ := List.cons.inj hvalues
    refine ⟨hoptions, ⟨hname, rfl⟩, ⟨hphone, rfl⟩, ⟨hemail, rfl⟩, text, later, hparameters, hindex,
      hmarked, ?_, ?_, ?_⟩
    · rw [hparameters, valuesMarked_cons_normal (by decide) rfl]
    · rw [hparameters, valuesMarked_cons_normal (by decide) rfl]
    · rwa [isEmpty_details hoptions hname hphone hemail, and_comm, not_and_or]

/-- **Shape and content.** Arguments are those of a command just when they have the shape of
its keyword and the command reports what they hold. -/
theorem fits_iff : c.Fits a ↔ c.keyword.Accepts a ∧ c.Reports a := by
  cases c with
  | add name phone email tags =>
    simp only [Fits, keyword, Keyword.Accepts, Reports, eq_normals_iff, optionValues?_eq_map,
      optionValues?_eq_ite]
    constructor
    · intro h
      obtain ⟨hoptions, ⟨hnormal, hvalues⟩, ⟨hphone, rfl⟩, ⟨hemail, rfl⟩, htag, rfl⟩ := h
      exact ⟨⟨hoptions, hnormal, ⟨name, hvalues⟩, hphone, hemail, htag⟩, hvalues, rfl, rfl, rfl⟩
    · intro h
      obtain ⟨⟨hoptions, hnormal, -, hphone, hemail, htag⟩, hvalues, rfl, rfl, rfl⟩ := h
      exact ⟨hoptions, ⟨hnormal, hvalues⟩, ⟨hphone, rfl⟩, ⟨hemail, rfl⟩, htag, rfl⟩
  | clear | exit | list =>
    simp only [Fits, keyword, Keyword.Accepts, Reports, onlyOptions_nil, and_true]
  | delete n =>
    simp only [Fits, keyword, Keyword.Accepts, Reports, onlyOptions_nil, eq_normals_iff,
      index?_eq_some_iff_denotes]
    constructor
    · intro h
      obtain ⟨hnone, text, ⟨hnormal, hvalues⟩, hindex⟩ := h
      exact ⟨⟨hnone, hnormal, text, hvalues, n, hindex⟩, text, hvalues, hindex⟩
    · intro h
      obtain ⟨⟨hnone, hnormal, -⟩, text, hvalues, hindex⟩ := h
      exact ⟨hnone, text, ⟨hnormal, hvalues⟩, hindex⟩
  | edit n details added removed => exact fits_edit_iff
  | find keywords =>
    simp only [Fits, keyword, Keyword.Accepts, Reports, onlyOptions_nil, eq_normals_iff]
    constructor
    · intro h
      obtain ⟨hnone, hne, hnormal, rfl⟩ := h
      exact ⟨⟨hnone, hnormal, fun hnil => hne (by rw [hnil]; rfl)⟩, rfl⟩
    · intro h
      obtain ⟨⟨hnone, hnormal, hne⟩, rfl⟩ := h
      exact ⟨hnone, fun hnil => hne (List.map_eq_nil_iff.1 hnil), hnormal, rfl⟩
  | help topic =>
    simp only [Fits, keyword, Keyword.Accepts, Reports, onlyOptions_nil, eq_normals_iff]
    constructor
    · intro h
      obtain ⟨hnone, hnormal, hvalues⟩ := h
      have hlength : a.parameters.length = topic.toList.length := by
        rw [← hvalues, values, List.length_map]
      refine ⟨⟨hnone, hnormal, ?_⟩, hvalues.symm⟩
      rw [hlength]
      cases topic <;> simp
    · intro h
      obtain ⟨⟨hnone, hnormal, -⟩, hvalues⟩ := h
      exact ⟨hnone, hnormal, hvalues.symm⟩
  | tag n tags => exact indexAndTags_iff
  | untag n tags => exact indexAndTags_iff

end Command

namespace Keyword

variable {k : Keyword}

/-- Whatever is accepted can be reported. -/
theorem exists_reports (h : k.Accepts a) : ∃ c : Command, c.keyword = k ∧ c.Reports a := by
  cases k with
  | add =>
    obtain ⟨-, -, ⟨name, hname⟩, -⟩ := h
    exact ⟨.add name _ _ _, rfl, hname, rfl, rfl, rfl⟩
  | clear => exact ⟨.clear, rfl, trivial⟩
  | delete =>
    obtain ⟨-, -, text, hvalues, n, hindex⟩ := h
    exact ⟨.delete n, rfl, text, hvalues, hindex⟩
  | edit =>
    obtain ⟨-, -, -, -, first, later, hparameters, -, ⟨n, hindex⟩, -⟩ := h
    exact ⟨.edit n _ _ _, rfl, ⟨first.value, values later, by rw [hparameters]; rfl, hindex⟩, rfl,
      rfl, rfl⟩
  | exit => exact ⟨.exit, rfl, trivial⟩
  | find => exact ⟨.find (values a.parameters), rfl, rfl⟩
  | help =>
    obtain ⟨-, -, hlength⟩ := h
    refine ⟨.help (values a.parameters).head?, rfl, ?_⟩
    show (values a.parameters).head?.toList = values a.parameters
    unfold values
    match a.parameters, hlength with
    | [], _ => rfl
    | [_], _ => rfl
  | list => exact ⟨.list, rfl, trivial⟩
  | tag =>
    obtain ⟨-, -, text, tags, hvalues, ⟨n, hindex⟩, -⟩ := h
    exact ⟨.tag n tags, rfl, text, hvalues, hindex⟩
  | untag =>
    obtain ⟨-, -, text, tags, hvalues, ⟨n, hindex⟩, -⟩ := h
    exact ⟨.untag n tags, rfl, text, hvalues, hindex⟩

/-- **A keyword makes commands just of what it accepts, and reports it.** It makes some command
of a bare command just when the arguments have its shape, and then makes the command of its own
that reports what the arguments hold. -/
theorem construct_shape_and_content (k : Keyword) (b : BareCommand) :
    ((∃ c, k.construct b = .ok c) ↔ k.Accepts b.toArguments)
      ∧ ∀ c, k.construct b = .ok c ↔
        k.Accepts b.toArguments ∧ c.keyword = k ∧ c.Reports b.toArguments := by
  have hmade (c : Command) : k.construct b = .ok c ↔
      k.Accepts b.toArguments ∧ c.keyword = k ∧ c.Reports b.toArguments := by
    rw [construct_eq_ok, Command.fits_iff]
    constructor
    · intro h
      obtain ⟨rfl, haccepts, hreports⟩ := h
      exact ⟨haccepts, rfl, hreports⟩
    · intro h
      obtain ⟨haccepts, rfl, hreports⟩ := h
      exact ⟨rfl, haccepts, hreports⟩
  refine ⟨⟨?_, ?_⟩, hmade⟩
  · intro h
    obtain ⟨c, hc⟩ := h
    exact ((hmade c).1 hc).1
  · intro haccepts
    obtain ⟨c, hkeyword, hreports⟩ := exists_reports haccepts
    exact ⟨c, (hmade c).2 ⟨haccepts, hkeyword, hreports⟩⟩

end Keyword

end CommandLine.AddressBook
