import CommandLine.AddressBook.Shape
import CommandLine.Proofs.Outcome
/-!
# CommandLine.Proofs.Shapes

**What each command of the address book is made of.** `AddressBook.Command.Fits` says of a
command and of arguments, in one line for each command, that the arguments are those of the
command. `AddressBook.Keyword.construct_eq_ok` ties it to the keywords: a keyword makes a command of
a bare command just when the command is the keyword's and the arguments fit it.

There is one lemma for each part of a shape, and the commands are put together from these
lemmas in the way in which they are put together from the parts.
-/

namespace CommandLine.AddressBook

variable {b : BareCommand} {command : String}

/-! ### Parts of shapes -/

/-- Only some options are there. -/
def OnlyOptions (a : Arguments) (allowed : List String) : Prop :=
  ∀ name ∈ a.optionNames, name ∈ allowed

/-- The parameters are values without marks. -/
def normals (values : List String) : List Parameter := values.map (⟨.normal, ·⟩)

theorem onlyOptions_eq_ok {allowed : List String} {u : Unit} :
    onlyOptions b command allowed = .ok u ↔ OnlyOptions b.toArguments allowed := by
  unfold onlyOptions OnlyOptions
  split
  · next name hfind =>
    have hnot : name ∉ allowed := by simpa using List.find?_some hfind
    constructor
    · intro h
      cases h
    · intro h
      exact absurd (h name (List.mem_of_find?_eq_some hfind)) hnot
  · next hfind => simpa using hfind

theorem normalValue_eq_ok {p : Parameter} {value : String} :
    normalValue command p = .ok value ↔ p = ⟨.normal, value⟩ := by
  obtain ⟨marking, text⟩ := p
  unfold normalValue
  split
  · next h => simp_all
  · next h => simp_all

/-- All values are taken, in their order. -/
theorem normalValues_eq_ok {values : List String} :
    normalValues b command = .ok values ↔ b.parameters = normals values := by
  unfold normalValues normals
  generalize b.parameters = ps
  induction ps generalizing values with
  | nil =>
    rw [List.mapM_nil, pure_eq_ok]
    cases values <;> simp
  | cons p ps ih =>
    rw [List.mapM_cons]
    simp only [bind_eq_ok, pure_eq_ok, normalValue_eq_ok, ih]
    constructor
    · intro h
      obtain ⟨value, rfl, rest, rfl, rfl⟩ := h
      rfl
    · intro h
      cases values with
      | nil => cases h
      | cons value rest =>
        obtain ⟨rfl, rfl⟩ := List.cons.inj h
        exact ⟨value, rfl, rest, rfl, rfl⟩

theorem theNormalValue_eq_ok {what value : String} :
    theNormalValue b command what = .ok value ↔ b.parameters = normals [value] := by
  unfold theNormalValue
  rw [bind_eq_ok]
  constructor
  · intro h
    obtain ⟨values, hvalues, h⟩ := h
    split at h
    · cases h
      exact normalValues_eq_ok.1 hvalues
    · cases h
  · intro h
    exact ⟨[value], normalValues_eq_ok.2 h, rfl⟩

theorem indexOf_eq_ok {value : String} {n : Nat} :
    indexOf command value = .ok n ↔ index? value = some n := by
  unfold indexOf
  split
  · next h => simp [h]
  · next h => simp [h]

/-- An option that may be given once: not at all, or with just one value. -/
theorem optionalValue_eq_ok {option : String} {value : Option String} :
    optionalValue b command option = .ok value ↔ b.optionValues? option = value.map ([·]) := by
  unfold optionalValue
  split
  · next h => cases value <;> simp [h]
  · next h => cases value <;> simp [h]
  · next h => cases value <;> simp [h]
  · next hone h =>
    rw [h]
    cases value with
    | none => simp
    | some value => simpa using fun hvalues => hone value (by rw [hvalues])

/-- An option that may be given many times: not at all, or with at least one value. -/
theorem allValues_eq_ok {option : String} {values : List String} :
    allValues b command option = .ok values ↔
      b.optionValues? option = if values = [] then none else some values := by
  unfold allValues
  by_cases hnil : values = []
  · subst hnil
    split
    · next h => simp [h]
    · next h => simp [h]
    · next hne h => simpa [h] using hne
  · rw [if_neg hnil]
    split
    · next h => simpa [h] using Ne.symm hnil
    · next h => simpa [h] using Ne.symm hnil
    · next h => simp [h]

theorem noArguments_eq_ok {u : Unit} :
    noArguments b command = .ok u ↔ OnlyOptions b.toArguments [] ∧ b.parameters = [] := by
  unfold noArguments
  simp only [bind_eq_ok, onlyOptions_eq_ok]
  by_cases h : b.parameters = []
  · simp [h]
  · simp [h]

theorem allMarked_eq_ok {ps : List Parameter} {u : Unit} :
    allMarked command ps = .ok u ↔ ∀ p ∈ ps, p.marking ≠ .normal := by
  unfold allMarked
  split
  · next p hfind =>
    have hnormal : p.marking = .normal := by simpa using List.find?_some hfind
    constructor
    · intro h
      cases h
    · intro h
      exact absurd hnormal (h p (List.mem_of_find?_eq_some hfind))
  · next hfind => simpa using hfind

theorem indexAndTags_eq_ok {n : Nat} {tags : List String} :
    indexAndTags b command = .ok (n, tags) ↔
      OnlyOptions b.toArguments [] ∧ tags ≠ []
        ∧ ∃ first, b.parameters = normals (first :: tags) ∧ index? first = some n := by
  unfold indexAndTags
  simp only [bind_eq_ok, onlyOptions_eq_ok, normalValues_eq_ok]
  constructor
  · intro h
    obtain ⟨-, hoptions, values, hparameters, h⟩ := h
    split at h
    · cases h
    · next first rest =>
      obtain ⟨index, hindex, h⟩ := bind_eq_ok.1 h
      split at h
      · cases h
      · next hne =>
        cases h
        exact ⟨hoptions, hne, first, hparameters, indexOf_eq_ok.1 hindex⟩
  · intro h
    obtain ⟨hoptions, hne, first, hparameters, hindex⟩ := h
    refine ⟨(), hoptions, first :: tags, hparameters, bind_eq_ok.2 ⟨n, indexOf_eq_ok.2 hindex, ?_⟩⟩
    rw [if_neg hne]

/-! ### The commands and their arguments -/

/-- The arguments are those of the command. -/
def Command.Fits : Command → Arguments → Prop
  | add name phone email tags, a =>
    OnlyOptions a ["phone", "email", "tag"] ∧ a.parameters = normals [name]
      ∧ a.optionValues? "phone" = phone.map ([·]) ∧ a.optionValues? "email" = email.map ([·])
      ∧ a.optionValues? "tag" = if tags = [] then none else some tags
  | clear, a | exit, a | list, a => OnlyOptions a [] ∧ a.parameters = []
  | delete n, a =>
    OnlyOptions a [] ∧ ∃ first, a.parameters = normals [first] ∧ index? first = some n
  | edit n details added removed, a =>
    OnlyOptions a ["name", "phone", "email"]
      ∧ a.optionValues? "name" = details.name.map ([·])
      ∧ a.optionValues? "phone" = details.phone.map ([·])
      ∧ a.optionValues? "email" = details.email.map ([·])
      ∧ ∃ first tags, a.parameters = ⟨.normal, first⟩ :: tags ∧ index? first = some n
        ∧ (∀ p ∈ tags, p.marking ≠ .normal) ∧ valuesMarked .additive tags = added
        ∧ valuesMarked .subtractive tags = removed ∧ ¬(details.isEmpty ∧ tags = [])
  | find keywords, a => OnlyOptions a [] ∧ keywords ≠ [] ∧ a.parameters = normals keywords
  | help topic, a => OnlyOptions a [] ∧ a.parameters = normals topic.toList
  | tag n tags, a | untag n tags, a =>
    OnlyOptions a [] ∧ tags ≠ []
      ∧ ∃ first, a.parameters = normals (first :: tags) ∧ index? first = some n

variable {c : Command}

theorem makeAdd_eq_ok : makeAdd b = .ok c ↔ c.keyword = .add ∧ c.Fits b.toArguments := by
  unfold makeAdd
  simp only [bind_eq_ok, pure_eq_ok, onlyOptions_eq_ok, theNormalValue_eq_ok,
    optionalValue_eq_ok, allValues_eq_ok]
  constructor
  · intro h
    obtain ⟨-, hoptions, name, hname, phone, hphone, email, hemail, tags, htags, rfl⟩ := h
    exact ⟨rfl, hoptions, hname, hphone, hemail, htags⟩
  · intro h
    obtain ⟨hkeyword, hfits⟩ := h
    cases c <;> cases hkeyword
    next name phone email tags =>
      obtain ⟨hoptions, hname, hphone, hemail, htags⟩ := hfits
      exact ⟨(), hoptions, name, hname, phone, hphone, email, hemail, tags, htags, rfl⟩

theorem makeDelete_eq_ok : makeDelete b = .ok c ↔ c.keyword = .delete ∧ c.Fits b.toArguments := by
  unfold makeDelete
  simp only [bind_eq_ok, pure_eq_ok, onlyOptions_eq_ok, theNormalValue_eq_ok, indexOf_eq_ok]
  constructor
  · intro h
    obtain ⟨-, hoptions, first, hfirst, n, hindex, rfl⟩ := h
    exact ⟨rfl, hoptions, first, hfirst, hindex⟩
  · intro h
    obtain ⟨hkeyword, hfits⟩ := h
    cases c <;> cases hkeyword
    next n =>
      obtain ⟨hoptions, first, hfirst, hindex⟩ := hfits
      exact ⟨(), hoptions, first, hfirst, n, hindex, rfl⟩

theorem makeFind_eq_ok : makeFind b = .ok c ↔ c.keyword = .find ∧ c.Fits b.toArguments := by
  unfold makeFind
  simp only [bind_eq_ok, onlyOptions_eq_ok, normalValues_eq_ok]
  constructor
  · intro h
    obtain ⟨-, hoptions, keywords, hkeywords, h⟩ := h
    split at h
    · cases h
    · next hne =>
      cases h
      exact ⟨rfl, hoptions, hne, hkeywords⟩
  · intro h
    obtain ⟨hkeyword, hfits⟩ := h
    cases c <;> cases hkeyword
    next keywords =>
      obtain ⟨hoptions, hne, hkeywords⟩ := hfits
      exact ⟨(), hoptions, keywords, hkeywords, if_neg hne⟩

theorem makeHelp_eq_ok : makeHelp b = .ok c ↔ c.keyword = .help ∧ c.Fits b.toArguments := by
  unfold makeHelp
  simp only [bind_eq_ok, onlyOptions_eq_ok, normalValues_eq_ok]
  constructor
  · intro h
    obtain ⟨-, hoptions, values, hvalues, h⟩ := h
    split at h
    · cases h
      exact ⟨rfl, hoptions, hvalues⟩
    · cases h
      exact ⟨rfl, hoptions, hvalues⟩
    · cases h
  · intro h
    obtain ⟨hkeyword, hfits⟩ := h
    cases c <;> cases hkeyword
    next topic =>
      obtain ⟨hoptions, htopic⟩ := hfits
      refine ⟨(), hoptions, topic.toList, htopic, ?_⟩
      cases topic <;> rfl

theorem makeEdit_eq_ok : makeEdit b = .ok c ↔ c.keyword = .edit ∧ c.Fits b.toArguments := by
  unfold makeEdit
  simp only [bind_eq_ok, onlyOptions_eq_ok]
  constructor
  · intro h
    obtain ⟨-, hoptions, h⟩ := h
    split at h
    · cases h
    · next p tags hparameters =>
      split at h
      · cases h
      · next hnormal =>
        -- the first parameter is known to be without mark now
        obtain ⟨marking, first⟩ := p
        obtain rfl : marking = .normal := Decidable.of_not_not hnormal
        simp only [bind_eq_ok, indexOf_eq_ok, allMarked_eq_ok, optionalValue_eq_ok] at h
        obtain ⟨n, hindex, -, hmarked, name, hname, phone, hphone, email, hemail, h⟩ := h
        split at h
        · cases h
        · next hchange =>
          cases h
          exact ⟨rfl, hoptions, hname, hphone, hemail, first, tags, hparameters, hindex, hmarked,
            rfl, rfl, hchange⟩
  · intro h
    obtain ⟨hkeyword, hfits⟩ := h
    cases c <;> cases hkeyword
    next n details added removed =>
      obtain ⟨hoptions, hname, hphone, hemail, first, tags, hparameters, hindex, hmarked, rfl, rfl,
        hchange⟩ := hfits
      refine ⟨(), hoptions, ?_⟩
      rw [hparameters]
      dsimp only
      rw [if_neg (fun hne => hne rfl)]
      simp only [bind_eq_ok, indexOf_eq_ok, allMarked_eq_ok, optionalValue_eq_ok]
      refine ⟨n, hindex, (), hmarked, details.name, hname, details.phone, hphone, details.email,
        hemail, ?_⟩
      rw [if_neg hchange]
      rfl

/-- The one command of a keyword without arguments is made when there are none. -/
theorem noArguments_bind_eq_ok {k : Keyword} {made : Command}
    (honly : ∀ c : Command, c.keyword = k ↔ c = made)
    (hfits : made.Fits b.toArguments ↔ OnlyOptions b.toArguments [] ∧ b.parameters = []) :
    (do noArguments b command; return made) = .ok c ↔ c.keyword = k ∧ c.Fits b.toArguments := by
  simp only [bind_eq_ok, pure_eq_ok, noArguments_eq_ok, honly]
  constructor
  · intro h
    obtain ⟨-, harguments, rfl⟩ := h
    exact ⟨rfl, hfits.2 harguments⟩
  · intro h
    obtain ⟨rfl, harguments⟩ := h
    exact ⟨(), hfits.1 harguments, rfl⟩

/-- A keyword whose commands have an index and tags makes them of these. -/
theorem indexAndTags_bind_eq_ok {k : Keyword} {f : Nat → List String → Command}
    (honly : ∀ c : Command, c.keyword = k ↔ ∃ n tags, f n tags = c)
    (hfits : ∀ n tags, (f n tags).Fits b.toArguments ↔ OnlyOptions b.toArguments [] ∧ tags ≠ []
      ∧ ∃ first, b.parameters = normals (first :: tags) ∧ index? first = some n) :
    (do let (n, tags) ← indexAndTags b command; return f n tags) = .ok c ↔
      c.keyword = k ∧ c.Fits b.toArguments := by
  simp only [bind_eq_ok, pure_eq_ok, Prod.exists, indexAndTags_eq_ok, honly]
  constructor
  · intro h
    obtain ⟨n, tags, harguments, rfl⟩ := h
    exact ⟨⟨n, tags, rfl⟩, (hfits n tags).2 harguments⟩
  · intro h
    obtain ⟨⟨n, tags, rfl⟩, harguments⟩ := h
    exact ⟨n, tags, (hfits n tags).1 harguments, rfl⟩

/-- **A keyword makes the commands that fit.** Of a bare command it makes a command just when
the command is its own and the arguments are those of the command. -/
theorem Keyword.construct_eq_ok {k : Keyword} :
    k.construct b = .ok c ↔ c.keyword = k ∧ c.Fits b.toArguments := by
  cases k with
  | add => exact makeAdd_eq_ok
  | clear =>
    exact noArguments_bind_eq_ok (fun c => by cases c <;> simp [Command.keyword]) Iff.rfl
  | delete => exact makeDelete_eq_ok
  | edit => exact makeEdit_eq_ok
  | exit =>
    exact noArguments_bind_eq_ok (fun c => by cases c <;> simp [Command.keyword]) Iff.rfl
  | find => exact makeFind_eq_ok
  | help => exact makeHelp_eq_ok
  | list =>
    exact noArguments_bind_eq_ok (fun c => by cases c <;> simp [Command.keyword]) Iff.rfl
  | tag =>
    exact indexAndTags_bind_eq_ok (f := .tag) (fun c => by cases c <;> simp [Command.keyword])
      fun _ _ => Iff.rfl
  | untag =>
    exact indexAndTags_bind_eq_ok (f := .untag) (fun c => by cases c <;> simp [Command.keyword])
      fun _ _ => Iff.rfl

end CommandLine.AddressBook
