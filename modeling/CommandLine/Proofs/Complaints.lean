import CommandLine.AddressBook.Shape
import CommandLine.Proofs.Outcome
/-!
# CommandLine.Proofs.Complaints

**What a command is made of, and whom a complaint is about.** A command is made of a whole bare
command, with the imperative as it was typed, and what several commands check in the same way is
told which command it is for. Two things can go wrong with this, and neither does.

* The imperative could have a part in what is made. It has none: bare commands with the same
  arguments are the same to every check, and so to every keyword
  (`AddressBook.Keyword.construct_congr`).
* A complaint could be about another command than the one that is made. `Reproves` says that a
  check complains about one command only. It goes from the checks over to their sequences, and
  each keyword complains about itself (`AddressBook.Keyword.reproves_construct`).
-/

namespace CommandLine.AddressBook

variable {b b' : BareCommand} {command : String}

/-! ### The same for the same arguments -/

section Congruence

variable (h : b.toArguments = b'.toArguments)
include h

theorem onlyOptions_congr (allowed : List String) :
    onlyOptions b command allowed = onlyOptions b' command allowed := by
  rw [onlyOptions, onlyOptions, h]

theorem normalValues_congr : normalValues b command = normalValues b' command := by
  rw [normalValues, normalValues, h]

theorem theNormalValue_congr (what : String) :
    theNormalValue b command what = theNormalValue b' command what := by
  rw [theNormalValue, theNormalValue, normalValues_congr h]

theorem optionalValue_congr (option : String) :
    optionalValue b command option = optionalValue b' command option := by
  rw [optionalValue, optionalValue, h]

theorem allValues_congr (option : String) :
    allValues b command option = allValues b' command option := by
  rw [allValues, allValues, h]

theorem noArguments_congr : noArguments b command = noArguments b' command := by
  rw [noArguments, noArguments, onlyOptions_congr h, h]

theorem indexAndTags_congr : indexAndTags b command = indexAndTags b' command := by
  rw [indexAndTags, indexAndTags, onlyOptions_congr h, normalValues_congr h]

/-- The imperative has no part in what a keyword makes. -/
theorem Keyword.construct_congr (k : Keyword) : k.construct b = k.construct b' := by
  cases k with
  | add =>
    show makeAdd b = makeAdd b'
    simp only [makeAdd, onlyOptions_congr h, theNormalValue_congr h, optionalValue_congr h,
      allValues_congr h]
  | clear =>
    show makeClear b = makeClear b'
    rw [makeClear, makeClear, noArguments_congr h]
  | delete =>
    show makeDelete b = makeDelete b'
    rw [makeDelete, makeDelete, onlyOptions_congr h, theNormalValue_congr h]
  | edit =>
    show makeEdit b = makeEdit b'
    simp only [makeEdit, onlyOptions_congr h, optionalValue_congr h, h]
  | exit =>
    show makeExit b = makeExit b'
    rw [makeExit, makeExit, noArguments_congr h]
  | find =>
    show makeFind b = makeFind b'
    rw [makeFind, makeFind, onlyOptions_congr h, normalValues_congr h]
  | help =>
    show makeHelp b = makeHelp b'
    rw [makeHelp, makeHelp, onlyOptions_congr h, normalValues_congr h]
  | list =>
    show makeList b = makeList b'
    rw [makeList, makeList, noArguments_congr h]
  | tag =>
    show makeTag b = makeTag b'
    rw [makeTag, makeTag, indexAndTags_congr h]
  | untag =>
    show makeUntag b = makeUntag b'
    rw [makeUntag, makeUntag, indexAndTags_congr h]

end Congruence

/-! ### Whom complaints are about -/

/-- Whatever a check complains of, the complaint is about this command. -/
def Reproves {α : Type} (command : String) (check : Except ValidationError α) : Prop :=
  ∀ e, check = .error e → e.command = command

namespace Reproves

variable {α β : Type}

theorem ok (a : α) : Reproves command (.ok a) := by
  intro e h
  cases h

theorem complaint (fault : ShapeFault) :
    Reproves command (.error (complaint command fault) : Except ValidationError α) := by
  intro e h
  cases h
  rfl

theorem bind {check : Except ValidationError α} {next : α → Except ValidationError β}
    (h : Reproves command check) (hnext : ∀ a, Reproves command (next a)) :
    Reproves command (check >>= next) := by
  intro e herror
  rcases bind_eq_error.1 herror with herror | ⟨a, -, herror⟩
  · exact h e herror
  · exact hnext a e herror

/-- The same check of each item in turn. -/
theorem mapM {check : α → Except ValidationError β} (h : ∀ a, Reproves command (check a))
    (as : List α) : Reproves command (as.mapM check) := by
  induction as with
  | nil =>
    rw [List.mapM_nil]
    exact ok []
  | cons a as ih =>
    rw [List.mapM_cons]
    exact (h a).bind fun b => ih.bind fun bs => ok (b :: bs)

end Reproves

theorem reproves_onlyOptions (b : BareCommand) (allowed : List String) :
    Reproves command (onlyOptions b command allowed) := by
  unfold onlyOptions
  split
  · exact .complaint _
  · exact .ok ()

theorem reproves_normalValue (p : Parameter) : Reproves command (normalValue command p) := by
  unfold normalValue
  split
  · exact .ok p.value
  · exact .complaint _

theorem reproves_normalValues (b : BareCommand) : Reproves command (normalValues b command) :=
  .mapM reproves_normalValue b.parameters

theorem reproves_theNormalValue (b : BareCommand) (what : String) :
    Reproves command (theNormalValue b command what) := by
  refine (reproves_normalValues b).bind fun values => ?_
  split
  · exact .ok _
  · exact .complaint _

theorem reproves_indexOf (value : String) : Reproves command (indexOf command value) := by
  unfold indexOf
  split
  · exact .ok _
  · exact .complaint _

theorem reproves_optionalValue (b : BareCommand) (option : String) :
    Reproves command (optionalValue b command option) := by
  unfold optionalValue
  split
  · exact .ok none
  · exact .complaint _
  · exact .ok _
  · exact .complaint _

theorem reproves_allValues (b : BareCommand) (option : String) :
    Reproves command (allValues b command option) := by
  unfold allValues
  split
  · exact .ok []
  · exact .complaint _
  · exact .ok _

theorem reproves_noArguments (b : BareCommand) : Reproves command (noArguments b command) := by
  refine (reproves_onlyOptions b []).bind fun _ => ?_
  split
  · exact .ok ()
  · exact .complaint _

theorem reproves_allMarked (ps : List Parameter) : Reproves command (allMarked command ps) := by
  unfold allMarked
  split
  · exact .complaint _
  · exact .ok ()

theorem reproves_indexAndTags (b : BareCommand) : Reproves command (indexAndTags b command) := by
  refine (reproves_onlyOptions b []).bind fun _ => (reproves_normalValues b).bind fun values => ?_
  split
  · exact .complaint _
  · refine (reproves_indexOf _).bind fun index => ?_
    split
    · exact .complaint _
    · exact .ok _

theorem reproves_makeAdd (b : BareCommand) : Reproves Keyword.add.name (makeAdd b) :=
  (reproves_onlyOptions b _).bind fun _ => (reproves_theNormalValue b _).bind fun _ =>
    (reproves_optionalValue b _).bind fun _ => (reproves_optionalValue b _).bind fun _ =>
      (reproves_allValues b _).bind fun _ => .ok _

theorem reproves_makeDelete (b : BareCommand) : Reproves Keyword.delete.name (makeDelete b) :=
  (reproves_onlyOptions b _).bind fun _ => (reproves_theNormalValue b _).bind fun _ =>
    (reproves_indexOf _).bind fun _ => .ok _

theorem reproves_makeEdit (b : BareCommand) : Reproves Keyword.edit.name (makeEdit b) := by
  refine (reproves_onlyOptions b _).bind fun _ => ?_
  split
  · exact .complaint _
  · next first tags _ =>
    split
    · exact .complaint _
    · refine (reproves_indexOf _).bind fun index => (reproves_allMarked tags).bind fun _ => ?_
      refine (reproves_optionalValue b _).bind fun name => ?_
      refine (reproves_optionalValue b _).bind fun phone => ?_
      refine (reproves_optionalValue b _).bind fun email => ?_
      dsimp only
      split
      · exact .complaint _
      · exact .ok _

theorem reproves_makeFind (b : BareCommand) : Reproves Keyword.find.name (makeFind b) := by
  refine (reproves_onlyOptions b _).bind fun _ => (reproves_normalValues b).bind fun keywords => ?_
  split
  · exact .complaint _
  · exact .ok _

theorem reproves_makeHelp (b : BareCommand) : Reproves Keyword.help.name (makeHelp b) := by
  refine (reproves_onlyOptions b _).bind fun _ => (reproves_normalValues b).bind fun values => ?_
  split
  · exact .ok _
  · exact .ok _
  · exact .complaint _

/-- Each keyword complains about its own command. -/
theorem Keyword.reproves_construct (k : Keyword) (b : BareCommand) :
    Reproves k.name (k.construct b) := by
  cases k with
  | add => exact reproves_makeAdd b
  | clear | exit | list => exact (reproves_noArguments b).bind fun _ => .ok _
  | delete => exact reproves_makeDelete b
  | edit => exact reproves_makeEdit b
  | find => exact reproves_makeFind b
  | help => exact reproves_makeHelp b
  | tag | untag => exact (reproves_indexAndTags b).bind fun _ => .ok _

end CommandLine.AddressBook
