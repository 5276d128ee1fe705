import CommandLine.Proofs.ByteOrder
import CommandLine.Proofs.History
/-!
# CommandLine.Proofs.Extraction

**The command of a tree, read off the tree.** A bare command is put together by a walk over all
nodes of a tree, where each word and each text occurs several times. `ofTree_reads_off` says what
comes out, part by part and by the lists of the tree alone: the imperative, the parameters one by
one, and for each name the values of the options of this name, in the order of the line.

**A command depends on its histories only.** Two runs of steps build the same command just when
they say the same about the imperative, about parameters, and about each single option
(`build_eq_build_iff`). How the steps are mixed does not matter, and a flag takes nothing away.
-/

namespace CommandLine

namespace Tree

/-- The options of a tree that have some name, in the order of the line. -/
def named (t : Tree) (name : String) : List NamedOption :=
  t.options.filter (·.name.literal = name)

/-- The values that stand behind an option name, in the order of the line. -/
def valuesOf (t : Tree) (name : String) : List String :=
  (t.named name).filterMap fun o => o.value.map (·.literal)

variable {t : Tree} {name : String}

theorem named_ne_nil_iff : t.named name ≠ [] ↔ ∃ o ∈ t.options, o.name.literal = name := by
  simp [named]

theorem valuesOf_eq_nil_iff : t.valuesOf name = [] ↔ ∀ o ∈ t.named name, o.value = none := by
  simp [valuesOf]

theorem filterMap_value?_eq (t : Tree) (name : String) :
    t.options.filterMap (NamedOption.value? name) = t.valuesOf name := by
  rw [valuesOf, named, List.filterMap_filter]
  exact List.filterMap_congr fun o _ => by simp [NamedOption.value?]

/-- What is stored for a name: nothing if no option has it, and else all that options of this
name say. -/
theorem optionValues?_ofTree (t : Tree) (name : String) :
    (BareCommand.ofTree t).optionValues? name =
      if t.named name = [] then none else some (t.valuesOf name) := by
  have hnamed : name ∈ t.options.map (·.name.literal) ↔ t.named name ≠ [] := by
    rw [named_ne_nil_iff, List.mem_map]
  rw [Arguments.optionValues?, get?_ofTree, filterMap_value?_eq]
  by_cases h : t.named name = []
  · rw [if_pos h, if_neg fun hmem => hnamed.1 hmem h]
  · rw [if_neg h, if_pos (hnamed.2 h)]

end Tree

theorem BareCommand.optionNames_pairwise (b : BareCommand) :
    b.optionNames.Pairwise fun x y => Text.bytes x < Text.bytes y := by
  rw [Arguments.optionNames, SortedMap.keys, List.pairwise_map]
  exact b.options.sorted.imp Text.bytes_lt_bytes

/-- **The command of a tree says what the tree says, and nothing else.** The entries of its
option map are the names that occur, in the order of their bytes, each with the values that stand
behind it anywhere in the line; so there are none if all its places are flags. What is asked of
the command about an option is answered by these lists. -/
theorem BareCommand.ofTree_reads_off (t : Tree) :
    (ofTree t).imperative = t.imperative.literal
      ∧ (ofTree t).parameters = t.parameters.map (fun p => ⟨p.marking, p.text.literal⟩)
      ∧ (∀ name values, (name, values) ∈ (ofTree t).options.entries ↔
          (∃ o ∈ t.options, o.name.literal = name) ∧ values = t.valuesOf name)
      ∧ (∀ name, t.valuesOf name = [] ↔
          ∀ o ∈ t.options, o.name.literal = name → o.value = none)
      ∧ (ofTree t).optionNames.Pairwise (fun x y => Text.bytes x < Text.bytes y)
      ∧ ∀ name,
          ((ofTree t).hasOption name = true ↔ ∃ o ∈ t.options, o.name.literal = name)
          ∧ (name ∈ (ofTree t).optionNames ↔ ∃ o ∈ t.options, o.name.literal = name)
          ∧ ((ofTree t).optionValues? name =
              if t.named name = [] then none else some (t.valuesOf name))
          ∧ (ofTree t).firstValue? name = (t.valuesOf name).head? := by
  have hvalues := Tree.optionValues?_ofTree t
  have hpresent (name : String) :
      ((ofTree t).hasOption name = true ↔ ∃ o ∈ t.options, o.name.literal = name) := by
    rw [← Tree.named_ne_nil_iff, Arguments.hasOption, SortedMap.contains]
    change ((ofTree t).optionValues? name).isSome = true ↔ _
    rw [hvalues]
    by_cases h : t.named name = [] <;> simp [h]
  refine ⟨Tree.imperative_ofTree t, Tree.parameters_ofTree t, fun name values => ?_, fun name => ?_,
    optionNames_pairwise _, fun name => ⟨hpresent name, ?_, hvalues name, ?_⟩⟩
  · rw [← SortedMap.get?_eq_some_iff, ← Tree.named_ne_nil_iff]
    change (ofTree t).optionValues? name = some values ↔ _
    rw [hvalues]
    by_cases h : t.named name = []
    · simp [h]
    · simp [h, eq_comm]
  · rw [Tree.valuesOf_eq_nil_iff]
    simp [Tree.named]
  · rw [← hpresent, Arguments.optionNames, SortedMap.mem_keys_iff]
    rfl
  · rw [Arguments.firstValue?, hvalues]
    by_cases h : t.named name = []
    · simp [h, Tree.valuesOf]
    · simp [h]

/-! ### Steps in another order -/

namespace BareCommand

/-- Two runs of steps say the same: the last imperative is the same word (none counts as the
empty one), the parameters are the same in the same order, the same options are spoken of, and
each of them gets the same values in the same order. -/
structure SameHistories (steps steps' : List Step) : Prop where
  imperative : (steps.filterMap Step.imperative?).getLast?.getD ""
    = (steps'.filterMap Step.imperative?).getLast?.getD ""
  parameters : steps.filterMap Step.parameter? = steps'.filterMap Step.parameter?
  names : ∀ name, name ∈ steps.filterMap Step.optionName? ↔ name ∈ steps'.filterMap Step.optionName?
  values : ∀ name, steps.filterMap (Step.value? name) = steps'.filterMap (Step.value? name)

theorem parameters_build (steps : List Step) :
    (build steps).parameters = steps.filterMap Step.parameter? := by
  rw [build, parameters_foldl]
  rfl

theorem imperative_build (steps : List Step) :
    (build steps).imperative = (steps.filterMap Step.imperative?).getLast?.getD "" := by
  rw [build, imperative_foldl]
  rfl

theorem optionValues?_build (steps : List Step) (name : String) :
    (build steps).optionValues? name =
      if name ∈ steps.filterMap Step.optionName? then some (steps.filterMap (Step.value? name))
      else none := by
  rw [Arguments.optionValues?, build, get?_foldl]
  rfl

theorem values_build (steps : List Step) (name : String) :
    ((build steps).optionValues? name).getD [] = steps.filterMap (Step.value? name) := by
  rw [optionValues?_build]
  by_cases h : name ∈ steps.filterMap Step.optionName?
  · rw [if_pos h, Option.getD_some]
  · rw [if_neg h, values_eq_nil h, Option.getD_none]

theorem SameHistories.build_eq {steps steps' : List Step} (h : SameHistories steps steps') :
    build steps = build steps' := by
  refine eq_of_parts ?_ ?_ fun name => ?_
  · rw [imperative_build, imperative_build, h.imperative]
  · rw [parameters_build, parameters_build, h.parameters]
  · change (build steps).optionValues? name = (build steps').optionValues? name
    simp only [optionValues?_build, h.names name, h.values name]

theorem sameHistories_of_build_eq {steps steps' : List Step} (h : build steps = build steps') :
    SameHistories steps steps' where
  imperative := by rw [← imperative_build, ← imperative_build, h]
  parameters := by rw [← parameters_build, ← parameters_build, h]
  names := by
    intro name
    have hsome (us : List Step) :
        ((build us).optionValues? name).isSome ↔ name ∈ us.filterMap Step.optionName? := by
      rw [optionValues?_build]
      by_cases hname : name ∈ us.filterMap Step.optionName? <;> simp [hname]
    rw [← hsome, ← hsome, h]
  values := by
    intro name
    rw [← values_build, ← values_build, h]

/-- **What is built depends on the histories, and on all of them.** A flag changes no values:
those that an option got before it stay in front of those that it gets later, in their order. -/
theorem build_eq_build_iff :
    (∀ steps steps' : List Step, build steps = build steps' ↔ SameHistories steps steps')
      ∧ ∀ (before after : List Step) (name other : String),
        ((build (before ++ .flag name :: after)).optionValues? other).getD []
          = ((build before).optionValues? other).getD []
            ++ ((build after).optionValues? other).getD [] := by
  refine ⟨fun steps steps' => ⟨sameHistories_of_build_eq, SameHistories.build_eq⟩,
    fun before after name other => ?_⟩
  have hflag : Step.value? other (.flag name) = none := rfl
  rw [values_build, values_build, values_build, List.filterMap_append,
    List.filterMap_cons_none hflag]

end BareCommand

end CommandLine
