import CommandLine.BareCommand.OfTree
import CommandLine.Proofs.SortedMap
/-!
# CommandLine.Proofs.History

**A bare command is its histories.** Of the things that are said about a command, those about
the imperative, those about parameters and those about each single option never meet.

* `BareCommand.Step.imperative?`, `parameter?`, `optionName?` and `value?` pick the part of
  one step that a history is about.
* One step is described by `BareCommand.parameters_apply`, `imperative_apply` and
  `get?_apply`, a run of steps by `parameters_foldl`, `imperative_foldl` and `get?_foldl`.
* `BareCommand.parameters_ofTree`, `imperative_ofTree` and `get?_ofTree` read a tree's command
  off the tree, without a walk over its nodes.
-/

namespace CommandLine

namespace BareCommand

namespace Step

/-- The imperative that a step sets. -/
def imperative? : Step → Option String
  | imperative word => some word
  | _ => none

/-- The parameter that a step adds. -/
def parameter? : Step → Option Parameter
  | parameter marking text => some ⟨marking, text⟩
  | _ => none

/-- The option that a step speaks of. -/
def optionName? : Step → Option String
  | value name _ | flag name => some name
  | _ => none

/-- The value that a step gives to the option of some name. -/
def value? (name : String) : Step → Option String
  | value other text => if other = name then some text else none
  | _ => none

theorem value?_eq_none {name : String} {s : Step} (h : s.optionName? ≠ some name) :
    s.value? name = none := by
  cases s with
  | value other text => exact if_neg fun heq => h (congrArg some heq)
  | _ => rfl

end Step

/-- A command is its imperative, its parameters and its options. -/
theorem eq_of_parts {b c : BareCommand} (himperative : b.imperative = c.imperative)
    (hparameters : b.parameters = c.parameters)
    (hoptions : ∀ name, b.options.get? name = c.options.get? name) : b = c := by
  obtain ⟨⟨ps, os⟩, word⟩ := b
  obtain ⟨⟨qs, us⟩, word'⟩ := c
  obtain rfl : os = us := SortedMap.ext_get? hoptions
  obtain rfl : ps = qs := hparameters
  obtain rfl : word = word' := himperative
  rfl

/-! ### One step -/

theorem parameters_apply (b : BareCommand) (s : Step) :
    (b.apply s).parameters = b.parameters ++ s.parameter?.toList := by
  cases s <;> simp [apply, Step.parameter?]

theorem imperative_apply (b : BareCommand) (s : Step) :
    (b.apply s).imperative = s.imperative?.getD b.imperative := by
  cases s <;> rfl

/-- An option is changed only by the steps that speak of it, and they only add to it. -/
theorem get?_apply (b : BareCommand) (s : Step) (name : String) :
    (b.apply s).options.get? name =
      if s.optionName? = some name then
        some ((b.options.get? name).getD [] ++ (s.value? name).toList)
      else b.options.get? name := by
  cases s with
  | imperative word => simp [apply, Step.optionName?]
  | parameter marking value => simp [apply, Step.optionName?]
  | value other v =>
    by_cases h : other = name
    · subst h
      simp [apply, Step.optionName?, Step.value?]
    · simp [apply, Step.optionName?, h, SortedMap.get?_alter_of_ne _ _ (Ne.symm h)]
  | flag other =>
    by_cases h : other = name
    · subst h
      simp [apply, Step.optionName?, Step.value?]
    · simp [apply, Step.optionName?, h, SortedMap.get?_alter_of_ne _ _ (Ne.symm h)]

/-! ### A run of steps -/

theorem parameters_foldl (steps : List Step) (b : BareCommand) :
    (steps.foldl apply b).parameters = b.parameters ++ steps.filterMap Step.parameter? := by
  induction steps generalizing b with
  | nil => simp
  | cons s steps ih =>
    rw [List.foldl_cons, ih, parameters_apply, List.append_assoc, List.filterMap_cons]
    cases s.parameter? <;> simp

theorem imperative_foldl (steps : List Step) (b : BareCommand) :
    (steps.foldl apply b).imperative =
      (steps.filterMap Step.imperative?).getLast?.getD b.imperative := by
  induction steps generalizing b with
  | nil => rfl
  | cons s steps ih =>
    rw [List.foldl_cons, ih, imperative_apply, List.filterMap_cons]
    cases s.imperative? with
    | none => rfl
    | some word => simp only [List.getLast?_cons, Option.getD_some]

/-- A name that no step speaks of gets no values. -/
theorem values_eq_nil {steps : List Step} {name : String}
    (h : name ∉ steps.filterMap Step.optionName?) : steps.filterMap (Step.value? name) = [] := by
  refine List.filterMap_eq_nil_iff.2 fun s hs => Step.value?_eq_none fun hname => ?_
  exact h (List.mem_filterMap.2 ⟨s, hs, hname⟩)

theorem get?_foldl (steps : List Step) (b : BareCommand) (name : String) :
    (steps.foldl apply b).options.get? name =
      if name ∈ steps.filterMap Step.optionName? then
        some ((b.options.get? name).getD [] ++ steps.filterMap (Step.value? name))
      else b.options.get? name := by
  induction steps generalizing b with
  | nil => simp
  | cons s steps ih =>
    rw [List.foldl_cons, ih, get?_apply]
    by_cases h : s.optionName? = some name
    · have hmem : name ∈ (s :: steps).filterMap Step.optionName? := by simp [h]
      have hvalues : (s :: steps).filterMap (Step.value? name)
          = (s.value? name).toList ++ steps.filterMap (Step.value? name) := by
        rw [List.filterMap_cons]
        cases s.value? name <;> rfl
      rw [if_pos h, if_pos hmem, hvalues, Option.getD_some, List.append_assoc]
      split
      · rfl
      · next hnot =>
        rw [values_eq_nil hnot, List.append_nil]
    · have hmem : name ∈ (s :: steps).filterMap Step.optionName?
          ↔ name ∈ steps.filterMap Step.optionName? := by
        simp [h]
      rw [if_neg h, List.filterMap_cons_none (Step.value?_eq_none h)]
      simp only [hmem]

end BareCommand

/-! ### The command of a tree -/

namespace Tree

/-- A parameter of the tree as one of the command. -/
def Parameter.toBare (p : Tree.Parameter) : CommandLine.Parameter := ⟨p.marking, p.text.literal⟩

/-- The value that an option of the tree gives to the option of some name. -/
def NamedOption.value? (name : String) (o : NamedOption) : Option String :=
  if o.name.literal = name then o.value.map (·.literal) else none

/-- What a parameter of the tree says about the command. -/
def Parameter.step (p : Tree.Parameter) : BareCommand.Step := .parameter p.marking p.text.literal

/-- What an option of the tree says about the command. -/
def NamedOption.step (o : NamedOption) : BareCommand.Step :=
  match o.value with
  | some value => .value o.name.literal value.literal
  | none => .flag o.name.literal

/-- What a tree says about its command, in the order of the line. -/
def steps (t : Tree) : List BareCommand.Step :=
  .imperative t.imperative.literal
    :: (t.parameters.map Parameter.step ++ t.options.map NamedOption.step)

/-- The nodes of a tree say about the command what its imperative, its parameters and its
options say, each of them once. -/
theorem filterMap_nodes (t : Tree) : t.nodes.filterMap Node.step? = t.steps := by
  -- a parameter or an option speaks through its own node only, not through its leaves
  have hparameter (p : Parameter) : p.nodes.filterMap Node.step? = [p.step] := rfl
  have hoption (o : NamedOption) : o.nodes.filterMap Node.step? = [o.step] := by
    cases hvalue : o.value <;> simp [NamedOption.nodes, NamedOption.step, Node.step?, hvalue]
  simp only [nodes, steps, List.filterMap_append, List.filterMap_cons, List.filterMap_flatMap,
    Node.step?, hparameter, hoption, List.map_eq_flatMap, List.cons_append, List.nil_append]

section Options

variable (o : NamedOption)

@[simp] theorem NamedOption.imperative?_step : o.step.imperative? = none := by
  unfold step
  split <;> rfl

@[simp] theorem NamedOption.parameter?_step : o.step.parameter? = none := by
  unfold step
  split <;> rfl

@[simp] theorem NamedOption.optionName?_step : o.step.optionName? = some o.name.literal := by
  unfold step
  split <;> rfl

@[simp] theorem NamedOption.value?_step (name : String) : o.step.value? name = o.value? name := by
  unfold step value?
  cases o.value <;> simp [BareCommand.Step.value?]

end Options

/-- A history of a tree's steps is one of its imperative, its parameters and its options. -/
theorem filterMap_steps {α : Type} (f : BareCommand.Step → Option α) (t : Tree) :
    t.steps.filterMap f = (f (.imperative t.imperative.literal)).toList
      ++ (t.parameters.filterMap (fun p => f p.step)
        ++ t.options.filterMap (fun o => f o.step)) := by
  rw [steps, List.filterMap_cons, List.filterMap_append, List.filterMap_map, List.filterMap_map]
  cases f (.imperative t.imperative.literal) <;> rfl

variable (t : Tree)

theorem ofTree_eq : BareCommand.ofTree t = t.steps.foldl BareCommand.apply .empty := by
  rw [BareCommand.ofTree, BareCommand.build, filterMap_nodes]

theorem imperative_ofTree : (BareCommand.ofTree t).imperative = t.imperative.literal := by
  rw [ofTree_eq, BareCommand.imperative_foldl, filterMap_steps]
  simp only [NamedOption.imperative?_step]
  simp [BareCommand.Step.imperative?, Parameter.step]

theorem parameters_ofTree :
    (BareCommand.ofTree t).parameters = t.parameters.map Parameter.toBare := by
  rw [ofTree_eq, BareCommand.parameters_foldl, filterMap_steps]
  simp only [NamedOption.parameter?_step]
  simp [BareCommand.Step.parameter?, Parameter.step, Parameter.toBare, BareCommand.empty,
    Arguments.none]

/-- An option is there if the tree has it in some place, and has the values of all these
places. -/
theorem get?_ofTree (name : String) :
    (BareCommand.ofTree t).options.get? name =
      if name ∈ t.options.map (·.name.literal) then
        some (t.options.filterMap (NamedOption.value? name))
      else none := by
  rw [ofTree_eq, BareCommand.get?_foldl, filterMap_steps, filterMap_steps]
  simp only [NamedOption.optionName?_step, NamedOption.value?_step]
  simp [BareCommand.Step.optionName?, BareCommand.Step.value?, Parameter.step, BareCommand.empty,
    Arguments.none]

end Tree

end CommandLine
