import CommandLine.Assembly
import CommandLine.Proofs.Outcome
/-!
# CommandLine.Proofs.Resolution

**When an imperative selects a binding.** `Decoder.select_eq_ok` says it by the matching
bindings alone: there is one, or there are several and one of them was typed in full and is
preferred. Whatever is selected stands in the table, so what a decoder can make is known from
its bindings (`Decoder.exists_of_assemble`).

`Decoder.Matches` says without the rule that is computed for an imperative which keywords it
can stand for, and `Decoder.eligible` collects their bindings. What is listed for an imperative
and what is resolved are both given by this list (`Decoder.resolve_by_eligible`).
-/

namespace CommandLine

variable {α : Type} {binding : Binding α}

namespace BindingTable

variable {table : BindingTable α} {p : String → Bool}

theorem only_of_nil (imperative : String) (h : table.matching p = []) :
    table.only imperative p = .error (.unknown imperative) := by
  rw [only, h]

theorem only_of_singleton (imperative : String) (h : table.matching p = [binding]) :
    table.only imperative p = .ok binding := by
  rw [only, h]

/-- Of two or more bindings all are reported. -/
theorem only_of_two_le (imperative : String) (h : 2 ≤ (table.matching p).length) :
    table.only imperative p =
      .error (.ambiguous imperative ((table.matching p).map (·.keyword))) := by
  unfold only
  split
  · next hnil => simp [hnil] at h
  · next hone => simp [hone] at h
  · rfl

/-- There is no other way for a list to be long. -/
theorem matching_cases (table : BindingTable α) (p : String → Bool) :
    table.matching p = [] ∨ (∃ binding, table.matching p = [binding])
      ∨ 2 ≤ (table.matching p).length := by
  match table.matching p with
  | [] => exact .inl rfl
  | [binding] => exact .inr (.inl ⟨binding, rfl⟩)
  | _ :: _ :: _ => exact .inr (.inr (by simp))

theorem only_eq_ok {imperative : String} :
    table.only imperative p = .ok binding ↔ table.matching p = [binding] := by
  constructor
  · intro h
    rcases table.matching_cases p with hnil | ⟨other, hone⟩ | htwo
    · rw [only_of_nil imperative hnil] at h
      cases h
    · rw [only_of_singleton imperative hone] at h
      cases h
      exact hone
    · rw [only_of_two_le imperative htwo] at h
      cases h
  · exact only_of_singleton imperative

end BindingTable

namespace Decoder

open BindingTable

variable {d : Decoder α}

/-- The bindings that an imperative matches, by the rule that applies to it. -/
def matched (d : Decoder α) (typed : String) : List (Binding α) :=
  d.table.matching ((d.config.ruleFor typed).selects typed)

/-- One binding matches, or several do and the one that was typed in full is preferred. -/
theorem select_eq_ok {typed : String} :
    d.select typed = .ok binding ↔
      d.matched typed = [binding]
        ∨ d.config.preferExact = true ∧ 2 ≤ (d.matched typed).length
          ∧ d.table.matching (MatchRule.whole.selects typed) = [binding] := by
  unfold select matched
  rcases d.table.matching_cases ((d.config.ruleFor typed).selects typed) with
    hnil | ⟨other, hone⟩ | htwo
  · rw [only_of_nil typed hnil, hnil]
    simp
  · rw [only_of_singleton typed hone, hone]
    simp
  · have hne : d.table.matching ((d.config.ruleFor typed).selects typed) ≠ [binding] := by
      intro hone
      simp [hone] at htwo
    rw [only_of_two_le typed htwo]
    by_cases hprefer : d.config.preferExact = true
    · simp [hprefer, hne, htwo, mapError_eq_ok, only_eq_ok]
    · simp [hprefer, hne]

/-- No binding matches, or several do and all of them are reported. -/
theorem of_select_eq_error {typed : String} {e : ResolutionError}
    (h : d.select typed = .error e) :
    d.matched typed = [] ∧ e = .unknown typed
      ∨ 2 ≤ (d.matched typed).length ∧ e = .ambiguous typed (d.candidates typed) := by
  unfold select at h
  unfold matched candidates
  rcases d.table.matching_cases ((d.config.ruleFor typed).selects typed) with
    hnil | ⟨other, hone⟩ | htwo
  · rw [only_of_nil typed hnil] at h
    cases h
    exact .inl ⟨hnil, rfl⟩
  · rw [only_of_singleton typed hone] at h
    cases h
  · rw [only_of_two_le typed htwo] at h
    refine .inr ⟨htwo, ?_⟩
    dsimp only at h
    split at h
    · obtain ⟨_, -, rfl⟩ := mapError_eq_error.1 h
      rfl
    · cases h
      rfl

/-! ### Which keywords an imperative can stand for -/

/-- A typed imperative stands for a keyword that begins with it, or only for the keyword that
it is, if it is too short or the settings ask for whole keywords. -/
def Matches (d : Decoder α) (typed keyword : String) : Prop :=
  if typed.length < d.config.minPrefixLength ∨ d.config.matchRule = .whole then keyword = typed
  else typed.toList <+: keyword.toList

instance (d : Decoder α) (typed keyword : String) : Decidable (d.Matches typed keyword) :=
  inferInstanceAs (Decidable
    (if typed.length < d.config.minPrefixLength ∨ d.config.matchRule = .whole then keyword = typed
      else typed.toList <+: keyword.toList))

/-- The bindings that a typed imperative can stand for, in the order of the table. -/
def eligible (d : Decoder α) (typed : String) : List (Binding α) :=
  d.table.bindings.filter (d.Matches typed ·.keyword)

/-- The binding that a typed imperative selects: the only eligible one, or, of several, the
only one of the table that was typed in full, if that is preferred. -/
def Chooses (d : Decoder α) (typed : String) (binding : Binding α) : Prop :=
  d.eligible typed = [binding]
    ∨ d.config.preferExact = true ∧ 2 ≤ (d.eligible typed).length
      ∧ d.table.bindings.filter (·.keyword = typed) = [binding]

theorem selects_whole (typed keyword : String) :
    MatchRule.whole.selects typed keyword = decide (keyword = typed) := by
  rw [MatchRule.selects, Bool.eq_iff_iff, beq_iff_eq, decide_eq_true_iff, eq_comm]

theorem selects_ruleFor (d : Decoder α) (typed keyword : String) :
    (d.config.ruleFor typed).selects typed keyword = decide (d.Matches typed keyword) := by
  unfold Matches Config.ruleFor
  by_cases hshort : typed.length < d.config.minPrefixLength
  · simp only [hshort, if_true, true_or, selects_whole]
  · simp only [hshort, if_false, false_or]
    cases d.config.matchRule with
    | whole => simp only [if_true, selects_whole]
    | leading =>
      rw [MatchRule.selects, Bool.eq_iff_iff, List.isPrefixOf_iff_prefix]
      simp

theorem matched_eq_eligible (d : Decoder α) (typed : String) :
    d.matched typed = d.eligible typed := by
  unfold matched BindingTable.matching eligible
  simp only [selects_ruleFor]

theorem candidates_eq (d : Decoder α) (typed : String) :
    d.candidates typed = (d.eligible typed).map (·.keyword) := by
  rw [← matched_eq_eligible]
  rfl

/-- Under either rule an imperative stands for the keyword that it is. -/
theorem matches_self (d : Decoder α) (typed : String) : d.Matches typed typed := by
  unfold Matches
  split
  · rfl
  · exact List.prefix_rfl

/-- Where whole keywords are asked for, no other bindings are eligible. -/
theorem eligible_of_whole {typed : String} (hrule : d.config.ruleFor typed = .whole) :
    d.eligible typed = d.table.bindings.filter (·.keyword = typed) := by
  rw [← matched_eq_eligible, matched, hrule, BindingTable.matching]
  simp only [selects_whole]

theorem select_eq_ok_iff_chooses {typed : String} :
    d.select typed = .ok binding ↔ d.Chooses typed binding := by
  unfold Chooses
  rw [select_eq_ok, matched_eq_eligible, BindingTable.matching]
  simp only [selects_whole]

/-- **What is listed and what is resolved are given by the eligible bindings.** The candidates
for an imperative are their keywords. An imperative is unknown just when there are none; it
resolves to the binding that it selects; and if it selects none of them it is ambiguous, with
all candidates reported, of which there are several then. -/
theorem resolve_by_eligible (d : Decoder α) (b : BareCommand) :
    d.candidates b.imperative = (d.eligible b.imperative).map (·.keyword)
      ∧ (d.resolve b = .error (.unknown b.imperative) ↔ d.eligible b.imperative = [])
      ∧ (∀ binding, d.resolve b = .ok binding ↔ d.Chooses b.imperative binding)
      ∧ (d.eligible b.imperative ≠ [] → (∀ binding, ¬d.Chooses b.imperative binding) →
        d.resolve b = .error (.ambiguous b.imperative (d.candidates b.imperative))
          ∧ 2 ≤ (d.candidates b.imperative).length) := by
  have herror (e : ResolutionError) (h : d.resolve b = .error e) := of_select_eq_error h
  simp only [matched_eq_eligible] at herror
  refine ⟨candidates_eq d _, ⟨fun h => ?_, fun hnil => ?_⟩,
    fun binding => select_eq_ok_iff_chooses, fun hne hnone => ?_⟩
  · rcases herror _ h with ⟨hnil, -⟩ | ⟨-, hother⟩
    · exact hnil
    · cases hother
  · cases h : d.resolve b with
    | ok binding =>
      rcases select_eq_ok_iff_chooses.1 h with hone | ⟨-, htwo, -⟩
      · rw [hnil] at hone
        cases hone
      · rw [hnil] at htwo
        cases htwo
    | error e =>
      rcases herror e h with ⟨-, rfl⟩ | ⟨htwo, -⟩
      · rfl
      · rw [hnil] at htwo
        cases htwo
  · cases h : d.resolve b with
    | ok binding => exact absurd (select_eq_ok_iff_chooses.1 h) (hnone binding)
    | error e =>
      rcases herror e h with ⟨hnil, -⟩ | ⟨htwo, rfl⟩
      · exact absurd hnil hne
      · exact ⟨rfl, by rwa [candidates_eq, List.length_map]⟩

/-- A decoder with a keyword that occurs twice and begins a third one. -/
def twiceListed : Decoder String where
  table := ⟨["list", "list", "listall"].map fun keyword => ⟨keyword, fun _ => .ok keyword⟩⟩
  config := ⟨.leading, true, 3⟩

/-- A keyword typed in full is not preferred if it is there twice; then the bindings that it
begins are all reported. -/
theorem resolve_twiceListed :
    twiceListed.eligible "list" ≠ []
      ∧ (∀ binding, ¬twiceListed.Chooses "list" binding)
      ∧ twiceListed.resolve { BareCommand.empty with imperative := "list" }
        = .error (.ambiguous "list" ["list", "list", "listall"]) := by
  have heligible : (twiceListed.eligible "list").length = 3 := by decide
  have hwhole : (twiceListed.table.bindings.filter (·.keyword = "list")).length = 2 := by decide
  have hne : twiceListed.eligible "list" ≠ [] := List.ne_nil_of_length_pos (by omega)
  have hnone (binding : Binding String) : ¬twiceListed.Chooses "list" binding := by
    rintro (hone | ⟨-, -, hone⟩)
    · rw [hone] at heligible
      cases heligible
    · rw [hone] at hwhole
      cases hwhole
  have hcandidates : twiceListed.candidates "list" = ["list", "list", "listall"] := by decide
  refine ⟨hne, hnone, ?_⟩
  rw [← hcandidates]
  exact ((twiceListed.resolve_by_eligible
    { BareCommand.empty with imperative := "list" }).2.2.2 hne hnone).1

/-- What is selected stands in the table. -/
theorem mem_of_select {typed : String} (h : d.select typed = .ok binding) :
    binding ∈ d.table.bindings := by
  rcases select_eq_ok.1 h with hone | ⟨-, -, hone⟩
  · exact (List.mem_filter.1 (hone ▸ List.mem_singleton_self binding)).1
  · exact (List.mem_filter.1 (hone ▸ List.mem_singleton_self binding)).1

theorem decode_eq_ok {b : BareCommand} {a : α} :
    d.decode b = .ok a ↔
      ∃ binding, d.select b.imperative = .ok binding ∧ binding.construct b = .ok a := by
  simp only [decode, resolve, bind_eq_ok, mapError_eq_ok]

theorem decode_of_resolve {b : BareCommand} (h : d.resolve b = .ok binding) :
    d.decode b = (binding.construct b).mapError .validation := by
  rw [decode, h]
  rfl

theorem decode_of_select_error {b : BareCommand} {e : ResolutionError}
    (h : d.select b.imperative = .error e) : d.decode b = .error (.resolution e) := by
  rw [decode, resolve, h]
  rfl

theorem assemble_eq_ok {line : String} {a : α} :
    assemble d line = .ok a ↔ ∃ b, parse line = .ok b ∧ d.decode b = .ok a := by
  rw [assemble, bind_eq_ok]

/-- What is assembled was built by a binding of the table, from what was read. -/
theorem exists_of_assemble {line : String} {a : α} (h : assemble d line = .ok a) :
    ∃ b, parse line = .ok b ∧ ∃ binding ∈ d.table.bindings, binding.construct b = .ok a := by
  obtain ⟨b, hparse, hdecode⟩ := assemble_eq_ok.1 h
  obtain ⟨binding, hselect, hconstruct⟩ := decode_eq_ok.1 hdecode
  exact ⟨b, hparse, binding, mem_of_select hselect, hconstruct⟩

end Decoder

end CommandLine
