import Mathlib.Data.List.Basic
import CommandLine.Proofs.Resolution
/-!
# CommandLine.Proofs.Narrowing

**Fewer eligible bindings, fewer outcomes.** Looking up an imperative depends on how many bindings
are eligible: none, one, or several. So when the eligible bindings of one look-up are some of those
of another one, in the same order, the outcomes of the two are tied to each other, whatever the
reason for it is (`Decoder.select_unknown_of_sublist`, `Decoder.select_cases_of_sublist`,
`Decoder.select_ambiguous_of_sublist`).

One such reason is that a user types on: as long as the beginning of a keyword will do, each
character more leaves some of the bindings (`Decoder.typing_on_narrows`).
-/

namespace CommandLine.Decoder

variable {α : Type} {d d' : Decoder α} {binding : Binding α} {typed typed' : String}

/-! ### Outcomes, by the eligible bindings -/

theorem select_eq_unknown_iff {imperative : String} :
    d.select typed = .error (.unknown imperative) ↔
      d.eligible typed = [] ∧ imperative = typed := by
  constructor
  · intro h
    rcases of_select_eq_error h with ⟨hnil, heq⟩ | ⟨-, heq⟩
    · cases heq
      exact ⟨by rwa [← matched_eq_eligible], rfl⟩
    · cases heq
  · rintro ⟨hnil, rfl⟩
    unfold select
    rw [BindingTable.only_of_nil imperative]
    rw [← matched_eq_eligible] at hnil
    exact hnil

/-- An imperative is ambiguous if several bindings are eligible and none of them is preferred. -/
theorem select_eq_ambiguous_iff {imperative : String} {reported : List String} :
    d.select typed = .error (.ambiguous imperative reported) ↔
      2 ≤ (d.eligible typed).length ∧ (∀ binding, ¬d.Chooses typed binding)
        ∧ imperative = typed ∧ reported = d.candidates typed := by
  constructor
  · intro h
    have hnone (binding : Binding α) : ¬d.Chooses typed binding := by
      rw [← select_eq_ok_iff_chooses, h]
      exact nofun
    rcases of_select_eq_error h with ⟨-, heq⟩ | ⟨htwo, heq⟩
    · cases heq
    · cases heq
      exact ⟨by rwa [← matched_eq_eligible], hnone, rfl, rfl⟩
  · rintro ⟨htwo, hnone, rfl, rfl⟩
    cases h : d.select imperative with
    | ok binding => exact absurd (select_eq_ok_iff_chooses.1 h) (hnone binding)
    | error e =>
      rcases of_select_eq_error h with ⟨hnil, -⟩ | ⟨-, rfl⟩
      · rw [← matched_eq_eligible, hnil] at htwo
        cases htwo
      · rfl

/-! ### Some of the eligible bindings -/

section Sublist

variable (hsub : (d'.eligible typed').Sublist (d.eligible typed))
include hsub

theorem candidates_of_sublist : (d'.candidates typed').Sublist (d.candidates typed) := by
  rw [candidates_eq, candidates_eq]
  exact hsub.map _

theorem select_unknown_of_sublist {imperative : String}
    (h : d.select typed = .error (.unknown imperative)) :
    d'.select typed' = .error (.unknown typed') := by
  rw [(select_eq_unknown_iff.1 h).1] at hsub
  exact select_eq_unknown_iff.2 ⟨List.sublist_nil.1 hsub, rfl⟩

/-- Of a single eligible binding nothing else can be left than this binding. -/
theorem select_cases_of_sublist (hone : d.eligible typed = [binding]) :
    d'.select typed' = .ok binding ∨ d'.select typed' = .error (.unknown typed') := by
  rw [hone] at hsub
  rcases List.sublist_singleton.1 hsub with hnil | hsame
  · exact .inr (select_eq_unknown_iff.2 ⟨hnil, rfl⟩)
  · exact .inl (select_eq_ok_iff_chooses.2 (.inl hsame))

/-- If several bindings are left, several were eligible before, and all of them are reported. A
binding that is preferred could have been selected instead. -/
theorem select_ambiguous_of_sublist (hprefer : d.config.preferExact = false)
    {imperative : String} {reported : List String}
    (h : d'.select typed' = .error (.ambiguous imperative reported)) :
    ∃ more, d.select typed = .error (.ambiguous typed more) ∧ reported.Sublist more := by
  obtain ⟨htwo, -, -, rfl⟩ := select_eq_ambiguous_iff.1 h
  have hmore : 2 ≤ (d.eligible typed).length := Nat.le_trans htwo hsub.length_le
  have hnone (binding : Binding α) : ¬d.Chooses typed binding := by
    rintro (hone | ⟨hpreferred, -⟩)
    · rw [hone] at hmore
      simp at hmore
    · rw [hprefer] at hpreferred
      cases hpreferred
  exact ⟨d.candidates typed, select_eq_ambiguous_iff.2 ⟨hmore, hnone, rfl, rfl⟩,
    candidates_of_sublist hsub⟩

end Sublist

/-- What was typed in full is eligible under either rule. -/
theorem inFull_sublist_eligible (d : Decoder α) (typed : String) :
    (d.table.bindings.filter (·.keyword = typed)).Sublist (d.eligible typed) := by
  refine List.monotone_filter_right _ fun binding h => ?_
  rw [decide_eq_true_iff] at h ⊢
  exact h ▸ d.matches_self binding.keyword

/-! ### Typing on -/

/-- Under either rule an imperative stands for keywords that begin with it. -/
theorem prefix_of_matches {keyword : String} (h : d.Matches typed keyword) :
    typed.toList <+: keyword.toList := by
  unfold Matches at h
  split at h
  · exact h ▸ List.prefix_rfl
  · exact h

theorem matches_iff_of_leading (hrule : d.config.ruleFor typed = .leading) (keyword : String) :
    d.Matches typed keyword ↔ typed.toList <+: keyword.toList := by
  rw [← decide_eq_true_iff (p := d.Matches typed keyword), ← selects_ruleFor, hrule,
    MatchRule.selects, List.isPrefixOf_iff_prefix]

/-- Whatever rule applies to the longer imperative, a keyword it stands for begins with the
shorter one. -/
theorem eligible_sublist (hrule : d.config.ruleFor typed = .leading)
    (hbegins : typed.toList <+: typed'.toList) :
    (d.eligible typed').Sublist (d.eligible typed) := by
  refine List.monotone_filter_right _ fun binding h => ?_
  rw [decide_eq_true_iff] at h ⊢
  exact (matches_iff_of_leading hrule _).2 (hbegins.trans (prefix_of_matches h))

/-- **Typing on narrows the choice.** Let the beginning of a keyword do for an imperative, and
let another imperative begin with this one. Then its candidates are some of the candidates of
the shorter one, in the same order, and it is unknown if the shorter one is. Where a keyword that
was typed in full is not preferred, the longer one selects the binding that the shorter one
selects, or it is unknown; and it is ambiguous only if the shorter one is, among at least
the same keywords. -/
theorem typing_on_narrows (d : Decoder α) (b c : BareCommand)
    (hbegins : b.imperative.toList <+: c.imperative.toList)
    (hrule : d.config.ruleFor b.imperative = .leading) :
    (d.candidates c.imperative).Sublist (d.candidates b.imperative)
      ∧ (∀ i, d.resolve b = .error (.unknown i) → d.resolve c = .error (.unknown c.imperative))
      ∧ (d.config.preferExact = false →
        (∀ binding, d.resolve b = .ok binding →
          d.resolve c = .ok binding ∨ d.resolve c = .error (.unknown c.imperative))
        ∧ ∀ i reported, d.resolve c = .error (.ambiguous i reported) →
          ∃ more, d.resolve b = .error (.ambiguous b.imperative more)
            ∧ reported.Sublist more) := by
  have hsub := eligible_sublist hrule hbegins
  refine ⟨candidates_of_sublist hsub, fun i h => select_unknown_of_sublist hsub h,
    fun hprefer => ⟨fun binding h => ?_, fun i reported h => ?_⟩⟩
  · rcases select_eq_ok_iff_chooses.1 h with hone | ⟨hpreferred, -⟩
    · exact select_cases_of_sublist hsub hone
    · rw [hprefer] at hpreferred
      cases hpreferred
  · exact select_ambiguous_of_sublist hsub hprefer h

/-- A decoder with a keyword that begins another one. -/
def nestedKeywords : Decoder String where
  table := ⟨["load", "list", "listall"].map fun keyword => ⟨keyword, fun _ => .ok keyword⟩⟩
  config := ⟨.leading, false, 1⟩

/-- A keyword that begins another one is ambiguous, so the first character of it is. -/
theorem ambiguous_before_nested :
    nestedKeywords.resolve { BareCommand.empty with imperative := "list" }
        = .error (.ambiguous "list" ["list", "listall"])
      ∧ ∃ more, nestedKeywords.resolve { BareCommand.empty with imperative := "l" }
          = .error (.ambiguous "l" more) ∧ ["list", "listall"].Sublist more := by
  have hambiguous : nestedKeywords.resolve { BareCommand.empty with imperative := "list" }
      = .error (.ambiguous "list" ["list", "listall"]) := rfl
  exact ⟨hambiguous, ((nestedKeywords.typing_on_narrows
    { BareCommand.empty with imperative := "l" } { BareCommand.empty with imperative := "list" }
    (by decide) (by decide)).2.2 rfl).2 _ _ hambiguous⟩

end CommandLine.Decoder
