import Mathlib.Data.List.Nodup
import CommandLine.Proofs.Narrowing
/-!
# CommandLine.Proofs.FullKeywords

**When a keyword typed in full selects its own binding.** No keyword occurs twice in the tables of
this module, so a keyword that is typed in full is that of one binding only, and this binding is
eligible under every rule. It is the only eligible one unless the beginning of a keyword will do and
the keyword begins another one (`Decoder.eligible_eq_singleton_iff`). Where it is not, several
bindings are eligible, which is just where a preference for keywords typed in full comes in. So the
binding is selected with such a preference, and without it if nothing else is eligible
(`Decoder.chooses_self_iff`).
-/

namespace CommandLine

variable {α : Type} {binding other : Binding α}

namespace BindingTable

variable {table : BindingTable α}

/-- Bindings of a table are told apart by their keywords. -/
theorem eq_of_keyword_eq (hnodup : table.keywords.Nodup) (hmem : binding ∈ table.bindings)
    (hother : other ∈ table.bindings) (hkeyword : other.keyword = binding.keyword) :
    other = binding :=
  List.inj_on_of_nodup_map hnodup hother hmem hkeyword

/-- A binding is the only one whose keyword has a property if no other keyword has it. -/
theorem filter_eq_singleton_iff (hnodup : table.keywords.Nodup) (hmem : binding ∈ table.bindings)
    {p : String → Prop} [DecidablePred p] (hp : p binding.keyword) :
    table.bindings.filter (p ·.keyword) = [binding] ↔
      ∀ keyword ∈ table.keywords, p keyword → keyword = binding.keyword := by
  rw [← List.perm_singleton, List.perm_ext_iff_of_nodup
    ((List.Nodup.of_map _ hnodup).filter _) (List.nodup_singleton _)]
  simp only [List.mem_filter, decide_eq_true_eq, List.mem_singleton]
  constructor
  · intro h keyword hkeyword hholds
    obtain ⟨other, hother, rfl⟩ := List.mem_map.1 hkeyword
    rw [(h other).1 ⟨hother, hholds⟩]
  · intro h other
    refine ⟨fun hfound => ?_, fun heq => heq ▸ ⟨hmem, hp⟩⟩
    exact eq_of_keyword_eq hnodup hmem hfound.1 (h _ (List.mem_map_of_mem hfound.1) hfound.2)

/-- A keyword begins no other one of the table. -/
def BeginsNoOther (table : BindingTable α) (keyword : String) : Prop :=
  ∀ other ∈ table.keywords, keyword.toList <+: other.toList → other = keyword

end BindingTable

namespace Decoder

open BindingTable

variable {d : Decoder α}

theorem mem_eligible_self (hmem : binding ∈ d.table.bindings) :
    binding ∈ d.eligible binding.keyword :=
  List.mem_filter.2 ⟨hmem, decide_eq_true (d.matches_self binding.keyword)⟩

section Distinct

variable (hnodup : d.table.keywords.Nodup) (hmem : binding ∈ d.table.bindings)
include hnodup hmem

/-- No other binding was typed in full. -/
theorem inFull_eq_singleton :
    d.table.bindings.filter (·.keyword = binding.keyword) = [binding] :=
  (filter_eq_singleton_iff hnodup hmem (p := (· = binding.keyword)) rfl).2 fun _ _ h => h

theorem eligible_eq_singleton_iff :
    d.eligible binding.keyword = [binding] ↔
      d.config.ruleFor binding.keyword = .whole ∨ d.table.BeginsNoOther binding.keyword := by
  cases hrule : d.config.ruleFor binding.keyword with
  | whole => simp [eligible_of_whole hrule, inFull_eq_singleton hnodup hmem]
  | leading =>
    rw [eligible, filter_eq_singleton_iff hnodup hmem (d.matches_self binding.keyword)]
    simp [BeginsNoOther, matches_iff_of_leading hrule]

/-- If the binding is not the only eligible one, several are eligible. -/
theorem chooses_self_iff :
    d.Chooses binding.keyword binding ↔
      d.config.preferExact = true ∨ d.config.ruleFor binding.keyword = .whole
        ∨ d.table.BeginsNoOther binding.keyword := by
  rw [Chooses, inFull_eq_singleton hnodup hmem, ← eligible_eq_singleton_iff hnodup hmem]
  have hself : binding ∈ d.eligible binding.keyword := mem_eligible_self hmem
  by_cases hone : d.eligible binding.keyword = [binding]
  · simp [hone]
  · have htwo : 2 ≤ (d.eligible binding.keyword).length := by
      match h : d.eligible binding.keyword with
      | [] => simp [h] at hself
      | [single] =>
        rw [h, List.mem_singleton] at hself
        exact absurd (hself ▸ h) hone
      | _ :: _ :: _ => simp
    simp [hone, htwo]

/-- No other binding is selected by the keyword. -/
theorem eq_of_chooses_self (h : d.Chooses binding.keyword other) : other = binding := by
  rcases h with hone | ⟨-, -, hone⟩
  · have hself : binding ∈ d.eligible binding.keyword := mem_eligible_self hmem
    rw [hone, List.mem_singleton] at hself
    exact hself.symm
  · rw [inFull_eq_singleton hnodup hmem] at hone
    cases hone
    rfl

end Distinct

/-- **A keyword typed in full selects its own binding or is ambiguous.** Let no keyword occur twice
in a table. A keyword of it selects its binding just when keywords typed in full are preferred, or
whole keywords are asked for, or no other keyword begins with this one. If it does not, it is
ambiguous and among the candidates. It never selects another binding, and is never unknown. -/
theorem keyword_in_full (d : Decoder α) (hnodup : d.table.keywords.Nodup)
    (hmem : binding ∈ d.table.bindings) (b : BareCommand)
    (htyped : b.imperative = binding.keyword) :
    (d.resolve b = .ok binding ↔
        d.config.preferExact = true ∨ d.config.ruleFor b.imperative = .whole
          ∨ d.table.BeginsNoOther b.imperative)
      ∧ (d.resolve b ≠ .ok binding →
        d.resolve b = .error (.ambiguous b.imperative (d.candidates b.imperative))
          ∧ binding.keyword ∈ d.candidates b.imperative)
      ∧ (∀ other, d.resolve b = .ok other → other = binding)
      ∧ ∀ i, d.resolve b ≠ .error (.unknown i) := by
  have hself : binding ∈ d.eligible b.imperative := htyped ▸ mem_eligible_self hmem
  have hother (other : Binding α) (h : d.resolve b = .ok other) : other = binding := by
    rw [resolve, htyped, select_eq_ok_iff_chooses] at h
    exact eq_of_chooses_self hnodup hmem h
  have hknown (i : String) : d.resolve b ≠ .error (.unknown i) := by
    intro h
    rw [resolve, select_eq_unknown_iff] at h
    rw [h.1] at hself
    cases hself
  refine ⟨?_, fun hnot => ⟨?_, ?_⟩, hother, hknown⟩
  · rw [resolve, htyped, select_eq_ok_iff_chooses, chooses_self_iff hnodup hmem]
  · cases h : d.resolve b with
    | ok other => exact absurd (hother other h ▸ h) hnot
    | error e =>
      rcases of_select_eq_error h with ⟨-, rfl⟩ | ⟨-, rfl⟩
      · exact absurd h (hknown _)
      · rfl
  · rw [candidates_eq]
    exact List.mem_map_of_mem hself

/-- The keyword `list` begins `listall`, so it is ambiguous unless it is preferred. -/
theorem nested_in_full :
    nestedKeywords.table.keywords.Nodup
      ∧ (⟨"list", fun _ => .ok "list"⟩ : Binding String) ∈ nestedKeywords.table.bindings
      ∧ nestedKeywords.resolve { BareCommand.empty with imperative := "list" }
        = .error (.ambiguous "list" ["list", "listall"])
      ∧ "list" ∈ nestedKeywords.candidates "list"
      ∧ (Decoder.mk nestedKeywords.table ⟨.leading, true, 1⟩).resolve
          { BareCommand.empty with imperative := "list" } = .ok ⟨"list", fun _ => .ok "list"⟩ := by
  have hnodup : nestedKeywords.table.keywords.Nodup := by decide
  have hmem : (⟨"list", fun _ => .ok "list"⟩ : Binding String) ∈ nestedKeywords.table.bindings :=
    .tail _ (.head _)
  have hblocked : ¬nestedKeywords.table.BeginsNoOther "list" := by
    intro h
    exact absurd (h "listall" (by decide) (by decide)) (by decide)
  obtain ⟨hiff, hambiguous, -⟩ := keyword_in_full nestedKeywords hnodup hmem
    { BareCommand.empty with imperative := "list" } rfl
  have hnot := mt hiff.1 (not_or.2 ⟨by decide, not_or.2 ⟨by decide, hblocked⟩⟩)
  refine ⟨hnodup, hmem, (hambiguous hnot).1, (hambiguous hnot).2, ?_⟩
  exact (keyword_in_full (Decoder.mk nestedKeywords.table ⟨.leading, true, 1⟩) hnodup hmem
    { BareCommand.empty with imperative := "list" } rfl).1.2 (.inl rfl)

end Decoder

end CommandLine
