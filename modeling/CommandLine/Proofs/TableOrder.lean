import Mathlib.Data.List.Perm.Basic
import CommandLine.Proofs.Narrowing
import CommandLine.Proofs.Stations
/-!
# CommandLine.Proofs.TableOrder

**The order of a table does not matter.** What an imperative selects depends on how many bindings
are eligible, and on which one it is if there is only one. Neither changes with the order of the
table (`Decoder.chooses_iff_of_perm`), whether or not it has duplicate keywords. Only the candidates
of an ambiguous imperative are told in the order of the table. So a line has the same outcome under
all orders, or is ambiguous under all of them (`Decoder.outcomes_of_perm`).
-/

namespace CommandLine

variable {α : Type}

/-- Two outcomes are the same, or they tell of the same ambiguous imperative, each with the
candidates in an order of its own. -/
def AgreeUpToOrder (x y : Except AssemblyError α) : Prop :=
  x = y ∨ ∃ imperative reported reported',
    x = .error (.resolution (.ambiguous imperative reported))
      ∧ y = .error (.resolution (.ambiguous imperative reported')) ∧ reported.Perm reported'

namespace Decoder

variable {table table' : BindingTable α} {config : Config} {binding : Binding α} {typed : String}

/-- The candidates are the keywords of the table that an imperative can stand for, in the order of
the table. -/
theorem candidates_eq_filter (d : Decoder α) (typed : String) :
    d.candidates typed = d.table.keywords.filter (d.Matches typed ·) := by
  rw [candidates_eq, eligible, BindingTable.keywords, List.filter_map]
  rfl

/-! ### One table in two orders -/

section Perm

variable (hperm : table.bindings.Perm table'.bindings)
include hperm

theorem eligible_perm (config : Config) (typed : String) :
    ((Decoder.mk table config).eligible typed).Perm ((Decoder.mk table' config).eligible typed) :=
  hperm.filter _

theorem candidates_perm :
    ((Decoder.mk table config).candidates typed).Perm
      ((Decoder.mk table' config).candidates typed) := by
  rw [candidates_eq, candidates_eq]
  exact (eligible_perm hperm _ _).map _

/-- A single element has no other order. -/
theorem chooses_of_perm (h : (Decoder.mk table config).Chooses typed binding) :
    (Decoder.mk table' config).Chooses typed binding := by
  have heligible := eligible_perm hperm config typed
  rcases h with hone | ⟨hprefer, htwo, hfull⟩
  · rw [hone] at heligible
    exact .inl (List.singleton_perm.1 heligible).symm
  · have hinFull := hperm.filter fun binding => binding.keyword = typed
    rw [hfull] at hinFull
    exact .inr ⟨hprefer, heligible.length_eq ▸ htwo, (List.singleton_perm.1 hinFull).symm⟩

theorem chooses_iff_of_perm :
    (Decoder.mk table config).Chooses typed binding ↔
      (Decoder.mk table' config).Chooses typed binding :=
  ⟨chooses_of_perm hperm, chooses_of_perm hperm.symm⟩

/-- The same binding is selected, or none is, for the same reason. -/
theorem select_cases_of_perm (config : Config) (typed : String) :
    (∃ binding, (Decoder.mk table config).select typed = .ok binding
        ∧ (Decoder.mk table' config).select typed = .ok binding)
      ∨ (Decoder.mk table config).select typed = .error (.unknown typed)
        ∧ (Decoder.mk table' config).select typed = .error (.unknown typed)
      ∨ (Decoder.mk table config).select typed
          = .error (.ambiguous typed ((Decoder.mk table config).candidates typed))
        ∧ (Decoder.mk table' config).select typed
          = .error (.ambiguous typed ((Decoder.mk table' config).candidates typed)) := by
  have heligible := eligible_perm hperm config typed
  cases h : (Decoder.mk table config).select typed with
  | ok binding =>
    refine .inl ⟨binding, rfl, ?_⟩
    rw [select_eq_ok_iff_chooses] at h ⊢
    exact chooses_of_perm hperm h
  | error e =>
    cases e with
    | unknown imperative =>
      obtain ⟨hnil, rfl⟩ := select_eq_unknown_iff.1 h
      rw [hnil] at heligible
      exact .inr (.inl ⟨rfl, select_eq_unknown_iff.2 ⟨heligible.nil_eq.symm, rfl⟩⟩)
    | ambiguous imperative reported =>
      obtain ⟨htwo, hnone, rfl, rfl⟩ := select_eq_ambiguous_iff.1 h
      refine .inr (.inr ⟨rfl, select_eq_ambiguous_iff.2 ⟨?_, fun binding => ?_, rfl, rfl⟩⟩)
      · rwa [← heligible.length_eq]
      · rw [← chooses_iff_of_perm hperm]
        exact hnone binding

theorem decode_of_perm (config : Config) (b : BareCommand) :
    AgreeUpToOrder ((Decoder.mk table config).decode b) ((Decoder.mk table' config).decode b) := by
  rcases select_cases_of_perm hperm config b.imperative with
    ⟨binding, h, h'⟩ | ⟨h, h'⟩ | ⟨h, h'⟩
  · exact .inl (by rw [decode_of_resolve h, decode_of_resolve h'])
  · exact .inl (by rw [decode_of_select_error h, decode_of_select_error h'])
  · exact .inr ⟨_, _, _, decode_of_select_error h, decode_of_select_error h',
      candidates_perm hperm⟩

theorem assemble_of_perm (config : Config) (line : String) :
    AgreeUpToOrder (assemble (Decoder.mk table config) line)
      (assemble (Decoder.mk table' config) line) := by
  cases h : parse line with
  | ok b =>
    rw [assemble_of_parse h, assemble_of_parse h]
    exact decode_of_perm hperm config b
  | error e =>
    exact .inl (by rw [assemble, assemble, h]; rfl)

end Perm

/-- **The order of a table does not matter.** Let two tables have the same bindings in some orders.
Under the same settings an imperative selects the same binding of both, or is unknown to both, or is
ambiguous in both. The candidates are the same up to their order, which is that of each table. So
what becomes of a bare command or of a line is the same for both tables, but for this order. -/
theorem outcomes_of_perm (config : Config) (hperm : table.bindings.Perm table'.bindings) :
    let d : Decoder α := ⟨table, config⟩
    let d' : Decoder α := ⟨table', config⟩
    (∀ b, (∃ binding, d.resolve b = .ok binding ∧ d'.resolve b = .ok binding)
        ∨ d.resolve b = .error (.unknown b.imperative)
          ∧ d'.resolve b = .error (.unknown b.imperative)
        ∨ d.resolve b = .error (.ambiguous b.imperative (d.candidates b.imperative))
          ∧ d'.resolve b = .error (.ambiguous b.imperative (d'.candidates b.imperative)))
      ∧ (∀ typed, (d.candidates typed).Perm (d'.candidates typed)
        ∧ d.candidates typed = table.keywords.filter (d.Matches typed ·)
        ∧ d'.candidates typed = table'.keywords.filter (d.Matches typed ·))
      ∧ (∀ b, AgreeUpToOrder (d.decode b) (d'.decode b))
      ∧ ∀ line, AgreeUpToOrder (assemble d line) (assemble d' line) := by
  intro d d'
  refine ⟨fun b => ?_, fun typed => ⟨?_, ?_, ?_⟩, fun b => ?_, fun line => ?_⟩
  · exact select_cases_of_perm hperm config b.imperative
  · exact candidates_perm hperm
  · exact candidates_eq_filter d typed
  · -- what an imperative can stand for is a matter of the settings only
    exact candidates_eq_filter d' typed
  · exact decode_of_perm hperm config b
  · exact assemble_of_perm hperm config line

/-- The decoder with a keyword that occurs twice, its table the other way round. -/
def twiceListedBackwards : Decoder String :=
  ⟨⟨twiceListed.table.bindings.reverse⟩, twiceListed.config⟩

/-- A keyword that occurs twice stays ambiguous if the table is turned round, and its candidates are
turned round with it. -/
theorem ambiguous_backwards :
    twiceListed.table.bindings.Perm twiceListedBackwards.table.bindings
      ∧ twiceListed.candidates "list" = ["list", "list", "listall"]
      ∧ twiceListedBackwards.candidates "list" = ["listall", "list", "list"]
      ∧ (twiceListed.candidates "list").Perm (twiceListedBackwards.candidates "list")
      ∧ AgreeUpToOrder (assemble twiceListed "list 1")
        (assemble twiceListedBackwards "list 1") := by
  have hperm : twiceListed.table.bindings.Perm twiceListedBackwards.table.bindings :=
    (List.reverse_perm _).symm
  obtain ⟨-, hcandidates, -, hassemble⟩ := outcomes_of_perm twiceListed.config hperm
  exact ⟨hperm, by decide, by decide, (hcandidates "list").1, hassemble "list 1"⟩

end Decoder

end CommandLine
