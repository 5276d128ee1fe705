import CommandLine.Proofs.Narrowing
import CommandLine.Proofs.Subcommands
/-!
# CommandLine.Proofs.Strictness

**Stricter settings refuse more, and redirect nothing.** Settings are at least as strict as others
if they ask for whole keywords, or if they ask longer imperatives to be whole keywords too
(`Config.AtLeastAsStrict`). For each imperative they then apply the same rule as the others or the
one for whole keywords (`Config.AtLeastAsStrict.ruleFor_cases`). In the first case nothing changes.
In the second only the bindings typed in full are left, and one of these is what a preference for
them had selected.

So what an imperative selects stays selected, or nothing is (`Decoder.select_of_strict`). The option
for whole keywords makes the settings stricter, whatever they are (`Cli.resolveConfig_exact`).
-/

namespace CommandLine

variable {α : Type} {binding : Binding α} {typed : String}

/-! ### Strictness of settings -/

/-- Settings under which imperatives stand for no more keywords than under others, and the same is
preferred among several. -/
structure Config.AtLeastAsStrict (strict lax : Config) : Prop where
  preferExact : strict.preferExact = lax.preferExact
  rule : strict.matchRule = lax.matchRule ∧ lax.minPrefixLength ≤ strict.minPrefixLength
    ∨ strict.matchRule = .whole

variable {strict lax : Config}

/-- The rule for an imperative stays, or it becomes the one for whole keywords. -/
theorem Config.AtLeastAsStrict.ruleFor_cases (h : strict.AtLeastAsStrict lax) (typed : String) :
    strict.ruleFor typed = lax.ruleFor typed ∨ strict.ruleFor typed = .whole := by
  unfold Config.ruleFor
  by_cases hshort : typed.length < strict.minPrefixLength
  · exact .inr (if_pos hshort)
  · rw [if_neg hshort]
    rcases h.rule with ⟨hsame, hlength⟩ | hwhole
    · have hlong : ¬typed.length < lax.minPrefixLength := by omega
      exact .inl (by rw [hsame, if_neg hlong])
    · exact .inr hwhole

namespace Decoder

/-! ### What stricter settings leave -/

section Strict

variable {table : BindingTable α} (h : strict.AtLeastAsStrict lax)
include h

/-- The eligible bindings stay, or those that were typed in full are left. -/
theorem eligible_cases_of_strict (table : BindingTable α) (typed : String) :
    (Decoder.mk table strict).eligible typed = (Decoder.mk table lax).eligible typed
      ∨ (Decoder.mk table strict).eligible typed
        = table.bindings.filter (·.keyword = typed) := by
  rcases h.ruleFor_cases typed with hsame | hwhole
  · refine .inl ?_
    rw [← matched_eq_eligible, ← matched_eq_eligible, matched, matched, hsame]
  · exact .inr (eligible_of_whole hwhole)

theorem eligible_sublist_of_strict (typed : String) :
    ((Decoder.mk table strict).eligible typed).Sublist ((Decoder.mk table lax).eligible typed) := by
  rcases eligible_cases_of_strict h table typed with hsame | hwhole
  · rw [hsame]
  · rw [hwhole]
    exact inFull_sublist_eligible (Decoder.mk table lax) typed

/-- A selected binding stays selected, or none is. -/
theorem select_of_strict (hselect : (Decoder.mk table lax).select typed = .ok binding) :
    (Decoder.mk table strict).select typed = .ok binding
      ∨ (Decoder.mk table strict).select typed = .error (.unknown typed) := by
  rcases select_eq_ok_iff_chooses.1 hselect with hone | ⟨hprefer, htwo, hfull⟩
  · exact select_cases_of_sublist (eligible_sublist_of_strict h typed) hone
  · -- the binding won over others because it was typed in full, so no rule leaves it out
    refine .inl (select_eq_ok_iff_chooses.2 ?_)
    rcases eligible_cases_of_strict h table typed with hsame | hwhole
    · exact .inr ⟨h.preferExact.trans hprefer, by rwa [hsame], hfull⟩
    · exact .inl (hwhole.trans hfull)

/-- What is assembled stays the same, or the imperative is not known any more. -/
theorem assemble_of_strict {line : String} {a : α}
    (hassemble : assemble (Decoder.mk table lax) line = .ok a) :
    assemble (Decoder.mk table strict) line = .ok a
      ∨ ∃ imperative,
        assemble (Decoder.mk table strict) line = .error (.resolution (.unknown imperative)) := by
  obtain ⟨b, hparse, hdecode⟩ := assemble_eq_ok.1 hassemble
  obtain ⟨binding, hselect, hconstruct⟩ := decode_eq_ok.1 hdecode
  rcases select_of_strict h hselect with hsame | hunknown
  · exact .inl (assemble_eq_ok.2 ⟨b, hparse, decode_eq_ok.2 ⟨binding, hsame, hconstruct⟩⟩)
  · exact .inr ⟨b.imperative, by rw [assemble_of_parse hparse, decode_of_select_error hunknown]⟩

end Strict

end Decoder

/-! ### The option for whole keywords -/

namespace Cli

variable {w : Surroundings} {options : Options}

/-- The settings that are asked for are those that are read, with the rule for whole keywords if
that is asked for too. -/
theorem resolveConfig_eq (w : Surroundings) (options : Options) :
    resolveConfig w options =
      (match options.config with
        | some path => (loadConfig w path).mapError (Failure.config path)
        | none => .ok .default).map
        fun config : Config =>
          if options.exact then { config with matchRule := .whole } else config := by
  rw [resolveConfig]
  cases options.config with
  | none => rfl
  | some path => cases loadConfig w path <;> rfl

/-- With the option for whole keywords the settings can still be had, and are at least as strict. -/
theorem resolveConfig_exact (h : resolveConfig w options = .ok lax) :
    ∃ strict, resolveConfig w { options with exact := true } = .ok strict
      ∧ strict.AtLeastAsStrict lax := by
  rw [resolveConfig_eq] at h
  obtain ⟨config, hconfig, rfl⟩ := map_eq_ok.1 h
  refine ⟨{ config with matchRule := .whole }, ?_, ?_, .inr rfl⟩
  · rw [resolveConfig_eq]
    exact map_eq_ok.2 ⟨config, hconfig, rfl⟩
  · split <;> rfl

/-- Before anything is decoded the settings and the line have been had. -/
theorem exists_of_perform_decode {format : Format} {argument : Option String} {printed : Printed}
    (h : perform w options format (.stage .decode argument) = .ok printed) :
    ∃ config, resolveConfig w options = .ok config
      ∧ ∃ line, readLine argument w.stdin = .ok line := by
  obtain ⟨config, hconfig, h⟩ := bind_eq_ok.1 h
  obtain ⟨line, hline, -⟩ := bind_eq_ok.1 h
  exact ⟨config, hconfig, line, mapError_eq_ok.1 hline⟩

/-- With the option for whole keywords the same is printed, or the imperative is not known. -/
theorem perform_exact {format : Format} {argument : Option String} {printed : Printed}
    (h : perform w options format (.stage .decode argument) = .ok printed) :
    perform w { options with exact := true } format (.stage .decode argument) = .ok printed
      ∨ ∃ line imperative, perform w { options with exact := true } format (.stage .decode argument)
        = .error (.assembly line (.resolution (.unknown imperative))) := by
  obtain ⟨lax, hlax, line, hline⟩ := exists_of_perform_decode h
  obtain ⟨strict, hstrict, hstricter⟩ := resolveConfig_exact hlax
  rw [perform_stage hline fun _ => hlax, showStage_decode] at h
  rw [perform_stage hline fun _ => hstrict, showStage_decode]
  obtain ⟨text, htext, hprinted⟩ := map_eq_ok.1 h
  obtain ⟨c, hc, hshown⟩ := map_eq_ok.1 (mapError_eq_ok.1 htext)
  rcases Decoder.assemble_of_strict hstricter hc with hsame | ⟨imperative, hunknown⟩
  · refine .inl ?_
    rw [decoder, hsame, ← hprinted, ← hshown]
    rfl
  · refine .inr ⟨line, imperative, ?_⟩
    rw [decoder, hunknown]
    rfl

end Cli

/-- **Stricter settings redirect nothing.** Let settings be at least as strict as others. The
candidates for an imperative are some of those under the others, in the same order. What it selects
under the others it still selects, or it is unknown; and it is unknown if it was. So a line is still
assembled to the same command, or refused as unknown; it is never ambiguous. In particular, what
`decode` prints stays the same if whole keywords are asked for, or the imperative is
refused as unknown. -/
theorem stricter_redirects_nothing (table : BindingTable α) {strict lax : Config}
    (h : strict.AtLeastAsStrict lax) :
    (∀ typed, ((Decoder.mk table strict).candidates typed).Sublist
        ((Decoder.mk table lax).candidates typed))
      ∧ (∀ b binding, (Decoder.mk table lax).resolve b = .ok binding →
        (Decoder.mk table strict).resolve b = .ok binding
          ∨ (Decoder.mk table strict).resolve b = .error (.unknown b.imperative))
      ∧ (∀ b i, (Decoder.mk table lax).resolve b = .error (.unknown i) →
        (Decoder.mk table strict).resolve b = .error (.unknown b.imperative))
      ∧ (∀ line a, assemble (Decoder.mk table lax) line = .ok a →
        assemble (Decoder.mk table strict) line = .ok a
          ∨ ∃ i, assemble (Decoder.mk table strict) line = .error (.resolution (.unknown i)))
      ∧ ∀ w options format argument printed,
        Cli.perform w options format (.stage .decode argument) = .ok printed →
          Cli.perform w { options with exact := true } format (.stage .decode argument)
              = .ok printed
            ∨ ∃ line i, Cli.perform w { options with exact := true } format
                (.stage .decode argument) = .error (.assembly line (.resolution (.unknown i))) := by
  refine ⟨fun typed => ?_, fun b binding hselect => ?_, fun b i hunknown => ?_,
    fun line a hassemble => ?_, fun w options format argument printed hperform => ?_⟩
  · exact Decoder.candidates_of_sublist (Decoder.eligible_sublist_of_strict h typed)
  · exact Decoder.select_of_strict h hselect
  · exact Decoder.select_unknown_of_sublist (Decoder.eligible_sublist_of_strict h _) hunknown
  · exact Decoder.assemble_of_strict h hassemble
  · exact Cli.perform_exact hperform

/-- The binding of `list` among the nested keywords. -/
def listBinding : Binding String := ⟨"list", fun _ => .ok "list"⟩

/-- Where keywords typed in full are preferred, `list` is told from `listall`; and it still is if
keywords have to be typed in full. -/
theorem list_stays_selected :
    (⟨.whole, true, 9⟩ : Config).AtLeastAsStrict ⟨.leading, true, 1⟩
      ∧ (Decoder.mk Decoder.nestedKeywords.table ⟨.leading, true, 1⟩).resolve
          { BareCommand.empty with imperative := "list" } = .ok listBinding
      ∧ ["list"].Sublist ["list", "listall"]
      ∧ ((Decoder.mk Decoder.nestedKeywords.table ⟨.whole, true, 9⟩).resolve
            { BareCommand.empty with imperative := "list" } = .ok listBinding
          ∨ (Decoder.mk Decoder.nestedKeywords.table ⟨.whole, true, 9⟩).resolve
            { BareCommand.empty with imperative := "list" } = .error (.unknown "list")) := by
  have hstrict : (⟨.whole, true, 9⟩ : Config).AtLeastAsStrict ⟨.leading, true, 1⟩ :=
    ⟨rfl, .inr rfl⟩
  obtain ⟨hcandidates, hresolve, -⟩ :=
    stricter_redirects_nothing Decoder.nestedKeywords.table hstrict
  exact ⟨hstrict, rfl, hcandidates "list", hresolve _ listBinding rfl⟩

end CommandLine
