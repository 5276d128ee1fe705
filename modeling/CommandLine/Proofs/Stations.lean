import CommandLine.Proofs.Resolution
/-!
# CommandLine.Proofs.Stations

**Where the way from a line to its command ends.** A line fails at one of its stations, and the
error tells at which: errors of tokens and of grammar come from the line alone
(`parse_eq_error_iff`), all others come from the decoder and from the bare command
(`isSyntax_of_decode`). So what a decoder makes of a line is known from the bare command, if
there is one, and otherwise does not depend on the decoder (`assemble_eq_error_iff`).
-/

namespace CommandLine

variable {α : Type} {d : Decoder α} {line line' : String} {s : TokenStream} {b : BareCommand}
  {e : AssemblyError}

theorem parseTree_of_tokenize (hs : tokenize line = .ok s) :
    parseTree line = (Tree.ofStream s).mapError .grammatical := by
  rw [parseTree, hs]
  rfl

theorem parse_of_tokenize (hs : tokenize line = .ok s) :
    parse line = ((Tree.ofStream s).mapError .grammatical).map .ofTree := by
  rw [parse, parseTree_of_tokenize hs]

/-- A line without a bare command has no tokens or no tree. -/
theorem parse_eq_error_iff :
    parse line = .error e ↔ tokenize line = .error e
      ∨ ∃ s g, tokenize line = .ok s ∧ Tree.ofStream s = .error g ∧ e = .grammatical g := by
  rw [parse, map_eq_error, parseTree, bind_eq_error]
  simp only [mapError_eq_error]
  constructor
  · rintro (h | ⟨s, hs, g, hg, rfl⟩)
    · exact .inl h
    · exact .inr ⟨s, g, hs, hg, rfl⟩
  · rintro (h | ⟨s, g, hs, hg, rfl⟩)
    · exact .inl h
    · exact .inr ⟨s, hs, g, hg, rfl⟩

theorem isSyntax_of_parse (h : parse line = .error e) : e.isSyntax = true := by
  rcases parse_eq_error_iff.1 h with htokens | ⟨s, g, -, -, rfl⟩
  · obtain ⟨_, -, rfl⟩ := mapError_eq_error.1 htokens
    rfl
  · rfl

/-- What a decoder complains of is not in the text of the line. -/
theorem isSyntax_of_decode (h : d.decode b = .error e) : e.isSyntax = false := by
  rcases bind_eq_error.1 h with hresolve | ⟨binding, -, hconstruct⟩
  · obtain ⟨_, -, rfl⟩ := mapError_eq_error.1 hresolve
    rfl
  · obtain ⟨_, -, rfl⟩ := mapError_eq_error.1 hconstruct
    rfl

theorem assemble_of_parse (h : parse line = .ok b) : assemble d line = d.decode b := by
  rw [assemble, h]
  rfl

/-- An error of a line is one of its text, whatever the decoder, or comes from the decoder. -/
theorem assemble_eq_error_iff :
    assemble d line = .error e ↔
      e.isSyntax = true ∧ parse line = .error e
        ∨ e.isSyntax = false ∧ ∃ b, parse line = .ok b ∧ d.decode b = .error e := by
  rw [assemble, bind_eq_error]
  constructor
  · rintro (h | ⟨b, hb, h⟩)
    · exact .inl ⟨isSyntax_of_parse h, h⟩
    · exact .inr ⟨isSyntax_of_decode h, b, hb, h⟩
  · rintro (⟨-, h⟩ | ⟨-, b, hb, h⟩)
    · exact .inl h
    · exact .inr ⟨b, hb, h⟩

theorem assemble_eq_syntaxError_iff (he : e.isSyntax = true) :
    assemble d line = .error e ↔ parse line = .error e := by
  simp [assemble_eq_error_iff, he]

/-- Lines with the same bare command, if one of them has any, are the same to a decoder. -/
theorem assemble_congr (h : ∀ b, parse line = .ok b ↔ parse line' = .ok b) :
    (∀ a, assemble d line = .ok a ↔ assemble d line' = .ok a)
      ∧ ∀ e, e.isSyntax = false →
        (assemble d line = .error e ↔ assemble d line' = .error e) := by
  constructor
  · intro a
    simp only [Decoder.assemble_eq_ok, h]
  · intro e he
    simp [assemble_eq_error_iff, he, h]

end CommandLine
