import CommandLine.Proofs.History
import CommandLine.Proofs.Yield
/-!
# CommandLine.Proofs.Relabelling

**Reading a tree looks at kinds only.** Tokens may be changed by any function that keeps
their kinds, before the reading or after it: `Tree.readCommand_map` says that both ways end
in the same tree, or get stuck at the same place and for the same reason.

Moving all tokens of a line, or forgetting where they stood, are such functions. They keep
the literals as well, so the command of the tree stays what it was (`Tree.ofTree_map`).
-/

namespace CommandLine

/-- The token, wherever it stands. -/
def Token.unplaced (t : Token) : Token := { t with span := .empty 0 }

@[simp] theorem Token.kind_unplaced (t : Token) : t.unplaced.kind = t.kind := rfl

@[simp] theorem Token.literal_unplaced (t : Token) : t.unplaced.literal = t.literal := rfl

namespace Tree

variable (f : Token → Token)

/-! ### Changing the tokens of what was read -/

/-- The parameter with its text changed. -/
def Parameter.map (p : Parameter) : Parameter := ⟨p.marking, f p.text⟩

/-- The option with its name and its value changed. -/
def NamedOption.map (o : NamedOption) : NamedOption := ⟨f o.name, o.value.map f⟩

/-- The tree with all leaves changed. -/
def map (t : Tree) : Tree :=
  ⟨f t.imperative, t.parameters.map (Parameter.map f), t.options.map (NamedOption.map f)⟩

/-- The same stop among changed tokens. -/
def Stuck.map (s : Stuck) : Stuck := { s with rest := s.rest.map f }

/-- The outcome of reading when all tokens are changed, and what is read by `g`. -/
def relabel {α β : Type} (g : α → β) : Except Stuck α → Except Stuck β
  | .ok a => .ok (g a)
  | .error stuck => .error (stuck.map f)

/-- What was read and the tokens left, all of them changed. -/
def both {α : Type} (g : α → α) : α × List Token → α × List Token := Prod.map g (List.map f)

variable {α α' β β' : Type}

theorem relabel_bind {g : α → α'} {h : β → β'} {k : α → Except Stuck β} {k' : α' → Except Stuck β'}
    (hk : ∀ a, k' (g a) = relabel f h (k a)) (reading : Except Stuck α) :
    (relabel f g reading >>= k') = relabel f h (reading >>= k) := by
  cases reading with
  | error stuck => rfl
  | ok a => exact hk a

theorem relabel_within (g : α → β) (rule : Rule) (reading : Except Stuck α) :
    within rule (relabel f g reading) = relabel f g (within rule reading) := by
  cases reading <;> rfl

/-! ### The rules -/

variable {f} (hf : ∀ t, (f t).kind = t.kind) (ts : List Token)

include hf

theorem expect_map (kinds : List Token.Kind) :
    expect kinds (ts.map f) = relabel f (both f f) (expect kinds ts) := by
  cases ts with
  | nil => rfl
  | cons t rest =>
    rw [List.map_cons, expect, expect, hf]
    split <;> rfl

theorem readWord_map : readWord (ts.map f) = relabel f (both f f) (readWord ts) := by
  rw [readWord, readWord, expect_map hf, relabel_within]

theorem readText_map : readText (ts.map f) = relabel f (both f f) (readText ts) := by
  rw [readText, readText, expect_map hf, relabel_within]

theorem readImperative_map :
    readImperative (ts.map f) = relabel f (both f f) (readImperative ts) := by
  rw [readImperative, readImperative, readWord_map hf, relabel_within]

theorem takeMarking_map :
    takeMarking (ts.map f) = ((takeMarking ts).1, (takeMarking ts).2.map f) := by
  cases ts with
  | nil => rfl
  | cons t rest =>
    rw [List.map_cons, takeMarking, takeMarking, hf]
    split <;> rfl

theorem readParameter_map :
    readParameter (ts.map f) = relabel f (both f (Parameter.map f)) (readParameter ts) := by
  -- taking the mark cannot fail, so the text is the only step
  rw [readParameter, readParameter, ← relabel_within, takeMarking_map hf]
  refine congrArg _ ?_
  dsimp only
  rw [readText_map hf]
  refine relabel_bind f (fun _ => ?_) _
  rfl

theorem readValue_map :
    readValue (ts.map f) = relabel f (both f (Option.map f)) (readValue ts) := by
  cases ts with
  | nil => rfl
  | cons t rest =>
    rw [List.map_cons, readValue, readValue, hf, readText_map hf]
    split
    · cases readText rest <;> rfl
    · rfl

theorem readOption_map :
    readOption (ts.map f) = relabel f (both f (NamedOption.map f)) (readOption ts) := by
  rw [readOption, readOption, ← relabel_within, readWord_map hf]
  refine congrArg _ (relabel_bind f (fun result => ?_) _)
  obtain ⟨name, rest⟩ := result
  dsimp only [both, Prod.map]
  rw [readValue_map hf]
  refine relabel_bind f (fun _ => ?_) _
  rfl

/-! ### Lists and the whole line -/

theorem readParameters_map :
    readParameters (ts.map f) =
      relabel f (both f (List.map (Parameter.map f))) (readParameters ts) := by
  fun_induction readParameters ts with
  | case1 => rw [List.map_nil, readParameters]; rfl
  | case2 t rest hslash =>
    rw [List.map_cons, readParameters, if_pos ((hf t).trans hslash)]
    rfl
  | case3 t rest hslash stuck hread =>
    rw [List.map_cons, readParameters_cons (hf t ▸ hslash), ← List.map_cons, readParameter_map hf,
      hread]
    rfl
  | case4 t rest hslash p after hread ih =>
    rw [List.map_cons, readParameters_cons (hf t ▸ hslash), ← List.map_cons, readParameter_map hf,
      hread]
    show (readParameters (after.map f)).map _ = _
    rw [ih]
    cases readParameters after <;> rfl

theorem readOptions_map :
    readOptions (ts.map f) =
      relabel f (both f (List.map (NamedOption.map f))) (readOptions ts) := by
  fun_induction readOptions ts with
  | case1 => rw [List.map_nil, readOptions]; rfl
  | case2 t rest hslash stuck hread =>
    rw [List.map_cons, readOptions_cons ((hf t).trans hslash), readOption_map hf, hread]
    rfl
  | case3 t rest hslash o after hread ih =>
    rw [List.map_cons, readOptions_cons ((hf t).trans hslash), readOption_map hf, hread]
    show (readOptions (after.map f)).map _ = _
    rw [ih]
    cases readOptions after <;> rfl
  | case4 t rest hslash =>
    rw [List.map_cons, readOptions, if_neg (hf t ▸ hslash)]
    rfl

omit hf in
theorem expectEnd_map : expectEnd (ts.map f) = relabel f id (expectEnd ts) := by
  cases ts <;> rfl

/-- Reading changed tokens gives the changed tree, or gets stuck at the changed place. -/
theorem readCommand_map : readCommand (ts.map f) = relabel f (map f) (readCommand ts) := by
  rw [readCommand, readCommand, ← relabel_within, readImperative_map hf]
  refine congrArg _ (relabel_bind f (fun result => ?_) _)
  obtain ⟨imperative, rest⟩ := result
  dsimp only [both, Prod.map]
  rw [readParameters_map hf, relabel_within]
  refine relabel_bind f (fun result => ?_) _
  obtain ⟨parameters, rest⟩ := result
  dsimp only [both, Prod.map]
  rw [readOptions_map hf, relabel_within]
  refine relabel_bind f (fun result => ?_) _
  obtain ⟨options, rest⟩ := result
  dsimp only [both, Prod.map]
  rw [expectEnd_map]
  refine relabel_bind f (fun _ => ?_) _
  rfl

omit hf in
/-- Tokens that are the same without places have the same tree without places. -/
theorem readCommand_of_unplaced {ts us : List Token} {t : Tree}
    (h : ts.map Token.unplaced = us.map Token.unplaced) (hus : readCommand us = .ok t) :
    ∃ u, readCommand ts = .ok u ∧ u.map Token.unplaced = t.map Token.unplaced := by
  have hread := readCommand_map Token.kind_unplaced ts
  rw [h, readCommand_map Token.kind_unplaced, hus] at hread
  cases hts : readCommand ts with
  | error stuck =>
    rw [hts] at hread
    cases hread
  | ok u =>
    rw [hts] at hread
    exact ⟨u, rfl, (Except.ok.inj hread).symm⟩

/-- The tree of changed tokens is the changed tree. An error stays what it is, its token
changed. -/
theorem ofStream_map {s s' : TokenStream} (hbody : s'.body = s.body.map f)
    (hterminal : s'.terminal = f s.terminal) :
    (∀ t, ofStream s = .ok t → ofStream s' = .ok (t.map f))
      ∧ ∀ e, ofStream s = .error e →
        ofStream s' = .error { e with line := s'.line, found := f e.found } := by
  have hread := readCommand_map hf s.body
  rw [← hbody] at hread
  constructor
  · intro t ht
    rw [mapError_eq_ok.1 ht] at hread
    rw [ofStream, hread]
    rfl
  · intro e he
    obtain ⟨stuck, hstuck, rfl⟩ := mapError_eq_error.1 he
    have hfound : (stuck.rest.map f).headD (f s.terminal) = f (stuck.rest.headD s.terminal) := by
      cases stuck.rest <;> rfl
    rw [hstuck] at hread
    rw [ofStream, hread, hterminal, ← hfound]
    rfl

end Tree

/-! ### The command of a changed tree -/

theorem Tree.ofTree_map {f : Token → Token} (hf : ∀ t, (f t).literal = t.literal) (t : Tree) :
    BareCommand.ofTree (t.map f) = BareCommand.ofTree t := by
  have hoption (o : NamedOption) : (o.map f).step = o.step := by
    cases hvalue : o.value <;> simp [NamedOption.map, NamedOption.step, hvalue, hf]
  have hsteps : (t.map f).steps = t.steps := by
    simp [steps, map, Parameter.map, Parameter.step, Function.comp_def, hf, hoption]
  rw [ofTree_eq, ofTree_eq, hsteps]

end CommandLine
