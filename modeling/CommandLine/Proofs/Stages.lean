import CommandLine.Proofs.Yield
/-!
# CommandLine.Proofs.Stages

**Where reading a line stands.** A `Tree.Stage` is all that the tokens taken so far mean for
those to come, and `Tree.Stage.step` is the grammar as an automaton on kinds of tokens. The
readers follow it token by token:

* a line has a tree just when the automaton comes from its start to its end
  (`Tree.ofStream_isOk_iff`);
* where it has none, reading stops in front of the first token that the automaton has no step
  for, and what is then expected and which rules are named depends on the stage only
  (`Tree.exists_stage_of_error`); there is only one such token, so a token that has no step is
  where reading stops (`Tree.ofStream_eq_error_of_stage`).

`Tree.StopsFrom` is the second statement for one reader: it stops somewhere behind the stage it
began at. Readers are put together by `Tree.StopsFrom.append`, which moves the beginning back
over tokens that were taken, and `Tree.stopsFrom_within`, which names one more rule.
-/

namespace CommandLine

/-- The kinds of some tokens. -/
def Token.kinds (ts : List Token) : List Token.Kind := ts.map (·.kind)

/-- The kind of the next token, where the end of the list is the end of the line. -/
def Token.nextKind (ts : List Token) : Token.Kind := (ts.head?.map (·.kind)).getD .terminal

namespace Tree

open Token (kinds nextKind)

/-- How far a line has been read. -/
inductive Stage where
  /-- Nothing is read. -/
  | start
  /-- The imperative is read, and no parameter is open. -/
  | parameters
  /-- The mark of a parameter is read. -/
  | marked
  /-- The slash of an option is read. -/
  | slashed
  /-- The name of an option is read. -/
  | named
  /-- The colon of an option is read. -/
  | coloned
  /-- An option with a value is read. -/
  | valued
  /-- The end of the line is read. -/
  | finished
  deriving Repr, DecidableEq

namespace Stage

/-- The stage behind a token of some kind, if one can stand there. -/
def step : Stage → Token.Kind → Option Stage
  | start, .word => some parameters
  | parameters, .word | parameters, .text | marked, .word | marked, .text => some parameters
  | parameters, .plus | parameters, .minus => some marked
  | parameters, .slash | named, .slash | valued, .slash => some slashed
  | slashed, .word => some named
  | named, .colon => some coloned
  | coloned, .word | coloned, .text => some valued
  | parameters, .terminal | named, .terminal | valued, .terminal => some finished
  | _, _ => none

/-- The stage behind some tokens. -/
def run (p : Stage) (ks : List Token.Kind) : Option Stage := ks.foldlM step p

/-- The kinds that an error at this stage lists. They need not be all that can stand here: a
parameter can also begin with a mark, and the name of an option go on with a colon. -/
def expected : Stage → List Token.Kind
  | start | slashed => [.word]
  | parameters | marked | coloned => [.text, .word]
  | named | valued => [.slash, .terminal]
  | finished => []

/-- The rules that an error at this stage names, the innermost first. -/
def rules : Stage → List Rule
  | start => [.word, .imperative, .command]
  | parameters | marked => [.text, .parameter, .parameterList, .command]
  | slashed => [.word, .option, .optionList, .command]
  | coloned => [.text, .option, .optionList, .command]
  | named | valued => [.optionList, .command]
  | finished => []

variable {p q : Stage}

@[simp] theorem run_nil (p : Stage) : p.run [] = some p := rfl

@[simp] theorem run_cons (p : Stage) (k : Token.Kind) (ks : List Token.Kind) :
    p.run (k :: ks) = (p.step k).bind (·.run ks) := rfl

theorem run_append {r : Option Stage} {ks ls : List Token.Kind} (hks : p.run ks = some q)
    (hls : q.run ls = r) : p.run (ks ++ ls) = r := by
  unfold run at hks hls ⊢
  rw [List.foldlM_append, hks, ← hls]
  rfl

/-- What is listed can stand. -/
theorem isSome_step_of_mem_expected {k : Token.Kind} (h : k ∈ p.expected) :
    (p.step k).isSome := by
  revert h
  cases p <;> cases k <;> decide

/-- Nothing but the end of the line leads behind everything. -/
theorem ne_finished_of_step {k : Token.Kind} (hk : k ≠ .terminal) (h : p.step k = some q) :
    q ≠ .finished := by
  rintro rfl
  revert hk h
  cases p <;> cases k <;> decide

theorem ne_finished_of_run {ks : List Token.Kind} (hp : p ≠ .finished)
    (hks : ∀ k ∈ ks, k ≠ .terminal) (h : p.run ks = some q) : q ≠ .finished := by
  induction ks generalizing p with
  | nil =>
    cases h
    exact hp
  | cons k ks ih =>
    obtain ⟨hk, hks⟩ := List.forall_mem_cons.1 hks
    obtain ⟨p', hstep, hrun⟩ := Option.bind_eq_some_iff.1 h
    exact ih (ne_finished_of_step hk hstep) hks hrun

/-- The line can end where an option can begin. -/
theorem step_terminal (h : p.step .slash = some .slashed) :
    p.step .terminal = some .finished := by
  revert h
  cases p <;> decide

end Stage

variable {p q : Stage} {outer : List Rule} {ts us used rest : List Token} {stuck : Stuck}

/-! ### Tokens that are taken -/

theorem run_kinds_append {r : Option Stage} (hts : p.run (kinds ts) = some q)
    (hus : q.run (kinds us) = r) : p.run (kinds (ts ++ us)) = r := by
  rw [kinds, List.map_append]
  exact Stage.run_append hts hus

/-- One token more. -/
theorem run_kinds_singleton {t : Token} {k : Token.Kind} (hkind : t.kind = k)
    (hstep : p.step k = some q) : p.run (kinds [t]) = some q := by
  rw [kinds, List.map_singleton, hkind, Stage.run_cons, hstep]
  rfl

theorem Parameter.Yields.run_kinds {parameter : Parameter} (h : parameter.Yields ts) :
    Stage.parameters.run (kinds ts) = some .parameters := by
  cases h with
  | normal htext => rcases htext with htext | htext <;> simp [kinds, htext, Stage.step]
  | additive hplus htext =>
    rcases htext with htext | htext <;> simp [kinds, hplus, htext, Stage.step]
  | subtractive hminus htext =>
    rcases htext with htext | htext <;> simp [kinds, hminus, htext, Stage.step]

/-- An option ends at the stage of its name or at that of its value. -/
theorem NamedOption.Yields.run_kinds {o : NamedOption} (h : o.Yields ts)
    (hp : p.step .slash = some .slashed) :
    p.run (kinds ts) = some (if o.value = none then .named else .valued) := by
  cases h with
  | flag hslash hname =>
    rw [kinds, List.map_cons, Stage.run_cons, hslash, hp]
    simp [hname, Stage.step]
  | valued hslash hname hcolon hvalue =>
    rw [kinds, List.map_cons, Stage.run_cons, hslash, hp]
    rcases hvalue with hvalue | hvalue <;> simp [hname, hcolon, hvalue, Stage.step]

theorem run_kinds_parameters {parameters : List Parameter}
    (h : ListYields Parameter.Yields parameters ts) :
    Stage.parameters.run (kinds ts) = some .parameters := by
  induction h with
  | nil => rfl
  | cons hfirst _ ih => exact run_kinds_append hfirst.run_kinds ih

/-- Behind options there can be more of them. -/
theorem run_kinds_options {options : List NamedOption}
    (h : ListYields NamedOption.Yields options ts) (hp : p.step .slash = some .slashed) :
    ∃ q, p.run (kinds ts) = some q ∧ q.step .slash = some .slashed := by
  induction h generalizing p with
  | nil => exact ⟨p, rfl, hp⟩
  | @cons o _ _ _ hfirst _ ih =>
    have hbehind : (if o.value = none then Stage.named else .valued).step .slash
        = some .slashed := by
      split <;> rfl
    obtain ⟨q, hrun, hq⟩ := ih hbehind
    exact ⟨q, run_kinds_append (hfirst.run_kinds hp) hrun, hq⟩

/-- The tokens of a tree lead from the start to the end. -/
theorem Yields.run_kinds {t : Tree} (h : t.Yields ts) :
    Stage.start.run (kinds ts) = some .finished := by
  cases h with
  | @command imperative terminal parameters options ps os hword hparameters hoptions hterminal =>
    obtain ⟨q, hrun, hq⟩ := run_kinds_options (p := .parameters) hoptions rfl
    have himperative : Stage.start.run (kinds [imperative]) = some .parameters :=
      run_kinds_singleton hword rfl
    have hps := run_kinds_append himperative (run_kinds_parameters hparameters)
    exact run_kinds_append (run_kinds_append hps hrun)
      (run_kinds_singleton hterminal (Stage.step_terminal hq))

/-! ### Tokens that are not taken -/

/-- Reading stops at the stage `q`: the next token has no step, and what is said of it goes by
the stage. The `outer` rules have not been named yet. -/
structure Stage.Refuses (q : Stage) (outer : List Rule) (stuck : Stuck) : Prop where
  step_eq_none : q.step (nextKind stuck.rest) = none
  expected_eq : stuck.expected = q.expected
  rules_eq : stuck.rules ++ outer = q.rules

/-- From the stage `p` on, with the tokens `ts` to come, reading takes some of these and then
stops. -/
def StopsFrom (p : Stage) (outer : List Rule) (ts : List Token) (stuck : Stuck) : Prop :=
  ∃ used q, ts = used ++ stuck.rest ∧ p.run (kinds used) = some q ∧ q.Refuses outer stuck

theorem StopsFrom.append (hrun : p.run (kinds used) = some q) (h : StopsFrom q outer ts stuck) :
    StopsFrom p outer (used ++ ts) stuck := by
  obtain ⟨more, q', rfl, hmore, hstops⟩ := h
  exact ⟨used ++ more, q', by rw [List.append_assoc], run_kinds_append hrun hmore, hstops⟩

/-- One more rule is named on the way out. -/
theorem stopsFrom_within {α : Type} {rule : Rule} {reading : Except Stuck α}
    (h : within rule reading = .error stuck)
    (hreading : ∀ inner, reading = .error inner → StopsFrom p (rule :: outer) ts inner) :
    StopsFrom p outer ts stuck := by
  obtain ⟨inner, hinner, rfl⟩ := mapError_eq_error.1 h
  obtain ⟨used, q, hts, hrun, hstops⟩ := hreading inner hinner
  refine ⟨used, q, hts, hrun, hstops.step_eq_none, hstops.expected_eq, ?_⟩
  rw [List.append_assoc]
  exact hstops.rules_eq

theorem of_expect_eq_error {ks : List Token.Kind} (hend : .terminal ∉ ks)
    (h : expect ks ts = .error stuck) : stuck = ⟨ks, [], ts⟩ ∧ nextKind ts ∉ ks := by
  cases ts with
  | nil =>
    cases h
    exact ⟨rfl, hend⟩
  | cons t rest =>
    rw [expect] at h
    split at h
    · cases h
    · next hkind =>
      cases h
      exact ⟨rfl, hkind⟩

/-- A reader of one token stops where it is. -/
theorem stopsFrom_expect {rule : Rule} (hend : .terminal ∉ p.expected)
    (hstep : nextKind ts ∉ p.expected → p.step (nextKind ts) = none)
    (hrules : rule :: outer = p.rules) (h : within rule (expect p.expected ts) = .error stuck) :
    StopsFrom p outer ts stuck := by
  refine stopsFrom_within h fun inner hinner => ?_
  obtain ⟨rfl, hnext⟩ := of_expect_eq_error hend hinner
  exact ⟨[], p, rfl, rfl, hstep hnext, rfl, hrules⟩

/-- Where just what is listed can stand, nothing else has a step. -/
theorem Stage.step_eq_none_of_not_mem {k : Token.Kind}
    (hp : p = .start ∨ p = .marked ∨ p = .slashed ∨ p = .coloned) (h : k ∉ p.expected) :
    p.step k = none := by
  revert h
  rcases hp with rfl | rfl | rfl | rfl <;> cases k <;> decide

/-- A mark is taken, or there is none. -/
theorem takeMarking_cases (t : Token) (rest : List Token) :
    (takeMarking (t :: rest)).2 = rest ∧ Stage.parameters.step t.kind = some .marked
      ∨ (takeMarking (t :: rest)).2 = t :: rest ∧ t.kind ≠ .plus ∧ t.kind ≠ .minus := by
  simp only [takeMarking]
  split
  · next hplus => exact .inl ⟨rfl, by rw [hplus]; rfl⟩
  · next hminus => exact .inl ⟨rfl, by rw [hminus]; rfl⟩
  · next hplus hminus => exact .inr ⟨rfl, hplus, hminus⟩

/-- A parameter that cannot be read ends behind its mark or in front of a colon, as the line
and the list of parameters do not end here. -/
theorem stopsFrom_readParameter {t : Token} (hslash : t.kind ≠ .slash)
    (hend : t.kind ≠ .terminal) (h : readParameter (t :: rest) = .error stuck) :
    StopsFrom .parameters [.parameterList, .command] (t :: rest) stuck := by
  refine stopsFrom_within h fun inner hinner => ?_
  change (readText (takeMarking (t :: rest)).2 >>= _) = _ at hinner
  rcases bind_eq_error.1 hinner with htext | ⟨_, _, hpure⟩
  · rcases takeMarking_cases t rest with ⟨hmark, hstep⟩ | ⟨hmark, hplus, hminus⟩
    · rw [hmark] at htext
      have hmarked : StopsFrom .marked [.parameter, .parameterList, .command] rest inner :=
        stopsFrom_expect (by decide) (Stage.step_eq_none_of_not_mem (by simp)) rfl htext
      exact hmarked.append (run_kinds_singleton rfl hstep)
    · rw [hmark] at htext
      refine stopsFrom_expect (by decide) (fun hnext => ?_) rfl htext
      -- only a colon is left
      have hnext' : t.kind ∉ Stage.parameters.expected := hnext
      show Stage.parameters.step t.kind = none
      revert hslash hend hplus hminus hnext'
      cases t.kind <;> decide
  · cases hpure

/-- Parameters stop in front of a token that neither begins a parameter nor ends the list. -/
theorem stopsFrom_readParameters (hend : ∀ t ∈ ts, t.kind ≠ .terminal)
    (h : readParameters ts = .error stuck) :
    StopsFrom .parameters [.parameterList, .command] ts stuck := by
  fun_induction readParameters ts with
  | case1 => cases h
  | case2 => cases h
  | case3 t rest hslash _ hread =>
    cases h
    exact stopsFrom_readParameter hslash (hend t List.mem_cons_self) hread
  | case4 t rest _ parameter after hread ih =>
    obtain ⟨used, hyields, hts⟩ := readParameter_eq_ok.1 hread
    rw [hts] at hend ⊢
    exact (ih (fun u hu => hend u (List.mem_append_right _ hu)) (map_eq_error.1 h)).append
      hyields.run_kinds

/-- A value that cannot be read ends behind its colon. -/
theorem stopsFrom_readValue (h : readValue ts = .error stuck) :
    StopsFrom .named [.option, .optionList, .command] ts stuck := by
  cases ts with
  | nil => cases h
  | cons t rest =>
    rw [readValue] at h
    split at h
    · next hcolon =>
      have hcoloned : StopsFrom .coloned [.option, .optionList, .command] rest stuck :=
        stopsFrom_expect (by decide) (Stage.step_eq_none_of_not_mem (by simp)) rfl
          (map_eq_error.1 h)
      exact hcoloned.append (run_kinds_singleton hcolon rfl)
    · cases h

theorem stopsFrom_readOption (h : readOption ts = .error stuck) :
    StopsFrom .slashed [.optionList, .command] ts stuck := by
  refine stopsFrom_within h fun inner hinner => ?_
  rcases bind_eq_error.1 hinner with hname | ⟨⟨name, after⟩, hname, hbehind⟩
  · exact stopsFrom_expect (by decide) (Stage.step_eq_none_of_not_mem (by simp)) rfl hname
  · obtain ⟨rfl, hword⟩ := readWord_eq_ok.1 hname
    rcases bind_eq_error.1 hbehind with hvalue | ⟨_, _, hpure⟩
    · exact (stopsFrom_readValue hvalue).append (run_kinds_singleton hword rfl)
    · cases hpure

/-- The stages between options, with the tokens to come: those that could still belong to what
is read have been looked at. -/
inductive BetweenOptions : Stage → List Token → Prop
  | parameters {ts : List Token} (h : AtSlash ts) : BetweenOptions .parameters ts
  | named {ts : List Token} (h : NoColon ts) : BetweenOptions .named ts
  | valued {ts : List Token} : BetweenOptions .valued ts

theorem BetweenOptions.step_slash (h : BetweenOptions p ts) :
    p.step .slash = some .slashed := by
  cases h <;> rfl

/-- An option that is read leads to the next stage between options. -/
theorem exists_of_readOption {slash : Token} {o : NamedOption} (hslash : slash.kind = .slash)
    (hp : p.step .slash = some .slashed) (h : readOption ts = .ok (o, rest)) :
    ∃ used q, slash :: ts = used ++ rest ∧ p.run (kinds used) = some q
      ∧ BetweenOptions q rest := by
  obtain ⟨used, hyields, rfl, hcolon⟩ := (readOption_eq_ok hslash).1 h
  refine ⟨slash :: used, _, rfl, hyields.run_kinds hp, ?_⟩
  split
  · next hnone => exact .named (hcolon hnone)
  · exact .valued

/-- Between options only a slash and the end of the line can stand. -/
theorem BetweenOptions.refuses {t : Token} (h : BetweenOptions p (t :: rest))
    (hslash : t.kind ≠ .slash) (hend : t.kind ≠ .terminal) :
    p.Refuses [.optionList, .command] ⟨[.slash, .terminal], [], t :: rest⟩ := by
  cases h with
  | parameters h => exact absurd (h t rfl) hslash
  | named h =>
    have hcolon := h t rfl
    refine ⟨?_, rfl, rfl⟩
    show Stage.named.step t.kind = none
    revert hslash hend hcolon
    cases t.kind <;> decide
  | valued =>
    refine ⟨?_, rfl, rfl⟩
    show Stage.valued.step t.kind = none
    revert hslash hend
    cases t.kind <;> decide

/-- Options stop inside one of them or between two. -/
theorem stopsFrom_readOptions (hend : ∀ t ∈ ts, t.kind ≠ .terminal) (hp : BetweenOptions p ts)
    (h : within .optionList (readOptions ts) = .error stuck) :
    StopsFrom p [.command] ts stuck := by
  refine stopsFrom_within h fun inner hinner => ?_
  clear h
  -- the stage changes from option to option
  fun_induction readOptions ts generalizing p with
  | case1 => cases hinner
  | case2 slash rest hslash _ hread =>
    cases hinner
    exact (stopsFrom_readOption hread).append (run_kinds_singleton hslash hp.step_slash)
  | case3 slash rest hslash o after hread ih =>
    obtain ⟨used, q, hts, hrun, hq⟩ := exists_of_readOption hslash hp.step_slash hread
    rw [hts] at hend ⊢
    exact (ih (fun u hu => hend u (List.mem_append_right _ hu)) hq (map_eq_error.1 hinner)).append
      hrun
  | case4 t rest hslash =>
    cases hinner
    exact ⟨[], p, rfl, rfl, hp.refuses hslash (hend t List.mem_cons_self)⟩

/-! ### Whole lines -/

theorem stopsFrom_readCommand (hend : ∀ t ∈ ts, t.kind ≠ .terminal)
    (h : readCommand ts = .error stuck) : StopsFrom .start [] ts stuck := by
  refine stopsFrom_within h fun inner hinner => ?_
  rcases bind_eq_error.1 hinner with himperative | ⟨⟨imperative, after⟩, himperative, hbehind⟩
  · refine stopsFrom_within himperative fun inner' hword => ?_
    exact stopsFrom_expect (by decide) (Stage.step_eq_none_of_not_mem (by simp)) rfl hword
  · obtain ⟨rfl, hword⟩ := readWord_eq_ok.1 (within_eq_ok.1 himperative)
    have hend' := (List.forall_mem_cons.1 hend).2
    refine StopsFrom.append (run_kinds_singleton (q := .parameters) hword rfl) ?_
    rcases bind_eq_error.1 hbehind with hparameters | ⟨⟨parameters, rest⟩, hparameters, hbehind'⟩
    · exact stopsFrom_within hparameters fun _ => stopsFrom_readParameters hend'
    · obtain ⟨used, hyields, rfl, hslash⟩ := readParameters_eq_ok.1 (within_eq_ok.1 hparameters)
      refine StopsFrom.append (run_kinds_parameters hyields) ?_
      rcases bind_eq_error.1 hbehind' with hoptions | ⟨⟨options, rest'⟩, hoptions, hend⟩
      · exact stopsFrom_readOptions (fun t ht => hend' t (List.mem_append_right _ ht))
          (.parameters hslash) hoptions
      · -- options are read to the end, so nothing is left in front of it
        obtain ⟨-, rfl⟩ := readOptions_eq_ok.1 (within_eq_ok.1 hoptions)
        cases hend

/-- The token at fault is the first one that is left, the end of the line if none is. -/
theorem exists_headD_cons (rest : List Token) (terminal : Token) :
    ∃ after, rest ++ [terminal] = rest.headD terminal :: after
      ∧ (terminal.kind = .terminal → (rest.headD terminal).kind = nextKind rest) := by
  cases rest with
  | nil => exact ⟨[], rfl, id⟩
  | cons t rest => exact ⟨rest ++ [terminal], rfl, fun _ => rfl⟩

/-- **An error goes by the stage.** Where a line has no tree, the tokens in front of the error
lead to a stage that has no step for the token at fault, and the stage decides what is expected
and which rules are named. -/
theorem exists_stage_of_error {s : TokenStream} {e : GrammarError} (h : ofStream s = .error e) :
    ∃ used after q, s.tokens = used ++ e.found :: after ∧ used <+: s.body
      ∧ Stage.start.run (kinds used) = some q ∧ q.step e.found.kind = none
      ∧ e.expected = q.expected ∧ e.rules = q.rules ∧ e.line = s.line := by
  obtain ⟨stuck, hread, rfl⟩ := mapError_eq_error.1 h
  obtain ⟨used, q, hbody, hrun, hrefuses⟩ := stopsFrom_readCommand s.body_kind hread
  obtain ⟨after, hafter, hnext⟩ := exists_headD_cons stuck.rest s.terminal
  refine ⟨used, after, q, ?_, ⟨stuck.rest, hbody.symm⟩, hrun, ?_, hrefuses.expected_eq, ?_, rfl⟩
  · rw [TokenStream.tokens, hbody, List.append_assoc, hafter]
  · dsimp only
    rw [hnext s.terminal_kind]
    exact hrefuses.step_eq_none
  · rw [← List.append_nil stuck.rules]
    exact hrefuses.rules_eq

/-- A line has a tree just when its kinds lead from the start to the end. -/
theorem ofStream_isOk_iff {s : TokenStream} :
    (∃ t, ofStream s = .ok t) ↔ Stage.start.run (kinds s.tokens) = some .finished := by
  constructor
  · intro ⟨t, ht⟩
    exact (ofStream_eq_ok.1 ht).run_kinds
  · intro hrun
    cases h : ofStream s with
    | ok t => exact ⟨t, rfl⟩
    | error e =>
      obtain ⟨used, after, q, htokens, -, hused, hnone, -⟩ := exists_stage_of_error h
      have hfail : q.run (kinds (e.found :: after)) = none := by simp [kinds, hnone]
      rw [htokens, run_kinds_append hused hfail] at hrun
      cases hrun

/-- Going from stage to stage, there is one token at most that has no step. -/
theorem stop_unique {used used' after after' : List Token} {t t' : Token} {q' : Stage}
    (htokens : used ++ t :: after = used' ++ t' :: after')
    (hrun : p.run (kinds used) = some q) (hstep : q.step t.kind = none)
    (hrun' : p.run (kinds used') = some q') (hstep' : q'.step t'.kind = none) :
    used = used' ∧ t = t' ∧ q = q' := by
  induction used generalizing p used' with
  | nil =>
    cases hrun
    cases used' with
    | nil =>
      cases hrun'
      exact ⟨rfl, (List.cons.inj htokens).1, rfl⟩
    | cons u used' =>
      -- the other way goes on over the token that stops this one
      obtain ⟨rfl, -⟩ := List.cons.inj htokens
      simp [kinds, hstep] at hrun'
  | cons u used ih =>
    obtain ⟨r, hr, hrun⟩ := Option.bind_eq_some_iff.1 hrun
    cases used' with
    | nil =>
      obtain ⟨rfl, -⟩ := List.cons.inj htokens
      cases hrun'
      rw [hstep'] at hr
      cases hr
    | cons u' used' =>
      obtain ⟨rfl, htail⟩ := List.cons.inj htokens
      obtain ⟨r', hr', hrun'⟩ := Option.bind_eq_some_iff.1 hrun'
      rw [hr] at hr'
      cases hr'
      obtain ⟨rfl, rfl, rfl⟩ := ih htail hrun hrun'
      exact ⟨rfl, rfl, rfl⟩

/-- A token that the stage in front of it has no step for is an error there. -/
theorem ofStream_eq_error_of_stage {s : TokenStream} {after : List Token} {t : Token}
    (htokens : s.tokens = used ++ t :: after) (hrun : Stage.start.run (kinds used) = some q)
    (hstep : q.step t.kind = none) :
    ofStream s = .error ⟨s.line, t, q.expected, q.rules⟩ := by
  cases h : ofStream s with
  | ok tree =>
    have hfinished := ofStream_isOk_iff.1 ⟨tree, h⟩
    have hfail : q.run (kinds (t :: after)) = none := by simp [kinds, hstep]
    rw [htokens, run_kinds_append hrun hfail] at hfinished
    cases hfinished
  | error e =>
    obtain ⟨used', after', q', htokens', -, hrun', hstep', hexpected, hrules, hline⟩ :=
      exists_stage_of_error h
    obtain ⟨-, hfound, rfl⟩ := stop_unique (htokens.symm.trans htokens') hrun hstep hrun' hstep'
    rw [hfound, ← hexpected, ← hrules, ← hline]

end Tree

end CommandLine
