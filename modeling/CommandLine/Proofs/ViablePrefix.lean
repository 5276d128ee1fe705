import CommandLine.Proofs.Printer
import CommandLine.Proofs.Stages
/-!
# CommandLine.Proofs.ViablePrefix

**An error of grammar is at the first token that cannot go on.** The tokens in front of it
begin a line that has a tree, with the token at fault they begin none, and with each kind that
the error lists in its place they do again (`Tree.error_at_first_misplaced`).

Lines that go on as asked for are made from the line at hand: its characters up to the error
(`Token.Reads.exists_of_append`), and behind them, each with a blank in front, tokens of the
kinds that lead to the end (`Tree.Stage.exists_completion`).
-/

namespace CommandLine

/-- The line has a tree. -/
def TokenStream.Accepted (s : TokenStream) : Prop := ∃ t, Tree.ofStream s = .ok t

namespace Token

/-! ### The tokens of parts of a line -/

/-- Some first tokens are those of the characters that they stand for. -/
theorem Reads.exists_of_append {offset : Nat} {cs : List Char} {ts us : List Token}
    (h : Reads offset cs (ts ++ us)) :
    ∃ front back, cs = front ++ back ∧ Reads offset front ts := by
  cases us with
  | nil =>
    rw [List.append_nil] at h
    exact ⟨cs, [], (List.append_nil cs).symm, h⟩
  | cons u us =>
    obtain ⟨before, after, rfl, hbefore, -, -⟩ := h.exists_of_append_cons
    exact ⟨before, u.spelling ++ after, rfl, hbefore⟩

/-! ### A token of each kind -/

/-- A token of some kind that can be typed. -/
def ofKind (kind : Kind) : Token where
  kind := kind
  literal :=
    match kind with
    | .word => "a"
    | .text | .terminal => ""
    | .slash => "/"
    | .colon => ":"
    | .plus => "+"
    | .minus => "-"
  span := .empty 0

theorem proper_ofKind (kind : Kind) : (ofKind kind).Proper := by
  cases kind with
  | word => exact (proper_word 'a' [] _).2 ⟨rfl, nofun⟩
  | text => exact (proper_text [] _).2 List.not_mem_nil
  | _ => rfl

/-- Tokens of some kinds can be typed, each with a blank in front. -/
theorem exists_spells {ks : List Kind} (hks : ∀ k ∈ ks, k ≠ .terminal) :
    ∃ cs, Apart cs ∧ Spells cs (ks.map ofKind) := by
  induction ks with
  | nil => exact ⟨[], apart_nil, .done⟩
  | cons k ks ih =>
    obtain ⟨hk, hks⟩ := List.forall_mem_cons.1 hks
    obtain ⟨cs, hapart, hspells⟩ := ih hks
    exact ⟨' ' :: ((ofKind k).spelling ++ cs), apart_cons.2 rfl,
      .blank (.token hk (proper_ofKind k) (fun _ => hapart) hspells)⟩

theorem kinds_unplaced (ts : List Token) : kinds (ts.map unplaced) = kinds ts := by
  rw [kinds, List.map_map]
  rfl

theorem kinds_ofKind (ks : List Kind) : kinds (ks.map ofKind) = ks := by
  rw [kinds, List.map_map]
  exact List.map_id ks

end Token

open Token (kinds)

/-- A line can be cut behind some of its tokens and go on with tokens of any kinds. -/
theorem TokenStream.exists_goingOn {line : String} {s : TokenStream} {used : List Token}
    {ks : List Token.Kind} (hs : tokenize line = .ok s) (hbody : used <+: s.body)
    (hks : ∀ k ∈ ks, k ≠ .terminal) :
    ∃ line' s' more, tokenize line' = .ok s' ∧ s'.body = used ++ more ∧ kinds more = ks := by
  have hreads := Token.scan_eq_ok_iff.1 (TokenStream.of_tokenize hs).1
  obtain ⟨rest, hrest⟩ := hbody
  rw [← hrest] at hreads
  obtain ⟨front, back, -, hfront⟩ := hreads.exists_of_append
  obtain ⟨cs, hapart, hspells⟩ := Token.exists_spells hks
  obtain ⟨more, hmore, hunplaced⟩ := hspells.exists_reads (0 + Text.byteLength front)
  have hscan : Token.scan 0 (String.ofList (front ++ cs)).toList = .ok (used ++ more) := by
    rw [String.toList_ofList]
    exact Token.scan_eq_ok_iff.2 (hfront.append hapart hmore)
  obtain ⟨s', hs', hbody'⟩ := TokenStream.exists_of_scan hscan
  refine ⟨_, s', more, hs', hbody', ?_⟩
  rw [← Token.kinds_unplaced, hunplaced, Token.kinds_unplaced, Token.kinds_ofKind]

namespace Tree

/-! ### Ways to the end -/

namespace Stage

variable {p q : Stage} {k : Token.Kind} {ks : List Token.Kind}

/-- The end of the line leads behind everything. -/
theorem eq_finished_of_step (h : p.step .terminal = some q) : q = .finished := by
  revert h
  cases p <;> cases q <;> decide

/-- From every stage there is a way to the end: a word is all that can be missing. -/
theorem exists_completion (hp : p ≠ .finished) :
    ∃ ks, (∀ k ∈ ks, k ≠ .terminal) ∧ p.run (ks ++ [.terminal]) = some .finished := by
  cases p with
  | parameters | named | valued => exact ⟨[], nofun, rfl⟩
  | start | marked | slashed | coloned => exact ⟨[.word], by decide, rfl⟩
  | finished => exact absurd rfl hp

/-- With a kind that can stand next, there is a way to the end that begins with it. -/
theorem exists_completion_of_step (h : (p.step k).isSome) :
    ∃ ks more, (∀ l ∈ ks, l ≠ .terminal) ∧ p.run (ks ++ [.terminal]) = some .finished
      ∧ ks ++ [.terminal] = k :: more ∧ (k = .terminal → more = []) := by
  obtain ⟨q, hq⟩ := Option.isSome_iff_exists.1 h
  by_cases hk : k = .terminal
  · subst hk
    obtain rfl := eq_finished_of_step hq
    exact ⟨[], [], nofun, by rw [List.nil_append, run_cons, hq]; rfl, rfl, fun _ => rfl⟩
  · obtain ⟨ks, hks, hrun⟩ := exists_completion (ne_finished_of_step hk hq)
    refine ⟨k :: ks, ks ++ [.terminal], List.forall_mem_cons.2 ⟨hk, hks⟩, ?_, rfl,
      fun heq => absurd heq hk⟩
    rw [List.cons_append, run_cons, hq]
    exact hrun

end Stage

/-! ### Lines that go on behind some tokens -/

section

variable {line : String} {s : TokenStream} {used : List Token} {q : Stage}
  {ks : List Token.Kind}

/-- A way from the stage of some tokens to the end gives a line that begins with them and has a
tree. -/
theorem exists_accepted (hs : tokenize line = .ok s) (hbody : used <+: s.body)
    (hused : Stage.start.run (kinds used) = some q) (hks : ∀ k ∈ ks, k ≠ .terminal)
    (hrun : q.run (ks ++ [.terminal]) = some .finished) :
    ∃ line' s' more, tokenize line' = .ok s' ∧ s'.Accepted ∧ s'.tokens = used ++ more
      ∧ kinds more = ks ++ [.terminal] := by
  obtain ⟨line', s', more, hs', hbody', hmore⟩ := TokenStream.exists_goingOn hs hbody hks
  have htokens : s'.tokens = used ++ (more ++ [s'.terminal]) := by
    rw [TokenStream.tokens, hbody', List.append_assoc]
  have hkinds : kinds (more ++ [s'.terminal]) = ks ++ [.terminal] := by
    rw [← hmore, ← s'.terminal_kind, kinds, List.map_append]
    rfl
  refine ⟨line', s', more ++ [s'.terminal], hs', ?_, htokens, hkinds⟩
  refine ofStream_isOk_iff.2 ?_
  rw [htokens]
  exact run_kinds_append hused (by rw [hkinds, hrun])

/-- No line that has a tree goes on where the stage has no step. -/
theorem not_accepted_of_step (hused : Stage.start.run (kinds used) = some q)
    {k : Token.Kind} (hk : q.step k = none) {s' : TokenStream} (h : s'.Accepted) :
    ¬kinds used ++ [k] <+: kinds s'.tokens := by
  intro ⟨more, hmore⟩
  have hrun := ofStream_isOk_iff.1 h
  have hnone : q.run (k :: more) = none := by rw [Stage.run_cons, hk]; rfl
  rw [← hmore, List.append_assoc, List.singleton_append, Stage.run_append hused hnone] at hrun
  cases hrun

end

/-- **An error is at the first token that cannot stand where it stands.** Some line that has a
tree begins with the tokens in front of it. None begins with these kinds of tokens and the kind
of the token at fault. The kinds that the error lists are others, and with each of them in the
place of the token there is such a line; one that is complete there, if the end of the line is
listed. -/
theorem error_at_first_misplaced {line : String} {s : TokenStream} {e : GrammarError}
    (hs : tokenize line = .ok s) (he : ofStream s = .error e) :
    ∃ j, ∃ hj : j < s.tokens.length, e.found = s.tokens[j]
      ∧ (∃ line' s', tokenize line' = .ok s' ∧ s'.Accepted ∧ s.tokens.take j <+: s'.tokens)
      ∧ (∀ s' : TokenStream, s'.Accepted →
        ¬kinds (s.tokens.take j) ++ [e.found.kind] <+: kinds s'.tokens)
      ∧ e.found.kind ∉ e.expected
      ∧ ∀ k ∈ e.expected, ∃ line' s', tokenize line' = .ok s' ∧ s'.Accepted
        ∧ kinds (s.tokens.take j) ++ [k] <+: kinds s'.tokens
        ∧ (k = .terminal → kinds s'.tokens = kinds (s.tokens.take j) ++ [k]) := by
  obtain ⟨used, after, q, htokens, hbody, hrun, hnone, hexpected, -⟩ := exists_stage_of_error he
  have htake : s.tokens.take used.length = used := by rw [htokens, List.take_left]
  have hsome (k : Token.Kind) (hk : k ∈ e.expected) : (q.step k).isSome :=
    Stage.isSome_step_of_mem_expected (hexpected ▸ hk)
  refine ⟨used.length, by simp [htokens], by simp [htokens], ?_⟩
  rw [htake]
  refine ⟨?_, fun s' => not_accepted_of_step hrun hnone, fun hmem => ?_, fun k hk => ?_⟩
  · have hused : ∀ k ∈ kinds used, k ≠ .terminal :=
      List.forall_mem_map.2 fun t ht => s.body_kind t (hbody.subset ht)
    have hends : q ≠ .finished := Stage.ne_finished_of_run Stage.noConfusion hused hrun
    obtain ⟨ks, hks, hcompletion⟩ := Stage.exists_completion hends
    obtain ⟨line', s', more, hs', haccepted, htokens', -⟩ :=
      exists_accepted hs hbody hrun hks hcompletion
    exact ⟨line', s', hs', haccepted, more, htokens'.symm⟩
  · have := hsome _ hmem
    rw [hnone] at this
    cases this
  · obtain ⟨ks, tail, hks, hcompletion, htail, hterminal⟩ :=
      Stage.exists_completion_of_step (hsome k hk)
    obtain ⟨line', s', more, hs', haccepted, htokens', hmore⟩ :=
      exists_accepted hs hbody hrun hks hcompletion
    have hkinds : kinds s'.tokens = kinds used ++ k :: tail := by
      rw [htokens', ← htail, ← hmore, kinds, List.map_append]
      rfl
    refine ⟨line', s', hs', haccepted, ⟨tail, ?_⟩, fun heq => ?_⟩
    · rw [hkinds, List.append_assoc]
      rfl
    · rw [hkinds, hterminal heq]

/-- The tokens of `tag 7 +/x`, where an option begins behind the mark of a parameter. -/
def openMark : TokenStream where
  line := "tag 7 +/x"
  body := [⟨.word, "tag", ⟨0, 3⟩⟩, ⟨.word, "7", ⟨4, 5⟩⟩, ⟨.plus, "+", ⟨6, 7⟩⟩,
    ⟨.slash, "/", ⟨7, 8⟩⟩, ⟨.word, "x", ⟨8, 9⟩⟩]
  terminal := ⟨.terminal, "", .empty 9⟩
  body_kind := by decide
  terminal_kind := rfl

/-- The slash is at fault, and a text or a word could stand in its place. -/
theorem error_at_openMark :
    tokenize "tag 7 +/x" = .ok openMark
      ∧ ofStream openMark = .error ⟨"tag 7 +/x", ⟨.slash, "/", ⟨7, 8⟩⟩, [.text, .word],
        [.text, .parameter, .parameterList, .command]⟩
      ∧ ∀ k ∈ [Token.Kind.text, .word], ∃ line' s', tokenize line' = .ok s' ∧ s'.Accepted
        ∧ [.word, .word, .plus, k] <+: kinds s'.tokens := by
  have hs : tokenize "tag 7 +/x" = .ok openMark := by decide +kernel
  have he : ofStream openMark = .error ⟨"tag 7 +/x", ⟨.slash, "/", ⟨7, 8⟩⟩, [.text, .word],
      [.text, .parameter, .parameterList, .command]⟩ := by decide +kernel
  obtain ⟨j, hj, hfound, -, -, -, hexpected⟩ := error_at_first_misplaced hs he
  have hplace : ∀ i : Fin 6, (⟨.slash, "/", ⟨7, 8⟩⟩ : Token) = openMark.tokens[i] → i = 3 := by
    decide
  obtain rfl : j = 3 := congrArg Fin.val (hplace ⟨j, hj⟩ hfound)
  refine ⟨hs, he, fun k hk => ?_⟩
  obtain ⟨line', s', hs', haccepted, hbegins, -⟩ := hexpected k hk
  exact ⟨line', s', hs', haccepted, hbegins⟩

end Tree

end CommandLine
