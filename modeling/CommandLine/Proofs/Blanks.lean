import CommandLine.Proofs.Relabelling
import CommandLine.Proofs.Splicing
import CommandLine.Proofs.Stations
/-!
# CommandLine.Proofs.Blanks

**Blanks between tokens mean nothing.** At a byte that is not inside of a token a line can be
widened by any number of blanks. The tokens behind that byte move, and that is all that becomes
of it: tree, command and errors are what they were, up to the places of tokens
(`blanks_mean_nothing`).

The byte need not be one at which a character begins; that it is follows, since a line has
nothing but blanks outside of its tokens (`Token.Reads.exists_of_gap`).
-/

namespace CommandLine

namespace Token

open Text (byteLength byteLength_append byteLength_cons)

/-- The token, `k` bytes further back if it begins at byte `p` or behind it. -/
def movedFrom (p k : Nat) (t : Token) : Token :=
  if p ≤ t.span.start then t.moved k else t

@[simp] theorem kind_movedFrom (p k : Nat) (t : Token) : (t.movedFrom p k).kind = t.kind := by
  unfold movedFrom
  split <;> rfl

@[simp] theorem literal_movedFrom (p k : Nat) (t : Token) :
    (t.movedFrom p k).literal = t.literal := by
  unfold movedFrom
  split <;> rfl

variable {offset p : Nat} {cs : List Char} {t : Token} {ts : List Token}

theorem movedFrom_of_le (h : p ≤ t.span.start) (k : Nat) : t.movedFrom p k = t.moved k := if_pos h

theorem movedFrom_of_lt (h : t.span.start < p) (k : Nat) : t.movedFrom p k = t :=
  if_neg (Nat.not_le_of_lt h)

/-- A byte that is not inside of a token is one at which a character begins. It parts the line,
and with it the tokens. -/
theorem Reads.exists_of_gap (h : Reads offset cs ts) (hle : offset ≤ p)
    (hp : p ≤ offset + byteLength cs) (hgap : ∀ t ∈ ts, ¬(t.span.start < p ∧ p < t.span.stop)) :
    ∃ front back us vs, cs = front ++ back ∧ ts = us ++ vs ∧ p = offset + byteLength front
      ∧ Reads offset front us ∧ Reads p back vs := by
  have hblank : ' '.utf8Size = 1 := rfl
  induction h with
  | done => exact ⟨[], [], [], [], rfl, rfl, by simpa using Nat.le_antisymm hp hle, .done, .done⟩
  | @blank offset cs ts h ih =>
    by_cases heq : p = offset
    · subst heq
      exact ⟨[], ' ' :: cs, [], ts, rfl, rfl, rfl, .done, .blank h⟩
    · have hlt : offset + 1 ≤ p := by omega
      have hle' : p ≤ offset + 1 + byteLength cs := by
        rw [byteLength_cons, hblank] at hp
        omega
      obtain ⟨front, back, us, vs, rfl, rfl, rfl, hfront, hback⟩ := ih hlt hle' hgap
      refine ⟨' ' :: front, back, us, vs, rfl, rfl, ?_, .blank hfront, hback⟩
      rw [byteLength_cons, hblank]
      omega
  | @token offset t after ts hnext h ih =>
    by_cases heq : p = offset
    · subst heq
      exact ⟨[], t.spelling ++ after, [], t :: ts, rfl, rfl, rfl, .done, .token hnext h⟩
    · obtain ⟨hgap, hgaps⟩ := List.forall_mem_cons.1 hgap
      -- behind the start of the token, so not before its end
      have hstop : t.span.stop = offset + byteLength t.spelling := congrArg Span.stop hnext.span_eq
      have hstart : t.span.start = offset := congrArg Span.start hnext.span_eq
      have hlt : t.span.stop ≤ p := by omega
      have hle' : p ≤ t.span.stop + byteLength after := by
        rw [byteLength_append] at hp
        omega
      obtain ⟨front, back, us, vs, rfl, rfl, hpos, hfront, hback⟩ := ih hlt hle' hgaps
      refine ⟨t.spelling ++ front, back, t :: us, vs, by rw [List.append_assoc], rfl, ?_,
        .token ?_ hfront, hback⟩
      · rw [byteLength_append]
        omega
      · exact { hnext with munch := fun hword => (hnext.munch hword).of_append }

/-- Blanks in a gap push back the tokens behind it. -/
theorem Reads.fill_gap {front back : List Char} {us vs : List Token} (hfront : Reads offset front us)
    (hback : Reads p back vs) (hp : p = offset + byteLength front)
    (h : Reads offset (front ++ back) (us ++ vs)) (k : Nat) :
    Reads offset (front ++ (List.replicate k ' ' ++ back)) ((us ++ vs).map (movedFrom p k)) := by
  have hstay : ∀ u ∈ us, u.movedFrom p k = u := by
    intro u hu
    have := hfront.inside hu
    exact movedFrom_of_lt (by omega) k
  have hmove : ∀ v ∈ vs, v.movedFrom p k = v.moved k :=
    fun v hv => movedFrom_of_le (hback.inside hv).1 k
  have hus : us.map (movedFrom p k) = us := (List.map_congr_left hstay).trans (List.map_id us)
  have hvs : vs.map (movedFrom p k) = vs.map (Token.moved k) := List.map_congr_left hmove
  rw [List.map_append, hus, hvs]
  cases k with
  | zero =>
    have hmoved : vs.map (Token.moved 0) = vs := List.map_id vs
    rw [hmoved]
    exact h
  | succ k =>
    refine hfront.append (apart_cons.2 rfl) (.blanks ?_)
    rw [← hp]
    exact hback.moved (k + 1)

end Token

namespace TokenStream

open Text (byteLength byteLength_append byteLength_cons)

theorem byteLength_blanks (k : Nat) : byteLength (List.replicate k ' ') = k := by
  have hblank : ' '.utf8Size = 1 := rfl
  induction k with
  | zero => rfl
  | succ k ih =>
    rw [List.replicate_succ, byteLength_cons, ih, hblank]
    omega

/-- Blanks in a gap of a line push back its tokens, and its end. -/
theorem exists_fill_gap {line : String} {s : TokenStream} {p : Nat} (hs : tokenize line = .ok s)
    (hp : p ≤ line.utf8ByteSize) (hgap : ∀ t ∈ s.tokens, ¬(t.span.start < p ∧ p < t.span.stop))
    (k : Nat) :
    ∃ front back s', (Span.empty p).Delimits line front [] back
      ∧ tokenize (Text.splice line (.empty p) (List.replicate k ' ')) = .ok s'
      ∧ s'.body = s.body.map (Token.movedFrom p k)
      ∧ s'.terminal = s.terminal.movedFrom p k := by
  obtain ⟨hscan, hterminal, -⟩ := of_tokenize hs
  have hreads := Token.scan_eq_ok_iff.1 hscan
  rw [Text.utf8ByteSize_eq] at hp
  obtain ⟨front, back, us, vs, hline, hbody, hpos, hfront, hback⟩ :=
    hreads.exists_of_gap (Nat.zero_le p) (by rwa [Nat.zero_add])
      fun t ht => hgap t (List.mem_append_left _ ht)
  have hdelimits : (Span.empty p).Delimits line front [] back := by
    rw [Nat.zero_add] at hpos
    exact ⟨hline, hpos, hpos⟩
  have hlist := hdelimits.toList_splice (List.replicate k ' ')
  rw [hline, hbody] at hreads
  have hscan' : Token.scan 0 (Text.splice line (.empty p) (List.replicate k ' ')).toList
      = .ok (s.body.map (Token.movedFrom p k)) := by
    rw [hlist, hbody]
    exact Token.scan_eq_ok_iff.2 (hfront.fill_gap hback hpos hreads k)
  obtain ⟨s', hs', hbody'⟩ := exists_of_scan hscan'
  have hsize : byteLength (front ++ (List.replicate k ' ' ++ back))
      = byteLength line.toList + k := by
    rw [hline]
    simp only [byteLength_append, byteLength_blanks]
    omega
  have hmoved : s.terminal.movedFrom p k = s.terminal.moved k := by
    rw [hterminal]
    exact Token.movedFrom_of_le hp k
  refine ⟨front, back, s', hdelimits, hs', hbody', ?_⟩
  rw [hmoved, hterminal, (of_tokenize hs').2.1, hlist, hsize]
  rfl

end TokenStream

/-- **Blanks between tokens mean nothing.** Where a line has tokens, any number of blanks can be
put at any byte that is not inside of one of them. The line has the same tokens then, those from
that byte on moved; it has the same bare command, or the same error of grammar at the same token;
and every decoder makes the same of it. -/
theorem blanks_mean_nothing {line line' : String} {s : TokenStream} {p k : Nat}
    (hs : tokenize line = .ok s) (hp : p ≤ line.utf8ByteSize)
    (hgap : ∀ t ∈ s.tokens, ¬(t.span.start < p ∧ p < t.span.stop))
    (hline' : line' = Text.splice line (.empty p) (List.replicate k ' ')) :
    line'.toUTF8 = line.toUTF8.extract 0 p ++ (List.replicate k ' ').utf8Encode
        ++ line.toUTF8.extract p line.utf8ByteSize
      ∧ (∃ s', tokenize line' = .ok s' ∧ s'.tokens = s.tokens.map (Token.movedFrom p k))
      ∧ (∀ b, parse line = .ok b ↔ parse line' = .ok b)
      ∧ (∀ e, parse line = .error (.grammatical e) → parse line' =
        .error (.grammatical { e with line := line', found := e.found.movedFrom p k }))
      ∧ ∀ (α : Type) (d : Decoder α),
        (∀ a, assemble d line = .ok a ↔ assemble d line' = .ok a)
          ∧ ∀ e, e.isSyntax = false →
            (assemble d line = .error e ↔ assemble d line' = .error e) := by
  obtain ⟨front, back, s', hdelimits, hs', hbody, hterminal⟩ :=
    TokenStream.exists_fill_gap hs hp hgap k
  rw [← hline'] at hs'
  have hfront : s'.line = line' := (TokenStream.of_tokenize hs').2.2
  obtain ⟨htree, herror⟩ := Tree.ofStream_map (Token.kind_movedFrom p k) hbody hterminal
  rw [hfront] at herror
  have hparse : ∀ b, parse line = .ok b ↔ parse line' = .ok b := by
    intro b
    rw [parse_of_tokenize hs, parse_of_tokenize hs']
    cases h : Tree.ofStream s with
    | ok t =>
      have hmap : BareCommand.ofTree (t.map (Token.movedFrom p k)) = BareCommand.ofTree t :=
        Tree.ofTree_map (Token.literal_movedFrom p k) t
      rw [htree t h]
      simp only [Except.mapError, Except.map, hmap]
    | error e =>
      rw [herror e h]
      exact ⟨nofun, nofun⟩
  refine ⟨?_, ⟨s', hs', ?_⟩, hparse, fun e he => ?_, fun α d => assemble_congr hparse⟩
  · rw [hline']
    exact hdelimits.toUTF8_splice _
  · rw [TokenStream.tokens, TokenStream.tokens, hbody, hterminal, List.map_append]
    rfl
  · rw [parse_of_tokenize hs, map_eq_error, mapError_eq_error] at he
    obtain ⟨e', he', heq⟩ := he
    cases heq
    rw [parse_of_tokenize hs', herror e he']
    rfl

/-- The tokens of `add "é":x`, where a colon stands behind a parameter. -/
def colonBehindText : TokenStream where
  line := "add \"é\":x"
  body := [⟨.word, "add", ⟨0, 3⟩⟩, ⟨.text, "é", ⟨4, 8⟩⟩, ⟨.colon, ":", ⟨8, 9⟩⟩, ⟨.word, "x", ⟨9, 10⟩⟩]
  terminal := ⟨.terminal, "", .empty 10⟩
  body_kind := by decide
  terminal_kind := rfl

/-- With two blanks in front of the colon, the error moves along with it. -/
theorem blanks_before_colon :
    tokenize "add \"é\":x" = .ok colonBehindText
      ∧ (∀ t ∈ colonBehindText.tokens, ¬(t.span.start < 8 ∧ 8 < t.span.stop))
      ∧ parse "add \"é\"  :x" = .error (.grammatical ⟨"add \"é\"  :x", ⟨.colon, ":", ⟨10, 11⟩⟩,
        [.text, .word], [.text, .parameter, .parameterList, .command]⟩) := by
  have hs : tokenize "add \"é\":x" = .ok colonBehindText := by decide +kernel
  have hgap : ∀ t ∈ colonBehindText.tokens, ¬(t.span.start < 8 ∧ 8 < t.span.stop) := by decide
  have he : parse "add \"é\":x" = .error (.grammatical ⟨"add \"é\":x", ⟨.colon, ":", ⟨8, 9⟩⟩,
      [.text, .word], [.text, .parameter, .parameterList, .command]⟩) := by decide +kernel
  have hline' : "add \"é\"  :x" = Text.splice "add \"é\":x" (.empty 8) (List.replicate 2 ' ') := by
    decide +kernel
  have hp : 8 ≤ "add \"é\":x".utf8ByteSize := by decide +kernel
  exact ⟨hs, hgap, (blanks_mean_nothing hs hp hgap hline').2.2.2.1 _ he⟩

end CommandLine
