import Mathlib.Control.Monad.Basic
import CommandLine.Proofs.Cursor
import CommandLine.Proofs.Yield
/-!
# CommandLine.Proofs.Progress

**The cursor always gets on.** A reader with a cursor could look behind the end of the line, or go
round a loop that takes nothing. `Cursor.walkOver` does neither: its log is a `Trail`, in which
every look is at a token of the line and every round of a loop leads forward, so an allowance of as
many rounds as there are tokens is never used up.

That the walk is the reading of `Tree.Parser` is proved along with it. `Follows` says both of one
stretch: the log is a trail, and what came of the stretch is what the reader of lists makes of the
tokens from the cursor on. Every rule keeps this up because its parts do.
-/

namespace CommandLine

namespace TokenStream

variable {s : TokenStream} {p : Nat}

/-- The end of the line is the token at every index behind it. -/
theorem getElem?_min (s : TokenStream) (p : Nat) :
    s.tokens[min p s.body.length]? = some (s.get p) := by
  rcases Nat.lt_or_ge p s.body.length with hlt | hge
  · rw [Nat.min_eq_left (Nat.le_of_lt hlt), tokens, List.getElem?_append_left hlt]
    simp [get, hlt]
  · rw [Nat.min_eq_right hge]
    simp [tokens, get, hge]

/-- Up to the end of the line, the token at an index is that of the line. -/
theorem getElem?_eq_get (hp : p ≤ s.body.length) : s.tokens[p]? = some (s.get p) := by
  rw [← s.getElem?_min p, Nat.min_eq_left hp]

/-- At the end of the line nothing is left, and in front of it there is a token. -/
theorem drop_body_cases (hp : p ≤ s.body.length) :
    (p = s.body.length ∧ s.body.drop p = [] ∧ (s.get p).kind = .terminal)
      ∨ (p < s.body.length ∧ s.body.drop p = s.get p :: s.body.drop (p + 1)
        ∧ (s.get p).kind ≠ .terminal) := by
  rcases Nat.lt_or_eq_of_le hp with hlt | rfl
  · have hget : s.get p = s.body[p] := by simp [get, hlt]
    refine .inr ⟨hlt, ?_, ?_⟩
    · rw [hget]
      exact List.drop_eq_getElem_cons hlt
    · rw [hget]
      exact s.body_kind _ (List.getElem_mem hlt)
  · exact .inl ⟨rfl, List.drop_length, by simp [get, s.terminal_kind]⟩

end TokenStream

namespace Tree.Cursor

variable {s : TokenStream} {looping : Bool} {p q r : Nat} {log log' : List Event}

/-! ### Trails -/

/-- The log of a stretch from one position to another: looks at the token at the cursor, which is
on the line, steps by one token each, and, where there are loops, rounds that lead forward. -/
inductive Trail (s : TokenStream) : Bool → Nat → Nat → List Event → Prop
  | stay {looping : Bool} {p : Nat} : Trail s looping p p []
  | looked {looping : Bool} {p q : Nat} {log : List Event} (hp : p ≤ s.body.length)
      (rest : Trail s looping p q log) : Trail s looping p q (.looked p :: log)
  | took {looping : Bool} {p q : Nat} {log : List Event} (hp : p < s.body.length)
      (rest : Trail s looping (p + 1) q log) : Trail s looping p q (.took p :: log)
  | passed {name : Rule} {p q r : Nat} {round log : List Event} (hround : Trail s false p q round)
      (hpq : p < q) (rest : Trail s true q r log) :
      Trail s true p r (round ++ .passed name p q :: log)

namespace Trail

theorem le (h : Trail s looping p q log) : p ≤ q := by
  induction h with
  | stay => exact Nat.le_refl _
  | looked _ _ ih => exact ih
  | took _ _ ih => exact Nat.le_of_succ_le ih
  | passed _ hpq _ _ ih => exact Nat.le_trans (Nat.le_of_lt hpq) ih

theorem le_end (h : Trail s looping p q log) (hp : p ≤ s.body.length) : q ≤ s.body.length := by
  induction h with
  | stay => exact hp
  | looked _ _ ih => exact ih hp
  | took hlt _ ih => exact ih hlt
  | passed _ _ _ ihround ih => exact ih (ihround hp)

theorem append (h : Trail s looping p q log) (h' : Trail s looping q r log') :
    Trail s looping p r (log ++ log') := by
  induction h with
  | stay => exact h'
  | looked hp _ ih => exact .looked hp (ih h')
  | took hp _ ih => exact .took hp (ih h')
  | passed hround hpq _ _ ih =>
    rw [List.append_assoc]
    exact .passed hround hpq (ih h')

/-- A stretch without loops is one in which there may be some. -/
theorem weaken (h : Trail s looping p q log) : Trail s true p q log := by
  induction h with
  | stay => exact .stay
  | looked hp _ ih => exact .looked hp ih
  | took hp _ ih => exact .took hp ih
  | passed hround hpq _ _ ih => exact .passed hround hpq ih

/-- Every look is at a token of the line. -/
theorem le_of_looked (h : Trail s looping p q log) :
    ∀ i ∈ log.filterMap Event.looked?, i ≤ s.body.length := by
  induction h with
  | stay => simp
  | looked hp _ ih => exact List.forall_mem_cons.2 ⟨hp, ih⟩
  | took _ _ ih => exact ih
  | passed _ _ _ ihround ih =>
    rw [List.filterMap_append]
    exact List.forall_mem_append.2 ⟨ihround, ih⟩

/-- The tokens from the first position up to the last one are taken, in order, and no others. -/
theorem taken_eq (h : Trail s looping p q log) :
    log.filterMap Event.took? = List.range' p (q - p) := by
  induction h with
  | stay => simp
  | looked _ _ ih => exact ih
  | @took _ p q log _ rest ih =>
    have hle := rest.le
    have hlength : q - p = q - (p + 1) + 1 := by omega
    rw [hlength, List.range'_succ, ← ih]
    rfl
  | @passed _ p q r round log hround hpq rest ihround ih =>
    have hle := rest.le
    have hlength : r - p = (q - p) + (r - q) := by omega
    have hmiddle : q = p + (q - p) := by omega
    rw [List.filterMap_append, ihround, hlength, ← List.range'_append_1, ← hmiddle]
    exact congrArg _ ih

/-- Where there is no loop, no round is noted. -/
theorem passes_eq_nil (h : Trail s looping p q log) (hlooping : looping = false) :
    log.filterMap Event.passed? = [] := by
  induction h with
  | stay => rfl
  | looked _ _ ih => exact ih hlooping
  | took _ _ ih => exact ih hlooping
  | passed => cases hlooping

theorem passes_append (hround : Trail s false p q log) (name : Rule) :
    (log ++ .passed name p q :: log').filterMap Event.passed?
      = (p, q) :: log'.filterMap Event.passed? := by
  rw [List.filterMap_append, hround.passes_eq_nil rfl]
  rfl

/-- Every round of a loop leads forward. -/
theorem lt_of_passed (h : Trail s looping p q log) :
    ∀ pass ∈ log.filterMap Event.passed?, pass.1 < pass.2 := by
  induction h with
  | stay => simp
  | looked _ _ ih => exact ih
  | took _ _ ih => exact ih
  | passed hround hpq _ _ ih =>
    rw [hround.passes_append]
    exact List.forall_mem_cons.2 ⟨hpq, ih⟩

/-- There are not more rounds than tokens taken. -/
theorem length_passes_le (h : Trail s looping p q log) :
    (log.filterMap Event.passed?).length ≤ q - p := by
  induction h with
  | stay => simp
  | looked _ _ ih => exact ih
  | took _ _ ih => exact Nat.le_trans ih (by omega)
  | passed hround hpq rest _ ih =>
    have hle := rest.le
    rw [hround.passes_append, List.length_cons]
    omega

/-- The cursor stays between the ends of the stretch. -/
theorem positions_between (h : Trail s looping p q log) :
    ∀ i ∈ log.map Event.position, p ≤ i ∧ i ≤ q := by
  induction h with
  | stay => simp
  | looked _ rest ih => exact List.forall_mem_cons.2 ⟨⟨Nat.le_refl _, rest.le⟩, ih⟩
  | took _ rest ih =>
    refine List.forall_mem_cons.2 ⟨⟨Nat.le_succ _, rest.le⟩, fun i hi => ?_⟩
    exact ⟨Nat.le_of_succ_le (ih i hi).1, (ih i hi).2⟩
  | passed _ hpq rest ihround ih =>
    have hle := rest.le
    rw [List.map_append, List.map_cons]
    refine List.forall_mem_append.2 ⟨fun i hi => ?_, List.forall_mem_cons.2 ⟨?_, fun i hi => ?_⟩⟩
    · exact ⟨(ihround i hi).1, Nat.le_trans (ihround i hi).2 hle⟩
    · exact ⟨Nat.le_of_lt hpq, hle⟩
    · exact ⟨Nat.le_trans (Nat.le_of_lt hpq) (ih i hi).1, (ih i hi).2⟩

/-- The cursor never goes back. -/
theorem positions_sorted (h : Trail s looping p q log) :
    (log.map Event.position).Pairwise (· ≤ ·) := by
  induction h with
  | stay => exact .nil
  | looked _ rest ih => exact .cons (fun i hi => (rest.positions_between i hi).1) ih
  | took _ rest ih => exact .cons (fun i hi => (rest.positions_between i hi).1) ih
  | passed hround _ rest ihround ih =>
    have hrest := fun i hi => (rest.positions_between i hi).1
    rw [List.map_append, List.map_cons]
    refine List.pairwise_append.2 ⟨ihround, .cons hrest ih, fun i hi j hj => ?_⟩
    have hi := (hround.positions_between i hi).2
    rcases List.mem_cons.1 hj with rfl | hj
    · exact hi
    · exact Nat.le_trans hi (hrest j hj)

end Trail

/-! ### Walks and readings -/

/-- In front of the end of the line, the cursor moves on by one token. -/
theorem advance_eq (hkind : (s.get p).kind ≠ .terminal) :
    advance s p = ⟨.ok (s.get p), p + 1, [.looked p, .took p]⟩ := if_neg hkind

/-- A walk from a position on leaves a trail and comes to what a reading of the tokens left there
comes to: the same result with the same tokens left, or the same error. -/
inductive Follows {α : Type} (s : TokenStream) (looping : Bool) (p : Nat) :
    Walk α → Except Stuck (α × List Token) → Prop
  | done {a : α} {q : Nat} {log : List Event} (trail : Trail s looping p q log) :
      Follows s looping p ⟨.ok a, q, log⟩ (.ok (a, s.body.drop q))
  | stuck {kinds : List Token.Kind} {rules : List Rule} {q : Nat} {log : List Event}
      (trail : Trail s looping p q log) :
      Follows s looping p ⟨.error (.error ⟨s.line, s.get q, kinds, rules⟩), q, log⟩
        (.error ⟨kinds, rules, s.body.drop q⟩)

variable {α β : Type} {walk : Walk α} {reading : Except Stuck (α × List Token)}

namespace Follows

theorem exists_of_ok {a : α} {rest : List Token} (h : Follows s looping p walk (.ok (a, rest))) :
    ∃ q log, walk = ⟨.ok a, q, log⟩ ∧ rest = s.body.drop q ∧ Trail s looping p q log := by
  generalize hreading : Except.ok (a, rest) = reading at h
  cases h with
  | done trail =>
    cases hreading
    exact ⟨_, _, rfl, rfl, trail⟩
  | stuck => cases hreading

theorem exists_of_error {stuck : Stuck} (h : Follows s looping p walk (.error stuck)) :
    ∃ q log, walk = ⟨.error (.error ⟨s.line, s.get q, stuck.expected, stuck.rules⟩), q, log⟩
      ∧ stuck.rest = s.body.drop q ∧ Trail s looping p q log := by
  cases h with
  | stuck trail => exact ⟨_, _, rfl, rfl, trail⟩

theorem weaken (h : Follows s looping p walk reading) : Follows s true p walk reading := by
  cases h with
  | done trail => exact .done trail.weaken
  | stuck trail => exact .stuck trail.weaken

/-- What was done before may be told as part of the walk. -/
theorem prepend (htrail : Trail s looping p q log) (h : Follows s looping q walk reading) :
    Follows s looping p { walk with log := log ++ walk.log } reading := by
  cases h with
  | done trail => exact .done (htrail.append trail)
  | stuck trail => exact .stuck (htrail.append trail)

/-- One after the other. -/
theorem andThen {next : α → Nat → Walk β}
    {following : α × List Token → Except Stuck (β × List Token)}
    (h : Follows s looping p walk reading) (hp : p ≤ s.body.length)
    (hnext : ∀ a q, reading = .ok (a, s.body.drop q) → q ≤ s.body.length →
      Follows s looping q (next a q) (following (a, s.body.drop q))) :
    Follows s looping p (walk.andThen next) (reading.bind following) := by
  cases h with
  | done trail => exact (hnext _ _ rfl (trail.le_end hp)).prepend trail
  | stuck trail => exact .stuck trail

theorem map {walker : Walker α} (h : Follows s looping p (walker p) reading)
    (hp : p ≤ s.body.length) (f : α → β) :
    Follows s looping p ((do return f (← walker) : Walker β) p)
      (reading.map fun (a, rest) => (f a, rest)) :=
  h.andThen hp fun _ _ _ _ => .done .stay

theorem rule {walker : Walker α} (h : Follows s looping p (walker p) reading) (name : Rule) :
    Follows s looping p (Cursor.rule name walker p) (within name reading) := by
  unfold Cursor.rule
  revert h
  generalize walker p = walk
  intro h
  cases h with
  | done trail => exact .done trail
  | stuck trail => exact .stuck trail

/-- A look at the token at the cursor leads nowhere. -/
theorem peek {next : Token → Walker α} (hp : p ≤ s.body.length)
    (h : Follows s looping p (next (s.get p) p) reading) :
    Follows s looping p ((peek s >>= next) p) reading :=
  prepend (.looked hp .stay) h

/-- Taking a token leads behind it. -/
theorem advance {next : Token → Walker α} (hp : p < s.body.length)
    (hkind : (s.get p).kind ≠ .terminal)
    (h : Follows s looping (p + 1) (next (s.get p) (p + 1)) reading) :
    Follows s looping p ((advance s >>= next) p) reading := by
  have hbind : (Cursor.advance s >>= next) p = (Cursor.advance s p).andThen next := rfl
  rw [hbind, advance_eq hkind]
  exact prepend (.looked (Nat.le_of_lt hp) (.took hp .stay)) h

end Follows

/-! ### The rules without loops -/

/-- In front of the end of the line, a token is taken. -/
theorem follows_advance (hp : p < s.body.length) (hkind : (s.get p).kind ≠ .terminal) :
    Follows s looping p (advance s p) (.ok (s.get p, s.body.drop (p + 1))) := by
  rw [advance_eq hkind]
  exact .done (.looked (Nat.le_of_lt hp) (.took hp .stay))

theorem follows_unexpected (kinds : List Token.Kind) (hp : p ≤ s.body.length) :
    Follows s looping p (unexpected s kinds p : Walk α) (.error ⟨kinds, [], s.body.drop p⟩) :=
  .stuck (.looked hp .stay)

theorem follows_expect {kinds : List Token.Kind} (hkinds : .terminal ∉ kinds)
    (hp : p ≤ s.body.length) :
    Follows s looping p (expect s kinds p) (Tree.expect kinds (s.body.drop p)) := by
  refine Follows.peek hp ?_
  rcases s.drop_body_cases hp with ⟨-, hdrop, hkind⟩ | ⟨hlt, hdrop, hkind⟩
  · have hread : Tree.expect kinds (s.body.drop p) = .error ⟨kinds, [], s.body.drop p⟩ := by
      rw [hdrop]
      rfl
    rw [hread, if_neg (by rwa [hkind])]
    exact follows_unexpected kinds hp
  · by_cases hmem : (s.get p).kind ∈ kinds
    · have hread : Tree.expect kinds (s.body.drop p) = .ok (s.get p, s.body.drop (p + 1)) := by
        rw [hdrop, Tree.expect, if_pos hmem]
      rw [hread, if_pos hmem]
      exact follows_advance hlt hkind
    · have hread : Tree.expect kinds (s.body.drop p) = .error ⟨kinds, [], s.body.drop p⟩ := by
        rw [hdrop, Tree.expect, if_neg hmem]
      rw [hread, if_neg hmem]
      exact follows_unexpected kinds hp

/-- The end of the line is found just where nothing is left. -/
theorem follows_expect_end (hp : p ≤ s.body.length) :
    Follows s looping p (expect s [.terminal] p)
      ((expectEnd (s.body.drop p)).map fun _ => (s.get p, [])) := by
  refine Follows.peek hp ?_
  rcases s.drop_body_cases hp with ⟨-, hdrop, hkind⟩ | ⟨-, hdrop, hkind⟩
  · have hread : (expectEnd (s.body.drop p)).map (fun _ => (s.get p, []))
        = .ok (s.get p, s.body.drop p) := by
      rw [hdrop]
      rfl
    have hadvance : advance s p = Cursor.peek s p := if_pos hkind
    rw [hread, if_pos (by simp [hkind]), hadvance]
    exact .done (.looked hp .stay)
  · have hread : expectEnd (s.body.drop p) = .error ⟨[.terminal], [], s.body.drop p⟩ := by
      rw [hdrop]
      rfl
    rw [hread, if_neg (by simpa using hkind)]
    exact follows_unexpected _ hp

theorem follows_word (hp : p ≤ s.body.length) :
    Follows s looping p (word s p) (readWord (s.body.drop p)) :=
  (follows_expect (by decide) hp).rule .word

theorem follows_text (hp : p ≤ s.body.length) :
    Follows s looping p (text s p) (readText (s.body.drop p)) :=
  (follows_expect (by decide) hp).rule .text

theorem follows_imperative (hp : p ≤ s.body.length) :
    Follows s looping p (imperative s p) (readImperative (s.body.drop p)) :=
  (follows_word hp).rule .imperative

theorem follows_parameter (hp : p ≤ s.body.length) :
    Follows s looping p (parameter s p) (readParameter (s.body.drop p)) := by
  refine Follows.rule ?_ .parameter
  refine Follows.peek hp ?_
  rcases s.drop_body_cases hp with ⟨-, hdrop, hkind⟩ | ⟨hlt, hdrop, hkind⟩
  · have htake : takeMarking (s.body.drop p) = (.normal, s.body.drop p) := by
      rw [hdrop]
      rfl
    rw [htake, hkind]
    exact (follows_text hp).map hp (Parameter.mk .normal)
  · cases hmark : (s.get p).kind with
    | plus =>
      have htake : takeMarking (s.body.drop p) = (.additive, s.body.drop (p + 1)) := by
        simp [hdrop, takeMarking, hmark]
      rw [htake]
      exact .advance hlt hkind ((follows_text hlt).map hlt (Parameter.mk .additive))
    | minus =>
      have htake : takeMarking (s.body.drop p) = (.subtractive, s.body.drop (p + 1)) := by
        simp [hdrop, takeMarking, hmark]
      rw [htake]
      exact .advance hlt hkind ((follows_text hlt).map hlt (Parameter.mk .subtractive))
    | _ =>
      have htake : takeMarking (s.body.drop p) = (.normal, s.body.drop p) := by
        simp [hdrop, takeMarking, hmark]
      rw [htake]
      exact (follows_text hp).map hp (Parameter.mk .normal)

theorem follows_optionValue (hp : p ≤ s.body.length) :
    Follows s looping p (optionValue s p) (readValue (s.body.drop p)) := by
  refine Follows.peek hp ?_
  rcases s.drop_body_cases hp with ⟨-, hdrop, hkind⟩ | ⟨hlt, hdrop, hkind⟩
  · have hread : readValue (s.body.drop p) = .ok (none, s.body.drop p) := by
      rw [hdrop]
      rfl
    rw [hread, if_neg (by simp [hkind])]
    exact .done .stay
  · by_cases hcolon : (s.get p).kind = .colon
    · rw [hdrop, readValue, if_pos hcolon, if_pos hcolon]
      exact .advance hlt hkind ((follows_text hlt).map hlt some)
    · have hread : readValue (s.body.drop p) = .ok (none, s.body.drop p) := by
        rw [hdrop, readValue, if_neg hcolon]
      rw [hread, if_neg hcolon]
      exact .done .stay

theorem follows_option (hp : p ≤ s.body.length) :
    Follows s looping p (option s p) (readOption (s.body.drop p)) := by
  refine Follows.rule ?_ .option
  refine (follows_word hp).andThen hp fun name q _ hq => ?_
  exact (follows_optionValue hq).andThen hq fun _ _ _ _ => .done .stay

/-! ### Loops -/

/-- A reader of lists reads item by item: a reader of single items gives the next one, which takes
a token at least, or finds that there is none. -/
structure ReadsBy (read : List Token → Except Stuck (List α × List Token))
    (next : List Token → Except Stuck (Option α × List Token)) : Prop where
  eq_bind : ∀ ts, read ts = (next ts).bind fun x => match x with
    | (none, rest) => .ok ([], rest)
    | (some a, rest) => (read rest).map fun (as, rest) => (a :: as, rest)
  length_lt : ∀ {ts a rest}, next ts = .ok (some a, rest) → rest.length < ts.length

/-- A round that takes a token is noted as one that leads forward. -/
theorem follows_pass {round : Walker (Option α)}
    {reading : Except Stuck (Option α × List Token)} (name : Rule)
    (h : Follows s false p (round p) reading)
    (hforward : ∀ a q, reading = .ok (some a, s.body.drop q) → p < q) :
    Follows s true p (pass name round p) reading := by
  unfold pass
  revert h
  generalize round p = walk
  intro h
  cases h with
  | stuck trail => exact .stuck trail.weaken
  | @done item q log trail =>
    cases item with
    | none => exact .done trail.weaken
    | some a => exact .done (.passed trail (hforward a q rfl) .stay)

/-- If the readers of items agree, the loop follows the reader of lists, and an allowance of one
round more than there are tokens left is enough. -/
theorem follows_loop {read : List Token → Except Stuck (List α × List Token)}
    {next : List Token → Except Stuck (Option α × List Token)} {round : Walker (Option α)}
    (name : Rule) (hread : ReadsBy read next)
    (hround : ∀ p ≤ s.body.length, Follows s false p (round p) (next (s.body.drop p)))
    {allowance : Nat} (hp : p ≤ s.body.length) (hallowance : s.body.length - p < allowance) :
    Follows s true p (loop name round allowance p) (read (s.body.drop p)) := by
  -- Each round has one less to go and one token less in front of it, so the bound is kept.
  induction allowance generalizing p with
  | zero => cases hallowance
  | succ allowance ih =>
    have hforward : ∀ a q, next (s.body.drop p) = .ok (some a, s.body.drop q) → p < q := by
      intro a q hnext
      have hlt := hread.length_lt hnext
      simp only [List.length_drop] at hlt
      omega
    have hpass := follows_pass name (hround p hp) hforward
    rw [hread.eq_bind]
    refine hpass.andThen hp fun item q hnext hq => ?_
    cases item with
    | none => exact .done .stay
    | some a =>
      have hpq := hforward a q hnext
      exact (ih hq (by omega)).map hq (a :: ·)

/-- The next parameter, if there is one. -/
def nextParameter : List Token → Except Stuck (Option Parameter × List Token)
  | [] => .ok (none, [])
  | t :: rest =>
    if t.kind = .slash then .ok (none, t :: rest)
    else (readParameter (t :: rest)).map fun (p, rest) => (some p, rest)

theorem readsBy_nextParameter : ReadsBy readParameters nextParameter where
  eq_bind ts := by
    cases ts with
    | nil => rw [readParameters]; rfl
    | cons t rest =>
      by_cases h : t.kind = .slash
      · simp [readParameters, nextParameter, h, Except.bind]
      · rw [readParameters_cons h, nextParameter, if_neg h]
        cases readParameter (t :: rest) <;> rfl
  length_lt {ts a rest} h := by
    cases ts with
    | nil => cases h
    | cons t tail =>
      rw [nextParameter] at h
      split at h
      · cases h
      · obtain ⟨x, hx, heq⟩ := map_eq_ok.1 h
        cases heq
        exact length_lt_of_readParameter hx

/-- The next option, if there is one. -/
def nextOption : List Token → Except Stuck (Option NamedOption × List Token)
  | [] => .ok (none, [])
  | t :: rest =>
    if t.kind = .slash then (readOption rest).map fun (o, rest) => (some o, rest)
    else .error ⟨[.slash, .terminal], [], t :: rest⟩

theorem readsBy_nextOption : ReadsBy readOptions nextOption where
  eq_bind ts := by
    cases ts with
    | nil => rw [readOptions]; rfl
    | cons t rest =>
      by_cases h : t.kind = .slash
      · rw [readOptions_cons h, nextOption, if_pos h]
        cases readOption rest <;> rfl
      · simp [readOptions, nextOption, h, Except.bind]
  length_lt {ts a rest} h := by
    cases ts with
    | nil => cases h
    | cons t tail =>
      rw [nextOption] at h
      split at h
      · obtain ⟨x, hx, heq⟩ := map_eq_ok.1 h
        cases heq
        exact Nat.lt_succ_of_lt (length_lt_of_readOption hx)
      · cases h

theorem follows_parameterRound (hp : p ≤ s.body.length) :
    Follows s looping p (parameterRound s p) (nextParameter (s.body.drop p)) := by
  refine Follows.peek hp ?_
  rcases s.drop_body_cases hp with ⟨-, hdrop, hkind⟩ | ⟨-, hdrop, hkind⟩
  · have hnext : nextParameter (s.body.drop p) = .ok (none, s.body.drop p) := by
      rw [hdrop]
      rfl
    rw [hnext, if_pos (by simp [hkind])]
    exact .done .stay
  · by_cases hslash : (s.get p).kind = .slash
    · have hnext : nextParameter (s.body.drop p) = .ok (none, s.body.drop p) := by
        rw [hdrop, nextParameter, if_pos hslash]
      rw [hnext, if_pos (by simp [hslash])]
      exact .done .stay
    · have hnext : nextParameter (s.body.drop p)
          = (readParameter (s.body.drop p)).map fun (p, rest) => (some p, rest) := by
        rw [hdrop, nextParameter, if_neg hslash]
      rw [hnext, if_neg (by simp [hslash, hkind])]
      exact (follows_parameter hp).map hp some

theorem follows_optionRound (hp : p ≤ s.body.length) :
    Follows s looping p (optionRound s p) (nextOption (s.body.drop p)) := by
  refine Follows.peek hp ?_
  rcases s.drop_body_cases hp with ⟨-, hdrop, hkind⟩ | ⟨hlt, hdrop, hkind⟩
  · have hnext : nextOption (s.body.drop p) = .ok (none, s.body.drop p) := by
      rw [hdrop]
      rfl
    rw [hnext, hkind]
    exact .done .stay
  · cases hmark : (s.get p).kind with
    | slash =>
      rw [hdrop, nextOption, if_pos hmark]
      exact .advance hlt hkind ((follows_option hlt).map hlt some)
    | terminal => exact absurd hmark hkind
    | _ =>
      have hnext : nextOption (s.body.drop p)
          = .error ⟨[.slash, .terminal], [], s.body.drop p⟩ := by
        rw [hdrop, nextOption, if_neg (by simp [hmark])]
      rw [hnext]
      exact follows_unexpected _ hp

theorem follows_parameterList {allowance : Nat} (hp : p ≤ s.body.length)
    (hallowance : s.body.length - p < allowance) :
    Follows s true p (parameterList s allowance p)
      (within .parameterList (readParameters (s.body.drop p))) :=
  (follows_loop _ readsBy_nextParameter (fun _ => follows_parameterRound) hp hallowance).rule _

theorem follows_optionList {allowance : Nat} (hp : p ≤ s.body.length)
    (hallowance : s.body.length - p < allowance) :
    Follows s true p (optionList s allowance p)
      (within .optionList (readOptions (s.body.drop p))) :=
  (follows_loop _ readsBy_nextOption (fun _ => follows_optionRound) hp hallowance).rule _

/-! ### Whole lines -/

theorem within_map (name : Rule) (reading : Except Stuck α) (f : α → β) :
    (within name reading).map f = within name (reading.map f) := by
  cases reading with
  | ok a => rfl
  | error stuck => rfl

/-- In front of the end of the line, what was read is the result. -/
theorem follows_end (a : α) (hp : p ≤ s.body.length) :
    Follows s looping p ((do let _ ← expect s [.terminal]; return a : Walker α) p)
      ((expectEnd (s.body.drop p)).map fun _ => (a, [])) := by
  have hend : Follows s looping p _ _ := (follows_expect_end hp).map hp fun _ => a
  cases hread : expectEnd (s.body.drop p) with
  | ok => rwa [hread] at hend
  | error stuck => rwa [hread] at hend

/-- The walk over a line is the reading of its tokens. -/
theorem follows_walkOver {allowance : Nat} (hallowance : s.length ≤ allowance) :
    Follows s true 0 (walkOver s allowance) ((readCommand s.body).map fun t => (t, [])) := by
  have hlength : s.body.length < allowance := by
    rw [TokenStream.length, TokenStream.tokens, List.length_append] at hallowance
    exact hallowance
  have h0 : 0 ≤ s.body.length := Nat.zero_le _
  have hmap : ∀ x : Except Stuck Tree, x.map (fun t => (t, ([] : List Token))) = (·, []) <$> x :=
    fun _ => rfl
  -- The reading is brought to the shape of the walk, with the empty rest told by its last part.
  rw [readCommand, within_map, hmap]
  simp only [map_bind]
  refine Follows.rule ?_ .command
  refine (follows_imperative h0).andThen h0 fun imperative p _ hp => ?_
  refine (follows_parameterList hp (by omega)).andThen hp fun parameters q _ hq => ?_
  refine (follows_optionList hq (by omega)).andThen hq fun options r _ hr => ?_
  exact follows_end _ hr

/-- What the log of a walk from the first token to a position says, if the cursor always got on. -/
structure GetsOn (s : TokenStream) (position : Nat) (log : List Event) : Prop where
  /-- The walk ends on the line, at its end at most. -/
  on_line : position ≤ s.body.length
  /-- The cursor never goes back. -/
  sorted : (log.map Event.position).Pairwise (· ≤ ·)
  /-- It never was further on than it is at last. -/
  le_position : ∀ i ∈ log.map Event.position, i ≤ position
  /-- Every token that is looked at is one of the line. -/
  looked : ∀ i ∈ log.filterMap Event.looked?, s.tokens[i]? = some (s.get i)
  /-- The tokens in front of the cursor are taken one by one, in order, and no others. -/
  taken : log.filterMap Event.took? = List.range position
  /-- Every round of a loop leads forward. -/
  forward : ∀ pass ∈ log.filterMap Event.passed?, pass.1 < pass.2
  /-- There are not more rounds than tokens taken. -/
  rounds : (log.filterMap Event.passed?).length ≤ position

theorem Trail.getsOn (h : Trail s looping 0 p log) : GetsOn s p log where
  on_line := h.le_end (Nat.zero_le _)
  sorted := h.positions_sorted
  le_position i hi := (h.positions_between i hi).2
  looked i hi := s.getElem?_eq_get (h.le_of_looked i hi)
  taken := by rw [h.taken_eq, List.range_eq_range', Nat.sub_zero]
  forward := h.lt_of_passed
  rounds := h.length_passes_le

/-- **The cursor always gets on.** With an allowance of a round for each token, no loop is ever cut
short: the walk over a line comes to the tree or to the error that reading the line comes to. On
its way the cursor gets on as `GetsOn` says. Where the line has a tree, it comes to stand at the
end of the line, and else at the token that the error is about. -/
theorem walkOver_getsOn (s : TokenStream) {allowance : Nat} (hallowance : s.length ≤ allowance) :
    ∃ position log, walkOver s allowance = ⟨(ofStream s).mapError .error, position, log⟩
      ∧ GetsOn s position log
      ∧ (∀ t, ofStream s = .ok t → position = s.body.length)
      ∧ ∀ e, ofStream s = .error e → s.tokens[position]? = some e.found := by
  have hfollows := follows_walkOver hallowance
  cases hread : readCommand s.body with
  | ok tree =>
    rw [hread] at hfollows
    obtain ⟨q, log, hwalk, hrest, htrail⟩ := hfollows.exists_of_ok
    have htree : ofStream s = .ok tree := mapError_eq_ok.2 hread
    have hend : q = s.body.length :=
      Nat.le_antisymm htrail.getsOn.on_line (List.drop_eq_nil_iff.1 hrest.symm)
    rw [htree]
    refine ⟨q, log, hwalk, htrail.getsOn, fun _ _ => hend, fun e h => ?_⟩
    cases h
  | error stuck =>
    rw [hread] at hfollows
    obtain ⟨q, log, hwalk, hrest, htrail⟩ := hfollows.exists_of_error
    have hon := htrail.getsOn.on_line
    have hfound : stuck.rest.headD s.terminal = s.get q := by
      rw [hrest, TokenStream.get, List.headD_eq_head?_getD, List.head?_drop,
        List.getD_eq_getElem?_getD]
    have herror : ofStream s = .error ⟨s.line, s.get q, stuck.expected, stuck.rules⟩ := by
      rw [ofStream, hread, ← hfound]
      rfl
    rw [herror]
    refine ⟨q, log, hwalk, htrail.getsOn, fun t h => ?_, fun e h => ?_⟩
    · cases h
    · cases h
      exact s.getElem?_eq_get hon

/-- The walk over `tag -7 /x:"" /y`, with an allowance of ten rounds, goes once round the loop
for parameters and twice round that for options. -/
theorem walkOver_markedStream :
    markedStream.length ≤ 10
      ∧ (walkOver markedStream 10).log.filterMap Event.passed? = [(1, 3), (3, 7), (7, 9)]
      ∧ ∃ position log, walkOver markedStream 10
          = ⟨(ofStream markedStream).mapError .error, position, log⟩
        ∧ GetsOn markedStream position log ∧ position = 9 := by
  have hlength : markedStream.length ≤ 10 := by decide
  have htree : ofStream markedStream = .ok ⟨⟨.word, "tag", ⟨0, 3⟩⟩,
      [⟨.subtractive, ⟨.word, "7", ⟨5, 6⟩⟩⟩],
      [⟨⟨.word, "x", ⟨8, 9⟩⟩, some ⟨.text, "", ⟨10, 12⟩⟩⟩, ⟨⟨.word, "y", ⟨14, 15⟩⟩, none⟩]⟩ := by
    decide +kernel
  obtain ⟨position, log, hwalk, hgetsOn, hend, -⟩ := walkOver_getsOn markedStream hlength
  exact ⟨hlength, by decide +kernel, position, log, hwalk, hgetsOn, hend _ htree⟩

end Tree.Cursor

end CommandLine
