import CommandLine.Tree.Parser
/-!
# CommandLine.Proofs.Cursor

**Reading with a cursor.** The functions of `Tree.Parser` hand on the tokens that are left. A
reader can as well leave the tokens where they are and keep the index of the next one, the
cursor. This module has such a reader, rule by rule, which also keeps a log: at which indices it
looked, which tokens it took, and through which stretches of the line its loops went.

Nothing here makes the cursor stay on the line or a loop end. A token behind the end is looked at
as the end of the line is, and a loop goes on as long as it is told to, up to an allowance of
rounds, at the end of which it gives up (`Stop.exhausted`). `Trail` says what a log looks like if
all goes well.
-/

namespace CommandLine.Tree.Cursor

/-- What is done at the tokens. -/
inductive Event where
  /-- The token at a position was looked at. -/
  | looked (position : Nat)
  /-- The token at a position was taken. -/
  | took (position : Nat)
  /-- The loop of a rule was gone through once, from one position to another. -/
  | passed (rule : Rule) (first last : Nat)
  deriving Repr, DecidableEq

/-- Where the cursor is after an event. -/
@[simp]
def Event.position : Event → Nat
  | looked position => position
  | took position => position + 1
  | passed _ _ last => last

/-- The position of the token that was looked at. -/
@[simp]
def Event.looked? : Event → Option Nat
  | looked position => some position
  | took _ | passed _ _ _ => none

/-- The position of the token that was taken. -/
@[simp]
def Event.took? : Event → Option Nat
  | took position => some position
  | looked _ | passed _ _ _ => none

/-- The stretch that a loop was gone through. -/
@[simp]
def Event.passed? : Event → Option (Nat × Nat)
  | passed _ first last => some (first, last)
  | looked _ | took _ => none

/-- Why a walk ends without a result. -/
inductive Stop where
  | error (e : GrammarError)
  /-- A loop has used up its allowance. -/
  | exhausted
  deriving Repr, DecidableEq

/-- Notes that a walk, if it stops, stopped in a rule. -/
def Stop.within (rule : Rule) : Stop → Stop
  | error e => error { e with rules := e.rules ++ [rule] }
  | exhausted => exhausted

/-- A stretch of reading: what came of it, where the cursor is then, and what was done. -/
structure Walk (α : Type) where
  result : Except Stop α
  position : Nat
  log : List Event
  deriving Repr

/-- Goes on where a walk ended, if it has a result. -/
def Walk.andThen {α β : Type} (walk : Walk α) (next : α → Nat → Walk β) : Walk β :=
  match walk.result with
  | .error stop => ⟨.error stop, walk.position, walk.log⟩
  | .ok a => { next a walk.position with log := walk.log ++ (next a walk.position).log }

/-- What to do from a position on. -/
def Walker (α : Type) : Type := Nat → Walk α

instance : Monad Walker where
  pure a := fun position => ⟨.ok a, position, []⟩
  bind walker next := fun position => (walker position).andThen next

/-- Does something as part of a rule. -/
def rule {α : Type} (name : Rule) (walker : Walker α) : Walker α := fun position =>
  { walker position with result := (walker position).result.mapError (Stop.within name) }

/-- Notes in the log that a round of a loop was completed. -/
def pass {α : Type} (name : Rule) (round : Walker (Option α)) : Walker (Option α) :=
  fun position =>
    let walk := round position
    match walk.result with
    | .ok (some _) => { walk with log := walk.log ++ [.passed name position walk.position] }
    | _ => walk

/-- Goes through a loop, round by round, up to one that gives nothing. -/
def loop {α : Type} (name : Rule) (round : Walker (Option α)) : Nat → Walker (List α)
  | 0 => fun position => ⟨.error .exhausted, position, []⟩
  | allowance + 1 => do
    match ← pass name round with
    | none => return []
    | some a => return a :: (← loop name round allowance)

/-! ### The rules -/

section rules

variable (s : TokenStream)

/-- Looks at the token at the cursor. -/
def peek : Walker Token := fun position => ⟨.ok (s.get position), position, [.looked position]⟩

/-- Takes the token at the cursor; the end of the line stays where it is. -/
def advance : Walker Token := fun position =>
  if (s.get position).kind = .terminal then peek s position
  else ⟨.ok (s.get position), position + 1, [.looked position, .took position]⟩

/-- Stops at the token at the cursor. -/
def unexpected {α : Type} (kinds : List Token.Kind) : Walker α := fun position =>
  ⟨.error (.error ⟨s.line, s.get position, kinds, []⟩), position, [.looked position]⟩

/-- Takes the token at the cursor if it is of one of some kinds. -/
def expect (kinds : List Token.Kind) : Walker Token := do
  if (← peek s).kind ∈ kinds then advance s else unexpected s kinds

def word : Walker Token := rule .word (expect s [.word])

def text : Walker Token := rule .text (expect s [.text, .word])

def imperative : Walker Token := rule .imperative (word s)

def parameter : Walker Parameter := rule .parameter do
  match (← peek s).kind with
  | .plus => do
    let _ ← advance s
    return ⟨.additive, ← text s⟩
  | .minus => do
    let _ ← advance s
    return ⟨.subtractive, ← text s⟩
  | _ => return ⟨.normal, ← text s⟩

def optionValue : Walker (Option Token) := do
  if (← peek s).kind = .colon then
    let _ ← advance s
    return some (← text s)
  else return none

def option : Walker NamedOption := rule .option do
  let name ← word s
  return ⟨name, ← optionValue s⟩

/-- One round of the loop for parameters. -/
def parameterRound : Walker (Option Parameter) := do
  if (← peek s).kind ∈ [Token.Kind.slash, .terminal] then return none
  else return some (← parameter s)

/-- One round of the loop for options. -/
def optionRound : Walker (Option NamedOption) := do
  match (← peek s).kind with
  | .slash => do
    let _ ← advance s
    return some (← option s)
  | .terminal => return none
  | _ => unexpected s [.slash, .terminal]

def parameterList (allowance : Nat) : Walker (List Parameter) :=
  rule .parameterList (loop .parameterList (parameterRound s) allowance)

def optionList (allowance : Nat) : Walker (List NamedOption) :=
  rule .optionList (loop .optionList (optionRound s) allowance)

/-- Reads a whole line, with an allowance of rounds for each of its loops. -/
def command (allowance : Nat) : Walker Tree := rule .command do
  let imperative ← imperative s
  let parameters ← parameterList s allowance
  let options ← optionList s allowance
  let _ ← expect s [.terminal]
  return ⟨imperative, parameters, options⟩

end rules

/-- The walk over all tokens of a line, from the first one on. -/
def walkOver (s : TokenStream) (allowance : Nat) : Walk Tree := command s allowance 0

end CommandLine.Tree.Cursor
