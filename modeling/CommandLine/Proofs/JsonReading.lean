import CommandLine.Json.Record
import CommandLine.Proofs.JsonNumbers
import CommandLine.Proofs.JsonStrings
/-!
# CommandLine.Proofs.JsonReading

**What the readers make of a value.** A reader goes over characters, and what it gives should
depend on the value only that they spell. `Reader.Gives reader v answer` says so: all spellings of
`v` give the answer, or a fault if there is none.

* `gives_boolean`, `gives_natural` and `gives_variant` are about values without parts; the answers
  are functions of the value (`Form.boolean?`, `Form.natural?`, `Form.name?`).
* `answers_readMembers` is about the members of an object: the reader goes through them in their
  order, with a state, and stops at the first one that has no answer.
-/

namespace CommandLine.Json

/-! ### What values are to a reader -/

namespace Form

/-- The content of a value that is `true` or `false`. -/
def boolean? : Form → Option Bool
  | boolean b => some b
  | _ => none

/-- The content of a value that is `null`. -/
def null? : Form → Option Unit
  | null => some ()
  | _ => none

/-- The content of a value that is a string, if it has one. -/
def text? : Form → Option String
  | text content => content
  | _ => none

/-- The value of a number that is written with digits only and lies below `2 ^ 64`. -/
def natural? : Form → Option Nat
  | number literal =>
    if literal.all (·.isDigit) ∧ Nat.ofDigitChars 10 literal 0 < Nat.pow 2 64 then
      some (Nat.ofDigitChars 10 literal 0)
    else none
  | _ => none

/-- The name that a value is: a string, or the key of an object that has no other member and
`null` for its value. -/
def name? : Form → Option String
  | text content => content
  | object [(key, null)] => key
  | _ => none

end Form

variable {α β σ : Type} {v : Form} {t₀ t r : List Char}

namespace Reader

variable {reader : Reader α} {answer : Option α}

/-- All spellings of `v` give the answer, with any blanks before them and with anything behind
them that can stand behind a value. -/
def Gives (reader : Reader α) (v : Form) (answer : Option α) : Prop :=
  ∀ ⦃t₀ t r : List Char⦄, Blanks t₀ t → v.Spells t r → NumberEnds r →
    Answers (reader.run t₀) answer r

theorem run_map (f : α → β) (s : List Char) :
    (reader.map f).run s = (reader.run s).map fun (a, r) => (f a, r) := rfl

theorem Gives.map (h : reader.Gives v answer) (f : α → β) :
    (reader.map f).Gives v (answer.map f) := by
  intro t₀ t r hblanks hspells hr
  rw [run_map]
  exact (h hblanks hspells hr).map f

/-- A sequence of readers gives what they give one after the other. -/
theorem answers_bind {next : α → Reader β} {f : α → Option β} {r' : List Char}
    (h : Answers (reader.run t) answer r')
    (hnext : ∀ a, answer = some a → Answers ((next a).run r') (f a) r) :
    Answers ((reader.bind next).run t) (answer.bind f) r := by
  cases answer with
  | none =>
    obtain ⟨fault, hfault⟩ := h
    exact ⟨fault, by simp only [Reader.bind, hfault]⟩
  | some a =>
    obtain h : reader.run t = .ok (a, r') := h
    simp only [Reader.bind, h, Option.bind_some]
    exact hnext a rfl

/-! ### Readers that go by the first character -/

variable {expected : String} {pick : Char → Option (Reader α)}

theorem run_byFirst {s : List Char} {c : Char} (h : skipBlanks t₀ = c :: s) :
    (byFirst expected pick).run t₀ =
      match pick c with
      | some reader => reader.run s
      | none => .error (mismatch expected (c :: s)) := by
  cases hpick : pick c with
  | none => simp only [byFirst, afterBlanks, h, hpick]
  | some reader => simp only [byFirst, afterBlanks, h, hpick]

/-- A value is read by the reader that its first character picks. -/
theorem gives_of_pick (h : ∀ ⦃c : Char⦄ ⦃s r : List Char⦄, v.Spells (c :: s) r →
      ∃ reader, pick c = some reader ∧ Answers (reader.run s) answer r) :
    (byFirst expected pick).Gives v answer := by
  intro t₀ t r hblanks hspells _
  obtain ⟨c, s, rfl, -, hskip⟩ := hspells.exists_skipBlanks hblanks
  obtain ⟨reader, hpick, hanswer⟩ := h hspells
  rw [run_byFirst hskip, hpick]
  exact hanswer

/-- A value whose first character picks no reader is of the wrong type. -/
theorem gives_none_of_pick (h : ∀ c, v.OpensWith c → pick c = none) :
    (byFirst expected pick).Gives v none := by
  intro t₀ t r hblanks hspells _
  obtain ⟨c, s, rfl, hc, hskip⟩ := hspells.exists_skipBlanks hblanks
  rw [run_byFirst hskip, h c hc]
  exact ⟨_, rfl⟩

theorem run_named (letters r : List Char) (a : α) :
    (named letters a).run (letters ++ r) = .ok (a, r) := by
  have h : expectLetters letters (letters ++ r) = .ok r := by
    induction letters with
    | nil => rfl
    | cons c letters ih => rw [List.cons_append, expectLetters, if_pos rfl, ih]
  change (expectLetters letters (letters ++ r)).map _ = _
  rw [h]
  rfl

/-! ### Values without parts -/

theorem gives_boolean (v : Form) : boolean.Gives v v.boolean? := by
  by_cases hv : ∃ b, v = .boolean b
  · obtain ⟨b, rfl⟩ := hv
    refine gives_of_pick fun c s r hspells => ?_
    cases hspells with
    | yes => exact ⟨_, rfl, run_named ['r', 'u', 'e'] r true⟩
    | no => exact ⟨_, rfl, run_named ['a', 'l', 's', 'e'] r false⟩
  · have hnone : v.boolean? = none := by
      cases v with
      | boolean b => exact absurd ⟨b, rfl⟩ hv
      | null | number | text | array | object => rfl
    rw [hnone]
    refine gives_none_of_pick fun c hc => ?_
    rw [if_neg, if_neg]
    · rintro rfl
      exact hv ⟨_, hc.eq_false⟩
    · rintro rfl
      exact hv ⟨_, hc.eq_true⟩

theorem gives_null (v : Form) : null.Gives v v.null? := by
  by_cases hv : v = .null
  · subst hv
    refine gives_of_pick fun c s r hspells => ?_
    cases hspells with
    | null => exact ⟨_, rfl, run_named ['u', 'l', 'l'] r ()⟩
  · have hnone : v.null? = none := by
      cases v with
      | null => exact absurd rfl hv
      | boolean | number | text | array | object => rfl
    rw [hnone]
    refine gives_none_of_pick fun c hc => if_neg ?_
    rintro rfl
    exact hv hc.eq_null

theorem gives_text (v : Form) : text.Gives v v.text? := by
  by_cases hv : ∃ content, v = .text content
  · obtain ⟨content, rfl⟩ := hv
    refine gives_of_pick fun c s r hspells => ?_
    cases hspells with
    | text h => exact ⟨_, rfl, readString_of_literal h⟩
  · have hnone : v.text? = none := by
      cases v with
      | text content => exact absurd ⟨content, rfl⟩ hv
      | null | boolean | number | array | object => rfl
    rw [hnone]
    refine gives_none_of_pick fun c hc => if_neg ?_
    rintro rfl
    exact hv hc.exists_text

/-- Only numbers are read as numbers, and these from their first character on. -/
theorem run_natural (hblanks : Blanks t₀ t) (hspells : v.Spells t r) :
    (∃ literal, v = .number literal ∧ natural.run t₀ = readNatural t)
      ∨ v.natural? = none ∧ ∃ fault, natural.run t₀ = .error fault := by
  obtain ⟨c, s, rfl, hc, hskip⟩ := hspells.exists_skipBlanks hblanks
  by_cases hnumber : c = '-' ∨ c.isDigit
  · obtain ⟨literal, rfl⟩ := hc.exists_number hnumber
    exact .inl ⟨literal, rfl, by simp only [natural, afterBlanks, hskip, if_pos hnumber]⟩
  · refine .inr ⟨?_, mismatch naturalName (c :: s), ?_⟩
    · cases v with
      | number literal => exact absurd hc hnumber
      | null | boolean | text | array | object => rfl
    · simp only [natural, afterBlanks, hskip, if_neg hnumber]

theorem gives_natural (v : Form) : natural.Gives v v.natural? := by
  intro t₀ t r hblanks hspells hr
  rcases run_natural hblanks hspells with ⟨literal, rfl, hrun⟩ | ⟨hnone, hfault⟩
  · cases hspells with
    | number h =>
      rw [hrun, Form.natural?]
      split
      · next hroom =>
        exact (readNatural_eq_ok_iff h hr).2 ⟨rfl, List.all_eq_true.1 hroom.1, rfl,
          Nat.le_pred_of_lt hroom.2⟩
      · next hroom =>
        cases hresult : readNatural (literal ++ r) with
        | error fault => exact ⟨fault, rfl⟩
        | ok result =>
          obtain ⟨-, hdigits, hvalue, hle⟩ := (readNatural_eq_ok_iff h hr).1 hresult
          rw [← hvalue] at hle
          exact absurd ⟨List.all_eq_true.2 hdigits, Nat.lt_of_le_pred (by decide) hle⟩ hroom
  · rw [hnone]
    exact hfault

/-- A value that may be missing is read as it is, unless it is `null`. -/
theorem Gives.optional (h : reader.Gives v answer) (hv : v ≠ .null) :
    (Reader.optional reader).Gives v (answer.map some) := by
  intro t₀ t r hblanks hspells hr
  obtain ⟨c, s, rfl, hc, hskip⟩ := hspells.exists_skipBlanks hblanks
  have hn : c ≠ 'n' := by
    rintro rfl
    exact hv hc.eq_null
  have hrun : (Reader.optional reader).run t₀ = (reader.map some).run (c :: s) := by
    simp only [Reader.optional, afterBlanks, hskip]
    split
    · next heq => exact absurd (List.cons.inj heq).1 hn
    · rfl
  rw [hrun]
  exact h.map some (.refl _) hspells hr

/-! ### Members of objects, behind their keys -/

/-- What stands behind a key, the colon and any spelling of `v`, gives the answer. -/
def GivesMember (reader : Reader α) (v : Form) (answer : Option α) : Prop :=
  ∀ ⦃t t₁ t₂ r : List Char⦄, Blanks t (':' :: t₁) → Blanks t₁ t₂ → v.Spells t₂ r → NumberEnds r →
    Answers (reader.run t) answer r

theorem run_member {t₁ : List Char} (h : Blanks t (':' :: t₁)) :
    (member reader).run t = reader.run t₁ := by
  have hcolon : colon.run t = .ok ((), t₁) := by
    simp only [colon, afterBlanks, skipBlanks_of_blanks_cons h (by decide)]
  simp only [member, Reader.bind, hcolon]

theorem Gives.member (h : reader.Gives v answer) : (member reader).GivesMember v answer := by
  intro t t₁ t₂ r hcolon hblanks hspells hr
  rw [run_member hcolon]
  exact h hblanks hspells hr

theorem GivesMember.map (h : reader.GivesMember v answer) (f : α → β) :
    (reader.map f).GivesMember v (answer.map f) := by
  intro t t₁ t₂ r hcolon hblanks hspells hr
  rw [run_map]
  exact (h hcolon hblanks hspells hr).map f

theorem givesMember_fail (fault : List Char → Fault) (v : Form) :
    (fail fault : Reader α).GivesMember v none :=
  fun t _ _ _ _ _ _ _ => ⟨fault t, rfl⟩

/-! ### One of several names -/

variable {choices : List (String × α)}

theorem answers_nameTail {content : Option String} (h : Literal content t r) :
    Answers ((nameTail choices).run t) (content.bind fun name => choices.lookup name) r := by
  have hread := readString_of_literal h
  cases content with
  | none =>
    obtain ⟨fault, hfault⟩ := hread
    exact ⟨fault, by simp only [nameTail, hfault]⟩
  | some name =>
    obtain hread : readString t = .ok (name, r) := hread
    rw [Option.bind_some]
    cases hlookup : choices.lookup name with
    | none =>
      refine ⟨.after (.unknownVariant name (choices.map (·.1))) r, ?_⟩
      simp only [nameTail, hread, hlookup]
    | some a =>
      change (nameTail choices).run t = .ok (a, r)
      simp only [nameTail, hread, hlookup]

theorem answers_onlyKey {key : Option String} {t₁ t₂ : List Char} (hbefore : Blanks t ('"' :: t₁))
    (hkey : Literal key t₁ t₂) :
    Answers ((onlyKey (nameTail choices)).run t) (key.bind fun name => choices.lookup name) t₂ := by
  have hrun : (onlyKey (nameTail choices)).run t = (nameTail choices).run t₁ := by
    simp only [onlyKey, afterBlanks, skipBlanks_of_blanks_cons hbefore (by decide)]
  rw [hrun]
  exact answers_nameTail hkey

/-- Behind the payload of a choice the object must end. -/
theorem answers_closeVariant {members : List (Option String × Form)}
    (h : SpellsMembers false members t r) :
    Answers (closeVariant.run t) (if members = [] then some () else none) r := by
  cases h with
  | close h =>
    change closeVariant.run t = .ok ((), r)
    simp only [closeVariant, afterBlanks, skipBlanks_of_blanks_cons h (by decide)]
  | member hbefore =>
    obtain ⟨t', hcomma, -⟩ := hbefore
    refine ⟨.after .valueExpected (',' :: t'), ?_⟩
    simp only [closeVariant, afterBlanks, skipBlanks_of_blanks_cons hcomma (by decide)]
    rfl

theorem answers_variant_object {members : List (Option String × Form)}
    (hskip : skipBlanks t₀ = '\x7b' :: t) (h : SpellsMembers true members t r) :
    Answers ((variant choices).run t₀)
      ((Form.object members).name?.bind fun name => choices.lookup name) r := by
  have hrun : (variant choices).run t₀ =
      ((onlyKey (nameTail choices)).bind fun a =>
        (member null).bind fun _ => closeVariant.map fun _ => a).run t := by
    simp only [variant, afterBlanks, hskip]
  rw [hrun]
  cases h with
  | close hclose =>
    refine ⟨.next .valueExpected ('\x7d' :: r), ?_⟩
    simp only [Reader.bind, onlyKey, afterBlanks, skipBlanks_of_blanks_cons hclose (by decide)]
  | @member _ key payload members _ _ _ _ _ _ _ hbefore hkey hcolon hblanks hvalue hmembers =>
    have hanswer : (Form.object ((key, payload) :: members)).name?.bind
          (fun name => choices.lookup name)
        = (key.bind fun name => choices.lookup name).bind fun a =>
          payload.null?.bind fun _ => (if members = [] then some () else none).map fun _ => a := by
      cases payload <;> cases members <;> cases key <;> simp [Form.name?, Form.null?]
    rw [hanswer]
    refine answers_bind (answers_onlyKey hbefore hkey) fun a _ => ?_
    refine answers_bind ((gives_null payload).member hcolon hblanks hvalue hmembers.numberEnds)
      fun _ _ => ?_
    rw [run_map]
    exact (answers_closeVariant hmembers).map _

theorem gives_variant (choices : List (String × α)) (v : Form) :
    (variant choices).Gives v (v.name?.bind fun name => choices.lookup name) := by
  intro t₀ t r hblanks hspells _
  obtain ⟨c, s, rfl, hc, hskip⟩ := hspells.exists_skipBlanks hblanks
  by_cases htext : ∃ content, v = .text content
  · obtain ⟨content, rfl⟩ := htext
    cases hspells with
    | text h =>
      have hrun : (variant choices).run t₀ = (nameTail choices).run s := by
        simp only [variant, afterBlanks, quotedOnly, hskip]
        rfl
      rw [hrun]
      exact answers_nameTail h
  by_cases hobject : ∃ members, v = .object members
  · obtain ⟨members, rfl⟩ := hobject
    cases hspells with
    | object h => exact answers_variant_object hskip h
  -- no other value begins with a quote or a brace
  have hnone : v.name? = none := by
    cases v with
    | text content => exact absurd ⟨content, rfl⟩ htext
    | object members => exact absurd ⟨members, rfl⟩ hobject
    | null | boolean | number | array => rfl
  have hquote : c ≠ '"' := by
    rintro rfl
    exact htext hc.exists_text
  have hbrace : c ≠ '\x7b' := by
    rintro rfl
    exact hobject hc.exists_object
  have hskip' : skipBlanks (c :: s) = c :: s :=
    skipBlanks_of_blanks_cons (.refl _) hc.not_isBlank
  rw [hnone]
  refine ⟨.next .valueExpected (c :: s), ?_⟩
  simp only [variant, afterBlanks, quotedOnly, hskip]
  split
  · next heq => exact absurd (List.cons.inj heq).1 hbrace
  · rw [hskip']
    split
    · next heq => cases heq
    · next heq => exact absurd (List.cons.inj heq).1 hquote
    · rfl

end Reader

/-! ### The members of an object -/

section Members

variable {visit : String → σ → Reader σ} {step : σ → Option String × Form → Option σ}
  {first : Bool} {key : Option String} {state : σ} {members : List (Option String × Form)}

theorem answers_keyTail {t₁ : List Char} (h : Literal key t₁ r) :
    Answers (keyTail t₁) (key.map some) r :=
  (readString_of_literal h).map some

/-- A key is found behind what separates it from the earlier members. -/
theorem answers_nextKey {t₁ : List Char} (hbefore : Separated first t ('"' :: t₁))
    (hkey : Literal key t₁ r) : Answers (nextKey first t) (key.map some) r := by
  cases first with
  | true =>
    have hrun : nextKey true t = keyTail t₁ := by
      unfold nextKey
      rw [skipBlanks_of_blanks_cons hbefore (by decide)]
      rfl
    rw [hrun]
    exact answers_keyTail hkey
  | false =>
    obtain ⟨t', hcomma, hblanks⟩ := hbefore
    have hrun : nextKey false t = keyTail t₁ := by
      simp [nextKey, skipBlanks_of_blanks_cons hcomma, skipBlanks_of_blanks_cons hblanks, isBlank]
    rw [hrun]
    exact answers_keyTail hkey

theorem nextKey_close (h : Blanks t ('\x7d' :: r)) : nextKey first t = .ok (none, r) := by
  unfold nextKey
  rw [skipBlanks_of_blanks_cons h (by decide)]
  rfl

theorem readMembers_of_close (h : nextKey first t = .ok (none, r)) :
    readMembers visit first state t = .ok (state, r) := by
  rw [readMembers]
  split
  · next heq => rw [h] at heq; cases heq
  · next heq => rw [h] at heq; cases heq; rfl
  · next heq => rw [h] at heq; cases heq

theorem readMembers_of_fault {fault : Fault} (h : nextKey first t = .error fault) :
    readMembers visit first state t = .error fault := by
  rw [readMembers]
  split
  · next heq => rw [h] at heq; cases heq; rfl
  · next heq => rw [h] at heq; cases heq
  · next heq => rw [h] at heq; cases heq

theorem readMembers_of_key {key : String} (h : nextKey first t = .ok (some key, r)) :
    readMembers visit first state t =
      match (visit key state).run r with
      | .error fault => .error fault
      | .ok (state, r) => readMembers visit false state r := by
  rw [readMembers]
  split
  · next heq => rw [h] at heq; cases heq
  · next heq => rw [h] at heq; cases heq
  · next heq =>
    rw [h] at heq
    cases heq
    split
    · next hrun => rw [hrun]
    · next hrun => rw [hrun]

/-- **Members are read one after the other.** If each of them is read from a state as a step
says, then all of them are read as the steps say together, and if some step fails, so does the
reader. A key without content is no key. -/
theorem answers_readMembers
    (hkey : ∀ state v, (none, v) ∈ members → step state (none, v) = none)
    (hvisit : ∀ state key v, (some key, v) ∈ members →
      (visit key state).GivesMember v (step state (some key, v)))
    (h : SpellsMembers first members t r) :
    Answers (readMembers visit first state t) (members.foldlM step state) r := by
  induction members generalizing first state t with
  | nil =>
    cases h with
    | close h => exact readMembers_of_close (nextKey_close h)
  | cons m members ih =>
    cases h with
    | @member _ key v _ _ t₁ t₂ t₃ t₄ t₅ _ hbefore hliteral hcolon hblanks hvalue hmembers =>
      have hnext := answers_nextKey hbefore hliteral
      rw [List.foldlM_cons]
      cases key with
      | none =>
        obtain ⟨fault, hfault⟩ := hnext
        rw [hkey state v List.mem_cons_self]
        exact ⟨fault, readMembers_of_fault hfault⟩
      | some key =>
        rw [readMembers_of_key hnext]
        have hanswer :=
          hvisit state key v List.mem_cons_self hcolon hblanks hvalue hmembers.numberEnds
        cases hstep : step state (some key, v) with
        | none =>
          rw [hstep] at hanswer
          obtain ⟨fault, hfault⟩ := hanswer
          exact ⟨fault, by rw [hfault]⟩
        | some state' =>
          rw [hstep] at hanswer
          obtain hanswer : (visit key state).run t₂ = .ok (state', t₅) := hanswer
          rw [hanswer]
          exact ih (fun state v hmem => hkey state v (List.mem_cons_of_mem _ hmem))
            (fun state key v hmem => hvisit state key v (List.mem_cons_of_mem _ hmem)) hmembers

end Members

/-! ### Maps -/

/-- The map of the members of an object, of several values for a key the last one. -/
def Form.mapOf? (value? : Form → Option α) (members : List (Option String × Form)) :
    Option (SortedMap α) :=
  members.foldlM (fun m member => member.1.bind fun key => (value? member.2).map (m.insert key))
    .empty

theorem gives_sortedMap {value : Reader α} {value? : Form → Option α}
    {members : List (Option String × Form)}
    (h : ∀ key v, (key, v) ∈ members → value.Gives v (value? v)) :
    (Reader.sortedMap value).Gives (.object members) (Form.mapOf? value? members) := by
  refine Reader.gives_of_pick fun c s r hspells => ?_
  cases hspells with
  | object hmembers =>
    refine ⟨_, rfl, answers_readMembers (fun m v _ => rfl) (fun m key v hmem => ?_) hmembers⟩
    exact (h _ v hmem).member.map _

/-! ### Whole texts -/

section Whole

variable {reader : Reader α} {text : String}

/-- A text that spells a value is read as what the reader makes of the value. -/
theorem Form.IsText.parse_eq_ok {a : α} (h : v.IsText text) (hgives : reader.Gives v (some a)) :
    reader.parse text = .ok a := by
  obtain ⟨t, r, hbefore, hspells, hbehind⟩ := h
  have hanswer : reader.run text.toList = .ok (a, r) :=
    hgives hbefore hspells (.of_blanks hbehind numberEnds_nil)
  simp only [Reader.parse, hanswer, bind, Except.bind, skipBlanks_of_blanks_nil hbehind]
  rfl

theorem Form.IsText.exists_parse_error (h : v.IsText text) (hgives : reader.Gives v none) :
    ∃ e, reader.parse text = .error e := by
  obtain ⟨t, r, hbefore, hspells, hbehind⟩ := h
  obtain ⟨fault, hfault⟩ := hgives hbefore hspells (.of_blanks hbehind numberEnds_nil)
  refine ⟨⟨fault.problem, fault.position text.toList⟩, ?_⟩
  simp only [Reader.parse, hfault, bind, Except.bind]
  rfl

end Whole

end CommandLine.Json
