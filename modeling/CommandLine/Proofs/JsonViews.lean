import Mathlib.Data.List.Basic
import Mathlib.Data.Prod.Basic
import CommandLine.AddressBook.Command
import CommandLine.BareCommand.Basic
import CommandLine.Proofs.JsonPrinting
import CommandLine.Proofs.JsonUniqueness
import CommandLine.Token.Basic
import CommandLine.Tree.Basic
/-!
# CommandLine.Proofs.JsonViews

**What is printed of a value is printed of no other.** The text of a JSON value says this value and
nothing else (`Json.Value.isText_pretty_iff`), and the JSON values of tokens, trees, bare commands
and commands of the address book leave nothing out (the lemmas `toJson_injective`). So a printed
text tells what was printed (`Json.isText_view_iff`).
-/

namespace CommandLine

namespace Json

namespace Value

mutual

/-- What the text of a value says tells the value. -/
theorem eq_of_form_eq {v w : Value} (h : v.form = w.form) : v = w := by
  cases v with
  | null =>
    cases w with
    | null => rfl
    | _ => cases h
  | boolean b => cases w <;> cases h; rfl
  | natural n =>
    cases w with
    | natural m =>
      have hdigits : Nat.toDigits 10 n = Nat.toDigits 10 m := Form.number.inj h
      have hvalue := congrArg (Nat.ofDigitChars 10 · 0) hdigits
      simpa using hvalue
    | _ => cases h
  | text s => cases w <;> cases h; rfl
  | array items =>
    cases w with
    | array items' => rw [eq_of_formItems_eq (Form.array.inj h)]
    | _ => cases h
  | object members =>
    cases w with
    | object members' => rw [eq_of_formMembers_eq (Form.object.inj h)]
    | _ => cases h

theorem eq_of_formItems_eq {vs ws : List Value} (h : formItems vs = formItems ws) : vs = ws := by
  cases vs with
  | nil =>
    cases ws with
    | nil => rfl
    | cons => cases h
  | cons v vs =>
    cases ws with
    | nil => cases h
    | cons w ws =>
      obtain ⟨hitem, hitems⟩ := List.cons.inj h
      rw [eq_of_form_eq hitem, eq_of_formItems_eq hitems]

theorem eq_of_formMembers_eq {vs ws : List (String × Value)}
    (h : formMembers vs = formMembers ws) : vs = ws := by
  cases vs with
  | nil =>
    cases ws with
    | nil => rfl
    | cons => cases h
  | cons v vs =>
    cases ws with
    | nil => cases h
    | cons w ws =>
      obtain ⟨key, v⟩ := v
      obtain ⟨key', w⟩ := w
      obtain ⟨hmember, hmembers⟩ := List.cons.inj h
      obtain ⟨hkey, hvalue⟩ := Prod.mk.inj hmember
      rw [Option.some.inj hkey, eq_of_form_eq hvalue, eq_of_formMembers_eq hmembers]

end

theorem form_injective : Function.Injective form := fun _ _ => eq_of_form_eq

theorem isText_pretty_iff {v : Value} {said : Form} : said.IsText v.pretty ↔ said = v.form := by
  constructor
  · intro h
    exact h.unique v.isText_pretty
  · rintro rfl
    exact v.isText_pretty

theorem pretty_injective : Function.Injective pretty := by
  intro v w h
  exact form_injective (isText_pretty_iff.1 (h ▸ v.isText_pretty))

theorem texts_injective : Function.Injective texts := by
  intro ss ss' h
  have htext : Function.Injective text := fun _ _ => text.inj
  exact htext.list_map (array.inj h)

end Value

/-- If the views of values leave nothing out, then the text that is printed of a value is a text of
its own view only. -/
theorem isText_view_iff {α : Type} {view : α → Value} (hview : Function.Injective view) {a b : α} :
    (view b).form.IsText (view a).pretty ↔ b = a := by
  rw [Value.isText_pretty_iff]
  exact (Value.form_injective.comp hview).eq_iff

end Json

open Json (Value)

/-! ### Tokens and trees -/

theorem Marking.name_injective : Function.Injective name := by
  intro m m' h
  cases m <;> cases m' <;> first | rfl | exact absurd h (by decide)

theorem Token.Kind.name_injective : Function.Injective name := by
  intro k k' h
  cases k <;> cases k' <;> first | rfl | exact absurd h (by decide)

theorem Token.toJson_injective : Function.Injective toJson := by
  intro ⟨kind, literal, start, stop⟩ ⟨kind', literal', start', stop'⟩ h
  simpa [toJson, Span.toJson, Kind.name_injective.eq_iff] using h

namespace Tree

theorem Parameter.toJson_injective : Function.Injective Parameter.toJson := by
  intro ⟨marking, text⟩ ⟨marking', text'⟩ h
  simpa [Parameter.toJson, Marking.name_injective.eq_iff, Token.toJson_injective.eq_iff] using h

theorem NamedOption.toJson_injective : Function.Injective NamedOption.toJson := by
  intro ⟨name, value⟩ ⟨name', value'⟩ h
  cases value <;> cases value' <;>
    simp_all [NamedOption.toJson, Token.toJson_injective.eq_iff]

theorem toJson_injective : Function.Injective toJson := by
  intro ⟨imperative, parameters, options⟩ ⟨imperative', parameters', options'⟩ h
  simpa [toJson, Token.toJson_injective.eq_iff, Parameter.toJson_injective.list_map.eq_iff,
    NamedOption.toJson_injective.list_map.eq_iff] using h

end Tree

/-! ### Commands -/

theorem Parameter.toJson_injective : Function.Injective toJson := by
  intro ⟨marking, value⟩ ⟨marking', value'⟩ h
  simpa [toJson, Marking.name_injective.eq_iff] using h

/-- The object of the options has their names for keys, in order. -/
theorem BareCommand.toJson_injective : Function.Injective toJson := by
  have hentry : Function.Injective fun e : String × List String => (e.1, Value.texts e.2) :=
    Function.Injective.prodMap Function.injective_id Value.texts_injective
  intro ⟨⟨parameters, ⟨entries, hsorted⟩⟩, imperative⟩
    ⟨⟨parameters', ⟨entries', hsorted'⟩⟩, imperative'⟩ h
  have hparts : imperative = imperative' ∧ parameters = parameters' ∧ entries = entries' := by
    simpa [toJson, Parameter.toJson_injective.list_map.eq_iff, hentry.list_map.eq_iff] using h
  obtain ⟨rfl, rfl, rfl⟩ := hparts
  rfl

namespace AddressBook

theorem Keyword.name_injective : Function.Injective name := by
  intro k k' h
  cases k <;> cases k' <;> first | rfl | exact absurd h (by decide)

theorem map_text_inj {s s' : Option String} : s.map Value.text = s'.map Value.text ↔ s = s' :=
  (Option.map_injective fun _ _ => Value.text.inj).eq_iff

/-- A member that may be left out is found by its key, and hides no other. -/
theorem lookup_member? (key other : String) (s : Option String) (rest : List (String × Value)) :
    (Value.member? key s ++ rest).lookup other =
      if other = key then (s.map Value.text).or (rest.lookup other) else rest.lookup other := by
  cases s with
  | none => simp [Value.member?]
  | some value =>
    by_cases hother : other = key
    · simp [Value.member?, hother]
    · simp [Value.member?, List.lookup_cons, beq_eq_false_iff_ne.2 hother, hother]

/-- Each field of a command is found by its key. -/
theorem Command.toJson_injective : Function.Injective toJson := by
  intro c c' h
  obtain ⟨hkeyword, hmembers⟩ := List.cons.inj (Value.object.inj h)
  have hname : c.keyword = c'.keyword :=
    Keyword.name_injective (Value.text.inj (Prod.mk.inj hkeyword).2)
  have hfield (key : String) := congrArg (List.lookup key) hmembers
  have htexts {ss ss' : List String} : Value.texts ss = Value.texts ss' ↔ ss = ss' :=
    Value.texts_injective.eq_iff
  cases c with
  | add name phone email tags =>
    cases c' with
    | add name' phone' email' tags' =>
      simp only [members, List.cons_append, List.append_assoc, List.lookup_cons,
        lookup_member?] at hfield
      obtain rfl : name = name' := by simpa using hfield "name"
      obtain rfl : phone = phone' := by simpa [map_text_inj] using hfield "phone"
      obtain rfl : email = email' := by simpa [map_text_inj] using hfield "email"
      obtain rfl : tags = tags' := by simpa [htexts] using hfield "tags"
      rfl
    | _ => cases hname
  | edit index details added removed =>
    cases c' with
    | edit index' details' added' removed' =>
      obtain ⟨name, phone, email⟩ := details
      obtain ⟨name', phone', email'⟩ := details'
      simp only [members, List.cons_append, List.append_assoc, List.lookup_cons,
        lookup_member?] at hfield
      obtain rfl : index = index' := by simpa using hfield "index"
      obtain rfl : name = name' := by simpa [map_text_inj] using hfield "name"
      obtain rfl : phone = phone' := by simpa [map_text_inj] using hfield "phone"
      obtain rfl : email = email' := by simpa [map_text_inj] using hfield "email"
      obtain rfl : added = added' := by simpa [htexts] using hfield "added_tags"
      obtain rfl : removed = removed' := by simpa [htexts] using hfield "removed_tags"
      rfl
    | _ => cases hname
  | help topic =>
    cases c' with
    | help topic' =>
      cases topic <;> cases topic' <;> simp_all [members, Value.member?]
    | _ => cases hname
  | delete | find | tag | untag =>
    cases c' <;> cases hname
    simpa [members, htexts] using hmembers
  | clear | exit | list =>
    cases c' <;> cases hname
    rfl

end AddressBook

end CommandLine
