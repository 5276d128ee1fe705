import CommandLine.Proofs.JsonRecords
import CommandLine.Proofs.JsonSkipping
/-!
# CommandLine.Proofs.LenientRecords

**What a record makes of any value.** A record that skips the members it has no field for, and that
needs all of its fields where it is written as an array, gives an answer that depends on its fields
alone. `Record.of?` says it: the members that concern the record go into its state in the order of
the text, the items of an array go into it in the order of the fields, and no other value is a
record.

Members that are skipped may occur twice, and may hold anything: `Reader.gives_skip` is what
makes the answer independent of them.
-/

namespace CommandLine.Json.Record

variable {σ α : Type} {record : Record σ α} {put? : String → Form → Option (σ → σ)}
  {members : List (Option String × Form)} {t r : List Char}

/-! ### Objects -/

/-- Whether a member is not just skipped: the record has a field of this name, or the key is none
at all. -/
def concerns (record : Record σ α) (member : Option String × Form) : Bool :=
  member.1.all fun key => (record.fields.find? (·.name == key)).isSome

/-- Each field reads what `put?` says for its name. -/
def FieldsGive (record : Record σ α) (put? : String → Form → Option (σ → σ)) : Prop :=
  ∀ field ∈ record.fields, ∀ v, field.reader.Gives v (put? field.name v)

theorem givesMember_visit_lenient (hstrict : record.strict = false) (h : record.FieldsGive put?)
    (key : String) (v : Form) (state : σ × List String) :
    (record.visit key state).GivesMember v
      (if record.concerns (some key, v) then step put? state (some key, v) else some state) := by
  unfold visit concerns step
  rw [Option.all_some, Option.bind_some]
  cases hfield : record.fields.find? (·.name == key) with
  | none =>
    simp only [hstrict, Option.isSome_none, Bool.false_eq_true, if_false]
    exact (Reader.gives_skip v).member.map _
  | some field =>
    have hname : field.name = key := by simpa using List.find?_some hfield
    have hgives := h field (List.mem_of_find?_eq_some hfield) v
    rw [hname] at hgives
    simp only [Option.isSome_some, if_true]
    split
    · exact Reader.givesMember_fail _ _
    · exact hgives.member.map _

/-- Of the members of an object those count that concern the record. -/
theorem gives_object_lenient (hstrict : record.strict = false) (h : record.FieldsGive put?) :
    record.reader.Gives (.object members)
      (((members.filter record.concerns).foldlM (step put?) (record.start, [])).bind fun state =>
        (record.finish state.1).toOption) := by
  rw [List.foldlM_filter]
  refine gives_object_of_visit (fun state v _ => ?_) fun state key v _ => ?_
  · rfl
  · exact givesMember_visit_lenient hstrict h key v state

/-! ### Arrays -/

/-- Neither an item nor what separates it from the earlier ones is the end of the array. -/
theorem exists_skipBlanks_of_separated {first : Bool} {t₁ : List Char} {v : Form}
    (hbefore : Separated first t t₁) (hitem : v.Spells t₁ r) :
    ∃ c s, skipBlanks t = c :: s ∧ c ≠ ']' := by
  obtain ⟨c, s, rfl, hc⟩ := hitem.exists_cons
  cases first with
  | true =>
    refine ⟨c, s, skipBlanks_of_blanks_cons hbefore hc.not_isBlank, ?_⟩
    rintro rfl
    exact Form.not_opensWith_close hc
  | false =>
    obtain ⟨t', hcomma, -⟩ := hbefore
    exact ⟨',', t', skipBlanks_of_blanks_cons hcomma (by decide), by decide⟩

/-- An item is found behind what separates it from the earlier items. -/
theorem nextItem_of_separated {first : Bool} {t₁ : List Char} {v : Form}
    (hbefore : Separated first t t₁) (hitem : v.Spells t₁ r) :
    nextItem first t = .ok (true, t₁) := by
  obtain ⟨c, s, rfl, hc⟩ := hitem.exists_cons
  have hclose : c ≠ ']' := by
    rintro rfl
    exact Form.not_opensWith_close hc
  unfold nextItem
  cases first with
  | true =>
    rw [skipBlanks_of_blanks_cons hbefore hc.not_isBlank]
    simp
  | false =>
    obtain ⟨t', hcomma, hblanks⟩ := hbefore
    rw [skipBlanks_of_blanks_cons hcomma (by decide)]
    simp [skipBlanks_of_blanks_cons hblanks hc.not_isBlank, hclose]

/-- Where there is one more item, the array does not end. -/
theorem exists_endOfList_error {first : Bool} {t₁ : List Char} {v : Form}
    (hbefore : Separated first t t₁) (hitem : v.Spells t₁ r) :
    ∃ fault, endOfList t = .error fault := by
  obtain ⟨c, s, hskip, hclose⟩ := exists_skipBlanks_of_separated hbefore hitem
  unfold endOfList
  rw [hskip]
  split
  · exact ⟨_, rfl⟩
  · next heq => exact absurd (List.cons.inj heq).1 hclose
  · split
    · split
      · exact ⟨_, rfl⟩
      · exact ⟨_, rfl⟩
    · exact ⟨_, rfl⟩

/-- What items do to the state of a record, one for each field. -/
def putItems? : List (Form → Option (σ → σ)) → List Form → σ → Option σ
  | [], [], state => some state
  | put? :: puts, v :: items, state => (put? v).bind fun put => putItems? puts items (put state)
  | [], _ :: _, _ => none
  | _ :: _, [], _ => none

theorem answers_readItems (hcomplete : record.complete = true) {fields : List (Field σ)}
    {items : List Form} {count : Nat} {state : σ}
    (h : ∀ field ∈ fields, ∀ v, field.reader.Gives v (put? field.name v))
    (hitems : SpellsItems (count == 0) items t r) :
    Answers (record.readItems count fields state t)
      (putItems? (fields.map fun field => put? field.name) items state) r := by
  induction fields generalizing items count state t with
  | nil =>
    cases hitems with
    | close h =>
      have hend : endOfList t = .ok r := by
        rw [endOfList, skipBlanks_of_blanks_cons h (by decide)]
        rfl
      change (endOfList t).map _ = .ok (state, r)
      rw [hend]
      rfl
    | item hbefore hitem _ =>
      obtain ⟨fault, hfault⟩ := exists_endOfList_error hbefore hitem
      exact ⟨fault, by rw [readItems, hfault]; rfl⟩
  | cons field fields ih =>
    obtain ⟨hfield, hfields⟩ := List.forall_mem_cons.1 h
    cases hitems with
    | close h =>
      have hnext : nextItem (count == 0) t = .ok (false, r) := by
        rw [nextItem, skipBlanks_of_blanks_cons h (by decide)]
        rfl
      refine ⟨.after (.wrongLength count record.lengthName) r, ?_⟩
      rw [readItems, hnext]
      exact if_pos hcomplete
    | @item _ v items _ t₁ t₂ _ hbefore hitem hitems =>
      have hgives := hfield v (.refl _) hitem hitems.numberEnds
      rw [readItems, nextItem_of_separated hbefore hitem, List.map_cons, putItems?]
      cases hput : put? field.name v with
      | none =>
        rw [hput] at hgives
        obtain ⟨fault, hfault⟩ := hgives
        exact ⟨fault, by simp only [hfault]⟩
      | some put =>
        rw [hput] at hgives
        obtain hgives : field.reader.run t₁ = .ok (put, t₂) := hgives
        simp only [hgives, Option.bind_some]
        exact ih hfields hitems

/-- Each item of an array is one of the fields, in the order in which these are declared. -/
theorem gives_list (hcomplete : record.complete = true) (h : record.FieldsGive put?)
    (items : List Form) :
    record.reader.Gives (.array items)
      ((putItems? (record.fields.map fun field => put? field.name) items record.start).bind
        fun state => (record.finish state).toOption) := by
  refine Reader.gives_of_pick fun c s r hspells => ?_
  cases hspells with
  | array hitems =>
    refine ⟨_, rfl, ?_⟩
    change Answers (record.readList s) _ r
    have hanswer : Answers (record.readItems 0 record.fields record.start s) _ r :=
      answers_readItems hcomplete h hitems
    cases hstate : putItems? (record.fields.map fun field => put? field.name) items
        record.start with
    | none =>
      rw [hstate] at hanswer
      obtain ⟨fault, hfault⟩ := hanswer
      exact ⟨fault, by rw [readList, hfault]⟩
    | some state =>
      rw [hstate] at hanswer
      obtain hanswer : record.readItems 0 record.fields record.start s = .ok (state, r) := hanswer
      rw [readList, hanswer, Option.bind_some]
      exact answers_close state r

/-! ### All values -/

/-- The record that a value is. -/
def of? (record : Record σ α) (put? : String → Form → Option (σ → σ)) : Form → Option α
  | .object members =>
    ((members.filter record.concerns).foldlM (step put?) (record.start, [])).bind fun state =>
      (record.finish state.1).toOption
  | .array items =>
    (putItems? (record.fields.map fun field => put? field.name) items record.start).bind
      fun state => (record.finish state).toOption
  | _ => none

/-- **A record makes of any value what its fields make of the parts.** -/
theorem gives_of? (hstrict : record.strict = false) (hcomplete : record.complete = true)
    (h : record.FieldsGive put?) (v : Form) : record.reader.Gives v (record.of? put? v) := by
  cases v with
  | object members => exact gives_object_lenient hstrict h
  | array items => exact gives_list hcomplete h items
  | null | boolean | number | text =>
    refine Reader.gives_none_of_pick fun c hc => ?_
    have hbrace : c ≠ '\x7b' := by
      rintro rfl
      obtain ⟨members, h⟩ := hc.exists_object
      cases h
    have hbracket : c ≠ '[' := by
      rintro rfl
      obtain ⟨items, h⟩ := hc.exists_array
      cases h
    rw [if_neg hbrace, if_neg hbracket]

/-! ### What goes into the state -/

theorem toOption_eq_some {ε : Type} {x : Except ε α} {a : α} : x.toOption = some a ↔ x = .ok a := by
  cases x with
  | ok b => simp [Except.toOption]
  | error e => simp [Except.toOption]

theorem exists_of_object {a : α} (h : record.of? put? (.object members) = some a) :
    ∃ state seen, (members.filter record.concerns).foldlM (step put?) (record.start, [])
        = some (state, seen) ∧ record.finish state = .ok a := by
  obtain ⟨⟨state, seen⟩, hfold, hfinish⟩ := Option.bind_eq_some_iff.1 h
  exact ⟨state, seen, hfold, toOption_eq_some.1 hfinish⟩

theorem exists_of_array {items : List Form} {a : α} (h : record.of? put? (.array items) = some a) :
    ∃ state, putItems? (record.fields.map fun field => put? field.name) items record.start
        = some state ∧ record.finish state = .ok a := by
  obtain ⟨state, hput, hfinish⟩ := Option.bind_eq_some_iff.1 h
  exact ⟨state, hput, toOption_eq_some.1 hfinish⟩

theorem putItems?_nil_eq_some {items : List Form} {state state' : σ} :
    putItems? [] items state = some state' ↔ items = [] ∧ state = state' := by
  cases items with
  | nil => simp [putItems?]
  | cons v items => simp [putItems?]

theorem putItems?_cons_eq_some {put? : Form → Option (σ → σ)} {puts : List (Form → Option (σ → σ))}
    {items : List Form} {state state' : σ} :
    putItems? (put? :: puts) items state = some state' ↔
      ∃ v rest put, items = v :: rest ∧ put? v = some put
        ∧ putItems? puts rest (put state) = some state' := by
  cases items with
  | nil => simp [putItems?]
  | cons v items =>
    rw [putItems?, Option.bind_eq_some_iff]
    constructor
    · intro h
      obtain ⟨put, hput, hrest⟩ := h
      exact ⟨v, items, put, rfl, hput, hrest⟩
    · intro h
      obtain ⟨_, _, put, heq, hput, hrest⟩ := h
      cases heq
      exact ⟨put, hput, hrest⟩

variable {β : Type} {name : String} {Means : Form → β → Prop} {default b : β}

/-- What the members say that concern a record, all members say, if the record has the field. -/
theorem Says.of_filter (hname : (record.fields.find? (·.name == name)).isSome)
    (h : Says (members.filter record.concerns) name Means default b) :
    Says members name Means default b := by
  have hmem : ∀ v, (some name, v) ∈ members.filter record.concerns ↔ (some name, v) ∈ members := by
    intro v
    rw [List.mem_filter]
    exact and_iff_left hname
  simpa only [Says, hmem] using h

/-- What is not the default is said by a member. -/
theorem Says.exists_mem (h : Says members name Means default b) (hb : b ≠ default) :
    ∃ v, (some name, v) ∈ members ∧ Means v b := by
  by_cases hmem : ∃ v, (some name, v) ∈ members
  · obtain ⟨v, hv⟩ := hmem
    exact ⟨v, hv, h.1 v hv⟩
  · rw [not_exists] at hmem
    exact absurd (h.2 hmem) hb

end CommandLine.Json.Record
