import CommandLine.Proofs.JsonReading
/-!
# CommandLine.Proofs.JsonRecords

**What records make of the members of an object.** A record goes through the members one after
the other, with a state, and keeps the names of the fields that were there already
(`Record.gives_object`). The order of the members is lost on the way:

* `isSome_foldlM_step_iff`: all members are taken just in case each of them would be, alone, and
  no key occurs twice;
* `Says.of_foldlM_step`: what one field is for is then what the member of this name says, or what
  it was at the start.

`gives_parts` is about members that were written for the fields of a record, as a value is
written: the record is read back if each field alone is.
-/

namespace CommandLine.Json.Record

variable {σ α β : Type} {record : Record σ α} {put? : String → Form → Option (σ → σ)}
  {members : List (Option String × Form)}

/-- What a member of an object does to the state of a record, if it may stand there: its key has
content and was not there before, and its value says how the state changes. -/
def step (put? : String → Form → Option (σ → σ)) (state : σ × List String)
    (member : Option String × Form) : Option (σ × List String) :=
  member.1.bind fun key =>
    if key ∈ state.2 then none
    else (put? key member.2).map fun put => (put state.1, key :: state.2)

/-- For a member, `put?` says what the record makes of it: what the field of this name reads, or
nothing if the record has no such field and no others may be there. -/
def Reads (record : Record σ α) (put? : String → Form → Option (σ → σ)) (key : String)
    (v : Form) : Prop :=
  match record.fields.find? (·.name == key) with
  | some field => field.reader.Gives v (put? key v)
  | none => record.strict = true ∧ put? key v = none

theorem givesMember_visit {key : String} {v : Form} (h : record.Reads put? key v)
    (state : σ × List String) :
    (record.visit key state).GivesMember v (step put? state (some key, v)) := by
  unfold Reads at h
  unfold visit step
  rw [Option.bind_some]
  split at h
  · next field hfield =>
    simp only [hfield]
    split
    · exact Reader.givesMember_fail _ _
    · exact h.member.map _
  · next hfield =>
    simp only [hfield, h.1, if_true, h.2, Option.map_none, ite_self]
    exact Reader.givesMember_fail _ _

/-- What the end of reading makes of a state is the record, if the state is one of a record. -/
theorem answers_close (state : σ) (r : List Char) :
    Answers (record.close state r) (record.finish state).toOption r := by
  unfold close
  cases record.finish state with
  | ok a => rfl
  | error problem => exact ⟨.after problem r, rfl⟩

/-- A record is what visiting the members makes of its state, one after the other. -/
theorem gives_object_of_visit {next : σ × List String → Option String × Form →
      Option (σ × List String)}
    (hkey : ∀ state v, (none, v) ∈ members → next state (none, v) = none)
    (hvisit : ∀ state key v, (some key, v) ∈ members →
      (record.visit key state).GivesMember v (next state (some key, v))) :
    record.reader.Gives (.object members)
      ((members.foldlM next (record.start, [])).bind fun state =>
        (record.finish state.1).toOption) := by
  refine Reader.gives_of_pick fun c s r hspells => ?_
  cases hspells with
  | object hmembers =>
    refine ⟨_, rfl, ?_⟩
    change Answers (record.readObject s) _ r
    have hanswer : Answers (readMembers record.visit true (record.start, []) s)
        (members.foldlM next (record.start, [])) r :=
      answers_readMembers hkey hvisit hmembers
    cases hstate : members.foldlM next (record.start, []) with
    | none =>
      rw [hstate] at hanswer
      obtain ⟨fault, hfault⟩ := hanswer
      exact ⟨fault, by rw [readObject, hfault]⟩
    | some state =>
      rw [hstate] at hanswer
      obtain hanswer : readMembers record.visit true (record.start, []) s = .ok (state, r) :=
        hanswer
      rw [readObject, hanswer, Option.bind_some]
      exact answers_close state.1 r

/-- **A record is what its members do to its state.** -/
theorem gives_object (h : ∀ key v, (some key, v) ∈ members → record.Reads put? key v) :
    record.reader.Gives (.object members)
      ((members.foldlM (step put?) (record.start, [])).bind fun state =>
        (record.finish state.1).toOption) :=
  gives_object_of_visit (fun _ _ _ => rfl)
    fun state key v hmem => givesMember_visit (h key v hmem) state

/-! ### All members together -/

/-- What the members of an object say about one thing: every member of this name means the
value, and without such a member it is the default. -/
def Says (members : List (Option String × Form)) (name : String) (Means : Form → β → Prop)
    (default b : β) : Prop :=
  (∀ v, (some name, v) ∈ members → Means v b) ∧ ((∀ v, (some name, v) ∉ members) → b = default)

/-- If a value means one thing only, then so do the members. -/
theorem Says.unique {name : String} {Means : Form → β → Prop} {default b b' : β}
    (hunique : ∀ v, Means v b → Means v b' → b = b') (h : Says members name Means default b)
    (h' : Says members name Means default b') : b = b' := by
  by_cases hmem : ∃ v, (some name, v) ∈ members
  · obtain ⟨v, hv⟩ := hmem
    exact hunique v (h.1 v hv) (h'.1 v hv)
  · rw [not_exists] at hmem
    rw [h.2 hmem, h'.2 hmem]

section Run

variable {state state' : σ} {seen seen' : List String} {key : String} {v : Form}

theorem step_eq_some_iff {next : σ × List String} :
    step put? (state, seen) (some key, v) = some next ↔
      key ∉ seen ∧ ∃ put, put? key v = some put ∧ next = (put state, key :: seen) := by
  rw [step, Option.bind_some]
  split
  · next h => exact ⟨nofun, fun h' => absurd h h'.1⟩
  · next h =>
    rw [Option.map_eq_some_iff]
    constructor
    · rintro ⟨put, hput, rfl⟩
      exact ⟨h, put, hput, rfl⟩
    · rintro ⟨-, put, hput, rfl⟩
      exact ⟨put, hput, rfl⟩

/-- The first of several members, and the others behind it. -/
theorem foldlM_step_cons_eq_some_iff {m : Option String × Form} {last : σ × List String} :
    (m :: members).foldlM (step put?) (state, seen) = some last ↔
      ∃ key put, m.1 = some key ∧ key ∉ seen ∧ put? key m.2 = some put
        ∧ members.foldlM (step put?) (put state, key :: seen) = some last := by
  obtain ⟨key, v⟩ := m
  rw [List.foldlM_cons]
  cases key with
  | none => exact ⟨nofun, by rintro ⟨key, put, ⟨⟩, -⟩⟩
  | some key =>
    simp only [Option.bind_eq_bind, Option.bind_eq_some_iff, step_eq_some_iff]
    constructor
    · rintro ⟨_, ⟨hseen, put, hput, rfl⟩, hrest⟩
      exact ⟨key, put, rfl, hseen, hput, hrest⟩
    · rintro ⟨_, put, ⟨⟩, hseen, hput, hrest⟩
      exact ⟨_, ⟨hseen, put, hput, rfl⟩, hrest⟩

/-- **Members are taken together if they are taken alone** and no key is there twice. -/
theorem isSome_foldlM_step_iff :
    (members.foldlM (step put?) (state, seen)).isSome ↔
      (∀ m ∈ members, ∃ key, m.1 = some key ∧ key ∉ seen ∧ (put? key m.2).isSome)
        ∧ (members.map (·.1)).Nodup := by
  induction members generalizing state seen with
  | nil => simp
  | cons m members ih =>
    rw [Option.isSome_iff_exists]
    simp only [foldlM_step_cons_eq_some_iff]
    constructor
    · rintro ⟨last, key, put, hkey, hseen, hput, hlast⟩
      obtain ⟨halone, hnodup⟩ := ih.1 (Option.isSome_of_eq_some hlast)
      refine ⟨fun m' hm' => ?_, ?_⟩
      · rcases List.mem_cons.1 hm' with rfl | hm'
        · exact ⟨key, hkey, hseen, Option.isSome_of_eq_some hput⟩
        · obtain ⟨key', hkey', hseen', hput'⟩ := halone m' hm'
          exact ⟨key', hkey', fun h => hseen' (List.mem_cons_of_mem _ h), hput'⟩
      · rw [List.map_cons, List.nodup_cons]
        refine ⟨fun hmem => ?_, hnodup⟩
        obtain ⟨m', hm', heq⟩ := List.mem_map.1 hmem
        obtain ⟨key', hkey', hseen', -⟩ := halone m' hm'
        rw [heq, hkey] at hkey'
        cases hkey'
        exact hseen' List.mem_cons_self
    · rintro ⟨halone, hnodup⟩
      rw [List.map_cons, List.nodup_cons] at hnodup
      obtain ⟨key, hkey, hseen, hput⟩ := halone m List.mem_cons_self
      obtain ⟨put, hput⟩ := Option.isSome_iff_exists.1 hput
      have hrest : (members.foldlM (step put?) (put state, key :: seen)).isSome := by
        refine ih.2 ⟨fun m' hm' => ?_, hnodup.2⟩
        obtain ⟨key', hkey', hseen', hput'⟩ := halone m' (List.mem_cons_of_mem _ hm')
        refine ⟨key', hkey', fun h => ?_, hput'⟩
        rcases List.mem_cons.1 h with rfl | h
        · exact hnodup.1 (List.mem_map.2 ⟨m', hm', hkey'.trans hkey.symm⟩)
        · exact hseen' h
      obtain ⟨last, hlast⟩ := Option.isSome_iff_exists.1 hrest
      exact ⟨last, key, put, hkey, hseen, hput, hlast⟩

/-- **A part of the state is what its member says.** The field `name` is for the part that `get`
takes, and no other field changes it. -/
theorem Says.of_foldlM_step {name : String} {get : σ → β} {Means : Form → β → Prop}
    (hput : ∀ key v put s, put? key v = some put →
      if key = name then Means v (get (put s)) else get (put s) = get s)
    (h : members.foldlM (step put?) (state, seen) = some (state', seen')) :
    Says members name Means (get state) (get state') := by
  induction members generalizing state seen with
  | nil =>
    cases h
    exact ⟨nofun, fun _ => rfl⟩
  | cons m members ih =>
    obtain ⟨key, put, hkey, -, hmember, hrest⟩ := foldlM_step_cons_eq_some_iff.1 h
    obtain ⟨_, v⟩ := m
    obtain rfl : _ = some key := hkey
    have hstep := hput key v put state hmember
    have hrun := ih hrest
    by_cases heq : key = name
    · subst heq
      rw [if_pos rfl] at hstep
      -- the members behind this one have other keys
      have habsent : ∀ w, (some key, w) ∉ members := by
        intro w hw
        obtain ⟨key', hkey', hseen', -⟩ :=
          (isSome_foldlM_step_iff.1 (Option.isSome_of_eq_some hrest)).1 _ hw
        cases hkey'
        exact hseen' List.mem_cons_self
      refine ⟨fun w hw => ?_, fun hnot => absurd List.mem_cons_self (hnot v)⟩
      rcases List.mem_cons.1 hw with hw | hw
      · cases hw
        rw [hrun.2 habsent]
        exact hstep
      · exact absurd hw (habsent w)
    · rw [if_neg heq] at hstep
      rw [hstep] at hrun
      refine ⟨fun w hw => hrun.1 w ?_, fun hnot => hrun.2 fun w hw => ?_⟩
      · rcases List.mem_cons.1 hw with hw | hw
        · cases hw
          exact absurd rfl heq
        · exact hw
      · exact hnot w (List.mem_cons_of_mem _ hw)

end Run

/-! ### Records that were written part by part -/

/-- A member that was written for a field, and what the field makes of it. -/
structure FieldPart (σ : Type) where
  name : String
  value : Form
  put : σ → σ

namespace FieldPart

variable {parts : List (FieldPart σ)}

/-- The part as a member of an object. -/
def member (part : FieldPart σ) : Option String × Form := (some part.name, part.value)

/-- How a member changes the state: the part of its name tells. -/
def putOf? (parts : List (FieldPart σ)) (name : String) (_ : Form) : Option (σ → σ) :=
  (parts.find? (·.name == name)).map (·.put)

/-- A part that is the only one of its name is found by it. -/
theorem find?_name {part : FieldPart σ} (hmem : part ∈ parts)
    (hnodup : (parts.map (·.name)).Nodup) : parts.find? (·.name == part.name) = some part := by
  induction parts with
  | nil => cases hmem
  | cons head parts ih =>
    rw [List.map_cons, List.nodup_cons] at hnodup
    rcases List.mem_cons.1 hmem with rfl | hmem
    · exact List.find?_cons_of_pos (beq_self_eq_true _)
    · have hne : (head.name == part.name) = false := beq_eq_false_iff_ne.2 fun heq =>
        hnodup.1 (List.mem_map.2 ⟨part, hmem, heq.symm⟩)
      simp only [List.find?_cons, hne]
      exact ih hmem hnodup.2

/-- All parts go into the state, one after the other. -/
theorem exists_foldlM_step (state : σ) (seen : List String)
    (hput : ∀ part ∈ parts, put? part.name part.value = some part.put)
    (hnodup : (parts.map (·.name)).Nodup) (hseen : ∀ part ∈ parts, part.name ∉ seen) :
    ∃ seen', (parts.map member).foldlM (step put?) (state, seen)
      = some (parts.foldl (fun state part => part.put state) state, seen') := by
  induction parts generalizing state seen with
  | nil => exact ⟨seen, rfl⟩
  | cons part parts ih =>
    rw [List.map_cons, List.nodup_cons] at hnodup
    obtain ⟨seen', hrest⟩ := ih (part.put state) (part.name :: seen)
      (fun other hother => hput other (List.mem_cons_of_mem _ hother)) hnodup.2
      (fun other hother hmem => by
        rcases List.mem_cons.1 hmem with heq | hmem
        · exact hnodup.1 (List.mem_map.2 ⟨other, hother, heq⟩)
        · exact hseen other (List.mem_cons_of_mem _ hother) hmem)
    exact ⟨seen', foldlM_step_cons_eq_some_iff.2 ⟨part.name, part.put, rfl,
      hseen part List.mem_cons_self, hput part List.mem_cons_self, hrest⟩⟩

end FieldPart

/-- A field puts what its reader gives. -/
theorem gives_field {value : Reader β} {v : Form} {b : β} (h : value.Gives v (some b))
    (name : String) (put : β → σ → σ) : (Field.of name value put).reader.Gives v (some (put b)) :=
  h.map put

/-- **What is written part by part is read back.** Each part is what its field reads, and all of
them together make the record. -/
theorem gives_parts (parts : List (FieldPart σ)) {a : α}
    (hparts : ∀ part ∈ parts, ∃ field, record.fields.find? (·.name == part.name) = some field
      ∧ field.reader.Gives part.value (some part.put))
    (hnodup : (parts.map (·.name)).Nodup)
    (hfinish : record.finish (parts.foldl (fun state part => part.put state) record.start)
      = .ok a) :
    record.reader.Gives (.object (parts.map FieldPart.member)) (some a) := by
  have hput : ∀ part ∈ parts, FieldPart.putOf? parts part.name part.value = some part.put := by
    intro part hpart
    rw [FieldPart.putOf?, FieldPart.find?_name hpart hnodup, Option.map_some]
  have hreads : ∀ key v, (some key, v) ∈ parts.map FieldPart.member →
      record.Reads (FieldPart.putOf? parts) key v := by
    intro key v hmem
    obtain ⟨part, hpart, heq⟩ := List.mem_map.1 hmem
    cases heq
    obtain ⟨field, hfield, hgives⟩ := hparts part hpart
    rw [Reads, hfield, hput part hpart]
    exact hgives
  have hgives := gives_object hreads
  obtain ⟨seen, hfold⟩ := FieldPart.exists_foldlM_step record.start [] hput hnodup
    fun _ _ => List.not_mem_nil
  rwa [hfold, Option.bind_some, hfinish] at hgives

end CommandLine.Json.Record
