import CommandLine.Config.Reader
import CommandLine.Proofs.JsonPrinting
import CommandLine.Proofs.JsonRecords
/-!
# CommandLine.Proofs.Settings

**Which texts hold settings, and which settings they hold.** `GivenBy members c` says it without a
reader: the members of an object have known names, no name twice, and each setting is what the
member of its name says. Where there is none, any beginning of a keyword will do, no keyword is
preferred, and one character is enough. A text that spells this object, in any order and with any
blanks, is loaded as `c`, unless the least length is zero; that is refused by name, and all other
objects are refused as JSON.

The settings that are written are given by what is written, so they are loaded again.
-/

namespace CommandLine

open Json (Form Reader Record)
open Json.Record (Says step)

/-- A rule is known by its name. -/
theorem MatchRule.eq_of_name_eq {rule rule' : MatchRule} (h : rule.name = rule'.name) :
    rule = rule' := by
  cases rule <;> cases rule' <;> first | rfl | exact absurd h (by decide)

namespace Config

variable {members : List (Option String × Form)} {c c' : Config} {text : String}

/-- The names of the settings. -/
def names : List String := ["match_rule", "prefer_exact", "min_prefix_len"]

/-- The members of an object give settings: they are known and no two of them have one name, and
they say what the settings are. -/
structure GivenBy (members : List (Option String × Form)) (c : Config) : Prop where
  known : ∀ m ∈ members, ∃ name ∈ names, m.1 = some name
  distinct : (members.map (·.1)).Nodup
  /-- The name of a rule, as a string or as the only key of an object, with `null` for a value. -/
  matchRule : Says members "match_rule" (fun v rule => v.name? = some rule.name)
    .leading c.matchRule
  preferExact : Says members "prefer_exact" (fun v b => v = .boolean b) false c.preferExact
  /-- A number below `2 ^ 64`, of digits only. -/
  minPrefixLength : Says members "min_prefix_len" (fun v n => v.natural? = some n)
    1 c.minPrefixLength

/-- An object gives one choice of settings at most. -/
theorem GivenBy.unique (h : GivenBy members c) (h' : GivenBy members c') : c = c' := by
  have hrule := h.matchRule.unique (fun v hv hv' => ?_) h'.matchRule
  have hexact := h.preferExact.unique (fun v hv hv' => ?_) h'.preferExact
  have hlength := h.minPrefixLength.unique (fun v hv hv' => ?_) h'.minPrefixLength
  · cases c
    cases c'
    cases hrule
    cases hexact
    cases hlength
    rfl
  · rw [hv] at hv'
    exact Option.some.inj hv'
  · rw [hv] at hv'
    exact Form.boolean.inj hv'
  · rw [hv] at hv'
    exact MatchRule.eq_of_name_eq (Option.some.inj hv')

/-! ### What the record makes of an object -/

/-- The rule that a value names. -/
def rule? (v : Form) : Option MatchRule :=
  v.name?.bind fun name => (MatchRule.all.map fun rule => (rule.name, rule)).lookup name

theorem rule?_eq_some_iff {v : Form} {rule : MatchRule} :
    rule? v = some rule ↔ v.name? = some rule.name := by
  rw [rule?, Option.bind_eq_some_iff]
  constructor
  · rintro ⟨name, hname, hlookup⟩
    rw [hname]
    simp only [MatchRule.all, List.map_cons, List.map_nil, List.lookup_cons, List.lookup_nil]
      at hlookup
    split at hlookup
    · next heq =>
      cases hlookup
      rw [beq_iff_eq.1 heq]
    · split at hlookup
      · next heq =>
        cases hlookup
        rw [beq_iff_eq.1 heq]
      · cases hlookup
  · intro hname
    refine ⟨rule.name, hname, ?_⟩
    cases rule <;> decide

theorem boolean?_eq_some_iff {v : Form} {b : Bool} : v.boolean? = some b ↔ v = .boolean b := by
  cases v <;> simp [Form.boolean?]

/-- How a member changes the settings. -/
def put? (name : String) (v : Form) : Option (Config → Config) :=
  if name = "match_rule" then (rule? v).map fun rule c => { c with matchRule := rule }
  else if name = "prefer_exact" then v.boolean?.map fun b c => { c with preferExact := b }
  else if name = "min_prefix_len" then v.natural?.map fun n c => { c with minPrefixLength := n }
  else none

/-- What a member can do: each setting is changed by the member of its name only, to what its
value says. -/
theorem put?_cases {name : String} {v : Form} {put : Config → Config}
    (h : put? name v = some put) :
    (name = "match_rule" ∧ ∃ rule : MatchRule, v.name? = some rule.name
        ∧ put = fun c => { c with matchRule := rule })
      ∨ (name = "prefer_exact" ∧ ∃ b, v = .boolean b ∧ put = fun c => { c with preferExact := b })
      ∨ (name = "min_prefix_len" ∧ ∃ n, v.natural? = some n
        ∧ put = fun c => { c with minPrefixLength := n }) := by
  unfold put? at h
  split at h
  · next hname =>
    obtain ⟨rule, hrule, rfl⟩ := Option.map_eq_some_iff.1 h
    exact .inl ⟨hname, rule, rule?_eq_some_iff.1 hrule, rfl⟩
  split at h
  · next hname =>
    obtain ⟨b, hb, rfl⟩ := Option.map_eq_some_iff.1 h
    exact .inr (.inl ⟨hname, b, boolean?_eq_some_iff.1 hb, rfl⟩)
  split at h
  · next hname =>
    obtain ⟨n, hn, rfl⟩ := Option.map_eq_some_iff.1 h
    exact .inr (.inr ⟨hname, n, hn, rfl⟩)
  · cases h

theorem reads_put? (name : String) (v : Form) : record.Reads put? name v := by
  by_cases hrule : name = "match_rule"
  · subst hrule
    exact (Reader.gives_variant _ v).map _
  by_cases hexact : name = "prefer_exact"
  · subst hexact
    exact (Reader.gives_boolean v).map _
  by_cases hlength : name = "min_prefix_len"
  · subst hlength
    exact (Reader.gives_natural v).map _
  have hfind : record.fields.find? (·.name == name) = none := by
    simp [record, Json.Field.of, Ne.symm hrule, Ne.symm hexact, Ne.symm hlength]
  rw [Record.Reads, hfind]
  exact ⟨rfl, by rw [put?, if_neg hrule, if_neg hexact, if_neg hlength]⟩

/-- The settings that the members of an object give. -/
def of? (members : List (Option String × Form)) : Option Config :=
  (members.foldlM (step put?) (default, [])).map (·.1)

theorem gives_record (members : List (Option String × Form)) :
    record.reader.Gives (.object members) (of? members) := by
  have hof : of? members = (members.foldlM (step put?) (record.start, [])).bind fun state =>
      (record.finish state.1).toOption := by
    rw [of?]
    change Option.map _ (members.foldlM (step put?) (record.start, [])) = _
    cases members.foldlM (step put?) (record.start, []) <;> rfl
  rw [hof]
  exact Record.gives_object fun name v _ => reads_put? name v

/-- What the members make is what they give. -/
theorem givenBy_of_of? (h : of? members = some c) : GivenBy members c := by
  obtain ⟨⟨c', seen⟩, hfold, rfl⟩ := Option.map_eq_some_iff.1 h
  obtain ⟨halone, hdistinct⟩ :=
    Record.isSome_foldlM_step_iff.1 (Option.isSome_of_eq_some hfold)
  refine ⟨fun m hm => ?_, hdistinct,
    show Says members _ _ default.matchRule c'.matchRule from
      .of_foldlM_step (fun name v put s hput => ?_) hfold,
    show Says members _ _ default.preferExact c'.preferExact from
      .of_foldlM_step (fun name v put s hput => ?_) hfold,
    show Says members _ _ default.minPrefixLength c'.minPrefixLength from
      .of_foldlM_step (fun name v put s hput => ?_) hfold⟩
  · obtain ⟨name, hname, -, hput⟩ := halone m hm
    obtain ⟨put, hput⟩ := Option.isSome_iff_exists.1 hput
    refine ⟨name, ?_, hname⟩
    rcases put?_cases hput with ⟨rfl, -⟩ | ⟨rfl, -⟩ | ⟨rfl, -⟩ <;> simp [names]
  all_goals
    rcases put?_cases hput with ⟨rfl, _, hv, rfl⟩ | ⟨rfl, _, hv, rfl⟩ | ⟨rfl, _, hv, rfl⟩
      <;> simp [hv]

/-- Where members give settings, each of them is taken. -/
theorem GivenBy.isSome_of? (h : GivenBy members c) : (of? members).isSome := by
  rw [of?, Option.isSome_map, Record.isSome_foldlM_step_iff]
  refine ⟨fun m hm => ?_, h.distinct⟩
  obtain ⟨name, hname, hm'⟩ := h.known m hm
  obtain ⟨_, v⟩ := m
  obtain rfl : _ = some name := hm'
  refine ⟨name, rfl, List.not_mem_nil, ?_⟩
  simp only [names, List.mem_cons, List.not_mem_nil, or_false] at hname
  rcases hname with rfl | rfl | rfl
  · have hrule := rule?_eq_some_iff.2 (h.matchRule.1 v hm)
    change ((rule? v).map _).isSome
    rw [hrule]
    rfl
  · rw [h.preferExact.1 v hm]
    rfl
  · change (v.natural?.map _).isSome
    rw [h.minPrefixLength.1 v hm]
    rfl

/-- **The record takes the objects that give settings.** -/
theorem of?_eq_some_iff : of? members = some c ↔ GivenBy members c := by
  refine ⟨givenBy_of_of?, fun h => ?_⟩
  obtain ⟨c', hc'⟩ := Option.isSome_iff_exists.1 h.isSome_of?
  rw [hc', (givenBy_of_of? hc').unique h]

/-! ### Whole texts -/

theorem load_of_givenBy (h : (Form.object members).IsText text) (hc : GivenBy members c) :
    load text = if c.minPrefixLength = 0 then
      .error (.field "min_prefix_len" "must be at least 1") else .ok c := by
  have hgives := gives_record members
  rw [of?_eq_some_iff.2 hc] at hgives
  have hparse := h.parse_eq_ok hgives
  rw [load, hparse]
  rfl

theorem load_of_not_givenBy (h : (Form.object members).IsText text)
    (hnone : ∀ c, ¬GivenBy members c) : ∃ e, load text = .error (.json e) := by
  have hof : of? members = none :=
    Option.eq_none_iff_forall_ne_some.2 fun c hc => hnone c (of?_eq_some_iff.1 hc)
  have hgives := gives_record members
  rw [hof] at hgives
  obtain ⟨e, he⟩ := h.exists_parse_error hgives
  exact ⟨e, by rw [load, he]; rfl⟩

theorem one_le_of_load (h : load text = .ok c) : 1 ≤ c.minPrefixLength := by
  obtain ⟨c', -, hcheck⟩ := bind_eq_ok.1 h
  split at hcheck
  · cases hcheck
  · next hpos =>
    cases hcheck
    exact Nat.one_le_iff_ne_zero.2 hpos

/-- The members that are written for settings. -/
def written (c : Config) : List (Option String × Form) :=
  [(some "match_rule", .text (some c.matchRule.name)),
    (some "prefer_exact", .boolean c.preferExact),
    (some "min_prefix_len", .number (Nat.toDigits 10 c.minPrefixLength))]

theorem form_toJson (c : Config) : c.toJson.form = .object c.written := rfl

theorem givenBy_written (h : c.minPrefixLength < Nat.pow 2 64) : GivenBy c.written c where
  known := by simp [written, names]
  distinct := by simp [written]
  matchRule := by simp [Says, written, Form.name?]
  preferExact := by simp [Says, written]
  minPrefixLength := by simp [Says, written, Json.natural?_toDigits h]

theorem load_of_isText_toJson (h : c.toJson.form.IsText text) (hpos : 1 ≤ c.minPrefixLength)
    (hlt : c.minPrefixLength < Nat.pow 2 64) : load text = .ok c := by
  rw [load_of_givenBy h (givenBy_written hlt), if_neg (by omega)]

/-- **Texts are loaded for the settings they give.** Of the texts that spell an object, those are
loaded that give settings with a least length from one on. A least length of zero is refused by
its name, and every other object as no settings at all. No text is loaded with a least length of
zero, whatever it spells. Settings are loaded from what is written for them; their least length is
a machine word, so it lies below `2 ^ 64`. -/
theorem load_accepts_exactly :
    (∀ members text, (Form.object members).IsText text →
      (∀ c, load text = .ok c ↔ GivenBy members c ∧ 1 ≤ c.minPrefixLength)
        ∧ (load text = .error (.field "min_prefix_len" "must be at least 1") ↔
          ∃ c, GivenBy members c ∧ c.minPrefixLength = 0)
        ∧ ((∃ e, load text = .error (.json e)) ↔ ∀ c, ¬GivenBy members c))
      ∧ (∀ text c, load text = .ok c → 1 ≤ c.minPrefixLength)
      ∧ ∀ c : Config, 1 ≤ c.minPrefixLength → c.minPrefixLength < Nat.pow 2 64 →
        load c.toJson.compact = .ok c ∧ load c.toJson.pretty = .ok c := by
  refine ⟨fun members text h => ?_, fun text c => one_le_of_load, fun c hpos hlt =>
    ⟨load_of_isText_toJson c.toJson.isText_compact hpos hlt,
      load_of_isText_toJson c.toJson.isText_pretty hpos hlt⟩⟩
  by_cases hgiven : ∃ c, GivenBy members c
  · obtain ⟨c, hc⟩ := hgiven
    have hload := load_of_givenBy h hc
    have hunique (c') : GivenBy members c' ↔ c' = c :=
      ⟨fun hc' => hc'.unique hc, fun heq => heq ▸ hc⟩
    simp only [hunique, exists_eq_left, hload]
    by_cases hzero : c.minPrefixLength = 0
    · simp [hzero]
    · rw [if_neg hzero]
      refine ⟨fun c' => ⟨?_, ?_⟩, by simp [hzero], by simp⟩
      · rintro ⟨⟩
        exact ⟨rfl, Nat.one_le_iff_ne_zero.2 hzero⟩
      · rintro ⟨rfl, -⟩
        rfl
  · rw [not_exists] at hgiven
    obtain ⟨e, he⟩ := load_of_not_givenBy h hgiven
    simp [he, hgiven]

/-- Members in another order, with the object form of a rule, the largest number and no
`prefer_exact`. -/
def reordered : Json.Value :=
  .object [("min_prefix_len", .natural 18446744073709551615),
    ("match_rule", .object [("exact", .null)])]

theorem givenBy_reordered :
    ∃ members, reordered.form = .object members
      ∧ GivenBy members ⟨.whole, false, 18446744073709551615⟩ :=
  ⟨[(some "min_prefix_len", .number (Nat.toDigits 10 18446744073709551615)),
      (some "match_rule", .object [(some "exact", .null)])], rfl,
    { known := by simp [names]
      distinct := by simp
      matchRule := by simp [Says, Form.name?, MatchRule.name]
      preferExact := by simp [Says]
      minPrefixLength := by simp [Says, Json.natural?_toDigits] }⟩

/-- These settings, a least length of zero, and the exact settings as they are written. -/
theorem load_reordered :
    reordered.pretty = "\x7b\n  \"min_prefix_len\": 18446744073709551615,\n"
        ++ "  \"match_rule\": \x7b\n    \"exact\": null\n  \x7d\n\x7d"
      ∧ load reordered.pretty = .ok ⟨.whole, false, 18446744073709551615⟩
      ∧ load "\x7b\"min_prefix_len\":0\x7d" = .error (.field "min_prefix_len" "must be at least 1")
      ∧ load exact.toJson.compact = .ok exact := by
  obtain ⟨hobject, -, hwritten⟩ := load_accepts_exactly
  refine ⟨by decide +kernel, ?_, ?_, (hwritten exact (by decide) (by decide)).1⟩
  · obtain ⟨members, hform, hgiven⟩ := givenBy_reordered
    have htext := hform ▸ reordered.isText_pretty
    exact ((hobject _ _ htext).1 _).2 ⟨hgiven, by decide⟩
  · have hgiven : GivenBy [(some "min_prefix_len", .number ['0'])] ⟨.leading, false, 0⟩ :=
      { known := by simp [names]
        distinct := by simp
        matchRule := by simp [Says]
        preferExact := by simp [Says]
        minPrefixLength := by
          simp only [Says, List.mem_singleton]
          exact ⟨by rintro v ⟨⟩; rfl, fun hnot => absurd rfl (hnot _)⟩ }
    have htext := (Json.Value.object [("min_prefix_len", .natural 0)]).isText_compact
    exact (hobject _ _ htext).2.1.2 ⟨_, hgiven, rfl⟩

end Config

end CommandLine
