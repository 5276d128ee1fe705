import CommandLine.Diagnostic.Reader
import CommandLine.Proofs.DiagnosticRoundTrip
import CommandLine.Proofs.LenientRecords
import CommandLine.Proofs.Outcome
/-!
# CommandLine.Proofs.SpanOrder

**Which spans are in order.** A span that is made by `Span.between?` or `Span.empty` does not stop
before it starts. A span that is read as part of a diagnostic is not compared with anything: its
offsets are those that the text gives, in order or not. So whether the span of a diagnostic is in
order, and has a width at all, depends on where the diagnostic comes from (`Diagnostic.Source`).

For a text, `Diagnostic.SpanMember` and `Span.Offsets` say where it gives the offsets: by the names
of members or by the places of items, each for the diagnostic and for its span. That these offsets,
and no others, are read is proved for all JSON texts that are a diagnostic, whatever other members
they have and in whatever order.
-/

namespace CommandLine

open Json (Form Reader Record)

/-! ### Values that may be missing, and maps -/

namespace Json

variable {α : Type} {value? : Form → Option α}

/-- What a value is that may be `null`. -/
def Form.orNull? (value? : Form → Option α) : Form → Option (Option α)
  | null => some none
  | v => (value? v).map some

/-- The map that a value is. -/
def Form.map? (value? : Form → Option α) : Form → Option (SortedMap α)
  | object members => mapOf? value? members
  | _ => none

theorem Form.lt_of_natural? {v : Form} {n : Nat} (h : v.natural? = some n) : n < Nat.pow 2 64 := by
  cases v with
  | number literal =>
    rw [Form.natural?] at h
    split at h
    · next hroom =>
      cases h
      exact hroom.2
    · cases h
  | null | boolean | text | array | object => cases h

theorem Form.orNull?_of_ne {v : Form} (hv : v ≠ .null) :
    v.orNull? value? = (value? v).map some := by
  cases v with
  | null => exact absurd rfl hv
  | boolean | number | text | array | object => rfl

theorem Reader.gives_orNull {reader : Reader α} (h : ∀ v, reader.Gives v (value? v)) (v : Form) :
    (optional reader).Gives v (v.orNull? value?) := by
  by_cases hnull : v = .null
  · subst hnull
    intro t₀ t r hblanks hspells _
    cases hspells with
    | null =>
      change (optional reader).run t₀ = .ok (none, r)
      simp only [optional, afterBlanks, skipBlanks_of_blanks_cons hblanks (by decide)]
      exact run_named ['u', 'l', 'l'] r none
  · rw [Form.orNull?_of_ne hnull]
    exact (h v).optional hnull

theorem Reader.gives_map {reader : Reader α} (h : ∀ v, reader.Gives v (value? v)) (v : Form) :
    (sortedMap reader).Gives v (v.map? value?) := by
  cases v with
  | object members => exact gives_sortedMap fun _ v _ => h v
  | null | boolean | number | text | array =>
    refine gives_none_of_pick fun c hc => if_neg ?_
    rintro rfl
    obtain ⟨members, hobject⟩ := hc.exists_object
    cases hobject

end Json

theorem neededField_eq_ok {α : Type} {name : String} {value : Option α} {a : α} :
    neededField name value = .ok a ↔ value = some a := by
  cases value with
  | none => simp [neededField]
  | some b => simp [neededField]

/-! ### Spans -/

namespace Span

/-- The span does not stop before it starts. -/
def InOrder (span : Span) : Prop := span.start ≤ span.stop

instance (span : Span) : Decidable span.InOrder := inferInstanceAs (Decidable (_ ≤ _))

/-- A span that is made is in order. -/
theorem inOrder_of_between? {start stop : Nat} {span : Span} (h : between? start stop = .ok span) :
    span.InOrder := by
  unfold between? at h
  split at h
  · cases h
  · next hle =>
    cases h
    exact Nat.not_lt.1 hle

/-- The width leads from the start to the stop, and is there if the span is in order. -/
theorem length?_eq_some_iff {span : Span} {n : Nat} :
    span.length? = some n ↔ span.InOrder ∧ span.start + n = span.stop := by
  unfold length? InOrder
  split
  · next hlt =>
    constructor
    · intro h
      cases h
    · intro h
      exact absurd h.1 (Nat.not_le.2 hlt)
  · next hle =>
    rw [Option.some.injEq]
    omega

theorem length?_eq_none_iff {span : Span} : span.length? = none ↔ ¬span.InOrder := by
  rw [Option.eq_none_iff_forall_ne_some]
  constructor
  · intro h horder
    exact h _ (length?_eq_some_iff.2 ⟨horder, Nat.add_sub_of_le horder⟩)
  · intro h n hn
    exact h (length?_eq_some_iff.1 hn).1

/-- Wrapped round, the width of a span that is not in order leads as far as there are words behind
the stop. -/
theorem start_add_length {span : Span} (h : span.Fits) :
    span.start + span.length = if span.InOrder then span.stop else span.stop + Nat.pow 2 64 := by
  have hstart : span.start < Nat.pow 2 64 := h.1
  have hstop : span.stop < Nat.pow 2 64 := h.2
  have hlength : span.length = (Nat.pow 2 64 - span.start + span.stop) % Nat.pow 2 64 := by
    show (UInt64.ofNat span.stop - UInt64.ofNat span.start).toNat = _
    rw [UInt64.toNat_sub, UInt64.toNat_ofNat', UInt64.toNat_ofNat', Nat.mod_eq_of_lt hstart,
      Nat.mod_eq_of_lt hstop]
  have hwords : Nat.pow 2 64 = 18446744073709551616 := rfl
  rw [hwords] at hstart hstop hlength ⊢
  by_cases horder : span.InOrder
  · rw [if_pos horder]
    unfold InOrder at horder
    omega
  · rw [if_neg horder]
    unfold InOrder at horder
    omega

/-- The offsets that a value gives for a span. -/
inductive Offsets : Form → Nat → Nat → Prop
  | object {members : List (Option String × Form)} {first last : Form} {start stop : Nat}
      (hfirst : (some "start", first) ∈ members) (hlast : (some "end", last) ∈ members)
      (hstart : first.natural? = some start) (hstop : last.natural? = some stop) :
      Offsets (.object members) start stop
  | array {first last : Form} {start stop : Nat} (hstart : first.natural? = some start)
      (hstop : last.natural? = some stop) : Offsets (.array [first, last]) start stop

/-- Offsets that are read are machine words. -/
theorem Offsets.fits {v : Form} {start stop : Nat} (h : Offsets v start stop) :
    (Span.mk start stop).Fits := by
  cases h with
  | object _ _ hstart hstop =>
    exact ⟨Form.lt_of_natural? hstart, Form.lt_of_natural? hstop⟩
  | array hstart hstop => exact ⟨Form.lt_of_natural? hstart, Form.lt_of_natural? hstop⟩

/-- What a part of a span makes of it. -/
def put? (name : String) (v : Form) : Option (Partial → Partial) :=
  match name with
  | "start" => v.natural?.map fun n p => { p with start := some n }
  | "end" => v.natural?.map fun n p => { p with stop := some n }
  | _ => none

theorem fieldsGive_put? : record.FieldsGive put? := by
  intro field hfield v
  simp only [record, List.mem_cons, List.not_mem_nil, or_false] at hfield
  rcases hfield with rfl | rfl
  · exact (Reader.gives_natural v).map _
  · exact (Reader.gives_natural v).map _

/-- The span that a value is. -/
def of? (v : Form) : Option Span := record.of? put? v

theorem gives_of? (v : Form) : record.reader.Gives v (of? v) :=
  Record.gives_of? rfl rfl fieldsGive_put? v

theorem finish_eq_ok {p : Partial} {span : Span} :
    record.finish p = .ok span ↔ p.start = some span.start ∧ p.stop = some span.stop := by
  change (neededField "start" p.start >>= fun start =>
    neededField "end" p.stop >>= fun stop => pure (Span.mk start stop)) = _ ↔ _
  simp only [bind_eq_ok, pure_eq_ok, neededField_eq_ok]
  constructor
  · intro h
    obtain ⟨start, hstart, stop, hstop, rfl⟩ := h
    exact ⟨hstart, hstop⟩
  · intro h
    exact ⟨span.start, h.1, span.stop, h.2, rfl⟩

theorem put?_cases {key : String} {v : Form} {put : Partial → Partial}
    (h : put? key v = some put) :
    (key = "start" ∧ ∃ n, v.natural? = some n ∧ put = fun p => { p with start := some n })
      ∨ (key = "end" ∧ ∃ n, v.natural? = some n ∧ put = fun p => { p with stop := some n }) := by
  unfold put? at h
  split at h
  · obtain ⟨n, hn, rfl⟩ := Option.map_eq_some_iff.1 h
    exact .inl ⟨rfl, n, hn, rfl⟩
  · obtain ⟨n, hn, rfl⟩ := Option.map_eq_some_iff.1 h
    exact .inr ⟨rfl, n, hn, rfl⟩
  · cases h

/-- What is read of each offset is what the member of its name gives. -/
theorem says_offsets {members : List (Option String × Form)} {p : Partial} {seen : List String}
    (h : (members.filter record.concerns).foldlM (Record.step put?) (record.start, [])
      = some (p, seen)) :
    Record.Says members "start" (fun v n => v.natural? = n) none p.start
      ∧ Record.Says members "end" (fun v n => v.natural? = n) none p.stop := by
  refine ⟨.of_filter rfl (.of_foldlM_step (fun key v put s hput => ?_) h),
    .of_filter rfl (.of_foldlM_step (fun key v put s hput => ?_) h)⟩
  all_goals rcases put?_cases hput with ⟨rfl, n, hn, rfl⟩ | ⟨rfl, n, hn, rfl⟩ <;> simp [hn]

/-- **A span has the offsets that its value gives.** -/
theorem offsets_iff {v : Form} {span : Span} (h : of? v = some span) {start stop : Nat} :
    Offsets v start stop ↔ span = ⟨start, stop⟩ := by
  cases v with
  | object members =>
    obtain ⟨p, seen, hfold, hfinish⟩ := Record.exists_of_object h
    obtain ⟨hstart, hstop⟩ := finish_eq_ok.1 hfinish
    obtain ⟨hfirst, hlast⟩ := says_offsets hfold
    rw [hstart] at hfirst
    rw [hstop] at hlast
    constructor
    · intro hoffsets
      cases hoffsets with
      | object hmem hmem' hnumber hnumber' =>
        have heq := (hfirst.1 _ hmem).symm.trans hnumber
        have heq' := (hlast.1 _ hmem').symm.trans hnumber'
        cases heq
        cases heq'
        rfl
    · intro heq
      subst heq
      obtain ⟨first, hmem, hnumber⟩ := hfirst.exists_mem nofun
      obtain ⟨last, hmem', hnumber'⟩ := hlast.exists_mem nofun
      exact .object hmem hmem' hnumber hnumber'
  | array items =>
    obtain ⟨p, hput, hfinish⟩ := Record.exists_of_array h
    obtain ⟨hstart, hstop⟩ := finish_eq_ok.1 hfinish
    obtain ⟨first, _, put, rfl, hfirst, hput⟩ := Record.putItems?_cons_eq_some.1 hput
    obtain ⟨last, _, put', rfl, hlast, hput⟩ := Record.putItems?_cons_eq_some.1 hput
    obtain ⟨rfl, rfl⟩ := Record.putItems?_nil_eq_some.1 hput
    obtain ⟨n, hn, rfl⟩ := Option.map_eq_some_iff.1 hfirst
    obtain ⟨m, hm, rfl⟩ := Option.map_eq_some_iff.1 hlast
    cases hstart
    cases hstop
    constructor
    · intro hoffsets
      cases hoffsets with
      | array hnumber hnumber' =>
        cases hn.symm.trans hnumber
        cases hm.symm.trans hnumber'
        rfl
    · intro heq
      cases heq
      exact .array hn hm
  | null | boolean | number | text => cases h

/-- The same of a span that may be `null`. -/
theorem orNull_offsets_iff {v : Form} {span : Option Span} (h : v.orNull? of? = some span)
    {start stop : Nat} : Offsets v start stop ↔ span = some ⟨start, stop⟩ := by
  by_cases hnull : v = .null
  · subst hnull
    cases h
    constructor
    · intro hoffsets
      cases hoffsets
    · intro heq
      cases heq
  · rw [Form.orNull?_of_ne hnull] at h
    obtain ⟨read, hread, rfl⟩ := Option.map_eq_some_iff.1 h
    rw [offsets_iff hread, Option.some_inj]

end Span

/-! ### Diagnostics -/

namespace Diagnostic

/-- The value that is the span of a diagnostic. -/
inductive SpanMember : Form → Form → Prop
  | object {members : List (Option String × Form)} {v : Form} (h : (some "span", v) ∈ members) :
      SpanMember (.object members) v
  | array {id severity message v context : Form} :
      SpanMember (.array [id, severity, message, v, context]) v

/-- What a part of a diagnostic makes of it. -/
def put? (name : String) (v : Form) : Option (Partial → Partial) :=
  match name with
  | "id" => v.text?.map fun s p => { p with id := some s }
  | "severity" =>
    (v.name?.bind fun name => (Severity.all.map fun severity => (severity.name, severity)).lookup
      name).map fun severity p => { p with severity := some severity }
  | "message" => v.text?.map fun s p => { p with message := some s }
  | "span" => (v.orNull? Span.of?).map fun span p => { p with span }
  | "context" => (v.orNull? (Form.map? Form.text?)).map fun context p => { p with context }
  | _ => none

theorem fieldsGive_put? : record.FieldsGive put? := by
  intro field hfield v
  simp only [record, List.mem_cons, List.not_mem_nil, or_false] at hfield
  rcases hfield with rfl | rfl | rfl | rfl | rfl
  · exact (Reader.gives_text v).map _
  · exact (Reader.gives_variant _ v).map _
  · exact (Reader.gives_text v).map _
  · exact (Reader.gives_orNull Span.gives_of? v).map _
  · exact (Reader.gives_orNull (Reader.gives_map Reader.gives_text) v).map _

/-- The diagnostic that a value is. -/
def of? (v : Form) : Option Diagnostic := record.of? put? v

theorem gives_of? (v : Form) : record.reader.Gives v (of? v) :=
  Record.gives_of? rfl rfl fieldsGive_put? v

/-- A JSON text is read as the diagnostic that its value is. -/
theorem of?_of_parse {v : Form} {text : String} {d : Diagnostic} (htext : v.IsText text)
    (h : parse text = .ok d) : of? v = some d := by
  have hgives := gives_of? v
  cases hof : of? v with
  | none =>
    rw [hof] at hgives
    obtain ⟨e, he⟩ := htext.exists_parse_error hgives
    cases he.symm.trans h
  | some d' =>
    rw [hof] at hgives
    cases (htext.parse_eq_ok hgives).symm.trans h
    rfl

theorem span_of_finish {p : Partial} {d : Diagnostic} (h : record.finish p = .ok d) :
    d.span = p.span := by
  obtain ⟨id, -, h⟩ := bind_eq_ok.1 h
  obtain ⟨severity, -, h⟩ := bind_eq_ok.1 h
  obtain ⟨message, -, h⟩ := bind_eq_ok.1 h
  cases h
  rfl

/-- The span is what the part of this name makes it, and no other part changes it. -/
theorem span_of_put? {key : String} {v : Form} {put : Partial → Partial}
    (h : put? key v = some put) (p : Partial) :
    if key = "span" then v.orNull? Span.of? = some (put p).span else (put p).span = p.span := by
  unfold put? at h
  split at h
  · obtain ⟨_, -, rfl⟩ := Option.map_eq_some_iff.1 h
    rfl
  · obtain ⟨_, -, rfl⟩ := Option.map_eq_some_iff.1 h
    rfl
  · obtain ⟨_, -, rfl⟩ := Option.map_eq_some_iff.1 h
    rfl
  · obtain ⟨span, hspan, rfl⟩ := Option.map_eq_some_iff.1 h
    exact hspan
  · obtain ⟨_, -, rfl⟩ := Option.map_eq_some_iff.1 h
    rfl
  · cases h

/-- **A diagnostic has the span that its value gives.** -/
theorem span_eq_some_iff {v : Form} {d : Diagnostic} (h : of? v = some d) (start stop : Nat) :
    d.span = some ⟨start, stop⟩ ↔ ∃ w, SpanMember v w ∧ Span.Offsets w start stop := by
  cases v with
  | object members =>
    obtain ⟨p, seen, hfold, hfinish⟩ := Record.exists_of_object h
    have hgiven : Record.Says members "span" (fun v span => v.orNull? Span.of? = some span)
        record.start.span p.span := by
      refine .of_filter rfl (.of_foldlM_step (fun key v put s hput => ?_) hfold)
      exact span_of_put? hput s
    rw [span_of_finish hfinish]
    constructor
    · intro hspan
      rw [hspan] at hgiven
      obtain ⟨w, hmem, hw⟩ := hgiven.exists_mem nofun
      exact ⟨w, .object hmem, (Span.orNull_offsets_iff hw).2 rfl⟩
    · intro hwritten
      obtain ⟨w, hmember, hoffsets⟩ := hwritten
      cases hmember with
      | object hmem => exact (Span.orNull_offsets_iff (hgiven.1 w hmem)).1 hoffsets
  | array items =>
    obtain ⟨p, hput, hfinish⟩ := Record.exists_of_array h
    obtain ⟨id, _, put₁, rfl, hid, hput⟩ := Record.putItems?_cons_eq_some.1 hput
    obtain ⟨severity, _, put₂, rfl, hseverity, hput⟩ := Record.putItems?_cons_eq_some.1 hput
    obtain ⟨message, _, put₃, rfl, hmessage, hput⟩ := Record.putItems?_cons_eq_some.1 hput
    obtain ⟨w, _, put₄, rfl, hw, hput⟩ := Record.putItems?_cons_eq_some.1 hput
    obtain ⟨context, _, put₅, rfl, hcontext, hput⟩ := Record.putItems?_cons_eq_some.1 hput
    obtain ⟨rfl, rfl⟩ := Record.putItems?_nil_eq_some.1 hput
    have hspan := span_of_put? hw (put₃ (put₂ (put₁ record.start)))
    have hbehind := span_of_put? hcontext (put₄ (put₃ (put₂ (put₁ record.start))))
    have hread : w.orNull? Span.of? = some d.span := by
      rw [span_of_finish hfinish]
      exact hspan.trans (congrArg some hbehind.symm)
    rw [← Span.orNull_offsets_iff hread]
    constructor
    · intro hoffsets
      exact ⟨w, .array, hoffsets⟩
    · intro hwritten
      obtain ⟨w', hmember, hoffsets⟩ := hwritten
      cases hmember
      exact hoffsets
  | null | boolean | number | text => cases h

/-! ### Where diagnostics come from -/

/-- Where a diagnostic has its span from. -/
inductive Source where
  /-- The span was made of two offsets. -/
  | made (start stop : Nat)
  /-- The span was made of one offset. -/
  | empty (offset : Nat)
  /-- The diagnostic was read from a text that spells a JSON value. -/
  | read (text : String) (v : Form)

/-- The diagnostics that come from there. -/
def Source.Yields : Source → Diagnostic → Prop
  | made start stop, d => ∃ span, Span.between? start stop = .ok span ∧ d.span = some span
  | empty offset, d => d.span = some (.empty offset)
  | read text v, d => v.IsText text ∧ parse text = .ok d

/-- Whether the offsets that are given there for a span are in order. Where a span is made, they
are checked. -/
def Source.InOrder : Source → Prop
  | made _ _ | empty _ => True
  | read _ v => ∀ w start stop, SpanMember v w → Span.Offsets w start stop → start ≤ stop

/-- **A span is in order if its source is.** Spans that are made are always in order. A span that
is read is in order just in case the text gives it so, as an object or as an array; nothing else
is asked of its offsets, which are machine words. So the width of a span can lie below zero, just
where the text gives the offsets in the wrong order. A width that does not is what leads from the
start to the stop; one that does is no number, or is wrapped round and leads `2 ^ 64` bytes
farther. -/
theorem span_order_by_source {source : Source} {d : Diagnostic} (h : source.Yields d) :
    ((∀ span ∈ d.span, span.InOrder) ↔ source.InOrder)
      ∧ ((∃ span ∈ d.span, span.length? = none) ↔ ¬source.InOrder)
      ∧ (∀ text v, source = .read text v → ∀ span ∈ d.span, span.Fits)
      ∧ ∀ span ∈ d.span,
        (∀ n, span.length? = some n ↔ span.InOrder ∧ span.start + n = span.stop)
          ∧ (span.Fits → span.start + span.length
            = if span.InOrder then span.stop else span.stop + Nat.pow 2 64) := by
  have horder : (∀ span ∈ d.span, span.InOrder) ↔ source.InOrder := by
    cases source with
    | made start stop =>
      obtain ⟨span, hmade, hspan⟩ := h
      refine iff_of_true (fun span' hspan' => ?_) trivial
      cases hspan.symm.trans hspan'
      exact Span.inOrder_of_between? hmade
    | empty offset =>
      refine iff_of_true (fun span hspan => ?_) trivial
      cases h.symm.trans hspan
      exact Nat.le_refl offset
    | read text v =>
      have hwritten := span_eq_some_iff (of?_of_parse h.1 h.2)
      constructor
      · intro horder w start stop hmember hoffsets
        exact horder ⟨start, stop⟩ ((hwritten start stop).2 ⟨w, hmember, hoffsets⟩)
      · intro horder span hspan
        obtain ⟨w, hmember, hoffsets⟩ := (hwritten span.start span.stop).1 hspan
        exact horder w span.start span.stop hmember hoffsets
  refine ⟨horder, ?_, fun text v hsource span hspan => ?_,
    fun span _ => ⟨fun n => Span.length?_eq_some_iff, Span.start_add_length⟩⟩
  · simp only [← horder, Span.length?_eq_none_iff, not_forall, exists_prop]
  · subst hsource
    obtain ⟨w, -, hoffsets⟩ :=
      (span_eq_some_iff (of?_of_parse h.1 h.2) span.start span.stop).1 hspan
    exact hoffsets.fits

/-- A diagnostic whose span stops before it starts. -/
def inverted : Diagnostic := ⟨"x", .error, "m", some ⟨5, 3⟩, none⟩

/-- The same, written item by item. -/
def invertedItems : Json.Value :=
  .array [.text "x", .text "error", .text "m", .array [.natural 5, .natural 3], .null]

theorem span_order_inverted :
    invertedItems.compact = "[\"x\",\"error\",\"m\",[5,3],null]"
      ∧ (Source.read invertedItems.compact invertedItems.form).Yields inverted
      ∧ ¬(Source.read invertedItems.compact invertedItems.form).InOrder
      ∧ (Span.mk 5 3).length? = none ∧ (Span.mk 5 3).length = 18446744073709551614 := by
  have htext := invertedItems.isText_compact
  have hparse : parse invertedItems.compact = .ok inverted :=
    htext.parse_eq_ok (gives_of? _)
  have hyields : (Source.read invertedItems.compact invertedItems.form).Yields inverted :=
    ⟨htext, hparse⟩
  obtain ⟨horder, hwidth, hfits, hlength⟩ := span_order_by_source hyields
  have hnot : ¬(Source.read invertedItems.compact invertedItems.form).InOrder := by
    intro hinOrder
    exact absurd (horder.2 hinOrder ⟨5, 3⟩ rfl) (by decide)
  obtain ⟨span, hspan, hnone⟩ := hwidth.2 hnot
  cases hspan
  have hwrapped : 5 + (Span.mk 5 3).length = 18446744073709551619 :=
    (hlength ⟨5, 3⟩ rfl).2 (hfits _ _ rfl ⟨5, 3⟩ rfl)
  exact ⟨by decide +kernel, hyields, hnot, hnone, by omega⟩

/-- Not every span that is read is in order, or has a width. -/
theorem parse_inverted :
    parse ("\x7b\"id\":\"x\",\"severity\":\"error\",\"message\":\"m\","
        ++ "\"span\":\x7b\"start\":5,\"end\":3\x7d\x7d") = .ok inverted
      ∧ inverted.span = some ⟨5, 3⟩ ∧ ¬(Span.mk 5 3).InOrder ∧ (Span.mk 5 3).length? = none := by
  have htext : inverted.toJson.compact
      = "\x7b\"id\":\"x\",\"severity\":\"error\",\"message\":\"m\","
        ++ "\"span\":\x7b\"start\":5,\"end\":3\x7d\x7d" := by
    decide +kernel
  refine ⟨?_, rfl, by decide, by decide⟩
  rw [← htext]
  exact inverted.toJson.isText_compact.parse_eq_ok (gives_of? _)

end Diagnostic

end CommandLine
