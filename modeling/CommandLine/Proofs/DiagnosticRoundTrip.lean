import CommandLine.Diagnostic.Reader
import CommandLine.Proofs.JsonPrinting
import CommandLine.Proofs.JsonRecords
import CommandLine.Proofs.SortedMap
/-!
# CommandLine.Proofs.DiagnosticRoundTrip

**A diagnostic that was written is read back.** What is written for a diagnostic is put together
of parts, a member for each field; an absent span or context has no member. `Record.gives_parts`
then asks for each field alone whether it reads what was written for it: a string, a number, a
name, a span, a map.
-/

namespace CommandLine

open Json (Form Reader Record)
open Json.Record (FieldPart)

/-- Offsets that fit into 64 bits, as all offsets do that were read. -/
def Span.Fits (span : Span) : Prop := span.start < Nat.pow 2 64 ∧ span.stop < Nat.pow 2 64

/-! ### Spans -/

namespace Span

/-- The members that are written for a span. -/
def parts (span : Span) : List (FieldPart Partial) :=
  [⟨"start", .number (Nat.toDigits 10 span.start), fun p => { p with start := some span.start }⟩,
    ⟨"end", .number (Nat.toDigits 10 span.stop), fun p => { p with stop := some span.stop }⟩]

theorem form_toJson (span : Span) :
    span.toJson.form = .object (span.parts.map FieldPart.member) := rfl

theorem gives_toJson {span : Span} (h : span.Fits) :
    record.reader.Gives span.toJson.form (some span) := by
  refine Record.gives_parts span.parts (fun part hpart => ?_) (by simp [parts]) rfl
  simp only [parts, List.mem_cons, List.not_mem_nil, or_false] at hpart
  rcases hpart with rfl | rfl
  · exact ⟨_, rfl, Record.gives_field (Json.gives_toDigits h.1) _ _⟩
  · exact ⟨_, rfl, Record.gives_field (Json.gives_toDigits h.2) _ _⟩

end Span

/-! ### Severities and contexts -/

theorem Severity.gives_name (severity : Severity) :
    reader.Gives (.text (some severity.name)) (some severity) := by
  have hgives := Reader.gives_variant (all.map fun severity => (severity.name, severity))
    (.text (some severity.name))
  have hlookup : (all.map fun severity => (severity.name, severity)).lookup severity.name
      = some severity := by
    cases severity <;> decide
  rwa [Form.name?, Option.bind_some, hlookup] at hgives

namespace Diagnostic

theorem form_contextToJson (context : SortedMap String) :
    (contextToJson context).form
      = .object (context.entries.map fun e => (some e.1, .text (some e.2))) := by
  rw [contextToJson, Json.Value.form, Json.Value.formMembers_eq_map, List.map_map]
  rfl

/-- A context is read back, also if it is empty. -/
theorem gives_contextToJson (context : SortedMap String) :
    (Reader.sortedMap Reader.text).Gives (contextToJson context).form (some context) := by
  rw [form_contextToJson]
  have hmap : Form.mapOf? Form.text? (context.entries.map fun e => (some e.1, .text (some e.2)))
      = some context := by
    rw [Form.mapOf?, List.foldlM_map]
    exact List.foldlM_pure.trans (congrArg some context.ofList_entries)
  rw [← hmap]
  exact Json.gives_sortedMap fun _ v _ => Reader.gives_text v

/-! ### Diagnostics -/

/-- The members that are written for a diagnostic. -/
def parts (d : Diagnostic) : List (FieldPart Partial) :=
  [⟨"id", .text (some d.id), fun p => { p with id := some d.id }⟩,
    ⟨"severity", .text (some d.severity.name), fun p => { p with severity := some d.severity }⟩,
    ⟨"message", .text (some d.message), fun p => { p with message := some d.message }⟩]
    ++ (d.span.map fun span =>
      ⟨"span", span.toJson.form, fun p => { p with span := some span }⟩).toList
    ++ (d.context.map fun context =>
      ⟨"context", (contextToJson context).form, fun p => { p with context := some context }⟩).toList

theorem form_toJson (d : Diagnostic) : d.toJson.form = .object (d.parts.map FieldPart.member) := by
  obtain ⟨id, severity, message, span, context⟩ := d
  cases span <;> cases context <;> rfl

/-- Each field reads what is written for it. -/
theorem gives_parts {d : Diagnostic} (h : ∀ span ∈ d.span, span.Fits) {part : FieldPart Partial}
    (hpart : part ∈ d.parts) :
    ∃ field, record.fields.find? (·.name == part.name) = some field
      ∧ field.reader.Gives part.value (some part.put) := by
  simp only [parts, List.mem_append, List.mem_cons, List.not_mem_nil, or_false,
    Option.mem_toList, Option.map_eq_some_iff] at hpart
  rcases hpart with ((rfl | rfl | rfl) | ⟨span, hspan, rfl⟩) | ⟨context, -, rfl⟩
  · exact ⟨_, rfl, Record.gives_field (Reader.gives_text _) _ _⟩
  · exact ⟨_, rfl, Record.gives_field d.severity.gives_name _ _⟩
  · exact ⟨_, rfl, Record.gives_field (Reader.gives_text _) _ _⟩
  · exact ⟨_, rfl, Record.gives_field ((Span.gives_toJson (h span hspan)).optional nofun) _ _⟩
  · exact ⟨_, rfl, Record.gives_field ((gives_contextToJson context).optional nofun) _ _⟩

/-- Whatever says the same as what is written is read as the diagnostic. -/
theorem parse_of_isText {d : Diagnostic} {text : String} (h : ∀ span ∈ d.span, span.Fits)
    (htext : d.toJson.form.IsText text) : parse text = .ok d := by
  rw [form_toJson] at htext
  refine htext.parse_eq_ok (Record.gives_parts d.parts (fun part => gives_parts h) ?_ ?_)
  · obtain ⟨id, severity, message, span, context⟩ := d
    cases span <;> cases context <;> simp [parts]
  · obtain ⟨id, severity, message, span, context⟩ := d
    cases span <;> cases context <;> rfl

/-- **A diagnostic is read back from its JSON text.** -/
theorem parse_toJson {d : Diagnostic} (h : ∀ span ∈ d.span, span.Fits) :
    parse d.toJson.compact = .ok d :=
  parse_of_isText h d.toJson.isText_compact

/-- Quotes, control characters, the largest offset and an empty context. -/
def awkward : Diagnostic :=
  ⟨"\"a\\", .warn, "\x00\x1f\n", some ⟨18446744073709551615, 0⟩, some .empty⟩

theorem parse_awkward :
    awkward.toJson.compact = "\x7b\"id\":\"\\\"a\\\\\",\"severity\":\"warn\","
        ++ "\"message\":\"\\u0000\\u001f\\n\","
        ++ "\"span\":\x7b\"start\":18446744073709551615,\"end\":0\x7d,\"context\":\x7b\x7d\x7d"
      ∧ parse awkward.toJson.compact = .ok awkward :=
  ⟨by decide +kernel, parse_toJson (d := awkward) (by rintro span ⟨⟩; exact ⟨by decide, by decide⟩)⟩

end Diagnostic

end CommandLine
