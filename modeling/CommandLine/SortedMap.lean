/-!
# CommandLine.SortedMap

Finite maps from strings, kept as a list of entries in strictly rising order of
their keys.

* The order is part of the type (`SortedMap.sorted`), so a key occurs at most
  once and listing the entries needs no sorting.
* Two maps with the same entries are equal, so `=` is the equality to use.
* Strings are compared code point by code point, which is also the order of
  their UTF-8 bytes.

`alter` is the one operation that changes a map; inserting is altering without
a look at the earlier value.
-/

namespace CommandLine

/-- A finite map from strings, its entries in strictly rising order of keys. -/
structure SortedMap (α : Type) where
  entries : List (String × α)
  sorted : entries.Pairwise (·.1 < ·.1)
  deriving DecidableEq

namespace SortedMap

variable {α : Type}

/-- The map without entries. -/
def empty : SortedMap α := ⟨[], .nil⟩

instance : Inhabited (SortedMap α) := ⟨empty⟩

@[simp] theorem entries_empty : (empty : SortedMap α).entries = [] := rfl

/-- The keys, in rising order. -/
def keys (m : SortedMap α) : List String := m.entries.map (·.1)

/-- The value at a key. -/
def get? (m : SortedMap α) (key : String) : Option α := m.entries.lookup key

/-- Whether a key has a value. -/
def contains (m : SortedMap α) (key : String) : Bool := (m.get? key).isSome

/-- Whether there is no entry at all. -/
def isEmpty (m : SortedMap α) : Bool := m.entries.isEmpty

/-- Replaces the value at `key` by what `f` makes of it, at the place in the
order that belongs to `key`. -/
def alterEntries (key : String) (f : Option α → α) : List (String × α) → List (String × α)
  | [] => [(key, f none)]
  | (k, v) :: rest =>
    if key < k then (key, f none) :: (k, v) :: rest
    else if key = k then (key, f (some v)) :: rest
    else (k, v) :: alterEntries key f rest

/-- Altering brings in no key but the altered one. -/
theorem mem_alterEntries {key : String} {f : Option α → α} {entries : List (String × α)}
    {e : String × α} (h : e ∈ alterEntries key f entries) : e.1 = key ∨ e ∈ entries := by
  induction entries with
  | nil =>
    rw [alterEntries, List.mem_singleton] at h
    exact .inl (by rw [h])
  | cons head rest ih =>
    obtain ⟨k, v⟩ := head
    rw [alterEntries] at h
    split at h
    · rcases List.mem_cons.1 h with rfl | h
      · exact .inl rfl
      · exact .inr h
    · split at h
      · rcases List.mem_cons.1 h with rfl | h
        · exact .inl rfl
        · exact .inr (List.mem_cons_of_mem _ h)
      · rcases List.mem_cons.1 h with rfl | h
        · exact .inr List.mem_cons_self
        · exact (ih h).imp_right (List.mem_cons_of_mem _)

/-- Altering keeps the order of the keys. -/
theorem pairwise_alterEntries {key : String} {f : Option α → α} {entries : List (String × α)}
    (h : entries.Pairwise (·.1 < ·.1)) : (alterEntries key f entries).Pairwise (·.1 < ·.1) := by
  induction entries with
  | nil => exact List.pairwise_singleton _ _
  | cons head rest ih =>
    obtain ⟨k, v⟩ := head
    have hrest := List.pairwise_cons.1 h
    rw [alterEntries]
    split
    · next hlt =>
      refine List.pairwise_cons.2 ⟨fun e he => ?_, h⟩
      rcases List.mem_cons.1 he with rfl | he
      · exact hlt
      · exact String.lt_trans hlt (hrest.1 e he)
    · split
      · next heq =>
        subst heq
        exact List.pairwise_cons.2 ⟨hrest.1, hrest.2⟩
      · next hlt hne =>
        refine List.pairwise_cons.2 ⟨fun e he => ?_, ih hrest.2⟩
        rcases mem_alterEntries he with he | he
        · rw [he]
          exact Std.lt_of_le_of_ne hlt (Ne.symm hne)
        · exact hrest.1 e he

/-- Replaces the value at `key` by what `f` makes of the earlier value, if there
is one. -/
def alter (m : SortedMap α) (key : String) (f : Option α → α) : SortedMap α :=
  ⟨alterEntries key f m.entries, pairwise_alterEntries m.sorted⟩

/-- Puts `value` at `key`, whatever stood there. -/
def insert (m : SortedMap α) (key : String) (value : α) : SortedMap α :=
  m.alter key fun _ => value

/-- The map of a list of entries; of several values for a key the last one
stays. -/
def ofList (entries : List (String × α)) : SortedMap α :=
  entries.foldl (fun m e => m.insert e.1 e.2) empty

/-! ### What a look-up sees of a change -/

theorem lookup_alterEntries_self (key : String) (f : Option α → α) {entries : List (String × α)}
    (h : entries.Pairwise (·.1 < ·.1)) :
    (alterEntries key f entries).lookup key = some (f (entries.lookup key)) := by
  induction entries with
  | nil => simp [alterEntries]
  | cons head rest ih =>
    obtain ⟨k, v⟩ := head
    have hrest := List.pairwise_cons.1 h
    rw [alterEntries]
    split
    · next hlt =>
      have habsent : ((k, v) :: rest).lookup key = none := by
        refine List.lookup_eq_none_iff.2 fun e he => ?_
        have hke : key < e.1 := by
          rcases List.mem_cons.1 he with rfl | he
          · exact hlt
          · exact String.lt_trans hlt (hrest.1 e he)
        exact bne_iff_ne.2 fun heq => String.lt_irrefl e.1 (heq ▸ hke)
      simp [habsent]
    · split
      · next heq => simp [heq]
      · next hne => simp [List.lookup_cons, beq_eq_false_iff_ne.2 hne, ih hrest.2]

theorem lookup_alterEntries_of_ne {key other : String} (f : Option α → α) (hne : other ≠ key)
    (entries : List (String × α)) :
    (alterEntries key f entries).lookup other = entries.lookup other := by
  induction entries with
  | nil => simp [alterEntries, List.lookup_cons, beq_eq_false_iff_ne.2 hne]
  | cons head rest ih =>
    obtain ⟨k, v⟩ := head
    rw [alterEntries]
    split
    · simp [List.lookup_cons, beq_eq_false_iff_ne.2 hne]
    · split
      · next heq =>
        subst heq
        simp [List.lookup_cons, beq_eq_false_iff_ne.2 hne]
      · simp [List.lookup_cons, ih]

@[simp] theorem get?_empty (key : String) : (empty : SortedMap α).get? key = none := rfl

@[simp] theorem get?_alter_self (m : SortedMap α) (key : String) (f : Option α → α) :
    (m.alter key f).get? key = some (f (m.get? key)) :=
  lookup_alterEntries_self key f m.sorted

theorem get?_alter_of_ne (m : SortedMap α) {key other : String} (f : Option α → α)
    (hne : other ≠ key) : (m.alter key f).get? other = m.get? other :=
  lookup_alterEntries_of_ne f hne m.entries

end SortedMap

end CommandLine
