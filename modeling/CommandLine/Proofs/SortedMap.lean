import Mathlib.Data.List.Sort
import CommandLine.SortedMap
/-!
# CommandLine.Proofs.SortedMap

**A sorted map is what its look-ups say.** The order of the entries leaves no choice: maps
with the same look-ups have the same entries (`SortedMap.ext_get?`). So a map that was built
up step by step is known as soon as each of its look-ups is.
-/

namespace CommandLine.SortedMap

variable {α : Type} {m n : SortedMap α} {key : String} {value : α}

theorem get?_eq_some_iff : m.get? key = some value ↔ (key, value) ∈ m.entries := by
  rw [get?, List.lookup_eq_some_iff]
  constructor
  · intro ⟨before, after, hentries, _⟩
    simp [hentries]
  · intro h
    obtain ⟨before, after, hentries⟩ := List.mem_iff_append.1 h
    refine ⟨before, after, hentries, fun e he => ?_⟩
    have hsorted := m.sorted
    rw [hentries, List.pairwise_append] at hsorted
    have hlt : e.1 < key := hsorted.2.2 e he (key, value) List.mem_cons_self
    exact bne_iff_ne.2 fun heq => String.lt_irrefl key (by rwa [← heq] at hlt)

theorem mem_keys_iff : key ∈ m.keys ↔ (m.get? key).isSome := by
  simp only [keys, List.mem_map, Option.isSome_iff_exists, get?_eq_some_iff, Prod.exists]
  constructor
  · intro ⟨_, value, hmem, hkey⟩
    exact ⟨value, hkey ▸ hmem⟩
  · intro ⟨value, hmem⟩
    exact ⟨key, value, hmem, rfl⟩

/-- Maps with the same look-ups are equal. -/
theorem ext_get? (h : ∀ key, m.get? key = n.get? key) : m = n := by
  have hmem : ∀ e, e ∈ m.entries ↔ e ∈ n.entries := by
    intro (key, value)
    rw [← get?_eq_some_iff, ← get?_eq_some_iff, h key]
  have hentries : m.entries = n.entries :=
    m.sorted.eq_of_mem_iff n.sorted hmem
  cases m
  cases n
  cases hentries
  rfl

/-! ### Maps from their entries -/

/-- A key that comes after all others is put at the end. -/
theorem alterEntries_of_forall_lt {entries : List (String × α)} {f : Option α → α}
    (h : ∀ e ∈ entries, e.1 < key) : alterEntries key f entries = entries ++ [(key, f none)] := by
  induction entries with
  | nil => rfl
  | cons e entries ih =>
    have hlt : e.1 < key := h e List.mem_cons_self
    have hnot : ¬key < e.1 := fun hgt => String.lt_irrefl key (String.lt_trans hgt hlt)
    have hne : key ≠ e.1 := fun heq => String.lt_irrefl key (by rwa [← heq] at hlt)
    rw [alterEntries, if_neg hnot, if_neg hne,
      ih fun e' he' => h e' (List.mem_cons_of_mem _ he'), List.cons_append]

/-- Entries in rising order are put behind those that are there. -/
theorem entries_foldl_insert {entries : List (String × α)}
    (h : (m.entries ++ entries).Pairwise (·.1 < ·.1)) :
    (entries.foldl (fun m e => m.insert e.1 e.2) m).entries = m.entries ++ entries := by
  induction entries generalizing m with
  | nil => rw [List.foldl_nil, List.append_nil]
  | cons e entries ih =>
    have hinsert : (m.insert e.1 e.2).entries = m.entries ++ [e] :=
      alterEntries_of_forall_lt fun e' he' =>
        (List.pairwise_append.1 h).2.2 e' he' e List.mem_cons_self
    have happend : m.entries ++ e :: entries = (m.insert e.1 e.2).entries ++ entries := by
      rw [hinsert, List.append_assoc, List.singleton_append]
    rw [List.foldl_cons, happend]
    exact ih (happend ▸ h)

/-- A map is the map of its entries. -/
theorem ofList_entries (m : SortedMap α) : ofList m.entries = m := by
  have hentries : (ofList m.entries).entries = m.entries :=
    entries_foldl_insert (m := empty) m.sorted
  cases hof : ofList m.entries
  cases m
  rw [hof] at hentries
  cases hentries
  rfl

/-- A new key brings in one entry. -/
theorem mem_entries_insert {e : String × α} (hkey : key ∉ m.keys) :
    e ∈ (m.insert key value).entries ↔ e = (key, value) ∨ e ∈ m.entries := by
  obtain ⟨key', value'⟩ := e
  rw [← get?_eq_some_iff, ← get?_eq_some_iff, insert]
  by_cases heq : key' = key
  · subst heq
    have hnone : m.get? key' = none := by
      rwa [← Option.not_isSome_iff_eq_none, ← mem_keys_iff]
    simp [hnone, eq_comm]
  · simp [get?_alter_of_ne m _ heq, heq]

/-- Entries with different keys, none of which is there, are all put in. -/
theorem mem_foldl_insert {entries : List (String × α)} (hnodup : (entries.map (·.1)).Nodup)
    (hnew : ∀ e ∈ entries, e.1 ∉ m.keys) {e : String × α} :
    e ∈ (entries.foldl (fun m e => m.insert e.1 e.2) m).entries ↔
      e ∈ m.entries ∨ e ∈ entries := by
  induction entries generalizing m with
  | nil => simp
  | cons first entries ih =>
    rw [List.map_cons, List.nodup_cons] at hnodup
    rw [List.forall_mem_cons] at hnew
    have hinsert {e : String × α} :
        e ∈ (m.insert first.1 first.2).entries ↔ e = first ∨ e ∈ m.entries :=
      mem_entries_insert hnew.1
    have hrest : ∀ e ∈ entries, e.1 ∉ (m.insert first.1 first.2).keys := by
      intro e he hkey
      obtain ⟨e', he', heq⟩ := List.mem_map.1 hkey
      rcases hinsert.1 he' with rfl | hold
      · exact hnodup.1 (List.mem_map.2 ⟨e, he, heq.symm⟩)
      · exact hnew.2 e he (List.mem_map.2 ⟨e', hold, heq⟩)
    rw [List.foldl_cons, ih hnodup.2 hrest, hinsert, List.mem_cons, or_left_comm, or_assoc]

/-- If no key occurs twice in a list of entries, then its map has just these entries. -/
theorem mem_entries_ofList {entries : List (String × α)} (hnodup : (entries.map (·.1)).Nodup)
    {e : String × α} : e ∈ (ofList entries).entries ↔ e ∈ entries := by
  rw [ofList, mem_foldl_insert hnodup fun e _ => List.not_mem_nil]
  simp

/-- The map of a list of entries has them in the order of their keys. -/
theorem entries_ofList_eq {entries sorted : List (String × α)}
    (hnodup : (entries.map (·.1)).Nodup) (hmem : ∀ e, e ∈ sorted ↔ e ∈ entries)
    (hsorted : sorted.Pairwise (·.1 < ·.1)) : (ofList entries).entries = sorted := by
  refine (ofList entries).sorted.eq_of_mem_iff hsorted fun e => ?_
  rw [hmem, mem_entries_ofList hnodup]

end CommandLine.SortedMap
