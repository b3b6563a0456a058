import Criteria.OrderedMap
import Mathlib.Data.List.Induction

/-!
# Entries written one after another

A write leaves the order of the keys as it is and adds a new key at the end.  So entries
that are written one after another stand where their keys came first, with the values that
came last, and entries whose keys differ stand as they were given.

* `Entries.keys_put`, `Entries.keys_ofList`: the keys after a write and after many.
* `Entries.lookup_ofList`: what is found after many writes.
* `Entries.ofList_of_nodup`: entries whose keys differ.
* `Entries.ofList_map`: writing changed values instead of changing the written ones.
-/

universe u v

namespace Criteria.Entries

variable {α : Type u} {β : Type v} {key : String} {value : α} {entries pairs : List (String × α)}

/-! ## Finding entries -/

/-- What is found is an entry. -/
theorem mem_of_lookup (h : entries.lookup key = some value) : (key, value) ∈ entries := by
  obtain ⟨before, after, rfl, -⟩ := List.lookup_eq_some_iff.mp h
  exact List.mem_append_right _ List.mem_cons_self

/-- Where no key repeats, an entry is what is found under its key. -/
theorem lookup_of_mem (hnodup : (keys entries).Nodup) {m : String × α} (hm : m ∈ entries) :
    entries.lookup m.1 = some m.2 := by
  induction entries with
  | nil => exact absurd hm List.not_mem_nil
  | cons e rest ih =>
      obtain ⟨hfresh, hrest⟩ := List.nodup_cons.mp hnodup
      rw [lookup_entry]
      rcases List.mem_cons.mp hm with rfl | hm
      · exact if_pos rfl
      · have hne : m.1 ≠ e.1 := by
          intro heq
          exact hfresh (heq ▸ List.mem_map_of_mem hm)
        rw [if_neg hne]
        exact ih hrest hm

/-- A key is found when there is an entry with it. -/
theorem exists_lookup_iff : (∃ x, entries.lookup key = some x) ↔ key ∈ keys entries := by
  constructor
  · rintro ⟨x, hx⟩
    exact List.mem_map_of_mem (mem_of_lookup hx)
  · intro hkey
    obtain ⟨m, hm, rfl⟩ := List.mem_map.mp hkey
    rw [← Option.isSome_iff_exists, List.lookup_isSome_iff]
    exact ⟨m, hm, beq_self_eq_true _⟩

/-! ## One write -/

/-- A new key is written at the end. -/
theorem put_of_notMem (h : key ∉ keys entries) :
    put key value entries = entries ++ [(key, value)] := by
  induction entries with
  | nil => rfl
  | cons e rest ih =>
      obtain ⟨hne, hrest⟩ := not_or.mp (mt List.mem_cons.mpr h)
      rw [put, if_neg (Ne.symm hne), ih hrest, List.cons_append]

/-- A write leaves the keys as they are, up to a new one. -/
theorem keys_put (key : String) (value : α) (entries : List (String × α)) :
    keys (put key value entries) =
      if key ∈ keys entries then keys entries else keys entries ++ [key] := by
  by_cases hkey : key ∈ keys entries
  · rw [if_pos hkey]
    induction entries with
    | nil => exact absurd hkey List.not_mem_nil
    | cons e rest ih =>
        by_cases heq : e.1 = key
        · rw [put, if_pos heq]
          rfl
        · have hrest : key ∈ keys rest := (List.mem_cons.mp hkey).resolve_left (Ne.symm heq)
          rw [put, if_neg heq]
          exact congrArg (e.1 :: ·) (ih hrest)
  · rw [if_neg hkey, put_of_notMem hkey]
    exact List.map_append

/-- Writing a changed value instead of changing the written one. -/
theorem put_map (f : α → β) (key : String) (value : α) (entries : List (String × α)) :
    put key (f value) (entries.map fun m => (m.1, f m.2)) =
      (put key value entries).map fun m => (m.1, f m.2) := by
  induction entries with
  | nil => rfl
  | cons e rest ih =>
      rw [List.map_cons, put, put]
      by_cases heq : e.1 = key
      · rw [if_pos heq, if_pos heq, List.map_cons]
      · rw [if_neg heq, if_neg heq, List.map_cons, ih]

/-! ## Many writes -/

theorem ofList_concat (pairs : List (String × α)) (m : String × α) :
    ofList (pairs ++ [m]) = put m.1 m.2 (ofList pairs) := List.foldl_append

/-- Keys stand where they came first. -/
theorem keys_ofList (pairs : List (String × α)) : keys (ofList pairs) = (keys pairs).eraseDups := by
  induction pairs using List.reverseRecOn with
  | nil => rfl
  | append_singleton pairs m ih =>
      have hkeys : keys (pairs ++ [m]) = keys pairs ++ [m.1] := List.map_append
      rw [ofList_concat, keys_put, ih, hkeys, List.eraseDups_append]
      by_cases hm : m.1 ∈ keys pairs
      · have hremoved : [m.1].removeAll (keys pairs) = [] := by simp [List.removeAll, hm]
        rw [if_pos (List.mem_eraseDups.mpr hm), hremoved]
        exact (List.append_nil _).symm
      · have hremoved : [m.1].removeAll (keys pairs) = [m.1] := by simp [List.removeAll, hm]
        rw [if_neg (mt List.mem_eraseDups.mp hm), hremoved]
        rfl

/-- The value written last is found. -/
theorem lookup_ofList (key : String) (pairs : List (String × α)) :
    (ofList pairs).lookup key = pairs.reverse.lookup key := by
  induction pairs using List.reverseRecOn with
  | nil => rfl
  | append_singleton pairs m ih =>
      rw [ofList_concat, lookup_put, ih, List.reverse_concat, lookup_entry]

theorem mem_of_mem_ofList {m : String × α} (hm : m ∈ ofList pairs) : m ∈ pairs := by
  have hfound : pairs.reverse.lookup m.1 = some m.2 := by
    rw [← lookup_ofList]
    exact lookup_of_mem (nodup_ofList pairs) hm
  exact List.mem_reverse.mp (mem_of_lookup hfound)

/-- Entries whose keys differ stand as they were given. -/
theorem ofList_of_nodup (h : (keys pairs).Nodup) : ofList pairs = pairs := by
  induction pairs using List.reverseRecOn with
  | nil => rfl
  | append_singleton pairs m ih =>
      have hkeys : keys (pairs ++ [m]) = keys pairs ++ [m.1] := List.map_append
      rw [hkeys] at h
      obtain ⟨hpairs, -, hfresh⟩ := List.nodup_append.mp h
      have hm : m.1 ∉ keys pairs := fun hmem => hfresh _ hmem _ (List.mem_singleton_self _) rfl
      rw [ofList_concat, ih hpairs, put_of_notMem hm]

/-- Writing changed values instead of changing the written ones. -/
theorem ofList_map (f : α → β) (pairs : List (String × α)) :
    ofList (pairs.map fun m => (m.1, f m.2)) = (ofList pairs).map fun m => (m.1, f m.2) := by
  induction pairs using List.reverseRecOn with
  | nil => rfl
  | append_singleton pairs m ih =>
      rw [List.map_append, List.map_singleton, ofList_concat, ih, ofList_concat]
      exact put_map f m.1 m.2 (ofList pairs)

end Criteria.Entries
