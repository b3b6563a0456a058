/-!
# Insertion-ordered maps

String-keyed maps that remember the order in which their keys first arrived.
Writing to a known key keeps its place; removing a key moves the last entry
into the gap, so removal touches at most two places.

* `Entries.put`, `Entries.swapErase`: the two updates, on plain lists of pairs.
  They are stated there because nested data (objects, mappings) stores its
  entries as such lists.
* `OrderedMap`: a list of pairs together with the fact that no key repeats.
-/

universe u

namespace Criteria

namespace Entries

variable {α : Type u}

/-- The keys, in order. -/
def keys (entries : List (String × α)) : List String := entries.map Prod.fst

/-- Write a value: a known key keeps its place, a new one goes to the end. -/
def put (key : String) (value : α) : List (String × α) → List (String × α)
  | [] => [(key, value)]
  | (k, v) :: rest => if k = key then (k, value) :: rest else (k, v) :: put key value rest

/-- Entries written one after another: a repeated key keeps its first place and
takes its last value. -/
def ofList (pairs : List (String × α)) : List (String × α) :=
  pairs.foldl (fun entries p => put p.1 p.2 entries) []

/-- The last entry moved to the front, which is where the gap is. -/
def lastFirst (rest : List (String × α)) : List (String × α) :=
  match rest.getLast? with
  | none => []
  | some last => last :: rest.dropLast

/-- Remove a key; the last entry takes its place. -/
def swapErase (key : String) : List (String × α) → List (String × α)
  | [] => []
  | (k, v) :: rest => if k = key then lastFirst rest else (k, v) :: swapErase key rest

theorem mem_keys_put {k key : String} {value : α} {entries : List (String × α)} :
    k ∈ keys (put key value entries) ↔ k = key ∨ k ∈ keys entries := by
  induction entries with
  | nil => simp [put, keys]
  | cons e rest ih =>
    obtain ⟨k', v'⟩ := e
    by_cases h : k' = key
    · subst h; simp [put, keys]
    · simp only [keys] at ih
      simp only [put, if_neg h, keys, List.map_cons, List.mem_cons, ih]
      constructor <;> rintro (h | h | h) <;> simp [h]

/-- Looking up past an entry with the key, or with another one. -/
theorem lookup_entry (k key : String) (value : α) (rest : List (String × α)) :
    List.lookup k ((key, value) :: rest) = if k = key then some value else rest.lookup k := by
  by_cases h : k = key
  · subst h; simp
  · have : (k == key) = false := by simpa using h
    simp [List.lookup_cons, this, h]

/-- What is found after a write. -/
theorem lookup_put (key k : String) (value : α) (entries : List (String × α)) :
    (put key value entries).lookup k = if k = key then some value else entries.lookup k := by
  induction entries with
  | nil => rw [put, lookup_entry]
  | cons e rest ih =>
    obtain ⟨k', v'⟩ := e
    by_cases hk : k' = key
    · subst hk
      by_cases h : k = k' <;> simp [put, lookup_entry, h]
    · by_cases h : k = k'
      · subst h; simp [put, hk]
      · simp only [put, if_neg hk, lookup_entry, if_neg h, ih]

/-- The second of two writes to one key hides the first. -/
theorem put_put (key : String) (first second : α) (entries : List (String × α)) :
    put key second (put key first entries) = put key second entries := by
  induction entries with
  | nil => simp [put]
  | cons e rest ih =>
    obtain ⟨k', v'⟩ := e
    by_cases h : k' = key
    · simp [put, h]
    · simp [put, h, ih]

theorem nodup_put (key : String) (value : α) {entries : List (String × α)}
    (h : (keys entries).Nodup) : (keys (put key value entries)).Nodup := by
  induction entries with
  | nil => simp [put, keys]
  | cons e rest ih =>
    obtain ⟨k', v'⟩ := e
    by_cases hk : k' = key
    · simpa [put, hk, keys] using h
    · have h' : k' ∉ keys rest ∧ (keys rest).Nodup := by simpa [keys] using h
      have : k' ∉ keys (put key value rest) := by
        rw [mem_keys_put]; rintro (h₁ | h₁)
        · exact hk h₁
        · exact h'.1 h₁
      simpa [put, if_neg hk, keys] using And.intro (by simpa [keys] using this) (ih h'.2)

theorem nodup_ofList (pairs : List (String × α)) : (keys (ofList pairs)).Nodup := by
  suffices h : ∀ (ps acc : List (String × α)), (keys acc).Nodup →
      (keys (ps.foldl (fun entries p => put p.1 p.2 entries) acc)).Nodup from
    h pairs [] (by simp [keys])
  intro ps
  induction ps with
  | nil => exact fun _ h => h
  | cons p ps ih => exact fun acc h => ih _ (nodup_put _ _ h)

/-- Moving the last entry to the front only permutes the entries. -/
theorem lastFirst_perm (rest : List (String × α)) : (lastFirst rest).Perm rest := by
  unfold lastFirst
  cases h : rest.getLast? with
  | none => simp [List.getLast?_eq_none_iff.1 h]
  | some last =>
    obtain ⟨init, rfl⟩ := List.getLast?_eq_some_iff.1 h
    simpa using (List.perm_append_comm : ([last] ++ init).Perm (init ++ [last]))

theorem swapErase_subset (key : String) (entries : List (String × α)) :
    ∀ k ∈ keys (swapErase key entries), k ∈ keys entries := by
  induction entries with
  | nil => simp [swapErase]
  | cons e rest ih =>
    obtain ⟨k', v'⟩ := e
    by_cases hk : k' = key
    · intro k hm
      have : k ∈ keys (lastFirst rest) := by simpa [swapErase, hk] using hm
      have := ((lastFirst_perm rest).map Prod.fst).mem_iff.1 this
      simp only [keys, List.map_cons, List.mem_cons]; exact Or.inr this
    · intro k hm
      simp only [swapErase, if_neg hk, keys, List.map_cons, List.mem_cons] at hm ⊢
      exact hm.imp_right (ih k)

theorem nodup_swapErase (key : String) {entries : List (String × α)}
    (h : (keys entries).Nodup) : (keys (swapErase key entries)).Nodup := by
  induction entries with
  | nil => simp [swapErase, keys]
  | cons e rest ih =>
    obtain ⟨k', v'⟩ := e
    have h' : k' ∉ keys rest ∧ (keys rest).Nodup := by simpa [keys] using h
    by_cases hk : k' = key
    · have := ((lastFirst_perm rest).map Prod.fst).nodup_iff.2 h'.2
      simpa [swapErase, hk, keys] using this
    · have : k' ∉ keys (swapErase key rest) := fun hm => h'.1 (swapErase_subset key rest k' hm)
      simpa [swapErase, if_neg hk, keys] using And.intro (by simpa [keys] using this) (ih h'.2)

end Entries

/-- A map from strings that keeps the order of its keys, each present once. -/
structure OrderedMap (α : Type u) where
  /-- The entries, in order. -/
  entries : List (String × α)
  /-- No key occurs twice. -/
  nodup : (Entries.keys entries).Nodup

namespace OrderedMap

variable {α : Type u}

/-- The map without entries. -/
def empty : OrderedMap α := ⟨[], by simp [Entries.keys]⟩

instance : Inhabited (OrderedMap α) := ⟨empty⟩

/-- Entries written one after another. -/
def ofList (pairs : List (String × α)) : OrderedMap α :=
  ⟨Entries.ofList pairs, Entries.nodup_ofList pairs⟩

/-- The keys, in order. -/
def keys (m : OrderedMap α) : List String := Entries.keys m.entries

/-- The value under a key. -/
def get? (m : OrderedMap α) (key : String) : Option α := m.entries.lookup key

/-- Whether a key is present. -/
def contains (m : OrderedMap α) (key : String) : Bool := (m.get? key).isSome

/-- The number of entries. -/
def size (m : OrderedMap α) : Nat := m.entries.length

/-- Whether there are no entries. -/
def isEmpty (m : OrderedMap α) : Bool := m.entries.isEmpty

/-- Write a value: a known key keeps its place, a new one goes to the end. -/
def insert (m : OrderedMap α) (key : String) (value : α) : OrderedMap α :=
  ⟨Entries.put key value m.entries, Entries.nodup_put key value m.nodup⟩

/-- Remove a key; the last entry takes its place. -/
def erase (m : OrderedMap α) (key : String) : OrderedMap α :=
  ⟨Entries.swapErase key m.entries, Entries.nodup_swapErase key m.nodup⟩

/-- What is found after a write. -/
theorem get?_insert (m : OrderedMap α) (key k : String) (value : α) :
    (m.insert key value).get? k = if k = key then some value else m.get? k :=
  Entries.lookup_put key k value m.entries

/-- The second of two writes to one key hides the first. -/
theorem insert_insert (m : OrderedMap α) (key : String) (first second : α) :
    (m.insert key first).insert key second = m.insert key second := by
  simp [insert, Entries.put_put]

/-- What is found is an entry. -/
theorem mem_entries_of_get? {m : OrderedMap α} {key : String} {value : α}
    (h : m.get? key = some value) : (key, value) ∈ m.entries := by
  obtain ⟨before, after, hsplit, -⟩ := List.lookup_eq_some_iff.mp h
  rw [hsplit]
  exact List.mem_append_right _ List.mem_cons_self

end OrderedMap

end Criteria
