import Criteria.Proofs.Entries
import Criteria.Proofs.Json.Text
import Mathlib.Data.List.Perm.Subperm

/-!
# Equality of values

Values are equal item by item and member by member, whatever the order of the members.
As long as no object repeats a key, this is an equivalence.  A repeated key would break it:
only the first member of that key is ever looked at.

* `Json.sameItems_iff`, `Json.sameMembers_iff`: equal lists of items and of members.
* `Json.same_refl`, `Json.same_symm`, `Json.same_trans`: the equivalence.
* `Json.distinctKeys_of_parse?`: no object of a value read from text repeats a key.
-/

namespace Criteria

/-! ## Numbers -/

namespace Number

/-- What equality looks at: the representation, and the place on the number line. -/
def place : Number → Int ⊕ Int
  | .integer i => .inl i.val
  | .double x => .inr x.order

/-- Numbers are equal when they have one representation and one place. -/
theorem same_iff_place {m n : Number} : m.same n = true ↔ m.place = n.place := by
  cases m with
  | integer i =>
      cases n with
      | integer j => exact beq_iff_eq.trans Sum.inl_injective.eq_iff.symm
      | double y => exact iff_of_false Bool.false_ne_true Sum.inl_ne_inr
  | double x =>
      cases n with
      | integer j => exact iff_of_false Bool.false_ne_true Sum.inr_ne_inl
      | double y => exact beq_iff_eq.trans Sum.inr_injective.eq_iff.symm

end Number

namespace Json

variable {a b c : Json} {items xs ys : List Json} {members : List (String × Json)}

/-! ## Keys that differ -/

theorem distinctKeysItems_iff : DistinctKeysItems items ↔ ∀ x ∈ items, x.DistinctKeys := by
  induction items with
  | nil => exact iff_of_true trivial fun _ h => absurd h List.not_mem_nil
  | cons x items ih => rw [DistinctKeysItems, List.forall_mem_cons, ih]

theorem distinctKeysMembers_iff :
    DistinctKeysMembers members ↔ ∀ m ∈ members, m.2.DistinctKeys := by
  induction members with
  | nil => exact iff_of_true trivial fun _ h => absurd h List.not_mem_nil
  | cons m members ih => rw [DistinctKeysMembers, List.forall_mem_cons, ih]

theorem distinctKeys_null : null.DistinctKeys := trivial

theorem distinctKeys_bool (b : Bool) : (bool b).DistinctKeys := trivial

theorem distinctKeys_array_iff : (array items).DistinctKeys ↔ ∀ x ∈ items, x.DistinctKeys := by
  rw [DistinctKeys, distinctKeysItems_iff]

theorem distinctKeys_object_iff :
    (object members).DistinctKeys ↔
      (Entries.keys members).Nodup ∧ ∀ m ∈ members, m.2.DistinctKeys := by
  rw [DistinctKeys, distinctKeysMembers_iff]
  rfl

/-! ## Items and members -/

theorem sameItems_iff :
    sameItems xs ys = true ↔ xs.length = ys.length ∧
      ∀ i (hx : i < xs.length) (hy : i < ys.length), same xs[i] ys[i] = true := by
  induction xs generalizing ys with
  | nil =>
      cases ys with
      | nil => exact iff_of_true rfl ⟨rfl, fun i hx => absurd hx (Nat.not_lt_zero i)⟩
      | cons y ys => exact iff_of_false Bool.false_ne_true fun h => nomatch h.1
  | cons x xs ih =>
      cases ys with
      | nil => exact iff_of_false Bool.false_ne_true fun h => nomatch h.1
      | cons y ys =>
          rw [sameItems, Bool.and_eq_true, ih]
          constructor
          · rintro ⟨hfirst, hlength, hrest⟩
            refine ⟨congrArg Nat.succ hlength, fun i hx hy => ?_⟩
            cases i with
            | zero => exact hfirst
            | succ i => exact hrest i (Nat.lt_of_succ_lt_succ hx) (Nat.lt_of_succ_lt_succ hy)
          · rintro ⟨hlength, hall⟩
            exact ⟨hall 0 (Nat.succ_pos _) (Nat.succ_pos _), Nat.succ_inj.mp hlength,
              fun i hx hy => hall (i + 1) (Nat.succ_lt_succ hx) (Nat.succ_lt_succ hy)⟩

theorem sameMembers_iff {ms ns : List (String × Json)} :
    sameMembers ms ns = true ↔ ∀ m ∈ ms, ∃ y, ns.lookup m.1 = some y ∧ same m.2 y = true := by
  induction ms with
  | nil => exact iff_of_true rfl fun _ h => absurd h List.not_mem_nil
  | cons m ms ih =>
      rw [sameMembers, Bool.and_eq_true, ih, List.forall_mem_cons]
      refine and_congr_left fun _ => ?_
      cases hfound : ns.lookup m.1 with
      | none => exact iff_of_false Bool.false_ne_true fun ⟨y, hy, _⟩ => nomatch hy
      | some y =>
          constructor
          · exact fun h => ⟨y, rfl, h⟩
          · rintro ⟨_, hy, h⟩
            obtain rfl := Option.some.inj hy
            exact h

/-- An object without repeated keys whose members are all found in another one of the same
length has every key of that. -/
theorem keys_subset_of_sameMembers {ms ns : List (String × Json)}
    (hms : (Entries.keys ms).Nodup) (hlength : ms.length = ns.length)
    (h : sameMembers ms ns = true) : Entries.keys ns ⊆ Entries.keys ms := by
  have hsubset : Entries.keys ms ⊆ Entries.keys ns := by
    intro key hkey
    obtain ⟨m, hm, rfl⟩ := List.mem_map.mp hkey
    obtain ⟨y, hy, -⟩ := sameMembers_iff.mp h m hm
    exact Entries.exists_lookup_iff.mp ⟨y, hy⟩
  have hle : (Entries.keys ns).length ≤ (Entries.keys ms).length := by
    rw [Entries.keys, Entries.keys, List.length_map, List.length_map, hlength]
  exact ((hms.subperm hsubset).perm_of_length_le hle).symm.subset

/-! ## The equivalence -/

/-- Equal values, kind by kind. -/
inductive Alike : Json → Json → Prop where
  | null : Alike .null .null
  | bool (b : Bool) : Alike (.bool b) (.bool b)
  | number {m n : Number} (places : m.place = n.place) : Alike (.number m) (.number n)
  | string (s : String) : Alike (.string s) (.string s)
  | array {xs ys : List Json} (items : sameItems xs ys = true) : Alike (.array xs) (.array ys)
  | object {ms ns : List (String × Json)} (length : ms.length = ns.length)
    (members : sameMembers ms ns = true) : Alike (.object ms) (.object ns)

theorem Alike.same (h : Alike a b) : a.same b = true := by
  cases h with
  | null => rfl
  | bool b => exact beq_self_eq_true b
  | number places => exact Number.same_iff_place.mpr places
  | string s => exact beq_self_eq_true s
  | array items => exact items
  | object length members => rw [Json.same, members, length, beq_self_eq_true, Bool.and_true]

theorem alike_of_same (h : a.same b = true) : Alike a b := by
  rw [same.eq_def] at h
  split at h
  · exact .null
  · obtain rfl := beq_iff_eq.mp h
    exact .bool _
  · exact .number (Number.same_iff_place.mp h)
  · obtain rfl := beq_iff_eq.mp h
    exact .string _
  · exact .array h
  · obtain ⟨hlength, hmembers⟩ := Bool.and_eq_true_iff.mp h
    exact .object (beq_iff_eq.mp hlength) hmembers
  · exact absurd h Bool.false_ne_true

theorem same_refl (h : a.DistinctKeys) : a.same a = true := by
  refine Alike.same ?_
  induction a with
  | null => exact .null
  | bool b => exact .bool b
  | number n => exact .number rfl
  | string s => exact .string s
  | array items ih =>
      rw [distinctKeys_array_iff] at h
      exact .array (sameItems_iff.mpr ⟨rfl, fun i hi _ =>
        (ih _ (List.getElem_mem hi) (h _ (List.getElem_mem hi))).same⟩)
  | object members ih =>
      obtain ⟨hnodup, hvalues⟩ := distinctKeys_object_iff.mp h
      exact .object rfl (sameMembers_iff.mpr fun m hm =>
        ⟨m.2, Entries.lookup_of_mem hnodup hm, (ih m hm (hvalues m hm)).same⟩)

theorem same_symm (ha : a.DistinctKeys) (hb : b.DistinctKeys) (h : a.same b = true) :
    b.same a = true := by
  refine Alike.same ?_
  induction a generalizing b with
  | null =>
      cases alike_of_same h
      exact .null
  | bool p =>
      cases alike_of_same h
      exact .bool p
  | number m =>
      cases alike_of_same h with
      | number places => exact .number places.symm
  | string s =>
      cases alike_of_same h
      exact .string s
  | array xs ih =>
      cases alike_of_same h with
      | array items =>
          rw [distinctKeys_array_iff] at ha hb
          obtain ⟨hlength, hitems⟩ := sameItems_iff.mp items
          exact .array (sameItems_iff.mpr ⟨hlength.symm, fun i hy hx =>
            (ih _ (List.getElem_mem hx) (ha _ (List.getElem_mem hx)) (hb _ (List.getElem_mem hy))
              (hitems i hx hy)).same⟩)
  | object ms ih =>
      cases alike_of_same h with
      | @object _ ns length members =>
          obtain ⟨hms, hmsValues⟩ := distinctKeys_object_iff.mp ha
          obtain ⟨hns, hnsValues⟩ := distinctKeys_object_iff.mp hb
          refine .object length.symm (sameMembers_iff.mpr fun n hn => ?_)
          -- Only because no key repeats is `n` what its key is looked up to.
          have hkey : n.1 ∈ Entries.keys ms :=
            keys_subset_of_sameMembers hms length members (List.mem_map_of_mem hn)
          obtain ⟨x, hx⟩ := Entries.exists_lookup_iff.mpr hkey
          have hmem : (n.1, x) ∈ ms := Entries.mem_of_lookup hx
          obtain ⟨y, hy, hsame⟩ := sameMembers_iff.mp members _ hmem
          obtain rfl : n.2 = y := Option.some.inj ((Entries.lookup_of_mem hns hn).symm.trans hy)
          exact ⟨x, hx, (ih _ hmem (hmsValues _ hmem) (hnsValues n hn) hsame).same⟩

theorem same_trans (h : a.same b = true) (h' : b.same c = true) : a.same c = true := by
  refine Alike.same ?_
  induction a generalizing b c with
  | null =>
      cases alike_of_same h
      exact alike_of_same h'
  | bool p =>
      cases alike_of_same h
      exact alike_of_same h'
  | number l =>
      cases alike_of_same h with
      | number places =>
          cases alike_of_same h' with
          | number places' => exact .number (places.trans places')
  | string s =>
      cases alike_of_same h
      exact alike_of_same h'
  | array xs ih =>
      cases alike_of_same h with
      | @array _ ys items =>
          cases alike_of_same h' with
          | array items' =>
              obtain ⟨hlength, hitems⟩ := sameItems_iff.mp items
              obtain ⟨hlength', hitems'⟩ := sameItems_iff.mp items'
              refine .array (sameItems_iff.mpr ⟨hlength.trans hlength', fun i hx hz => ?_⟩)
              have hy : i < ys.length := hlength ▸ hx
              exact (ih _ (List.getElem_mem hx) (hitems i hx hy) (hitems' i hy hz)).same
  | object ms ih =>
      cases alike_of_same h with
      | object length members =>
          cases alike_of_same h' with
          | object length' members' =>
              refine .object (length.trans length') (sameMembers_iff.mpr fun m hm => ?_)
              obtain ⟨y, hy, hsame⟩ := sameMembers_iff.mp members m hm
              obtain ⟨z, hz, hsame'⟩ := sameMembers_iff.mp members' _ (Entries.mem_of_lookup hy)
              exact ⟨z, hz, (ih m hm hsame hsame').same⟩

/-! ## Values read from text -/

/-- No value that the reader yields has repeated keys. -/
def ReadsDistinct (read : Reader Json) : Prop :=
  ∀ cs v rest, read cs = some (v, rest) → v.DistinctKeys

theorem readsDistinct_word? (word : List Char) {value : Json} (h : value.DistinctKeys) :
    ReadsDistinct (word? word value) := by
  intro cs v rest hread
  rw [word?] at hread
  split at hread
  · obtain ⟨rfl, -⟩ := Prod.mk.inj (Option.some.inj hread)
    exact h
  · exact nomatch hread

section Step

variable {fuel : Nat}

theorem readsDistinct_value? (hitems : ∀ depth, ReadsDistinct (items? fuel depth []))
    (hmembers : ∀ depth, ReadsDistinct (members? fuel depth [])) (depth : Nat) :
    ReadsDistinct (value? (fuel + 1) depth) := by
  intro cs v rest h
  rw [value?] at h
  split at h
  · split at h
    · exact nomatch h
    · obtain ⟨rfl, -⟩ := Prod.mk.inj (Option.some.inj h)
      exact distinctKeys_array_iff.mpr fun _ hx => absurd hx List.not_mem_nil
    · exact hitems _ _ _ _ h
  · split at h
    · exact nomatch h
    · obtain ⟨rfl, -⟩ := Prod.mk.inj (Option.some.inj h)
      exact distinctKeys_object_iff.mpr ⟨List.nodup_nil, fun _ hm => absurd hm List.not_mem_nil⟩
    · exact hmembers _ _ _ _ h
  · obtain ⟨⟨s, rest'⟩, -, heq⟩ := Option.map_eq_some_iff.mp h
    obtain ⟨rfl, -⟩ := Prod.mk.inj heq
    exact trivial
  · exact readsDistinct_word? _ (distinctKeys_bool true) _ _ _ h
  · exact readsDistinct_word? _ (distinctKeys_bool false) _ _ _ h
  · exact readsDistinct_word? _ distinctKeys_null _ _ _ h
  · obtain ⟨⟨n, rest'⟩, -, heq⟩ := Option.map_eq_some_iff.mp h
    obtain ⟨rfl, -⟩ := Prod.mk.inj heq
    exact trivial

theorem readsDistinct_items? {depth : Nat} (hvalue : ReadsDistinct (value? fuel depth))
    (hitems : ∀ done, (∀ x ∈ done, x.DistinctKeys) → ReadsDistinct (items? fuel depth done))
    {done : List Json} (hdone : ∀ x ∈ done, x.DistinctKeys) :
    ReadsDistinct (items? (fuel + 1) depth done) := by
  intro cs v rest h
  rw [items?] at h
  split at h
  · exact nomatch h
  · rename_i x _ hread
    have hall : ∀ y ∈ x :: done, y.DistinctKeys :=
      List.forall_mem_cons.mpr ⟨hvalue _ _ _ hread, hdone⟩
    split at h
    · exact hitems _ hall _ _ _ h
    · obtain ⟨rfl, -⟩ := Prod.mk.inj (Option.some.inj h)
      exact distinctKeys_array_iff.mpr fun y hy => hall y (List.mem_reverse.mp hy)
    · exact nomatch h

theorem readsDistinct_members? {depth : Nat} (hvalue : ReadsDistinct (value? fuel depth))
    (hmembers : ∀ done, (∀ m ∈ done, m.2.DistinctKeys) →
      ReadsDistinct (members? fuel depth done))
    {done : List (String × Json)} (hdone : ∀ m ∈ done, m.2.DistinctKeys) :
    ReadsDistinct (members? (fuel + 1) depth done) := by
  intro cs v rest h
  rw [members?] at h
  split at h
  · split at h
    · exact nomatch h
    · split at h
      · split at h
        · exact nomatch h
        · rename_i key _ _ _ _ _ _ x _ hread
          have hall : ∀ m ∈ (key, x) :: done, m.2.DistinctKeys :=
            List.forall_mem_cons.mpr ⟨hvalue _ _ _ hread, hdone⟩
          split at h
          · exact hmembers _ hall _ _ _ h
          · obtain ⟨rfl, -⟩ := Prod.mk.inj (Option.some.inj h)
            exact distinctKeys_object_iff.mpr ⟨Entries.nodup_ofList _, fun m hm =>
              hall m (List.mem_reverse.mp (Entries.mem_of_mem_ofList hm))⟩
          · exact nomatch h
      · exact nomatch h
  · exact nomatch h

end Step

/-- Induction on the fuel, for values, items and members at once. -/
theorem readsDistinct (fuel : Nat) :
    (∀ depth, ReadsDistinct (value? fuel depth)) ∧
    (∀ depth done, (∀ x ∈ done, x.DistinctKeys) → ReadsDistinct (items? fuel depth done)) ∧
    (∀ depth done, (∀ m ∈ done, m.2.DistinctKeys) →
      ReadsDistinct (members? fuel depth done)) := by
  induction fuel with
  | zero =>
      exact ⟨fun _ _ _ _ h => (nomatch h), fun _ _ _ _ _ _ h => (nomatch h),
        fun _ _ _ _ _ _ h => (nomatch h)⟩
  | succ fuel ih =>
      obtain ⟨hvalue, hitems, hmembers⟩ := ih
      refine ⟨readsDistinct_value? (fun depth => ?_) (fun depth => ?_),
        fun depth _ => readsDistinct_items? (hvalue depth) (hitems depth),
        fun depth _ => readsDistinct_members? (hvalue depth) (hmembers depth)⟩
      · exact hitems depth [] fun _ hx => absurd hx List.not_mem_nil
      · exact hmembers depth [] fun _ hm => absurd hm List.not_mem_nil

/-- No object of a value read from text repeats a key. -/
theorem distinctKeys_of_parse? {text : String} {v : Json} (h : parse? text = some v) :
    v.DistinctKeys := by
  rw [parse?] at h
  split at h
  · rename_i x rest hread
    split at h
    · obtain rfl := Option.some.inj h
      exact (readsDistinct _).1 _ _ _ _ hread
    · exact nomatch h
  · exact nomatch h

end Json

end Criteria
