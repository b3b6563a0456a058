import Criteria.Options.Reader
import Criteria.Proofs.Json.Reading
import Mathlib.Data.List.Pairwise
import Mathlib.Tactic.Choose

/-!
# Options overlaid with documents

A document says of some of the options what they are; the others stay as they were.  Reading
sets the options one after another, so what comes out depends neither on the order of the
members, nor on the spelling of the names, nor on members with other names, as long as no option
is named twice.

* `Options.Overlaid`: options overlaid with what a document says.
* `Options.readMembers_eq_ok_iff`: members are read as the options overlaid with them.
* `Options.exists_overlaid`: a document without contradictions can be overlaid.
* `Options.overlaid_toJson`: options are the standard ones overlaid with what they are written as.
* `Options.ofJson_overlay`: all of it.
-/

namespace Criteria

/-- The machine word of an integer. -/
theorem Integer.toUInt64?_eq_some_iff {i : Integer} {n : UInt64} :
    i.toUInt64? = some n ↔ i = .ofUInt64 n := by
  obtain ⟨val, lower, upper⟩ := i
  rw [toUInt64?]
  constructor
  · intro h
    split at h
    · rename_i hnonneg
      change 0 ≤ val at hnonneg
      obtain rfl := Option.some.inj h
      have hval : ((UInt64.ofNat val.toNat).toNat : Int) = val := by
        have hlt : val.toNat < 2 ^ 64 := by omega
        rw [UInt64.toNat_ofNat_of_lt' hlt]
        exact Int.toNat_of_nonneg hnonneg
      simp only [ofUInt64, hval]
    · exact nomatch h
  · intro h
    obtain rfl := congrArg Integer.val h
    simp [ofUInt64]

namespace Options

/-! ## Options by name -/

namespace Field

/-- The values of an option. -/
def Value : Field → Type
  | .entryName => String
  | .optimize => Bool
  | .negationKey => String
  | .outputMode => OutputMode
  | .maxDepth => UInt64

/-- The names that an option goes by in documents. -/
def Named : Field → String → Prop
  | .entryName, key => key = "entry_name" ∨ key = "entryName" ∨ key = "entry"
  | .optimize, key => key = "optimize"
  | .negationKey, key => key = "negation_key" ∨ key = "negationKey" ∨ key = "negation"
  | .outputMode, key => key = "output_mode" ∨ key = "outputMode"
  | .maxDepth, key => key = "max_operator_depth" ∨ key = "maxOperatorDepth"

instance (f : Field) (key : String) : Decidable (f.Named key) :=
  match f with
  | .entryName => inferInstanceAs (Decidable (_ ∨ _ ∨ _))
  | .optimize => inferInstanceAs (Decidable (_ = _))
  | .negationKey => inferInstanceAs (Decidable (_ ∨ _ ∨ _))
  | .outputMode => inferInstanceAs (Decidable (_ ∨ _))
  | .maxDepth => inferInstanceAs (Decidable (_ ∨ _))

/-- What stands for a value of an option: a mode may also be the only key of an object. -/
def Writes : (f : Field) → f.Value → Json → Prop
  | .entryName, s, v => v = .string s
  | .optimize, b, v => v = .bool b
  | .negationKey, s, v => v = .string s
  | .outputMode, m, v => v = .string m.jsonName ∨ v = .object [(m.jsonName, .null)]
  | .maxDepth, n, v => v = .number (.integer (.ofUInt64 n))

variable {f g : Field} {key : String}

theorem mem_spellings_iff : key ∈ f.spellings ↔ f.Named key := by
  cases f <;> simp [spellings, Named]

theorem mem_all (f : Field) : f ∈ all := by
  cases f <;> decide

/-- No name is that of two options. -/
theorem Named.unique (hf : f.Named key) (hg : g.Named key) : f = g := by
  have hall : ∀ f ∈ all, ∀ g ∈ all, ∀ key ∈ f.spellings, key ∈ g.spellings → f = g := by decide
  exact hall f (mem_all f) g (mem_all g) key (mem_spellings_iff.mpr hf) (mem_spellings_iff.mpr hg)

/-- A name is looked up among those of all options. -/
theorem ofSpelling?_eq_some_iff : ofSpelling? key = some f ↔ f.Named key := by
  have hfound : ∀ {g : Field}, ofSpelling? key = some g → g.Named key := fun h =>
    mem_spellings_iff.mp (by simpa using List.find?_some h)
  constructor
  · exact hfound
  · intro h
    have hsome : (ofSpelling? key).isSome = true :=
      List.find?_isSome.mpr ⟨f, mem_all f, by simpa using mem_spellings_iff.mpr h⟩
    obtain ⟨g, hg⟩ := Option.isSome_iff_exists.mp hsome
    rw [hg, (hfound hg).unique h]

end Field

variable {o p : Options} {f g : Field}

/-- The value of an option. -/
def get (o : Options) : (f : Field) → f.Value
  | .entryName => o.entryName
  | .optimize => o.optimize
  | .negationKey => o.negationKey
  | .outputMode => o.outputMode
  | .maxDepth => o.maxDepth

/-- Options with the given values. -/
def ofValues (values : (f : Field) → f.Value) : Options :=
  ⟨values .entryName, values .optimize, values .negationKey, values .outputMode, values .maxDepth⟩

@[simp] theorem get_ofValues (values : (f : Field) → f.Value) (f : Field) :
    (ofValues values).get f = values f := by
  cases f <;> rfl

/-- Options with another value of one of them. -/
def put (o : Options) (f : Field) (x : f.Value) : Options := ofValues (Function.update o.get f x)

theorem get_put_self (o : Options) (f : Field) (x : f.Value) : (o.put f x).get f = x := by
  rw [put, get_ofValues, Function.update_self]

theorem get_put_of_ne (o : Options) (h : g ≠ f) (x : f.Value) :
    (o.put f x).get g = o.get g := by
  rw [put, get_ofValues, Function.update_of_ne h]

theorem ext_get (h : ∀ f, o.get f = p.get f) : o = p := by
  obtain ⟨entryName, optimize, negationKey, outputMode, maxDepth⟩ := o
  obtain ⟨entryName', optimize', negationKey', outputMode', maxDepth'⟩ := p
  obtain rfl : entryName = entryName' := h .entryName
  obtain rfl : optimize = optimize' := h .optimize
  obtain rfl : negationKey = negationKey' := h .negationKey
  obtain rfl : outputMode = outputMode' := h .outputMode
  obtain rfl : maxDepth = maxDepth' := h .maxDepth
  rfl

/-! ## One value -/

variable {v : Json}

theorem readString_eq_ok_iff {s : String} : readString v = .ok s ↔ v = .string s := by
  cases v <;> simp [readString]

theorem readBool_eq_ok_iff {b : Bool} : readBool v = .ok b ↔ v = .bool b := by
  cases v <;> simp [readBool]

theorem readDepth_eq_ok_iff {n : UInt64} :
    readDepth v = .ok n ↔ v = .number (.integer (.ofUInt64 n)) := by
  cases v with
  | number m =>
      cases m with
      | integer i =>
          rw [Json.number.injEq, Number.integer.injEq, ← Integer.toUInt64?_eq_some_iff, readDepth]
          cases i.toUInt64? <;> simp
      | double x => simp [readDepth]
  | _ => simp [readDepth]

theorem readModeName_eq_ok_iff {name : String} {m : OutputMode} :
    readModeName name = .ok m ↔ name = m.jsonName := by
  rw [readModeName]
  split_ifs with hfunction hstring
  · subst hfunction
    cases m <;> simp [OutputMode.jsonName]
  · subst hstring
    cases m <;> simp [OutputMode.jsonName]
  · cases m <;> simp [OutputMode.jsonName, hfunction, hstring]

theorem readMode_object_eq_ok_iff {name : String} {content : Json} {m : OutputMode} :
    readMode (.object [(name, content)]) = .ok m ↔ name = m.jsonName ∧ content = .null := by
  rw [← readModeName_eq_ok_iff]
  cases hname : readModeName name with
  | error fault => simp [readMode, hname]
  | ok mode => cases content <;> simp [readMode, hname]

theorem readMode_eq_ok_iff {m : OutputMode} :
    readMode v = .ok m ↔ v = .string m.jsonName ∨ v = .object [(m.jsonName, .null)] := by
  cases v with
  | string name => simp [readMode, readModeName_eq_ok_iff]
  | object members =>
      rcases members with - | ⟨⟨name, content⟩, - | ⟨other, rest⟩⟩
      · simp [readMode]
      · simp [readMode_object_eq_ok_iff]
      · simp [readMode]
  | _ => simp [readMode]

theorem map_eq_ok_iff {ε α β : Type} {x : Except ε α} {P : α → Prop}
    (h : ∀ a, x = .ok a ↔ P a) {f : α → β} {b : β} : x.map f = .ok b ↔ ∃ a, P a ∧ b = f a := by
  simp only [← h]
  cases x with
  | error e => simp [Except.map]
  | ok a => simp [Except.map, eq_comm]

/-- An option is read from what stands for a value of it. -/
theorem set_eq_ok_iff : o.set v f = .ok p ↔ ∃ x, f.Writes x v ∧ p = o.put f x := by
  cases f with
  | entryName => exact map_eq_ok_iff fun _ => readString_eq_ok_iff
  | optimize => exact map_eq_ok_iff fun _ => readBool_eq_ok_iff
  | negationKey => exact map_eq_ok_iff fun _ => readString_eq_ok_iff
  | outputMode => exact map_eq_ok_iff fun _ => readMode_eq_ok_iff
  | maxDepth => exact map_eq_ok_iff fun _ => readDepth_eq_ok_iff

/-! ## Documents -/

/-- No option is named twice. -/
def Once (members : List (String × Json)) : Prop :=
  ∀ f : Field, members.Pairwise fun m n => f.Named m.1 → ¬ f.Named n.1

instance (members : List (String × Json)) : Decidable (Once members) :=
  decidable_of_iff
    (∀ f ∈ Field.all, members.Pairwise fun m n => f.Named m.1 → ¬ f.Named n.1)
    ⟨fun h f => h f f.mem_all, fun h f _ => h f⟩

/-- Every value is one of the option that it is given for. -/
def Typed (members : List (String × Json)) : Prop :=
  ∀ f : Field, ∀ m ∈ members, f.Named m.1 → ∃ x, f.Writes x m.2

/-- Options overlaid with what a document says: an option that is named there has the value
that is written, and the others stay as they are. -/
def Overlaid (base : Options) (members : List (String × Json)) (o : Options) : Prop :=
  ∀ f : Field,
    (∀ m ∈ members, f.Named m.1 → f.Writes (o.get f) m.2) ∧
      ((∀ m ∈ members, ¬ f.Named m.1) → o.get f = base.get f)

section Documents

variable {key key' : String} {m : String × Json} {members rest : List (String × Json)}
  {given : List Field}

/-- An option is named by one member only. -/
theorem Once.eq_of_named (h : Once members) {n : String × Json} (hm : m ∈ members)
    (hn : n ∈ members) (hfm : f.Named m.1) (hfn : f.Named n.1) : m = n := by
  have hsymm : Std.Symm fun m n : String × Json => f.Named m.1 → ¬ f.Named n.1 :=
    ⟨fun _ _ h hn hm => h hm hn⟩
  by_contra hne
  exact (h f).forall hm hn hne hfm hfn

theorem once_cons_iff :
    Once (m :: rest) ↔ (∀ f : Field, f.Named m.1 → ∀ n ∈ rest, ¬ f.Named n.1) ∧ Once rest := by
  simp only [Once, List.pairwise_cons, forall_and]
  refine and_congr_left' ⟨fun h f hf n hn => h f n hn hf, fun h f n hn hf => h f hf n hn⟩

theorem overlaid_nil_iff : Overlaid o [] p ↔ o = p := by
  constructor
  · intro h
    exact ext_get fun f => ((h f).2 fun _ hm => absurd hm List.not_mem_nil).symm
  · rintro rfl f
    exact ⟨fun _ hm => absurd hm List.not_mem_nil, fun _ => rfl⟩

/-- What has no known name is passed over. -/
theorem overlaid_cons_of_unknown (hm : ∀ f : Field, ¬ f.Named m.1) :
    Overlaid o (m :: rest) p ↔ Overlaid o rest p := by
  refine forall_congr' fun f => ?_
  rw [List.forall_mem_cons, List.forall_mem_cons]
  simp only [hm f, false_implies, not_false_eq_true, true_and]

/-- An option that is named once is set to the value that is written. -/
theorem overlaid_cons_iff (hm : f.Named m.1) (hrest : ∀ n ∈ rest, ¬ f.Named n.1) :
    Overlaid o (m :: rest) p ↔ ∃ next, o.set m.2 f = .ok next ∧ Overlaid next rest p := by
  constructor
  · intro h
    refine ⟨o.put f (p.get f), set_eq_ok_iff.mpr ⟨_, (h f).1 m List.mem_cons_self hm, rfl⟩, ?_⟩
    refine fun g => ⟨fun n hn => (h g).1 n (List.mem_cons_of_mem _ hn), fun hg => ?_⟩
    by_cases heq : g = f
    · subst heq
      exact (get_put_self _ _ _).symm
    · rw [get_put_of_ne o heq]
      exact (h g).2 (List.forall_mem_cons.mpr ⟨fun hgm => heq (hgm.unique hm), hg⟩)
  · rintro ⟨next, hset, h⟩ g
    obtain ⟨x, hx, rfl⟩ := set_eq_ok_iff.mp hset
    have hf : p.get f = x := ((h f).2 hrest).trans (get_put_self _ _ _)
    refine ⟨List.forall_mem_cons.mpr ⟨fun hgm => ?_, (h g).1⟩, fun hg => ?_⟩
    · obtain rfl := hgm.unique hm
      rwa [hf]
    · have hne : g ≠ f := by
        rintro rfl
        exact hg m List.mem_cons_self hm
      rw [(h g).2 fun n hn => hg n (List.mem_cons_of_mem _ hn), get_put_of_ne o hne]

theorem readMembers_cons_of_unknown (hm : ∀ f : Field, ¬ f.Named m.1) :
    readMembers o given (m :: rest) = readMembers o given rest := by
  have hkey : Field.ofSpelling? m.1 = none :=
    Option.eq_none_iff_forall_ne_some.mpr fun f hf => hm f (Field.ofSpelling?_eq_some_iff.mp hf)
  rw [readMembers, hkey]

theorem readMembers_cons_iff (hm : f.Named m.1) :
    readMembers o given (m :: rest) = .ok p ↔
      f ∉ given ∧ ∃ next, o.set m.2 f = .ok next ∧ readMembers next (f :: given) rest = .ok p := by
  rw [readMembers, Field.ofSpelling?_eq_some_iff.mpr hm]
  dsimp only
  by_cases hgiven : f ∈ given
  · simp [hgiven]
  · cases o.set m.2 f with
    | error fault => simp [hgiven]
    | ok next => simp [hgiven]

/-- Members are read when no option is named twice and every value is of its option; what comes
out is the options overlaid with the members. -/
theorem readMembers_eq_ok_iff :
    readMembers o given members = .ok p ↔
      (∀ f ∈ given, ∀ m ∈ members, ¬ f.Named m.1) ∧ Once members ∧ Overlaid o members p := by
  induction members generalizing o given with
  | nil =>
      rw [readMembers, overlaid_nil_iff]
      simp [Once]
  | cons m rest ih =>
      by_cases hunknown : ∀ f : Field, ¬ f.Named m.1
      · rw [readMembers_cons_of_unknown hunknown, ih, once_cons_iff,
          overlaid_cons_of_unknown hunknown]
        simp [hunknown]
      · obtain ⟨f, hf⟩ := not_forall_not.mp hunknown
        rw [readMembers_cons_iff hf, once_cons_iff]
        constructor
        · rintro ⟨hgiven, next, hset, hread⟩
          obtain ⟨hfresh, honce, hover⟩ := ih.mp hread
          obtain ⟨hrest, hfresh⟩ := List.forall_mem_cons.mp hfresh
          refine ⟨fun g hg => List.forall_mem_cons.mpr ⟨fun hgm => ?_, hfresh g hg⟩,
            ⟨fun g hgm => ?_, honce⟩, (overlaid_cons_iff hf hrest).mpr ⟨next, hset, hover⟩⟩
          · obtain rfl := hgm.unique hf
            exact hgiven hg
          · obtain rfl := hgm.unique hf
            exact hrest
        · rintro ⟨hfresh, ⟨hlater, honce⟩, hover⟩
          have hrest : ∀ n ∈ rest, ¬ f.Named n.1 := hlater f hf
          obtain ⟨next, hset, hover⟩ := (overlaid_cons_iff hf hrest).mp hover
          refine ⟨fun hg => hfresh f hg m List.mem_cons_self hf, next, hset,
            ih.mpr ⟨List.forall_mem_cons.mpr ⟨hrest, fun g hg n hn => ?_⟩, honce, hover⟩⟩
          exact hfresh g hg n (List.mem_cons_of_mem _ hn)

/-- What is read from an object, if anything is. -/
theorem ofJson_object_eq_ok_iff :
    ofJson (.object members) = .ok p ↔ Once members ∧ Overlaid standard members p := by
  rw [ofJson, readMembers_eq_ok_iff]
  simp

/-- Where no option is named twice and every value is of its option, there are options overlaid
with the document. -/
theorem exists_overlaid (base : Options) (honce : Once members) (htyped : Typed members) :
    ∃ o, Overlaid base members o := by
  have hvalue : ∀ f : Field, ∃ x : f.Value, (∀ m ∈ members, f.Named m.1 → f.Writes x m.2) ∧
      ((∀ m ∈ members, ¬ f.Named m.1) → x = base.get f) := by
    intro f
    by_cases hnamed : ∃ m ∈ members, f.Named m.1
    · obtain ⟨m, hm, hf⟩ := hnamed
      obtain ⟨x, hx⟩ := htyped f m hm hf
      refine ⟨x, fun n hn hfn => ?_, fun hnone => absurd hf (hnone m hm)⟩
      obtain rfl := honce.eq_of_named hn hm hfn hf
      exact hx
    · exact ⟨base.get f, fun m hm hf => absurd ⟨m, hm, hf⟩ hnamed, fun _ => rfl⟩
  choose values hvalues using hvalue
  refine ⟨ofValues values, fun f => ?_⟩
  rw [get_ofValues]
  exact hvalues f

/-- Nothing is read from an object that has two names of one option. -/
theorem exists_fault_of_named (hf : f.Named key) (hf' : f.Named key') (hne : key ≠ key')
    (hkey : key ∈ Entries.keys members) (hkey' : key' ∈ Entries.keys members) :
    ∃ fault, ofJson (.object members) = .error fault := by
  cases hread : ofJson (.object members) with
  | error fault => exact ⟨fault, rfl⟩
  | ok p =>
      obtain ⟨m, hm, rfl⟩ := List.mem_map.mp hkey
      obtain ⟨n, hn, rfl⟩ := List.mem_map.mp hkey'
      have honce : Once members := (ofJson_object_eq_ok_iff.mp hread).1
      exact absurd (congrArg Prod.fst (honce.eq_of_named hm hn hf hf')) hne

/-- Every option is written once, with its value. -/
theorem overlaid_toJson (o : Options) :
    ∃ members, o.toJson = .object members ∧ Once members ∧ Overlaid standard members o := by
  refine ⟨_, rfl, fun f => ?_, fun f => ?_⟩
  · cases f <;> simp [Field.Named]
  · cases f <;> simp [Field.Named, Field.Writes, get]

theorem ofJson_toJson (o : Options) : ofJson o.toJson = .ok o := by
  obtain ⟨members, hwritten, honce, hover⟩ := overlaid_toJson o
  rw [hwritten]
  exact ofJson_object_eq_ok_iff.mpr ⟨honce, hover⟩

theorem parse?_text_toJson (o : Options) : Json.parse? o.toJson.text = some o.toJson := by
  have hkeys : o.toJson.DistinctKeys := by
    refine Json.distinctKeys_object_iff.mpr ⟨by simp [Entries.keys], fun m hm => ?_⟩
    simp only [List.mem_cons, List.not_mem_nil, or_false] at hm
    rcases hm with rfl | rfl | rfl | rfl | rfl <;> trivial
  have hnesting : o.toJson.nesting = 1 := rfl
  exact Json.parse?_text hkeys (by rw [hnesting, Json.maxNesting]; decide)

end Documents

/-- Options are read back from what they are written as, and from its text.  A document in which
no option is named twice and every value is of its option is read as the standard options
overlaid with the document, in any order and spelling and with any other members.  A document
with two names of one option is not read. -/
theorem ofJson_overlay :
    (∀ o : Options, ofJson o.toJson = .ok o ∧
      ∃ v, Json.parse? o.toJson.text = some v ∧ ofJson v = .ok o) ∧
    (∀ members, Once members → Typed members →
      ∃ o, ofJson (.object members) = .ok o ∧ Overlaid standard members o) ∧
    ∀ members (f : Field) (key key' : String), key ≠ key' → f.Named key → f.Named key' →
      key ∈ Entries.keys members → key' ∈ Entries.keys members →
      ∃ fault, ofJson (.object members) = .error fault := by
  refine ⟨fun o => ⟨ofJson_toJson o, o.toJson, parse?_text_toJson o, ofJson_toJson o⟩, ?_, ?_⟩
  · intro members honce htyped
    obtain ⟨o, hover⟩ := exists_overlaid standard honce htyped
    exact ⟨o, ofJson_object_eq_ok_iff.mpr ⟨honce, hover⟩, hover⟩
  · intro members f key key' hne hkey hkey' hmem hmem'
    exact exists_fault_of_named hkey hkey' hne hmem hmem'

/-- A document with names of three options in different spellings, among other members. -/
def mixedSpellings : List (String × Json) :=
  [("note", .null), ("outputMode", .object [("string", .null)]), ("entry", .string "value"),
    ("Optimize", .string "off"), ("max_operator_depth", .number (.integer (.ofUInt64 7)))]

/-- The same document with another name of an option at the end. -/
def repeatedEntry : List (String × Json) := mixedSpellings ++ [("entryName", .string "value")]

theorem ofJson_overlay_mixedSpellings :
    Once mixedSpellings ∧ Typed mixedSpellings ∧
    (∃ o, ofJson (.object mixedSpellings) = .ok o ∧ Overlaid standard mixedSpellings o ∧
      o = ⟨"value", true, "!not", .string, 7⟩) ∧
    "entry" ≠ "entryName" ∧ Field.entryName.Named "entry" ∧ Field.entryName.Named "entryName" ∧
    "entry" ∈ Entries.keys repeatedEntry ∧ "entryName" ∈ Entries.keys repeatedEntry ∧
    ∃ fault, ofJson (.object repeatedEntry) = .error fault := by
  have honce : Once mixedSpellings := by decide
  have htyped : Typed mixedSpellings := by
    intro f
    cases f with
    | entryName => simpa [mixedSpellings, Field.Named, Field.Writes] using ⟨"value", rfl⟩
    | outputMode => simpa [mixedSpellings, Field.Named, Field.Writes] using ⟨.string, rfl⟩
    | maxDepth => simpa [mixedSpellings, Field.Named, Field.Writes] using ⟨(7 : UInt64), rfl⟩
    | _ => simp [mixedSpellings, Field.Named]
  have hnames : "entry" ≠ "entryName" ∧ Field.entryName.Named "entry" ∧
      Field.entryName.Named "entryName" := by decide
  have hkeys : "entry" ∈ Entries.keys repeatedEntry ∧ "entryName" ∈ Entries.keys repeatedEntry := by
    decide
  obtain ⟨-, hread, hrefused⟩ := ofJson_overlay
  obtain ⟨o, hok, hover⟩ := hread mixedSpellings honce htyped
  have hvalue : ofJson (.object mixedSpellings) = .ok ⟨"value", true, "!not", .string, 7⟩ := by rfl
  refine ⟨honce, htyped, ⟨o, hok, hover, ?_⟩, hnames.1, hnames.2.1, hnames.2.2, hkeys.1, hkeys.2,
    hrefused repeatedEntry .entryName "entry" "entryName" hnames.1 hnames.2.1 hnames.2.2 hkeys.1
      hkeys.2⟩
  rw [hok] at hvalue
  exact Except.ok.inj hvalue

end Options

end Criteria
