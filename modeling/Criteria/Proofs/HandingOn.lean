import Criteria.Proofs.Composition
import Criteria.Proofs.Json.Equality
import Criteria.Proofs.Rearrangement

/-!
# Arguments handed on

Queries and their JSON forms are turned into each other when operators call each other.  Nothing
is lost on the way but what the JSON form of a query has not: that a text was a pattern, and
that a mapping or list stood as a value.  An operator receives such a form, or a pattern, so
its argument arrives as it was however often it is handed on.

* `Query.Built`: the queries that can be built.
* `Query.distinctKeys_toJson`, `Query.built_ofJson`: their JSON forms, and back.
* `Query.toJson_conjunction`: repeated names.
* `Dictionary.HandsOn`: where an argument is handed on, call by call.
* `Generator.PassesOn`: operators that hand on their argument and nothing else.
* `Query.unchanged_handedOn`: all of it.
-/

namespace Criteria

/-! ## Queries and their JSON forms -/

namespace Query

/-- The query can be built: mappings are written entry by entry, and no object among the values
repeats a key. -/
inductive Built : Query → Prop where
  /-- Entries written one after another. -/
  | conjunction {entries : List (String × Query)} (h : ∀ entry ∈ entries, Built entry.2) :
      Built (conjunction entries)
  /-- Alternatives. -/
  | any {branches : List Query} (h : ∀ q ∈ branches, Built q) : Built (.any branches)
  /-- A value, which may be an object or a list. -/
  | scalar {v : Json} (h : v.DistinctKeys) : Built (.scalar v)
  /-- A pattern. -/
  | pattern (p : Pattern) : Built (.pattern p)

theorem toItems_eq_map (branches : List Query) : toItems branches = branches.map toJson := by
  induction branches with
  | nil => rfl
  | cons q rest ih => rw [toItems, ih, List.map_cons]

theorem toMembers_eq_map (entries : List (String × Query)) :
    toMembers entries = entries.map fun entry => (entry.1, entry.2.toJson) := by
  induction entries with
  | nil => rfl
  | cons entry rest ih => rw [toMembers, ih, List.map_cons]

/-- The JSON form of entries written one after another is what comes of writing their JSON
forms. -/
theorem toJson_conjunction (entries : List (String × Query)) :
    (conjunction entries).toJson =
      .object (Entries.ofList (entries.map fun entry => (entry.1, entry.2.toJson))) := by
  rw [conjunction, toJson, toMembers_eq_map, Entries.ofList_map]

/-- No object in the JSON form of a query repeats a key. -/
theorem distinctKeys_toJson {q : Query} (h : q.Built) : q.toJson.DistinctKeys := by
  induction h with
  | @conjunction entries _ ih =>
      rw [toJson_conjunction, Json.distinctKeys_object_iff]
      refine ⟨Entries.nodup_ofList _, fun m hm => ?_⟩
      obtain ⟨entry, hentry, rfl⟩ := List.mem_map.mp (Entries.mem_of_mem_ofList hm)
      exact ih entry hentry
  | @any branches _ ih =>
      rw [toJson, toItems_eq_map, Json.distinctKeys_array_iff]
      exact List.forall_mem_map.mpr ih
  | scalar h => exact h
  | pattern p => exact trivial

/-- Members whose keys differ are read as they stand. -/
theorem ofJson_object {members : List (String × Json)} (h : (Entries.keys members).Nodup) :
    ofJson (.object members) = conjunction (members.map fun m => (m.1, ofJson m.2)) := by
  rw [ofJson, ofMembers_eq_map, conjunction, Entries.ofList_map, Entries.ofList_of_nodup h]

/-- What is read from a JSON value can be built. -/
theorem built_ofJson {v : Json} (h : v.DistinctKeys) : (ofJson v).Built := by
  induction v with
  | null => exact .scalar h
  | bool b => exact .scalar h
  | number n => exact .scalar h
  | string s => exact .scalar h
  | array items ih =>
      rw [ofJson, ofItems_eq_map]
      exact .any (List.forall_mem_map.mpr fun x hx =>
        ih x hx (Json.distinctKeys_array_iff.mp h x hx))
  | object members ih =>
      obtain ⟨hnodup, hvalues⟩ := Json.distinctKeys_object_iff.mp h
      rw [ofJson_object hnodup]
      exact .conjunction (List.forall_mem_map.mpr fun m hm => ih m hm (hvalues m hm))

end Query

/-! ## From call to call -/

namespace Dictionary

variable {d : Dictionary} {limit levels : Nat} {site last : Site} {a b : Argument} {q : Query}

/-- From an operator that receives an argument to another one that does: each operator on the
way asks for the next one with its own argument, among whatever else it does. -/
inductive HandsOn (d : Dictionary) (limit : Nat) :
    Nat → Site → Argument → Site → Argument → Prop where
  /-- No call. -/
  | here (levels : Nat) (site : Site) (a : Argument) : HandsOn d limit levels site a site a
  /-- One call in front. -/
  | call {levels : Nat} {site last : Site} {a b : Argument} {key : String} {g : Generator}
      (known : d.get? site.operator = some g)
      (asks : (key, a.toQuery) ∈ (g a site).asked (d.answerBelow limit (levels + 1) site))
      (rest : HandsOn d limit levels (callee site key) (.ofQuery a.toQuery) last b) :
      HandsOn d limit (levels + 1) site a last b

namespace HandsOn

/-- The argument arrives as it was. -/
theorem argument_eq (h : d.HandsOn limit levels site a last b) : b = a := by
  induction h with
  | here levels site a => rfl
  | @call levels site last a b key g _ _ _ ih => rw [ih, Argument.ofQuery_toQuery]

/-- The place stays the same. -/
theorem place_eq (h : d.HandsOn limit levels site a last b) :
    last.enclosing = site.enclosing ∧ last.field = site.field := by
  induction h with
  | here levels site a => exact ⟨rfl, rfl⟩
  | call _ _ _ ih => exact ih

/-- The last operator is called indeed, with what has arrived. -/
theorem mem_calls (h : d.HandsOn limit levels site a last b) {g : Generator}
    (hget : d.get? last.operator = some g) (hq : Argument.ofQuery q = a) :
    ⟨b, last⟩ ∈ (d.resolveWithin limit levels site q).calls := by
  induction h generalizing q with
  | here levels site a =>
      rw [resolveWithin_eq_invoke, calls_invoke hget, hq]
      exact List.mem_cons_self
  | call known asks _ ih =>
      rw [resolveWithin_eq_invoke, calls_invoke known, hq, Generation.calls_run]
      refine List.mem_cons_of_mem _ (List.mem_flatMap.mpr ⟨_, asks, ?_⟩)
      exact ih hget rfl

end HandsOn

end Dictionary

/-! ## Operators that only hand on -/

namespace Generation

variable {answer : String → Query → Traced Expr} {P : String × Query → Prop}

/-- What is asked for first, and what is asked for then. -/
theorem forall_asked_ask {key : String} {q : Query} {next : Expr → Generation} (hfirst : P (key, q))
    (hnext : ∀ e, ∀ r ∈ (next e).asked answer, P r) :
    ∀ r ∈ (ask key q next).asked answer, P r := by
  refine List.forall_mem_cons.mpr ⟨hfirst, ?_⟩
  cases (answer key q).result with
  | ok e => exact hnext e
  | error error => exact fun r hr => absurd hr List.not_mem_nil

theorem forall_asked_askAll {q : Query} {keys : List String} {next : List Expr → Generation}
    (hfirst : ∀ key ∈ keys, P (key, q)) (hnext : ∀ es, ∀ r ∈ (next es).asked answer, P r) :
    ∀ r ∈ (askAll q next keys).asked answer, P r := by
  induction keys generalizing next with
  | nil => exact hnext []
  | cons key rest ih =>
      obtain ⟨hkey, hrest⟩ := List.forall_mem_cons.mp hfirst
      exact forall_asked_ask hkey fun e => ih hrest fun es => hnext (e :: es)

end Generation

namespace Generator

/-- The operator calls others with its own argument only. -/
def PassesOn (g : Generator) : Prop :=
  ∀ a site answer, ∀ r ∈ (g a site).asked answer, r.2 = a.toQuery

variable {target : String} {targets : List String}

theorem IsLeaf.passesOn {g : Generator} (h : g.IsLeaf) : g.PassesOn := by
  intro a site answer
  obtain ⟨result, hresult⟩ := h a site
  rw [hresult]
  exact fun r hr => absurd hr List.not_mem_nil

theorem passesOn_forward : (forward target).PassesOn := fun _ _ _ =>
  Generation.forall_asked_ask rfl fun _ _ hr => absurd hr List.not_mem_nil

/-- Asking several operators, and making what one likes of their answers, as `allOf`, `anyOf` and
`noneOf` do. -/
theorem passesOn_askAll (make : List Expr → Expr) :
    PassesOn fun a _ => .askAll a.toQuery (fun es => .give (make es)) targets := fun _ _ _ =>
  Generation.forall_asked_askAll (fun _ _ => rfl) fun _ _ hr => absurd hr List.not_mem_nil

end Generator

namespace Dictionary

variable {d : Dictionary} {limit levels : Nat} {site : Site} {q : Query}

/-- Where operators only hand on, all of them receive the same argument. -/
theorem argument_of_passesOn
    (h : ∀ name g, d.get? name = some g → g.PassesOn) :
    ∀ call ∈ (d.resolveWithin limit levels site q).calls, call.argument = .ofQuery q := by
  induction levels generalizing site q with
  | zero =>
      refine forall_calls_invoke rfl fun g _ r _ call hcall => ?_
      exact absurd hcall List.not_mem_nil
  | succ levels ih =>
      refine forall_calls_invoke rfl fun g hget r hr call hcall => ?_
      have hasked : r.2 = (Argument.ofQuery q).toQuery := h _ g hget _ _ _ r hr
      rw [ih call hcall, hasked, Argument.ofQuery_toQuery]

end Dictionary

/-- Reading a JSON value and taking the JSON form gives the value, member by member and in
order, and the JSON form of every query that can be built is such a value, which comes back the
same.  Entries stand where their names came first, with what was written last.

Wherever an argument is handed on from call to call, it is the argument received first that
arrives: the same value, and so the same text, or the same pattern.  Where operators hand on and
do nothing else, that holds of all calls. -/
theorem Query.unchanged_handedOn :
    (∀ v : Json, (ofJson v).toJson = v ∧ (v.DistinctKeys → (ofJson v).Built)) ∧
    (∀ q : Query, q.Built →
      q.toJson.DistinctKeys ∧ (ofJson q.toJson).Built ∧ (ofJson q.toJson).toJson = q.toJson) ∧
    (∀ entries : List (String × Query), ∃ stored, conjunction entries = .all stored ∧
      (conjunction entries).toJson = .object (stored.map fun entry => (entry.1, entry.2.toJson)) ∧
      Entries.keys stored = (Entries.keys entries).eraseDups ∧
      ∀ name, stored.lookup name = entries.reverse.lookup name) ∧
    ∀ (d : Dictionary) (limit : Nat) (key : String) (q : Query) (field : Option String)
      (enclosing : Scope),
      (∀ last b, d.HandsOn limit limit ⟨key, enclosing, field, 0⟩ (.ofQuery q) last b →
        b = .ofQuery q ∧ last.enclosing = enclosing ∧ last.field = field ∧
          ∀ g, d.get? last.operator = some g →
            ⟨b, last⟩ ∈ (d.resolve limit key q field enclosing).calls) ∧
      ((∀ name g, d.get? name = some g → g.PassesOn) →
        ∀ call ∈ (d.resolve limit key q field enclosing).calls, call.argument = .ofQuery q) := by
  refine ⟨fun v => ⟨toJson_ofJson v, built_ofJson⟩, fun q hq => ?_, fun entries => ?_,
    fun d limit key q field enclosing => ⟨fun last b h => ?_, fun h => ?_⟩⟩
  · have hkeys : q.toJson.DistinctKeys := distinctKeys_toJson hq
    exact ⟨hkeys, built_ofJson hkeys, toJson_ofJson _⟩
  · refine ⟨Entries.ofList entries, rfl, ?_, Entries.keys_ofList entries, fun name =>
      Entries.lookup_ofList name entries⟩
    rw [toJson_conjunction, Entries.ofList_map]
  · obtain ⟨henclosing, hfield⟩ := h.place_eq
    exact ⟨h.argument_eq, henclosing, hfield, fun g hget => h.mem_calls hget rfl⟩
  · exact Dictionary.argument_of_passesOn h

namespace Stock

/-- An operator, a second name of it, and both of them at once. -/
def paired : Dictionary :=
  .ofList
    [("show", showScope), ("near", Generator.forward "show"),
      ("both", Generator.allOf ["show", "near"])]

theorem passesOn_of_get?_paired {name : String} {g : Generator}
    (h : paired.get? name = some g) : g.PassesOn := by
  have hmem : (name, g) ∈ [("show", showScope), ("near", Generator.forward "show"),
      ("both", Generator.allOf ["show", "near"])] := OrderedMap.mem_entries_of_get? h
  simp only [List.mem_cons, Prod.mk.injEq, List.not_mem_nil, or_false] at hmem
  rcases hmem with ⟨-, rfl⟩ | ⟨-, rfl⟩ | ⟨-, rfl⟩
  · exact Generator.IsLeaf.passesOn fun _ _ => ⟨_, rfl⟩
  · exact Generator.passesOn_forward
  · exact Generator.passesOn_askAll Expr.all

end Stock

namespace Query

/-- The pattern of a single letter. -/
def letter : Pattern := ⟨"a", (Pattern.regular? "a").get (by decide +kernel), by simp⟩

/-- A mapping with a repeated name, an object as a value and a pattern. -/
def mixed : Query :=
  conjunction
    [("x", .scalar .null), ("y", .pattern letter), ("x", .scalar (.object [("z", .null)]))]

theorem unchanged_handedOn_mixed :
    mixed.Built ∧ mixed.toJson = .object [("x", .object [("z", .null)]), ("y", .string "a")] ∧
      (ofJson mixed.toJson).toJson = mixed.toJson ∧
      (∀ name g, Stock.paired.get? name = some g → g.PassesOn) ∧
      ⟨.literal mixed.toJson, ⟨"show", .ofRoot "item", none, 2⟩⟩ ∈
        (Stock.paired.resolve 2 "both" mixed none (.ofRoot "item")).calls ∧
      ∀ call ∈ (Stock.paired.resolve 2 "both" mixed none (.ofRoot "item")).calls,
        call.argument = .literal mixed.toJson := by
  obtain ⟨-, hbuilt, -, hcalls⟩ := unchanged_handedOn
  have hmixed : mixed.Built := by
    refine .conjunction fun entry hentry => ?_
    simp only [List.mem_cons, List.not_mem_nil, or_false] at hentry
    rcases hentry with rfl | rfl | rfl
    · exact .scalar trivial
    · exact .pattern letter
    · exact .scalar ⟨by decide, trivial, trivial⟩
  obtain ⟨hpath, hall⟩ := hcalls Stock.paired 2 "both" mixed none (.ofRoot "item")
  let both : Site := ⟨"both", .ofRoot "item", none, 0⟩
  let near : Site := ⟨"near", .ofRoot "item", none, 1⟩
  let a : Argument := .literal mixed.toJson
  have hnear : ("near", a.toQuery) ∈ (Generator.allOf ["show", "near"] a both).asked
      (Stock.paired.answerBelow 2 2 both) := .tail _ (.head _)
  have hshow : ("show", a.toQuery) ∈ (Generator.forward "show" a near).asked
      (Stock.paired.answerBelow 2 1 near) := .head _
  have hhands : Stock.paired.HandsOn 2 2 both a ⟨"show", .ofRoot "item", none, 2⟩ a :=
    .call rfl hnear (.call rfl hshow (.here _ _ _))
  obtain ⟨-, -, -, hreached⟩ := hpath _ _ hhands
  have hknown : ∀ name g, Stock.paired.get? name = some g → g.PassesOn := fun _ _ =>
    Stock.passesOn_of_get?_paired
  exact ⟨hmixed, rfl, (hbuilt mixed hmixed).2.2, hknown, hreached _ rfl, hall hknown⟩

end Query

end Criteria
