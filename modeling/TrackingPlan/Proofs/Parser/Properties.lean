import Mathlib.Data.List.Nodup
import TrackingPlan.Proofs.Parser.Faithful
/-!
# Properties — the properties of an object go by their keys

In every node that a parse ends with, each object has for properties the nodes of the values under its keys, in their
order.  A property is named by its key, but under the empty key it goes by its title, if it has one (`Disguised`).
Where there is no such property, the properties of an object have just the keys for names, each once, and looking one
up by its key finds the node of the value under it (`properties_of_source`).
-/
namespace TrackingPlan
namespace Parser

open Keywords (Members)

/-! ## The name of a property -/

/-- **A property under the empty key that has a title**, which is then taken for its name. -/
def Disguised (e : String × Json) : Prop :=
  e.1 = "" ∧ ∃ ms title, e.2 = .obj ms ∧ Json.given? (ms.lookup "title") = some title

/-- A schema is named by the name that is asked for, else by its title. -/
theorem ParsedAs.name {raw name : Json} {isRequired : Bool} {n : Node} (h : ParsedAs raw name isRequired n) :
    ∃ ms, raw = .obj ms ∧
      n.info.name = Json.firstGiven [name, (Json.given? (ms.lookup "title")).getD .null] := by
  obtain ⟨rs, hends⟩ := outcome_parse_none.1 (h Pointer.root)
  have hresults : (script false raw name isRequired Pointer.root).ResultsIn (fun _ => True) (fun n =>
      ∃ ms, raw = .obj ms ∧ n.info.name = Json.firstGiven [name, (Json.given? (ms.lookup "title")).getD .null]) := by
    unfold script parsePart
    rw [view_raw]
    cases raw with
    | obj ms =>
      refine (Script.ResultsIn.any _).bind fun _ _ => (Script.ResultsIn.any _).bind fun types _ => ?_
      refine (Script.ResultsIn.any _).bind fun n _ => .pure ⟨ms, rfl, ?_⟩
      show (n.withInfo _).info.name = _
      rw [Node.info_withInfo]
    | _ => exact .fail _
  exact hresults rs n hends fun _ _ => trivial

/-- **A property is named by its key**, unless it is disguised. -/
theorem name_eq_key_iff {e : String × Json} {isRequired : Bool} {p : Node} (h : ParsedAs e.2 (.str e.1) isRequired p) :
    p.info.name = .str e.1 ↔ ¬Disguised e := by
  obtain ⟨k, v⟩ := e
  obtain ⟨ms, rfl, hname⟩ := h.name
  rw [hname]
  by_cases hk : k = ""
  · subst hk
    have hempty : (Json.str "").isGiven = false := rfl
    simp only [Json.firstGiven, hempty, Bool.false_eq_true, if_false]
    cases ht : Json.given? (ms.lookup "title") with
    | none =>
      refine ⟨fun _ => ?_, fun _ => rfl⟩
      rintro ⟨_, _, _, he, htitle⟩
      cases he
      rw [ht] at htitle
      cases htitle
    | some title =>
      have hgiven : title.isGiven = true := (Option.filter_eq_some_iff.1 ht).2
      rw [Option.getD_some, if_pos hgiven]
      refine ⟨fun he => ?_, fun hno => absurd ⟨rfl, ms, title, rfl, ht⟩ hno⟩
      rw [he] at hgiven
      cases hgiven
  · have hgiven : (Json.str k).isGiven = true := by simpa [Json.isGiven] using hk
    rw [Json.firstGiven, if_pos hgiven]
    exact ⟨fun _ hd => hk hd.1, fun _ => rfl⟩

/-! ## The names of an object -/

/-- The keys of a schema's properties, a truth value being none. -/
def propertyKeys (ms : Members) : List String := (schemasIn ms "properties").map Prod.fst

variable {ms : Members} {ps : List Node}

theorem PropertiesOf.names_iff (h : PropertiesOf ms ps) :
    ps.map (·.info.name) = (propertyKeys ms).map .str ↔ ∀ e ∈ schemasIn ms "properties", ¬Disguised e := by
  obtain ⟨required, -, hps⟩ := h
  unfold propertyKeys
  generalize schemasIn ms "properties" = es at hps ⊢
  induction hps with
  | nil => exact ⟨fun _ _ he => absurd he List.not_mem_nil, fun _ => rfl⟩
  | @cons e p es ps hp _ ih =>
    rw [List.map_cons, List.map_cons, List.map_cons, List.cons.injEq, name_eq_key_iff hp, ih, List.forall_mem_cons]

theorem find?_of_named {es : Members} {e : String × Json} {p : Node} : ∀ {ps : List Node},
    ps.map (·.info.name) = (es.map Prod.fst).map .str → (es.map Prod.fst).Nodup → (e, p) ∈ es.zip ps →
      ps.find? (fun p => p.info.name.isText e.1) = some p := by
  induction es with
  | nil => intro ps _ _ h; cases h
  | cons e' es ih =>
    intro ps hnames hkeys h
    cases ps with
    | nil => cases h
    | cons q qs =>
      rw [List.map_cons, List.map_cons, List.map_cons, List.cons.injEq] at hnames
      rw [List.map_cons, List.nodup_cons] at hkeys
      rw [List.zip_cons_cons, List.mem_cons] at h
      rcases h with he | h
      · obtain ⟨rfl, rfl⟩ := Prod.mk.inj he
        have htext : p.info.name.isText e.1 = true := by rw [hnames.1]; exact beq_self_eq_true _
        rw [List.find?_cons, htext]
      · have hother : q.info.name.isText e.1 = false := by
          rw [hnames.1]
          refine beq_false_of_ne fun hkey => hkeys.1 ?_
          rw [hkey]
          exact List.mem_map_of_mem (List.of_mem_zip h).1
        rw [List.find?_cons, hother]
        exact ih hnames.2 hkeys.2 h

/-! ## All objects of a parsed node -/

/-- **What a parse ends with**, without a resolver or with one that may have been used before. -/
inductive Parsed : (String → Json → Prop) → Sourced → Prop where
  | plain {declares raw name isRequired path l n} (h : (parse none raw name isRequired path).outcome l = .ok n) :
    Parsed declares ⟨n, raw, false⟩
  | linked {r : Resolver} {calls raw name isRequired path n}
    (h : (r.parse raw name isRequired path).outcome (r.performAll calls) = .ok n) :
    Parsed r.Declares ⟨n, raw, takesCustomTypes true path⟩

theorem Parsed.grounded {declares : String → Json → Prop} {s : Sourced} (h : Parsed declares s) :
    s.Grounded declares := by
  cases h with
  | plain h => exact parse_grounded h
  | @linked r calls _ _ _ _ _ h => exact Resolver.parse_grounded (r.valid_performAll calls).1 h

/-- Every node in a node has a source, unless it stands for items that the schema leaves open. -/
theorem Sourced.Faithful.covers {declares : String → Json → Prop} {s : Sourced} (h : s.Faithful declares) {m : Node}
    (hm : s.node.Contains m) (hopen : m ≠ .anything) : ∃ t, s.Reaches declares t ∧ t.node = m := by
  have hall : m = .anything ∨ ∃ t, s.Reaches declares t ∧ t.node = m := by
    clear hopen
    induction hm with
    | refl => exact .inr ⟨s, .refl, rfl⟩
    | tail _ hc ih =>
      rcases ih with rfl | ⟨t, ht, rfl⟩
      · cases hc
      · refine ((h t ht).children _ hc).imp_right ?_
        rintro ⟨u, hu, he⟩
        exact ⟨u, ht.tail hu, he⟩
  exact hall.resolve_left hopen

/-- **The properties of an object go by their keys.**  In a parsed node, every object has a source, and from it the
nodes of the values under its keys for properties, in order.  They have just the keys for names when none is disguised;
and then, the keys being different, no name comes twice and looking up a key finds the node of the value under it. -/
theorem properties_of_source {declares : String → Json → Prop} {s : Sourced} (h : Parsed declares s) :
    (∀ m, s.node.Contains m → m.isObject = true → ∃ t, s.Reaches declares t ∧ t.node = m) ∧
    ∀ t, s.Reaches declares t → ∀ i ps ds, t.node = .object i ps ds → ∃ ms, t.raw = .obj ms ∧ PropertiesOf ms ps ∧
      (ps.map (·.info.name) = (propertyKeys ms).map .str ↔ ∀ e ∈ schemasIn ms "properties", ¬Disguised e) ∧
      ((∀ e ∈ schemasIn ms "properties", ¬Disguised e) → (propertyKeys ms).Nodup →
        (ps.map (·.info.name)).Nodup ∧
          ∀ e p, (e, p) ∈ (schemasIn ms "properties").zip ps → t.node.property? e.1 = some p) := by
  have hfaithful := h.grounded.faithful
  refine ⟨fun m hm hobj => hfaithful.covers hm ?_, fun t ht i ps ds hnode => ?_⟩
  · rintro rfl
    cases hobj
  obtain ⟨ms, hraw, hps⟩ := (hfaithful t ht).properties i ps ds hnode
  refine ⟨ms, hraw, hps, hps.names_iff, fun hplain hkeys => ?_⟩
  have hnames := hps.names_iff.2 hplain
  refine ⟨?_, fun e p hp => ?_⟩
  · rw [hnames]
    exact hkeys.map fun _ _ he => Json.str.inj he
  · rw [hnode]
    exact find?_of_named hnames hkeys hp

/-- The keywords of an object whose properties are under a plain key, a key for no schema and the empty key. -/
def sparse : Members :=
  [("type", .str "object"),
    ("properties", .obj [("id", .obj [("type", .str "string")]), ("flag", .bool true),
      ("", .obj [("type", .str "integer")])])]

def sparseNode : Node :=
  .object {} [.primitive { name := .str "id" } .string none, .primitive {} .integer none] []

theorem sparse_outcome : (parse none (.obj sparse) .null false Pointer.root).outcome {} = .ok sparseNode := by rfl

theorem properties_of_sparse : Parsed (fun _ _ => False) ⟨sparseNode, .obj sparse, false⟩ ∧
    sparseNode.property? "" = some (.primitive {} .integer none) := by
  have hparsed : Parsed (fun _ _ => False) ⟨sparseNode, .obj sparse, false⟩ := .plain sparse_outcome
  refine ⟨hparsed, ?_⟩
  obtain ⟨ms, hms, -, -, hplain⟩ := (properties_of_source hparsed).2 _ .refl _ _ _ rfl
  cases hms
  have hin : schemasIn sparse "properties" =
      [("id", .obj [("type", .str "string")]), ("", .obj [("type", .str "integer")])] := rfl
  rw [propertyKeys, hin] at hplain
  refine (hplain ?_ (by decide)).2 ("", _) _ (List.mem_cons_of_mem _ List.mem_cons_self)
  simp only [List.forall_mem_cons]
  refine ⟨fun h => ?_, fun h => ?_, fun _ h => by cases h⟩
  · exact absurd h.1 (by decide)
  · obtain ⟨-, ms, title, hms, htitle⟩ := h
    cases hms
    cases htitle

/-- Two properties, the one under the empty key with the other's key for a title. -/
def disguising : Members :=
  [("type", .str "object"),
    ("properties", .obj [("", .obj [("title", .str "a")]), ("a", .obj [("type", .str "string")])])]

/-- **A title takes the place of the empty key**: both properties are called `a`, so the first is found under the key of
the second, and none under its own. -/
theorem disguised_by_title : ∃ i p q,
    (parse none (.obj disguising) .null false Pointer.root).outcome {} = .ok (.object i [p, q] []) ∧
      p.info.name = .str "a" ∧ q.info.name = .str "a" ∧
      (Node.object i [p, q] []).property? "" = none ∧ (Node.object i [p, q] []).property? "a" = some p :=
  ⟨{}, .primitive { name := .str "a", identifierName := some (.str "a"), isNullable := true } .any none,
    .primitive { name := .str "a" } .string none, by rfl, rfl, rfl, by rfl, by rfl⟩

end Parser
end TrackingPlan
