import TrackingPlan.Proofs.Build.Traversal
import TrackingPlan.Proofs.Emission.Preview
import TrackingPlan.Proofs.Identical
/-!
# Preview — the names in the preview of a build

The walk over what a build hands out goes by a plan, so its preview is that plan with the namer's names in it.  These
tell apart all that they name, whatever characters the properties and custom types have in theirs
(`preview_unambiguous`).
-/
namespace TrackingPlan
namespace Build

open Keywords (Members)
open Walk (Plan)

variable {eventName : String} {options : Options} {b : Build}

/-- **A preview of what a build hands out** neither loses nor confuses names, from every node in it and in every
language.  It has the shape of the walk, each object with all its properties in their order; and its names are different
for the properties of one object, for objects at different paths, for objects and references, and for references to
different custom types.  Each object has to have different texts for the names of its properties, and a text for its own
name where its path gives none. -/
theorem preview_unambiguous {raw : Json} (h : (prepare raw eventName options).outcome {} = .ok b) {root n : Node}
    (hroot : b.Offers root) (hn : root.Contains n) (path : List String)
    (hdistinct : ∀ p, Plan.ofNode b.client n (path.map .str) = .ok p → p.Distinct)
    (hown : ∀ p, Plan.ofNode b.client n (path.map .str) = .ok p → p.OwnNamed) (l : Language) :
    ∃ p N namer, Plan.ofNode b.client n (path.map .str) = .ok p ∧
      Preview.ofNode b.client n (path.map .str) (Namer.ofLanguage l) = .ok (p.preview N) namer ∧
      N.Unambiguous p.calls := by
  obtain ⟨ms, -, hprep⟩ := prepared_of_prepare h
  obtain ⟨p, hat, -, hrun⟩ := hprep.planned hroot hn (path.map .str)
  have hplan : Plan.ofNode b.client n (path.map .str) = .ok p := by
    have hwalk : Walk.walk b.client Plan.recorder n (path.map .str) () = .ok p () :=
      (congrFun (hrun _ _ Plan.recorder) ()).trans (Plan.run_recorder p)
    unfold Plan.ofNode
    rw [hwalk]
  obtain ⟨N, namer, hpreview, hnames⟩ := Preview.preview_of_plan (Namer.orderly_fresh (.ofLanguage l)) hat ⟨path, rfl⟩
    (hdistinct p hplan) (hown p hplan)
  exact ⟨p, N, namer, hplan, (congrFun (hrun _ _ Preview.hooks) _).trans hpreview, hnames⟩

/-! ### Nested and dotted properties -/

def textSchema : Json := .obj [("type", .str "string")]

/-- An event in which a property has the path of another one for its name. -/
def dotted : Members :=
  [("type", .str "object"),
    ("properties", .obj [("a.b", .obj [("type", .str "object"), ("properties", .obj [("it's", textSchema)])]),
      ("a", .obj [("type", .str "object"), ("properties", .obj [("b", .obj [("type", .str "object")])])]),
      ("tag", .obj [("$ref", .str "#/$defs/A b")])]),
    ("$defs", .obj [("A b", textSchema)])]

def dottedTag : Node :=
  .primitive { name := .str "A b", description := some (.str "Custom type for Signed Up") } .string none

def dottedText : Node := .primitive { name := .str "it's" } .string none
def dottedOuter : Node := .object { name := .str "a" } [.object { name := .str "b" } [] []] []
def dottedReference : Node := .primitive { name := .str "tag", isNullable := true, refName := some "A b" } .any none

def dottedBuild : Build where
  eventName := "Signed Up"
  schema := .object { name := .str "Signed Up" }
    [.object { name := .str "a.b" } [dottedText] [], dottedOuter, dottedReference] [("A b", dottedTag)]
  customTypes := [(.key "A b", dottedTag)]
  options := {}

theorem prepare_dotted : (prepare (.obj dotted) "Signed Up" {}).outcome {} = .ok dottedBuild := by decide +kernel

def dottedPlan : Plan :=
  .object { name := .str "Signed Up" }
    [(.str "a.b", .object { name := .str "a.b" }
        [(.str "it's", .primitive { name := .str "it's" } .string none [.str "a.b", .str "it's"])] [.str "a.b"]),
      (.str "a", .object { name := .str "a" } [(.str "b", .object { name := .str "b" } [] [.str "a", .str "b"])]
        [.str "a"]),
      (.str "tag", .reference dottedReference "A b" [.str "tag"])] []

theorem plan_dotted : Plan.ofNode dottedBuild.client dottedBuild.schema [] = .ok dottedPlan := by rfl

/-- The objects of the plan, with the names of their properties. -/
theorem object_mem_dottedPlan {i : Info} {names : List Json} {path : Walk.Path}
    (h : .object i names path ∈ dottedPlan.calls) :
    (∃ t, i.name = .str t) ∧ (names = [.str "it's"] ∨ names = [] ∨ names = [.str "b"] ∨
      names = [.str "a.b", .str "a", .str "tag"]) := by
  simp only [dottedPlan, Plan.calls, Plan.callsOfProperties, List.map_cons, List.map_nil, List.append_nil,
    List.nil_append, List.cons_append, List.mem_cons, List.not_mem_nil, or_false, Walk.HookCall.object.injEq,
    reduceCtorEq, false_or] at h
  rcases h with ⟨rfl, rfl, rfl⟩ | ⟨rfl, rfl, rfl⟩ | ⟨rfl, rfl, rfl⟩ | ⟨rfl, rfl, rfl⟩
  · exact ⟨⟨_, rfl⟩, .inl rfl⟩
  · exact ⟨⟨_, rfl⟩, .inr (.inl rfl)⟩
  · exact ⟨⟨_, rfl⟩, .inr (.inr (.inl rfl))⟩
  · exact ⟨⟨_, rfl⟩, .inr (.inr (.inr rfl))⟩

theorem distinct_dottedPlan : dottedPlan.Distinct := by
  intro i names path h
  rcases (object_mem_dottedPlan h).2 with rfl | rfl | rfl | rfl
  · exact ⟨⟨["it's"], rfl⟩, by simp⟩
  · exact ⟨⟨[], rfl⟩, by simp⟩
  · exact ⟨⟨["b"], rfl⟩, by simp⟩
  · exact ⟨⟨["a.b", "a", "tag"], rfl⟩, by simp⟩

theorem ownNamed_dottedPlan : dottedPlan.OwnNamed := fun _ _ _ h _ => (object_mem_dottedPlan h).1

theorem preview_unambiguous_dotted :
    (prepare (.obj dotted) "Signed Up" {}).outcome {} = .ok dottedBuild ∧ dottedPlan.Distinct ∧ dottedPlan.OwnNamed ∧
      ∃ N namer, Preview.ofNode dottedBuild.client dottedBuild.schema [] (Namer.ofLanguage .kotlin) =
        .ok (dottedPlan.preview N) namer ∧ N.Unambiguous dottedPlan.calls := by
  have hplan : ∀ p, Plan.ofNode dottedBuild.client dottedBuild.schema [] = .ok p → p = dottedPlan := fun p hp =>
    (Except.ok.inj (plan_dotted.symm.trans hp)).symm
  obtain ⟨p, N, namer, hp, hpreview, hnames⟩ := preview_unambiguous prepare_dotted .schema .refl []
    (fun p hp => hplan p hp ▸ distinct_dottedPlan) (fun p hp => hplan p hp ▸ ownNamed_dottedPlan) .kotlin
  cases hplan p hp
  exact ⟨prepare_dotted, distinct_dottedPlan, ownNamed_dottedPlan, N, namer, hpreview, hnames⟩

/-! ### An object that is named by something else than a text -/

def titled : Members := [("type", .str "object"), ("title", .int 5)]

def titledBuild : Build where
  eventName := ""
  schema := .object { name := .int 5, identifierName := some (.int 5) } [] []
  customTypes := []
  options := {}

/-- **A title that is no text leaves an event without a name**: the object has no properties at all, and yet has no
preview. -/
theorem preview_fails_of_title :
    (prepare (.obj titled) "" {}).outcome {} = .ok titledBuild ∧
      (∃ p, Plan.ofNode titledBuild.client titledBuild.schema [] = .ok p ∧ p.Distinct) ∧
      ∃ namer, Preview.ofNode titledBuild.client titledBuild.schema [] (Namer.ofLanguage .typescript) =
        .error .titleNotText namer := by
  refine ⟨?_, ⟨.object titledBuild.schema.info [] [], ?_, ?_⟩, Namer.ofLanguage .typescript, ?_⟩
  · rfl
  · rfl
  · intro i names path h
    cases List.mem_singleton.1 h
    exact ⟨⟨[], rfl⟩, List.nodup_nil⟩
  · rfl

end Build
end TrackingPlan
