import TrackingPlan.Proofs.Build.WellFormed
/-!
# Preparation — which documents a build can be prepared of

The definitions of a well-formed document have values: on the way through references no definition comes back, so
there is never one in progress that is asked for again (`WellFormed.value`).  So of tidy documents a build can be
prepared of just the well-formed ones (`prepare_succeeds_iff`).
-/
namespace TrackingPlan
namespace Build

open Keywords (Members)
open TrackingPlan.Parser (Site membersIn)

variable {ms : Members} {eventName : String} {options : Options}

/-! ## A well-formed document can be prepared -/

theorem render_usual (source : String) :
    Template.render "Custom type for \x7bsource\x7d" source = .ok ("Custom type for " ++ source) := by
  have hrender : Template.render "Custom type for \x7bsource\x7d" source =
      .ok (String.ofList ("Custom type for ".toList ++ (source.toList ++ []))) := rfl
  rw [hrender, List.append_nil, String.ofList_append, String.ofList_toList, String.ofList_toList]

theorem not_same_of_unreached {inProgress : List DefId} {k : String}
    (hfree : ∀ i ∈ inProgress, ∃ j, i = .key j ∧ ¬Relation.ReflTransGen (Refers ms) k j) :
    ∀ i ∈ inProgress, i.same (.key k) = false := by
  intro i hi
  obtain ⟨j, rfl, hkj⟩ := hfree i hi
  refine Bool.eq_false_iff.2 fun hs => ?_
  cases DefId.same_key hs
  exact hkj .refl

theorem withDescription_ok (ht : options.description = .str "Custom type for \x7bsource\x7d") (n : Node) :
    ∃ node, (resolverOf ms eventName options).withDescription n = .ok node := by
  have hdesc : (resolverOf ms eventName options).describe = .ok (.str ("Custom type for " ++ eventName)) := by
    unfold Resolver.describe
    rw [show (resolverOf ms eventName options).template = _ from ht]
    simp only
    rw [render_usual]
    rfl
  unfold Resolver.withDescription
  cases n.info.description with
  | some d => exact ⟨n, rfl⟩
  | none => rw [hdesc]; exact ⟨_, rfl⟩

section

variable (h : TidyDocument ms) (hwf : WellFormed ms)

include h hwf

theorem WellFormed.blameless {s t : Site} (hs : s.untyped = false) (hreach : s.Reaches true t) (ht : Active ms t)
    (f : Fault) : ¬t.Blames f :=
  (Site.faultless_iff (fun is => h.tidy t is ht) (hreach.untyped hs)).2 (hwf.types t ht) f

theorem WellFormed.referenceValue {inner : Resolver.Valuation} {inProgress : List DefId} {s : Site} {ref : String}
    (hs : Active ms s) (href : s.reference? = some ref) (place : Location)
    (hinner : ∀ k d, Pointer.target? ref = some k → Declares ms k d → ∃ n, inner inProgress (.key k) place = .ok n) :
    ∃ n, (resolverOf ms eventName options).referenceValue inner inProgress ref place = .ok n := by
  obtain ⟨k, d, hk, hd⟩ := hwf.references s ref hs href
  obtain ⟨n, hn⟩ := hinner k d hk hd
  refine ⟨n, ?_⟩
  unfold Resolver.referenceValue
  rw [hk]
  simp only [find?_of_declares h hd]
  cases d with
  | bool b => cases hd.2
  | _ => exact hn

theorem WellFormed.valueWith (ht : options.description = .str "Custom type for \x7bsource\x7d")
    {inner : Resolver.Valuation} {inProgress : List DefId} {k : String} {d : Json} (hd : Declares ms k d)
    (hids : ∀ i ∈ inProgress, i.same (.key k) = false)
    (hinner : ∀ j e place, Refers ms k j → Declares ms j e → ∃ n, inner (.key k :: inProgress) (.key j) place = .ok n)
    (path : Location) :
    ∃ n, (resolverOf ms eventName options).valueWith inner inProgress (.key k) path = .ok n := by
  have hkeeps := Parser.script_keeps true d (Resolver.nameFor (.key k) d) false (Pointer.ofDefinition k)
  obtain ⟨n, hn⟩ : ∃ n, (resolverOf ms eventName options).answerWith inner (.key k :: inProgress)
      (Resolver.definitionScript (.key k) d) = .ok n := by
    refine Script.answer_ok ?_ ?_ ?_ hkeeps
    · rintro f ⟨t, hreach, hf⟩
      exact hwf.blameless h rfl hreach (.definition hd hreach) f hf
    · rintro ref place ⟨t, hreach, hasks⟩
      cases hasks with
      | reference href =>
        have hvalue : ∃ n, (resolverOf ms eventName options).referenceValue inner (.key k :: inProgress) ref t.place =
            .ok n :=
          hwf.referenceValue h (.definition hd hreach) href t.place
            (fun j e hj he => hinner j e t.place ⟨d, t, ref, hd, hreach, href, hj⟩ he)
        obtain ⟨n, hn⟩ := hvalue
        rw [hn]
        rfl
    · rintro key place _ ⟨t, hreach, hasks⟩
      cases hasks with
      | definition hl => exact absurd hl.2 hreach.place_ne_root
  have hany : inProgress.any (·.same (.key k)) = false := by simpa using hids
  unfold Resolver.valueWith
  rw [hany, find?_of_declares h hd]
  simp only [Bool.false_eq_true, if_false]
  rw [hn]
  exact withDescription_ok ht n

/-- **A definition has a value** if none that is in progress is referred to by it, directly or by way of others. -/
theorem WellFormed.value (ht : options.description = .str "Custom type for \x7bsource\x7d") (depth : Nat) :
    ∀ {inProgress : List DefId} {k : String} {d : Json} (path : Location), Declares ms k d →
      (resolverOf ms eventName options).Pending [] inProgress →
      (resolverOf ms eventName options).definitions.count ≤ depth + inProgress.length →
      (∀ i ∈ inProgress, ∃ j, i = .key j ∧ ¬Relation.ReflTransGen (Refers ms) k j) →
      ∃ n, (resolverOf ms eventName options).valueWithin depth inProgress (.key k) path = .ok n := by
  induction depth with
  | zero =>
    intro inProgress k d path hd hp hcount hfree
    have hlen := (hp.cons (find?_of_declares h hd) (not_same_of_unreached hfree) (fun _ he => by cases he)).length_le
    rw [List.length_cons] at hlen
    omega
  | succ depth ih =>
    intro inProgress k d path hd hp hcount hfree
    have hp' := hp.cons (find?_of_declares h hd) (not_same_of_unreached hfree) (fun _ he => by cases he)
    refine hwf.valueWith h ht hd (not_same_of_unreached hfree) (fun j e place hkj he => ?_) path
    refine ih place he hp' (by rw [List.length_cons]; omega) (List.forall_mem_cons.2 ⟨⟨k, rfl, fun hjk => ?_⟩, ?_⟩)
    · exact hwf.acyclic k (.head' hkj hjk)
    · intro i hi
      obtain ⟨l, rfl, hkl⟩ := hfree i hi
      exact ⟨l, rfl, fun hjl => hkl (.head hkj hjl)⟩

theorem prepared_of_wellFormed (ht : options.description = .str "Custom type for \x7bsource\x7d") :
    ∃ b, (prepare (.obj ms) eventName options).outcome {} = .ok b := by
  have hvalue : ∀ k d path, Declares ms k d → ∃ n, (resolverOf ms eventName options).value (.key k) path = .ok n :=
    fun k d path hd => hwf.value h ht _ path hd (.nil _ _) (Nat.le_add_right _ _) (fun _ hi => by cases hi)
  have hstep := (Resolver.resolveAll_keeps (resolverOf ms eventName options).valid_empty).step
  refine (prepare_succeeds_iff_parts (h.tidy _ ms (.event .refl) rfl)).2 ⟨?_, ?_⟩
  · refine (Resolver.resolveAll_succeeds_iff (Resolver.valid_empty _) rfl).2 (fun e he => ?_)
    obtain ⟨⟨k, d⟩, hkd, rfl⟩ := List.mem_map.1 he
    refine ⟨.key k, d, rfl, or_iff_not_imp_left.2 fun hb => ?_⟩
    obtain ⟨n, hn⟩ := hvalue k d "" ⟨hkd, Bool.eq_false_iff.2 hb⟩
    exact ⟨k, n, rfl, hn⟩
  · rw [Resolver.outcome_parse hstep.valid hstep.inProgress]
    have hkeeps := Parser.script_keeps true (.obj ms) (.str eventName) false Pointer.root
    refine Script.answer_ok ?_ ?_ ?_ hkeeps
    · rintro f ⟨t, hreach, hf⟩
      exact hwf.blameless h rfl hreach (.event hreach) f hf
    · rintro ref place ⟨t, hreach, hasks⟩
      cases hasks with
      | reference href =>
        obtain ⟨n, hn⟩ := hwf.referenceValue (s := t) h (.event hreach) href t.place
          (fun k d _ hd => hvalue k d t.place hd)
        rw [hn]
        rfl
    · rintro key place _ ⟨t, hreach, hasks⟩
      cases hasks with
      | definition hl hr _ _ hk hb =>
        rcases hreach.place with rfl | hlt
        · cases hr
          exact hvalue key _ _ ⟨hk, hb⟩
        · exact absurd hlt (by rw [hl.2]; exact Nat.lt_irrefl _)

end

/-! ## Which documents are accepted -/

/-- **Of tidy documents, and with the usual template, a build can be prepared of just the well-formed ones.** -/
theorem prepare_succeeds_iff (h : TidyDocument ms) (ht : options.description = ({} : Options).description) :
    (∃ b, (prepare (.obj ms) eventName options).outcome {} = .ok b) ↔ WellFormed ms :=
  ⟨wellFormed_of_prepared h, fun hwf => prepared_of_wellFormed h hwf ht⟩

/-! ### A sample -/

def sampleId : Json := .obj [("type", .str "string")]
def sampleProperty : Site := ⟨.obj [("$ref", .str "#/$defs/Id")], false, "#/properties/id"⟩

/-- An event with a property of a custom type. -/
def sample : Members :=
  [("type", .str "object"), ("required", .arr [.str "id"]), ("properties", .obj [("id", sampleProperty.raw)]),
    ("$defs", .obj [("Id", sampleId)])]

theorem sampleId_no_child (c : Site) : ¬(definitionSite "Id" sampleId).Child true c := by
  rintro ⟨ms, ts, u, -, hts, hu, hin⟩
  cases hts
  cases List.mem_singleton.1 hu
  cases hin

theorem sampleProperty_no_child (c : Site) : ¬sampleProperty.Child true c := by
  rintro ⟨ms, ts, u, -, hts, hu, -⟩
  cases hts
  cases hu

theorem eventSite_sample_child {c : Site} (h : (eventSite sample).Child true c) : c = sampleProperty := by
  obtain ⟨ms, ts, u, hr, -, -, hin⟩ := h
  cases hr
  cases hin with
  | property hk => cases List.mem_singleton.1 hk; rfl
  | definition hroot => exact absurd ⟨rfl, rfl⟩ hroot
  | items hi => cases hi
  | item hi => cases hi

theorem reaches_sampleId {s : Site} (h : (definitionSite "Id" sampleId).Reaches true s) :
    s = definitionSite "Id" sampleId := by
  rcases Relation.ReflTransGen.cases_head h with rfl | ⟨c, hc, -⟩
  · rfl
  · exact absurd hc (sampleId_no_child c)

theorem active_sample {s : Site} (hs : Active sample s) :
    s = eventSite sample ∨ s = sampleProperty ∨ s = definitionSite "Id" sampleId := by
  cases hs with
  | event h =>
    rcases Relation.ReflTransGen.cases_head h with rfl | ⟨c, hc, hcs⟩
    · exact .inl rfl
    · cases eventSite_sample_child hc
      rcases Relation.ReflTransGen.cases_head hcs with rfl | ⟨d, hd, -⟩
      · exact .inr (.inl rfl)
      · exact absurd hd (sampleProperty_no_child d)
  | @definition k d s hd h =>
    cases List.mem_singleton.1 hd.1
    exact .inr (.inr (reaches_sampleId h))

theorem tidyDocument_sample : TidyDocument sample where
  tidy s is hs hr := by
    rcases active_sample hs with rfl | rfl | rfl
    · cases hr
      refine ⟨fun key v hk hl => ?_, fun v hl => ?_⟩
      · rcases hk with rfl | rfl <;> cases hl <;> rfl
      · cases hl; exact ⟨["id"], rfl⟩
    · cases hr
      refine ⟨fun key v hk hl => ?_, fun v hl => by cases hl⟩
      rcases hk with rfl | rfl <;> cases hl
    · cases hr
      refine ⟨fun key v hk hl => ?_, fun v hl => by cases hl⟩
      rcases hk with rfl | rfl <;> cases hl
  keys := by decide

theorem wellFormed_sample : WellFormed sample where
  types s hs := by
    rcases active_sample hs with rfl | rfl | rfl
    · exact ⟨sample, rfl, "object", .object, rfl, rfl⟩
    · exact ⟨_, rfl, trivial⟩
    · exact ⟨_, rfl, "string", .string, rfl, rfl⟩
  references s ref hs href := by
    rcases active_sample hs with rfl | rfl | rfl
    · cases href
    · cases href
      exact ⟨"Id", sampleId, by decide, List.mem_singleton_self _, rfl⟩
    · cases href
  acyclic k hkk := by
    obtain ⟨c, ⟨d, s, ref, hd, hreach, href, -⟩, -⟩ := Relation.TransGen.head'_iff.1 hkk
    cases List.mem_singleton.1 hd.1
    rw [reaches_sampleId hreach] at href
    cases href

theorem prepare_sample_succeeds : TidyDocument sample ∧ WellFormed sample ∧
    ∃ b, (prepare (.obj sample) "Signed Up" {}).outcome {} = .ok b :=
  ⟨tidyDocument_sample, wellFormed_sample, (prepare_succeeds_iff tidyDocument_sample rfl).2 wellFormed_sample⟩

end Build
end TrackingPlan
