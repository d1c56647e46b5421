import TrackingPlan.Proofs.Keywords
import TrackingPlan.Proofs.Parser.Site
import TrackingPlan.Proofs.Script.Answer
/-!
# Order — an event whose definitions stand in another order

Two schema objects that differ in the order of their definitions only (`Rearranged`) have all other keywords in common.
So with the same answers to what they ask, the linked parses at the root both fail, or both end, with nodes that have
their definitions in another order (`script_rearranged`).
-/
namespace TrackingPlan

/-! ## Nodes -/

namespace Node

/-- **The same node with its definitions in another order**, or those of members of a union. -/
inductive Reordered : Node → Node → Prop where
  | refl (n : Node) : Reordered n n
  | object (i : Info) (ps : List Node) {ds es} (h : ds.Perm es) : Reordered (.object i ps ds) (.object i ps es)
  | union (i : Info) {ms ns} (e : Option (List Json)) (h : List.Forall₂ Reordered ms ns) :
    Reordered (.union i ms e) (.union i ns e)

theorem Reordered.withInfo {n m : Node} (h : n.Reordered m) (f : Info → Info) :
    (n.withInfo f).Reordered (m.withInfo f) := by
  cases h with
  | refl => exact .refl _
  | object i ps h => exact .object (f i) ps h
  | union i e h => exact .union (f i) e h

end Node

/-! ## Keywords -/

open Keywords (Members)

/-- **The same schema object with its definitions in another order.** -/
structure Rearranged (ms ms' : Members) : Prop where
  others : ∀ key, key ≠ "$defs" → ms.lookup key = ms'.lookup key
  definitions : ∃ ds ds', ms.lookup "$defs" = some (.obj ds) ∧ ms'.lookup "$defs" = some (.obj ds') ∧ ds.Perm ds' ∧
    (ds.map Prod.fst).Nodup

theorem rearranged_set {ms ds ds' : Members} (h : ms.lookup "$defs" = some (.obj ds)) (hds : ds.Perm ds')
    (hkeys : (ds.map Prod.fst).Nodup) : Rearranged ms (Table.set "$defs" (.obj ds') ms) where
  others _ hkey := (Table.lookup_set_of_ne hkey _ ms).symm
  definitions := ⟨ds, ds', h, Table.lookup_set_self .., hds, hkeys⟩

namespace Rearranged

variable {ms ms' : Members} (h : Rearranged ms ms')

include h

theorem details : Keywords.SameDetails ms ms' where
  lookup key hkey := h.others key fun he => hkey (he ▸ by decide)

theorem reference? : Keywords.reference? ms = Keywords.reference? ms' := by
  rw [Keywords.reference?, Keywords.reference?, h.others _ (by decide)]

theorem types : Keywords.types ms = Keywords.types ms' := by
  rw [Keywords.types, Keywords.types, h.others _ (by decide)]

theorem describe (types : List RawType) (name : Json) (isRequired : Bool) :
    Keywords.describe ms types name isRequired = Keywords.describe ms' types name isRequired := by
  have hnull : Keywords.admitsNull ms types = Keywords.admitsNull ms' types := by
    rw [Keywords.admitsNull, Keywords.admitsNull, h.details.rawEnum]
  exact h.details.describe hnull (congrArg _ h.reference?) name isRequired

theorem views (linked : Bool) {key : String} (hkey : key ≠ "$defs") :
    (ms.map (fun e => (e.1, Parser.view linked e.2))).lookup key =
      (ms'.map (fun e => (e.1, Parser.view linked e.2))).lookup key := by
  rw [Parser.lookup_views, Parser.lookup_views, h.others key hkey]

end Rearranged

namespace Parser

variable {reference : String → Location → Except Fault Unit} {definition : String → Location → Except Fault Node}

/-! ## Definitions -/

/-- **The definitions of the root** are asked for one after the other. -/
theorem answer_parseDefinitions : ∀ ps : List (String × Part),
    (parseDefinitions true Pointer.root ps).answer reference definition =
      (ps.filter (fun e => !e.2.raw.isBool)).mapM fun e => (definition e.1 Pointer.root).map fun n => (e.1, n)
  | [] => rfl
  | (k, p) :: ps => by
    rw [parseDefinitions]
    cases hp : p.raw.isBool with
    | true =>
      rw [if_pos rfl, List.filter_cons_of_neg (by simp [hp])]
      exact answer_parseDefinitions ps
    | false =>
      rw [if_neg Bool.false_ne_true, List.filter_cons_of_pos (by simp [hp]), List.mapM_cons, Script.answer_bind,
        parseDefinition, if_pos ⟨rfl, rfl⟩, Script.answer]
      simp only [Script.answer_bind, answer_parseDefinitions ps]
      cases definition k Pointer.root <;> rfl

/-- **Definitions in another order** are asked for in that order, and end in it. -/
theorem parseDefinitions_perm {ps qs : List (String × Part)} (h : ps.Perm qs) :
    Alongside List.Perm ((parseDefinitions true Pointer.root ps).answer reference definition)
      ((parseDefinitions true Pointer.root qs).answer reference definition) := by
  rw [answer_parseDefinitions, answer_parseDefinitions]
  exact .mapM_perm _ (h.filter _)

/-! ## The event -/

section

variable {ms ms' : Members} (h : Rearranged ms ms')

include h

theorem objectShape_rearranged :
    Alongside Node.Reordered
      ((objectShape true ms (ms.map (fun e => (e.1, view true e.2))) Pointer.root).answer reference definition)
      ((objectShape true ms' (ms'.map (fun e => (e.1, view true e.2))) Pointer.root).answer reference definition) := by
  unfold objectShape
  rw [h.details.required, h.views true (show "properties" ≠ "$defs" by decide)]
  refine Script.alongside_bind_self _ fun required => ?_
  refine Script.alongside_bind_self _ fun properties => ?_
  refine Script.alongside_bind_self _ fun nodes => ?_
  obtain ⟨ds, ds', hds, hds', hperm, -⟩ := h.definitions
  refine Script.alongside_bind (R := List.Perm) ?_ fun ps qs hps => ?_
  · rw [lookup_views, lookup_views, hds, hds', Option.map_some, Option.map_some, membersOf, membersOf, view_raw,
      view_raw, members_view_obj, members_view_obj]
    exact .ok (hperm.map _)
  · exact Script.alongside_bind (parseDefinitions_perm hps) fun es fs hes => .ok (.object {} nodes hes)

theorem memberShape_rearranged (t : RawType) :
    Alongside Node.Reordered
      ((memberShape true ms (ms.map (fun e => (e.1, view true e.2))) Pointer.root t).answer reference definition)
      ((memberShape true ms' (ms'.map (fun e => (e.1, view true e.2))) Pointer.root t).answer reference
        definition) := by
  cases t with
  | object => exact objectShape_rearranged h
  | array =>
    rw [memberShape, memberShape, h.views true (show "items" ≠ "$defs" by decide)]
    exact .refl .refl _
  | _ =>
    simp only [memberShape, primitiveShape, h.details.enumAt]
    exact .refl .refl _

theorem parseMembers_rearranged : ∀ ts : List RawType,
    Alongside (List.Forall₂ Node.Reordered)
      ((parseMembers true ms (ms.map (fun e => (e.1, view true e.2))) Pointer.root ts).answer reference definition)
      ((parseMembers true ms' (ms'.map (fun e => (e.1, view true e.2))) Pointer.root ts).answer reference definition)
  | [] => .ok .nil
  | t :: ts =>
    Script.alongside_bind (memberShape_rearranged h t) fun _ _ hn =>
      Script.alongside_bind (parseMembers_rearranged ts) fun _ _ hns => .ok (.cons hn hns)

theorem shapeOf_rearranged (types : List RawType) :
    Alongside Node.Reordered
      ((shapeOf true ms (ms.map (fun e => (e.1, view true e.2))) types Pointer.root).answer reference definition)
      ((shapeOf true ms' (ms'.map (fun e => (e.1, view true e.2))) types Pointer.root).answer reference
        definition) := by
  unfold shapeOf
  split
  · simp only [primitiveShape, h.details.enumAt]
    exact .refl .refl _
  · exact memberShape_rearranged h _
  · refine Script.alongside_bind (parseMembers_rearranged h _) fun ns ns' hns => ?_
    rw [h.details.enumAt]
    refine Script.alongside_bind_self _ fun e => ?_
    exact .ok (.union {} e hns)

/-- **An event whose definitions stand in another order is parsed to the same node** but for that order, by the same
answers. -/
theorem script_rearranged (name : Json) (isRequired : Bool) :
    Alongside Node.Reordered
      ((script true (.obj ms) name isRequired Pointer.root).answer reference definition)
      ((script true (.obj ms') name isRequired Pointer.root).answer reference definition) := by
  unfold script parsePart
  simp only [view_raw, shape_view_obj, follow, typesAt, h.reference?, h.types, h.describe]
  refine Script.alongside_bind_self _ fun _ => ?_
  refine Script.alongside_bind_self _ fun types => ?_
  exact Script.alongside_bind (shapeOf_rearranged h types) fun n n' hn => .ok (hn.withInfo _)

end

end Parser
end TrackingPlan
