import Mathlib.Data.List.Basic
import TrackingPlan.Schema.Parser
/-!
# Keywords — schemas that agree on their details

The details of a schema are all that it says of itself beside its types, its reference and the schemas inside of it.
Schemas with the same details (`SameDetails`) have the same enum, require the same names, and write the same metadata
onto a node, as far as they admit null alike and refer to the same custom type (`SameDetails.describe`).
-/
namespace TrackingPlan
namespace Keywords

/-- The keywords on the types of a schema, its reference, and the schemas inside of it. -/
def structural : List String := ["$ref", "type", "properties", "$defs", "items"]

/-- **Two schemas with the same details.** -/
structure SameDetails (ms ns : Members) : Prop where
  lookup : ∀ key, key ∉ structural → ms.lookup key = ns.lookup key

namespace SameDetails

variable {ms ns : Members} (h : SameDetails ms ns)

include h

theorem rawEnum : rawEnum ms = rawEnum ns := by
  rw [Keywords.rawEnum, Keywords.rawEnum, h.lookup "enum" (by decide), h.lookup "const" (by decide)]

theorem enum? : enum? ms = enum? ns := by
  rw [Keywords.enum?, Keywords.enum?, h.rawEnum]

theorem droppedCount : droppedCount ms = droppedCount ns := by
  rw [Keywords.droppedCount, Keywords.droppedCount, h.rawEnum]

theorem enumAt (path : Location) : Parser.enumAt ms path = Parser.enumAt ns path := by
  rw [Parser.enumAt, Parser.enumAt, h.droppedCount, h.enum?]

theorem required : required ms = required ns := by
  rw [Keywords.required, Keywords.required, h.lookup "required" (by decide)]

theorem copied : copied ms = copied ns := by
  refine List.filterMap_congr fun key hkey => ?_
  have hdetail : key ∉ structural := by
    revert key
    decide
  rw [h.lookup key hdetail]

/-- **The same metadata**, for types by which both schemas admit null or neither does. -/
theorem describe {ts us : List RawType} (hnull : admitsNull ms ts = admitsNull ns us)
    (hreference : (reference? ms).map Pointer.target? = (reference? ns).map Pointer.target?) (name : Json)
    (isRequired : Bool) : describe ms ts name isRequired = describe ns us name isRequired := by
  have htitle := h.lookup "title" (by decide)
  have hdescription := h.lookup "description" (by decide)
  funext n
  unfold Keywords.describe
  simp only [hnull, htitle, hdescription, h.copied]
  generalize reference? ms = href at hreference ⊢
  generalize reference? ns = href' at hreference ⊢
  cases href with
  | none => cases href' with | none => rfl | some ref' => cases hreference
  | some ref =>
    cases href' with
    | none => cases hreference
    | some ref' =>
      have htarget : Pointer.target? ref = Pointer.target? ref' := Option.some.inj hreference
      simp only [htarget]

end SameDetails

end Keywords
end TrackingPlan
