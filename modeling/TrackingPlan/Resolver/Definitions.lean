import TrackingPlan.Fault
/-!
# Definitions — the root definitions of a document

A document declares its definitions as an object, by key.  A list is taken too, as far as it goes: each entry in turn
has to be a number or truth value, and points at the entry it counts to, from the end when it is negative.  Nothing
else can be gone through.
-/
namespace TrackingPlan

inductive Definitions where
  | keyed (members : List (String × Json))
  | listed (items : List Json)
  | text (s : String)
  | other

namespace Definitions

/-- The definitions that a document's `$defs` declares. -/
def ofJson? : Option Json → Definitions
  | some (.obj ms) => .keyed ms
  | some (.arr (v :: vs)) => .listed (v :: vs)
  | some (.str s) => if s = "" then .keyed [] else .text s
  | some v => if v.isGiven then .other else .keyed []
  | none => .keyed []

/-- The definitions of a document, which must be an object. -/
def ofDocument : Json → Except Fault Definitions
  | .obj ms => .ok (ofJson? (ms.lookup "$defs"))
  | _ => .error .notAnObject

/-- How many there are at most. -/
def count : Definitions → Nat
  | .keyed ms => ms.length
  | .listed vs => vs.length
  | _ => 0

def entryAt (items : List Json) (i : Int) : Except Fault Json :=
  let index := if i < 0 then i + items.length else i
  if index < 0 then .error .idPastEnd
  else match items[index.toNat]? with
    | some v => .ok v
    | none => .error .idPastEnd

/-- The entry that an id counts to. -/
def entryFor (items : List Json) : DefId → Except Fault Json
  | .position i => entryAt items i
  | .flag b => entryAt items (if b then 1 else 0)
  | _ => .error .unusableId

/-- An entry of the list as an id, with what it counts to. -/
def entry (items : List Json) (v : Json) : Except Fault (DefId × Json) :=
  match DefId.ofJson? v with
  | some id => (entryFor items id).map (fun w => (id, w))
  | none => .error .unusableId

/-- **The definitions in order**, each with its id; an entry that cannot be looked up is a fault in its place. -/
def entries : Definitions → List (Except Fault (DefId × Json))
  | .keyed ms => ms.map (fun (k, v) => .ok (.key k, v))
  | .listed vs => vs.map (entry vs)
  | .text _ => [.error .unusableId]
  | .other => [.error .noEntries]

/-- Whether a text stands somewhere in another. -/
def occursIn (cs : List Char) : List Char → Bool
  | [] => cs.isEmpty
  | d :: ds => cs.isPrefixOf (d :: ds) || occursIn cs ds

/-- **The definition of an id**, `none` when it is not declared. -/
def find? : Definitions → DefId → Except Fault (Option Json)
  | .keyed ms, .key k => .ok (ms.lookup k)
  | .keyed _, _ => .ok none
  | .listed vs, id => if vs.any (·.equal id.value) then (entryFor vs id).map some else .ok none
  | .text s, .key k => if occursIn k.toList s.toList then .error .unusableId else .ok none
  | .text _, _ => .error .unusableId
  | .other, _ => .error .noEntries

end Definitions
end TrackingPlan
