import TrackingPlan.Fault
import TrackingPlan.Event.Section
/-!
# Call — analytics calls and the section each sends
-/
namespace TrackingPlan

inductive Call where
  | track
  | identify
  | page
  | screen
  | group
deriving DecidableEq

namespace Call

def text : Call → String
  | .track => "track"
  | .identify => "identify"
  | .page => "page"
  | .screen => "screen"
  | .group => "group"

def all : List Call := [.track, .identify, .page, .screen, .group]

def ofJson (v : Json) : Except Fault Call :=
  match all.find? (fun c => v.isText c.text) with
  | some c => .ok c
  | none => .error (.notCall v)

/-- Whether the call sends traits; the others send properties. -/
def sendsTraits : Call → Bool
  | .identify | .group => true
  | _ => false

def sectionName (c : Call) : String := if c.sendsTraits then "traits" else "properties"

/-- The section of an event that the call sends. -/
def payload (c : Call) (event : Node) : Node := if c.sendsTraits then Event.traits event else Event.properties event

end Call
end TrackingPlan
