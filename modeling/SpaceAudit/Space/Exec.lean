import SpaceAudit.Settings.Basic
import SpaceAudit.Text.Blank

/-! Where code runs, and the words that say so. -/
namespace SpaceAudit

inductive ExecSpace where
  | host | device
deriving DecidableEq, Repr

def ExecSpace.text : ExecSpace → String
  | host => "Host"
  | device => "Device"

inductive ExecMarker where
  | host
  | deviceFunction
  | deviceLambda
  | classLambda
  | device (word : String)
deriving DecidableEq, Repr

def ExecMarker.space : ExecMarker → ExecSpace
  | host => .host
  | _ => .device

structure ExecInfo where
  space : ExecSpace
  marker : ExecMarker
  inherited : Bool
deriving DecidableEq, Repr

namespace ExecInfo

def ofMarker (m : ExecMarker) : ExecInfo := ⟨m.space, m, false⟩

def passedOn (i : ExecInfo) : ExecInfo := { i with inherited := true }

/-- Code that no marker speaks for runs on the host. -/
def unmarked : ExecInfo := ⟨.host, .host, false⟩

end ExecInfo

/-- The marker that a word before a body denotes. The lists come before the common start, and the
narrower list before the wider. -/
def Settings.marker? (s : Settings) (word : String) : Option ExecMarker :=
  if s.classLambdaMarkers.contains word then some .classLambda
  else if s.deviceLambdaMarkers.contains word then some .deviceLambda
  else if s.deviceFunctionMarkers.contains word then some .deviceFunction
  else if s.deviceMarkerStart != "" && Text.startsWith word s.deviceMarkerStart then
    some (.device word)
  else none

end SpaceAudit
