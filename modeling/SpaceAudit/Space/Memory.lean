import SpaceAudit.Space.Exec
import SpaceAudit.Statement.Index

/-! Where a field is stored, read off the tokens of its type. -/
namespace SpaceAudit

inductive MemorySpace where
  | host | device
  | named (name : String)
  | unknown
deriving DecidableEq, Repr

/-- The execution space that may touch the memory, where that is known. -/
def MemorySpace.exec? : MemorySpace → Option ExecSpace
  | host => some .host
  | device => some .device
  | named _ | unknown => none

/-- The memory space of a variable. It is confirmed when the declared type names it. -/
structure Binding where
  space : MemorySpace
  confirmed : Bool
deriving DecidableEq, Repr

namespace Template

/-- A list that starts at a double closing bracket ends before it has begun. -/
inductive Fault where
  | endsBeforeStart
deriving DecidableEq, Repr

/-- Goes on inside a template argument list. `argument` is what the current argument holds so
far. A double closing bracket ends the list from two levels down too, and then stays outside the
argument as a whole. -/
def lastArgumentFrom (depth : Nat) (argument : List String) : List String → Option (List String)
  | [] => none
  | text :: rest =>
    if text = "<" then lastArgumentFrom (depth + 1) (argument ++ [text]) rest
    else if text = ">" then
      if depth = 0 then none
      else if depth = 1 then some argument
      else lastArgumentFrom (depth - 1) (argument ++ [text]) rest
    else if text = ">>" then
      if depth ≤ 2 then some argument
      else lastArgumentFrom (depth - 2) (argument ++ [text]) rest
    else if text = "," ∧ depth = 1 then lastArgumentFrom depth [] rest
    else if isBoundary text then none
    else lastArgumentFrom depth (argument ++ [text]) rest

/-- The last argument of the template argument list whose opening bracket comes first; none when
the list is not closed. -/
def lastArgument : List String → Except Fault (Option (List String))
  | [] => .ok none
  | first :: rest =>
    if first = ">>" then .error .endsBeforeStart
    else if first = ">" ∨ isBoundary first then .ok none
    else .ok (lastArgumentFrom (if first = "<" then 1 else 0) [] rest)

def namedSpace? (text : String) : Option MemorySpace :=
  if Text.endsWith text "Allocator" && Text.holds text "Device" then some .device
  else if Text.endsWith text "Allocator" && Text.holds text "Host" then some .host
  else if Text.endsWith text "Space" then some (.named text)
  else none

/-- The space that a template argument names; the last word that names one counts, and with none
the memory is the device's. -/
def spaceOf (argument : List String) : MemorySpace :=
  (argument.reverse.findSome? namedSpace?).getD .device

end Template

def familySpace : List String → MemorySpace
  | "<" :: rest =>
    match Template.lastArgumentFrom 1 [] rest with
    | some argument => Template.spaceOf argument
    | none => .unknown
  | _ => .device

/-- The space of a declared type whose aliases are expanded; none when it is no field. -/
def Settings.spaceOfType? (s : Settings) (texts : List String) : Option MemorySpace :=
  match texts.dropWhile fun t => !s.isFieldFamily t with
  | [] => none
  | _ :: rest =>
    if texts.any s.hostWrappers.contains then some .host
    else if texts.any s.deviceSpaceMarkers.contains then some .device
    else if texts.any s.hostSpaceMarkers.contains then some .host
    else some (familySpace rest)

end SpaceAudit
