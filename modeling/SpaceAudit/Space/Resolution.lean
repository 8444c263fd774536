import SpaceAudit.Alias.Table
import SpaceAudit.Call.Arguments
import SpaceAudit.Space.Annotations

/-! The memory space of every field variable. A written type confirms its space; the space of an
`auto` variable is taken from the mirror call that initialises it. -/
namespace SpaceAudit.Configuration
variable (c : Configuration) (settings : Settings)

/-- The name token of a variable with its statement or, when the declaration ends right after the
name, the token after it with the next statement, if that assigns the variable. -/
def assignedIn? (v : c.VariableIdx) : Option (c.TokenIdx × Span) :=
  match (c.var v).nameToken.get? with
  | none => none
  | some name =>
    let declaration := c.statements.containing name
    if c.nextText name = ";" then
      match c.tokenAt? (declaration.stop + 1) with
      | none => none
      | some t =>
        if (c.token t).var.get? = some v then some (t, c.statements.containing t) else none
    else some (name, declaration)

def initializer? (v : c.VariableIdx) : Option Span :=
  match c.assignedIn? v with
  | none => none
  | some (t, statement) =>
    if c.nextText t = "=" ∧ t.val + 2 < statement.stop then some ⟨t + 2, statement.stop⟩ else none

def mirrorCall? (s : Span) : Option c.TokenIdx :=
  (c.tokensIn s).find? fun t =>
    settings.mirrorFunctions.contains (c.text t) && c.nextText t == "("

/-- A mirror lives on the host unless an argument names a device space. -/
def mirrorSpace (call : c.TokenIdx) : Except Missing MemorySpace :=
  match c.callArguments call with
  | .error e => .error e
  | .ok arguments =>
    if arguments.flatten.any fun t => settings.deviceSpaceMarkers.contains (c.text t) then
      .ok .device
    else .ok .host

def autoBinding? (v : c.VariableIdx) : Option Binding :=
  match (c.initializer? v).bind (c.mirrorCall? settings) with
  | none => none
  | some call =>
    match c.mirrorSpace settings call with
    | .ok space => some ⟨space, false⟩
    | .error _ => none

/-- The binding of a variable; none when it holds no field or its type is not known. -/
def binding? (aliases : AliasTable) (v : c.VariableIdx) : Option Binding :=
  match c.typeTexts v with
  | .error _ => none
  | .ok ["auto"] => c.autoBinding? settings v
  | .ok texts => (settings.spaceOfType? (aliases.expand texts)).map (⟨·, true⟩)

def resolveMemory (aliases : AliasTable) (a : Annotations c.extent) : Annotations c.extent :=
  c.variableIndices.foldl
    (fun a v =>
      match c.binding? settings aliases v with
      | some b => a.bind v b
      | none => a)
    a

end SpaceAudit.Configuration
