import SpaceAudit.Audit.Subject
import SpaceAudit.Space.Resolution

/-! Variables declared `auto` whose type could be written out. -/
namespace SpaceAudit.Subject
variable (x : Subject)

/-- What initialises a variable, by assignment or in brackets after its name. -/
def autoInitializer? (v : x.VariableIdx) (name : x.TokenIdx) : Option Span :=
  match x.configuration.initializer? v with
  | some s => some s
  | none =>
    if ["(", "\x7b"].contains (x.configuration.nextText name) then
      some ⟨name + 1, (x.configuration.statements.containing (name + 1)).stop⟩
    else none

/-- A lambda has no type that could be written. -/
def isLambda (s : Span) : Bool :=
  x.configuration.textAt s.start == "[" ||
    (x.configuration.textsIn s).any fun text => (x.settings.marker? text).isSome

/-- Whether an initialiser has a type that has to be deduced: a mirror's, or what a function that
returns `auto` gives. -/
def isDeduced (s : Span) : Bool :=
  (x.configuration.tokensIn s).any fun t =>
    x.settings.mirrorFunctions.contains (x.configuration.text t) ||
      (x.signatures.auto.contains (x.configuration.text t) && x.configuration.nextText t == "(")

def isAuto (v : x.VariableIdx) : Bool :=
  match x.configuration.typeTexts v with
  | .ok texts => texts == ["auto"]
  | .error _ => false

def autoFinding? (v : x.VariableIdx) : Option Finding :=
  match (x.configuration.var v).nameToken.get? with
  | none => none
  | some name =>
    if (x.configuration.var v).access != .argument && x.inMainFile name && x.isAuto v then
      match x.autoInitializer? v name with
      | none => none
      | some s =>
        if x.isLambda s || x.isDeduced s then none
        else
          some (x.findingAt name .needlessAuto .error
            ("Please use explicit types instead of auto (" ++ (x.configuration.var v).name ++ ")"))
    else none

def autoFindings : Outcome := .ok (x.configuration.variableIndices.filterMap x.autoFinding?)

end SpaceAudit.Subject
