import SpaceAudit.Audit.Subject

/-! Owning fields that a function returns and that are stored in a type which owns nothing. -/
namespace SpaceAudit.Subject
variable (x : Subject)

/-- The first call in a statement of a function that returns an owning field. -/
def owningCall? (s : Span) : Option x.TokenIdx :=
  (x.configuration.tokensIn s).find? fun t =>
    x.signatures.owning.contains (x.configuration.text t) &&
      x.configuration.nextText t == "(" && !x.isDefinition t

def isInsideFunction (name : String) (t : x.TokenIdx) : Bool :=
  match (x.configuration.token t).scope.get? with
  | none => false
  | some s =>
    (s :: x.configuration.ancestors s).any fun a =>
      (x.configuration.scope a).function.get?.any fun f => (x.configuration.function f).name == name

/-- Whether a type owns what is stored in it, or leaves that to the compiler. -/
def keepsOwnership (texts : List String) : Bool :=
  let written := "".intercalate texts
  written == "auto" || Text.holds written x.settings.owningMarker ||
    Text.holds ("".intercalate (x.aliases.expand texts)) x.settings.owningMarker

/-- The variable that a statement initialises: the first it names, if an initialiser follows. -/
def initialised? (s : Span) : Option (x.TokenIdx × x.VariableIdx) :=
  match x.uses (x.configuration.tokensIn s) with
  | [] => none
  | u :: _ => if ["(", "=", "\x7b"].contains (x.configuration.nextText u.1) then some u else none

def handleFinding (s : Span) (t : x.TokenIdx) : Finding :=
  let token := x.configuration.token t
  { Finding.ofParts .danglingHandle .fatal x.path token.line
      ["Possible memory error. Mem not found in type where a FieldMem object is saved to.",
        "Returned FieldMem object must be saved in a FieldMem else data may be unintentionally " ++
          "deallocated.",
        "(" ++ x.statementText s ++ ")"] with
    column := token.column }

def handleFinding? (s : Span) : Option Finding :=
  match x.owningCall? s with
  | none => none
  | some call =>
    if x.isInsideFunction (x.configuration.text call) call then none
    else
      match x.initialised? s with
      | none => none
      | some (t, v) =>
        match x.configuration.typeTexts v with
        | .error _ => none
        | .ok texts => if x.keepsOwnership texts then none else some (x.handleFinding s t)

def ownershipFindings : Outcome := .ok (x.auditedStatements.filterMap x.handleFinding?)

end SpaceAudit.Subject
