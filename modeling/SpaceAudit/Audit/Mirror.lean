import SpaceAudit.Audit.Subject
import SpaceAudit.Space.Resolution

/-! Mirror calls whose result is stored in a written type, or that mirror from the host's own
execution space. -/
namespace SpaceAudit.Subject
variable (x : Subject)

/-- The first variable before the call that the statement initialises. -/
def mirrorTarget? (s : Span) (call : x.TokenIdx) : Option (x.TokenIdx × x.VariableIdx) :=
  (x.uses (x.configuration.tokensIn ⟨s.start, call⟩)).find? fun (t, _) =>
    ["=", "(", "\x7b"].contains (x.configuration.nextText t)

def hasWrittenType (v : x.VariableIdx) : Bool :=
  match x.configuration.typeTexts v with
  | .error _ => false
  | .ok texts => texts != ["auto"]

def mirrorTypeFindings (s : Span) (call : x.TokenIdx) : List Finding :=
  match x.mirrorTarget? s call with
  | none => []
  | some (t, v) =>
    if x.hasWrittenType v then
      [x.findingAt t .badMirror .fatal
        "Mirror function should be saved into auto type to handle CPU and GPU."]
    else []

def dropQualifier : List Char → List Char
  | 'K' :: 'o' :: 'k' :: 'k' :: 'o' :: 's' :: ':' :: ':' :: rest => dropQualifier rest
  | cs => cs

def isHostSpaceCall (texts : List String) : Bool :=
  dropQualifier ("".intercalate texts).toList == "DefaultHostExecutionSpace()".toList

def mirrorSourceFindings (s : Span) (call : x.TokenIdx) : Outcome :=
  match x.configuration.callArguments call with
  | .error e => .error e
  | .ok arguments =>
    if isHostSpaceCall ((arguments.head?.getD []).map x.configuration.text) then
      .ok [x.findingAt call .badMirror .fatal
        ("Possible synchronicity error. Kokkos::DefaultHostExecutionSpace() should never be " ++
          "the first argument to a mirror function (" ++ x.statementText s ++ ")")]
    else .ok []

def statementMirrorFindings (s : Span) : Outcome :=
  match x.configuration.mirrorCall? x.settings s with
  | none => .ok []
  | some call =>
    match x.mirrorSourceFindings s call with
    | .error e => .error e
    | .ok found => .ok (x.mirrorTypeFindings s call ++ found)

def mirrorFindings : Outcome := Outcome.collect x.statementMirrorFindings x.auditedStatements

end SpaceAudit.Subject
