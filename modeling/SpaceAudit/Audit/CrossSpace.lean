import SpaceAudit.Audit.Subject

/-! Fields that are indexed or called from the other execution space. -/
namespace SpaceAudit.Subject
variable (x : Subject)

def isDeclaration (v : x.VariableIdx) (t : x.TokenIdx) : Bool :=
  (x.configuration.var v).nameToken.get? == some t ||
    (x.configuration.var v).typeEnd.get?.bind x.configuration.next? == some t

/-- A mismatch in host code is a warning if the space is only deduced or the file is downgraded. -/
def mismatchSeverity (space : ExecSpace) (b : Binding) : Severity :=
  if space == .host && (!b.confirmed || x.settings.downgrades x.path) then .warning else .fatal

def mismatchText (space : ExecSpace) (name : String) (stored : ExecSpace) : String :=
  "Attempted memory access from the wrong execution space. " ++
    "The current execution space is \"" ++ space.text ++ "\" but the variable " ++ name ++
    " is stored on a space compatible with \"" ++ stored.text ++ "\""

def accessFinding? (s : x.ScopeIdx) (space : ExecSpace) (u : x.TokenIdx × x.VariableIdx) :
    Option Finding :=
  match x.notes.memory? u.2 with
  | none => none
  | some b =>
    match b.space.exec? with
    | none => none
    | some stored =>
      if stored != space && ["(", "["].contains (x.configuration.nextText u.1) &&
          x.configuration.execOwnerOfToken? u.1 == some s && !x.isDeclaration u.2 u.1 then
        some (x.findingAt u.1 .crossSpaceAccess (x.mismatchSeverity space b)
          (mismatchText space (x.configuration.var u.2).name stored))
      else none

def scopeAccessFindings (s : x.ScopeIdx) : Outcome :=
  match x.notes.space? s with
  | none => .ok []
  | some space =>
    match x.configuration.bodyTokens s with
    | .error e => .error e
    | .ok ts => .ok ((x.uses ts).filterMap (x.accessFinding? s space))

def accessFindings : Outcome :=
  Outcome.collect (fun (s, _) => x.scopeAccessFindings s) x.auditedScopes

end SpaceAudit.Subject
