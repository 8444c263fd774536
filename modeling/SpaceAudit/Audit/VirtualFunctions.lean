import SpaceAudit.Audit.Subject

/-! Device code that is the body of a virtual function. -/
namespace SpaceAudit.Subject
variable (x : Subject)

def isVirtualBody (s : x.ScopeIdx) : Bool :=
  x.notes.space? s == some .device &&
    (x.configuration.scope s).function.get?.any fun f => (x.configuration.function f).isVirtual

def virtualFinding (s : x.ScopeIdx) : Outcome :=
  if x.isVirtualBody s then
    match (x.configuration.scope s).bodyStart.require .virtualBodyStart with
    | .error e => .error e
    | .ok start =>
      let t := (x.configuration.prev? start).getD start
      if x.inMainFile t then
        .ok [x.findingAt t .virtualOnDevice .error
          "Virtual functions cannot be reliably called from GPU"]
      else .ok []
  else .ok []

/-- Classification needs a section of scopes; with one, virtual device bodies are reported. -/
def classificationFindings : Outcome :=
  if x.configuration.sections.scopes then
    Outcome.collect x.virtualFinding x.configuration.scopeIndices
  else .error .scopes

end SpaceAudit.Subject
