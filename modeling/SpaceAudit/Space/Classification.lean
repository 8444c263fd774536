import SpaceAudit.Space.Annotations

/-! The execution space of every function, lambda and bare block. A marker before the body decides;
without one the scope takes over what the executable scope around it has. Classes pass nothing
on. -/
namespace SpaceAudit.Configuration
variable (c : Configuration) (settings : Settings)

def ownMarker? (s : c.ScopeIdx) : Option ExecMarker :=
  match c.declarationPrefix s with
  | .error _ => none
  | .ok before => (c.textsIn before).findSome? settings.marker?

def outerOwner? (s : c.ScopeIdx) : Option c.ScopeIdx := (c.parent? s).bind c.execOwner?

def execInfo (a : Annotations c.extent) (s : c.ScopeIdx) : ExecInfo :=
  match c.ownMarker? settings s with
  | some marker => .ofMarker marker
  | none =>
    match (c.outerOwner? s).bind a.exec? with
    | some outer => outer.passedOn
    | none => .unmarked

def classifyScope (a : Annotations c.extent) (s : c.ScopeIdx) : Annotations c.extent :=
  if (c.scope s).kind.isExecutable then a.classify s (c.execInfo settings a s) else a

/-- Classifies the executable scopes, every parent before its members. Without a section of scopes
nothing is classified. -/
def classify (a : Annotations c.extent) : Annotations c.extent :=
  if c.sections.scopes then c.scopeOrder.foldl (c.classifyScope settings) a else a

end SpaceAudit.Configuration
