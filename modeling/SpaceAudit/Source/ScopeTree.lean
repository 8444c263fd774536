import SpaceAudit.Source.Configuration

/-! Walks over the scopes of a configuration. Parent references come from a dump as they are, so a
chain of parents may be cut short or run in a circle; every walk ends all the same. -/
namespace SpaceAudit.Configuration
variable (c : Configuration)

def parent? (s : c.ScopeIdx) : Option c.ScopeIdx := (c.scope s).parent.get?

def members (s : c.ScopeIdx) : List c.ScopeIdx := c.tables.members.get s

def functionsOf (s : c.ScopeIdx) : List c.FunctionIdx := c.tables.functions.get s

def roots : List c.ScopeIdx := c.scopeIndices.filter fun s => (c.parent? s).isNone

/-- Visits the queued scopes in turn and queues the members of each that are not yet `seen`. -/
def visit : Nat → List c.ScopeIdx → List c.ScopeIdx → List c.ScopeIdx
  | 0, _, _ => []
  | _, _, [] => []
  | steps + 1, seen, s :: queue =>
    let fresh := (c.members s).filter fun m => !seen.contains m
    s :: visit steps (seen ++ fresh) (queue ++ fresh)

/-- The scopes below a root, every parent before its members. -/
def scopeOrder : List c.ScopeIdx := c.visit c.extent.scopes c.roots c.roots

def chain : Nat → Option c.ScopeIdx → List c.ScopeIdx
  | 0, _ => []
  | _, none => []
  | steps + 1, some s => s :: chain steps (c.parent? s)

/-- The scopes around a scope, nearest first. On a circle the walk ends after one step more than
there are scopes. -/
def ancestors (s : c.ScopeIdx) : List c.ScopeIdx := c.chain (c.extent.scopes + 1) (c.parent? s)

/-- The executable scope that `s` belongs to, looked for at `s` and its parents through
control-flow bodies only. -/
def ownerWithin : Nat → c.ScopeIdx → Option c.ScopeIdx
  | 0, _ => none
  | steps + 1, s =>
    if (c.scope s).kind.isExecutable then some s
    else if (c.scope s).kind.isControlFlow then (c.parent? s).bind (ownerWithin steps)
    else none

def execOwner? (s : c.ScopeIdx) : Option c.ScopeIdx := c.ownerWithin (c.extent.scopes + 1) s

def execOwnerOfToken? (t : c.TokenIdx) : Option c.ScopeIdx :=
  (c.token t).scope.get?.bind c.execOwner?

def enclosingClass? (s : c.ScopeIdx) : Option c.ScopeIdx :=
  (c.ancestors s).find? fun a => (c.scope a).kind.isClassLike

end SpaceAudit.Configuration
