import SpaceAudit.Source.ScopeTree
import SpaceAudit.Space.Memory

/-! What the audits find out about a configuration before they judge it. The configuration itself
stays as it was loaded. -/
namespace SpaceAudit

structure Annotations (e : Extent) where
  exec : Vector (Option ExecInfo) e.scopes
  memory : Vector (Option Binding) e.vars

namespace Annotations
variable {e : Extent}

def none : Annotations e := ⟨Vector.replicate _ .none, Vector.replicate _ .none⟩

def exec? (a : Annotations e) (s : Fin e.scopes) : Option ExecInfo := a.exec[s]

def space? (a : Annotations e) (s : Fin e.scopes) : Option ExecSpace := (a.exec? s).map ExecInfo.space

def memory? (a : Annotations e) (v : Fin e.vars) : Option Binding := a.memory[v]

/-- A scope is classified once; what it has it keeps. -/
def classify (a : Annotations e) (s : Fin e.scopes) (info : ExecInfo) : Annotations e :=
  match a.exec? s with
  | some _ => a
  | .none => { a with exec := a.exec.set s (some info) }

def bind (a : Annotations e) (v : Fin e.vars) (b : Binding) : Annotations e :=
  { a with memory := a.memory.set v (some b) }

end Annotations

end SpaceAudit
