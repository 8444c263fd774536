import SpaceAudit.Source.Record

/-! Tables over the scopes and functions of a configuration. Each is filled in one pass over its
records, in their order. -/
namespace SpaceAudit

structure Tables (e : Extent) where
  functions : Vector (List (Fin e.functions)) e.scopes
  members : Vector (List (Fin e.scopes)) e.scopes
  opened : Vector (Option (Fin e.scopes)) e.tokens
  bodies : Vector (Option (Fin e.scopes)) e.functions

namespace Tables

section Pass
variable {α : Type} {m n : Nat} (key : Fin m → Option (Fin n)) (put : α → Fin m → α)

/-- Puts one record into the entry under its key. A record without a key leaves the table as it is. -/
def enter (t : Vector α n) (r : Fin m) : Vector α n :=
  match key r with
  | some k => t.set k (put (t.get k) r) k.isLt
  | none => t

/-- The table after all records, when every entry was `blank` before. -/
def pass (blank : α) : Vector α n :=
  (List.finRange m).foldl (enter key put) (Vector.replicate n blank)

end Pass

variable {e : Extent}

/-- The tables of the given records. A function joins the list of the scope that declares it, and a
scope joins the members of its parent, unless that is the scope itself. Of two scopes that open at
one token the later counts, of two bodies of one function the earlier. -/
def fill (scopes : Vector (Scope e) e.scopes) (functions : Vector (Function e) e.functions) :
    Tables e where
  functions := pass (fun f => some (functions.get f).owner) (fun list f => list ++ [f]) []
  members := pass (fun s => (scopes.get s).parent.get?.filter (· != s)) (fun list s => list ++ [s]) []
  opened := pass (fun s => (scopes.get s).bodyStart.get?) (fun _ s => some s) none
  bodies := pass (fun s => (scopes.get s).function.get?) (fun first s => first.or (some s)) none

end Tables

end SpaceAudit
