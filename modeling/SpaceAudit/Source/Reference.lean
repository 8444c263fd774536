/-! The records of a dump refer to each other by id. A loaded reference is an index that is known
to be in range, or says why there is none. -/
namespace SpaceAudit

inductive Role where
  | bodyStart | bodyEnd | typeStart | typeEnd
  | virtualBodyStart
  | argumentList | closingParenthesis
  | captureEnd | parameterEnd
deriving DecidableEq, Repr

def Role.text : Role → String
  | bodyStart => "scope body start"
  | bodyEnd => "scope body end"
  | typeStart => "variable type start"
  | typeEnd => "variable type end"
  | virtualBodyStart => "virtual function body start"
  | argumentList => "call argument list"
  | closingParenthesis => "call closing parenthesis"
  | captureEnd => "lambda capture end"
  | parameterEnd => "lambda parameter list end"

inductive Missing where
  | reference (role : Role) (id : String)
  | scopes
deriving DecidableEq, Repr

def Missing.text : Missing → String
  | reference role id => "Lookup failed: " ++ role.text ++ " (" ++ id ++ ")"
  | scopes => "Dump section 'scopes' is missing"

inductive Ref (n : Nat) where
  | absent
  | resolved (target : Fin n)
  | dangling (id : String)
deriving DecidableEq, Repr

namespace Ref
variable {n : Nat}

def get? : Ref n → Option (Fin n)
  | resolved i => some i
  | _ => none

def isResolved (r : Ref n) : Bool := r.get?.isSome

def require (r : Ref n) (role : Role) : Except Missing (Fin n) :=
  match r with
  | resolved i => .ok i
  | absent => .error (.reference role "<none>")
  | dangling id => .error (.reference role id)

/-- An id names the first record that carries it. No id, an empty one and `0` name nothing. -/
def resolve (ids : Vector String n) : Option String → Ref n
  | none => absent
  | some id =>
    if id = "" ∨ id = "0" then absent
    else
      match ids.findFinIdx? (· == id) with
      | some i => resolved i
      | none => dangling id

end Ref

structure Extent where
  tokens : Nat
  scopes : Nat
  functions : Nat
  vars : Nat
deriving DecidableEq, Repr

end SpaceAudit
