import SpaceAudit.Source.Reference

/-! The records of a dump: tokens, scopes, functions and variables. -/
namespace SpaceAudit

inductive ScopeKind where
  | globalScope | namespaceScope | classScope | structScope | unionScope | enumScope
  | function | lambda | block
  | ifBody | elseBody | forBody | whileBody | doBody | switchBody | tryBody | catchBody
  | other (name : String)
deriving DecidableEq, Repr

namespace ScopeKind

def ofName : String → ScopeKind
  | "Global" => globalScope
  | "Namespace" => namespaceScope
  | "Class" => classScope
  | "Struct" => structScope
  | "Union" => unionScope
  | "Enum" => enumScope
  | "Function" => function
  | "Lambda" => lambda
  | "Unconditional" => block
  | "If" => ifBody
  | "Else" => elseBody
  | "For" => forBody
  | "While" => whileBody
  | "Do" => doBody
  | "Switch" => switchBody
  | "Try" => tryBody
  | "Catch" => catchBody
  | name => other name

/-- The code of these scopes runs somewhere of its own: functions, lambdas and bare blocks. -/
def isExecutable : ScopeKind → Bool
  | function | lambda | block => true
  | _ => false

def isClassLike : ScopeKind → Bool
  | classScope | structScope => true
  | _ => false

/-- The code of these scopes belongs to the executable scope around them. -/
def isControlFlow : ScopeKind → Bool
  | ifBody | elseBody | forBody | whileBody | doBody | switchBody | tryBody | catchBody => true
  | _ => false

end ScopeKind

inductive Access where
  | locally | argument | privately | protectedly | publicly | globally | inNamespace | thrown | unknown
deriving DecidableEq, Repr

namespace Access

def ofName : String → Access
  | "Local" => locally
  | "Argument" => argument
  | "Private" => privately
  | "Protected" => protectedly
  | "Public" => publicly
  | "Global" => globally
  | "Namespace" => inNamespace
  | "Throw" => thrown
  | _ => unknown

def isLocal : Access → Bool
  | locally | argument => true
  | _ => false

end Access

inductive FunctionKind where
  | ordinary | constructor | copyConstructor | moveConstructor | destructor | operatorEqual | lambda
deriving DecidableEq, Repr

namespace FunctionKind

def ofName : String → FunctionKind
  | "Constructor" => constructor
  | "CopyConstructor" => copyConstructor
  | "MoveConstructor" => moveConstructor
  | "Destructor" => destructor
  | "OperatorEqual" => operatorEqual
  | "Lambda" => lambda
  | _ => ordinary

def isConstructor : FunctionKind → Bool
  | constructor | copyConstructor | moveConstructor => true
  | _ => false

end FunctionKind

structure RawToken where
  text : String
  file : Nat
  line : Nat
  column : Nat
deriving DecidableEq, Repr

/-- A token of the expanded stream. `file` points into the unit's file list. -/
structure Token (e : Extent) where
  id : String
  text : String
  file : Nat
  line : Nat
  column : Nat
  scope : Ref e.scopes
  var : Ref e.vars
  function : Ref e.functions
  link : Ref e.tokens
  valueTypeScope : Ref e.scopes
deriving Repr

structure Scope (e : Extent) where
  id : String
  kind : ScopeKind
  className : String
  parent : Ref e.scopes
  bodyStart : Ref e.tokens
  bodyEnd : Ref e.tokens
  function : Ref e.functions
  vars : List (Fin e.vars)
deriving Repr

structure Function (e : Extent) where
  id : String
  name : String
  kind : FunctionKind
  definition : Ref e.tokens
  owner : Fin e.scopes
  isVirtual : Bool
  isStatic : Bool
deriving Repr

structure Variable (e : Extent) where
  id : String
  name : String
  nameToken : Ref e.tokens
  typeStart : Ref e.tokens
  typeEnd : Ref e.tokens
  access : Access
  isStatic : Bool
  isReference : Bool
  scope : Ref e.scopes
deriving Repr

structure Sections where
  tokens : Bool
  scopes : Bool
  vars : Bool
  directives : Bool
deriving DecidableEq, Repr

end SpaceAudit
