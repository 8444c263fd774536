import SpaceAudit.Path.DumpName
import SpaceAudit.Text.Blank

/-! A sketch is a unit written by hand: declared scopes, functions and variables, and
lines of code whose words carry notes on what they stand for. -/
namespace SpaceAudit

namespace Sketch

structure ScopeEntry where
  key : String
  kind : String
  className : String
  parent : Option String
  function : Option String

structure FunctionEntry where
  key : String
  name : String
  kind : String
  owner : String
  isVirtual : Bool

structure VariableEntry where
  key : String
  scope : String
  access : String
  isReference : Bool
  isStatic : Bool

/-- The key of the scope that every sketch starts with. -/
def globalKey : String := "global"

end Sketch

open Sketch in
structure Sketch where
  source : Path
  includes : List String
  scopes : List ScopeEntry
  functions : List FunctionEntry
  vars : List VariableEntry
  lines : List String
  headerOnly : Bool

namespace Sketch

def start (source : Path) : Sketch :=
  ⟨source, [], [⟨globalKey, "Global", "", none, none⟩], [], [], [], false⟩

def addScope (s : Sketch) (key kind className parent : String) : Sketch :=
  { s with scopes := s.scopes ++ [⟨key, kind, className, some parent, none⟩] }

def addFunction (s : Sketch) (key name kind owner : String) : Sketch :=
  { s with functions := s.functions ++ [⟨key, name, kind, owner, false⟩] }

/-- A function of the scope `owner` whose body is nested in the scope `around`. -/
def addBody (s : Sketch) (key name kind owner around : String) : Sketch :=
  let s := s.addFunction key name kind owner
  { s with scopes := s.scopes ++ [⟨key, "Function", name, some around, some key⟩] }

def addVariable (s : Sketch) (key scope access : String) : Sketch :=
  { s with vars := s.vars ++ [⟨key, scope, access, false, false⟩] }

def markVirtual (s : Sketch) (key : String) : Sketch :=
  { s with functions := s.functions.map fun f => if f.key = key then { f with isVirtual := true } else f }

def markReference (s : Sketch) (key : String) : Sketch :=
  { s with vars := s.vars.map fun v => if v.key = key then { v with isReference := true } else v }

def markStatic (s : Sketch) (key : String) : Sketch :=
  { s with vars := s.vars.map fun v => if v.key = key then { v with isStatic := true } else v }

def addInclude (s : Sketch) (target : String) : Sketch :=
  { s with includes := s.includes ++ [target] }

def addLine (s : Sketch) (code : String) : Sketch := { s with lines := s.lines ++ [code] }

def addCode (s : Sketch) (code : String) : Sketch := { s with lines := s.lines ++ Text.lines code }

/-- Only the raw tokens are written. -/
def asHeader (s : Sketch) : Sketch := { s with headerOnly := true }

end Sketch

end SpaceAudit
