import SpaceAudit.Call.Arguments
import SpaceAudit.Signature.Basic
import SpaceAudit.Space.Annotations

/-! What an audit sees: one configuration of a unit with its annotations, and what the unit's group
knows. -/
namespace SpaceAudit

structure Subject where
  path : Path
  mainFile : Nat
  settings : Settings
  aliases : AliasTable
  signatures : Signatures
  configuration : Configuration
  notes : Annotations configuration.extent

namespace Subject
variable (x : Subject)

abbrev TokenIdx := x.configuration.TokenIdx
abbrev ScopeIdx := x.configuration.ScopeIdx
abbrev VariableIdx := x.configuration.VariableIdx

def inMainFile (t : x.TokenIdx) : Bool := (x.configuration.token t).file == x.mainFile

def findingAt (t : x.TokenIdx) (check : Check) (severity : Severity) (message : String) : Finding :=
  let token := x.configuration.token t
  ⟨severity, check, x.path, token.line, token.column, message, none⟩

/-- The classified scopes whose bodies open in the unit's own source, with the opening tokens. -/
def auditedScopes : List (x.ScopeIdx × x.TokenIdx) :=
  x.configuration.scopeOrder.filterMap fun s =>
    match x.notes.exec? s, (x.configuration.scope s).bodyStart.get? with
    | some _, some start => if x.inMainFile start then some (s, start) else none
    | _, _ => none

def auditedStatements : List Span :=
  x.configuration.statements.spans.filter fun s =>
    (x.configuration.tokenAt? s.start).any x.inMainFile

def uses (ts : List x.TokenIdx) : List (x.TokenIdx × x.VariableIdx) :=
  ts.filterMap fun t => (x.configuration.token t).var.get?.map fun v => (t, v)

def firstUses (us : List (x.TokenIdx × x.VariableIdx)) : List (x.TokenIdx × x.VariableIdx) :=
  us.eraseDupsBy fun a b => a.2 == b.2

def isDefinition (t : x.TokenIdx) : Bool :=
  x.configuration.functions.toList.any fun f => f.definition == .resolved t

/-- Whether a token names a member of another object than the enclosing one. -/
def isMemberAccess (t : x.TokenIdx) : Bool :=
  match x.configuration.prev? t with
  | none => false
  | some p =>
    (x.configuration.text p == "." || x.configuration.text p == "->") &&
      x.configuration.prevText p != "this"

def statementText (s : Span) : String := " ".intercalate (x.configuration.textsIn s)

end Subject

/-- A part of an audit finds something, or lacks what it needs. -/
abbrev Outcome := Except Missing (List Finding)

def Outcome.collect {α : Type} (part : α → Outcome) : List α → Outcome
  | [] => .ok []
  | a :: rest =>
    match part a with
    | .error e => .error e
    | .ok found =>
      match collect part rest with
      | .error e => .error e
      | .ok more => .ok (found ++ more)

end SpaceAudit
