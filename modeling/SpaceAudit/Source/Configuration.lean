import SpaceAudit.Include.Directive
import SpaceAudit.Source.Tables
import SpaceAudit.Statement.Index

/-! One preprocessor configuration: its token stream with the scopes, functions and variables that
the stream refers to, and the tables filled from them. -/
namespace SpaceAudit

structure Configuration where
  name : String
  sections : Sections
  extent : Extent
  tokens : Vector (Token extent) extent.tokens
  scopes : Vector (Scope extent) extent.scopes
  functions : Vector (Function extent) extent.functions
  vars : Vector (Variable extent) extent.vars
  directives : List Directive
  tables : Tables extent := .fill scopes functions
  filled : tables = .fill scopes functions := by rfl

namespace Configuration
variable (c : Configuration)

abbrev TokenIdx := Fin c.extent.tokens
abbrev ScopeIdx := Fin c.extent.scopes
abbrev FunctionIdx := Fin c.extent.functions
abbrev VariableIdx := Fin c.extent.vars

def token (t : c.TokenIdx) : Token c.extent := c.tokens[t]
def scope (s : c.ScopeIdx) : Scope c.extent := c.scopes[s]
def function (f : c.FunctionIdx) : Function c.extent := c.functions[f]
def var (v : c.VariableIdx) : Variable c.extent := c.vars[v]

def tokenIndices : List c.TokenIdx := List.finRange c.extent.tokens
def scopeIndices : List c.ScopeIdx := List.finRange c.extent.scopes
def functionIndices : List c.FunctionIdx := List.finRange c.extent.functions
def variableIndices : List c.VariableIdx := List.finRange c.extent.vars

def hasTokens : Bool := c.sections.tokens && c.extent.tokens != 0

def text (t : c.TokenIdx) : String := (c.token t).text

/-- The text at a position; empty outside the stream. -/
def textAt (i : Int) : String :=
  if i < 0 then ""
  else
    match c.tokens[i.toNat]? with
    | some t => t.text
    | none => ""

def texts : List String := c.tokens.toList.map Token.text

def tokenAt? (i : Nat) : Option c.TokenIdx :=
  if h : i < c.extent.tokens then some ⟨i, h⟩ else none

def next? (t : c.TokenIdx) : Option c.TokenIdx := c.tokenAt? (t + 1)

def prev? (t : c.TokenIdx) : Option c.TokenIdx :=
  if t.val = 0 then none else c.tokenAt? (t - 1)

def nextText (t : c.TokenIdx) : String := ((c.next? t).map c.text).getD ""

def prevText (t : c.TokenIdx) : String := ((c.prev? t).map c.text).getD ""

/-- The last token that carries an id. -/
def tokenById? (id : String) : Option c.TokenIdx :=
  c.tokenIndices.reverse.find? fun t => (c.token t).id == id

def statements : Statements := Statements.ofTexts c.texts

def tokensIn (s : Span) : List c.TokenIdx := s.positions.filterMap c.tokenAt?

def textsIn (s : Span) : List String := (c.tokensIn s).map c.text

/-- The tokens from `first` to `last`, both included; none when they stand the other way round. -/
def tokensBetween (first last : c.TokenIdx) : List c.TokenIdx := c.tokensIn ⟨first, last + 1⟩

def scopeOpenedAt? (t : c.TokenIdx) : Option c.ScopeIdx := c.tables.opened.get t

def bodyOf? (f : c.FunctionIdx) : Option c.ScopeIdx := c.tables.bodies.get f

/-- The tokens before the body of a scope, back to the boundary before it. -/
def declarationPrefix (s : c.ScopeIdx) : Except Missing Span :=
  match (c.scope s).bodyStart.require .bodyStart with
  | .error e => .error e
  | .ok t => .ok (c.statements.prefixOf t)

def bodyTokens (s : c.ScopeIdx) : Except Missing (List c.TokenIdx) :=
  match (c.scope s).bodyStart.require .bodyStart with
  | .error e => .error e
  | .ok first =>
    match (c.scope s).bodyEnd.require .bodyEnd with
    | .error e => .error e
    | .ok last => .ok (c.tokensBetween first last)

def typeTexts (v : c.VariableIdx) : Except Missing (List String) :=
  match (c.var v).typeStart.require .typeStart with
  | .error e => .error e
  | .ok first =>
    match (c.var v).typeEnd.require .typeEnd with
    | .error e => .error e
    | .ok last => .ok ((c.tokensBetween first last).map c.text)

end Configuration

end SpaceAudit
