import SpaceAudit.Markup.Outline
import SpaceAudit.Sketch.Layout
import SpaceAudit.Source.Loading

/-! The dump of a sketch. -/
namespace SpaceAudit.Sketch
open Markup (Outline)

def tokenId (i : Nat) : String := "t" ++ toString (i + 1)

def given (key : String) (value : Option String) : List (String × String) :=
  (value.map fun v => (key, v)).toList

def placeOf (key : String) (name : String) (places : List (String × Nat)) : List (String × String) :=
  given key ((places.lookup name).map tokenId)

def truth (b : Bool) : String := if b then "true" else "false"

def rawToken (line column : Nat) (text : String) : Outline :=
  .leaf "tok" [("fileIndex", "0"), ("linenr", toString line), ("column", toString column),
    ("str", text)]

def rawInclude (target : String) (i : Nat) : List Outline :=
  [rawToken (i + 1) 1 "#", rawToken (i + 1) 2 "include", rawToken (i + 1) 3 ("\"" ++ target ++ "\"")]

def rawTokens (s : Sketch) (l : Layout) : Outline :=
  .block "rawtokens" [] ([.leaf "file" [("index", "0"), ("name", s.source.text)]] ++
    s.includes.zipIdx.flatMap (fun (target, i) => rawInclude target i) ++
    l.placed.map fun t => rawToken t.line t.column t.text)

def directive (s : Sketch) (target : String) (i : Nat) : Outline :=
  .leaf "directive" [("file", s.source.text), ("linenr", toString (i + 1)),
    ("str", "#include \"" ++ target ++ "\"")]

def token (s : Sketch) (pairs : List (Nat × Nat)) (t : Placed) (i : Nat) : Outline :=
  .leaf "token" ([("id", tokenId i), ("file", s.source.text), ("fileIndex", "0"),
    ("linenr", toString t.line), ("column", toString t.column), ("str", t.text),
    ("scope", t.scope)] ++ given "variable" t.var ++ given "function" t.function ++
    given "link" ((partner? pairs i).map tokenId) ++ given "valueType-typeScope" t.valueType)

def functionLeaf (l : Layout) (f : FunctionEntry) : Outline :=
  .leaf "function" ([("id", f.key), ("name", f.name), ("type", f.kind)] ++
    placeOf "tokenDef" f.key l.definition ++ [("hasVirtualSpecifier", truth f.isVirtual)])

/-- A list that is left out when it is empty. -/
def listed (name : String) (items : List Outline) : List Outline :=
  if items.isEmpty then [] else [.block name [] items]

def scopeBlock (s : Sketch) (l : Layout) (e : ScopeEntry) : Outline :=
  .block "scope" ([("id", e.key), ("type", e.kind), ("className", e.className)] ++
      placeOf "bodyStart" e.key l.bodyStart ++ placeOf "bodyEnd" e.key l.bodyEnd ++
      given "nestedIn" e.parent ++ given "function" e.function)
    (listed "functionList" ((s.functions.filter (·.owner == e.key)).map (functionLeaf l)) ++
      listed "varlist" ((s.vars.filter (·.scope == e.key)).map fun v =>
        .leaf "var" [("id", v.key)]))

def variableLeaf (l : Layout) (v : VariableEntry) : Outline :=
  .leaf "var" ([("id", v.key)] ++ placeOf "nameToken" v.key l.nameToken ++
    placeOf "typeStartToken" v.key l.typeStart ++ placeOf "typeEndToken" v.key l.typeEnd ++
    [("access", v.access), ("scope", v.scope), ("isReference", truth v.isReference),
      ("isStatic", truth v.isStatic), ("isArgument", truth (v.access == "Argument"))])

def configuration (s : Sketch) (l : Layout) : Outline :=
  let pairs := bracketPairs (l.placed.map Placed.text)
  .block "dump" [("cfg", "")] [
    .block "directivelist" [] (s.includes.zipIdx.map fun (target, i) => s.directive target i),
    .block "tokenlist" [] (l.placed.zipIdx.map fun (t, i) => s.token pairs t i),
    .block "scopes" [] (s.scopes.map (s.scopeBlock l)),
    .block "variables" [] (s.vars.map (variableLeaf l))]

def outline (s : Sketch) : Outline :=
  let l := s.layout
  .block "dumps" [] ([s.rawTokens l] ++ if s.headerOnly then [] else [s.configuration l])

def dumpText (s : Sketch) : String := s.outline.document

def load (s : Sketch) : Except Rejection SourceUnit :=
  SourceUnit.ofText s.source.dumpOf s.dumpText

end SpaceAudit.Sketch
