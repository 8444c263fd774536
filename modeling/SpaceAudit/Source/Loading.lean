import SpaceAudit.Markup.Reader
import SpaceAudit.Source.Unit

/-! A dump is a document of sections: raw tokens, and one configuration for every preprocessor
setting. Loading turns its ids into references; a dump is refused for its structure, never for
where its references lead. -/
namespace SpaceAudit
open Markup (Element)

inductive RecordKind where
  | token | scope | function | var
deriving DecidableEq, Repr

def RecordKind.text : RecordKind → String
  | token => "token"
  | scope => "scope"
  | function => "function"
  | var => "variable"

inductive Rejection where
  | notMarkup (fault : Markup.Fault)
  | wrongRoot (name : String)
  | nothing
  | withoutId (kind : RecordKind)
deriving DecidableEq, Repr

/-- What is said about a refused dump. What the reader of markup says about its own fault would come
last and is left out. -/
def Rejection.message (path : Path) : Rejection → String
  | notMarkup _ => "Invalid XML in dump " ++ path.text
  | wrongRoot name => "Malformed dump " ++ path.text ++ ": unexpected root element <" ++ name ++ ">"
  | nothing => "Malformed dump " ++ path.text ++ ": neither raw tokens nor a configuration"
  | withoutId kind => "Malformed dump " ++ path.text ++ ": " ++ kind.text ++ " without id"

/-- The files named so far, and the positions that the dump's own indices stand for, latest first. -/
structure FileTable where
  names : List String
  byIndex : List (String × Nat)

namespace FileTable

def empty : FileTable := ⟨[], []⟩

/-- The position of a name, which joins the table when it is new. -/
def intern (t : FileTable) (name : String) : Nat × FileTable :=
  match t.names.findIdx? (· == name) with
  | some i => (i, t)
  | none => (t.names.length, { t with names := t.names ++ [name] })

def register (t : FileTable) (index name : String) : FileTable :=
  let (i, t) := t.intern name
  { t with byIndex := (index, i) :: t.byIndex }

def registerElement (t : FileTable) (e : Element) : FileTable :=
  match e.attribute? "index", e.attribute? "name" with
  | some index, some name => t.register index name
  | _, _ => t

/-- The file of a token: by the dump's index, else by name, else file 0. -/
def resolve (t : FileTable) (e : Element) : Nat × FileTable :=
  match (e.attribute? "fileIndex").bind (t.byIndex.lookup ·) with
  | some i => (i, t)
  | none =>
    match e.attribute? "file" with
    | some name => t.intern name
    | none => (0, t)

def resolveAll (t : FileTable) : List Element → List Nat × FileTable
  | [] => ([], t)
  | e :: es =>
    let (i, t) := t.resolve e
    let (is, t) := t.resolveAll es
    (i :: is, t)

end FileTable

namespace Load

def section? (e : Element) (list item : String) : List Element :=
  ((e.child? list).map (·.childrenNamed item)).getD []

def rawTokens (t : FileTable) (e : Element) : List RawToken × FileTable :=
  let t := (e.childrenNamed "file").foldl FileTable.registerElement t
  let toks := e.childrenNamed "tok"
  let (files, t) := t.resolveAll toks
  ((toks.zip files).map fun (e, file) =>
    ⟨e.attributeD "str", file, e.number "linenr", e.number "column"⟩, t)

def idsOf {n : Nat} (kind : RecordKind) (es : Vector Element n) :
    Except Rejection (Vector String n) :=
  if es.all fun e => (e.attribute? "id").isSome then .ok (es.map fun e => e.attributeD "id")
  else .error (.withoutId kind)

structure Ids (e : Extent) where
  tokens : Vector String e.tokens
  scopes : Vector String e.scopes
  functions : Vector String e.functions
  vars : Vector String e.vars

variable {x : Extent} (ids : Ids x) (e : Element)

def tokenRef (key : String) : Ref x.tokens := .resolve ids.tokens (e.attribute? key)
def scopeRef (key : String) : Ref x.scopes := .resolve ids.scopes (e.attribute? key)
def functionRef (key : String) : Ref x.functions := .resolve ids.functions (e.attribute? key)
def variableRef (key : String) : Ref x.vars := .resolve ids.vars (e.attribute? key)

def token (file : Nat) : Token x where
  id := e.attributeD "id"
  text := e.attributeD "str"
  file := file
  line := e.number "linenr"
  column := e.number "column"
  scope := scopeRef ids e "scope"
  var := variableRef ids e "variable"
  function := functionRef ids e "function"
  link := tokenRef ids e "link"
  valueTypeScope := scopeRef ids e "valueType-typeScope"

def scope : Scope x where
  id := e.attributeD "id"
  kind := .ofName (e.attributeD "type")
  className := e.attributeD "className"
  parent := scopeRef ids e "nestedIn"
  bodyStart := tokenRef ids e "bodyStart"
  bodyEnd := tokenRef ids e "bodyEnd"
  function := functionRef ids e "function"
  vars := (section? e "varlist" "var").filterMap fun v => (variableRef ids v "id").get?

def function (owner : Fin x.scopes) : Function x where
  id := e.attributeD "id"
  name := e.attributeD "name"
  kind := .ofName (e.attributeD "type")
  definition := tokenRef ids e "tokenDef"
  owner := owner
  isVirtual := e.flag "hasVirtualSpecifier" || e.flag "isImplicitlyVirtual"
  isStatic := e.flag "isStatic"

def access : Access :=
  match e.attribute? "access" with
  | some name => .ofName name
  | none => if e.flag "isArgument" then .argument else .unknown

def var (tokens : Vector (Token x) x.tokens) : Variable x :=
  let nameToken := tokenRef ids e "nameToken"
  { id := e.attributeD "id"
    name := (nameToken.get?.map fun t => tokens[t].text).getD ""
    nameToken := nameToken
    typeStart := tokenRef ids e "typeStartToken"
    typeEnd := tokenRef ids e "typeEndToken"
    access := access e
    isStatic := e.flag "isStatic"
    isReference := e.flag "isReference"
    scope := scopeRef ids e "scope" }

def directive : Directive :=
  ⟨⟨e.attributeD "file"⟩, e.number "linenr", e.attributeD "str"⟩

def functionElements (scopes : Array Element) : Array (Element × Fin scopes.size) :=
  (List.finRange scopes.size).toArray.flatMap fun s =>
    ((section? scopes[s] "functionList" "function").map fun f => (f, s)).toArray

def configuration (t : FileTable) : Except Rejection (Configuration × FileTable) := do
  let tokenList := (section? e "tokenlist" "token").toArray.toVector
  let scopeList := (section? e "scopes" "scope").toArray
  let functionList := (functionElements scopeList).toVector
  let variableList := (section? e "variables" "var").toArray.toVector
  let tokenIds ← idsOf .token tokenList
  let scopeIds ← idsOf .scope scopeList.toVector
  let functionIds ← idsOf .function (functionList.map Prod.fst)
  let variableIds ← idsOf .var variableList
  let ids : Ids ⟨_, _, _, _⟩ := ⟨tokenIds, scopeIds, functionIds, variableIds⟩
  let (files, t) := t.resolveAll tokenList.toList
  let tokens := Vector.ofFn fun i => token ids tokenList[i] (files.getD i 0)
  let scopes := scopeList.toVector.map (scope ids)
  let functions := functionList.map fun (f, owner) => function ids f owner
  return ({
    name := e.attributeD "cfg"
    sections := {
      tokens := (e.child? "tokenlist").isSome
      scopes := (e.child? "scopes").isSome
      vars := (e.child? "variables").isSome
      directives := (e.child? "directivelist").isSome }
    extent := _
    tokens := tokens
    scopes := scopes
    functions := functions
    vars := variableList.map fun v => var ids v tokens
    directives := (section? e "directivelist" "directive").map directive
    tables := .fill scopes functions
    filled := rfl }, t)

structure Sheet where
  files : FileTable
  hasRaw : Bool
  rawTokens : List RawToken
  configurations : List Configuration

def Sheet.add (s : Sheet) (e : Element) : Except Rejection Sheet :=
  if e.name = "rawtokens" then
    let (toks, files) := Load.rawTokens s.files e
    .ok { s with files := files, hasRaw := true, rawTokens := s.rawTokens ++ toks }
  else if e.name = "dump" then
    match configuration e s.files with
    | .error r => .error r
    | .ok (c, files) => .ok { s with files := files, configurations := s.configurations ++ [c] }
  else .ok s

end Load

namespace SourceUnit

def ofElement (dumpPath : Path) (root : Element) : Except Rejection SourceUnit :=
  if root.name ≠ "dumps" then .error (.wrongRoot root.name)
  else
    match root.children.foldlM Load.Sheet.add ⟨.empty, false, [], []⟩ with
    | .error r => .error r
    | .ok s =>
      if !s.hasRaw && s.configurations.isEmpty then .error .nothing
      else .ok ⟨dumpPath, s.files.names.map Path.mk, s.rawTokens, s.configurations⟩

def ofText (dumpPath : Path) (text : String) : Except Rejection SourceUnit :=
  match Markup.parse text with
  | .error fault => .error (.notMarkup fault)
  | .ok root => ofElement dumpPath root

end SourceUnit

end SpaceAudit
