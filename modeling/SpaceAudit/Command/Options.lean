import SpaceAudit.Finding.Basic

/-! The options of the command line. -/
namespace SpaceAudit

structure Options where
  files : List Path
  dumps : List Path
  root : Option Path
  config : Option Path
  frontEnd : Option Path
  failLevel : Option Severity
  noFrontEnd : Bool
  pretty : Bool
  watch : Bool
  verbosity : Nat
deriving DecidableEq, Repr

inductive Refusal where
  | usage
  | version
deriving DecidableEq, Repr

namespace Options

def none : Options := ⟨[], [], .none, .none, .none, .none, false, false, false, 0⟩

def path (value : String) : Except Refusal Path :=
  if value = "" then .error .usage else .ok ⟨value⟩

def once {α : Type} (old : Option α) (value : Except Refusal α) : Except Refusal (Option α) :=
  match old with
  | .none => value.map some
  | some _ => .error .usage

def level (value : String) : Except Refusal Severity :=
  match Severity.ofText? value with
  | some s => .ok s
  | .none => .error .usage

inductive Valued where
  | root | config | frontEnd | failLevel
deriving DecidableEq, Repr

def Valued.ofName? : String → Option Valued
  | "root" => some root
  | "config" => some config
  | "cppcheck" => some frontEnd
  | "fail-level" => some failLevel
  | _ => .none

inductive Switch where
  | noFrontEnd | pretty | watch
deriving DecidableEq, Repr

def Switch.ofName? : String → Option Switch
  | "no-frontend" => some noFrontEnd
  | "pretty" => some pretty
  | "watch" => some watch
  | _ => .none

def setValue (o : Options) (v : Valued) (value : String) : Except Refusal Options :=
  match v with
  | .root => (once o.root (path value)).map fun root => { o with root }
  | .config => (once o.config (path value)).map fun config => { o with config }
  | .frontEnd => (once o.frontEnd (path value)).map fun frontEnd => { o with frontEnd }
  | .failLevel => (once o.failLevel (level value)).map fun failLevel => { o with failLevel }

def switchOn (o : Options) : Switch → Except Refusal Options
  | .noFrontEnd => if o.noFrontEnd then .error .usage else .ok { o with noFrontEnd := true }
  | .pretty => if o.pretty then .error .usage else .ok { o with pretty := true }
  | .watch => if o.watch then .error .usage else .ok { o with watch := true }

def addDumps (o : Options) (values : List String) : Except Refusal Options :=
  if values.isEmpty || values.contains "" then .error .usage
  else .ok { o with dumps := o.dumps ++ values.map (⟨·⟩) }

def addFiles (o : Options) (values : List String) : Except Refusal Options :=
  if values.contains "" then .error .usage
  else .ok { o with files := o.files ++ values.map (⟨·⟩) }

def isValue (argument : String) : Bool := argument == "-" || argument.toList.head? != some '-'

def cutValue (option : List Char) : String × Option String :=
  (String.ofList (option.takeWhile (· != '=')),
    match option.dropWhile (· != '=') with
    | [] => .none
    | _ :: value => some (String.ofList value))

def readLong (o : Options) (option : List Char) (rest : List String) :
    Except Refusal (Options × List String) :=
  match cutValue option with
  | ("dump", some value) => (o.addDumps [value]).map fun o => (o, rest)
  | ("dump", .none) =>
    (o.addDumps (rest.takeWhile isValue)).map fun o => (o, rest.dropWhile isValue)
  | ("version", .none) => .error .version
  | ("verbose", .none) => .ok ({ o with verbosity := o.verbosity + 1 }, rest)
  | (name, value) =>
    match Valued.ofName? name, Switch.ofName? name, value, rest with
    | some v, _, some value, _ => (o.setValue v value).map fun o => (o, rest)
    | some v, _, .none, next :: rest =>
      if isValue next then (o.setValue v next).map fun o => (o, rest) else .error .usage
    | _, some s, .none, _ => (o.switchOn s).map fun o => (o, rest)
    | _, _, _, _ => .error .usage

def readShort (o : Options) (rest : List String) : List Char → Except Refusal (Options × List String)
  | [] => .ok (o, rest)
  | 'v' :: more => readShort { o with verbosity := o.verbosity + 1 } rest more
  | 'w' :: more =>
    match o.switchOn .watch with
    | .error e => .error e
    | .ok o => readShort o rest more
  | 'V' :: _ => .error .version
  | 'c' :: [] =>
    match rest with
    | next :: rest =>
      if isValue next then (o.setValue .config next).map fun o => (o, rest) else .error .usage
    | [] => .error .usage
  | 'c' :: '=' :: value => (o.setValue .config (String.ofList value)).map fun o => (o, rest)
  | 'c' :: value => (o.setValue .config (String.ofList value)).map fun o => (o, rest)
  | _ => .error .usage

def readArgument (o : Options) (argument : String) (rest : List String) :
    Except Refusal (Options × List String) :=
  match argument.toList with
  | ['-', '-'] => (o.addFiles rest).map fun o => (o, [])
  | '-' :: '-' :: option => readLong o option rest
  | '-' :: c :: cs => readShort o rest (c :: cs)
  | _ => (o.addFiles [argument]).map fun o => (o, rest)

/-- Dumps are given instead of files. -/
def checked (o : Options) : Except Refusal Options :=
  if o.dumps.isEmpty || o.files.isEmpty then .ok o else .error .usage

/-- Every step takes an argument at least. -/
def readFrom : Nat → Options → List String → Except Refusal Options
  | _, o, [] => o.checked
  | 0, _, _ => .error .usage
  | steps + 1, o, argument :: rest =>
    match readArgument o argument rest with
    | .error e => .error e
    | .ok (o, rest) => readFrom steps o rest

def ofArguments (arguments : List String) : Except Refusal Options :=
  readFrom arguments.length none arguments

end Options

end SpaceAudit
