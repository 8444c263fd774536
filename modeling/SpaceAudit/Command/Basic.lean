import SpaceAudit.Command.Options
import SpaceAudit.Finding.Excerpt
import SpaceAudit.Project.Basic

/-! What the command does with its arguments on a machine. -/
namespace SpaceAudit

/-- What a command leaves behind: its exit code, what it printed, the message of a failure and the
calls of the front end. -/
structure Report where
  code : Nat
  output : String
  failure : Option String
  calls : List Invocation
deriving DecidableEq, Repr

namespace Command

def usageError : Nat := 2
def toolFailure : Nat := 5
def abortion : Nat := 101

def versionText : String := "spacecheck 0.1.0\n"

def failed (output : String) (calls : List Invocation) (message : String) : Report :=
  ⟨toolFailure, output, some ("Error: " ++ message), calls⟩

def settingsFault (path : Path) : SettingsFault → String
  | .pattern _ => "Invalid owning_return_pattern"
  | _ => "Invalid config " ++ path.text

def settings (fs : FileSystem) : Option Path → Except String Settings
  | none => .ok .standard
  | some path =>
    match fs.readText path with
    | .error e => .error ("Cannot read config " ++ path.text ++ ": " ++ e.text)
    | .ok text =>
      match Settings.ofText text with
      | .error e => .error (settingsFault path e)
      | .ok s => .ok s

def printed (fs : FileSystem) (pretty : Bool) (f : Finding) : Except Excerpt.Fault String :=
  if pretty && f.line != 0 then
    match fs.readText f.file with
    | .error _ => .ok f.render
    | .ok source =>
      match Excerpt.render f source with
      | .error e => .error e
      | .ok none => .ok f.render
      | .ok (some text) => .ok text
  else .ok f.render

/-- Everything up to the first finding that cannot be printed, and whether that is everything. -/
def printAll (fs : FileSystem) (pretty : Bool) : List Finding → String × Bool
  | [] => ("", true)
  | f :: rest =>
    match printed fs pretty f with
    | .error _ => ("", false)
    | .ok text =>
      let (more, all) := printAll fs pretty rest
      (text ++ more, all)

def report (fs : FileSystem) (o : Options) (level : Severity) (s : Project.Progress)
    (fault : Option ProjectFault) : Report :=
  match printAll fs o.pretty s.run.findings, fault with
  | (text, false), _ => ⟨abortion, text, none, s.calls⟩
  | (text, true), some e => failed text s.calls e.message
  | (text, true), none =>
    ⟨s.run.exitStatus level, text ++ summaryLine s.run.findings s.run.worst? ++ "\n", none, s.calls⟩

def project (m : Machine) (o : Options) (settings : Settings) : Except ProjectFault Project :=
  match Project.ofRoot m.files settings (o.root.getD ⟨"."⟩) with
  | .error e => .error e
  | .ok p =>
    let p := p.withFilter m.files o.files
    if o.noFrontEnd then .ok p
    else
      match FrontEnd.locate? m settings (o.frontEnd.map Path.text) p.root with
      | none => .error .frontEndNotFound
      | some f => .ok (p.withFrontEnd f)

def execute (m : Machine) (o : Options) : Report :=
  match settings m.files o.config with
  | .error message => failed "" [] message
  | .ok settings =>
    let level := o.failLevel.getD settings.failLevel
    if o.dumps.isEmpty then
      match project m o settings with
      | .error e => failed "" [] e.message
      | .ok p =>
        let (s, fault) := p.run m.files
        report m.files o level s fault
    else report m.files o level ⟨Dump.audit m.files settings o.dumps .start, []⟩ none

def run (m : Machine) (arguments : List String) : Report :=
  match Options.ofArguments arguments with
  | .error .usage => ⟨usageError, "", none, []⟩
  | .error .version => ⟨0, versionText, none, []⟩
  | .ok o => execute m o

end Command

end SpaceAudit
