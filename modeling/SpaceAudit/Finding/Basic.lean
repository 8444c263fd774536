import SpaceAudit.Path.Basic

/-! What an audit has to say: severities, checks and findings. -/
namespace SpaceAudit

inductive Severity where
  | warning | style | error | fatal
deriving DecidableEq, Repr

namespace Severity

/-- The exit status of a run that fails with this severity; it orders the severities. -/
def status : Severity → Nat
  | warning => 1
  | style => 2
  | error => 3
  | fatal => 4

def text : Severity → String
  | warning => "warning"
  | style => "style"
  | error => "error"
  | fatal => "fatal"

def all : List Severity := [warning, style, error, fatal]

def ofText? (name : String) : Option Severity := all.find? (·.text == name)

instance : LE Severity := ⟨fun a b => a.status ≤ b.status⟩
instance (a b : Severity) : Decidable (a ≤ b) := inferInstanceAs (Decidable (a.status ≤ b.status))
instance : Max Severity := ⟨fun a b => if a ≤ b then b else a⟩

end Severity

inductive Check where
  | virtualOnDevice
  | classExecSpace | classVariableOnDevice | needlessClassCapture
  | crossSpaceAccess | danglingHandle | hostStdOnDevice | bareLaunchLambda | classVariableInLaunch
  | badMirror | needlessAuto
  | structural | frontEndFailure
deriving DecidableEq, Repr

namespace Check

def code : Check → String
  | virtualOnDevice => "virtualFunctionOnGPU"
  | classExecSpace => "classExecSpace"
  | classVariableOnDevice => "classVarOnGPU"
  | needlessClassCapture => "unnecessaryGPUclassCapture"
  | crossSpaceAccess => "badAccessCPUGPU"
  | danglingHandle => "danglingFieldMem"
  | hostStdOnDevice => "stdOnGPU"
  | bareLaunchLambda => "undecoratedLaunchLambda"
  | classVariableInLaunch => "classVarInLaunch"
  | badMirror => "badCreateMirror"
  | needlessAuto => "unnecessaryAuto"
  | structural => "structural"
  | frontEndFailure => "frontEndFailure"

def all : List Check :=
  [virtualOnDevice, classExecSpace, classVariableOnDevice, needlessClassCapture, crossSpaceAccess,
    danglingHandle, hostStdOnDevice, bareLaunchLambda, classVariableInLaunch, badMirror,
    needlessAuto, structural, frontEndFailure]

def ofCode? (code : String) : Option Check := all.find? (·.code == code)

end Check

/-- Line 0 stands for the whole file, column 0 for no known column. -/
structure Finding where
  severity : Severity
  check : Check
  file : Path
  line : Nat
  column : Nat
  message : String
  hint : Option String
deriving DecidableEq, Repr

namespace Finding

/-- Two findings say the same when they agree in all but severity and hint. -/
def sameKey (a b : Finding) : Bool :=
  a.check == b.check && a.file.same b.file && a.line == b.line && a.column == b.column &&
    a.message == b.message

def ofParts (check : Check) (severity : Severity) (file : Path) (line : Nat)
    (parts : List String) : Finding :=
  ⟨severity, check, file, line, 0, " ".intercalate parts, none⟩

def render (f : Finding) : String :=
  f.file.text ++ ":" ++ toString f.line ++ ": " ++ f.severity.text ++ ": " ++ f.message ++
    " [" ++ f.check.code ++ "]\n" ++
    match f.hint with
    | none => ""
    | some hint => "    = hint: " ++ hint ++ "\n"

end Finding

end SpaceAudit
