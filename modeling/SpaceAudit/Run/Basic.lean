import SpaceAudit.Finding.Basic

/-! The state of a run: what was found, which sources are taken, and what was told to the reader. -/
namespace SpaceAudit

namespace Severity

def maxOption : Option Severity → Severity → Severity
  | none, s => s
  | some t, s => max t s

/-- The exit status that a worst severity leads to when runs fail from `level` on. -/
def exitStatus (worst : Option Severity) (level : Severity) : Nat :=
  match worst with
  | some w => if level ≤ w then w.status else 0
  | none => 0

end Severity

def countOf (s : Severity) (fs : List Finding) : Nat := fs.countP fun f => f.severity == s

def summaryLine (fs : List Finding) : Option Severity → String
  | none => "No problems found"
  | some worst =>
    toString fs.length ++ " finding" ++ (if fs.length = 1 then "" else "s") ++
      " (fatal: " ++ toString (countOf .fatal fs) ++
      ", error: " ++ toString (countOf .error fs) ++
      ", style: " ++ toString (countOf .style fs) ++
      ", warning: " ++ toString (countOf .warning fs) ++
      "); worst severity: " ++ worst.text

structure Transcript where
  lines : List String
  summary : Option String
deriving DecidableEq, Repr

namespace Transcript

def empty : Transcript := ⟨[], none⟩

def tell (t : Transcript) (f : Finding) : Transcript := { t with lines := t.lines ++ [f.render] }

def close (t : Transcript) (fs : List Finding) (worst : Option Severity) : Transcript :=
  { t with summary := some (summaryLine fs worst) }

end Transcript

structure Run where
  findings : List Finding
  worst? : Option Severity
  claimed : List Path
  transcript : Transcript
deriving Repr

namespace Run

def start : Run := ⟨[], none, [], .empty⟩

def exitStatus (r : Run) (level : Severity) : Nat := Severity.exitStatus r.worst? level

/-- Adds a finding and tells it, unless one that says the same is there already. -/
def report (r : Run) (f : Finding) : Run :=
  if r.findings.any f.sameKey then r
  else
    { r with
      findings := r.findings ++ [f]
      worst? := some (Severity.maxOption r.worst? f.severity)
      transcript := r.transcript.tell f }

def reportAll (r : Run) (fs : List Finding) : Run := fs.foldl report r

def isFree (r : Run) (path : Path) : Bool := !path.isIn r.claimed

def claim (r : Run) (path : Path) : Run :=
  if r.isFree path then { r with claimed := r.claimed ++ [path] } else r

def finish (r : Run) : Run := { r with transcript := r.transcript.close r.findings r.worst? }

end Run

end SpaceAudit
