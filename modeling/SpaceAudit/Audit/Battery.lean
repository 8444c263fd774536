import SpaceAudit.Audit.ClassCapture
import SpaceAudit.Audit.CrossSpace
import SpaceAudit.Audit.HostLibrary
import SpaceAudit.Audit.Launch
import SpaceAudit.Audit.Mirror
import SpaceAudit.Audit.NeedlessAuto
import SpaceAudit.Audit.Ownership
import SpaceAudit.Audit.VirtualFunctions

/-! All audits of a configuration. One that lacks what it needs is itself reported, and the others
go on. -/
namespace SpaceAudit

structure Audit where
  name : String
  findings : Subject → Outcome

namespace Audit

def all : List Audit :=
  [⟨"execution space classification", Subject.classificationFindings⟩,
    ⟨"class execution space", Subject.classExecFindings⟩,
    ⟨"class capture", Subject.captureFindings⟩,
    ⟨"cross-space access", Subject.accessFindings⟩,
    ⟨"dangling handles", Subject.ownershipFindings⟩,
    ⟨"host standard library", Subject.libraryFindings⟩,
    ⟨"launch lambdas", Subject.launchFindings⟩,
    ⟨"mirror calls", Subject.mirrorFindings⟩,
    ⟨"unnecessary auto", Subject.autoFindings⟩]

def skipped (a : Audit) (path : Path) (e : Missing) : Finding :=
  ⟨.style, .structural, path, 0, 0, a.name ++ " skipped: " ++ e.text, none⟩

def report (a : Audit) (x : Subject) : List Finding :=
  match a.findings x with
  | .ok found => found
  | .error e => [a.skipped x.path e]

end Audit

def Subject.findings (x : Subject) : List Finding := Audit.all.flatMap fun a => a.report x

end SpaceAudit
