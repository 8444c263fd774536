import SpaceAudit.Alias.Merge
import SpaceAudit.Audit.Battery
import SpaceAudit.Run.Basic
import SpaceAudit.Space.Resolution

/-! A group of units is audited with what all of its members together know: the aliases of their
shared headers and the return types of their functions. -/
namespace SpaceAudit

structure AnnotatedConfiguration where
  configuration : Configuration
  notes : Annotations configuration.extent

/-- A unit with what the audits noted about its configurations. -/
structure AnnotatedUnit where
  dumpPath : Path
  files : List Path
  rawTokens : List RawToken
  configurations : List AnnotatedConfiguration

def SourceUnit.unannotated (u : SourceUnit) : AnnotatedUnit :=
  ⟨u.dumpPath, u.files, u.rawTokens, u.configurations.map (⟨·, .none⟩)⟩

namespace AnnotatedUnit

def source (u : AnnotatedUnit) : SourceUnit :=
  ⟨u.dumpPath, u.files, u.rawTokens, u.configurations.map AnnotatedConfiguration.configuration⟩

def path (u : AnnotatedUnit) : Path := u.source.path

def mainFile (u : AnnotatedUnit) : Nat := u.source.mainFile

end AnnotatedUnit

structure GroupContext where
  aliases : GroupAliases
  signatures : Signatures

namespace GroupContext

def unitSignatures (aliases : GroupAliases) (isOwning : String → Bool) (u : SourceUnit) :
    Signatures :=
  (u.configurations.filter Configuration.hasTokens).foldl
    (fun s c => s.append (c.signatures (aliases.get u.path) isOwning)) .empty

def ofUnits (settings : Settings) (isOwning : String → Bool) (units : List SourceUnit) :
    GroupContext :=
  let aliases := GroupAliases.ofSources (units.map AliasSource.ofUnit) settings.sharedHeaders
  ⟨aliases, units.foldl (fun s u => s.append (unitSignatures aliases isOwning u)) .empty⟩

end GroupContext

namespace AnnotatedConfiguration

def annotate (settings : Settings) (aliases : AliasTable) (a : AnnotatedConfiguration) :
    AnnotatedConfiguration :=
  if a.configuration.hasTokens then
    ⟨a.configuration,
      a.configuration.resolveMemory settings aliases (a.configuration.classify settings a.notes)⟩
  else a

def subject (settings : Settings) (g : GroupContext) (u : AnnotatedUnit)
    (a : AnnotatedConfiguration) : Subject :=
  ⟨u.path, u.mainFile, settings, g.aliases.get u.path, g.signatures.ordered, a.configuration,
    a.notes⟩

end AnnotatedConfiguration

namespace AnnotatedUnit

def annotate (settings : Settings) (g : GroupContext) (u : AnnotatedUnit) : AnnotatedUnit :=
  { u with
    configurations := u.configurations.map
      (AnnotatedConfiguration.annotate settings (g.aliases.get u.path)) }

/-- What the audits find in an annotated unit; a configuration without tokens is left out. -/
def findings (settings : Settings) (g : GroupContext) (u : AnnotatedUnit) : List Finding :=
  (u.configurations.filter fun a => a.configuration.hasTokens).flatMap fun a =>
    (a.subject settings g u).findings

def audit (settings : Settings) (g : GroupContext) (u : AnnotatedUnit) (r : Run) :
    AnnotatedUnit × Run :=
  let u := u.annotate settings g
  (u, r.reportAll (u.findings settings g))

def auditOnce (settings : Settings) (g : GroupContext) (u : AnnotatedUnit) (r : Run) :
    AnnotatedUnit × Run :=
  if r.isFree u.path then u.audit settings g (r.claim u.path) else (u, r)

def auditList (audit : AnnotatedUnit → Run → AnnotatedUnit × Run) :
    List AnnotatedUnit → Run → List AnnotatedUnit × Run
  | [], r => ([], r)
  | u :: us, r =>
    let (u, r) := audit u r
    let (us, r) := auditList audit us r
    (u :: us, r)

end AnnotatedUnit

structure GroupAudit where
  context : GroupContext
  units : List AnnotatedUnit
  run : Run

namespace GroupAudit

def ofUnits (settings : Settings) (isOwning : String → Bool) (units : List SourceUnit)
    (r : Run) : GroupAudit :=
  let g := GroupContext.ofUnits settings isOwning units
  let (units, r) := AnnotatedUnit.auditList (AnnotatedUnit.auditOnce settings g)
    (units.map SourceUnit.unannotated) r
  ⟨g, units, r⟩

def again (settings : Settings) (a : GroupAudit) : GroupAudit :=
  let (units, r) := AnnotatedUnit.auditList (AnnotatedUnit.audit settings a.context) a.units a.run
  ⟨a.context, units, r⟩

end GroupAudit

end SpaceAudit
