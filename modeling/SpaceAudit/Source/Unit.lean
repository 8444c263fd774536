import SpaceAudit.Path.DumpName
import SpaceAudit.Source.Configuration

/-! A unit: what one dump says about one source file. -/
namespace SpaceAudit

structure SourceUnit where
  dumpPath : Path
  files : List Path
  rawTokens : List RawToken
  configurations : List Configuration

namespace SourceUnit
variable (u : SourceUnit)

def path : Path := u.dumpPath.sourceOf

/-- The first file that names the source, if only by its end, or that the source's path ends with.
File 0 when there is none. -/
def mainFile : Nat := (u.files.findIdx? fun f => f.overlaps u.path).getD 0

def isHeaderOnly : Bool := u.configurations.all fun c => !c.hasTokens

def filePath (file : Nat) : Path := u.files[file]?.getD u.path

def fileName : String := u.path.fileName?.getD ""

def mainRawTexts : List String :=
  (u.rawTokens.filter fun t => t.file == u.mainFile).map RawToken.text

def directiveIncludes : List Include :=
  match u.configurations with
  | [] => []
  | c :: _ =>
    ((c.directives.filter fun d => d.file.overlaps u.path).filterMap Directive.include?).filter
      Include.quoted

/-- The quoted includes of the unit's own source: those of its directives or, when there are none,
those that its raw tokens show. -/
def includes : List Include :=
  if u.directiveIncludes.isEmpty then Include.ofRaw u.mainRawTexts else u.directiveIncludes

end SourceUnit

end SpaceAudit
