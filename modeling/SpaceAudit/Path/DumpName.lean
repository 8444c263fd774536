import SpaceAudit.Path.Basic

/-! The dump of a source stands next to it and has the source's name with `.dump` after it. -/
namespace SpaceAudit.Path

def dumpExtension : String := "dump"

def dumpOf (source : Path) : Path := ⟨source.text ++ "." ++ dumpExtension⟩

def sourceOf (dump : Path) : Path :=
  if dump.extension? = some dumpExtension then dump.dropExtension else dump

end SpaceAudit.Path
