import SpaceAudit.Audit.Subject

/-! The standard library in device code. -/
namespace SpaceAudit.Subject
variable (x : Subject)

def libraryFinding? (s : x.ScopeIdx) (t : x.TokenIdx) : Option Finding :=
  let name := x.configuration.textAt (t.val + 2)
  if x.configuration.text t == "std" && x.configuration.nextText t == "::" &&
      x.configuration.execOwnerOfToken? t == some s && !x.settings.deviceSafeStd.contains name then
    some { x.findingAt t .hostStdOnDevice .fatal
        ("std::" ++ name ++ " is not guaranteed to be available on GPU") with
      hint := some "Use the Kokkos or ddc equivalent, or move the call to the host" }
  else none

def scopeLibraryFindings (s : x.ScopeIdx) : Outcome :=
  match x.configuration.bodyTokens s with
  | .error e => .error e
  | .ok ts => .ok (ts.filterMap (x.libraryFinding? s))

def libraryFindings : Outcome :=
  Outcome.collect (fun (s, _) => x.scopeLibraryFindings s)
    (x.auditedScopes.filter fun (s, _) => x.notes.space? s == some .device)

end SpaceAudit.Subject
