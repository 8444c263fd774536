import SpaceAudit.Group.Basic
import SpaceAudit.Proofs.Strict.Audits

/-! Strict evaluation of a whole group. It never stops: whatever the units refer to, and whatever
their texts are, each index lies inside its list, each slice inside its texts, and each cut between
two characters. -/
namespace SpaceAudit.Strict

section Context

def unitSignatures (aliases : GroupAliases) (isOwning : String → Bool) (u : SourceUnit) :
    Strict Signatures :=
  (u.configurations.filter Configuration.hasTokens).foldlM
    (fun s c => do return s.append (← signatures c (aliases.get u.path) isOwning)) .empty

def context (settings : Settings) (isOwning : String → Bool) (units : List SourceUnit) :
    Strict GroupContext := do
  let aliases ← groupAliases (← units.mapM aliasSource) settings.sharedHeaders
  let known ← units.foldlM
    (fun s u => do return s.append (← unitSignatures aliases isOwning u)) .empty
  return ⟨aliases, known⟩

theorem unitSignatures_eq (aliases : GroupAliases) (isOwning : String → Bool) (u : SourceUnit) :
    unitSignatures aliases isOwning u = pure (GroupContext.unitSignatures aliases isOwning u) := by
  simp only [unitSignatures, signatures_eq, pure_bind, List.foldlM_pure, GroupContext.unitSignatures]

theorem context_eq (settings : Settings) (isOwning : String → Bool) (units : List SourceUnit) :
    context settings isOwning units = pure (.ofUnits settings isOwning units) := by
  simp only [context, funext aliasSource_eq, List.mapM_pure, groupAliases_eq, unitSignatures_eq,
    pure_bind, List.foldlM_pure, GroupContext.ofUnits]

end Context

section Units
variable (settings : Settings) (g : GroupContext)

def annotate (aliases : AliasTable) (a : AnnotatedConfiguration) :
    Strict AnnotatedConfiguration := do
  if a.configuration.hasTokens then
    let classified ← classify a.configuration settings a.notes
    return ⟨a.configuration, ← resolveMemory a.configuration settings aliases classified⟩
  else return a

def unitFindings (u : AnnotatedUnit) : Strict (List Finding) :=
  gather (fun a => findings (a.subject settings g u))
    (u.configurations.filter fun a => a.configuration.hasTokens)

def audit (u : AnnotatedUnit) (r : Run) : Strict (AnnotatedUnit × Run) := do
  let noted ← u.configurations.mapM (annotate settings (g.aliases.get u.path))
  let u := { u with configurations := noted }
  return (u, r.reportAll (← unitFindings settings g u))

def auditOnce (u : AnnotatedUnit) (r : Run) : Strict (AnnotatedUnit × Run) :=
  if r.isFree u.path then audit settings g u (r.claim u.path) else return (u, r)

def auditList : List AnnotatedUnit → Run → Strict (List AnnotatedUnit × Run)
  | [], r => return ([], r)
  | u :: us, r => do
    let (u, r) ← auditOnce settings g u r
    let (us, r) ← auditList us r
    return (u :: us, r)

theorem annotate_eq (aliases : AliasTable) (a : AnnotatedConfiguration) :
    annotate settings aliases a = pure (a.annotate settings aliases) := by
  simp only [annotate, AnnotatedConfiguration.annotate, classify_eq, resolveMemory_eq, pure_bind]
  split <;> rfl

theorem unitFindings_eq (u : AnnotatedUnit) :
    unitFindings settings g u = pure (u.findings settings g) :=
  gather_of_mem fun a _ => findings_eq (a.subject settings g u)

theorem audit_eq (u : AnnotatedUnit) (r : Run) :
    audit settings g u r = pure (u.audit settings g r) := by
  simp only [audit, funext (annotate_eq settings (g.aliases.get u.path)), List.mapM_pure, pure_bind,
    unitFindings_eq]
  rfl

theorem auditList_eq (us : List AnnotatedUnit) (r : Run) :
    auditList settings g us r =
      pure (AnnotatedUnit.auditList (AnnotatedUnit.auditOnce settings g) us r) := by
  induction us generalizing r with
  | nil => rfl
  | cons u us ih =>
    have honce : auditOnce settings g u r = pure (u.auditOnce settings g r) := by
      simp only [auditOnce, AnnotatedUnit.auditOnce, audit_eq]
      split <;> rfl
    simp only [auditList, AnnotatedUnit.auditList, honce, ih, pure_bind]

end Units

def auditGroup (settings : Settings) (isOwning : String → Bool) (units : List SourceUnit) (r : Run) :
    Strict GroupAudit := do
  let g ← context settings isOwning units
  let (units, r) ← auditList settings g (units.map SourceUnit.unannotated) r
  return ⟨g, units, r⟩

/-- No access of an audit is out of range, and with every access checked it comes to the same. -/
theorem auditGroup_inRange (settings : Settings) (isOwning : String → Bool)
    (units : List SourceUnit) (r : Run) :
    auditGroup settings isOwning units r = pure (GroupAudit.ofUnits settings isOwning units r) := by
  simp only [auditGroup, context_eq, auditList_eq, pure_bind]
  rfl

end SpaceAudit.Strict
