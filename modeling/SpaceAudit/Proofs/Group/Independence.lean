import SpaceAudit.Group.Basic
import SpaceAudit.Proofs.Run.Report

/-! A run over groups of units threads one state through all audits. What it comes to is stated
without that state: every unit raises its findings by itself, the first unit of a path counts, and
the first finding of a key counts. -/
namespace SpaceAudit

def SourceUnit.raised (settings : Settings) (g : GroupContext) (u : SourceUnit) : List Finding :=
  (u.unannotated.annotate settings g).findings settings g

def Run.throughGroups (settings : Settings) (isOwning : String → Bool)
    (groups : List (List SourceUnit)) (r : Run) : Run :=
  groups.foldl (fun r units => (GroupAudit.ofUnits settings isOwning units r).run) r

abbrev PlannedUnit := GroupContext × SourceUnit

namespace PlannedUnit

def place (p : PlannedUnit) : List Component := p.2.path.components

def raised (settings : Settings) (p : PlannedUnit) : List Finding := p.2.raised settings p.1

def ofGroups (settings : Settings) (isOwning : String → Bool) (groups : List (List SourceUnit)) :
    List PlannedUnit :=
  groups.flatMap fun units => units.map fun u => (GroupContext.ofUnits settings isOwning units, u)

/-- What the units raise of which none with their path comes before. -/
def raisedByFirsts (settings : Settings) (ps : List PlannedUnit) : List Finding :=
  (firstsOf place ps).flatMap (raised settings)

end PlannedUnit

open PlannedUnit

namespace Run
variable {r : Run} {fs : List Finding}

theorem claimed_reportAll (r : Run) (fs : List Finding) : (r.reportAll fs).claimed = r.claimed := by
  induction fs generalizing r with
  | nil => rfl
  | cons f fs ih =>
    have hstep : (r.report f).claimed = r.claimed := by
      unfold report
      split <;> rfl
    exact (ih (r.report f)).trans hstep

theorem findings_prefix_report (r : Run) (f : Finding) : r.findings <+: (r.report f).findings := by
  unfold report
  split
  · exact List.prefix_rfl
  · exact List.prefix_append _ _

theorem findings_prefix_reportAll (r : Run) (fs : List Finding) :
    r.findings <+: (r.reportAll fs).findings := by
  induction fs generalizing r with
  | nil => exact List.prefix_rfl
  | cons f fs ih => exact (findings_prefix_report r f).trans (ih (r.report f))

theorem findings_claim (r : Run) (path : Path) : (r.claim path).findings = r.findings := by
  unfold claim
  split <;> rfl

theorem Told.claim (h : Told r fs) (path : Path) : Told (r.claim path) fs := by
  unfold Run.claim
  split
  · exact ⟨h.findings, h.worst⟩
  · exact h

theorem isIn_claim {path q : Path} :
    q.isIn (r.claim path).claimed = true ↔
      q.isIn r.claimed = true ∨ q.components = path.components := by
  unfold claim
  split
  · simp [Path.isIn, Path.same_iff]
  · rename_i htaken
    simp only [isFree, Bool.not_eq_true', Bool.not_eq_false] at htaken
    constructor
    · exact .inl
    · rintro (h | h)
      · exact h
      · simpa [Path.isIn, Path.same, h] using htaken

end Run

@[simp] theorem SourceUnit.path_unannotated (u : SourceUnit) : u.unannotated.path = u.path := rfl

theorem SourceUnit.audit_run (settings : Settings) (g : GroupContext) (u : SourceUnit) (r : Run) :
    (u.unannotated.audit settings g r).2 = r.reportAll (u.raised settings g) := rfl

/-- The run has come through the units `ps`, taken or skipped. -/
structure Run.Through (settings : Settings) (r : Run) (ps : List PlannedUnit) : Prop where
  told : r.Told (raisedByFirsts settings ps)
  claimed : ∀ path : Path, path.isIn r.claimed = true ↔ path.components ∈ ps.map place

namespace Run.Through
variable {settings : Settings} {isOwning : String → Bool} {r : Run} {ps : List PlannedUnit}

theorem start : Through settings .start [] := ⟨.start, fun path => by simp [Run.start, Path.isIn]⟩

/-- One more unit: a new path is claimed and its findings are told, a known one is left alone. -/
theorem auditOnce (h : Through settings r ps) (g : GroupContext) (u : SourceUnit) :
    Through settings (u.unannotated.auditOnce settings g r).2 (ps ++ [(g, u)]) := by
  have hmem := h.claimed u.path
  have hconcat : firstsOf place (ps ++ [(g, u)]) = _ := firstsOf_concat ps (g, u)
  unfold AnnotatedUnit.auditOnce
  split
  · rename_i hfree
    have hnew : place (g, u) ∉ ps.map place := by
      intro hold
      simp [isFree, hmem.2 hold] at hfree
    rw [if_neg hnew] at hconcat
    rw [SourceUnit.audit_run]
    refine ⟨?_, fun path => ?_⟩
    · rw [raisedByFirsts, hconcat, List.flatMap_append, List.flatMap_singleton]
      exact (h.told.claim u.path).reportAll (u.raised settings g)
    · rw [claimed_reportAll]
      exact isIn_claim.trans (by simp [h.claimed, place])
  · rename_i htaken
    have hold : place (g, u) ∈ ps.map place := by
      refine hmem.1 ?_
      simpa [isFree] using htaken
    rw [if_pos hold] at hconcat
    refine ⟨?_, fun path => ?_⟩
    · rw [raisedByFirsts, hconcat]
      exact h.told
    · rw [h.claimed, List.map_append, List.mem_append, List.map_singleton, List.mem_singleton]
      constructor
      · exact .inl
      · rintro (hp | hp)
        · exact hp
        · exact hp ▸ hold

theorem auditList (h : Through settings r ps) (g : GroupContext) (us : List SourceUnit) :
    Through settings
      (AnnotatedUnit.auditList (AnnotatedUnit.auditOnce settings g)
        (us.map SourceUnit.unannotated) r).2
      (ps ++ us.map fun u => (g, u)) := by
  induction us generalizing r ps with
  | nil => simpa [AnnotatedUnit.auditList] using h
  | cons u us ih => simpa [AnnotatedUnit.auditList] using ih (h.auditOnce g u)

theorem throughGroups (h : Through settings r ps) (groups : List (List SourceUnit)) :
    Through settings (r.throughGroups settings isOwning groups)
      (ps ++ ofGroups settings isOwning groups) := by
  induction groups generalizing r ps with
  | nil => simpa [Run.throughGroups, ofGroups] using h
  | cons units groups ih =>
    have h' := ih (h.auditList (GroupContext.ofUnits settings isOwning units) units)
    simpa [Run.throughGroups, ofGroups, GroupAudit.ofUnits] using h'

end Run.Through

namespace Signatures

structure Within (a b : Signatures) : Prop where
  owning : a.owning ⊆ b.owning
  auto : a.auto ⊆ b.auto

theorem within_foldl {α : Type} (f : α → Signatures) (l : List α) (s : Signatures) :
    s.Within (l.foldl (fun s a => s.append (f a)) s) ∧
      ∀ a ∈ l, (f a).Within (l.foldl (fun s a => s.append (f a)) s) := by
  induction l generalizing s with
  | nil => exact ⟨⟨List.Subset.refl _, List.Subset.refl _⟩, by simp⟩
  | cons a l ih =>
    obtain ⟨hs, hl⟩ := ih (s.append (f a))
    refine ⟨⟨fun n hn => hs.owning (List.mem_append_left _ hn),
      fun n hn => hs.auto (List.mem_append_left _ hn)⟩, fun b hb => ?_⟩
    rcases List.mem_cons.1 hb with rfl | hb
    · exact ⟨fun n hn => hs.owning (List.mem_append_right _ hn),
        fun n hn => hs.auto (List.mem_append_right _ hn)⟩
    · exact hl b hb

end Signatures

theorem findings_prefix_auditOnce (settings : Settings) (g : GroupContext) (u : SourceUnit) (r : Run) :
    r.findings <+: (u.unannotated.auditOnce settings g r).2.findings := by
  unfold AnnotatedUnit.auditOnce
  split
  · rw [SourceUnit.audit_run, ← Run.findings_claim r u.unannotated.path]
    exact Run.findings_prefix_reportAll _ _
  · exact List.prefix_rfl

theorem Run.throughGroups_append (settings : Settings) (isOwning : String → Bool)
    (earlier later : List (List SourceUnit)) (r : Run) :
    r.throughGroups settings isOwning (earlier ++ later) =
      (r.throughGroups settings isOwning earlier).throughGroups settings isOwning later :=
  List.foldl_append

theorem findings_prefix_auditList (settings : Settings) (g : GroupContext) (us : List SourceUnit)
    (r : Run) :
    r.findings <+: (AnnotatedUnit.auditList (AnnotatedUnit.auditOnce settings g)
      (us.map SourceUnit.unannotated) r).2.findings := by
  induction us generalizing r with
  | nil => exact List.prefix_rfl
  | cons u us ih => exact (findings_prefix_auditOnce settings g u r).trans (ih _)

theorem findings_prefix_throughGroups (settings : Settings) (isOwning : String → Bool)
    (groups : List (List SourceUnit)) (r : Run) :
    r.findings <+: (r.throughGroups settings isOwning groups).findings := by
  induction groups generalizing r with
  | nil => exact List.prefix_rfl
  | cons units groups ih => exact (findings_prefix_auditList settings _ units r).trans (ih _)

/-- No audit of a run has an influence on another. -/
structure IndependentAudits (settings : Settings) (isOwning : String → Bool) : Prop where
  /-- The run finds what the units raise by themselves, without repetitions. -/
  findings : ∀ groups, (Run.start.throughGroups settings isOwning groups).findings =
    firstsOf Finding.key
      ((firstsOf PlannedUnit.place (PlannedUnit.ofGroups settings isOwning groups)).flatMap
        fun p => p.2.raised settings p.1)
  /-- What a unit raises is what its audit tells any run, an empty one included. -/
  raised : ∀ g (u : SourceUnit) r,
    (u.unannotated.audit settings g r).2 = r.reportAll (u.raised settings g)
  /-- Later audits only add to the end of what was found. -/
  kept : ∀ g (u : SourceUnit) r,
    r.findings <+: (u.unannotated.auditOnce settings g r).2.findings
  keptByGroups : ∀ earlier later, (Run.start.throughGroups settings isOwning earlier).findings <+:
    (Run.start.throughGroups settings isOwning (earlier ++ later)).findings
  /-- A unit whose path is taken leaves the run as it was. -/
  skipped : ∀ g (u : SourceUnit) r, r.isFree u.path = false →
    u.unannotated.auditOnce settings g r = (u.unannotated, r)
  /-- A group knows what all its members bring in, skipped or not. -/
  aliases : ∀ units r, (GroupAudit.ofUnits settings isOwning units r).context.aliases =
    GroupAliases.ofSources (units.map AliasSource.ofUnit) settings.sharedHeaders
  /-- The last unit of a path defines the aliases known there. -/
  ownAliases : ∀ before u after r, (∀ v ∈ after, v.path.components ≠ u.path.components) →
    ∀ name definition, (AliasSource.ownAliases u).get? name = some definition →
      ((GroupAudit.ofUnits settings isOwning (before ++ u :: after) r).context.aliases.get
        u.path).get? name = some definition
  signatures : ∀ units r, ∀ u ∈ units,
    (GroupContext.unitSignatures (GroupAudit.ofUnits settings isOwning units r).context.aliases
      isOwning u).Within (GroupAudit.ofUnits settings isOwning units r).context.signatures

end SpaceAudit
