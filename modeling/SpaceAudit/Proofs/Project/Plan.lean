import SpaceAudit.Project.Basic
import SpaceAudit.Proofs.Group.Order
import SpaceAudit.Proofs.Project.Dumps
import SpaceAudit.Proofs.Project.Groups

/-! What a project run without a front end does is known before it starts. Its jobs call for
refusals of dumps and audits of units, and of these it does the first of each. -/
namespace SpaceAudit

theorem Finding.file_of_key {x y : Finding} (h : x.key = y.key) :
    x.file.components = y.file.components :=
  congrArg (fun k => k.2.1) h

theorem Dump.file_faultFinding (dump : Path) (e : DumpFault) :
    (Dump.faultFinding dump e).file = dump.sourceOf := rfl

/-- One thing that a project run does: it refuses a dump, or it audits a unit with what a group
knows. -/
inductive Deed where
  | refuse (dump : Path) (e : DumpFault)
  | audit (g : GroupContext) (u : SourceUnit)

namespace Deed
variable (settings : Settings)

/-- What is done once: a refusal for what it says, an audit for its source. -/
def key : Deed → (Check × List Component × Nat × Nat × String) ⊕ List Component
  | refuse dump e => .inl (Dump.faultFinding dump e).key
  | audit _ u => .inr u.path.components

def source : Deed → Path
  | refuse dump _ => dump.sourceOf
  | audit _ u => u.path

def planned? : Deed → Option PlannedUnit
  | refuse _ _ => none
  | audit g u => some (g, u)

def findings : Deed → List Finding
  | refuse dump e => [Dump.faultFinding dump e]
  | audit g u => u.raised settings g

/-- Does a deed, an audit only when its source was not audited before. -/
def attempt (r : Run) : Deed → Run
  | refuse dump e => r.report (Dump.faultFinding dump e)
  | audit g u => (u.unannotated.auditOnce settings g r).2

def made (r : Run) : Deed → List PlannedUnit
  | refuse _ _ => []
  | audit g u => if r.isFree u.path then [(g, u)] else []

def auditsMade : Run → List Deed → List PlannedUnit
  | _, [] => []
  | r, d :: ds => d.made r ++ auditsMade (d.attempt settings r) ds

theorem source_of_key {d d' : Deed} (h : d.key = d'.key) :
    d.source.components = d'.source.components := by
  cases d with
  | refuse dump e =>
    cases d' with
    | refuse dump' e' =>
      have hfile := Finding.file_of_key (Sum.inl.inj h)
      rw [Dump.file_faultFinding, Dump.file_faultFinding] at hfile
      exact hfile
    | audit g' u' => cases h
  | audit g u =>
    cases d' with
    | refuse dump' e' => cases h
    | audit g' u' => exact Sum.inr.inj h

theorem file_of_mem_findings {d : Deed} {f : Finding} (h : f ∈ d.findings settings) :
    f.file = d.source := by
  cases d with
  | refuse dump e => rw [List.mem_singleton.1 h]; rfl
  | audit g u => exact SourceUnit.file_of_mem_raised h

def refusal? (fs : FileSystem) (dump : Path) : Option Deed :=
  match Dump.read fs dump with
  | .ok _ => none
  | .error e => some (refuse dump e)

theorem refusal?_eq_some_iff {fs : FileSystem} {dump : Path} {d : Deed} :
    refusal? fs dump = some d ↔ ∃ e, Dump.read fs dump = .error e ∧ d = refuse dump e := by
  unfold refusal?
  cases Dump.read fs dump with
  | ok u => simp
  | error e => simp [eq_comm]

end Deed

namespace Project
variable (p : Project) (fs : FileSystem)

def dumpsOf (files : List Path) : List Path := (files.map Path.dumpOf).filter fs.isFile

def contextOf (files : List Path) : GroupContext :=
  .ofUnits p.settings p.settings.isOwning (Dump.units fs (dumpsOf fs files))

def deedsOf (j : Job) : List Deed :=
  (dumpsOf fs j.files).filterMap (Deed.refusal? fs) ++
    ((Dump.units fs (dumpsOf fs j.files)).filter fun u => p.wants u.path).map
      (.audit (p.contextOf fs j.files))

theorem mem_deedsOf_iff {j : Job} {d : Deed} :
    d ∈ p.deedsOf fs j ↔ ∃ f ∈ j.files, fs.isFile f.dumpOf = true ∧
      ((∃ e, Dump.read fs f.dumpOf = .error e ∧ d = .refuse f.dumpOf e) ∨
        ∃ u, Dump.read fs f.dumpOf = .ok u ∧ p.wants u.path = true ∧
          d = .audit (p.contextOf fs j.files) u) := by
  have hdumps (dump : Path) :
      dump ∈ dumpsOf fs j.files ↔ ∃ f ∈ j.files, fs.isFile f.dumpOf = true ∧ dump = f.dumpOf := by
    simp only [dumpsOf, List.mem_filter, List.mem_map]
    constructor
    · rintro ⟨⟨f, hf, hdump⟩, hfile⟩
      exact ⟨f, hf, hdump ▸ hfile, hdump.symm⟩
    · rintro ⟨f, hf, hfile, hdump⟩
      exact ⟨⟨f, hf, hdump.symm⟩, hdump ▸ hfile⟩
  rw [deedsOf, List.mem_append, List.mem_filterMap, List.mem_map]
  constructor
  · intro h
    cases h with
    | inl hrefuse =>
      obtain ⟨dump, hmem, hd⟩ := hrefuse
      obtain ⟨f, hf, hfile, rfl⟩ := (hdumps dump).1 hmem
      exact ⟨f, hf, hfile, .inl (Deed.refusal?_eq_some_iff.1 hd)⟩
    | inr haudit =>
      obtain ⟨u, hu, rfl⟩ := haudit
      obtain ⟨hu, hwants⟩ := List.mem_filter.1 hu
      obtain ⟨dump, hmem, hread⟩ := Dump.mem_units_iff.1 hu
      obtain ⟨f, hf, hfile, rfl⟩ := (hdumps dump).1 hmem
      exact ⟨f, hf, hfile, .inr ⟨u, hread, hwants, rfl⟩⟩
  · rintro ⟨f, hf, hfile, h⟩
    have hmem := (hdumps f.dumpOf).2 ⟨f, hf, hfile, rfl⟩
    cases h with
    | inl hrefuse => exact .inl ⟨f.dumpOf, hmem, Deed.refusal?_eq_some_iff.2 hrefuse⟩
    | inr haudit =>
      obtain ⟨u, hread, hwants, rfl⟩ := haudit
      exact .inr ⟨u, List.mem_filter.2 ⟨Dump.mem_units_iff.2 ⟨_, hmem, hread⟩, hwants⟩, rfl⟩

def jobs : List Job := (p.selectedGroups fs).flatMap jobsOf

def agenda : List Deed := (p.jobs fs).flatMap (p.deedsOf fs)

def deeds : List Deed := firstsOf Deed.key (p.agenda fs)

def audits : List PlannedUnit := Deed.auditsMade p.settings .start (p.agenda fs)

theorem foldl_attempt_refusals (settings : Settings) (dumps : List Path) (r : Run) :
    (dumps.filterMap (Deed.refusal? fs)).foldl (Deed.attempt settings) r =
      r.reportAll (Dump.faults fs dumps) := by
  induction dumps generalizing r with
  | nil => rfl
  | cons dump dumps ih =>
    cases hread : Dump.read fs dump with
    | ok u => simpa [Deed.refusal?, Dump.faults, hread] using ih r
    | error e =>
      simpa [Deed.refusal?, Dump.faults, hread, Deed.attempt, Run.reportAll] using
        ih (r.report (Dump.faultFinding dump e))

theorem foldl_attempt_audits (settings : Settings) (g : GroupContext) (us : List SourceUnit)
    (r : Run) :
    (us.map (Deed.audit g)).foldl (Deed.attempt settings) r =
      (AnnotatedUnit.auditList (AnnotatedUnit.auditOnce settings g)
        (us.map SourceUnit.unannotated) r).2 := by
  induction us generalizing r with
  | nil => rfl
  | cons u us ih => simpa [Deed.attempt, AnnotatedUnit.auditList] using ih _

theorem auditJob_eq (j : Job) (r : Run) :
    p.auditJob fs j r = (p.deedsOf fs j).foldl (Deed.attempt p.settings) r := by
  rw [deedsOf, List.foldl_append, foldl_attempt_refusals, foldl_attempt_audits]
  rfl

theorem runJobs_eq (hfront : p.frontEnd = none) (js : List Job) (s : Progress) :
    p.runJobs fs js s =
      (⟨(js.flatMap (p.deedsOf fs)).foldl (Deed.attempt p.settings) s.run, s.calls⟩, none) := by
  induction js generalizing s with
  | nil => rfl
  | cons j js ih =>
    have hprepare : p.prepare j s = .ok s := by
      rw [prepare, hfront]
    rw [runJobs, hprepare]
    simp only
    rw [ih, auditJob_eq, List.flatMap_cons, List.foldl_append]

end Project

/-- The run has come through the deeds `ds`, done or skipped. -/
structure Run.Carried (settings : Settings) (r : Run) (ds : List Deed) : Prop where
  told : r.Told ((firstsOf Deed.key ds).flatMap (Deed.findings settings))
  claimed : r.claimed = ((firstsOf Deed.key ds).filterMap Deed.planned?).map fun a => a.2.path

namespace Run.Carried
variable {settings : Settings} {r : Run} {ds : List Deed}

theorem start : Carried settings .start [] := ⟨.start, rfl⟩

theorem isIn_claimed_iff (h : Carried settings r ds) (path : Path) :
    path.isIn r.claimed = true ↔ .inr path.components ∈ ds.map Deed.key := by
  rw [← mem_map_firstsOf, h.claimed, Path.isIn_iff]
  simp only [List.mem_map, List.mem_filterMap]
  constructor
  · rintro ⟨q, ⟨a, ⟨d, hd, ha⟩, hq⟩, hsame⟩
    cases d with
    | refuse dump e => cases ha
    | audit g u =>
      obtain rfl : (g, u) = a := Option.some.inj ha
      exact ⟨_, hd, congrArg Sum.inr ((congrArg Path.components hq).trans hsame.symm)⟩
  · rintro ⟨d, hd, hkey⟩
    cases d with
    | refuse dump e => cases hkey
    | audit g u => exact ⟨u.path, ⟨(g, u), ⟨_, hd, rfl⟩, rfl⟩, (Sum.inr.inj hkey).symm⟩

theorem isFree_iff (h : Carried settings r ds) (path : Path) :
    r.isFree path = true ↔ .inr path.components ∉ ds.map Deed.key := by
  rw [← h.isIn_claimed_iff]
  simp [isFree]

theorem attempt_of_known (h : Carried settings r ds) {d : Deed} (hold : d.key ∈ ds.map Deed.key) :
    d.attempt settings r = r := by
  cases d with
  | refuse dump e =>
    have hknown : r.findings.any (Dump.faultFinding dump e).sameKey = true := by
      obtain ⟨d', hd', hkey⟩ := List.mem_map.1 (mem_map_firstsOf.2 hold)
      cases d' with
      | audit g u => cases hkey
      | refuse dump' e' =>
        rw [h.told.any_sameKey, ← Sum.inl.inj hkey]
        exact List.mem_map_of_mem (List.mem_flatMap.2 ⟨_, hd', List.mem_singleton_self _⟩)
    rw [Deed.attempt, report, if_pos hknown]
  | audit g u =>
    have htaken : ¬ r.isFree u.path = true := fun hfree => (h.isFree_iff u.path).1 hfree hold
    rw [Deed.attempt, AnnotatedUnit.auditOnce, SourceUnit.path_unannotated, if_neg htaken]

theorem attempt (h : Carried settings r ds) (d : Deed) :
    Carried settings (d.attempt settings r) (ds ++ [d]) := by
  by_cases hold : d.key ∈ ds.map Deed.key
  · have hconcat : firstsOf Deed.key (ds ++ [d]) = firstsOf Deed.key ds := by
      rw [firstsOf_concat, if_pos hold]
    rw [h.attempt_of_known hold]
    exact ⟨hconcat ▸ h.told, hconcat ▸ h.claimed⟩
  · have hconcat : firstsOf Deed.key (ds ++ [d]) = firstsOf Deed.key ds ++ [d] := by
      rw [firstsOf_concat, if_neg hold]
    constructor
    · rw [hconcat, List.flatMap_append, List.flatMap_singleton]
      cases d with
      | refuse dump e => exact h.told.report _
      | audit g u =>
        have hfree := (h.isFree_iff u.path).2 hold
        rw [Deed.attempt, AnnotatedUnit.auditOnce, SourceUnit.path_unannotated, if_pos hfree]
        exact (h.told.claim u.path).reportAll (u.raised settings g)
    · rw [hconcat, List.filterMap_append, List.map_append, ← h.claimed]
      cases d with
      | refuse dump e => exact (claimed_reportAll r [_]).trans (List.append_nil _).symm
      | audit g u =>
        have hfree := (h.isFree_iff u.path).2 hold
        have hclaim : (r.claim u.path).claimed = r.claimed ++ [u.path] := by
          rw [claim, if_pos hfree]
        rw [Deed.attempt, AnnotatedUnit.auditOnce, SourceUnit.path_unannotated, if_pos hfree]
        exact (claimed_reportAll _ _).trans hclaim

/-- An audit is made when it is the first of its source. -/
theorem planned_concat (h : Carried settings r ds) (d : Deed) :
    (firstsOf Deed.key (ds ++ [d])).filterMap Deed.planned? =
      (firstsOf Deed.key ds).filterMap Deed.planned? ++ d.made r := by
  rw [firstsOf_concat]
  cases d with
  | refuse dump e =>
    rw [Deed.made, List.append_nil]
    split
    · rfl
    · rw [List.filterMap_append]
      exact List.append_nil _
  | audit g u =>
    have hfree := h.isFree_iff u.path
    by_cases hold : (Deed.audit g u).key ∈ ds.map Deed.key
    · rw [if_pos hold, Deed.made, if_neg fun hf => hfree.1 hf hold, List.append_nil]
    · rw [if_neg hold, Deed.made, if_pos (hfree.2 hold), List.filterMap_append]
      rfl

theorem auditsMade_eq (h : Carried settings r ds) (more : List Deed) :
    (firstsOf Deed.key (ds ++ more)).filterMap Deed.planned? =
      (firstsOf Deed.key ds).filterMap Deed.planned? ++ Deed.auditsMade settings r more := by
  induction more generalizing r ds with
  | nil => rw [Deed.auditsMade, List.append_nil, List.append_nil]
  | cons d more ih =>
    have hrest := ih (h.attempt d)
    rw [List.append_assoc, h.planned_concat d, List.append_assoc] at hrest
    exact hrest

theorem attemptAll (h : Carried settings r ds) (more : List Deed) :
    Carried settings (more.foldl (Deed.attempt settings) r) (ds ++ more) := by
  induction more generalizing r ds with
  | nil => simpa using h
  | cons d more ih => simpa using ih (h.attempt d)

end Run.Carried

namespace Project
variable {p : Project} {fs : FileSystem} {F : List Path} {f : Path} {g : FileGroup} {j : Job}

theorem wants_of_no_filter (h : p.filter = []) (f : Path) : p.wants f = true := by
  simp [wants, h]

theorem ofRoot_spec {settings : Settings} {root : Path} (h : ofRoot fs settings root = .ok p) :
    p.filter = [] ∧ p.frontEnd = none ∧ p.root.isAbsolute = true := by
  unfold ofRoot at h
  split at h
  · cases h
  · rename_i hcanonical
    cases h
    unfold FileSystem.canonical at hcanonical
    split at hcanonical
    · cases hcanonical
    · cases hcanonical
      exact ⟨rfl, rfl, Path.isAbsolute_iff.2 ⟨_, rfl⟩⟩

theorem named_of_mem_groups (hwell : fs.tree.wellNamed = true) (hg : g ∈ p.groups fs)
    (hf : f ∈ g.files) : f.Named := by
  have hdrawn := (Groups.keeps_discover fs p.settings p.root).drawn f
    (List.mem_flatMap.2 ⟨g, hg, hf⟩)
  cases List.mem_append.1 hdrawn with
  | inl hpatch => exact ((FileSystem.mem_sources_iff hwell).1 hpatch).named hwell
  | inr hfolder =>
    obtain ⟨folder, _, hf⟩ := List.mem_flatMap.1 hfolder
    exact ((FileSystem.mem_sources_iff hwell).1 (List.mem_of_mem_filter hf)).named hwell

def jobsIn (p : Project) (g : FileGroup) : List Job :=
  if g.oneAtATime then (g.files.filter p.wants).map fun f => ⟨g.name, [f]⟩
  else if !g.files.isEmpty && g.isSelected p.filter then [⟨g.name, g.files⟩] else []

def narrowed (p : Project) (g : FileGroup) : FileGroup :=
  if g.oneAtATime then { g with files := g.files.filter p.wants } else g

theorem jobsIn_eq (g : FileGroup) :
    p.jobsIn g = if !(p.narrowed g).files.isEmpty && (p.narrowed g).isSelected p.filter then
      jobsOf (p.narrowed g) else [] := by
  by_cases hone : g.oneAtATime = true
  · have hnarrowed : p.narrowed g = ⟨g.name, g.files.filter p.wants, true⟩ := by
      rw [narrowed, if_pos hone, hone]
    rw [jobsIn, if_pos hone, hnarrowed]
    cases hfiles : g.files.filter p.wants with
    | nil => rfl
    | cons f rest =>
      have hf : p.wants f = true := (List.mem_filter.1 (hfiles ▸ List.mem_cons_self)).2
      have hselected : FileGroup.isSelected ⟨g.name, f :: rest, true⟩ p.filter = true := by
        have hor : p.filter = [] ∨ f.isIn p.filter = true := by simpa [wants] using hf
        cases hor with
        | inl hnil => simp [FileGroup.isSelected, hnil]
        | inr hin => simp [FileGroup.isSelected, hin]
      rw [hselected]
      rfl
  · have hnarrowed : p.narrowed g = g := if_neg hone
    rw [jobsIn, if_neg hone, hnarrowed, jobsOf, if_neg hone]

theorem jobs_eq : p.jobs fs = (p.groups fs).flatMap p.jobsIn := by
  have hgroups (gs : List FileGroup) :
      ((gs.map p.narrowed).filter fun g =>
        !g.files.isEmpty && g.isSelected p.filter).flatMap jobsOf = gs.flatMap p.jobsIn := by
    induction gs with
    | nil => rfl
    | cons g gs ih =>
      rw [List.flatMap_cons, ← ih, List.map_cons, List.filter_cons, jobsIn_eq]
      split
      · rw [List.flatMap_cons]
      · rw [List.nil_append]
  exact hgroups (p.groups fs)

theorem files_of_mem_jobsOf (h : j ∈ jobsOf g) (hf : f ∈ j.files) : f ∈ g.files := by
  unfold jobsOf at h
  split at h
  · obtain ⟨f', hf', rfl⟩ := List.mem_map.1 h
    rw [List.mem_singleton.1 hf]
    exact hf'
  · rw [List.mem_singleton.1 h] at hf
    exact hf

theorem named_of_mem_jobs (hwell : fs.tree.wellNamed = true) (hj : j ∈ p.jobs fs)
    (hf : f ∈ j.files) : f.Named := by
  obtain ⟨g, hg, hj⟩ := List.mem_flatMap.1 hj
  have hmem := files_of_mem_jobsOf hj hf
  obtain ⟨g, hgroup, rfl⟩ := List.mem_map.1 (List.mem_of_mem_filter hg)
  refine named_of_mem_groups hwell hgroup ?_
  split at hmem
  · exact List.mem_of_mem_filter hmem
  · exact hmem

theorem source_of_mem_deedsOf {d : Deed} (hnamed : ∀ f ∈ j.files, f.Named)
    (hd : d ∈ p.deedsOf fs j) : d.source ∈ j.files := by
  obtain ⟨f, hf, _, hkind⟩ := (mem_deedsOf_iff p fs).1 hd
  have hsource : d.source = f := by
    cases hkind with
    | inl hrefuse =>
      obtain ⟨e, _, rfl⟩ := hrefuse
      exact (hnamed f hf).sourceOf_dumpOf
    | inr haudit =>
      obtain ⟨u, hread, _, rfl⟩ := haudit
      exact Dump.path_of_read (hnamed f hf) hread
  rw [hsource]
  exact hf

/-- A run without a front end attempts all that its jobs call for, and comes to its end. -/
theorem run_eq (fs : FileSystem) (hfront : p.frontEnd = none) :
    p.run fs = (⟨(p.agenda fs).foldl (Deed.attempt p.settings) .start, []⟩, none) :=
  runJobs_eq p fs hfront (p.jobs fs) ⟨.start, []⟩

theorem carried_run (fs : FileSystem) (hfront : p.frontEnd = none) :
    (p.run fs).1.run.Carried p.settings (p.agenda fs) := by
  rw [run_eq fs hfront]
  exact Run.Carried.start.attemptAll (p.agenda fs)

theorem audits_eq (p : Project) (fs : FileSystem) :
    p.audits fs = (p.deeds fs).filterMap Deed.planned? :=
  (Run.Carried.start.auditsMade_eq (p.agenda fs)).symm

theorem findings_run (fs : FileSystem) (hfront : p.frontEnd = none) :
    (p.run fs).1.run.findings =
      firstsOf Finding.key ((p.deeds fs).flatMap (Deed.findings p.settings)) :=
  (carried_run fs hfront).told.findings

theorem filter_flatMap_findings (settings : Settings) (ds : List Deed) :
    (ds.flatMap (Deed.findings settings)).filter (·.file.isIn F) =
      (ds.filter (·.source.isIn F)).flatMap (Deed.findings settings) := by
  induction ds with
  | nil => rfl
  | cons d ds ih =>
    have hfile : ∀ x ∈ d.findings settings, x.file.isIn F = d.source.isIn F :=
      fun x hx => by rw [Deed.file_of_mem_findings settings hx]
    rw [List.flatMap_cons, List.filter_append, ih]
    by_cases hd : d.source.isIn F = true
    · have hall : (d.findings settings).filter (·.file.isIn F) = d.findings settings :=
        List.filter_eq_self.2 fun x hx => (hfile x hx).trans hd
      rw [List.filter_cons, if_pos hd, List.flatMap_cons, hall]
    · have hnone : (d.findings settings).filter (·.file.isIn F) = [] :=
        List.filter_eq_nil_iff.2 fun x hx hin => hd ((hfile x hx).symm.trans hin)
      rw [List.filter_cons, if_neg hd, hnone, List.nil_append]

theorem filter_findings_run (hfront : p.frontEnd = none) :
    (p.run fs).1.run.findings.filter (·.file.isIn F) =
      firstsOf Finding.key
        (((p.deeds fs).filter (·.source.isIn F)).flatMap (Deed.findings p.settings)) := by
  have hkey : ∀ x y : Finding, x.key = y.key → x.file.isIn F = y.file.isIn F :=
    fun x y h => Path.isIn_congr (Finding.file_of_key h)
  rw [findings_run fs hfront, filter_firstsOf hkey, filter_flatMap_findings]

end Project

end SpaceAudit
