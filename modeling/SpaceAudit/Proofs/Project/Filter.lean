import SpaceAudit.Proofs.Project.Plan

/-! A filter on the files of a project run hides what is said about other files. It takes away
whole jobs and single audits, but the deeds about the files that are asked for are the same, in the
same order and with what the same groups know. -/
namespace SpaceAudit

namespace Project
variable {p : Project} {fs : FileSystem} {F : List Path} {f : Path} {g : FileGroup} {j : Job}

theorem wants_filtered (hF : F ≠ []) (f : Path) :
    ({ p with filter := F } : Project).wants f = f.isIn F := by
  simp [wants, hF]

def Job.touches (F : List Path) (j : Job) : Bool := j.files.any (·.isIn F)

theorem jobs_filtered (hp : p.filter = []) (hF : F ≠ []) :
    ({ p with filter := F } : Project).jobs fs = (p.jobs fs).filter (Job.touches F) := by
  have hwants : ({ p with filter := F } : Project).wants = fun f => f.isIn F :=
    funext (wants_filtered hF)
  have hall : p.wants = fun _ => true := funext (wants_of_no_filter hp)
  have hgroup (g : FileGroup) :
      ({ p with filter := F } : Project).jobsIn g = (p.jobsIn g).filter (Job.touches F) := by
    unfold jobsIn
    rw [hwants, hall]
    split
    · rw [List.filter_true, List.filter_map]
      congr 1
      refine List.filter_congr fun f _ => ?_
      simp [Job.touches]
    · simp only [FileGroup.isSelected, hp, List.isEmpty_nil, Bool.true_or, Bool.and_true]
      by_cases hempty : g.files.isEmpty = true
      · simp [hempty]
      · by_cases hany : g.files.any (·.isIn F) = true
        · simp [hempty, hany, Job.touches]
        · simp [hempty, hF, hany, Job.touches]
  rw [jobs_eq, jobs_eq, List.filter_flatMap]
  exact List.flatMap_congr fun g _ => hgroup g

theorem deedsOf_filtered (hp : p.filter = []) (hF : F ≠ []) (j : Job) :
    (({ p with filter := F } : Project).deedsOf fs j).filter (·.source.isIn F) =
      (p.deedsOf fs j).filter (·.source.isIn F) := by
  rw [deedsOf, deedsOf, List.filter_append, List.filter_append]
  congr 1
  rw [List.filter_map, List.filter_map, List.filter_filter, List.filter_filter]
  congr 1
  refine List.filter_congr fun u _ => ?_
  simp [wants_filtered hF, wants_of_no_filter hp, Deed.source]

/-- The deeds about some files are the same with a filter for these files. -/
theorem deeds_filtered (hwell : fs.tree.wellNamed = true) (hp : p.filter = []) (hF : F ≠ []) :
    (({ p with filter := F } : Project).deeds fs).filter (·.source.isIn F) =
      (p.deeds fs).filter (·.source.isIn F) := by
  have hkey : ∀ d d' : Deed, d.key = d'.key → d.source.isIn F = d'.source.isIn F :=
    fun d d' h => Path.isIn_congr (Deed.source_of_key h)
  have hjobs (js : List Job) (hnamed : ∀ j ∈ js, ∀ f ∈ j.files, f.Named) :
      ((js.filter (Job.touches F)).flatMap (({ p with filter := F } : Project).deedsOf fs)).filter
          (·.source.isIn F) =
        (js.flatMap (p.deedsOf fs)).filter (·.source.isIn F) := by
    induction js with
    | nil => rfl
    | cons j js ih =>
      have hrest := ih fun j' hj' => hnamed j' (List.mem_cons_of_mem j hj')
      rw [List.flatMap_cons, List.filter_append, ← hrest, ← deedsOf_filtered hp hF j]
      by_cases htouch : j.touches F = true
      · rw [List.filter_cons_of_pos htouch, List.flatMap_cons, List.filter_append]
      · -- A job without such files says nothing about them.
        have hnone : (p.deedsOf fs j).filter (·.source.isIn F) = [] := by
          refine List.filter_eq_nil_iff.2 fun d hd hin => htouch ?_
          have hmem := source_of_mem_deedsOf (hnamed j List.mem_cons_self) hd
          exact List.any_eq_true.2 ⟨d.source, hmem, hin⟩
        rw [List.filter_cons_of_neg htouch, deedsOf_filtered hp hF j, hnone, List.nil_append]
  rw [deeds, deeds, filter_firstsOf hkey, filter_firstsOf hkey, agenda, agenda, jobs_filtered hp hF,
    hjobs _ fun j hj f hf => named_of_mem_jobs hwell hj hf]

/-- The run of `q` says about the files of its filter what the run of `p` says. -/
structure OnlyHides (fs : FileSystem) (p q : Project) : Prop where
  finished : (p.run fs).2 = none ∧ (q.run fs).2 = none
  /-- Nothing about these files is lost, added or said in another order. -/
  kept : (q.run fs).1.run.findings.filter (·.file.isIn q.filter) =
    (p.run fs).1.run.findings.filter (·.file.isIn q.filter)
  /-- What is said about another file is that its dump, which is there, cannot be used. -/
  others : ∀ x ∈ (q.run fs).1.run.findings, x.file.isIn q.filter = false →
    ∃ g ∈ q.selectedGroups fs, ∃ f ∈ g.files, ∃ e, fs.isFile f.dumpOf = true ∧
      Dump.read fs f.dumpOf = .error e ∧ x = Dump.faultFinding f.dumpOf e ∧ x.file = f

/-- A filter hides files and never changes what is said about the files that are asked for. -/
theorem run_withFilter_onlyHides (fs : FileSystem) (settings : Settings) (root : Path)
    (files : List Path) (p : Project) (hwell : fs.tree.wellNamed = true)
    (hp : Project.ofRoot fs settings root = .ok p) (hfiles : files ≠ []) :
    OnlyHides fs p (p.withFilter fs files) := by
  obtain ⟨hfilter, hfront, _⟩ := ofRoot_spec hp
  have hfront' : (p.withFilter fs files).frontEnd = none := hfront
  have hF : (p.withFilter fs files).filter ≠ [] := by
    intro hnil
    exact hfiles (List.map_eq_nil_iff.1 hnil)
  refine ⟨⟨?_, ?_⟩, ?_, ?_⟩
  · rw [run_eq fs hfront]
  · rw [run_eq fs hfront']
  · rw [filter_findings_run hfront, filter_findings_run hfront', ← deeds_filtered hwell hfilter hF]
    rfl
  · intro x hx hout
    rw [findings_run fs hfront'] at hx
    obtain ⟨d, hd, hx⟩ := List.mem_flatMap.1 (mem_of_mem_firstsOf hx)
    have hfile := Deed.file_of_mem_findings _ hx
    obtain ⟨j, hj, hd⟩ := List.mem_flatMap.1 (mem_of_mem_firstsOf hd)
    obtain ⟨f, hf, hdump, hkind⟩ := (mem_deedsOf_iff _ fs).1 hd
    obtain ⟨g, hg, hjob⟩ := List.mem_flatMap.1 hj
    cases hkind with
    | inl hrefuse =>
      obtain ⟨e, hread, rfl⟩ := hrefuse
      refine ⟨g, hg, f, files_of_mem_jobsOf hjob hf, e, hdump, hread, List.mem_singleton.1 hx, ?_⟩
      rw [hfile]
      exact (named_of_mem_jobs hwell hj hf).sourceOf_dumpOf
    | inr haudit =>
      -- Only files of the filter are audited.
      obtain ⟨u, _, hwants, rfl⟩ := haudit
      have hin : u.path.isIn (p.withFilter fs files).filter = true :=
        (wants_filtered hF u.path).symm.trans hwants
      rw [hfile] at hout
      exact absurd hin (by simpa [Deed.source] using hout)

def brokenDump : FileTree := .file ⟨#[0xff]⟩

def emptyFile : FileTree := .file ⟨#[]⟩

/-- A project with sources in the library, in a geometry and in the multipatch folder, all with
dumps that cannot be read. -/
def nestedTree : FileSystem where
  tree := .folder [("work", .folder
    [("src", .folder [("a.cpp", emptyFile), ("a.cpp.dump", brokenDump)]),
      ("simulations", .folder
        [("geometryX", .folder [("b.hpp", emptyFile), ("b.hpp.dump", brokenDump)])]),
      ("tests", .folder
        [("multipatch", .folder [("c.cpp", emptyFile), ("c.cpp.dump", brokenDump)])])])]
  folder := ["work"]

def nestedProject : Project := ⟨.standard, ⟨"/work"⟩, [], none⟩

/-- The filter means the geometry's file, whose group has the library's file too. -/
theorem run_withFilter_onlyHides_nested :
    nestedTree.tree.wellNamed = true ∧
      Project.ofRoot nestedTree .standard ⟨"."⟩ = .ok nestedProject ∧
      (nestedProject.withFilter nestedTree [⟨"simulations/./geometryX/b.hpp"⟩]).filter =
        [⟨"/work/simulations/geometryX/b.hpp"⟩] ∧
      OnlyHides nestedTree nestedProject
        (nestedProject.withFilter nestedTree [⟨"simulations/./geometryX/b.hpp"⟩]) :=
  ⟨by decide +kernel, rfl, rfl,
    run_withFilter_onlyHides nestedTree .standard ⟨"."⟩ [⟨"simulations/./geometryX/b.hpp"⟩]
      nestedProject (by decide +kernel) rfl (by simp)⟩

end Project

end SpaceAudit
