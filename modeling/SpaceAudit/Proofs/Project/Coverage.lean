import SpaceAudit.Proofs.Project.Filter

/-! A full project run leaves no source out and audits none twice. Every source that lies below a
folder of the project is held by a group, the first group that holds it audits it, and a dump that
cannot be used is told once for each way the groups write its source. -/
namespace SpaceAudit

namespace Path

theorem isAbsolute_child {dir : Path} (h : dir.isAbsolute = true) (name : String) :
    (dir.child name).isAbsolute = true := by
  obtain ⟨rest, hrest⟩ := isAbsolute_iff.1 h
  unfold child join
  split
  · rename_i hname
    exact hname
  · split
    · exact isAbsolute_iff.2 ⟨rest ++ name, by simp [hrest, String.append_assoc]⟩
    · exact isAbsolute_iff.2 ⟨rest ++ "/" ++ name, by simp [hrest, String.append_assoc]⟩

theorem isIn_singleton (p f : Path) : p.isIn [f] = p.same f := by
  simp [isIn]

end Path

namespace Project
variable {p : Project} {fs : FileSystem} {f q : Path} {g : FileGroup} {j : Job} {u : SourceUnit}
  {e : DumpFault}

/-- `f` is a source below the multipatch folder or one of the project folders. -/
def HasSource (p : Project) (fs : FileSystem) (f : Path) : Prop :=
  fs.SourceBelow (p.root.child p.settings.multipatchFolder) f ∨
    ∃ folder ∈ p.settings.projectFolders, fs.SourceBelow (p.root.child folder) f

/-- What is written to lie in the multipatch folder lies there. -/
def ClearMultipatch (p : Project) (fs : FileSystem) : Prop :=
  fs.Encloses (p.root.child p.settings.multipatchFolder)
    (p.settings.projectFolders.map p.root.child)

theorem HasSource.named (hwell : fs.tree.wellNamed = true) (h : p.HasSource fs f) : f.Named := by
  cases h with
  | inl hpatch => exact hpatch.named hwell
  | inr hfolder =>
    obtain ⟨folder, _, hf⟩ := hfolder
    exact hf.named hwell

theorem HasSource.held (hwell : fs.tree.wellNamed = true) (hroot : p.root.isAbsolute = true)
    (hclear : p.ClearMultipatch fs) (h : p.HasSource fs f) :
    ∃ g ∈ p.groups fs, f.isIn g.files = true := by
  have hkeeps := Groups.keeps_discover fs p.settings p.root
  have hall : f.isIn (fs.sources (p.root.child p.settings.multipatchFolder) ++
      (p.settings.projectFolders.map p.root.child).flatMap
        (Groups.outside fs (p.root.child p.settings.multipatchFolder))) = true := by
    cases h with
    | inl hpatch =>
      have hmem := (FileSystem.mem_sources_iff hwell).2 hpatch
      exact Path.isIn_iff.2 ⟨f, List.mem_append_left _ hmem, rfl⟩
    | inr hfolder =>
      obtain ⟨folder, hfolder, hf⟩ := hfolder
      have hfolder' := List.mem_map_of_mem (f := p.root.child) hfolder
      by_cases hstarts : f.startsWith (p.root.child p.settings.multipatchFolder) = true
      · have hin := hclear.isIn_sources hwell (Path.isAbsolute_child hroot _) hfolder'
          (Path.isAbsolute_child hroot folder) hf hstarts
        obtain ⟨q, hq, hfq⟩ := Path.isIn_iff.1 hin
        exact Path.isIn_iff.2 ⟨q, List.mem_append_left _ hq, hfq⟩
      · have hmem : f ∈ Groups.outside fs (p.root.child p.settings.multipatchFolder)
            (p.root.child folder) :=
          List.mem_filter.2 ⟨(FileSystem.mem_sources_iff hwell).2 hf, by simpa using hstarts⟩
        exact Path.isIn_iff.2
          ⟨f, List.mem_append_right _ (List.mem_flatMap.2 ⟨_, hfolder', hmem⟩), rfl⟩
  obtain ⟨q, hq, hfq⟩ := Path.isIn_iff.1 ((hkeeps.isIn_iff f).2 hall)
  obtain ⟨g, hg, hq⟩ := List.mem_flatMap.1 hq
  exact ⟨g, hg, Path.isIn_iff.2 ⟨q, hq, hfq⟩⟩

def contextIn (p : Project) (fs : FileSystem) (g : FileGroup) (q : Path) : GroupContext :=
  p.contextOf fs (if g.oneAtATime then [q] else g.files)

def deedFor (context : GroupContext) (q : Path) : Except DumpFault SourceUnit → Deed
  | .error e => .refuse q.dumpOf e
  | .ok u => .audit context { u with dumpPath := q.dumpOf }

theorem filter_filterMap_dumpsOf {files : List Path} {make : Path → Option Deed}
    (hmake : ∀ x ∈ files, ∀ d, make x.dumpOf = some d → d.source = x)
    (hfile : ∀ x ∈ files, x.same f = true → fs.isFile x.dumpOf = true) :
    ((dumpsOf fs files).filterMap make).filter (·.source.same f) =
      (files.filter (·.same f)).filterMap fun x => make x.dumpOf := by
  induction files with
  | nil => rfl
  | cons x files ih =>
    have hrest := ih (fun y hy => hmake y (List.mem_cons_of_mem x hy))
      fun y hy => hfile y (List.mem_cons_of_mem x hy)
    by_cases hdump : fs.isFile x.dumpOf = true
    · have hcons : dumpsOf fs (x :: files) = x.dumpOf :: dumpsOf fs files := by
        simp [dumpsOf, hdump]
      rw [hcons, List.filterMap_cons]
      cases hx : make x.dumpOf with
      | none =>
        rw [hrest, List.filter_cons]
        split
        · rw [List.filterMap_cons, hx]
        · rfl
      | some d =>
        have hd := hmake x List.mem_cons_self d hx
        rw [List.filter_cons, List.filter_cons, hrest, hd]
        split
        · rw [List.filterMap_cons, hx]
        · rfl
    · have hcons : dumpsOf fs (x :: files) = dumpsOf fs files := by simp [dumpsOf, hdump]
      have hother : ¬ x.same f = true := fun hsame => hdump (hfile x List.mem_cons_self hsame)
      rw [hcons, hrest, List.filter_cons, if_neg hother]

theorem deedsOf_about (hp : p.filter = []) (hnamed : ∀ x ∈ j.files, x.Named) (hf : f.Named)
    (hfile : fs.isFile f.dumpOf = true) :
    (p.deedsOf fs j).filter (·.source.same f) =
      (j.files.filter (·.same f)).map fun q =>
        deedFor (p.contextOf fs j.files) q (Dump.read fs f.dumpOf) := by
  have hthere (x : Path) (hx : x ∈ j.files) (hxf : x.same f = true) : fs.isFile x.dumpOf = true :=
    FileSystem.isFile_dumpOf hf (hnamed x hx) (Path.same_iff.1 hxf).symm hfile
  have haudits : ((Dump.units fs (dumpsOf fs j.files)).filter fun u => p.wants u.path).map
      (Deed.audit (p.contextOf fs j.files)) =
      (dumpsOf fs j.files).filterMap fun d =>
        (Dump.read fs d).toOption.map (Deed.audit (p.contextOf fs j.files)) := by
    have hall : (fun u : SourceUnit => p.wants u.path) = fun _ => true :=
      funext fun u => wants_of_no_filter hp u.path
    rw [hall, List.filter_true, Dump.units, List.map_filterMap]
  rw [deedsOf, haudits, List.filter_append]
  rw [filter_filterMap_dumpsOf ?_ hthere, filter_filterMap_dumpsOf ?_ hthere]
  · have hmem (x : Path) (hx : x ∈ j.files.filter (·.same f)) :
        Dump.read fs x.dumpOf =
          (Dump.read fs f.dumpOf).map fun u => { u with dumpPath := x.dumpOf } := by
      obtain ⟨hx, hxf⟩ := List.mem_filter.1 hx
      exact Dump.read_dumpOf hf (hnamed x hx) (Path.same_iff.1 hxf).symm hfile
    cases hread : Dump.read fs f.dumpOf with
    | error e =>
      rw [hread] at hmem
      have hnone : ((j.files.filter (·.same f)).filterMap fun x =>
          (Dump.read fs x.dumpOf).toOption.map (Deed.audit (p.contextOf fs j.files))) = [] :=
        List.filterMap_eq_nil_iff.2 fun x hx => by rw [hmem x hx]; rfl
      rw [hnone, List.append_nil, List.filterMap_eq_map_iff_forall_eq_some]
      exact fun x hx => Deed.refusal?_eq_some_iff.2 ⟨e, hmem x hx, rfl⟩
    | ok u =>
      rw [hread] at hmem
      have hnone : ((j.files.filter (·.same f)).filterMap fun x =>
          Deed.refusal? fs x.dumpOf) = [] :=
        List.filterMap_eq_nil_iff.2 fun x hx => by rw [Deed.refusal?, hmem x hx]; rfl
      rw [hnone, List.nil_append, List.filterMap_eq_map_iff_forall_eq_some]
      exact fun x hx => by rw [hmem x hx]; rfl
  · intro x hx d hd
    cases hread : Dump.read fs x.dumpOf with
    | error e => simp [hread, Except.toOption] at hd
    | ok u =>
      have hd' : Deed.audit (p.contextOf fs j.files) u = d := by
        simpa [hread, Except.toOption] using hd
      rw [← hd']
      exact Dump.path_of_read (hnamed x hx) hread
  · intro x hx d hd
    obtain ⟨e, _, rfl⟩ := Deed.refusal?_eq_some_iff.1 hd
    exact (hnamed x hx).sourceOf_dumpOf

theorem deedsIn_about (hp : p.filter = []) (hnamed : ∀ x ∈ g.files, x.Named) (hf : f.Named)
    (hfile : fs.isFile f.dumpOf = true) :
    ((p.jobsIn g).flatMap (p.deedsOf fs)).filter (·.source.same f) =
      (g.files.filter (·.same f)).map fun q =>
        deedFor (p.contextIn fs g q) q (Dump.read fs f.dumpOf) := by
  by_cases hone : g.oneAtATime = true
  · have hall : p.wants = fun _ => true := funext (wants_of_no_filter hp)
    have hcontext : ∀ q, p.contextIn fs g q = p.contextOf fs [q] := fun q => by
      rw [contextIn, if_pos hone]
    simp only [jobsIn, if_pos hone, hall, List.filter_true, List.flatMap_map, hcontext]
    generalize g.files = files at hnamed
    induction files with
    | nil => rfl
    | cons x files ih =>
      have hx := deedsOf_about (j := ⟨g.name, [x]⟩) hp
        (fun y hy => by rw [List.mem_singleton.1 hy]; exact hnamed x List.mem_cons_self) hf hfile
      have hrest := ih fun y hy => hnamed y (List.mem_cons_of_mem x hy)
      rw [List.flatMap_cons, List.filter_append, hx, hrest, List.filter_cons, List.filter_cons]
      split <;> rfl
  · have hcontext : ∀ q, p.contextIn fs g q = p.contextOf fs g.files := fun q => by
      rw [contextIn, if_neg hone]
    simp only [jobsIn, if_neg hone, hcontext]
    have hsel : g.isSelected p.filter = true := by simp [FileGroup.isSelected, hp]
    rw [hsel, Bool.and_true]
    cases hfiles : g.files with
    | nil => rfl
    | cons x files =>
      rw [hfiles] at hnamed
      have hjob := deedsOf_about (j := ⟨g.name, x :: files⟩) hp hnamed hf hfile
      simpa using hjob

theorem deeds_about (hwell : fs.tree.wellNamed = true) (hp : p.filter = []) (hf : f.Named)
    (hfile : fs.isFile f.dumpOf = true) :
    (p.deeds fs).filter (·.source.same f) =
      firstsOf Deed.key ((p.groups fs).flatMap fun g => (g.files.filter (·.same f)).map fun q =>
        deedFor (p.contextIn fs g q) q (Dump.read fs f.dumpOf)) := by
  have hkey : ∀ d d' : Deed, d.key = d'.key → d.source.same f = d'.source.same f := by
    intro d d' h
    rw [Path.same, Path.same, Deed.source_of_key h]
  rw [deeds, filter_firstsOf hkey, agenda, jobs_eq, List.flatMap_assoc, List.filter_flatMap]
  congr 1
  refine List.flatMap_congr fun g hg => ?_
  exact deedsIn_about hp (fun x hx => named_of_mem_groups hwell hg hx) hf hfile

/-- `g` is the first group that holds `f`, and `q` is how it writes `f` first. -/
def FirstHolder (groups : List FileGroup) (f : Path) (g : FileGroup) (q : Path) : Prop :=
  ∃ before after, groups = before ++ g :: after ∧ (∀ h ∈ before, f.isIn h.files = false) ∧
    g.files.find? (·.same f) = some q

theorem exists_firstHolder {groups : List FileGroup} (h : ∃ g ∈ groups, f.isIn g.files = true) :
    ∃ g q, FirstHolder groups f g q := by
  induction groups with
  | nil =>
    obtain ⟨g, hg, _⟩ := h
    cases hg
  | cons g groups ih =>
    by_cases hholds : f.isIn g.files = true
    · obtain ⟨q, hq, hfq⟩ := Path.isIn_iff.1 hholds
      cases hfind : g.files.find? (·.same f) with
      | none =>
        have hnot := List.find?_eq_none.1 hfind q hq
        exact absurd (Path.same_iff.2 hfq.symm) hnot
      | some q => exact ⟨g, q, [], groups, rfl, by simp, hfind⟩
    · have hlater : ∃ g ∈ groups, f.isIn g.files = true := by
        obtain ⟨g', hg', hf⟩ := h
        cases List.mem_cons.1 hg' with
        | inl heq => exact absurd (heq ▸ hf) hholds
        | inr hmem => exact ⟨g', hmem, hf⟩
      obtain ⟨g', q, before, after, hsplit, hbefore, hfind⟩ := ih hlater
      refine ⟨g', q, g :: before, after, by rw [hsplit]; rfl, ?_, hfind⟩
      intro h hh
      cases List.mem_cons.1 hh with
      | inl heq => rw [heq]; simpa using hholds
      | inr hmem => exact hbefore h hmem

theorem FirstHolder.head? {groups : List FileGroup} (h : FirstHolder groups f g q)
    (make : FileGroup → Path → Deed) :
    (groups.flatMap fun g => (g.files.filter (·.same f)).map (make g)).head? = some (make g q) := by
  obtain ⟨before, after, rfl, hbefore, hfind⟩ := h
  have hnone : (before.flatMap fun g => (g.files.filter (·.same f)).map (make g)) = [] := by
    refine List.flatMap_eq_nil_iff.2 fun g' hg' => ?_
    rw [List.map_eq_nil_iff, List.filter_eq_nil_iff]
    intro x hx hxf
    have hin : f.isIn g'.files = true := Path.isIn_iff.2 ⟨x, hx, (Path.same_iff.1 hxf).symm⟩
    rw [hbefore g' hg'] at hin
    cases hin
  rw [List.flatMap_append, hnone, List.nil_append, List.flatMap_cons, List.head?_append,
    List.head?_map, List.head?_filter, hfind]
  rfl

/-- A source whose dump loads is audited once, in the first group that holds it. -/
theorem deeds_of_loaded (hwell : fs.tree.wellNamed = true) (hp : p.filter = []) (hf : f.Named)
    (hread : Dump.read fs f.dumpOf = .ok u) (hfirst : FirstHolder (p.groups fs) f g q) :
    (p.deeds fs).filter (·.source.same f) =
      [.audit (p.contextIn fs g q) { u with dumpPath := q.dumpOf }] := by
  rw [deeds_about hwell hp hf (Dump.isFile_of_read hread), hread]
  have hkey : ∀ d ∈ (p.groups fs).flatMap (fun g => (g.files.filter (·.same f)).map fun q =>
      deedFor (p.contextIn fs g q) q (.ok u)), d.key = .inr f.components := by
    intro d hd
    obtain ⟨g', hg', hd⟩ := List.mem_flatMap.1 hd
    obtain ⟨x, hx, rfl⟩ := List.mem_map.1 hd
    obtain ⟨hx, hxf⟩ := List.mem_filter.1 hx
    have hpath : x.dumpOf.sourceOf = x := (named_of_mem_groups hwell hg' hx).sourceOf_dumpOf
    rw [deedFor, Deed.key, SourceUnit.path, hpath, Path.same_iff.1 hxf]
  rw [firstsOf_of_key hkey, hfirst.head? fun g q => deedFor (p.contextIn fs g q) q (.ok u)]
  rfl

def spellings (p : Project) (fs : FileSystem) (f : Path) : List Path :=
  firstsOf id (((p.groups fs).flatMap FileGroup.files).filter (·.same f))

theorem spellings_ne_nil (h : ∃ g ∈ p.groups fs, f.isIn g.files = true) :
    p.spellings fs f ≠ [] := by
  obtain ⟨g, hg, hf⟩ := h
  obtain ⟨q, hq, hfq⟩ := Path.isIn_iff.1 hf
  have hmem : q ∈ ((p.groups fs).flatMap FileGroup.files).filter (·.same f) :=
    List.mem_filter.2 ⟨List.mem_flatMap.2 ⟨g, hg, hq⟩, Path.same_iff.2 hfq.symm⟩
  have hkey : q ∈ (p.spellings fs f).map id := mem_map_firstsOf.2 (List.mem_map_of_mem hmem)
  intro hnil
  rw [hnil] at hkey
  cases hkey

theorem named_of_mem_spelled (hwell : fs.tree.wellNamed = true)
    (h : q ∈ ((p.groups fs).flatMap FileGroup.files).filter (·.same f)) : q.Named := by
  obtain ⟨g, hg, hq⟩ := List.mem_flatMap.1 (List.mem_of_mem_filter h)
  exact named_of_mem_groups hwell hg hq

theorem key_faultFinding_iff {x y : Path} (hx : x.Named) (hy : y.Named) :
    (Dump.faultFinding x.dumpOf e).key = (Dump.faultFinding y.dumpOf e).key ↔ x = y := by
  constructor
  · intro h
    have hmessage : e.message x.dumpOf = e.message y.dumpOf := congrArg (fun k => k.2.2.2.2) h
    rw [← hx.sourceOf_dumpOf, DumpFault.eq_of_message hmessage, hy.sourceOf_dumpOf]
  · intro h
    rw [h]

/-- A dump that cannot be used is refused once for each way the groups write its source. -/
theorem deeds_of_refused (hwell : fs.tree.wellNamed = true) (hp : p.filter = []) (hf : f.Named)
    (hfile : fs.isFile f.dumpOf = true) (hread : Dump.read fs f.dumpOf = .error e) :
    (p.deeds fs).filter (·.source.same f) =
      (p.spellings fs f).map fun q => .refuse q.dumpOf e := by
  have hlist : ((p.groups fs).flatMap fun g => (g.files.filter (·.same f)).map fun q =>
      deedFor (p.contextIn fs g q) q (.error e)) =
      (((p.groups fs).flatMap FileGroup.files).filter (·.same f)).map fun q =>
        Deed.refuse q.dumpOf e := by
    rw [List.filter_flatMap, List.map_flatMap]
    rfl
  rw [deeds_about hwell hp hf hfile, hread, hlist]
  refine firstsOf_map_congr fun x hx y hy => ?_
  have hkeys := key_faultFinding_iff (e := e) (named_of_mem_spelled hwell hx)
    (named_of_mem_spelled hwell hy)
  simpa [Deed.key] using hkeys

theorem firstsOf_map_spellings (hwell : fs.tree.wellNamed = true) (f : Path) (e : DumpFault) :
    firstsOf Finding.key ((p.spellings fs f).map fun q => Dump.faultFinding q.dumpOf e) =
      (p.spellings fs f).map fun q => Dump.faultFinding q.dumpOf e := by
  have hfirsts : firstsOf id (p.spellings fs f) = p.spellings fs f := firstsOf_firstsOf _
  have hmap : firstsOf Finding.key ((p.spellings fs f).map fun q => Dump.faultFinding q.dumpOf e) =
      (firstsOf id (p.spellings fs f)).map fun q => Dump.faultFinding q.dumpOf e :=
    firstsOf_map_congr fun x hx y hy => key_faultFinding_iff
      (named_of_mem_spelled hwell (mem_of_mem_firstsOf hx))
      (named_of_mem_spelled hwell (mem_of_mem_firstsOf hy))
  rw [hmap, hfirsts]

theorem audits_about (p : Project) (fs : FileSystem) (f : Path) :
    (p.audits fs).filter (·.2.path.same f) =
      ((p.deeds fs).filter (·.source.same f)).filterMap Deed.planned? := by
  rw [audits_eq]
  induction p.deeds fs with
  | nil => rfl
  | cons d ds ih =>
    cases d with
    | refuse dump e =>
      rw [List.filter_cons]
      split
      · exact ih
      · exact ih
    | audit g u =>
      have hcons : (Deed.audit g u :: ds).filterMap Deed.planned? =
          (g, u) :: ds.filterMap Deed.planned? := rfl
      rw [hcons, List.filter_cons, List.filter_cons, ih]
      by_cases hsame : u.path.same f = true
      · rw [if_pos hsame, Deed.source, if_pos hsame]
        rfl
      · rw [if_neg hsame, Deed.source, if_neg hsame]

theorem findings_about (hfront : p.frontEnd = none) (f : Path) :
    (p.run fs).1.run.findings.filter (·.file.same f) =
      firstsOf Finding.key
        (((p.deeds fs).filter (·.source.same f)).flatMap (Deed.findings p.settings)) := by
  have h : (p.run fs).1.run.findings.filter (·.file.isIn [f]) = _ := filter_findings_run hfront
  simpa only [Path.isIn_singleton] using h

/-- No source is left out by a run, and none is audited twice. -/
structure CoversSources (fs : FileSystem) (p : Project) : Prop where
  /-- The run comes to its end, and attempts all that its jobs call for, in order. -/
  attempted : p.run fs = (⟨(p.agenda fs).foldl (Deed.attempt p.settings) .start, []⟩, none)
  held : ∀ f, p.HasSource fs f → ∃ g ∈ p.groups fs, f.isIn g.files = true
  /-- A source whose dump loads is audited once, with what the first group that holds it knows, and
  nothing else is said about it. -/
  audited : ∀ f u, p.HasSource fs f → Dump.read fs f.dumpOf = .ok u →
    ∃ g q, FirstHolder (p.groups fs) f g q ∧
      (p.audits fs).filter (·.2.path.same f) =
        [(p.contextIn fs g q, { u with dumpPath := q.dumpOf })] ∧
      (p.run fs).1.run.findings.filter (·.file.same f) =
        firstsOf Finding.key
          (SourceUnit.raised p.settings (p.contextIn fs g q) { u with dumpPath := q.dumpOf })
  /-- A dump that is there and does not load is told once for each way the groups write its source,
  and nothing else is said about that source. -/
  refused : ∀ f e, p.HasSource fs f → fs.isFile f.dumpOf = true →
    Dump.read fs f.dumpOf = .error e →
    p.spellings fs f ≠ [] ∧ (p.audits fs).filter (·.2.path.same f) = [] ∧
      (p.run fs).1.run.findings.filter (·.file.same f) =
        (p.spellings fs f).map fun q => Dump.faultFinding q.dumpOf e

/-- A full run covers the sources of the project, as long as what is written to lie in the
multipatch folder lies there. -/
theorem run_coversSources (fs : FileSystem) (settings : Settings) (root : Path) (p : Project)
    (hwell : fs.tree.wellNamed = true) (hproject : Project.ofRoot fs settings root = .ok p)
    (hclear : p.ClearMultipatch fs) : CoversSources fs p := by
  obtain ⟨hfilter, hfront, hroot⟩ := ofRoot_spec hproject
  have hheld (f : Path) (hf : p.HasSource fs f) := hf.held hwell hroot hclear
  refine ⟨run_eq fs hfront, hheld, ?_, ?_⟩
  · intro f u hf hread
    obtain ⟨g, q, hfirst⟩ := exists_firstHolder (hheld f hf)
    have hdeeds := deeds_of_loaded hwell hfilter (hf.named hwell) hread hfirst
    refine ⟨g, q, hfirst, ?_, ?_⟩
    · rw [audits_about, hdeeds]
      rfl
    · rw [findings_about hfront, hdeeds, List.flatMap_singleton]
      rfl
  · intro f e hf hfile hread
    have hdeeds := deeds_of_refused hwell hfilter (hf.named hwell) hfile hread
    refine ⟨spellings_ne_nil (hheld f hf), ?_, ?_⟩
    · rw [audits_about, hdeeds, List.filterMap_map]
      exact List.filterMap_eq_nil_iff.2 fun q _ => rfl
    · rw [findings_about hfront, hdeeds, List.flatMap_map]
      exact (congrArg (firstsOf Finding.key) List.map_eq_flatMap.symm).trans
        (firstsOf_map_spellings hwell f e)

theorem nestedProject_clearMultipatch : nestedProject.ClearMultipatch nestedTree where
  noFile q hq := by
    have hfolder : nestedTree.place ⟨"/work/tests/multipatch"⟩ =
        .ok ["work", "tests", "multipatch"] := rfl
    rw [← Bool.not_eq_true]
    intro hfile
    obtain ⟨here, bytes, hplace, hget⟩ := FileSystem.place_of_isFile hfile
    obtain rfl := FileSystem.place_unique hq hplace hfolder
    cases hget
  noWayOut := by decide +kernel

/-- The multipatch folder lies in a project folder, and the library belongs to every group. -/
theorem run_coversSources_nested :
    nestedTree.tree.wellNamed = true ∧
      Project.ofRoot nestedTree .standard ⟨"."⟩ = .ok nestedProject ∧
      nestedProject.ClearMultipatch nestedTree ∧ CoversSources nestedTree nestedProject :=
  ⟨by decide +kernel, rfl, nestedProject_clearMultipatch,
    run_coversSources nestedTree .standard ⟨"."⟩ nestedProject (by decide +kernel) rfl
      nestedProject_clearMultipatch⟩

/-- Two sources with dumps that cannot be read, and an empty folder beside them. -/
def strayTree : FileSystem where
  tree := .folder [("work", .folder
    [("src", .folder [("a.cpp", emptyFile), ("a.cpp.dump", brokenDump)]),
      ("tests", .folder []),
      ("lib", .folder
        [("geometryX", .folder []), ("b.cpp", emptyFile), ("b.cpp.dump", brokenDump)])])]
  folder := ["work"]

def straySettings (projectFolders : List String) (multipatchFolder : String) : Settings :=
  { Settings.standard with projectFolders, multipatchFolder }

def strayProject (projectFolders : List String) (multipatchFolder : String) : Project :=
  ⟨straySettings projectFolders multipatchFolder, ⟨"/work"⟩, [], none⟩

/-- `f` is a source whose dump is there and cannot be read, and a run tells so `n` times. -/
def ToldBroken (p : Project) (fs : FileSystem) (f : Path) (n : Nat) : Prop :=
  p.HasSource fs f ∧ fs.isFile f.dumpOf = true ∧
    Dump.read fs f.dumpOf = .error (.unreadable .notText) ∧
    ((p.run fs).1.run.findings.countP fun x => x.check == .structural && x.file.same f) = n

/-- The folders of a project are taken as they are written. A source is left out when its folder is
written with a detour through the multipatch folder, or when the multipatch folder is its own path
with a slash after it. Its broken dump is told twice when two spellings of its folder end up in two
groups. In no case does the multipatch folder name a file. -/
theorem broken_dump_untold_or_told_twice :
    strayTree.tree.wellNamed = true ∧
      (Project.ofRoot strayTree (straySettings ["tests/../src"] "tests") ⟨"."⟩ =
          .ok (strayProject ["tests/../src"] "tests") ∧
        strayTree.isFile ⟨"/work/tests"⟩ = false ∧
        ToldBroken (strayProject ["tests/../src"] "tests") strayTree
          ⟨"/work/tests/../src/a.cpp"⟩ 0) ∧
      (Project.ofRoot strayTree (straySettings ["src"] "src/a.cpp/") ⟨"."⟩ =
          .ok (strayProject ["src"] "src/a.cpp/") ∧
        strayTree.isFile ⟨"/work/src/a.cpp/"⟩ = false ∧
        ToldBroken (strayProject ["src"] "src/a.cpp/") strayTree ⟨"/work/src/a.cpp"⟩ 0) ∧
      (Project.ofRoot strayTree (straySettings ["lib", "./lib"] "tests") ⟨"."⟩ =
          .ok (strayProject ["lib", "./lib"] "tests") ∧
        strayTree.isFile ⟨"/work/tests"⟩ = false ∧
        ToldBroken (strayProject ["lib", "./lib"] "tests") strayTree ⟨"/work/lib/b.cpp"⟩ 2) := by
  refine ⟨by decide +kernel, ⟨rfl, rfl, ?_⟩, ⟨rfl, rfl, ?_⟩, ⟨rfl, rfl, ?_⟩⟩
  · refine ⟨.inr ⟨"tests/../src", List.mem_cons_self, ?_⟩, rfl, rfl, by decide +kernel⟩
    exact ⟨["work", "src"], ["a.cpp"], ⟨#[]⟩, rfl, by simp, rfl, rfl, by decide +kernel⟩
  · refine ⟨.inr ⟨"src", List.mem_cons_self, ?_⟩, rfl, rfl, by decide +kernel⟩
    exact ⟨["work", "src"], ["a.cpp"], ⟨#[]⟩, rfl, by simp, rfl, rfl, by decide +kernel⟩
  · refine ⟨.inr ⟨"lib", List.mem_cons_self, ?_⟩, rfl, rfl, by decide +kernel⟩
    exact ⟨["work", "lib"], ["b.cpp"], ⟨#[]⟩, rfl, by simp, rfl, rfl, by decide +kernel⟩

end Project

end SpaceAudit
