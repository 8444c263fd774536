import Mathlib.Data.List.Pairwise
import SpaceAudit.Proofs.Project.SortedSets

/-! Which groups hold a source is decided by where the source lies, if the folders of the project
are written with names only and lie apart: by the multipatch folder, by the folder of a geometry,
and by the place of its project folder among the others. -/
namespace SpaceAudit

namespace Groups
variable {fs : FileSystem} {settings : Settings} {root f multipatch folder : Path} {sets : Sets}
  {files : List Path} {n name : String}

def InSet (sets : Sets) (name : String) (f : Path) : Prop :=
  ∃ s ∈ sets, s.1 = name ∧ f.isIn s.2 = true

theorem isIn_addAll {others : List Path} :
    f.isIn (addAll files others) = true ↔ f.isIn files = true ∨ f.isIn others = true := by
  rw [(keeps_addAll files others).isIn_iff, Path.isIn_append]

theorem inSet_cons {s : String × List Path} :
    InSet (s :: sets) n f ↔ (s.1 = n ∧ f.isIn s.2 = true) ∨ InSet sets n f := by
  simp [InSet]

theorem inSet_add :
    InSet (add name files sets) n f ↔ InSet sets n f ∨ (name = n ∧ f.isIn files = true) := by
  have hnew : f.isIn (addAll files []) = true ↔ f.isIn files = true := by
    rw [isIn_addAll]
    simp [Path.isIn]
  induction sets with
  | nil => simp [add, hnew, InSet]
  | cons entry rest ih =>
    obtain ⟨m, set⟩ := entry
    unfold add
    split
    · rw [inSet_cons, hnew, or_comm]
    · split
      · rename_i hname
        rw [inSet_cons, inSet_cons, isIn_addAll, hname, and_or_left, or_assoc, or_comm]
      · simp only [inSet_cons, ih, or_assoc]

theorem Proper.isIn_iff {s : String × List Path} (h : Proper sets) (hs : s ∈ sets) :
    f.isIn s.2 = true ↔ InSet sets s.1 f := by
  constructor
  · intro hf
    exact ⟨s, hs, rfl, hf⟩
  · rintro ⟨t, ht, hname, hf⟩
    exact h.eq_of_name ht hs hname ▸ hf

theorem isIn_left_takes (gs : List (String × Path)) (p : Partition) :
    f.isIn (gs.foldl Partition.take p).left = true ↔
      f.isIn p.left = true ∧ ∀ g ∈ gs, f.startsWith g.2 = false := by
  induction gs generalizing p with
  | nil => simp
  | cons g gs ih =>
    have hstep : f.isIn (p.take g).left = true ↔
        f.isIn p.left = true ∧ (!f.startsWith g.2) = true :=
      Path.isIn_filter fun q hq => by rw [Path.startsWith_congr hq.symm]
    rw [List.foldl_cons, ih, hstep]
    simp [and_assoc]

theorem inSet_takes {gs : List (String × Path)}
    (hone : gs.Pairwise fun g g' => f.startsWith g'.2 = true → f.startsWith g.2 = false)
    (p : Partition) :
    InSet (gs.foldl Partition.take p).sets n f ↔
      InSet p.sets n f ∨
        (f.isIn p.left = true ∧ ∃ g ∈ gs, g.1 = n ∧ f.startsWith g.2 = true) := by
  induction gs generalizing p with
  | nil => simp
  | cons g gs ih =>
    obtain ⟨hg, hgs⟩ := List.pairwise_cons.1 hone
    have hleft := isIn_left_takes (f := f) [g] p
    have hset : InSet (p.take g).sets n f ↔
        InSet p.sets n f ∨ (g.1 = n ∧ f.isIn p.left = true ∧ f.startsWith g.2 = true) := by
      rw [Partition.take, inSet_add, Path.isIn_filter fun q hq => Path.startsWith_congr hq.symm]
    simp only [List.foldl_cons, List.foldl_nil, List.mem_singleton, forall_eq] at hleft
    rw [List.foldl_cons, ih hgs, hset, hleft]
    constructor
    · rintro ((h | ⟨hname, hin, hstarts⟩) | ⟨⟨hin, _⟩, g', hg', hname, hstarts⟩)
      · exact .inl h
      · exact .inr ⟨hin, g, List.mem_cons_self, hname, hstarts⟩
      · exact .inr ⟨hin, g', List.mem_cons_of_mem g hg', hname, hstarts⟩
    · rintro (h | ⟨hin, g', hg', hname, hstarts⟩)
      · exact .inl (.inl h)
      · cases List.mem_cons.1 hg' with
        | inl hsame => exact .inl (.inr ⟨hsame ▸ hname, hin, hsame ▸ hstarts⟩)
        | inr hg' => exact .inr ⟨⟨hin, hg g' hg' hstarts⟩, g', hg', hname, hstarts⟩

/-- `f` is a source of the project folder that lies outside the multipatch folder, in the folder of
the geometry that is given or in that of none. -/
def Falls (multipatch folder f : Path) (geometry : Option String) : Prop :=
  f.startsWith multipatch = false ∧
    ∃ names, names ≠ [] ∧ f.Extends folder names ∧ FileSystem.geometryOf? names = geometry

section Source
variable (hwell : fs.tree.wellNamed = true) (hf : fs.IsSource f)
include hwell hf

theorem isIn_outside_iff (hfolder : folder.text ≠ "") :
    f.isIn (outside fs multipatch folder) = true ↔
      f.startsWith multipatch = false ∧ f.LiesIn folder := by
  have hfilter : f.isIn (outside fs multipatch folder) = true ↔
      f.isIn (fs.sources folder) = true ∧ (!f.startsWith multipatch) = true :=
    Path.isIn_filter fun q hq => by rw [Path.startsWith_congr hq.symm]
  rw [hfilter, FileSystem.isIn_sources_iff hwell hfolder hf, Bool.not_eq_true', and_comm]

theorem isIn_left_part_iff (hfolder : folder.text ≠ "") :
    f.isIn (part fs multipatch folder sets).left = true ↔ Falls multipatch folder f none := by
  have hleft := isIn_left_takes (f := f) (fs.geometries folder)
    ⟨sets, outside fs multipatch folder⟩
  rw [isIn_outside_iff hwell hf hfolder] at hleft
  refine hleft.trans ?_
  constructor
  · rintro ⟨⟨hout, names, hne, hnames⟩, hnone⟩
    refine ⟨hout, names, hne, hnames, ?_⟩
    rw [Option.eq_none_iff_forall_ne_some]
    intro name hname
    obtain ⟨g, hg, rfl⟩ := FileSystem.exists_geometry hfolder hf.file hnames hname
    have hstarts :=
      (FileSystem.startsWith_geometry_iff hwell hfolder hf.file hnames hne hg).2 hname
    rw [hnone g hg] at hstarts
    cases hstarts
  · rintro ⟨hout, names, hne, hnames, hnone⟩
    refine ⟨⟨hout, names, hne, hnames⟩, fun g hg => ?_⟩
    rw [← Bool.not_eq_true,
      FileSystem.startsWith_geometry_iff hwell hfolder hf.file hnames hne hg, hnone]
    simp

theorem inSet_part_iff (hfolder : folder.text ≠ "") :
    InSet (part fs multipatch folder sets).sets n f ↔
      InSet sets n f ∨ Falls multipatch folder f (some n) := by
  have hnames {names : List String} (hne : names ≠ []) (h : f.Extends folder names)
      {g : String × Path} (hg : g ∈ fs.geometries folder) :=
    FileSystem.startsWith_geometry_iff hwell hfolder hf.file h hne hg
  have htakes := inSet_takes (n := n) (FileSystem.pairwise_geometries hwell hfolder f)
    ⟨sets, outside fs multipatch folder⟩
  rw [isIn_outside_iff hwell hf hfolder] at htakes
  refine htakes.trans (or_congr_right ?_)
  constructor
  · rintro ⟨⟨hout, names, hne, h⟩, g, hg, rfl, hstarts⟩
    exact ⟨hout, names, hne, h, (hnames hne h hg).1 hstarts⟩
  · rintro ⟨hout, names, hne, h, hgeometry⟩
    obtain ⟨g, hg, rfl⟩ := FileSystem.exists_geometry hfolder hf.file h hgeometry
    exact ⟨⟨hout, names, hne, h⟩, g, hg, rfl, (hnames hne h hg).2 hgeometry⟩

theorem inSet_collect_iff {folders : List Path} (hfolders : ∀ folder ∈ folders, folder.text ≠ "") :
    InSet (collect fs multipatch sets folders) n f ↔
      InSet sets n f ∨ ∃ folder ∈ folders, Falls multipatch folder f (some n) ∨
        (general = n ∧ Falls multipatch folder f none) := by
  induction folders generalizing sets with
  | nil => simp [collect]
  | cons folder folders ih =>
    have hfolder := hfolders folder List.mem_cons_self
    have hcons : collect fs multipatch sets (folder :: folders) =
      collect fs multipatch (add general (part fs multipatch folder sets).left
        (part fs multipatch folder sets).sets) folders := rfl
    rw [hcons, ih fun q hq => hfolders q (List.mem_cons_of_mem folder hq), inSet_add,
      inSet_part_iff hwell hf hfolder, isIn_left_part_iff hwell hf hfolder]
    simp only [List.exists_mem_cons_iff, or_assoc]

theorem inSet_partition_iff {folders : List Path}
    (hfolders : ∀ folder ∈ folders, folder.text ≠ "") :
    InSet (partition fs multipatch folders).sets n f ↔
      (∃ folder ∈ folders, Falls multipatch folder f (some n)) ∨
        (general = n ∧ ∃ folder ∈ folders.tail, Falls multipatch folder f none) := by
  cases folders with
  | nil => simp [partition, InSet]
  | cons first folders =>
    have hsets : InSet (partition fs multipatch (first :: folders)).sets n f ↔
        InSet (collect fs multipatch (part fs multipatch first []).sets folders) n f := by
      unfold partition
      simp only
      split
      · rename_i h
        simp only [Bool.and_eq_true, List.isEmpty_iff] at h
        simp [h.1, InSet, Path.isIn]
      · rfl
    have hnone : ¬ InSet [] n f := by simp [InSet]
    rw [hsets, inSet_collect_iff hwell hf fun q hq => hfolders q (List.mem_cons_of_mem first hq),
      inSet_part_iff hwell hf (hfolders first List.mem_cons_self), or_iff_right hnone,
      List.exists_mem_cons_iff, or_assoc, List.tail_cons]
    refine or_congr_right ?_
    simp only [and_or_left, exists_or, ← exists_and_left, and_left_comm]

theorem isIn_left_partition_iff {first : Path} {folders : List Path} (hfirst : first.text ≠ "") :
    f.isIn (partition fs multipatch (first :: folders)).left = true ↔
      Falls multipatch first f none := by
  unfold partition
  simp only
  split
  · exact isIn_left_part_iff hwell hf hfirst
  · exact isIn_left_part_iff hwell hf hfirst

/-- A group of a set holds what is left of the first folder, what lies in its geometry, and, if it
is the general one, what is left of the other folders. -/
theorem isIn_addAll_left_iff {folders : List String} {s : String × List Path}
    (hfolders : ∀ a ∈ folders, (root.child a).text ≠ "")
    (hs : s ∈ (partition fs multipatch (folders.map root.child)).sets) :
    f.isIn (addAll (partition fs multipatch (folders.map root.child)).left s.2) = true ↔
      (∃ a, folders.head? = some a ∧ Falls multipatch (root.child a) f none) ∨
      (∃ a ∈ folders, Falls multipatch (root.child a) f (some s.1)) ∨
      (general = s.1 ∧ ∃ a ∈ folders.tail, Falls multipatch (root.child a) f none) := by
  have hall : ∀ folder ∈ folders.map root.child, folder.text ≠ "" :=
    List.forall_mem_map.2 hfolders
  have hleft : f.isIn (partition fs multipatch (folders.map root.child)).left = true ↔
      ∃ a, folders.head? = some a ∧ Falls multipatch (root.child a) f none := by
    cases folders with
    | nil => simp [partition, Path.isIn]
    | cons first others =>
      rw [List.map_cons, isIn_left_partition_iff hwell hf (hfolders first List.mem_cons_self)]
      simp
  rw [isIn_addAll, (Proper.partition _).isIn_iff hs, inSet_partition_iff hwell hf hall, hleft,
    ← List.map_tail]
  simp only [List.mem_map, exists_exists_and_eq_and]

end Source

/-- The folders of a project are written with names only, and no project folder lies in another.
The multipatch folder is a folder or not there: no spelling of it, with or without a slash at the
end, names a file. -/
structure PlainLayout (fs : FileSystem) (settings : Settings) (root : Path) : Prop where
  folders : ∀ folder ∈ settings.projectFolders, Path.Plain ⟨folder⟩
  apart : settings.projectFolders.Pairwise fun a b =>
    (⟨a⟩ : Path).startsWith ⟨b⟩ = false ∧ (⟨b⟩ : Path).startsWith ⟨a⟩ = false
  multipatch : Path.Plain ⟨settings.multipatchFolder⟩
  noFile : ∀ q : Path, q.components = (root.child settings.multipatchFolder).components →
    fs.isFile q = false

namespace PlainLayout
variable {a b : String} {names : List String}

theorem text_folder (h : PlainLayout fs settings root) :
    ∀ a ∈ settings.projectFolders, (root.child a).text ≠ "" :=
  fun a ha => (h.folders a ha).text_child root

theorem startsWith_iff (h : PlainLayout fs settings root) (hf : fs.IsSource f)
    (ha : a ∈ settings.projectFolders) (hin : f.LiesIn (root.child a)) :
    f.startsWith (root.child settings.multipatchFolder) = true ↔
      f.LiesIn (root.child settings.multipatchFolder) := by
  refine ⟨fun hstarts => ?_, Path.LiesIn.startsWith⟩
  obtain ⟨rest, hrest⟩ := Path.startsWith_iff.1 hstarts
  obtain ⟨names, _, hnames⟩ := hin
  obtain ⟨folderNames, _, hfolder⟩ := h.folders a ha
  obtain ⟨patchNames, _, hpatch⟩ := h.multipatch
  have hboth := hnames.symm.trans hrest
  rw [(h.folders a ha).components_child, h.multipatch.components_child, List.append_assoc,
    List.append_assoc, hfolder, hpatch, ← List.map_append] at hboth
  obtain ⟨_, more, _, _, rfl⟩ := List.map_eq_append_iff.1 (List.append_cancel_left hboth)
  refine ⟨more, ?_, hrest⟩
  rintro rfl
  have hnot := h.noFile f (by simpa using hrest)
  rw [hf.file] at hnot
  cases hnot

theorem eq_of_liesIn (h : PlainLayout fs settings root) (ha : a ∈ settings.projectFolders)
    (hb : b ∈ settings.projectFolders) (hfa : f.LiesIn (root.child a))
    (hfb : f.LiesIn (root.child b)) : a = b := by
  by_contra hne
  have hsymm : Std.Symm fun a b : String =>
      (⟨a⟩ : Path).startsWith ⟨b⟩ = false ∧ (⟨b⟩ : Path).startsWith ⟨a⟩ = false :=
    ⟨fun _ _ hab => hab.symm⟩
  obtain ⟨hab, hba⟩ := h.apart.forall ha hb hne
  obtain ⟨_, _, hfa⟩ := hfa
  obtain ⟨_, _, hfb⟩ := hfb
  have hboth := hfa.symm.trans hfb
  rw [(h.folders a ha).components_child, (h.folders b hb).components_child, List.append_assoc,
    List.append_assoc] at hboth
  cases List.append_eq_append_iff.1 (List.append_cancel_left hboth) with
  | inl hlonger =>
    obtain ⟨between, hb, _⟩ := hlonger
    rw [Path.startsWith_iff.2 ⟨between, hb⟩] at hba
    cases hba
  | inr hshorter =>
    obtain ⟨between, ha, _⟩ := hshorter
    rw [Path.startsWith_iff.2 ⟨between, ha⟩] at hab
    cases hab

theorem nodup (h : PlainLayout fs settings root) : settings.projectFolders.Nodup := by
  refine h.apart.imp fun {a b} hab hsame => ?_
  rw [hsame] at hab
  have hself : (⟨b⟩ : Path).startsWith ⟨b⟩ = true := Path.startsWith_iff.2 ⟨[], by simp⟩
  rw [hself] at hab
  cases hab.1

theorem falls_iff (h : PlainLayout fs settings root) (hf : fs.IsSource f)
    (hout : ¬ f.LiesIn (root.child settings.multipatchFolder)) (ha : a ∈ settings.projectFolders)
    (hnames : f.Extends (root.child a) names) (hne : names ≠ []) (geometry : Option String) :
    ∀ b ∈ settings.projectFolders,
      (Falls (root.child settings.multipatchFolder) (root.child b) f geometry ↔
        b = a ∧ FileSystem.geometryOf? names = geometry) := by
  intro b hb
  constructor
  · rintro ⟨_, more, hmore, hmoreNames, rfl⟩
    obtain rfl := h.eq_of_liesIn hb ha ⟨more, hmore, hmoreNames⟩ ⟨names, hne, hnames⟩
    exact ⟨rfl, by rw [hnames.names_eq hmoreNames]⟩
  · rintro ⟨rfl, rfl⟩
    refine ⟨?_, names, hne, hnames, rfl⟩
    rw [← Bool.not_eq_true, h.startsWith_iff hf hb ⟨names, hne, hnames⟩]
    exact hout

end PlainLayout

/-- What decides the groups of a source. -/
inductive Location where
  | multipatch
  | geometry (name : String)
  | library
  | general

/-- Which groups hold the sources of a location, by name. -/
def Location.Admits : Location → String → Prop
  | .multipatch, name => name = "multipatch"
  | .geometry own, name => name = own
  | .library, name => name ≠ "multipatch"
  | .general, name => name = Groups.general

/-- Where a source lies, as its path says. The multipatch folder comes first, then the folders of
geometries; what is left of the first project folder is the library. -/
inductive Lies (settings : Settings) (root f : Path) : Location → Prop where
  | multipatch (h : f.LiesIn (root.child settings.multipatchFolder)) :
      Lies settings root f .multipatch
  | geometry {folder name : String} {names : List String}
      (hout : ¬ f.LiesIn (root.child settings.multipatchFolder))
      (hfolder : folder ∈ settings.projectFolders) (hnames : f.Extends (root.child folder) names)
      (hname : FileSystem.geometryOf? names = some name) : Lies settings root f (.geometry name)
  | library {first : String} {others names : List String}
      (hout : ¬ f.LiesIn (root.child settings.multipatchFolder))
      (hfolders : settings.projectFolders = first :: others)
      (hnames : f.Extends (root.child first) names) (hne : names ≠ [])
      (hnone : FileSystem.geometryOf? names = none) : Lies settings root f .library
  | general {first folder : String} {others names : List String}
      (hout : ¬ f.LiesIn (root.child settings.multipatchFolder))
      (hfolders : settings.projectFolders = first :: others) (hfolder : folder ∈ others)
      (hnames : f.Extends (root.child folder) names) (hne : names ≠ [])
      (hnone : FileSystem.geometryOf? names = none) : Lies settings root f .general

theorem Lies.liesIn {l : Location} (h : Lies settings root f l) :
    f.LiesIn (root.child settings.multipatchFolder) ∨
      (¬ f.LiesIn (root.child settings.multipatchFolder) ∧
        ∃ folder ∈ settings.projectFolders, f.LiesIn (root.child folder)) := by
  cases h with
  | multipatch hin => exact .inl hin
  | geometry hout hfolder hnames hgeometry =>
    obtain ⟨_, more, _, hcons⟩ := FileSystem.geometryOf?_eq_some_iff.1 hgeometry
    exact .inr ⟨hout, _, hfolder, _, by simp [hcons], hnames⟩
  | library hout hfolders hnames hne =>
    exact .inr ⟨hout, _, hfolders ▸ List.mem_cons_self, _, hne, hnames⟩
  | general hout hfolders hother hnames hne =>
    exact .inr ⟨hout, _, hfolders ▸ List.mem_cons_of_mem _ hother, _, hne, hnames⟩

theorem exists_location_iff :
    (∃ l, Lies settings root f l) ↔
      f.LiesIn (root.child settings.multipatchFolder) ∨
        ∃ folder ∈ settings.projectFolders, f.LiesIn (root.child folder) := by
  constructor
  · rintro ⟨l, hl⟩
    exact hl.liesIn.imp id And.right
  · intro hin
    by_cases hout : f.LiesIn (root.child settings.multipatchFolder)
    · exact ⟨_, .multipatch hout⟩
    · obtain ⟨folder, hfolder, names, hne, hnames⟩ := hin.resolve_left hout
      cases hgeometry : FileSystem.geometryOf? names with
      | some name => exact ⟨_, .geometry hout hfolder hnames hgeometry⟩
      | none =>
        obtain ⟨first, others, hfolders⟩ := List.exists_cons_of_ne_nil (List.ne_nil_of_mem hfolder)
        rw [hfolders] at hfolder
        cases List.mem_cons.1 hfolder with
        | inl hfirst => exact ⟨_, .library hout hfolders (hfirst ▸ hnames) hne hgeometry⟩
        | inr hother => exact ⟨_, .general hout hfolders hother hnames hne hgeometry⟩

section Layout
variable {l : Location} {g : FileGroup} (h : PlainLayout fs settings root)
  (hwell : fs.tree.wellNamed = true) (hf : fs.IsSource f)
include h hwell hf

theorem isIn_set_iff (hl : Lies settings root f l) {s : String × List Path}
    (hs : s ∈ (partition fs (root.child settings.multipatchFolder)
      (settings.projectFolders.map root.child)).sets) :
    f.isIn (addAll (partition fs (root.child settings.multipatchFolder)
      (settings.projectFolders.map root.child)).left s.2) = true ↔ l.Admits s.1 := by
  have hname := (Proper.partition _).name_ne_multipatch hs
  rw [isIn_addAll_left_iff hwell hf h.text_folder hs]
  cases hl with
  | multipatch hin =>
    have hnever {a : String} {geometry : Option String} :
        ¬ Falls (root.child settings.multipatchFolder) (root.child a) f geometry := by
      rintro ⟨hout, _⟩
      rw [hin.startsWith] at hout
      cases hout
    simp [hnever, Location.Admits, hname]
  | geometry hout hfolder hnames hgeometry =>
    obtain ⟨_, more, _, hcons⟩ := FileSystem.geometryOf?_eq_some_iff.1 hgeometry
    have hfalls := h.falls_iff hf hout hfolder hnames (by simp [hcons])
    constructor
    · rintro (⟨a, ha, hleft⟩ | ⟨a, ha, hin⟩ | ⟨_, a, ha, hleft⟩)
      · have hnone := ((hfalls none a (List.mem_of_mem_head? ha)).1 hleft).2
        rw [hgeometry] at hnone
        cases hnone
      · have hsome := ((hfalls _ a ha).1 hin).2
        rw [hgeometry] at hsome
        exact (Option.some.inj hsome).symm
      · have hnone := ((hfalls none a (List.mem_of_mem_tail ha)).1 hleft).2
        rw [hgeometry] at hnone
        cases hnone
    · intro hown
      have hsome := hgeometry.trans (congrArg some hown.symm)
      exact .inr (.inl ⟨_, hfolder, (hfalls _ _ hfolder).2 ⟨rfl, hsome⟩⟩)
  | @library first others names hout hfolders hnames hne hnone =>
    have hfirst : first ∈ settings.projectFolders := hfolders ▸ List.mem_cons_self
    have hleft := (h.falls_iff hf hout hfirst hnames hne none first hfirst).2 ⟨rfl, hnone⟩
    exact iff_of_true (.inl ⟨first, by rw [hfolders, List.head?_cons], hleft⟩) hname
  | @general first folder others names hout hfolders hother hnames hne hnone =>
    have hfolder : folder ∈ settings.projectFolders :=
      hfolders ▸ List.mem_cons_of_mem first hother
    have hfalls := h.falls_iff hf hout hfolder hnames hne
    constructor
    · rintro (⟨a, ha, hleft⟩ | ⟨a, ha, hin⟩ | ⟨hgeneral, _⟩)
      · have hsame := ((hfalls none a (List.mem_of_mem_head? ha)).1 hleft).1
        rw [hfolders, List.head?_cons] at ha
        have hnew := (List.nodup_cons.1 (hfolders ▸ h.nodup)).1
        rw [Option.some.inj ha, hsame] at hnew
        exact absurd hother hnew
      · have hsome := ((hfalls _ a ha).1 hin).2
        rw [hnone] at hsome
        cases hsome
      · exact hgeneral.symm
    · intro hgeneral
      have hleft := (hfalls _ _ hfolder).2 ⟨rfl, hnone⟩
      exact .inr (.inr ⟨hgeneral.symm, folder, by rw [hfolders]; exact hother, hleft⟩)

/-- A group holds a source if and only if the source's location is one of the group's. -/
theorem isIn_group_iff (hl : Lies settings root f l) (hg : g ∈ discover fs settings root) :
    f.isIn g.files = true ↔ l.Admits g.name := by
  rcases mem_discover_iff.1 hg with ⟨_, rfl⟩ | ⟨s, hs, rfl⟩
  · rw [FileSystem.isIn_sources_iff hwell (h.multipatch.text_child root) hf]
    cases hl with
    | multipatch hin => exact iff_of_true hin rfl
    | geometry hout _ _ hgeometry =>
      refine iff_of_false hout fun hname => ?_
      have hkind := (FileSystem.geometryOf?_eq_some_iff.1 hgeometry).1
      rw [← show "multipatch" = _ from hname] at hkind
      revert hkind
      decide
    | library hout => exact iff_of_false hout fun hname => hname rfl
    | general hout => exact iff_of_false hout (by simp [Location.Admits, general])
  · exact isIn_set_iff h hwell hf hl hs

theorem exists_group (hl : Lies settings root f l) :
    ∃ g ∈ discover fs settings root, l.Admits g.name := by
  have hlisted : f.isIn (fs.sources (root.child settings.multipatchFolder) ++
      (settings.projectFolders.map root.child).flatMap
        (outside fs (root.child settings.multipatchFolder))) = true := by
    rw [Path.isIn_append, FileSystem.isIn_sources_iff hwell (h.multipatch.text_child root) hf]
    rcases hl.liesIn with hin | ⟨hout, folder, hfolder, hin⟩
    · exact .inl hin
    · rw [← h.startsWith_iff hf hfolder hin, Bool.not_eq_true] at hout
      have houtside := (isIn_outside_iff hwell hf (h.text_folder folder hfolder)).2 ⟨hout, hin⟩
      obtain ⟨q, hq, hsame⟩ := Path.isIn_iff.1 houtside
      exact .inr (Path.isIn_iff.2 ⟨q, List.mem_flatMap.2
        ⟨_, List.mem_map_of_mem hfolder, hq⟩, hsame⟩)
  obtain ⟨q, hq, hsame⟩ :=
    Path.isIn_iff.1 (((keeps_discover fs settings root).isIn_iff f).2 hlisted)
  obtain ⟨g, hg, hqg⟩ := List.mem_flatMap.1 hq
  exact ⟨g, hg, (isIn_group_iff h hwell hf hl hg).1 (Path.isIn_iff.2 ⟨q, hqg, hsame⟩)⟩

end Layout

theorem source_of_mem_group {g : FileGroup} (hwell : fs.tree.wellNamed = true)
    (hg : g ∈ discover fs settings root) (hf : f ∈ g.files) :
    fs.IsSource f ∧ ∃ l, Lies settings root f l := by
  rw [exists_location_iff]
  cases List.mem_append.1 ((keeps_discover fs settings root).drawn f
    (List.mem_flatMap.2 ⟨g, hg, hf⟩)) with
  | inl hpatch =>
    have hbelow := (FileSystem.mem_sources_iff hwell).1 hpatch
    exact ⟨hbelow.isSource hwell, .inl (hbelow.liesIn hwell)⟩
  | inr hfolders =>
    obtain ⟨dir, hdir, hmem⟩ := List.mem_flatMap.1 hfolders
    obtain ⟨folder, hfolder, rfl⟩ := List.mem_map.1 hdir
    have hbelow := (FileSystem.mem_sources_iff hwell).1 (List.mem_of_mem_filter hmem)
    exact ⟨hbelow.isSource hwell, .inr ⟨folder, hfolder, hbelow.liesIn hwell⟩⟩

/-- Where the folders of a project are plain and lie apart, the groups of a source are decided by
its location. Every source below the folders has a location, and a source's location has a group; a
group holds the sources whose location admits it, and nothing else. No two groups have one name, and
the files of each are strictly sorted. -/
theorem discover_byLocation (fs : FileSystem) (settings : Settings) (root : Path)
    (hwell : fs.tree.wellNamed = true) (h : PlainLayout fs settings root) :
    (∀ f, (∃ l, Lies settings root f l) ↔
      f.LiesIn (root.child settings.multipatchFolder) ∨
        ∃ folder ∈ settings.projectFolders, f.LiesIn (root.child folder)) ∧
    (∀ f l, fs.IsSource f → Lies settings root f l →
      (∃ g ∈ discover fs settings root, l.Admits g.name) ∧
        ∀ g ∈ discover fs settings root, f.isIn g.files = true ↔ l.Admits g.name) ∧
    (∀ g ∈ discover fs settings root, ∀ f ∈ g.files,
      fs.IsSource f ∧ ∃ l, Lies settings root f l) ∧
    ((discover fs settings root).map FileGroup.name).Nodup ∧
    ∀ g ∈ discover fs settings root, g.files.Pairwise fun p q => p.compare q = .lt := by
  refine ⟨fun f => exists_location_iff, fun f l hf hl => ?_, fun g hg f hf => ?_,
    nodup_names_discover settings root, fun g hg => ascending_files_discover hwell hg⟩
  · exact ⟨exists_group h hwell hf hl, fun g hg => isIn_group_iff h hwell hf hl hg⟩
  · exact source_of_mem_group hwell hg hf

/-- The multipatch folder lies in the folder of a geometry, another geometry's name starts in the
same way, and both project folders have that geometry. -/
def layeredTree : FileSystem where
  tree := .folder [("work", .folder
    [("src", .folder
        [("a.hpp", .file .empty),
          ("geometryXY", .folder
            [("b.cpp", .file .empty), ("patch", .folder [("c.cpp", .file .empty)])]),
          ("geometry", .folder [("d.hpp", .file .empty)])]),
      ("simulations", .folder
        [("geometryXY", .folder [("e.cpp", .file .empty)]), ("geometry.cpp", .file .empty)])])]
  folder := []

def layeredSettings : Settings :=
  { Settings.standard with
    projectFolders := ["src", "simulations/"], multipatchFolder := "src//geometryXY/patch" }

theorem layered_plain : PlainLayout layeredTree layeredSettings ⟨"/work"⟩ where
  folders folder hfolder := by
    have hcases : folder = "src" ∨ folder = "simulations/" := by
      simpa [layeredSettings] using hfolder
    rcases hcases with rfl | rfl
    · exact ⟨["src"], by decide, by decide +kernel⟩
    · exact ⟨["simulations"], by decide, by decide +kernel⟩
  apart := by decide +kernel
  multipatch := ⟨["src", "geometryXY", "patch"], by decide, by decide +kernel⟩
  noFile q hq := by
    have hfolder : layeredTree.place ⟨"/work/src//geometryXY/patch"⟩ =
        .ok ["work", "src", "geometryXY", "patch"] := rfl
    rw [← Bool.not_eq_true]
    intro hfile
    obtain ⟨here, bytes, hplace, hget⟩ := FileSystem.place_of_isFile hfile
    obtain rfl := FileSystem.place_unique hq hplace hfolder
    cases hget

/-- The multipatch folder comes before the geometry around it, a geometry has the files of both
folders, and a file that is called like a geometry is none. -/
theorem discover_byLocation_layered :
    layeredTree.tree.wellNamed = true ∧
      PlainLayout layeredTree layeredSettings ⟨"/work"⟩ ∧
      (∀ name ∈ ["multipatch", "geometryXY", "general"],
        ∃ g ∈ discover layeredTree layeredSettings ⟨"/work"⟩, g.name = name) ∧
      ∀ g ∈ discover layeredTree layeredSettings ⟨"/work"⟩,
        ((⟨"/work/src/geometryXY/patch/c.cpp"⟩ : Path).isIn g.files = true ↔
          g.name = "multipatch") ∧
        ((⟨"/work/src/geometryXY/b.cpp"⟩ : Path).isIn g.files = true ↔ g.name = "geometryXY") ∧
        ((⟨"/work/simulations/geometryXY/e.cpp"⟩ : Path).isIn g.files = true ↔
          g.name = "geometryXY") ∧
        ((⟨"/work/src/a.hpp"⟩ : Path).isIn g.files = true ↔ g.name ≠ "multipatch") ∧
        ((⟨"/work/simulations/geometry.cpp"⟩ : Path).isIn g.files = true ↔
          g.name = "general") := by
  obtain ⟨_, hlocation, _⟩ := discover_byLocation layeredTree layeredSettings ⟨"/work"⟩
    (by decide +kernel) layered_plain
  have hout {f : Path}
      (hstarts : f.startsWith ((⟨"/work"⟩ : Path).child layeredSettings.multipatchFolder) = false) :
      ¬ f.LiesIn ((⟨"/work"⟩ : Path).child layeredSettings.multipatchFolder) := by
    intro hlies
    rw [hlies.startsWith] at hstarts
    cases hstarts
  have hb : (⟨"/work/src/geometryXY/b.cpp"⟩ : Path).Extends ((⟨"/work"⟩ : Path).child "src")
      ["geometryXY", "b.cpp"] := by decide +kernel
  have he : (⟨"/work/simulations/geometryXY/e.cpp"⟩ : Path).Extends
      ((⟨"/work"⟩ : Path).child "simulations/") ["geometryXY", "e.cpp"] := by decide +kernel
  have ha : (⟨"/work/src/a.hpp"⟩ : Path).Extends ((⟨"/work"⟩ : Path).child "src") ["a.hpp"] := by
    decide +kernel
  have hgeneral : (⟨"/work/simulations/geometry.cpp"⟩ : Path).Extends
      ((⟨"/work"⟩ : Path).child "simulations/") ["geometry.cpp"] := by decide +kernel
  obtain ⟨hpatchGroup, hpatch⟩ := hlocation ⟨"/work/src/geometryXY/patch/c.cpp"⟩ _
    ⟨rfl, by decide +kernel⟩ (.multipatch ⟨["c.cpp"], by decide, by decide +kernel⟩)
  obtain ⟨hfirstGroup, hfirst⟩ := hlocation _ _ ⟨rfl, by decide +kernel⟩
    (.geometry (hout (by decide +kernel)) List.mem_cons_self hb rfl)
  obtain ⟨_, hsecond⟩ := hlocation _ _ ⟨rfl, by decide +kernel⟩
    (.geometry (hout (by decide +kernel)) (List.mem_cons_of_mem _ List.mem_cons_self) he rfl)
  obtain ⟨_, hlibrary⟩ := hlocation _ _ ⟨rfl, by decide +kernel⟩
    (.library (hout (by decide +kernel)) rfl ha (by decide) rfl)
  obtain ⟨hrestGroup, hrest⟩ := hlocation _ _ ⟨rfl, by decide +kernel⟩
    (.general (hout (by decide +kernel)) rfl List.mem_cons_self hgeneral (by decide) rfl)
  refine ⟨by decide +kernel, layered_plain, ?_, fun g hg =>
    ⟨hpatch g hg, hfirst g hg, hsecond g hg, hlibrary g hg, hrest g hg⟩⟩
  simp only [List.forall_mem_cons]
  exact ⟨hpatchGroup, hfirstGroup, hrestGroup, nofun⟩

end Groups

end SpaceAudit
