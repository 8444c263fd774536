import SpaceAudit.Proofs.FileTree.Places
import SpaceAudit.Proofs.Run.Report

/-! The sources below a folder, and when a source that is written to lie in a folder is one of the
sources found there. -/
namespace SpaceAudit

open SpaceAudit.Path (isName)

namespace Path
variable {p q dir : Path} {ps : List Path} {names more : List String}

theorem isIn_iff : p.isIn ps = true ↔ ∃ q ∈ ps, p.components = q.components := by
  simp [isIn, same_iff]

theorem isIn_congr (h : p.components = q.components) : p.isIn ps = q.isIn ps := by
  rw [Bool.eq_iff_iff, isIn_iff, isIn_iff, h]

theorem startsWith_iff : p.startsWith q = true ↔ ∃ rest, p.components = q.components ++ rest := by
  rw [startsWith, List.isPrefixOf_iff_prefix]
  exact exists_congr fun rest => eq_comm

theorem isSource_congr (h : p.components = q.components) : p.isSource = q.isSource := by
  simp only [isSource, extension?, fileName?, h]

/-- `p` is written as `dir` and then the names. -/
def Extends (p dir : Path) (names : List String) : Prop :=
  p.components = dir.components ++ names.map .normal

instance : Decidable (p.Extends dir names) := inferInstanceAs (Decidable (_ = _))

/-- `p` lies somewhere below `dir`. -/
def LiesIn (p dir : Path) : Prop := ∃ names, names ≠ [] ∧ p.Extends dir names

namespace Extends

theorem isName (h : p.Extends dir names) : ∀ n ∈ names, Path.isName n = true := by
  intro n hn
  refine isName_of_mem_components (p := p) ?_
  rw [h]
  exact List.mem_append_right _ (List.mem_map_of_mem hn)

theorem names_eq (h : p.Extends dir names) (h' : p.Extends dir more) : names = more :=
  List.map_injective_iff.2 (fun _ _ => Component.normal.inj)
    (List.append_cancel_left (h.symm.trans h'))

theorem startsWith (h : p.Extends dir names) : p.startsWith dir = true :=
  startsWith_iff.2 ⟨_, h⟩

theorem isAbsolute_eq (h : p.Extends dir names) : p.isAbsolute = dir.isAbsolute := by
  rw [Bool.eq_iff_iff, isAbsolute_iff_root, isAbsolute_iff_root, h]
  simp

end Extends

theorem LiesIn.startsWith (h : p.LiesIn dir) : p.startsWith dir = true := by
  obtain ⟨names, _, h⟩ := h
  exact h.startsWith

end Path

namespace FileSystem
variable {fs : FileSystem} {p q f dir : Path} {here mid names : List String} {bytes : ByteArray}

/-- `f` is a source that names lead to from the folder `dir`. -/
def SourceBelow (fs : FileSystem) (dir f : Path) : Prop :=
  ∃ here names bytes, fs.place dir = .ok here ∧ names ≠ [] ∧
    fs.tree.get? (here ++ names) = some (.file bytes) ∧ f = dir.below names ∧ f.isSource = true

theorem at?_of_place (h : fs.place p = .ok here) : fs.at? p = fs.tree.get? here := by
  rw [at?, h]

theorem isFile_iff : fs.isFile p = true ↔ ∃ bytes, fs.at? p = some (.file bytes) := by
  unfold isFile
  split
  · rename_i bytes h
    simp [h]
  · rename_i h
    simp only [Bool.false_eq_true, false_iff, not_exists]
    exact h

theorem isFile_of_place (h : fs.place p = .ok here)
    (hfile : fs.tree.get? here = some (.file bytes)) : fs.isFile p = true :=
  isFile_iff.2 ⟨bytes, (at?_of_place h).trans hfile⟩

theorem place_of_isFile (h : fs.isFile p = true) :
    ∃ here bytes, fs.place p = .ok here ∧ fs.tree.get? here = some (.file bytes) := by
  obtain ⟨bytes, hat⟩ := isFile_iff.1 h
  unfold at? at hat
  split at hat
  · rename_i here hplace
    exact ⟨here, bytes, hplace, hat⟩
  · cases hat

theorem folder_of_get?_append {t u : FileTree} (hnames : names ≠ [])
    (h : t.get? (here ++ names) = some u) : ∃ entries, t.get? here = some (.folder entries) ∧
      (FileTree.folder entries).get? names = some u := by
  rw [FileTree.get?_append] at h
  obtain ⟨v, hv, hu⟩ := Option.bind_eq_some_iff.1 h
  cases v with
  | folder entries => exact ⟨entries, hv, hu⟩
  | file bytes =>
    cases names with
    | nil => exact absurd rfl hnames
    | cons n names => cases hu

theorem isName_of_file (hwell : fs.tree.wellNamed = true)
    (h : fs.tree.get? (here ++ names) = some (.file bytes)) : ∀ n ∈ names, isName n = true :=
  fun n hn => (FileTree.isName_of_get? hwell h).1 n (List.mem_append_right here hn)

/-- `f` is the path of a source. -/
structure IsSource (fs : FileSystem) (f : Path) : Prop where
  file : fs.isFile f = true
  named : f.isSource = true

namespace SourceBelow

theorem isFile (hwell : fs.tree.wellNamed = true) (h : fs.SourceBelow dir f) :
    fs.isFile f = true := by
  obtain ⟨here, names, bytes, hplace, _, hget, rfl, _⟩ := h
  have hbelow := place_below hplace (isName_of_file hwell hget) (by simp [hget])
  exact isFile_of_place hbelow hget

theorem named (hwell : fs.tree.wellNamed = true) (h : fs.SourceBelow dir f) : f.Named := by
  obtain ⟨here, names, bytes, hplace, hne, hget, rfl, _⟩ := h
  have hnames := isName_of_file hwell hget
  have hsplit : names = names.dropLast ++ [names.getLast hne] :=
    (List.dropLast_append_getLast hne).symm
  rw [hsplit, Path.below_concat]
  refine Path.Named.child (Path.text_below (place_eq_ok_iff.1 hplace).1 ?_) ?_
  · intro n hn
    exact hnames n (List.dropLast_subset names hn)
  · exact hnames _ (List.getLast_mem hne)

theorem isSource (hwell : fs.tree.wellNamed = true) (h : fs.SourceBelow dir f) :
    fs.IsSource f := by
  refine ⟨h.isFile hwell, ?_⟩
  obtain ⟨_, _, _, _, _, _, _, hnamed⟩ := h
  exact hnamed

theorem liesIn (hwell : fs.tree.wellNamed = true) (h : fs.SourceBelow dir f) : f.LiesIn dir := by
  obtain ⟨here, names, bytes, hplace, hne, hget, rfl, _⟩ := h
  exact ⟨names, hne, Path.components_below (place_eq_ok_iff.1 hplace).1 (isName_of_file hwell hget)⟩

end SourceBelow

/-- The listing of a folder's sources is complete, and nothing else is in it. -/
theorem mem_sources_iff (hwell : fs.tree.wellNamed = true) :
    f ∈ fs.sources dir ↔ fs.SourceBelow dir f := by
  rw [sources, Path.sort, List.mem_mergeSort]
  constructor
  · intro h
    unfold entries at h
    split at h
    · rename_i entries hat
      unfold at? at hat
      split at hat
      · rename_i here hplace
        have hentries := (FileTree.isName_of_get? hwell hat).2
        obtain ⟨names, bytes, hget, hf, hsource⟩ :=
          (FileTree.mem_sourcesIn dir f entries (FileTree.wellNamed.eq_2 entries ▸ hentries)).1 h
        refine ⟨here, names, bytes, hplace, ?_, ?_, hf, hsource⟩
        · intro hnil
          rw [hnil] at hget
          cases hget
        · rw [FileTree.get?_append, hat, Option.bind_some, hget]
      · cases hat
    · simp [FileTree.sourcesIn] at h
  · rintro ⟨here, names, bytes, hplace, hne, hget, hf, hsource⟩
    obtain ⟨entries, hfolder, hbelow⟩ := folder_of_get?_append hne hget
    have hentries := (FileTree.isName_of_get? hwell hfolder).2
    have hlist : fs.entries dir = entries := by
      rw [FileSystem.entries, at?_of_place hplace, hfolder]
    rw [hlist]
    exact (FileTree.mem_sourcesIn dir f entries (FileTree.wellNamed.eq_2 entries ▸ hentries)).2
      ⟨names, bytes, hbelow, hf, hsource⟩

theorem exists_place_of_extends (hdir : dir.text ≠ "") (hfile : fs.isFile f = true)
    (hf : f.Extends dir names) (hne : names ≠ []) :
    ∃ here bytes, fs.place dir = .ok here ∧ fs.tree.get? (here ++ names) = some (.file bytes) := by
  obtain ⟨there, bytes, hplace, hget⟩ := place_of_isFile hfile
  have hfollow := follow_steps_of_place hplace
  rw [steps_of_components hf, base, hf.isAbsolute_eq, ← base] at hfollow
  obtain ⟨here, hhere, hlast⟩ := FileTree.follow_append_eq_ok.1 hfollow
  obtain rfl := FileTree.eq_of_follow_names hf.isName hlast
  obtain ⟨entries, hfolder, _⟩ := folder_of_get?_append hne hget
  exact ⟨here, bytes, place_of_folder hdir hhere hfolder, hget⟩

theorem isIn_sources_iff (hwell : fs.tree.wellNamed = true) (hdir : dir.text ≠ "")
    (hf : fs.IsSource f) : f.isIn (fs.sources dir) = true ↔ f.LiesIn dir := by
  rw [Path.isIn_iff]
  constructor
  · rintro ⟨q, hq, hfq⟩
    obtain ⟨names, hne, hnames⟩ := ((mem_sources_iff hwell).1 hq).liesIn hwell
    exact ⟨names, hne, hfq.trans hnames⟩
  · rintro ⟨names, hne, hnames⟩
    obtain ⟨here, bytes, hplace, hget⟩ := exists_place_of_extends hdir hf.file hnames hne
    have hsame : f.components = (dir.below names).components :=
      hnames.trans (Path.components_below hdir (isName_of_file hwell hget)).symm
    refine ⟨dir.below names, (mem_sources_iff hwell).2 ?_, hsame⟩
    exact ⟨here, names, bytes, hplace, hne, hget, rfl, Path.isSource_congr hsame ▸ hf.named⟩

/-- What is written to lie in `dir` lies there: `dir` is no file, and no folder of the list leads
into `dir` and out again. -/
structure Encloses (fs : FileSystem) (dir : Path) (folders : List Path) : Prop where
  noFile : ∀ q : Path, q.components = dir.components → fs.isFile q = false
  noWayOut : ∀ folder ∈ folders, folder.startsWith dir = true →
    .parent ∉ folder.components.drop dir.components.length

theorem exists_names_of_prefix {rest : List Component} (hp : p.isAbsolute = true)
    (hq : q.isAbsolute = true) (h : p.components = q.components ++ rest) (hup : .parent ∉ rest) :
    ∃ names : List String, rest = names.map .normal := by
  obtain ⟨later, hlater, hkinds⟩ := Path.components_of_isAbsolute hp
  obtain ⟨later', hlater', _⟩ := Path.components_of_isAbsolute hq
  have hmem : ∀ c ∈ rest, ∃ n, Component.normal n = c := by
    intro c hc
    have hcl : c ∈ later := by
      rw [hlater, hlater', List.cons_append] at h
      rw [(List.cons.inj h).2]
      exact List.mem_append_right later' hc
    cases hkinds c hcl with
    | inl hparent => exact absurd (hparent ▸ hc) hup
    | inr hname =>
      obtain ⟨n, hn⟩ := hname
      exact ⟨n, hn.symm⟩
  clear h hup
  induction rest with
  | nil => exact ⟨[], rfl⟩
  | cons c rest ih =>
    obtain ⟨n, hn⟩ := hmem c List.mem_cons_self
    obtain ⟨names, hrest⟩ := ih fun d hd => hmem d (List.mem_cons_of_mem c hd)
    exact ⟨n :: names, by rw [← hn, hrest]; rfl⟩

/-- A source below one of the folders that is written to lie in an enclosing folder is among the
sources found there. -/
theorem Encloses.isIn_sources {folders : List Path} {folder : Path} (h : fs.Encloses dir folders)
    (hwell : fs.tree.wellNamed = true) (hdir : dir.isAbsolute = true) (hfolder : folder ∈ folders)
    (habs : folder.isAbsolute = true) (hf : fs.SourceBelow folder f)
    (hstarts : f.startsWith dir = true) : f.isIn (fs.sources dir) = true := by
  have hsource := hf.isSource hwell
  obtain ⟨names, _, hnames⟩ := hf.liesIn hwell
  obtain ⟨rest, hrest⟩ := Path.startsWith_iff.1 hstarts
  have hup : .parent ∉ rest := by
    cases List.append_eq_append_iff.1 (hnames.symm.trans hrest) with
    | inl hdeeper =>
      -- The folder comes first, and names lead on to `dir` and from there to the source.
      obtain ⟨between, _, hsplit⟩ := hdeeper
      intro hparent
      have hmem : .parent ∈ names.map Component.normal :=
        hsplit ▸ List.mem_append_right between hparent
      simp at hmem
    | inr houter =>
      -- `dir` comes first, and the way on to the folder does not lead out of it.
      obtain ⟨between, hfolderEq, hrestEq⟩ := houter
      have hbetween := h.noWayOut folder hfolder (Path.startsWith_iff.2 ⟨between, hfolderEq⟩)
      rw [hfolderEq, List.drop_left] at hbetween
      simp [hrestEq, hbetween]
  obtain ⟨more, rfl⟩ := exists_names_of_prefix (hnames.isAbsolute_eq.trans habs) hdir hrest hup
  have hdirText : dir.text ≠ "" := by
    intro hempty
    simp [Path.isAbsolute, hempty] at hdir
  refine (isIn_sources_iff hwell hdirText hsource).2 ⟨more, ?_, hrest⟩
  rintro rfl
  have hnot := h.noFile f (by simpa using hrest)
  rw [hsource.file] at hnot
  cases hnot

end FileSystem

end SpaceAudit
