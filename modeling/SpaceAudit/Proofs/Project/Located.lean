import Mathlib.Data.List.Nodup
import SpaceAudit.Proofs.Project.Sources

/-! Where a source lies, read off its path: the folders it is found from, and the geometry whose
folder it is in. -/
namespace SpaceAudit

open SpaceAudit.Path (isName)

namespace Path
variable {p q f dir : Path} {ps : List Path} {text : String}

/-- Written with names only, and with one at least. -/
def Plain (p : Path) : Prop := ∃ names, names ≠ [] ∧ p.components = names.map .normal

theorem startsWith_congr (h : p.components = q.components) :
    p.startsWith dir = q.startsWith dir := by
  simp only [startsWith, h]

theorem isIn_append {qs : List Path} :
    p.isIn (ps ++ qs) = true ↔ p.isIn ps = true ∨ p.isIn qs = true := by
  simp [isIn]

theorem isIn_filter {keep : Path → Bool} (h : ∀ q, f.components = q.components → keep q = keep f) :
    f.isIn (ps.filter keep) = true ↔ f.isIn ps = true ∧ keep f = true := by
  simp only [isIn_iff, List.mem_filter]
  constructor
  · rintro ⟨q, ⟨hq, hkeep⟩, hfq⟩
    exact ⟨⟨q, hq, hfq⟩, h q hfq ▸ hkeep⟩
  · rintro ⟨⟨q, hq, hfq⟩, hkeep⟩
    exact ⟨q, ⟨hq, (h q hfq).trans hkeep⟩, hfq⟩

theorem components_empty : (⟨""⟩ : Path).components = [] := by
  rw [components_of_pieces pieces_empty]
  rfl

namespace Plain

theorem isAbsolute_eq (h : p.Plain) : p.isAbsolute = false := by
  obtain ⟨names, _, hnames⟩ := h
  rw [← Bool.not_eq_true, isAbsolute_iff_root, hnames]
  simp

theorem components_eq (h : p.Plain) : p.components = p.pieces.filterMap Component.ofLater := by
  have habs := h.isAbsolute_eq
  obtain ⟨names, _, hnames⟩ := h
  cases hpieces : p.pieces with
  | nil => exact absurd hpieces (pieces_ne_nil p)
  | cons first rest =>
    have hread := components_of_pieces hpieces
    rw [habs] at hread
    have hdot : first ≠ "." := by
      rintro rfl
      have hcurrent : .current ∈ p.components := by
        rw [hread]
        exact List.mem_cons_self
      rw [hnames] at hcurrent
      simp at hcurrent
    have hfirst : Component.ofFirst first = Component.ofLater first := by
      unfold Component.ofFirst Component.ofLater
      split <;> simp_all
    rw [hread, hfirst, List.filterMap_cons]
    cases Component.ofLater first <;> rfl

theorem components_child (h : Plain ⟨text⟩) (root : Path) :
    (root.child text).components = root.components ++ (⟨text⟩ : Path).components := by
  have hrel := h.isAbsolute_eq
  by_cases hroot : root.text = ""
  · have hempty : root = ⟨""⟩ := by
      cases root with
      | mk text => exact congrArg Path.mk hroot
    have hchild : (⟨""⟩ : Path).child text = ⟨text⟩ := by
      simp [child, join, hrel]
    rw [hempty, hchild, components_empty, List.nil_append]
  · obtain ⟨a, ha⟩ := root.lead_ends
    have hchild : root.child text = ⟨a ++ "/" ++ text⟩ := by
      rw [← ha, ← text_child_of_relative hroot hrel]
    have habs : (⟨a ++ "/" ++ text⟩ : Path).isAbsolute = (⟨a ++ "/"⟩ : Path).isAbsolute := by
      unfold isAbsolute
      cases hcs : a.toList with
      | nil => simp [hcs]
      | cons c cs => simp [hcs]
    have hpieces := pieces_slash a text
    have hlead := pieces_trailing a
    have hnone : [""].filterMap Component.ofLater = [] := rfl
    rw [← components_lead hroot, ha, hchild, h.components_eq]
    cases hcons : (⟨a⟩ : Path).pieces with
    | nil => exact absurd hcons (pieces_ne_nil _)
    | cons first rest =>
      rw [hcons, List.cons_append] at hpieces hlead
      rw [components_of_pieces hpieces, components_of_pieces hlead, habs, List.filterMap_append,
        List.filterMap_append, hnone, List.append_nil, List.append_assoc]

theorem text_child (h : Plain ⟨text⟩) (root : Path) : (root.child text).text ≠ "" := by
  intro hempty
  have hchild : root.child text = ⟨""⟩ := by
    cases hc : root.child text with
    | mk t => rw [hc] at hempty; exact congrArg Path.mk hempty
  have hcomponents := h.components_child root
  obtain ⟨names, hne, hnames⟩ := h
  rw [hchild, components_empty, hnames] at hcomponents
  exact hne (List.map_eq_nil_iff.1 (List.append_eq_nil_iff.1 hcomponents.symm).2)

end Plain

end Path

namespace FileTree

theorem nodup_names {entries : List (String × FileTree)} (h : wellNamedIn entries = true) :
    (entries.map Prod.fst).Nodup := by
  induction entries with
  | nil => exact List.nodup_nil
  | cons entry rest ih =>
    obtain ⟨_, hnew, _, hrest⟩ := wellNamedIn_cons.1 h
    exact List.nodup_cons.2 ⟨hnew, ih hrest⟩

theorem lookup_of_mem {entries : List (String × FileTree)} {name : String} {t : FileTree}
    (h : wellNamedIn entries = true) (hmem : (name, t) ∈ entries) :
    entries.lookup name = some t := by
  induction entries with
  | nil => cases hmem
  | cons entry rest ih =>
    obtain ⟨n, u⟩ := entry
    obtain ⟨_, hnew, _, hrest⟩ := wellNamedIn_cons.1 h
    rw [lookup_entry]
    cases List.mem_cons.1 hmem with
    | inl hsame =>
      obtain ⟨rfl, rfl⟩ := Prod.mk.inj hsame
      exact if_pos rfl
    | inr hmem =>
      rw [if_neg, ih hrest hmem]
      intro hsame
      exact hnew (hsame ▸ List.mem_map_of_mem hmem)

end FileTree

namespace FileSystem
variable {fs : FileSystem} {f dir : Path} {names : List String} {name : String}

theorem entries_of_ne_nil (h : fs.entries dir ≠ []) :
    ∃ here, fs.place dir = .ok here ∧ fs.tree.get? here = some (.folder (fs.entries dir)) := by
  unfold entries at h ⊢
  split
  · rename_i entries hat
    unfold at? at hat
    split at hat
    · rename_i here hplace
      exact ⟨here, hplace, hat⟩
    · cases hat
  · rename_i hat
    split at h
    · rename_i entries hfolder
      exact absurd hfolder (hat entries)
    · exact absurd rfl h

theorem wellNamedIn_entries (hwell : fs.tree.wellNamed = true) (dir : Path) :
    FileTree.wellNamedIn (fs.entries dir) = true := by
  cases hentries : fs.entries dir with
  | nil => rfl
  | cons entry rest =>
    have hne : fs.entries dir ≠ [] := by simp [hentries]
    obtain ⟨here, _, hget⟩ := entries_of_ne_nil hne
    have h := (FileTree.isName_of_get? hwell hget).2
    rwa [FileTree.wellNamed, hentries] at h

def isGeometry (name : String) : Bool := "geometry".toList.isPrefixOf name.toList

def geometryName? : String × FileTree → Option String
  | (name, .folder _) => if isGeometry name then some name else none
  | (_, .file _) => none

theorem geometryName?_eq_some_iff {entry : String × FileTree} :
    geometryName? entry = some name ↔
      entry.1 = name ∧ isGeometry name = true ∧ ∃ entries, entry.2 = .folder entries := by
  obtain ⟨n, t⟩ := entry
  cases t with
  | file bytes => simp [geometryName?]
  | folder entries =>
    simp only [geometryName?, Option.ite_none_right_eq_some, Option.some.injEq]
    constructor
    · rintro ⟨hstart, rfl⟩
      exact ⟨rfl, hstart, entries, rfl⟩
    · rintro ⟨rfl, hstart, _⟩
      exact ⟨hstart, rfl⟩

theorem geometries_eq (fs : FileSystem) (dir : Path) :
    fs.geometries dir = (((fs.entries dir).filterMap geometryName?).mergeSort (· ≤ ·)).map
      fun name => (name, dir.child name) := by
  rw [geometries]
  congr 2
  refine List.filterMap_congr fun entry _ => ?_
  obtain ⟨name, t⟩ := entry
  cases t <;> rfl

theorem mem_geometries_iff {g : String × Path} :
    g ∈ fs.geometries dir ↔
      isGeometry g.1 = true ∧ g.2 = dir.child g.1 ∧
        ∃ entries, (g.1, .folder entries) ∈ fs.entries dir := by
  rw [geometries_eq, List.mem_map]
  simp only [List.mem_mergeSort, List.mem_filterMap, geometryName?_eq_some_iff]
  constructor
  · rintro ⟨name, ⟨⟨n, t⟩, hmem, rfl, hstart, entries, rfl⟩, rfl⟩
    exact ⟨hstart, rfl, entries, hmem⟩
  · rintro ⟨hstart, hpath, entries, hmem⟩
    exact ⟨g.1, ⟨_, hmem, rfl, hstart, entries, rfl⟩, Prod.ext rfl hpath.symm⟩

theorem nodup_names_geometries (hwell : fs.tree.wellNamed = true) (dir : Path) :
    ((fs.geometries dir).map Prod.fst).Nodup := by
  have hentries := List.pairwise_map.1 (FileTree.nodup_names (wellNamedIn_entries hwell dir))
  have hperm : ((fs.geometries dir).map Prod.fst).Perm
      ((fs.entries dir).filterMap geometryName?) := by
    rw [geometries_eq, List.map_map]
    exact (List.map_id _).symm ▸ List.mergeSort_perm _ _
  refine hperm.nodup_iff.2 (List.pairwise_filterMap.2 (hentries.imp ?_))
  intro entry other hne a ha b hb
  rw [← (geometryName?_eq_some_iff.1 ha).1, ← (geometryName?_eq_some_iff.1 hb).1]
  exact hne

/-- The geometry that names lead into: the first of them, unless it names the source itself. -/
def geometryOf? : List String → Option String
  | name :: _ :: _ => if isGeometry name then some name else none
  | _ => none

theorem geometryOf?_eq_some_iff :
    geometryOf? names = some name ↔
      isGeometry name = true ∧ ∃ more, more ≠ [] ∧ names = name :: more := by
  match names with
  | [] => simp [geometryOf?]
  | [first] => simp [geometryOf?]
  | first :: second :: more =>
    simp only [geometryOf?, Option.ite_none_right_eq_some, Option.some.injEq, List.cons.injEq]
    constructor
    · rintro ⟨hgeometry, rfl⟩
      exact ⟨hgeometry, second :: more, by simp, rfl, rfl⟩
    · rintro ⟨hgeometry, _, _, rfl, _⟩
      exact ⟨hgeometry, rfl⟩

theorem lookup_of_extends (hdir : dir.text ≠ "") (hfile : fs.isFile f = true)
    (hf : f.Extends dir (name :: names)) :
    ∃ t bytes, (fs.entries dir).lookup name = some t ∧ t.get? names = some (.file bytes) := by
  obtain ⟨here, bytes, hplace, hget⟩ := exists_place_of_extends hdir hfile hf (by simp)
  obtain ⟨entries, hfolder, hbelow⟩ := folder_of_get?_append (by simp) hget
  have hlist : fs.entries dir = entries := by
    rw [FileSystem.entries, at?_of_place hplace, hfolder]
  rw [FileTree.get?] at hbelow
  cases hlookup : entries.lookup name with
  | none => simp [hlookup] at hbelow
  | some t => exact ⟨t, bytes, hlist ▸ hlookup, by simpa [hlookup] using hbelow⟩

theorem components_geometry (hwell : fs.tree.wellNamed = true) (hdir : dir.text ≠ "")
    {g : String × Path} (hg : g ∈ fs.geometries dir) :
    g.2.components = dir.components ++ [.normal g.1] := by
  obtain ⟨_, hpath, entries, hmem⟩ := mem_geometries_iff.1 hg
  have hlisted := wellNamedIn_entries hwell dir
  have hentry := FileTree.lookup_of_mem hlisted hmem
  rw [hpath, Path.components_child hdir (FileTree.wellNamed_of_lookup hlisted hentry).1]

theorem pairwise_geometries (hwell : fs.tree.wellNamed = true) (hdir : dir.text ≠ "") (f : Path) :
    (fs.geometries dir).Pairwise fun g g' =>
      f.startsWith g'.2 = true → f.startsWith g.2 = false := by
  refine (List.pairwise_map.1 (nodup_names_geometries hwell dir)).imp_of_mem ?_
  intro g g' hg hg' hne hstarts'
  rw [← Bool.not_eq_true]
  intro hstarts
  obtain ⟨after, hafter⟩ := Path.startsWith_iff.1 hstarts
  obtain ⟨after', hafter'⟩ := Path.startsWith_iff.1 hstarts'
  rw [components_geometry hwell hdir hg, List.append_assoc] at hafter
  rw [components_geometry hwell hdir hg', List.append_assoc] at hafter'
  have hnext := List.append_cancel_left (hafter.symm.trans hafter')
  exact hne (Component.normal.inj (List.cons.inj hnext).1)

theorem startsWith_geometry_iff (hwell : fs.tree.wellNamed = true) (hdir : dir.text ≠ "")
    (hfile : fs.isFile f = true) (hf : f.Extends dir names) (hne : names ≠ [])
    {g : String × Path} (hg : g ∈ fs.geometries dir) :
    f.startsWith g.2 = true ↔ geometryOf? names = some g.1 := by
  obtain ⟨hgeometry, _, entries, hmem⟩ := mem_geometries_iff.1 hg
  have hentry := FileTree.lookup_of_mem (wellNamedIn_entries hwell dir) hmem
  obtain ⟨first, rest, rfl⟩ := List.exists_cons_of_ne_nil hne
  rw [Path.startsWith_iff, components_geometry hwell hdir hg, hf, geometryOf?_eq_some_iff]
  simp only [List.append_assoc, List.append_cancel_left_eq, List.map_cons]
  constructor
  · rintro ⟨after, hafter⟩
    obtain ⟨hfirst, _⟩ := List.cons.inj hafter
    obtain rfl := Component.normal.inj hfirst
    refine ⟨hgeometry, rest, ?_, rfl⟩
    rintro rfl
    obtain ⟨t, bytes, hlookup, hget⟩ := lookup_of_extends hdir hfile hf
    obtain rfl := Option.some.inj (hentry.symm.trans hlookup)
    cases hget
  · rintro ⟨_, more, _, hnames⟩
    obtain ⟨rfl, rfl⟩ := List.cons.inj hnames
    exact ⟨rest.map .normal, rfl⟩

theorem exists_geometry (hdir : dir.text ≠ "") (hfile : fs.isFile f = true)
    (hf : f.Extends dir names) (hname : geometryOf? names = some name) :
    ∃ g ∈ fs.geometries dir, g.1 = name := by
  obtain ⟨hgeometry, more, hne, rfl⟩ := geometryOf?_eq_some_iff.1 hname
  obtain ⟨t, bytes, hlookup, hget⟩ := lookup_of_extends hdir hfile hf
  cases t with
  | file bytes =>
    cases more with
    | nil => exact absurd rfl hne
    | cons n more => cases hget
  | folder entries =>
    have hmem : (name, .folder entries) ∈ fs.entries dir := by
      obtain ⟨before, after, hsplit, _⟩ := List.lookup_eq_some_iff.1 hlookup
      rw [hsplit]
      exact List.mem_append_right before List.mem_cons_self
    exact ⟨(name, dir.child name), mem_geometries_iff.2 ⟨hgeometry, rfl, entries, hmem⟩, rfl⟩

end FileSystem

end SpaceAudit
