import Mathlib.Data.List.Nodup
import SpaceAudit.Proofs.Project.Groups
import SpaceAudit.Proofs.Project.Located

/-! What the groups of a project are made of is strictly sorted: the sources below a folder, the
files of a set, and the sets by their names. -/
namespace SpaceAudit

open SpaceAudit.Path (isName)

namespace Path
variable {p q r : Path} {ps : List Path}

/-- Strictly sorted, so that no path stands in the list twice. -/
def Ascending (ps : List Path) : Prop := ps.Pairwise fun p q => p.compare q = .lt

theorem compare_lt_trans (hpq : p.compare q = .lt) (hqr : q.compare r = .lt) :
    p.compare r = .lt := by
  have hpr : List.compareLex Component.compare p.components r.components = .lt :=
    Std.TransCmp.lt_trans hpq hqr
  exact hpr

theorem compare_lt_of_gt (h : p.compare q = .gt) : q.compare p = .lt := by
  have hlt : List.compareLex Component.compare q.components p.components = .lt :=
    Std.OrientedCmp.gt_iff_lt.1 h
  exact hlt

theorem compare_lt_of_le (h : p.le q = true) (hne : p.components ≠ q.components) :
    p.compare q = .lt := by
  unfold le at h
  cases hpq : p.compare q with
  | lt => rfl
  | eq => exact absurd (components_eq_of_compare hpq) hne
  | gt =>
    rw [hpq] at h
    cases h

theorem Ascending.insertSorted (h : Ascending ps) (p : Path) : Ascending (p.insertSorted ps) := by
  induction ps with
  | nil => exact List.pairwise_singleton _ _
  | cons q qs ih =>
    obtain ⟨hq, hqs⟩ := List.pairwise_cons.1 h
    cases hpq : p.compare q with
    | lt =>
      simp only [Path.insertSorted, hpq]
      refine List.pairwise_cons.2 ⟨fun r hr => ?_, h⟩
      cases List.mem_cons.1 hr with
      | inl hr => exact hr ▸ hpq
      | inr hr => exact compare_lt_trans hpq (hq r hr)
    | eq =>
      simp only [Path.insertSorted, hpq]
      exact h
    | gt =>
      simp only [Path.insertSorted, hpq]
      refine List.pairwise_cons.2 ⟨fun r hr => ?_, ih hqs⟩
      cases List.mem_cons.1 ((keeps_insertSorted p qs).drawn r hr) with
      | inl hr => exact hr ▸ compare_lt_of_gt hpq
      | inr hr => exact hq r hr

theorem ascending_sort (h : (ps.map components).Nodup) : Ascending (sort ps) := by
  have htotal (p q : Path) : (p.le q || q.le p) = true := by
    by_cases hpq : p.le q = true
    · simp [hpq]
    · simp [le_of_not_le hpq]
  have hle : (sort ps).Pairwise fun p q => p.le q = true :=
    @List.pairwise_mergeSort Path le (fun _ _ _ => le_trans) htotal ps
  have hperm : ((sort ps).map components).Perm (ps.map components) :=
    (List.mergeSort_perm ps le).map components
  have hne : (sort ps).Pairwise fun p q => p.components ≠ q.components :=
    List.pairwise_map.1 (hperm.nodup_iff.2 h)
  exact (hle.and hne).imp fun hpq => compare_lt_of_le hpq.1 hpq.2

end Path

namespace FileTree

mutual

theorem nodup_sourcesAt {p : Path} (hp : p.text ≠ "") : (t : FileTree) → t.wellNamed = true →
    ((sourcesAt p t).map Path.components).Nodup
  | file bytes, _ => by
    rw [sourcesAt]
    split <;> simp
  | folder entries, h => by
    rw [sourcesAt]
    exact nodup_sourcesIn hp entries (wellNamed.eq_2 entries ▸ h)

theorem nodup_sourcesIn {dir : Path} (hdir : dir.text ≠ "") :
    (entries : List (String × FileTree)) → wellNamedIn entries = true →
    ((sourcesIn dir entries).map Path.components).Nodup
  | [], _ => by
    rw [sourcesIn]
    exact List.nodup_nil
  | (name, t) :: rest, h => by
    obtain ⟨hname, hnew, ht, hrest⟩ := wellNamedIn_cons.1 h
    rw [sourcesIn, List.map_append, List.nodup_append]
    refine ⟨nodup_sourcesAt (Path.text_child hdir hname) t ht, nodup_sourcesIn hdir rest hrest, ?_⟩
    intro cs hcs ds hds
    obtain ⟨f, hf, rfl⟩ := List.mem_map.1 hcs
    obtain ⟨g, hg, rfl⟩ := List.mem_map.1 hds
    obtain ⟨names, _, hget, rfl, _⟩ := (mem_sourcesAt _ f t ht).1 hf
    obtain ⟨others, _, hother, rfl, _⟩ := (mem_sourcesIn dir g rest hrest).1 hg
    have hothers := (isName_of_get? (wellNamed.eq_2 rest ▸ hrest) hother).1
    rw [Path.components_below (Path.text_child hdir hname) (isName_of_get? ht hget).1,
      Path.components_child hdir hname, Path.components_below hdir hothers, List.append_assoc]
    intro hsame
    cases others with
    | nil => cases hother
    | cons n others =>
      have hn : name = n := by simpa using (List.cons.inj (List.append_cancel_left hsame)).1
      cases hlookup : rest.lookup n with
      | none => simp [get?, hlookup] at hother
      | some u => exact hnew (hn ▸ mem_of_lookup hlookup)

end

end FileTree

namespace FileSystem
variable {fs : FileSystem}

theorem ascending_sources (hwell : fs.tree.wellNamed = true) (dir : Path) :
    Path.Ascending (fs.sources dir) := by
  rw [sources]
  by_cases hnil : fs.entries dir = []
  · rw [hnil, FileTree.sourcesIn]
    exact Path.ascending_sort List.nodup_nil
  · obtain ⟨here, hplace, _⟩ := entries_of_ne_nil hnil
    exact Path.ascending_sort (FileTree.nodup_sourcesIn (place_eq_ok_iff.1 hplace).1 _
      (wellNamedIn_entries hwell dir))

end FileSystem

open FileSystem (isGeometry)

namespace Groups
variable {fs : FileSystem} {multipatch folder : Path} {sets : Sets} {files : List Path}
  {name : String} {s : String × List Path}

theorem ascending_addAll {files others : List Path} (h : Path.Ascending others) :
    Path.Ascending (addAll files others) := by
  induction files generalizing others with
  | nil => exact h
  | cons p files ih => exact ih (h.insertSorted p)

theorem exists_of_mem_add (h : s ∈ add name files sets) :
    s ∈ sets ∨ s.1 = name ∧ ∃ set, (set = [] ∨ (name, set) ∈ sets) ∧ s.2 = addAll files set := by
  induction sets with
  | nil =>
    obtain rfl := List.mem_singleton.1 h
    exact .inr ⟨rfl, [], .inl rfl, rfl⟩
  | cons entry rest ih =>
    obtain ⟨n, set⟩ := entry
    unfold add at h
    split at h
    · cases List.mem_cons.1 h with
      | inl h => exact .inr ⟨h ▸ rfl, [], .inl rfl, h ▸ rfl⟩
      | inr h => exact .inl h
    · split at h
      · rename_i hname
        cases List.mem_cons.1 h with
        | inl h => exact .inr ⟨h ▸ hname.symm, set, .inr (hname ▸ List.mem_cons_self), h ▸ rfl⟩
        | inr h => exact .inl (List.mem_cons_of_mem _ h)
      · cases List.mem_cons.1 h with
        | inl h => exact .inl (h ▸ List.mem_cons_self)
        | inr h =>
          rcases ih h with h | ⟨hname, set', hset, hfiles⟩
          · exact .inl (List.mem_cons_of_mem _ h)
          · exact .inr ⟨hname, set', hset.imp id (List.mem_cons_of_mem _), hfiles⟩

/-- Sets as they are kept: by name, each strictly sorted, for geometries and for the rest. -/
structure Proper (sets : Sets) : Prop where
  names : sets.Pairwise fun s t => s.1 < t.1
  files : ∀ s ∈ sets, Path.Ascending s.2
  kinds : ∀ s ∈ sets, s.1 = general ∨ isGeometry s.1 = true

namespace Proper

theorem empty : Proper [] := ⟨.nil, by simp, by simp⟩

theorem names_add (h : sets.Pairwise fun s t => s.1 < t.1) :
    (add name files sets).Pairwise fun s t => s.1 < t.1 := by
  induction sets with
  | nil => exact List.pairwise_singleton _ _
  | cons entry rest ih =>
    obtain ⟨n, set⟩ := entry
    obtain ⟨hhead, hrest⟩ := List.pairwise_cons.1 h
    unfold add
    split
    · rename_i hlt
      refine List.pairwise_cons.2 ⟨fun t ht => ?_, h⟩
      cases List.mem_cons.1 ht with
      | inl ht => exact ht ▸ hlt
      | inr ht => exact String.lt_trans hlt (hhead t ht)
    · rename_i hle
      split
      · exact List.pairwise_cons.2 ⟨hhead, hrest⟩
      · rename_i hne
        refine List.pairwise_cons.2 ⟨fun t ht => ?_, ih hrest⟩
        rcases exists_of_mem_add ht with ht | ⟨hname, _⟩
        · exact hhead t ht
        · rw [hname]
          exact Std.lt_of_le_of_ne (String.not_lt.1 hle) (Ne.symm hne)

theorem add (h : Proper sets) (hname : name = general ∨ isGeometry name = true) :
    Proper (Groups.add name files sets) := by
  refine ⟨names_add h.names, fun s hs => ?_, fun s hs => ?_⟩
  · rcases exists_of_mem_add hs with hs | ⟨_, set, hset, hfiles⟩
    · exact h.files s hs
    · rw [hfiles]
      cases hset with
      | inl hset => exact ascending_addAll (hset ▸ List.Pairwise.nil)
      | inr hset => exact ascending_addAll (h.files _ hset)
  · rcases exists_of_mem_add hs with hs | ⟨hsame, _⟩
    · exact h.kinds s hs
    · exact hsame ▸ hname

theorem part (h : Proper sets) : Proper (Groups.part fs multipatch folder sets).sets := by
  have htakes (gs : List (String × Path)) (hgs : ∀ g ∈ gs, isGeometry g.1 = true) (p : Partition)
      (hp : Proper p.sets) : Proper (gs.foldl Partition.take p).sets := by
    induction gs generalizing p with
    | nil => exact hp
    | cons g gs ih =>
      exact ih (fun g' hg' => hgs g' (List.mem_cons_of_mem g hg')) (p.take g)
        (hp.add (.inr (hgs g List.mem_cons_self)))
  exact htakes _ (fun g hg => (FileSystem.mem_geometries_iff.1 hg).1) _ h

theorem collect (h : Proper sets) (folders : List Path) :
    Proper (Groups.collect fs multipatch sets folders) := by
  induction folders generalizing sets with
  | nil => exact h
  | cons folder folders ih => exact ih (h.part.add (.inl rfl))

theorem partition (folders : List Path) : Proper (Groups.partition fs multipatch folders).sets := by
  cases folders with
  | nil => exact empty
  | cons first folders =>
    unfold Groups.partition
    simp only
    split
    · exact ⟨List.pairwise_singleton _ _, by simp [Path.Ascending], by simp⟩
    · exact (empty.part).collect folders

theorem nodup_names (h : Proper sets) : (sets.map Prod.fst).Nodup := by
  refine List.pairwise_map.2 (h.names.imp fun {s t} hlt hsame => ?_)
  rw [hsame] at hlt
  exact String.lt_irrefl _ hlt

theorem eq_of_name {t : String × List Path} (h : Proper sets) (hs : s ∈ sets) (ht : t ∈ sets)
    (hname : s.1 = t.1) : s = t :=
  List.inj_on_of_nodup_map h.nodup_names hs ht hname

theorem name_ne_multipatch (h : Proper sets) (hs : s ∈ sets) : s.1 ≠ "multipatch" := by
  intro hname
  have hkind := h.kinds s hs
  rw [hname] at hkind
  revert hkind
  decide

end Proper

/-- The groups of a project: the multipatch group, if that folder has sources, and one for every
set, joined by what is left of the first project folder. -/
theorem mem_discover_iff {settings : Settings} {root : Path} {g : FileGroup} :
    g ∈ discover fs settings root ↔
      (fs.sources (root.child settings.multipatchFolder) ≠ [] ∧
        g = ⟨"multipatch", fs.sources (root.child settings.multipatchFolder), true⟩) ∨
      ∃ s ∈ (partition fs (root.child settings.multipatchFolder)
          (settings.projectFolders.map root.child)).sets,
        g = ⟨s.1, addAll (partition fs (root.child settings.multipatchFolder)
          (settings.projectFolders.map root.child)).left s.2, false⟩ := by
  have hmulti : g ∈ multipatchGroup fs (root.child settings.multipatchFolder) ↔
      fs.sources (root.child settings.multipatchFolder) ≠ [] ∧
        g = ⟨"multipatch", fs.sources (root.child settings.multipatchFolder), true⟩ := by
    unfold multipatchGroup
    simp only
    split
    · rename_i hempty
      simp [List.isEmpty_iff.1 hempty]
    · rename_i hsome
      rw [List.isEmpty_iff] at hsome
      simp [hsome]
  rw [discover, List.mem_append, hmulti, List.mem_map]
  exact or_congr_right (exists_congr fun s => and_congr_right fun _ => eq_comm)

theorem nodup_names_discover (settings : Settings) (root : Path) :
    ((discover fs settings root).map FileGroup.name).Nodup := by
  have hproper : Proper (partition fs (root.child settings.multipatchFolder)
    (settings.projectFolders.map root.child)).sets := .partition _
  have hsets : (discover fs settings root).map FileGroup.name =
      (multipatchGroup fs (root.child settings.multipatchFolder)).map FileGroup.name ++
        (partition fs (root.child settings.multipatchFolder)
          (settings.projectFolders.map root.child)).sets.map Prod.fst := by
    rw [discover, List.map_append, List.map_map]
    rfl
  rw [hsets]
  unfold multipatchGroup
  simp only
  split
  · exact hproper.nodup_names
  · refine List.nodup_cons.2 ⟨fun hmem => ?_, hproper.nodup_names⟩
    obtain ⟨s, hs, hname⟩ := List.mem_map.1 hmem
    exact hproper.name_ne_multipatch hs hname

theorem ascending_files_discover {settings : Settings} {root : Path} {g : FileGroup}
    (hwell : fs.tree.wellNamed = true) (hg : g ∈ discover fs settings root) :
    Path.Ascending g.files := by
  rcases mem_discover_iff.1 hg with ⟨_, rfl⟩ | ⟨s, hs, rfl⟩
  · exact FileSystem.ascending_sources hwell _
  · exact ascending_addAll ((Proper.partition _).files s hs)

end Groups

end SpaceAudit
