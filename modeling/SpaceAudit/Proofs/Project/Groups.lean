import SpaceAudit.Project.Groups
import SpaceAudit.Proofs.Alias.Merge
import SpaceAudit.Proofs.Project.Sources

/-! No source is lost when the sources of a project are put into groups: every step on the way keeps
a spelling of every path that it is given. -/
namespace SpaceAudit

/-- The paths of `kept` are taken from `all`, and every path of `all` is among them, if only in
another spelling. -/
structure Keeps (kept all : List Path) : Prop where
  drawn : ∀ p ∈ kept, p ∈ all
  complete : ∀ p ∈ all, p.isIn kept = true

namespace Keeps
variable {a b c d : List Path}

theorem of_mem_iff (h : ∀ p, p ∈ a ↔ p ∈ b) : Keeps a b :=
  ⟨fun p hp => (h p).1 hp, fun p hp => Path.isIn_iff.2 ⟨p, (h p).2 hp, rfl⟩⟩

theorem refl (a : List Path) : Keeps a a := of_mem_iff fun _ => Iff.rfl

theorem isIn_iff (h : Keeps a b) (p : Path) : p.isIn a = true ↔ p.isIn b = true := by
  constructor
  · intro hp
    obtain ⟨q, hq, hpq⟩ := Path.isIn_iff.1 hp
    exact Path.isIn_iff.2 ⟨q, h.drawn q hq, hpq⟩
  · intro hp
    obtain ⟨q, hq, hpq⟩ := Path.isIn_iff.1 hp
    rw [Path.isIn_congr hpq]
    exact h.complete q hq

theorem trans (h : Keeps a b) (h' : Keeps b c) : Keeps a c :=
  ⟨fun p hp => h'.drawn p (h.drawn p hp), fun p hp => (h.isIn_iff p).2 (h'.complete p hp)⟩

theorem append (h : Keeps a b) (h' : Keeps c d) : Keeps (a ++ c) (b ++ d) := by
  constructor
  · intro p hp
    cases List.mem_append.1 hp with
    | inl hp => exact List.mem_append_left d (h.drawn p hp)
    | inr hp => exact List.mem_append_right b (h'.drawn p hp)
  · intro p hp
    have hor : p.isIn a = true ∨ p.isIn c = true := by
      cases List.mem_append.1 hp with
      | inl hp => exact .inl (h.complete p hp)
      | inr hp => exact .inr (h'.complete p hp)
    simpa [Path.isIn] using hor

end Keeps

theorem Path.components_eq_of_compare {p q : Path} (h : p.compare q = .eq) :
    p.components = q.components := by
  have hlex : List.compareLex Component.compare p.components q.components = .eq := h
  exact Std.LawfulEqCmp.eq_of_compare hlex

theorem keeps_insertSorted (p : Path) (set : List Path) : Keeps (p.insertSorted set) (p :: set) := by
  induction set with
  | nil => exact Keeps.refl _
  | cons q qs ih =>
    cases hpq : p.compare q with
    | lt =>
      simp only [Path.insertSorted, hpq]
      exact Keeps.refl _
    | eq =>
      have hsame := Path.components_eq_of_compare hpq
      simp only [Path.insertSorted, hpq]
      refine ⟨fun r hr => List.mem_cons_of_mem p hr, fun r hr => ?_⟩
      cases List.mem_cons.1 hr with
      | inl hrp => exact Path.isIn_iff.2 ⟨q, List.mem_cons_self, hrp ▸ hsame⟩
      | inr hr => exact Path.isIn_iff.2 ⟨r, hr, rfl⟩
    | gt =>
      simp only [Path.insertSorted, hpq]
      have hcons : Keeps (q :: p.insertSorted qs) (q :: p :: qs) := (Keeps.refl [q]).append ih
      exact hcons.trans (Keeps.of_mem_iff fun r => by simp only [List.mem_cons]; exact or_left_comm)

namespace Groups
variable (fs : FileSystem) (multipatch : Path)

theorem keeps_addAll (files set : List Path) : Keeps (addAll files set) (files ++ set) := by
  induction files generalizing set with
  | nil => exact Keeps.refl set
  | cons p files ih =>
    have hstep := (ih (p.insertSorted set)).trans
      ((Keeps.refl files).append (keeps_insertSorted p set))
    exact hstep.trans (Keeps.of_mem_iff fun r => by simp [or_left_comm])

def filesOf (sets : Sets) : List Path := sets.flatMap Prod.snd

theorem keeps_add (name : String) (files : List Path) (sets : Sets) :
    Keeps (filesOf (add name files sets)) (files ++ filesOf sets) := by
  induction sets with
  | nil => simpa [add, filesOf] using keeps_addAll files []
  | cons entry rest ih =>
    obtain ⟨n, set⟩ := entry
    have hempty : Keeps (addAll files []) files := by simpa using keeps_addAll files []
    by_cases hlt : name < n
    · simp only [add, if_pos hlt]
      exact hempty.append (Keeps.refl (filesOf ((n, set) :: rest)))
    · by_cases heq : name = n
      · simp only [add, if_neg hlt, if_pos heq]
        have h := (keeps_addAll files set).append (Keeps.refl (filesOf rest))
        rw [List.append_assoc] at h
        exact h
      · simp only [add, if_neg hlt, if_neg heq]
        have h : Keeps (set ++ filesOf (add name files rest)) (set ++ (files ++ filesOf rest)) :=
          (Keeps.refl set).append ih
        exact h.trans (Keeps.of_mem_iff fun r => by simp [filesOf, or_left_comm])

def Partition.files (p : Partition) : List Path := filesOf p.sets ++ p.left

theorem keeps_take (p : Partition) (geometry : String × Path) :
    Keeps (p.take geometry).files p.files := by
  have h := (keeps_add geometry.1 (p.left.filter (·.startsWith geometry.2)) p.sets).append
    (Keeps.refl (p.left.filter fun f => !f.startsWith geometry.2))
  refine Keeps.trans h (Keeps.of_mem_iff fun r => ?_)
  simp only [Partition.files, List.mem_append, List.mem_filter]
  cases r.startsWith geometry.2 with
  | true => simp [or_comm]
  | false => simp

def outside (fs : FileSystem) (multipatch folder : Path) : List Path :=
  (fs.sources folder).filter fun f => !f.startsWith multipatch

theorem keeps_part (folder : Path) (sets : Sets) :
    Keeps (part fs multipatch folder sets).files (filesOf sets ++ outside fs multipatch folder) := by
  have htakes (geometries : List (String × Path)) (p : Partition) :
      Keeps (geometries.foldl Partition.take p).files p.files := by
    induction geometries generalizing p with
    | nil => exact Keeps.refl _
    | cons geometry geometries ih => exact (ih (p.take geometry)).trans (keeps_take p geometry)
  exact htakes (fs.geometries folder) ⟨sets, outside fs multipatch folder⟩

theorem keeps_collect (folders : List Path) (sets : Sets) :
    Keeps (filesOf (collect fs multipatch sets folders))
      (filesOf sets ++ folders.flatMap (outside fs multipatch)) := by
  induction folders generalizing sets with
  | nil => simpa [collect] using Keeps.refl (filesOf sets)
  | cons folder folders ih =>
    have hpart := keeps_part fs multipatch folder sets
    have hrest := ih (add general (part fs multipatch folder sets).left
      (part fs multipatch folder sets).sets)
    have hadd := (keeps_add general (part fs multipatch folder sets).left
      (part fs multipatch folder sets).sets).trans
        (Keeps.of_mem_iff fun r => List.perm_append_comm.mem_iff)
    have hboth := hrest.trans ((hadd.trans hpart).append (Keeps.refl _))
    rw [List.append_assoc] at hboth
    simpa [collect] using hboth

theorem keeps_partition (folders : List Path) :
    Keeps (partition fs multipatch folders).files (folders.flatMap (outside fs multipatch)) := by
  cases folders with
  | nil => exact Keeps.refl []
  | cons first folders =>
    have hpart := keeps_part fs multipatch first []
    have hcollect := keeps_collect fs multipatch folders (part fs multipatch first []).sets
    have hboth : Keeps
        (Partition.mk (collect fs multipatch (part fs multipatch first []).sets folders)
          (part fs multipatch first []).left).files
        ((first :: folders).flatMap (outside fs multipatch)) := by
      refine (hcollect.append (Keeps.refl _)).trans ?_
      refine Keeps.trans (b := (part fs multipatch first []).files ++
        folders.flatMap (outside fs multipatch)) (Keeps.of_mem_iff fun r => ?_) ?_
      · simp only [Partition.files, List.mem_append]
        exact or_right_comm
      · exact hpart.append (Keeps.refl _)
    unfold partition
    simp only
    split
    · rename_i hempty
      simp only [Bool.and_eq_true, List.isEmpty_iff] at hempty
      rw [hempty.1] at hboth
      exact hboth
    · exact hboth

theorem partition_sets_ne_nil (folders : List Path)
    (h : (partition fs multipatch folders).left ≠ []) :
    (partition fs multipatch folders).sets ≠ [] := by
  cases folders with
  | nil => exact absurd rfl h
  | cons first folders =>
    unfold partition at h ⊢
    simp only at h ⊢
    split
    · simp
    · rename_i hsets
      rw [if_neg hsets] at h
      intro hnil
      have hcollect : collect fs multipatch (part fs multipatch first []).sets folders = [] := hnil
      have hleft : (part fs multipatch first []).left ≠ [] := h
      simp [hcollect, hleft] at hsets

theorem keeps_shared {sets : Sets} {left : List Path} (h : left ≠ [] → sets ≠ []) :
    Keeps (sets.flatMap fun s => addAll left s.2) (filesOf sets ++ left) := by
  constructor
  · intro p hp
    obtain ⟨s, hs, hp⟩ := List.mem_flatMap.1 hp
    cases List.mem_append.1 ((keeps_addAll left s.2).drawn p hp) with
    | inl hp => exact List.mem_append_right _ hp
    | inr hp => exact List.mem_append_left _ (List.mem_flatMap.2 ⟨s, hs, hp⟩)
  · intro p hp
    have hset : ∃ s ∈ sets, p ∈ left ++ s.2 := by
      cases List.mem_append.1 hp with
      | inl hp =>
        obtain ⟨s, hs, hp⟩ := List.mem_flatMap.1 hp
        exact ⟨s, hs, List.mem_append_right left hp⟩
      | inr hp =>
        obtain ⟨s, hs⟩ := List.exists_mem_of_ne_nil sets (h (List.ne_nil_of_mem hp))
        exact ⟨s, hs, List.mem_append_left s.2 hp⟩
    obtain ⟨s, hs, hp⟩ := hset
    obtain ⟨q, hq, hpq⟩ := Path.isIn_iff.1 ((keeps_addAll left s.2).complete p hp)
    exact Path.isIn_iff.2 ⟨q, List.mem_flatMap.2 ⟨s, hs, hq⟩, hpq⟩

/-- The groups hold the sources of the multipatch folder, and those of the project folders that lie
outside it. -/
theorem keeps_discover (settings : Settings) (root : Path) :
    Keeps ((discover fs settings root).flatMap FileGroup.files)
      (fs.sources (root.child settings.multipatchFolder) ++
        (settings.projectFolders.map root.child).flatMap
          (outside fs (root.child settings.multipatchFolder))) := by
  have hmulti : (multipatchGroup fs (root.child settings.multipatchFolder)).flatMap FileGroup.files =
      fs.sources (root.child settings.multipatchFolder) := by
    unfold multipatchGroup
    simp only
    split
    · rename_i hempty
      rw [List.isEmpty_iff.1 hempty]
      rfl
    · simp
  have hsets := (keeps_shared (partition_sets_ne_nil fs (root.child settings.multipatchFolder)
    (settings.projectFolders.map root.child))).trans (keeps_partition fs _ _)
  have hfiles : (discover fs settings root).flatMap FileGroup.files =
      fs.sources (root.child settings.multipatchFolder) ++
        (partition fs (root.child settings.multipatchFolder)
          (settings.projectFolders.map root.child)).sets.flatMap fun s =>
            addAll (partition fs (root.child settings.multipatchFolder)
              (settings.projectFolders.map root.child)).left s.2 := by
    rw [discover, List.flatMap_append, hmulti, List.flatMap_map]
  rw [hfiles]
  exact (Keeps.refl _).append hsets

end Groups

end SpaceAudit
