import SpaceAudit.Proofs.Source.Records

/-! The main file of a unit. The file table of a dump holds the files that its sections name, each
name once. The main file is the first of them that stands at the end of the source's path, or has it
at its own end. So it is the source itself only where the table has the source before all other
files of that kind. -/
namespace SpaceAudit
open Markup (Element)

def Registers (e : Element) (name : String) : Prop :=
  e.name = "rawtokens" ∧ ∃ file ∈ e.childrenNamed "file",
    (file.attribute? "index").isSome = true ∧ file.attribute? "name" = some name

def NamesByToken (e : Element) (name : String) : Prop :=
  ∃ tok ∈ (if e.name = "rawtokens" then e.childrenNamed "tok"
      else if e.name = "dump" then Load.tokensIn e else []),
    tok.attribute? "file" = some name

namespace FileTable

/-- Of the names that are new in a table all are allowed, and the demanded ones are there. -/
structure Takes (allowed demanded : String → Prop) (t t' : FileTable) : Prop where
  nodup : t.names.Nodup → t'.names.Nodup
  kept : ∀ name ∈ t.names, name ∈ t'.names
  new : ∀ name ∈ t'.names, name ∈ t.names ∨ allowed name
  met : ∀ name, demanded name → name ∈ t'.names

namespace Takes
variable {allowed demanded allowed' demanded' : String → Prop} {t t' t'' : FileTable}

theorem refl (t : FileTable) : Takes allowed (fun _ => False) t t :=
  ⟨id, fun _ => id, fun _ => .inl, fun _ => False.elim⟩

theorem trans (h : Takes allowed demanded t t') (h' : Takes allowed' demanded' t' t'') :
    Takes (fun name => allowed name ∨ allowed' name) (fun name => demanded name ∨ demanded' name)
      t t'' where
  nodup := h'.nodup ∘ h.nodup
  kept name hname := h'.kept name (h.kept name hname)
  new name hname := by
    rcases h'.new name hname with hold | hnew
    · exact (h.new name hold).imp_right .inl
    · exact .inr (.inr hnew)
  met name hname := by
    rcases hname with hname | hname
    · exact h'.kept name (h.met name hname)
    · exact h'.met name hname

theorem imp (h : Takes allowed demanded t t') (hallowed : ∀ name, allowed name → allowed' name)
    (hdemanded : ∀ name, demanded' name → demanded name) : Takes allowed' demanded' t t' where
  nodup := h.nodup
  kept := h.kept
  new name hname := (h.new name hname).imp_right (hallowed name)
  met name hname := h.met name (hdemanded name hname)

end Takes

theorem intern_takes (t : FileTable) (name : String) :
    Takes (· = name) (· = name) t (t.intern name).2 := by
  unfold intern
  cases hfind : t.names.findIdx? (· == name) with
  | some i =>
    obtain ⟨hlt, hat, _⟩ := List.findIdx?_eq_some_iff_getElem.1 hfind
    refine ⟨id, fun _ => id, fun _ => .inl, fun other hother => ?_⟩
    rw [hother, ← beq_iff_eq.1 hat]
    exact List.getElem_mem hlt
  | none =>
    have hnew : name ∉ t.names := by
      intro hmem
      have := List.findIdx?_eq_none_iff.1 hfind name hmem
      simp at this
    refine ⟨fun h => ?_, fun other => List.mem_append_left _, fun other hother => ?_,
      fun other hother => ?_⟩
    · exact List.nodup_append.2 ⟨h, List.nodup_singleton name, by
        intro a ha b hb heq
        rw [List.mem_singleton.1 hb] at heq
        exact hnew (heq ▸ ha)⟩
    · simpa using hother
    · simp [hother]

theorem registerElement_takes (t : FileTable) (e : Element) :
    Takes (fun name => (e.attribute? "index").isSome = true ∧ e.attribute? "name" = some name)
      (fun name => (e.attribute? "index").isSome = true ∧ e.attribute? "name" = some name)
      t (t.registerElement e) := by
  unfold registerElement
  split
  · rename_i index name hindex hname
    have h := t.intern_takes name
    refine ⟨h.nodup, h.kept, fun other hother => ?_, fun other hother => ?_⟩
    · refine (h.new other hother).imp_right fun heq => ?_
      rw [hindex, hname, heq]
      exact ⟨rfl, rfl⟩
    · refine h.met other ?_
      rw [hname, Option.some.injEq] at hother
      exact hother.2.symm
  · rename_i hmissing
    refine ⟨id, fun _ => id, fun _ => .inl, fun name hname => ?_⟩
    obtain ⟨index, hindex⟩ := Option.isSome_iff_exists.1 hname.1
    exact absurd hname.2 (hmissing index name hindex)

theorem registerAll_takes (es : List Element) (t : FileTable) :
    Takes (fun name => ∃ e ∈ es, (e.attribute? "index").isSome = true ∧
        e.attribute? "name" = some name)
      (fun name => ∃ e ∈ es, (e.attribute? "index").isSome = true ∧ e.attribute? "name" = some name)
      t (es.foldl registerElement t) := by
  induction es generalizing t with
  | nil => exact (Takes.refl t).imp (fun _ => id) (by simp)
  | cons e es ih =>
    refine ((t.registerElement_takes e).trans (ih _)).imp ?_ ?_
    · simp
    · simp

theorem resolve_takes (t : FileTable) (e : Element) :
    Takes (fun name => e.attribute? "file" = some name) (fun _ => False) t (t.resolve e).2 := by
  unfold resolve
  split
  · exact .refl t
  · split
    · rename_i name hname
      exact (t.intern_takes name).imp (fun other heq => by rw [hname, heq]) (fun _ => False.elim)
    · exact .refl t

theorem resolveAll_takes (es : List Element) (t : FileTable) :
    Takes (fun name => ∃ e ∈ es, e.attribute? "file" = some name) (fun _ => False)
      t (t.resolveAll es).2 := by
  induction es generalizing t with
  | nil => exact .refl t
  | cons e es ih => exact ((t.resolve_takes e).trans (ih _)).imp (by simp) (by simp)

end FileTable

namespace Load

theorem Sheet.add_takes {s s' : Sheet} {e : Element} (h : s.add e = .ok s') :
    s.files.Takes (fun name => Registers e name ∨ NamesByToken e name) (Registers e)
      s'.files := by
  cases Sheet.adds_of_add h with
  | raw hraw =>
    refine ((FileTable.registerAll_takes (e.childrenNamed "file") s.files).trans
      (FileTable.resolveAll_takes (e.childrenNamed "tok") _)).imp ?_ ?_
    · simp [Registers, NamesByToken, hraw]
    · simp [Registers, hraw]
  | configuration hdump hload =>
    have hraw : e.name ≠ "rawtokens" := by simp [hdump]
    obtain ⟨rfl, _⟩ := configuration_holds hload
    refine (FileTable.resolveAll_takes (tokensIn e) s.files).imp ?_ ?_
    · intro name hname
      rw [NamesByToken, if_neg hraw, if_pos hdump]
      exact .inr hname
    · exact fun name hname => hraw hname.1
  | other hraw _ =>
    exact (FileTable.Takes.refl s.files).imp (fun _ => False.elim) fun name hname => hraw hname.1

theorem Sheet.addAll_takes {s s' : Sheet} {es : List Element}
    (h : es.foldlM Sheet.add s = .ok s') :
    s.files.Takes (fun name => ∃ e ∈ es, Registers e name ∨ NamesByToken e name)
      (fun name => ∃ e ∈ es, Registers e name) s'.files := by
  induction es generalizing s with
  | nil =>
    obtain rfl := Except.ok.inj h
    exact (FileTable.Takes.refl s.files).imp (fun _ => False.elim) (by simp)
  | cons e es ih =>
    rw [List.foldlM_cons] at h
    obtain ⟨next, hnext, h⟩ := exists_of_bind h
    refine ((Sheet.add_takes hnext).trans (ih h)).imp ?_ ?_
    · simp
    · simp

end Load

namespace Path

/-- One of the paths stands at the end of the other. -/
def SharesEnd (p q : Path) : Prop := p.components <:+ q.components ∨ q.components <:+ p.components

theorem overlaps_iff {p q : Path} : p.overlaps q = true ↔ p.SharesEnd q := by
  simp only [overlaps, same, endsWith, Bool.or_eq_true, beq_iff_eq, List.isSuffixOf_iff_suffix]
  constructor
  · rintro ((heq | hq) | hp)
    · exact .inl (heq ▸ List.suffix_refl _)
    · exact .inr hq
    · exact .inl hp
  · rintro (hp | hq)
    · exact .inr hp
    · exact .inl (.inr hq)

theorem SharesEnd.of_eq {p q : Path} (h : p.components = q.components) : p.SharesEnd q :=
  .inl (h ▸ List.suffix_refl _)

theorem SharesEnd.fileName?_eq {p q : Path} (h : p.SharesEnd q) (hp : p.components ≠ [])
    (hq : q.components ≠ []) : p.fileName? = q.fileName? := by
  have hlast : p.components.getLast? = q.components.getLast? := by
    rcases h with h | h
    · obtain ⟨front, hfront⟩ := h
      rw [← hfront, List.getLast?_append_of_ne_nil _ hp]
    · obtain ⟨front, hfront⟩ := h
      rw [← hfront, List.getLast?_append_of_ne_nil _ hq]
  rw [fileName?, fileName?, hlast]

end Path

namespace SourceUnit
variable {u : SourceUnit}

/-- The dump names the source of the unit. -/
def NamesSource (u : SourceUnit) : Prop := ∃ f ∈ u.files, f.components = u.path.components

theorem getElem?_mainFile (h : u.NamesSource) :
    ∃ f, u.files[u.mainFile]? = some f ∧ f.SharesEnd u.path ∧
      ∀ i < u.mainFile, ∀ g, u.files[i]? = some g → ¬ g.SharesEnd u.path := by
  obtain ⟨f, hf, hsame⟩ := h
  cases hfind : u.files.findIdx? fun f => f.overlaps u.path with
  | none =>
    have hnone := List.findIdx?_eq_none_iff.1 hfind f hf
    rw [Path.overlaps_iff.2 (.of_eq hsame)] at hnone
    cases hnone
  | some i =>
    obtain ⟨hlt, hat, hbefore⟩ := List.findIdx?_eq_some_iff_getElem.1 hfind
    rw [mainFile, hfind, Option.getD_some]
    refine ⟨u.files[i], List.getElem?_eq_getElem hlt, Path.overlaps_iff.1 hat, ?_⟩
    intro j hj g hg hshares
    obtain ⟨hjlt, rfl⟩ := List.getElem?_eq_some_iff.1 hg
    exact hbefore j hj (Path.overlaps_iff.2 hshares)

/-- The main file is the source if and only if every other file that shares an end with the source
stands behind one that is the source. -/
theorem mainFile_eq_source_iff (h : u.NamesSource) :
    (u.filePath u.mainFile).components = u.path.components ↔
      ∀ (i : Nat) (f : Path), u.files[i]? = some f → f.SharesEnd u.path →
        f.components ≠ u.path.components →
        ∃ j < i, ∃ g : Path, u.files[j]? = some g ∧ g.components = u.path.components := by
  obtain ⟨main, hmain, hshares, hfirst⟩ := getElem?_mainFile h
  rw [filePath, hmain, Option.getD_some]
  constructor
  · intro hsource i f hf hend hother
    refine ⟨u.mainFile, ?_, main, hmain, hsource⟩
    rcases Nat.lt_trichotomy u.mainFile i with hlt | heq | hgt
    · exact hlt
    · rw [← heq, hmain, Option.some.injEq] at hf
      exact absurd (hf ▸ hsource) hother
    · exact absurd hend (hfirst i hgt f hf)
  · intro hbehind
    by_contra hother
    obtain ⟨j, hj, g, hg, hsource⟩ := hbehind u.mainFile main hmain hshares hother
    exact hfirst j hj g hg (.of_eq hsource)

/-- The files of a unit are those that its document names. -/
structure FilesFrom (root : Element) (u : SourceUnit) : Prop where
  nodup : u.files.Nodup
  named : ∀ f ∈ u.files, ∃ e ∈ root.children, Registers e f.text ∨ NamesByToken e f.text
  registered : ∀ e ∈ root.children, ∀ name, Registers e name → (⟨name⟩ : Path) ∈ u.files

theorem filesFrom_of_ofElement {dumpPath : Path} {root : Element}
    (h : ofElement dumpPath root = .ok u) : u.dumpPath = dumpPath ∧ u.FilesFrom root := by
  obtain ⟨s, hs, rfl⟩ := exists_sheet_of_ofElement h
  have htakes := Load.Sheet.addAll_takes hs
  refine ⟨rfl, ?_, ?_, ?_⟩
  · exact (htakes.nodup List.nodup_nil).map fun a b hab => Path.mk.inj hab
  · intro f hf
    obtain ⟨name, hname, rfl⟩ := List.mem_map.1 hf
    exact (htakes.new name hname).resolve_left (List.not_mem_nil)
  · intro e he name hname
    exact List.mem_map_of_mem (htakes.met name ⟨e, he, hname⟩)

/-- In a dump that names its source, the main file is a file that shares an end with the source, and
so has its file name unless one of the two is empty: the first such file. It is the source itself if
and only if all others of them stand behind the source in the table. -/
theorem mainFile_isSource_iff {dumpPath : Path} {root : Element} {u : SourceUnit}
    (h : ofElement dumpPath root = .ok u)
    (hnamed : ∃ f ∈ u.files, f.components = dumpPath.sourceOf.components) :
    u.FilesFrom root ∧
    (∃ main, u.files[u.mainFile]? = some main ∧ main.SharesEnd dumpPath.sourceOf ∧
      (main.components = [] ∨ dumpPath.sourceOf.components = [] ∨
        main.fileName? = dumpPath.sourceOf.fileName?) ∧
      ∀ i < u.mainFile, ∀ g : Path, u.files[i]? = some g → ¬ g.SharesEnd dumpPath.sourceOf) ∧
    ((u.filePath u.mainFile).components = dumpPath.sourceOf.components ↔
      ∀ (i : Nat) (f : Path), u.files[i]? = some f → f.SharesEnd dumpPath.sourceOf →
        f.components ≠ dumpPath.sourceOf.components →
        ∃ j < i, ∃ g : Path, u.files[j]? = some g ∧
          g.components = dumpPath.sourceOf.components) := by
  obtain ⟨rfl, hfiles⟩ := filesFrom_of_ofElement h
  obtain ⟨main, hmain, hshares, hfirst⟩ := getElem?_mainFile hnamed
  refine ⟨hfiles, ⟨main, hmain, hshares, ?_, hfirst⟩, mainFile_eq_source_iff hnamed⟩
  by_cases hempty : main.components = []
  · exact .inl hempty
  · by_cases hsource : u.dumpPath.sourceOf.components = []
    · exact .inr (.inl hsource)
    · exact .inr (.inr (hshares.fileName?_eq hempty hsource))

def registering (names : List String) : Element :=
  .node "dumps" [] [.node "rawtokens" []
    ((["0", "1", "2"].zip names).map fun entry =>
      .node "file" [("index", entry.1), ("name", entry.2)] [])]

def geometryUnit (names : List String) : SourceUnit :=
  ⟨⟨"src/geometry.hpp.dump"⟩, names.map Path.mk, [], []⟩

/-- A header of the same name in another folder, then the source, then its name alone. -/
def geometryHeaders : List String := ["lib/geometry.hpp", "src/geometry.hpp", "geometry.hpp"]

theorem mainFile_isSource_iff_headers :
    ofElement ⟨"src/geometry.hpp.dump"⟩ (registering geometryHeaders) =
        .ok (geometryUnit geometryHeaders) ∧
      (geometryUnit geometryHeaders).NamesSource ∧
      (geometryUnit geometryHeaders).FilesFrom (registering geometryHeaders) ∧
      ∃ j < 2, ∃ g : Path, (geometryUnit geometryHeaders).files[j]? = some g ∧
        g.components = (geometryUnit geometryHeaders).path.components := by
  have hload : ofElement ⟨"src/geometry.hpp.dump"⟩ (registering geometryHeaders) =
      .ok (geometryUnit geometryHeaders) := rfl
  have hnamed : (geometryUnit geometryHeaders).NamesSource :=
    ⟨⟨"src/geometry.hpp"⟩, by decide +kernel, by decide +kernel⟩
  obtain ⟨hfiles, _, hiff⟩ := mainFile_isSource_iff hload hnamed
  refine ⟨hload, hnamed, hfiles, hiff.1 (by decide +kernel) 2 ⟨"geometry.hpp"⟩ rfl (.inl ?_)
    (by decide +kernel)⟩
  decide +kernel

/-- The name alone, registered before the source, takes the source's place. -/
theorem shorter_header_is_main :
    ofElement ⟨"src/geometry.hpp.dump"⟩ (registering ["geometry.hpp", "src/geometry.hpp"]) =
        .ok (geometryUnit ["geometry.hpp", "src/geometry.hpp"]) ∧
      (geometryUnit ["geometry.hpp", "src/geometry.hpp"]).NamesSource ∧
      (geometryUnit ["geometry.hpp", "src/geometry.hpp"]).mainFile = 0 ∧
      ((geometryUnit ["geometry.hpp", "src/geometry.hpp"]).filePath 0).components ≠
        (geometryUnit ["geometry.hpp", "src/geometry.hpp"]).path.components := by
  refine ⟨rfl, ⟨⟨"src/geometry.hpp"⟩, ?_, ?_⟩, ?_, ?_⟩
  all_goals decide +kernel

end SourceUnit

end SpaceAudit
