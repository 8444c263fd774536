import Mathlib.Data.List.TakeWhile
import SpaceAudit.Proofs.Project.Plan

/-! The names of dumps. The dump of a source leads back to the source unless the source is written
with a dot as its last piece: the dot and the one of the extension then make a step up. -/
namespace SpaceAudit

namespace Path
variable {p : Path} {front name front' name' : String}

section LastPiece

theorem exists_ends (p : Path) : ∃ front name, p.Ends front name := by
  have hsplit (cs : List Char) : ∃ front name : List Char, cs = front ++ name ∧
      (front = [] ∨ ∃ a, front = a ++ ['/']) ∧ '/' ∉ name := by
    induction cs using List.reverseRecOn with
    | nil => exact ⟨[], [], rfl, .inl rfl, by simp⟩
    | append_singleton cs c ih =>
      by_cases hc : c = '/'
      · exact ⟨cs ++ [c], [], by simp, .inr ⟨cs, by rw [hc]⟩, by simp⟩
      · obtain ⟨front, name, hcs, hfront, hname⟩ := ih
        refine ⟨front, name ++ [c], by rw [hcs, List.append_assoc], hfront, ?_⟩
        simp [hname, Ne.symm hc]
  obtain ⟨front, name, htext, hfront, hname⟩ := hsplit p.text.toList
  refine ⟨String.ofList front, String.ofList name, ?_, ?_, by simpa using hname⟩
  · exact String.toList_inj.1 (by simp [htext])
  · cases hfront with
    | inl hempty => exact .inl (congrArg String.ofList hempty)
    | inr hslash =>
      obtain ⟨a, ha⟩ := hslash
      exact .inr ⟨String.ofList a, String.toList_inj.1 (by simp [ha])⟩

namespace Ends

theorem name_unique (h : p.Ends front name) (h' : p.Ends front' name') : name = name' := by
  obtain ⟨before, hpieces, _⟩ := h.pieces_eq
  obtain ⟨before', hpieces', _⟩ := h'.pieces_eq
  rw [hpieces] at hpieces'
  simpa using (List.append_inj' hpieces' rfl).2

theorem name_ne_empty (h : p.Ends front name) (htext : p.text ≠ "")
    (hslash : p.text.toList.getLast? ≠ some '/') : name ≠ "" := by
  intro hname
  have hfront : p.text = front := by rw [h.text, hname, String.append_empty]
  cases h.front with
  | inl hempty => exact htext (hfront.trans hempty)
  | inr hends =>
    obtain ⟨a, ha⟩ := hends
    exact hslash (by simp [hfront, ha])

theorem steps_eq (h : p.Ends front name) : p.components.filterMap Component.step? =
    (⟨front⟩ : Path).pieces.filter isStep ++ [name].filter isStep := by
  obtain ⟨before, hpieces, hbefore⟩ := h.pieces_eq
  rw [steps_components, hpieces, List.filter_append, hbefore]

end Ends

end LastPiece

section Dot

/-- Behind a dot the extension's own dot makes a step up, which has no stem to be cut to. -/
theorem Ends.sourceOf_dumpOf_dot (h : p.Ends front ".") : p.dumpOf.sourceOf = ⟨p.text ++ "."⟩ := by
  have hup : Path.Ends ⟨front ++ ".."⟩ front ".." := h.rename (by decide)
  have hfile : (⟨front ++ ".."⟩ : Path).fileName? = none := by
    rw [fileName?, hup.components_concat rfl rfl, List.getLast?_concat]
  calc
    p.dumpOf.sourceOf = cutToStem ⟨front ++ ".."⟩ := h.sourceOf_dumpOf_eq (by decide)
    _ = ⟨front ++ ".."⟩ := by rw [cutToStem, hfile]
    _ = ⟨p.text ++ "."⟩ := by rw [h.text, String.append_assoc]; rfl

theorem Ends.components_dots_ne (h : p.Ends front ".") :
    (⟨p.text ++ "."⟩ : Path).components ≠ p.components := by
  have htext : (⟨p.text ++ "."⟩ : Path) = ⟨front ++ ".."⟩ := by
    rw [h.text, String.append_assoc]
    rfl
  have hup : Path.Ends ⟨front ++ ".."⟩ front ".." := h.rename (by decide)
  intro hsame
  have hsteps := congrArg (List.filterMap Component.step?) hsame
  rw [htext, hup.steps_eq, h.steps_eq, List.append_right_inj] at hsteps
  exact absurd hsteps (by decide)

/-- The dump of a path leads back to it exactly if the last piece is no dot, and then to the text as
it was written. -/
theorem sourceOf_dumpOf_same_iff (htext : p.text ≠ "")
    (hslash : p.text.toList.getLast? ≠ some '/') :
    (p.dumpOf.sourceOf.same p = true ↔ ¬ ∃ front, p.Ends front ".") ∧
      (p.dumpOf.sourceOf = p ↔ ¬ ∃ front, p.Ends front ".") := by
  obtain ⟨front, name, hends⟩ := p.exists_ends
  by_cases hdot : name = "."
  · subst hdot
    have hne := hends.components_dots_ne
    rw [← hends.sourceOf_dumpOf_dot] at hne
    refine ⟨⟨fun hsame => ?_, fun hnone => absurd ⟨front, hends⟩ hnone⟩,
      ⟨fun heq => ?_, fun hnone => absurd ⟨front, hends⟩ hnone⟩⟩
    · exact absurd (same_iff.1 hsame) hne
    · exact absurd (congrArg components heq) hne
  · have hback := hends.sourceOf_dumpOf (hends.name_ne_empty htext hslash) hdot
    have hnone : ¬ ∃ front, p.Ends front "." := by
      intro hexists
      obtain ⟨front', hends'⟩ := hexists
      exact hdot (hends.name_unique hends')
    exact ⟨iff_of_true (same_iff.2 (by rw [hback])) hnone, iff_of_true hback hnone⟩

end Dot

section Extension

theorem cutName_eq_some_iff {stem ext : String} : cutName name = (stem, some ext) ↔
    stem ≠ "" ∧ '.' ∉ ext.toList ∧ name = stem ++ "." ++ ext := by
  constructor
  · intro h
    have hparts := List.takeWhile_append_dropWhile (p := (· != '.')) (l := name.toList.reverse)
    have hhead := List.head?_dropWhile_not (· != '.') name.toList.reverse
    simp only [cutName] at h
    split at h
    · rename_i d c before hdrop
      obtain ⟨rfl, hext⟩ := Prod.mk.inj h
      obtain rfl := Option.some.inj hext
      rw [hdrop] at hparts hhead
      have hd : d = '.' := by simpa using hhead
      rw [hd] at hparts
      have htext : name.toList =
          (name.toList.reverse.takeWhile (· != '.') ++ '.' :: c :: before).reverse := by
        rw [hparts, List.reverse_reverse]
      refine ⟨by simp, ?_, String.toList_inj.1 (htext.trans (by simp))⟩
      intro hmem
      rw [String.toList_ofList, List.mem_reverse] at hmem
      exact absurd (List.mem_takeWhile_imp hmem) (by decide)
    · cases h
  · intro h
    obtain ⟨hstem, hext, rfl⟩ := h
    exact cutName_dot hstem hext

theorem extension?_eq_dump_iff : p.extension? = some dumpExtension ↔
    ∃ stem, stem ≠ "" ∧ p.fileName? = some (stem ++ ".dump") := by
  have hdot (stem : String) : stem ++ "." ++ dumpExtension = stem ++ ".dump" := by
    rw [String.append_assoc]
    rfl
  rw [extension?, Option.bind_eq_some_iff]
  constructor
  · intro h
    obtain ⟨name, hname, hext⟩ := h
    obtain ⟨hstem, _, hcut⟩ := cutName_eq_some_iff.1 (Prod.ext rfl hext)
    exact ⟨(cutName name).1, hstem, by rw [hname, ← hdot, ← hcut]⟩
  · intro h
    obtain ⟨stem, hstem, hname⟩ := h
    exact ⟨stem ++ ".dump", hname, by rw [← hdot, cutName_dot hstem (by decide)]⟩

theorem length_skipIdle_le (cs : List Char) : (skipIdle cs).length ≤ cs.length := by
  fun_induction skipIdle cs with
  | case1 cs ih => exact Nat.le_succ_of_le ih
  | case2 cs ih => exact Nat.le_succ_of_le (Nat.le_succ_of_le ih)
  | case3 cs => exact Nat.le_refl _

theorem length_cutToStem_le (p : Path) : p.cutToStem.text.length ≤ p.text.length := by
  rw [cutToStem]
  split
  · exact Nat.le_refl _
  · rename_i name _
    have hskip := length_skipIdle_le p.text.toList.reverse
    rw [List.length_reverse, String.length_toList] at hskip
    simp only [String.length_ofList, List.length_reverse, List.length_drop]
    omega

theorem sourceOf_eq_self_iff : p.sourceOf = p ↔
    ∀ stem, stem ≠ "" → p.fileName? ≠ some (stem ++ ".dump") := by
  constructor
  · intro hself stem hstem hname
    have hext := extension?_eq_dump_iff.2 ⟨stem, hstem, hname⟩
    rw [sourceOf, if_pos hext, dropExtension] at hself
    simp only [hext] at hself
    -- The letters of the extension are gone for good.
    have hle := length_cutToStem_le
      ⟨String.ofList (p.text.toList.take (p.text.length - dumpExtension.length))⟩
    have hletters : dumpExtension.length = 4 := by decide
    rw [hself, String.length_ofList, List.length_take, String.length_toList, hletters] at hle
    have hempty : p.text = "" := String.length_eq_zero_iff.1 (by omega)
    have hnone : p.fileName? = none := by
      cases p with
      | mk text =>
        subst hempty
        decide
    rw [hnone] at hname
    cases hname
  · intro hnone
    rw [sourceOf, if_neg]
    intro hext
    obtain ⟨stem, hstem, hname⟩ := extension?_eq_dump_iff.1 hext
    exact hnone stem hstem hname

end Extension

theorem dumpOf_injective {p q : Path} (h : p.dumpOf = q.dumpOf) : p = q := by
  have htext : p.text ++ "." ++ dumpExtension = q.text ++ "." ++ dumpExtension := congrArg text h
  rw [String.append_left_inj, String.append_left_inj] at htext
  cases p with
  | mk a =>
    cases q with
    | mk b => exact congrArg Path.mk htext

/-- Dumps and sources correspond, but for a source written with a dot as its last piece. Its dump
leads one step up; any other dump leads back to its source, and for a source of a project, which
ends in a name, so does the unit that is loaded from it. No other text has the same dump, and what
is not called like a dump is its own source. -/
theorem sourceOf_inverts_dumpOf (p : Path) :
    (p.text ≠ "" → p.text.toList.getLast? ≠ some '/' →
      (p.dumpOf.sourceOf.same p = true ↔ ¬ ∃ front, p.Ends front ".") ∧
      (p.dumpOf.sourceOf = p ↔ ¬ ∃ front, p.Ends front ".") ∧
      ((∃ front, p.Ends front ".") → p.dumpOf.sourceOf = ⟨p.text ++ "."⟩)) ∧
    (∀ (fs : FileSystem) (project : Project), fs.tree.wellNamed = true →
      ∀ g ∈ project.groups fs, p ∈ g.files →
        ∀ u, Dump.read fs p.dumpOf = .ok u → u.path = p) ∧
    (∀ q : Path, p.dumpOf = q.dumpOf → p = q) ∧
    (p.sourceOf = p ↔ ∀ stem, stem ≠ "" → p.fileName? ≠ some (stem ++ ".dump")) := by
  refine ⟨fun htext hslash => ?_, fun fs project hwell g hg hp u hread => ?_,
    fun q => dumpOf_injective, sourceOf_eq_self_iff⟩
  · obtain ⟨hsame, htexts⟩ := sourceOf_dumpOf_same_iff htext hslash
    refine ⟨hsame, htexts, fun hexists => ?_⟩
    obtain ⟨front, hends⟩ := hexists
    exact hends.sourceOf_dumpOf_dot
  · exact Dump.path_of_read (Project.named_of_mem_groups hwell hg hp) hread

def hiddenSource : Path := ⟨"x/../.hidden.dump"⟩

theorem hiddenSource_ends : hiddenSource.Ends "x/../" ".hidden.dump" :=
  ⟨by decide, .inr ⟨"x/..", by decide⟩, by decide⟩

def dumpedTree : FileSystem where
  tree := .folder [("work", .folder [("src", .folder
    [("a.cpp", .file ⟨#[]⟩), ("a.cpp.dump", .file "<dumps><rawtokens/></dumps>".toUTF8)])])]
  folder := ["work"]

def dumpedProject : Project := ⟨.standard, ⟨"/work"⟩, [], none⟩

theorem sourceOf_inverts_dumpOf_hidden :
    (hiddenSource.text ≠ "" ∧ hiddenSource.text.toList.getLast? ≠ some '/' ∧
      (¬ ∃ front, hiddenSource.Ends front ".") ∧
      hiddenSource.dumpOf.sourceOf.same hiddenSource = true) ∧
    (dumpedTree.tree.wellNamed = true ∧
      ∃ g ∈ dumpedProject.groups dumpedTree, ⟨"/work/src/a.cpp"⟩ ∈ g.files ∧
        ∃ u, Dump.read dumpedTree ⟨"/work/src/a.cpp.dump"⟩ = .ok u ∧ u.path = ⟨"/work/src/a.cpp"⟩) ∧
    (⟨"x/.dump"⟩ : Path).sourceOf = ⟨"x/.dump"⟩ := by
  have htext : hiddenSource.text ≠ "" := by decide
  have hslash : hiddenSource.text.toList.getLast? ≠ some '/' := by decide
  have hnone : ¬ ∃ front, hiddenSource.Ends front "." := by
    intro hexists
    obtain ⟨front, hends⟩ := hexists
    exact absurd (hiddenSource_ends.name_unique hends) (by decide)
  obtain ⟨hback, _⟩ := sourceOf_inverts_dumpOf hiddenSource
  obtain ⟨_, hunits, _⟩ := sourceOf_inverts_dumpOf ⟨"/work/src/a.cpp"⟩
  obtain ⟨_, _, _, hself⟩ := sourceOf_inverts_dumpOf ⟨"x/.dump"⟩
  refine ⟨⟨htext, hslash, hnone, (hback htext hslash).1.2 hnone⟩, ?_, ?_⟩
  · have hwell : dumpedTree.tree.wellNamed = true := by decide +kernel
    have hgroups : dumpedProject.groups dumpedTree =
        [⟨"general", [⟨"/work/src/a.cpp"⟩], false⟩] := by decide +kernel
    have hread : (Dump.read dumpedTree ⟨"/work/src/a.cpp.dump"⟩).toOption.isSome = true := by
      decide +kernel
    have hgroup := hunits dumpedTree dumpedProject hwell
    rw [hgroups] at hgroup ⊢
    cases hu : Dump.read dumpedTree ⟨"/work/src/a.cpp.dump"⟩ with
    | error e =>
      rw [hu] at hread
      cases hread
    | ok u =>
      exact ⟨hwell, _, List.mem_cons_self, List.mem_cons_self, u, rfl,
        hgroup _ List.mem_cons_self List.mem_cons_self u hu⟩
  · refine hself.2 fun stem hstem hname => ?_
    have hfile : (⟨"x/.dump"⟩ : Path).fileName? = some ".dump" := by decide
    rw [hfile] at hname
    exact hstem ((String.append_left_inj ".dump").1 (Option.some.inj hname).symm)

/-- A dot has a dump that leads to the folder above. -/
theorem dot_dump_leads_up :
    (⟨"."⟩ : Path).text ≠ "" ∧ (⟨"."⟩ : Path).text.toList.getLast? ≠ some '/' ∧
      (⟨"."⟩ : Path).dumpOf = ⟨"..dump"⟩ ∧ (⟨"..dump"⟩ : Path).sourceOf = ⟨".."⟩ ∧
      (⟨".."⟩ : Path).same ⟨"."⟩ = false := by
  decide

end Path

end SpaceAudit
