import SpaceAudit.Project.Dumps
import SpaceAudit.Proofs.Project.Sources

/-! What is read from a dump depends on the path of its source, not on how that path is written. -/
namespace SpaceAudit

theorem SourceUnit.ofText_eq_map (dump other : Path) (text : String) :
    SourceUnit.ofText other text =
      (SourceUnit.ofText dump text).map fun u => { u with dumpPath := other } := by
  unfold SourceUnit.ofText
  cases Markup.parse text with
  | error fault => rfl
  | ok root =>
    unfold SourceUnit.ofElement
    simp only
    split
    · rfl
    · cases root.children.foldlM Load.Sheet.add ⟨.empty, false, [], []⟩ with
      | error r => rfl
      | ok s =>
        simp only
        split <;> rfl

theorem DumpFault.message_eq (e : DumpFault) :
    ∃ before after : String, ∀ dump, e.message dump = before ++ (dump.text ++ after) := by
  cases e with
  | unreadable e =>
    refine ⟨"Cannot read dump ", ": " ++ e.text, fun dump => ?_⟩
    change "Cannot read dump " ++ dump.text ++ ": " ++ e.text = _
    rw [String.append_assoc, String.append_assoc]
  | rejected r =>
    cases r with
    | notMarkup fault =>
      refine ⟨"Invalid XML in dump ", "", fun dump => ?_⟩
      change "Invalid XML in dump " ++ dump.text = _
      rw [String.append_empty]
    | wrongRoot name =>
      refine ⟨"Malformed dump ", ": unexpected root element <" ++ (name ++ ">"), fun dump => ?_⟩
      change "Malformed dump " ++ dump.text ++ ": unexpected root element <" ++ name ++ ">" = _
      rw [String.append_assoc, String.append_assoc, String.append_assoc]
    | nothing =>
      refine ⟨"Malformed dump ", ": neither raw tokens nor a configuration", fun dump => ?_⟩
      change "Malformed dump " ++ dump.text ++ ": neither raw tokens nor a configuration" = _
      rw [String.append_assoc]
    | withoutId kind =>
      refine ⟨"Malformed dump ", ": " ++ (kind.text ++ " without id"), fun dump => ?_⟩
      change "Malformed dump " ++ dump.text ++ ": " ++ kind.text ++ " without id" = _
      rw [String.append_assoc, String.append_assoc, String.append_assoc]

theorem DumpFault.eq_of_message {e : DumpFault} {dump other : Path}
    (h : e.message dump = e.message other) : dump = other := by
  obtain ⟨before, after, hmessage⟩ := e.message_eq
  rw [hmessage, hmessage, String.append_right_inj, String.append_left_inj] at h
  cases dump with
  | mk text =>
    cases other with
    | mk text' => exact congrArg Path.mk h
namespace FileSystem
variable {fs : FileSystem} {p f q : Path} {here : List String}

theorem place_dumpOf (hf : f.Named) (hq : q.Named) (hc : f.components = q.components)
    (h : fs.place f.dumpOf = .ok here) : fs.place q.dumpOf = .ok here := by
  have hdump := hf.components_dumpOf hq hc
  have hsteps := follow_steps_of_place h
  rw [base_congr hdump, steps, hdump, ← steps] at hsteps
  obtain ⟨front, name, hends, hname⟩ := hq.dumpOf
  exact place_of_ends hends (FileTree.isStep_of_isName hname).1 hsteps

theorem isFile_dumpOf (hf : f.Named) (hq : q.Named) (hc : f.components = q.components)
    (h : fs.isFile f.dumpOf = true) : fs.isFile q.dumpOf = true := by
  obtain ⟨here, bytes, hplace, hfile⟩ := place_of_isFile h
  exact isFile_of_place (place_dumpOf hf hq hc hplace) hfile

end FileSystem

namespace Dump
variable {fs : FileSystem} {dump f q : Path} {u : SourceUnit}

theorem mem_units_iff {dumps : List Path} :
    u ∈ units fs dumps ↔ ∃ dump ∈ dumps, read fs dump = .ok u := by
  rw [units, List.mem_filterMap]
  refine exists_congr fun dump => and_congr_right fun _ => ?_
  cases read fs dump with
  | error e => simp [Except.toOption]
  | ok v => simp [Except.toOption]

theorem read_eq_map {other : Path} (h : fs.readText dump = fs.readText other) :
    read fs other = (read fs dump).map fun u => { u with dumpPath := other } := by
  unfold read
  rw [h]
  cases fs.readText other with
  | error e => rfl
  | ok text =>
    simp only
    rw [SourceUnit.ofText_eq_map dump other text]
    cases SourceUnit.ofText dump text with
    | error r => rfl
    | ok u => rfl

theorem dumpPath_of_read (h : read fs dump = .ok u) : u.dumpPath = dump := by
  have hsame := read_eq_map (rfl : fs.readText dump = fs.readText dump)
  rw [h] at hsame
  exact congrArg SourceUnit.dumpPath (Except.ok.inj hsame)

theorem path_of_read (hf : f.Named) (h : read fs f.dumpOf = .ok u) : u.path = f := by
  rw [SourceUnit.path, dumpPath_of_read h, hf.sourceOf_dumpOf]

theorem isFile_of_read (h : read fs dump = .ok u) : fs.isFile dump = true := by
  unfold read at h
  split at h
  · cases h
  · rename_i text htext
    unfold FileSystem.readText at htext
    split at htext
    · cases htext
    · rename_i here hplace
      split at htext
      · cases htext
      · cases htext
      · rename_i hfile
        exact FileSystem.isFile_of_place hplace hfile

/-- The dump of a source is read alike, however the source is written. -/
theorem read_dumpOf (hf : f.Named) (hq : q.Named) (hc : f.components = q.components)
    (h : fs.isFile f.dumpOf = true) :
    read fs q.dumpOf = (read fs f.dumpOf).map fun u => { u with dumpPath := q.dumpOf } := by
  obtain ⟨here, bytes, hplace, _⟩ := FileSystem.place_of_isFile h
  refine read_eq_map ?_
  rw [FileSystem.readText, FileSystem.readText, hplace, FileSystem.place_dumpOf hf hq hc hplace]

end Dump

end SpaceAudit
