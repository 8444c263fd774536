import SpaceAudit.Proofs.Include.Pieces
import SpaceAudit.Proofs.Sketch.RoundTrip

/-! The includes of a sketch. A full dump shows them in its directives and a header's dump only in
its raw tokens; both ways recover every target, in order and however it is spelled. -/
namespace SpaceAudit

namespace Include

theorem ofDirective?_quoted {target : String} (h : '"' ∉ target.toList) :
    ofDirective? ("#include \"" ++ target ++ "\"") = some ⟨target, true⟩ := by
  have hline : ofDirective? ("" ++ "#" ++ "" ++ "include" ++ " " ++ "\"" ++ target ++ "\"" ++ "") =
      some ⟨target, true⟩ :=
    ofDirective?_line .quotes (by decide) (by decide) (by decide) h ""
  have hfront : "" ++ "#" ++ "" ++ "include" ++ " " ++ "\"" = "#include \"" := by decide
  rwa [String.append_empty, hfront] at hline

theorem unquote?_quoted (target : String) : unquote? ("\"" ++ target ++ "\"") = some target := by
  have hchars : ("\"" ++ target ++ "\"").toList = '"' :: (target.toList ++ ['"']) := by
    rw [String.toList_append, String.toList_append]
    rfl
  rw [unquote?, hchars]
  simp

theorem ofRaw_of_ne {text : String} (h : text ≠ "#") (texts : List String) :
    ofRaw (text :: texts) = ofRaw texts := by
  cases texts with
  | nil => rfl
  | cons b texts =>
    cases texts with
    | nil => rfl
    | cons c texts => simp [ofRaw, h]

theorem ofRaw_eq_nil {texts : List String} (h : ∀ text ∈ texts, text ≠ "#") : ofRaw texts = [] := by
  induction texts with
  | nil => rfl
  | cons text texts ih =>
    obtain ⟨htext, htexts⟩ := List.forall_mem_cons.1 h
    rw [ofRaw_of_ne htext, ih htexts]

def rawTexts (target : String) : List String := ["#", "include", "\"" ++ target ++ "\""]

theorem ofRaw_rawTexts (target : String) (texts : List String) :
    ofRaw (rawTexts target ++ texts) = ⟨target, true⟩ :: ofRaw texts := by
  have hquoted : "\"" ++ target ++ "\"" ≠ "#" := by
    intro h
    have hhead := congrArg (fun text => text.toList.head?) h
    simp at hhead
  calc
    ofRaw (rawTexts target ++ texts) =
        ⟨target, true⟩ :: ofRaw ("include" :: ("\"" ++ target ++ "\"") :: texts) := by
      simp [rawTexts, ofRaw, unquote?_quoted]
    _ = ⟨target, true⟩ :: ofRaw texts := by
      rw [ofRaw_of_ne (by decide), ofRaw_of_ne hquoted]

theorem ofRaw_targets (targets : List String) {texts : List String}
    (h : ∀ text ∈ texts, text ≠ "#") :
    ofRaw (targets.flatMap rawTexts ++ texts) = targets.map fun target => ⟨target, true⟩ := by
  induction targets with
  | nil => exact ofRaw_eq_nil h
  | cons target targets ih =>
    rw [List.flatMap_cons, List.append_assoc, ofRaw_rawTexts, ih, List.map_cons]

end Include

namespace SourceUnit
variable {u : SourceUnit}

theorem mainFile_of_files {p : Path} (h : u.files = [p]) : u.mainFile = 0 := by
  rw [mainFile, h]
  cases hp : p.overlaps u.path <;> simp [hp]

theorem includes_of_recovered {targets : List Include}
    (hraw : Include.ofRaw u.mainRawTexts = targets)
    (hdirectives : u.directiveIncludes = targets ∨ u.directiveIncludes = []) :
    u.includes = targets := by
  cases hdirectives with
  | inr hnone => rw [includes, hnone, List.isEmpty_nil, if_pos rfl, hraw]
  | inl hall =>
    -- Without targets both ways find nothing.
    cases targets with
    | nil => rw [includes, hall, List.isEmpty_nil, if_pos rfl, hraw]
    | cons target targets => rw [includes, hall, List.isEmpty_cons, if_neg Bool.false_ne_true]

end SourceUnit

namespace Sketch
variable {s : Sketch}

/-- Raw tokens and configuration are written. -/
def inFull (s : Sketch) : Sketch := { s with headerOnly := false }

def quotedIncludes (s : Sketch) : List Include := s.includes.map fun target => ⟨target, true⟩

section Units

theorem mainRawTexts_unit (cs : List Configuration) : (s.unit cs).mainRawTexts =
    s.includes.flatMap Include.rawTexts ++ s.layout.placed.map Placed.text := by
  have hmain : (s.unit cs).mainFile = 0 := SourceUnit.mainFile_of_files rfl
  have hown : (s.rawLaid s.positions).filter (fun t => t.file == 0) = s.rawLaid s.positions :=
    List.filter_eq_self.2 (List.forall_mem_map.2 fun _ _ => rfl)
  have hincludes : s.includes.zipIdx.flatMap (fun p => Include.rawTexts p.1) =
      s.includes.flatMap Include.rawTexts := by
    rw [← List.flatMap_map Prod.fst, List.zipIdx_map_fst]
  calc
    (s.unit cs).mainRawTexts =
        ((s.rawLaid s.positions).filter fun t => t.file == 0).map RawToken.text := by
      rw [SourceUnit.mainRawTexts, hmain]
      rfl
    _ = (s.rawPlaces s.positions).map fun q => q.2.2 := by
      rw [hown, rawLaid, List.map_map]
      rfl
    _ = s.includes.zipIdx.flatMap (fun p => Include.rawTexts p.1) ++
        s.layout.placed.map Placed.text := by
      rw [rawPlaces, positions, List.map_append, List.map_flatMap, List.map_map]
      rfl
    _ = s.includes.flatMap Include.rawTexts ++ s.layout.placed.map Placed.text := by
      rw [hincludes]

theorem placed_texts (h : s.Plain) : s.layout.placed.map Placed.text = s.words.map Word.text := by
  rw [eq_comm, ← List.forall₂_eq_eq_eq, List.forall₂_map_left_iff, List.forall₂_map_right_iff]
  exact (layout_holds h.lines).placed.imp fun w p hat => hat.1.symm

theorem ofRaw_unit (h : s.Plain) (hhash : ∀ w ∈ s.words, w.text ≠ "#") (cs : List Configuration) :
    Include.ofRaw (s.unit cs).mainRawTexts = s.quotedIncludes := by
  rw [mainRawTexts_unit, placed_texts h]
  exact Include.ofRaw_targets s.includes (List.forall_mem_map.2 hhash)

/-- The directives stand in the sketch's own file, so either all of them count or none does. -/
theorem directiveIncludes_unit (hquote : ∀ target ∈ s.includes, '"' ∉ target.toList)
    {c : Configuration} (hc : c.directives = s.directivesLaid) :
    (s.unit [c]).directiveIncludes =
      if s.source.overlaps s.source.dumpOf.sourceOf then s.quotedIncludes else [] := by
  have hfile : ∀ d ∈ c.directives, d.file = s.source := by
    rw [hc]
    exact List.forall_mem_map.2 fun _ _ => rfl
  have hread : c.directives.filterMap Directive.include? = s.quotedIncludes := by
    rw [hc, directivesLaid, List.filterMap_map, quotedIncludes, ← map_zipIdx_fst, ← List.filterMap_eq_map]
    refine List.filterMap_congr fun p hp => ?_
    exact Include.ofDirective?_quoted (hquote p.1 (List.fst_mem_of_mem_zipIdx hp))
  have hquoted : s.quotedIncludes.filter Include.quoted = s.quotedIncludes :=
    List.filter_eq_self.2 (List.forall_mem_map.2 fun _ _ => rfl)
  have hfilter : c.directives.filter (fun d => d.file.overlaps s.source.dumpOf.sourceOf) =
      c.directives.filter fun _ => s.source.overlaps s.source.dumpOf.sourceOf :=
    List.filter_congr fun d hd => by rw [hfile d hd]
  have hunit : (s.unit [c]).directiveIncludes =
      ((c.directives.filter fun d => d.file.overlaps s.source.dumpOf.sourceOf).filterMap
        Directive.include?).filter Include.quoted := rfl
  rw [hunit, hfilter]
  cases s.source.overlaps s.source.dumpOf.sourceOf with
  | true => rw [List.filter_true, hread, hquoted, if_pos rfl]
  | false => rw [List.filter_false, List.filterMap_nil, List.filter_nil, if_neg Bool.false_ne_true]

end Units

section Loading

theorem load_asHeader (h : s.Plain) : s.asHeader.load = .ok (s.unit []) := by
  have hplain : s.asHeader.Plain := ⟨h.texts, h.lines⟩
  exact hplain.load_header rfl

theorem load_inFull (h : s.Plain) :
    ∃ c, s.inFull.load = .ok (s.unit [c]) ∧ c.directives = s.directivesLaid := by
  have hplain : s.inFull.Plain := ⟨h.texts, h.lines⟩
  obtain ⟨c, hc, _, _, hholds, _⟩ := s.inFull.exists_holds
  exact ⟨c, hplain.load_full rfl hc, directives_of_holds hholds⟩

end Loading

/-- Directives and raw tokens show the same includes: those of the sketch, in their order. Without
a configuration only the raw tokens can show them; the directives of a full dump show all of them,
or none when the dump's name does not lead back to the source. -/
theorem includes_agree (s : Sketch) (h : s.Plain)
    (hquote : ∀ target ∈ s.includes, '"' ∉ target.toList)
    (hhash : ∀ w ∈ s.words, w.text ≠ "#") :
    ∃ header full, s.asHeader.load = .ok header ∧ s.inFull.load = .ok full ∧
      header.directiveIncludes = [] ∧
      full.directiveIncludes =
        (if s.source.overlaps s.source.dumpOf.sourceOf then s.quotedIncludes else []) ∧
      header.includes = s.quotedIncludes ∧ full.includes = s.quotedIncludes := by
  obtain ⟨c, hfull, hdirectives⟩ := load_inFull h
  have hshown := directiveIncludes_unit hquote hdirectives
  refine ⟨s.unit [], s.unit [c], load_asHeader h, hfull, rfl, hshown, ?_, ?_⟩
  · exact SourceUnit.includes_of_recovered (ofRaw_unit h hhash []) (.inr rfl)
  · apply SourceUnit.includes_of_recovered (ofRaw_unit h hhash [c])
    rw [hshown]
    split
    · exact .inl rfl
    · exact .inr rfl

/-- Targets with blanks, angles, slashes, a `#` and letters beyond ASCII, above code in which `#` is
part of a word. Two scopes share a key. -/
def oddIncludes : Sketch :=
  (start ⟨"src/ä&b.cpp"⟩)
    |>.addInclude "../my lib/x<y>.hpp"
    |>.addInclude "#include"
    |>.addInclude "größe.hpp"
    |>.addInclude ""
    |>.addScope "C" "Class" "C" globalKey
    |>.addScope "C" "Class" "D" globalKey
    |>.addLine "include \"late.hpp\" ## class@C ;"

theorem includes_agree_odd :
    oddIncludes.Plain ∧ (∀ target ∈ oddIncludes.includes, '"' ∉ target.toList) ∧
      (∀ w ∈ oddIncludes.words, w.text ≠ "#") ∧
      ∃ header full, oddIncludes.asHeader.load = .ok header ∧ oddIncludes.inFull.load = .ok full ∧
        header.directiveIncludes = [] ∧ full.directiveIncludes = oddIncludes.quotedIncludes ∧
        header.includes = oddIncludes.quotedIncludes ∧ full.includes = oddIncludes.quotedIncludes := by
  have hplain : oddIncludes.Plain := ⟨by decide +kernel, by decide +kernel⟩
  have hquote : ∀ target ∈ oddIncludes.includes, '"' ∉ target.toList := by decide +kernel
  have hhash : ∀ w ∈ oddIncludes.words, w.text ≠ "#" := by decide +kernel
  have hown : oddIncludes.source.overlaps oddIncludes.source.dumpOf.sourceOf = true := by
    decide +kernel
  obtain ⟨header, full, hheader, hfull, hnone, hshown, hsame⟩ :=
    includes_agree oddIncludes hplain hquote hhash
  rw [hown, if_pos rfl] at hshown
  exact ⟨hplain, hquote, hhash, header, full, hheader, hfull, hnone, hshown, hsame⟩

end Sketch

end SpaceAudit
