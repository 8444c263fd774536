import Mathlib.Data.List.Basic
import SpaceAudit.Path.DumpName

/-! How the text of a path and its components hang together: a path whose last piece is a name ends
in that name whatever stands before it, and its dump ends in the same way. -/
namespace SpaceAudit

theorem mem_of_mem_splitOnP {cut : Char → Bool} {cs piece : List Char} {d : Char}
    (h : piece ∈ cs.splitOnP cut) (hd : d ∈ piece) : d ∈ cs ∧ cut d = false := by
  induction cs generalizing piece with
  | nil =>
    rw [List.splitOnP_nil, List.mem_singleton] at h
    rw [h] at hd
    cases hd
  | cons c cs ih =>
    rw [List.splitOnP_cons_eq_if_modifyHead] at h
    by_cases hc : cut c = true
    · rw [if_pos hc] at h
      rcases List.mem_cons.1 h with h | h
      · rw [h] at hd
        cases hd
      · exact ⟨List.mem_cons_of_mem c (ih h hd).1, (ih h hd).2⟩
    · rw [if_neg hc] at h
      cases hsplit : cs.splitOnP cut with
      | nil => exact absurd hsplit (List.splitOnP_ne_nil cut cs)
      | cons first rest =>
        rw [hsplit, List.modifyHead_cons] at h
        rw [hsplit] at ih
        rcases List.mem_cons.1 h with h | h
        · rw [h] at hd
          rcases List.mem_cons.1 hd with rfl | hd
          · exact ⟨List.mem_cons_self, Bool.not_eq_true _ ▸ hc⟩
          · have hfirst := ih List.mem_cons_self hd
            exact ⟨List.mem_cons_of_mem c hfirst.1, hfirst.2⟩
        · have hrest := ih (List.mem_cons_of_mem first h) hd
          exact ⟨List.mem_cons_of_mem c hrest.1, hrest.2⟩

namespace Component

def step? : Component → Option String
  | root | current => none
  | parent => some ".."
  | normal name => some name

end Component

namespace Path
variable {p q dir : Path} {front name other : String}

/-- What an entry of a folder can be called. -/
def isName (name : String) : Bool :=
  name != "" && name != "." && name != ".." && !name.toList.contains '/'

theorem isName_iff : isName name = true ↔
    name ≠ "" ∧ name ≠ "." ∧ name ≠ ".." ∧ '/' ∉ name.toList := by
  simp [isName, and_assoc]

/-- A piece that leads somewhere else: neither empty nor a dot. -/
def isStep (piece : String) : Bool := piece != "" && piece != "."

theorem ofFirst_of_isName (h : isName name = true) :
    Component.ofFirst name = some (.normal name) := by
  obtain ⟨h1, h2, h3, _⟩ := isName_iff.1 h
  unfold Component.ofFirst
  split <;> simp_all

theorem ofLater_of_isName (h : isName name = true) :
    Component.ofLater name = some (.normal name) := by
  obtain ⟨h1, h2, h3, _⟩ := isName_iff.1 h
  unfold Component.ofLater
  split <;> simp_all

theorem step?_ofFirst (piece : String) :
    (Component.ofFirst piece).toList.filterMap Component.step? =
      if isStep piece then [piece] else [] := by
  unfold Component.ofFirst
  split <;> simp_all [Component.step?, isStep]

theorem step?_ofLater (piece : String) :
    (Component.ofLater piece).bind Component.step? = if isStep piece then some piece else none := by
  unfold Component.ofLater
  split <;> simp_all [Component.step?, isStep]

theorem pieces_of_text (h : '/' ∉ name.toList) : (⟨name⟩ : Path).pieces = [name] := by
  simp [pieces, List.splitOn_eq_singleton h]

theorem pieces_slash (a b : String) :
    (⟨a ++ "/" ++ b⟩ : Path).pieces = (⟨a⟩ : Path).pieces ++ (⟨b⟩ : Path).pieces := by
  have htext : (a ++ "/" ++ b).toList = a.toList ++ '/' :: b.toList := by simp
  simp only [pieces, htext, List.splitOn_append_cons_self, List.map_append]

theorem pieces_empty : (⟨""⟩ : Path).pieces = [""] := pieces_of_text (by simp)

theorem pieces_trailing (a : String) : (⟨a ++ "/"⟩ : Path).pieces = (⟨a⟩ : Path).pieces ++ [""] := by
  have hslash := pieces_slash a ""
  rwa [String.append_empty, pieces_empty] at hslash

theorem pieces_ne_nil (p : Path) : p.pieces ≠ [] := by
  simp [pieces]

theorem isAbsolute_iff : p.isAbsolute = true ↔ ∃ rest, p.text = "/" ++ rest := by
  simp only [isAbsolute, beq_iff_eq, List.head?_eq_some_iff]
  constructor
  · rintro ⟨cs, hcs⟩
    exact ⟨String.ofList cs, String.toList_inj.1 (by simp [hcs])⟩
  · rintro ⟨rest, hrest⟩
    exact ⟨rest.toList, by simp [hrest]⟩

theorem pieces_of_isAbsolute (h : p.isAbsolute = true) : ∃ rest, p.pieces = "" :: rest := by
  obtain ⟨rest, hrest⟩ := isAbsolute_iff.1 h
  have hp : p = ⟨"" ++ "/" ++ rest⟩ := by
    cases p with
    | mk text => simp_all
  exact ⟨(⟨rest⟩ : Path).pieces, by rw [hp, pieces_slash, pieces_empty]; rfl⟩

theorem components_of_pieces {first : String} {rest : List String}
    (h : p.pieces = first :: rest) : p.components =
      (if p.isAbsolute then [.root] else (Component.ofFirst first).toList) ++
        rest.filterMap Component.ofLater := by
  simp only [components, h]

/-- What a path asks for when it is followed can be read off its components. -/
theorem steps_components (p : Path) :
    p.components.filterMap Component.step? = p.pieces.filter isStep := by
  have hlater (rest : List String) :
      (rest.filterMap Component.ofLater).filterMap Component.step? = rest.filter isStep := by
    rw [List.filterMap_filterMap, ← List.filterMap_eq_filter]
    refine List.filterMap_congr fun piece _ => ?_
    rw [step?_ofLater]
    rfl
  cases hpieces : p.pieces with
  | nil => exact absurd hpieces (pieces_ne_nil p)
  | cons first rest =>
    rw [components_of_pieces hpieces, List.filterMap_append, hlater, List.filter_cons]
    cases habs : p.isAbsolute with
    | true =>
      obtain ⟨rest', hrest'⟩ := pieces_of_isAbsolute habs
      obtain ⟨rfl, rfl⟩ := List.cons.inj (hpieces.symm.trans hrest')
      rfl
    | false =>
      simp only [Bool.false_eq_true, if_false, step?_ofFirst]
      split <;> rfl

theorem ofLater_ne_root (piece : String) : Component.ofLater piece ≠ some .root := by
  unfold Component.ofLater
  split <;> simp

theorem ofFirst_ne_root (piece : String) : Component.ofFirst piece ≠ some .root := by
  unfold Component.ofFirst
  split <;> simp

theorem isAbsolute_iff_root : p.isAbsolute = true ↔ .root ∈ p.components := by
  cases hpieces : p.pieces with
  | nil => exact absurd hpieces (pieces_ne_nil p)
  | cons first rest =>
    have hlater : .root ∉ rest.filterMap Component.ofLater := by
      intro h
      obtain ⟨piece, _, hpiece⟩ := List.mem_filterMap.1 h
      exact ofLater_ne_root piece hpiece
    rw [components_of_pieces hpieces, List.mem_append]
    cases p.isAbsolute with
    | true => simp
    | false => simp [hlater, Option.mem_toList, ofFirst_ne_root]

theorem isAbsolute_congr (h : p.components = q.components) : p.isAbsolute = q.isAbsolute := by
  rw [Bool.eq_iff_iff, isAbsolute_iff_root, isAbsolute_iff_root, h]

theorem slash_not_mem_piece {piece : String} (h : piece ∈ p.pieces) : '/' ∉ piece.toList := by
  obtain ⟨cs, hcs, rfl⟩ := List.mem_map.1 h
  rw [String.toList_ofList]
  intro hslash
  exact absurd (mem_of_mem_splitOnP hcs hslash).2 (by decide)

theorem eq_of_ofLater {piece n : String} (h : Component.ofLater piece = some (.normal n)) :
    piece = n ∧ n ≠ "" ∧ n ≠ "." ∧ n ≠ ".." := by
  unfold Component.ofLater at h
  split at h <;> simp_all

theorem eq_of_ofFirst {piece n : String} (h : Component.ofFirst piece = some (.normal n)) :
    piece = n ∧ n ≠ "" ∧ n ≠ "." ∧ n ≠ ".." := by
  unfold Component.ofFirst at h
  split at h <;> simp_all

theorem isName_of_mem_components {n : String} (h : .normal n ∈ p.components) : isName n = true := by
  have hpiece : ∃ piece ∈ p.pieces, piece = n ∧ n ≠ "" ∧ n ≠ "." ∧ n ≠ ".." := by
    cases hpieces : p.pieces with
    | nil => exact absurd hpieces (pieces_ne_nil p)
    | cons first rest =>
      rw [components_of_pieces hpieces, List.mem_append] at h
      cases h with
      | inl h =>
        split at h
        · simp at h
        · exact ⟨first, List.mem_cons_self, eq_of_ofFirst (Option.mem_toList.1 h)⟩
      | inr h =>
        obtain ⟨piece, hmem, hpiece⟩ := List.mem_filterMap.1 h
        exact ⟨piece, List.mem_cons_of_mem first hmem, eq_of_ofLater hpiece⟩
  obtain ⟨piece, hmem, rfl, h1, h2, h3⟩ := hpiece
  exact isName_iff.2 ⟨h1, h2, h3, slash_not_mem_piece hmem⟩

theorem components_of_isAbsolute (h : p.isAbsolute = true) :
    ∃ later, p.components = .root :: later ∧ ∀ c ∈ later, c = .parent ∨ ∃ n, c = .normal n := by
  cases hpieces : p.pieces with
  | nil => exact absurd hpieces (pieces_ne_nil p)
  | cons first rest =>
    refine ⟨rest.filterMap Component.ofLater, by simp [components_of_pieces hpieces, h], ?_⟩
    intro c hc
    obtain ⟨piece, _, hc⟩ := List.mem_filterMap.1 hc
    unfold Component.ofLater at hc
    split at hc
    · cases hc
    · cases hc
    · exact .inl (Option.some.inj hc).symm
    · exact .inr ⟨piece, (Option.some.inj hc).symm⟩

/-- The path is written as `front` and then `name`, and `name` is its last piece. -/
structure Ends (p : Path) (front name : String) : Prop where
  text : p.text = front ++ name
  front : front = "" ∨ ∃ a, front = a ++ "/"
  name : '/' ∉ name.toList

namespace Ends

theorem eq (h : p.Ends front name) : p = ⟨front ++ name⟩ := by
  cases p with
  | mk text => rw [← h.text]

theorem rename (h : p.Ends front name) (hother : '/' ∉ other.toList) :
    Path.Ends ⟨front ++ other⟩ front other := ⟨rfl, h.front, hother⟩

theorem pieces_eq (h : p.Ends front name) :
    ∃ before, p.pieces = before ++ [name] ∧
      before.filter isStep = (⟨front⟩ : Path).pieces.filter isStep := by
  have hname := pieces_of_text h.name
  cases h.front with
  | inl hfront =>
    have hp : p = ⟨name⟩ := by
      rw [h.eq, hfront, String.empty_append]
    exact ⟨[], by rw [hp, hname]; rfl, by rw [hfront]; rfl⟩
  | inr hfront =>
    obtain ⟨a, ha⟩ := hfront
    refine ⟨(⟨a⟩ : Path).pieces, ?_, by rw [ha, pieces_trailing]; simp [isStep]⟩
    rw [h.eq, ha, pieces_slash, hname]

theorem isAbsolute_eq (h : p.Ends front name) :
    p.isAbsolute = (⟨front⟩ : Path).isAbsolute := by
  cases h.front with
  | inl hfront =>
    have hname : p.isAbsolute = false := by
      rw [← Bool.not_eq_true, isAbsolute_iff]
      rintro ⟨rest, hrest⟩
      rw [h.text, hfront, String.empty_append] at hrest
      exact h.name (by simp [hrest])
    rw [hname, hfront]
    rfl
  | inr hfront =>
    obtain ⟨a, rfl⟩ := hfront
    rw [h.eq]
    unfold isAbsolute
    cases ha : a.toList with
    | nil => simp [ha]
    | cons c cs => simp [ha]

theorem components_concat {c : Component} (h : p.Ends front name)
    (hfirst : Component.ofFirst name = some c) (hlater : Component.ofLater name = some c) :
    p.components = (⟨front⟩ : Path).components ++ [c] := by
  have habs := h.isAbsolute_eq
  cases h.front with
  | inl hfront =>
    have hp : p.pieces = [name] := by
      rw [h.eq, hfront, String.empty_append, pieces_of_text h.name]
    rw [components_of_pieces hp, habs, hfront, components_of_pieces pieces_empty, hfirst]
    rfl
  | inr hfront =>
    obtain ⟨a, rfl⟩ := hfront
    have hp : p.pieces = (⟨a⟩ : Path).pieces ++ [name] := by
      rw [h.eq, pieces_slash, pieces_of_text h.name]
    have hfront := pieces_trailing a
    cases hpieces : (⟨a⟩ : Path).pieces with
    | nil => exact absurd hpieces (pieces_ne_nil _)
    | cons first rest =>
      rw [hpieces, List.cons_append] at hp hfront
      have hlast : [name].filterMap Component.ofLater = [c] := by simp [hlater]
      have hnone : [""].filterMap Component.ofLater = [] := rfl
      rw [components_of_pieces hp, components_of_pieces hfront, habs, List.filterMap_append,
        List.filterMap_append, hlast, hnone, List.append_nil, List.append_assoc]

theorem components_eq (h : p.Ends front name) (hname : isName name = true) :
    p.components = (⟨front⟩ : Path).components ++ [.normal name] :=
  h.components_concat (ofFirst_of_isName hname) (ofLater_of_isName hname)

theorem fileName?_eq (h : p.Ends front name) (hname : isName name = true) :
    p.fileName? = some name := by
  simp [fileName?, h.components_eq hname]

end Ends

def lead (dir : Path) : String :=
  if dir.text.toList.getLast? == some '/' then dir.text else dir.text ++ "/"

theorem lead_ends (dir : Path) : ∃ a, dir.lead = a ++ "/" := by
  unfold lead
  split
  · rename_i hlast
    obtain ⟨before, hbefore⟩ := List.getLast?_eq_some_iff.1 (beq_iff_eq.1 hlast)
    exact ⟨String.ofList before, String.toList_inj.1 (by simp [hbefore])⟩
  · exact ⟨dir.text, rfl⟩

theorem components_lead (h : dir.text ≠ "") : (⟨dir.lead⟩ : Path).components = dir.components := by
  unfold lead
  split
  · rfl
  · have hpieces : (⟨dir.text ++ "/"⟩ : Path).pieces = dir.pieces ++ [""] :=
      pieces_trailing dir.text
    have habs : (⟨dir.text ++ "/"⟩ : Path).isAbsolute = dir.isAbsolute := by
      unfold isAbsolute
      cases hcs : dir.text.toList with
      | nil => exact absurd (String.toList_inj.1 (by simp [hcs])) h
      | cons c cs => simp [hcs]
    cases hdir : dir.pieces with
    | nil => exact absurd hdir (pieces_ne_nil dir)
    | cons first rest =>
      rw [hdir, List.cons_append] at hpieces
      have hnone : [""].filterMap Component.ofLater = [] := rfl
      rw [components_of_pieces hpieces, components_of_pieces hdir, habs, List.filterMap_append,
        hnone, List.append_nil]

theorem text_child_of_relative (hdir : dir.text ≠ "")
    (hrel : (⟨name⟩ : Path).isAbsolute = false) : (dir.child name).text = dir.lead ++ name := by
  have hempty : dir.text.isEmpty = false := by simpa using hdir
  simp only [child, join, hrel, hempty, lead, Bool.false_or, Bool.false_eq_true, if_false]
  split <;> rfl

theorem ends_child (hdir : dir.text ≠ "") (hname : '/' ∉ name.toList) :
    (dir.child name).Ends dir.lead name := by
  have hrel : (⟨name⟩ : Path).isAbsolute = false := by
    rw [← Bool.not_eq_true, isAbsolute_iff]
    rintro ⟨rest, hrest⟩
    exact hname (by simp [show name = "/" ++ rest from hrest])
  exact ⟨text_child_of_relative hdir hrel, .inr dir.lead_ends, hname⟩

theorem components_child (hdir : dir.text ≠ "") (hname : isName name = true) :
    (dir.child name).components = dir.components ++ [.normal name] := by
  have hends := ends_child hdir (isName_iff.1 hname).2.2.2
  rw [hends.components_eq hname, components_lead hdir]

theorem text_child (hdir : dir.text ≠ "") (hname : isName name = true) :
    (dir.child name).text ≠ "" := by
  obtain ⟨hne, _, _, hslash⟩ := isName_iff.1 hname
  rw [(ends_child hdir hslash).text]
  intro h
  exact hne (String.append_eq_empty_iff.1 h).2

def below (dir : Path) (names : List String) : Path := names.foldl child dir

theorem below_concat (dir : Path) (names : List String) (name : String) :
    dir.below (names ++ [name]) = (dir.below names).child name := by
  simp [below]

theorem text_below {names : List String} (hdir : dir.text ≠ "")
    (hnames : ∀ n ∈ names, isName n = true) : (dir.below names).text ≠ "" := by
  induction names generalizing dir with
  | nil => exact hdir
  | cons n names ih =>
    exact ih (text_child hdir (hnames n List.mem_cons_self))
      fun m hm => hnames m (List.mem_cons_of_mem n hm)

theorem components_below {names : List String} (hdir : dir.text ≠ "")
    (hnames : ∀ n ∈ names, isName n = true) :
    (dir.below names).components = dir.components ++ names.map .normal := by
  induction names generalizing dir with
  | nil => simp [below]
  | cons n names ih =>
    have hn := hnames n List.mem_cons_self
    have hrest := ih (text_child hdir hn) fun m hm => hnames m (List.mem_cons_of_mem n hm)
    rw [components_child hdir hn] at hrest
    simpa [below] using hrest

theorem slash_not_mem_dumpExtension : '/' ∉ dumpExtension.toList := by decide

theorem Ends.dumpOf (h : p.Ends front name) :
    p.dumpOf.Ends front (name ++ "." ++ dumpExtension) := by
  refine ⟨?_, h.front, ?_⟩
  · simp [Path.dumpOf, h.text, String.append_assoc]
  · have hext := slash_not_mem_dumpExtension
    have hname := h.name
    simp_all

theorem cutName_dot {ext : String} (hname : name ≠ "") (hext : '.' ∉ ext.toList) :
    cutName (name ++ "." ++ ext) = (name, some ext) := by
  have hrev : (name ++ "." ++ ext).toList.reverse =
      ext.toList.reverse ++ '.' :: name.toList.reverse := by
    simp
  have hext' : ∀ c ∈ ext.toList.reverse, (c != '.') = true := by
    intro c hc
    rw [List.mem_reverse] at hc
    rw [bne_iff_ne]
    rintro rfl
    exact hext hc
  have hdrop : (name ++ "." ++ ext).toList.reverse.dropWhile (· != '.') =
      '.' :: name.toList.reverse := by
    rw [hrev, List.dropWhile_append_of_pos hext']
    rfl
  have htake : (name ++ "." ++ ext).toList.reverse.takeWhile (· != '.') = ext.toList.reverse := by
    rw [hrev, List.takeWhile_append_of_pos hext']
    simp
  cases hcs : name.toList.reverse with
  | nil => exact absurd (String.toList_inj.1 (by simpa using hcs)) hname
  | cons c before =>
    have hback : String.ofList (c :: before).reverse = name := by
      rw [← hcs, List.reverse_reverse, String.ofList_toList]
    have hback' : String.ofList ext.toList.reverse.reverse = ext := by
      rw [List.reverse_reverse, String.ofList_toList]
    rw [hcs] at hdrop
    simp only [cutName, hdrop, htake, hback, hback']

theorem isName_dot {ext : String} (hname : name ≠ "") (hdot : name ≠ ".")
    (hslash : '/' ∉ name.toList) (hext : '/' ∉ ext.toList) : isName (name ++ "." ++ ext) = true := by
  have htext : (name ++ "." ++ ext).toList = name.toList ++ '.' :: ext.toList := by simp
  rw [isName_iff]
  cases hcs : name.toList with
  | nil => exact absurd (String.toList_inj.1 (by simp [hcs])) hname
  | cons c cs =>
    rw [hcs] at htext
    refine ⟨?_, ?_, ?_, ?_⟩
    · intro h
      simp [h] at htext
    · intro h
      simp [h] at htext
    · intro h
      -- Two characters leave room for one dot before the last one.
      cases cs with
      | nil =>
        simp [h] at htext
        exact hdot (String.toList_inj.1 (by simp [hcs, ← htext.1]))
      | cons d ds => simp [h] at htext
    · rw [hcs] at hslash
      rw [htext]
      simp_all

theorem skipIdle_dot (hname : name ≠ "") (hslash : '/' ∉ name.toList) (front : String) :
    skipIdle (front ++ name ++ ".").toList.reverse = '.' :: (front ++ name).toList.reverse := by
  have hrev : (front ++ name ++ ".").toList.reverse = '.' :: (front ++ name).toList.reverse := by
    simp
  rw [hrev]
  cases hcs : name.toList.reverse with
  | nil => exact absurd (String.toList_inj.1 (by simpa using hcs)) hname
  | cons c before =>
    have hc : c ≠ '/' := by
      intro h
      exact hslash (List.mem_reverse.1 (by simp [hcs, h]))
    have htext : (front ++ name).toList.reverse = c :: (before ++ front.toList.reverse) := by
      simp [hcs]
    rw [htext]
    unfold skipIdle
    split <;> simp_all

theorem isName_dump (hname : name ≠ "") (hslash : '/' ∉ name.toList) :
    isName (name ++ "." ++ dumpExtension) = true := by
  by_cases hdot : name = "."
  · rw [hdot]
    decide
  · exact isName_dot hname hdot hslash slash_not_mem_dumpExtension

/-- Without the letters of the extension the dot is still there, and is left to be cut. -/
theorem Ends.sourceOf_dumpOf_eq (h : p.Ends front name) (hname : name ≠ "") :
    p.dumpOf.sourceOf = cutToStem ⟨front ++ (name ++ "." ++ "")⟩ := by
  have hfile : p.dumpOf.fileName? = some (name ++ "." ++ dumpExtension) :=
    h.dumpOf.fileName?_eq (isName_dump hname h.name)
  have hext : p.dumpOf.extension? = some dumpExtension := by
    rw [extension?, hfile, Option.bind_some, cutName_dot hname (by decide)]
  have hcut : p.dumpOf.text.toList.take (p.dumpOf.text.length - dumpExtension.length) =
      (front ++ (name ++ "." ++ "")).toList := by
    have htext : p.dumpOf.text.toList =
        (front ++ (name ++ "." ++ "")).toList ++ dumpExtension.toList := by
      simp [Path.dumpOf, h.text]
    rw [← String.length_toList, htext, List.length_append, String.length_toList,
      String.length_toList, Nat.add_sub_cancel]
    exact List.take_left' (String.length_toList)
  rw [sourceOf, if_pos hext, dropExtension]
  simp only [hext, hcut, String.ofList_toList]

/-- A source is what its dump was written for. -/
theorem Ends.sourceOf_dumpOf (h : p.Ends front name) (hname : name ≠ "") (hdot : name ≠ ".") :
    p.dumpOf.sourceOf = p := by
  have hends : Path.Ends ⟨front ++ (name ++ "." ++ "")⟩ front (name ++ "." ++ "") :=
    h.rename (by simpa using h.name)
  have hstem := hends.fileName?_eq (isName_dot hname hdot h.name (by simp))
  rw [h.sourceOf_dumpOf_eq hname]
  simp only [cutToStem, hstem, cutName_dot hname (by simp : '.' ∉ "".toList)]
  have hone : ".".length = 1 := by decide
  have hextra : (name ++ "." ++ "").length - name.length = 1 := by simp [hone]
  have hidle := skipIdle_dot hname h.name front
  rw [hextra, String.append_empty, ← String.append_assoc, hidle, List.drop_one, List.tail_cons,
    List.reverse_reverse, String.ofList_toList, ← h.text]

def Named (p : Path) : Prop := ∃ front name, p.Ends front name ∧ isName name = true

namespace Named

theorem child (hdir : dir.text ≠ "") (hname : isName name = true) : (dir.child name).Named :=
  ⟨dir.lead, name, ends_child hdir (isName_iff.1 hname).2.2.2, hname⟩

theorem sourceOf_dumpOf (h : p.Named) : p.dumpOf.sourceOf = p := by
  obtain ⟨front, name, hends, hname⟩ := h
  obtain ⟨hne, hdot, _⟩ := isName_iff.1 hname
  exact hends.sourceOf_dumpOf hne hdot

theorem dumpOf (h : p.Named) : p.dumpOf.Named := by
  obtain ⟨front, name, hends, hname⟩ := h
  exact ⟨front, _, hends.dumpOf, isName_dump (isName_iff.1 hname).1 hends.name⟩

theorem components_dumpOf (hp : p.Named) (hq : q.Named) (h : p.components = q.components) :
    p.dumpOf.components = q.dumpOf.components := by
  obtain ⟨front, name, hends, hname⟩ := hp
  obtain ⟨front', name', hends', hname'⟩ := hq
  rw [hends.components_eq hname, hends'.components_eq hname'] at h
  obtain ⟨hfront, hlast⟩ := List.append_inj' h rfl
  obtain rfl : name = name' := by simpa using hlast
  have hdump := isName_dump (isName_iff.1 hname).1 hends.name
  rw [hends.dumpOf.components_eq hdump, hends'.dumpOf.components_eq hdump, hfront]

end Named

end Path

end SpaceAudit
