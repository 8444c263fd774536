import SpaceAudit.Project.Sources
import SpaceAudit.Proofs.Path.Pieces

/-! What a path leads to in a tree of files depends on its components only, and the sources below a
folder are the files that names lead to from there. -/
namespace SpaceAudit

open SpaceAudit.Path (isName isStep)

namespace FileTree
variable {t u : FileTree} {here there names : List String} {entries : List (String × FileTree)}
  {name piece : String}

theorem get?_append (t : FileTree) (xs ys : List String) :
    t.get? (xs ++ ys) = (t.get? xs).bind (·.get? ys) := by
  induction xs generalizing t with
  | nil => cases t <;> simp [get?]
  | cons x xs ih =>
    cases t with
    | file bytes => simp [get?]
    | folder entries =>
      simp only [List.cons_append, get?]
      cases entries.lookup x with
      | none => rfl
      | some t => exact ih t

/-- Where a piece of a path leads from a folder. -/
inductive Moves (entries : List (String × FileTree)) (here : List String) :
    String → List String → Prop where
  | stay {piece : String} (h : isStep piece = false) : Moves entries here piece here
  | up : Moves entries here ".." here.dropLast
  | into {piece : String} (h : isStep piece = true) (hup : piece ≠ "..")
      (hentry : (entries.lookup piece).isSome) : Moves entries here piece (here ++ [piece])

theorem follow_cons_eq_ok {rest : List String} :
    t.follow here (piece :: rest) = .ok there ↔
      ∃ entries next, t.get? here = some (folder entries) ∧ Moves entries here piece next ∧
        t.follow next rest = .ok there := by
  constructor
  · intro h
    unfold follow at h
    split at h
    · cases h
    · cases h
    · rename_i entries hfolder
      split at h
      · rename_i hidle
        have hstay : isStep piece = false := by
          cases hidle with
          | inl hidle => simp [isStep, hidle]
          | inr hidle => simp [isStep, hidle]
        exact ⟨entries, here, hfolder, .stay hstay, h⟩
      · rename_i hstep
        split at h
        · rename_i hup
          subst hup
          exact ⟨entries, _, hfolder, .up, h⟩
        · rename_i hup
          split at h
          · rename_i hentry
            have hinto : isStep piece = true := by
              simpa [isStep] using hstep
            exact ⟨entries, _, hfolder, .into hinto hup hentry, h⟩
          · cases h
  · rintro ⟨entries, next, hfolder, hmoves, hrest⟩
    unfold follow
    cases hmoves with
    | stay h =>
      have hidle : piece = "" ∨ piece = "." := by
        simpa [isStep, Classical.or_iff_not_imp_left] using h
      simp only [hfolder, if_pos hidle, hrest]
    | up => simpa [hfolder] using hrest
    | into h hup hentry =>
      have hstep : ¬ (piece = "" ∨ piece = ".") := by
        simpa [isStep] using h
      simp only [hfolder, if_neg hstep, if_neg hup, if_pos hentry, hrest]

theorem follow_append_eq_ok {ps qs : List String} :
    t.follow here (ps ++ qs) = .ok there ↔
      ∃ mid, t.follow here ps = .ok mid ∧ t.follow mid qs = .ok there := by
  induction ps generalizing here with
  | nil => simp [follow]
  | cons piece ps ih =>
    simp only [List.cons_append, follow_cons_eq_ok, ih]
    constructor
    · rintro ⟨entries, next, hfolder, hmoves, mid, hps, hqs⟩
      exact ⟨mid, ⟨entries, next, hfolder, hmoves, hps⟩, hqs⟩
    · rintro ⟨mid, ⟨entries, next, hfolder, hmoves, hps⟩, hqs⟩
      exact ⟨entries, next, hfolder, hmoves, mid, hps, hqs⟩

theorem Moves.eq_of_isStep_false {next : List String} (h : Moves entries here piece next)
    (hidle : isStep piece = false) : next = here := by
  cases h with
  | stay => rfl
  | up => exact absurd hidle (by decide)
  | into hstep => rw [hstep] at hidle; cases hidle

theorem follow_steps {ps : List String} (h : t.follow here ps = .ok there) :
    t.follow here (ps.filter isStep) = .ok there := by
  induction ps generalizing here with
  | nil => exact h
  | cons piece ps ih =>
    obtain ⟨entries, next, hfolder, hmoves, hrest⟩ := follow_cons_eq_ok.1 h
    cases hstep : isStep piece with
    | true =>
      rw [List.filter_cons_of_pos hstep]
      exact follow_cons_eq_ok.2 ⟨entries, next, hfolder, hmoves, ih hrest⟩
    | false =>
      rw [List.filter_cons_of_neg (by simp [hstep])]
      rw [hmoves.eq_of_isStep_false hstep] at hrest
      exact ih hrest

theorem follow_of_steps {ps : List String} (h : t.follow here (ps.filter isStep) = .ok there)
    (hthere : t.get? there = some (folder entries)) : t.follow here ps = .ok there := by
  induction ps generalizing here with
  | nil => exact h
  | cons piece ps ih =>
    cases hstep : isStep piece with
    | true =>
      rw [List.filter_cons_of_pos hstep] at h
      obtain ⟨entries, next, hfolder, hmoves, hrest⟩ := follow_cons_eq_ok.1 h
      exact follow_cons_eq_ok.2 ⟨entries, next, hfolder, hmoves, ih hrest⟩
    | false =>
      rw [List.filter_cons_of_neg (by simp [hstep])] at h
      -- The idle piece asks for a folder here: the way goes on from here, or it ends here.
      have hhere : ∃ es, t.get? here = some (folder es) := by
        cases hsteps : ps.filter isStep with
        | nil =>
          rw [hsteps] at h
          obtain rfl : here = there := Except.ok.inj h
          exact ⟨entries, hthere⟩
        | cons next rest =>
          rw [hsteps] at h
          obtain ⟨es, _, hes, _⟩ := follow_cons_eq_ok.1 h
          exact ⟨es, hes⟩
      obtain ⟨es, hes⟩ := hhere
      exact follow_cons_eq_ok.2 ⟨es, here, hes, .stay hstep, ih h⟩

theorem isStep_of_isName (h : isName name = true) : isStep name = true ∧ name ≠ ".." := by
  obtain ⟨h1, h2, h3, _⟩ := Path.isName_iff.1 h
  simp [isStep, h1, h2, h3]

theorem eq_of_follow_names (hnames : ∀ n ∈ names, isName n = true)
    (h : t.follow here names = .ok there) : there = here ++ names := by
  induction names generalizing here with
  | nil =>
    obtain rfl : here = there := Except.ok.inj h
    simp
  | cons n names ih =>
    obtain ⟨hstep, hup⟩ := isStep_of_isName (hnames n List.mem_cons_self)
    obtain ⟨entries, next, hfolder, hmoves, hrest⟩ := follow_cons_eq_ok.1 h
    have hnext : next = here ++ [n] := by
      cases hmoves with
      | stay hidle => rw [hstep] at hidle; cases hidle
      | up => exact absurd rfl hup
      | into => rfl
    rw [ih (fun m hm => hnames m (List.mem_cons_of_mem n hm)) hrest, hnext, List.append_assoc]
    rfl

theorem follow_names (hnames : ∀ n ∈ names, isName n = true)
    (h : (t.get? (here ++ names)).isSome) : t.follow here names = .ok (here ++ names) := by
  induction names generalizing here with
  | nil => simp [follow]
  | cons n names ih =>
    obtain ⟨hstep, hup⟩ := isStep_of_isName (hnames n List.mem_cons_self)
    have hrest : t.follow (here ++ [n]) names = .ok (here ++ [n] ++ names) :=
      ih (fun m hm => hnames m (List.mem_cons_of_mem n hm)) (by simpa using h)
    rw [get?_append] at h
    cases hhere : t.get? here with
    | none => simp [hhere] at h
    | some u =>
      cases u with
      | file bytes => simp [hhere, get?] at h
      | folder entries =>
        have hentry : (entries.lookup n).isSome := by
          cases hlookup : entries.lookup n with
          | none => simp [hhere, get?, hlookup] at h
          | some t => rfl
        rw [List.append_assoc] at hrest
        exact follow_cons_eq_ok.2 ⟨entries, _, hhere, .into hstep hup hentry, hrest⟩

mutual

/-- Every name in the tree is a single piece of a path, and a folder has no two entries of one
name. -/
def wellNamed : FileTree → Bool
  | file _ => true
  | folder entries => wellNamedIn entries

def wellNamedIn : List (String × FileTree) → Bool
  | [] => true
  | (name, t) :: rest =>
    isName name && !(rest.map Prod.fst).contains name && t.wellNamed && wellNamedIn rest

end

theorem wellNamedIn_cons {rest : List (String × FileTree)} :
    wellNamedIn ((name, t) :: rest) = true ↔
      isName name = true ∧ name ∉ rest.map Prod.fst ∧ t.wellNamed = true ∧
        wellNamedIn rest = true := by
  simp [wellNamedIn, and_assoc]

theorem lookup_entry (n : String) (rest : List (String × FileTree)) :
    ((name, t) :: rest).lookup n = if n = name then some t else rest.lookup n := by
  by_cases h : n = name
  · simp [h]
  · have hne : (n == name) = false := by simpa using h
    rw [List.lookup_cons, hne, if_neg h]

theorem wellNamed_of_lookup (h : wellNamedIn entries = true)
    (hname : entries.lookup name = some t) : isName name = true ∧ t.wellNamed = true := by
  induction entries with
  | nil => cases hname
  | cons entry rest ih =>
    obtain ⟨n, u⟩ := entry
    obtain ⟨hn, _, hu, hrest⟩ := wellNamedIn_cons.1 h
    rw [lookup_entry] at hname
    split at hname
    · rename_i hsame
      obtain rfl := Option.some.inj hname
      exact ⟨hsame ▸ hn, hu⟩
    · exact ih hrest hname

theorem isName_of_get? (h : t.wellNamed = true) (hget : t.get? names = some u) :
    (∀ n ∈ names, isName n = true) ∧ u.wellNamed = true := by
  induction names generalizing t with
  | nil =>
    have htu : t = u := by
      cases t <;> exact Option.some.inj hget
    exact ⟨by simp, htu ▸ h⟩
  | cons n names ih =>
    cases t with
    | file bytes => cases hget
    | folder entries =>
      rw [get?] at hget
      cases hlookup : entries.lookup n with
      | none => simp [hlookup] at hget
      | some v =>
        obtain ⟨hn, hv⟩ := wellNamed_of_lookup (wellNamed.eq_2 entries ▸ h) hlookup
        obtain ⟨hnames, hu⟩ := ih hv (by simpa [hlookup] using hget)
        exact ⟨by simpa using ⟨hn, hnames⟩, hu⟩

theorem mem_of_lookup (h : entries.lookup name = some t) : name ∈ entries.map Prod.fst := by
  induction entries with
  | nil => cases h
  | cons entry rest ih =>
    obtain ⟨n, u⟩ := entry
    rw [lookup_entry] at h
    split at h
    · rename_i hsame
      simp [hsame]
    · exact List.mem_cons_of_mem n (ih h)

theorem get?_cons_entry {rest : List (String × FileTree)} (n : String) :
    (folder ((name, t) :: rest)).get? (n :: names) =
      if n = name then t.get? names else (folder rest).get? (n :: names) := by
  by_cases h : n = name
  · rw [get?, lookup_entry, if_pos h, if_pos h]
  · rw [get?, lookup_entry, if_neg h, if_neg h, get?]

mutual

theorem mem_sourcesAt (p f : Path) : (t : FileTree) → t.wellNamed = true →
    (f ∈ sourcesAt p t ↔ ∃ names bytes, t.get? names = some (file bytes) ∧ f = p.below names ∧
      f.isSource = true)
  | file bytes, _ => by
    rw [sourcesAt]
    constructor
    · intro h
      split at h
      · rename_i hsource
        obtain rfl := List.mem_singleton.1 h
        exact ⟨[], bytes, rfl, rfl, hsource⟩
      · cases h
    · rintro ⟨names, other, hget, hf, hsource⟩
      cases names with
      | nil =>
        have hfp : f = p := hf
        rw [hfp] at hsource ⊢
        simp [hsource]
      | cons n names => cases hget
  | folder entries, h => by
    rw [sourcesAt]
    exact mem_sourcesIn p f entries (wellNamed.eq_2 entries ▸ h)

theorem mem_sourcesIn (dir f : Path) : (entries : List (String × FileTree)) →
    wellNamedIn entries = true →
    (f ∈ sourcesIn dir entries ↔ ∃ names bytes, (folder entries).get? names = some (file bytes) ∧
      f = dir.below names ∧ f.isSource = true)
  | [], _ => by
    rw [sourcesIn]
    constructor
    · intro h
      cases h
    · rintro ⟨names, bytes, hget, _⟩
      cases names with
      | nil => cases hget
      | cons n names => simp [get?] at hget
  | (name, t) :: rest, h => by
    obtain ⟨_, hnew, ht, hrest⟩ := wellNamedIn_cons.1 h
    rw [sourcesIn, List.mem_append, mem_sourcesAt (dir.child name) f t ht,
      mem_sourcesIn dir f rest hrest]
    constructor
    · intro hmem
      cases hmem with
      | inl hmem =>
        obtain ⟨names, bytes, hget, hf, hsource⟩ := hmem
        refine ⟨name :: names, bytes, ?_, hf, hsource⟩
        rw [get?_cons_entry, if_pos rfl, hget]
      | inr hmem =>
        obtain ⟨names, bytes, hget, hf, hsource⟩ := hmem
        cases names with
        | nil => cases hget
        | cons n names =>
          have hn : n ≠ name := by
            intro hsame
            cases hlookup : rest.lookup n with
            | none => simp [get?, hlookup] at hget
            | some u => exact hnew (hsame ▸ mem_of_lookup hlookup)
          refine ⟨n :: names, bytes, ?_, hf, hsource⟩
          rw [get?_cons_entry, if_neg hn, hget]
    · rintro ⟨names, bytes, hget, hf, hsource⟩
      cases names with
      | nil => cases hget
      | cons n names =>
        rw [get?_cons_entry] at hget
        split at hget
        · rename_i hsame
          exact .inl ⟨names, bytes, hget, hsame ▸ hf, hsource⟩
        · exact .inr ⟨n :: names, bytes, hget, hf, hsource⟩

end

end FileTree

namespace FileSystem
variable {fs : FileSystem} {p q dir : Path} {here there names : List String}
  {entries : List (String × FileTree)} {front name : String}

def base (fs : FileSystem) (p : Path) : List String := if p.isAbsolute then [] else fs.folder

theorem base_congr (h : p.components = q.components) : fs.base p = fs.base q := by
  rw [base, base, Path.isAbsolute_congr h]

theorem place_eq_ok_iff :
    fs.place p = .ok here ↔ p.text ≠ "" ∧ fs.tree.follow (fs.base p) p.pieces = .ok here := by
  unfold place base
  split
  · rename_i h
    simp [h]
  · rename_i h
    simp [h]

def steps (p : Path) : List String := p.components.filterMap Component.step?

theorem follow_steps_of_place (h : fs.place p = .ok here) :
    fs.tree.follow (fs.base p) (steps p) = .ok here := by
  rw [steps, Path.steps_components]
  exact FileTree.follow_steps (place_eq_ok_iff.1 h).2

theorem place_unique (hc : p.components = q.components) (hp : fs.place p = .ok here)
    (hq : fs.place q = .ok there) : here = there := by
  have hp' := follow_steps_of_place hp
  rw [steps, hc, base_congr hc, ← steps, follow_steps_of_place hq] at hp'
  exact (Except.ok.inj hp').symm

theorem place_of_folder (hp : p.text ≠ "") (h : fs.tree.follow (fs.base p) (steps p) = .ok here)
    (hfolder : fs.tree.get? here = some (.folder entries)) : fs.place p = .ok here := by
  rw [steps, Path.steps_components] at h
  exact place_eq_ok_iff.2 ⟨hp, FileTree.follow_of_steps h hfolder⟩

/-- No folder is needed at the end of a path that ends in a step. -/
theorem place_of_ends (hends : p.Ends front name) (hstep : isStep name = true)
    (h : fs.tree.follow (fs.base p) (steps p) = .ok here) : fs.place p = .ok here := by
  obtain ⟨before, hpieces, _⟩ := hends.pieces_eq
  have htext : p.text ≠ "" := by
    intro hempty
    rw [hends.text] at hempty
    rw [(String.append_eq_empty_iff.1 hempty).2] at hstep
    cases hstep
  rw [steps, Path.steps_components, hpieces, List.filter_append] at h
  obtain ⟨mid, hbefore, hlast⟩ := FileTree.follow_append_eq_ok.1 h
  have hname : [name].filter isStep = [name] := by simp [hstep]
  rw [hname] at hlast
  obtain ⟨es, _, hfolder, _⟩ := FileTree.follow_cons_eq_ok.1 hlast
  refine place_eq_ok_iff.2 ⟨htext, ?_⟩
  rw [hpieces]
  exact FileTree.follow_append_eq_ok.2 ⟨mid, FileTree.follow_of_steps hbefore hfolder, hlast⟩

theorem steps_of_components (h : p.components = q.components ++ names.map .normal) :
    steps p = steps q ++ names := by
  have hmap : (names.map Component.normal).filterMap Component.step? = names := by
    rw [List.filterMap_map]
    exact List.filterMap_some
  rw [steps, h, List.filterMap_append, hmap, steps]

theorem steps_below (hdir : dir.text ≠ "") (hnames : ∀ n ∈ names, isName n = true) :
    steps (dir.below names) = steps dir ++ names :=
  steps_of_components (Path.components_below hdir hnames)

theorem base_below (hdir : dir.text ≠ "") (hnames : ∀ n ∈ names, isName n = true) :
    fs.base (dir.below names) = fs.base dir := by
  have habs : (dir.below names).isAbsolute = dir.isAbsolute := by
    rw [Bool.eq_iff_iff, Path.isAbsolute_iff_root, Path.isAbsolute_iff_root,
      Path.components_below hdir hnames]
    simp
  rw [base, base, habs]

theorem place_below (hdir : fs.place dir = .ok here) (hnames : ∀ n ∈ names, isName n = true)
    (h : (fs.tree.get? (here ++ names)).isSome) :
    fs.place (dir.below names) = .ok (here ++ names) := by
  have htext := (place_eq_ok_iff.1 hdir).1
  have hfollow : fs.tree.follow (fs.base (dir.below names)) (steps (dir.below names)) =
      .ok (here ++ names) := by
    rw [base_below htext hnames, steps_below htext hnames]
    exact FileTree.follow_append_eq_ok.2
      ⟨here, follow_steps_of_place hdir, FileTree.follow_names hnames h⟩
  cases hcases : names.reverse with
  | nil =>
    obtain rfl := List.reverse_eq_nil_iff.1 hcases
    simpa [Path.below] using hdir
  | cons last others =>
    have hsplit : names = others.reverse ++ [last] := by
      rw [← List.reverse_reverse names, hcases, List.reverse_cons]
    have hlast : isName last = true := hnames last (by simp [hsplit])
    have hothers : (dir.below others.reverse).text ≠ "" :=
      Path.text_below htext fun n hn => hnames n (by simp [hsplit, List.mem_reverse.1 hn])
    have hends := Path.ends_child hothers (Path.isName_iff.1 hlast).2.2.2
    rw [← Path.below_concat, ← hsplit] at hends
    exact place_of_ends hends (FileTree.isStep_of_isName hlast).1 hfollow

end FileSystem

end SpaceAudit
