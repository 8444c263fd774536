import Mathlib.Data.List.Induction
import Mathlib.Data.List.Perm.Basic
import SpaceAudit.Run.Basic

/-! What a run has recorded after any sequence of reports. It keeps the first finding of every key,
and its worst severity is that of the findings it keeps, so a milder finding that comes first hides
a worse one with the same key. -/
namespace SpaceAudit

section Firsts
variable {α κ : Type} [DecidableEq κ] {key : α → κ}

def firstsOf (key : α → κ) : List α → List α
  | [] => []
  | a :: l => a :: (firstsOf key l).filter fun b => key b ≠ key a

theorem mem_map_firstsOf {l : List α} {k : κ} : k ∈ (firstsOf key l).map key ↔ k ∈ l.map key := by
  induction l with
  | nil => rfl
  | cons a l ih =>
    simp only [List.mem_map] at ih
    simp only [firstsOf, List.map_cons, List.mem_cons, List.mem_map, List.mem_filter,
      decide_eq_true_eq]
    constructor
    · rintro (rfl | ⟨b, ⟨hb, _⟩, rfl⟩)
      · exact .inl rfl
      · exact .inr (ih.1 ⟨b, hb, rfl⟩)
    · rintro (rfl | hk)
      · exact .inl rfl
      · obtain ⟨b, hb, rfl⟩ := ih.2 hk
        by_cases hab : key b = key a
        · exact .inl hab
        · exact .inr ⟨b, ⟨hb, hab⟩, rfl⟩

theorem firstsOf_concat (l : List α) (a : α) :
    firstsOf key (l ++ [a]) =
      if key a ∈ l.map key then firstsOf key l else firstsOf key l ++ [a] := by
  induction l with
  | nil => simp [firstsOf]
  | cons b l ih =>
    rw [List.cons_append, firstsOf, ih]
    by_cases hl : key a ∈ l.map key
    · have hbl : key a ∈ (b :: l).map key := List.mem_cons_of_mem _ hl
      rw [if_pos hl, if_pos hbl, firstsOf]
    · rw [if_neg hl]
      by_cases hab : key a = key b
      · rw [if_pos (by simp [hab]), firstsOf]
        simp [hab]
      · rw [if_neg (by simp only [List.map_cons, List.mem_cons, not_or]; exact ⟨hab, hl⟩), firstsOf]
        simp [hab]

theorem mem_firstsOf_iff {l : List α} {a : α} :
    a ∈ firstsOf key l ↔ ∃ early late, l = early ++ a :: late ∧ ∀ b ∈ early, key b ≠ key a := by
  induction l with
  | nil => simp [firstsOf]
  | cons c l ih =>
    simp only [firstsOf, List.mem_cons, List.mem_filter, decide_eq_true_eq, ih]
    constructor
    · rintro (rfl | ⟨⟨early, late, rfl, hearly⟩, hac⟩)
      · exact ⟨[], l, rfl, by simp⟩
      · refine ⟨c :: early, late, rfl, ?_⟩
        intro b hb
        rcases List.mem_cons.1 hb with rfl | hb
        · exact fun h => hac h.symm
        · exact hearly b hb
    · rintro ⟨early, late, hl, hearly⟩
      cases early with
      | nil => exact .inl (List.cons.inj hl).1.symm
      | cons b early =>
        obtain ⟨rfl, rfl⟩ := List.cons.inj hl
        exact .inr ⟨⟨early, late, rfl, fun d hd => hearly d (List.mem_cons_of_mem _ hd)⟩,
          fun h => hearly c (by simp) h.symm⟩

end Firsts

theorem Path.same_iff {p q : Path} : p.same q = true ↔ p.components = q.components := by
  simp [Path.same]

namespace Finding

def key (f : Finding) : Check × List Component × Nat × Nat × String :=
  (f.check, f.file.components, f.line, f.column, f.message)

theorem sameKey_iff {a b : Finding} : a.sameKey b = true ↔ a.key = b.key := by
  simp [sameKey, key, Path.same_iff, and_assoc]

end Finding

namespace Severity

theorem le_def {a b : Severity} : a ≤ b ↔ a.status ≤ b.status := Iff.rfl

theorem eq_of_status {a b : Severity} (h : a.status = b.status) : a = b := by
  cases a <;> cases b <;> simp_all [status]

theorem status_max (a b : Severity) : (max a b).status = max a.status b.status := by
  cases a <;> cases b <;> rfl

theorem exitStatus_warning_injective {w w' : Option Severity}
    (h : exitStatus w .warning = exitStatus w' .warning) : w = w' := by
  rcases w with _ | w <;> rcases w' with _ | w'
  · rfl
  · cases w' <;> simp [exitStatus, le_def, status] at h
  · cases w <;> simp [exitStatus, le_def, status] at h
  · cases w <;> cases w' <;> simp_all [exitStatus, le_def, status]

end Severity

/-- `w` is the maximum of the severities of `fs`, and there is none just when there are no
findings. -/
def IsWorst (fs : List Finding) : Option Severity → Prop
  | none => fs = []
  | some w => (∃ f ∈ fs, f.severity = w) ∧ ∀ f ∈ fs, f.severity ≤ w

namespace IsWorst
variable {fs gs : List Finding} {w w' : Option Severity}

theorem unique (h : IsWorst fs w) (h' : IsWorst fs w') : w = w' := by
  cases w with
  | none =>
    cases w' with
    | none => rfl
    | some w' =>
      obtain ⟨⟨f, hf, _⟩, _⟩ := h'
      rw [show fs = [] from h] at hf
      simp at hf
  | some w =>
    obtain ⟨⟨f, hf, rfl⟩, hall⟩ := h
    cases w' with
    | none =>
      rw [show fs = [] from h'] at hf
      simp at hf
    | some w' =>
      obtain ⟨⟨g, hg, rfl⟩, hall'⟩ := h'
      have h1 := hall g hg
      have h2 := hall' f hf
      exact congrArg some (Severity.eq_of_status (Nat.le_antisymm h2 h1))

theorem perm (h : IsWorst fs w) (hp : fs.Perm gs) : IsWorst gs w := by
  cases w with
  | none =>
    obtain rfl : fs = [] := h
    exact List.nil_perm.1 hp
  | some w =>
    obtain ⟨⟨f, hf, hw⟩, hall⟩ := h
    exact ⟨⟨f, hp.mem_iff.1 hf, hw⟩, fun g hg => hall g (hp.mem_iff.2 hg)⟩

theorem concat (h : IsWorst fs w) (f : Finding) :
    IsWorst (fs ++ [f]) (some (Severity.maxOption w f.severity)) := by
  cases w with
  | none =>
    obtain rfl : fs = [] := h
    simp [IsWorst, Severity.maxOption, Severity.le_def]
  | some w =>
    obtain ⟨⟨g, hg, rfl⟩, hall⟩ := h
    have hmax := Severity.status_max g.severity f.severity
    constructor
    · rcases Nat.le_total g.severity.status f.severity.status with hle | hle
      · refine ⟨f, by simp, Severity.eq_of_status ?_⟩
        rw [Severity.maxOption, hmax, Nat.max_eq_right hle]
      · refine ⟨g, by simp [hg], Severity.eq_of_status ?_⟩
        rw [Severity.maxOption, hmax, Nat.max_eq_left hle]
    · intro d hd
      rw [Severity.maxOption, Severity.le_def, hmax]
      rcases List.mem_append.1 hd with hd | hd
      · exact Nat.le_trans (hall d hd) (Nat.le_max_left _ _)
      · obtain rfl := List.mem_singleton.1 hd
        exact Nat.le_max_right _ _

theorem exists_worst (fs : List Finding) : ∃ w, IsWorst fs w := by
  induction fs using List.reverseRecOn with
  | nil => exact ⟨none, rfl⟩
  | append_singleton fs f ih =>
    obtain ⟨w, hw⟩ := ih
    exact ⟨_, hw.concat f⟩

end IsWorst

/-- Some finding of the greatest severity has none with its key before it. -/
def WorstComesFirst (fs : List Finding) : Prop :=
  fs = [] ∨ ∃ early f late, fs = early ++ f :: late ∧ (∀ g ∈ early, g.key ≠ f.key) ∧
    ∀ g ∈ fs, g.severity ≤ f.severity

/-- Some finding of the greatest severity shares its key with findings of that severity only. -/
def WorstUnrivalled (fs : List Finding) : Prop :=
  fs = [] ∨ ∃ f ∈ fs, (∀ g ∈ fs, g.severity ≤ f.severity) ∧
    ∀ g ∈ fs, g.key = f.key → g.severity = f.severity

namespace Run
variable {r : Run} {fs gs : List Finding}

/-- The run was told `fs`, in this order and with what repetitions there are. -/
structure Told (r : Run) (fs : List Finding) : Prop where
  findings : r.findings = firstsOf Finding.key fs
  worst : IsWorst r.findings r.worst?

theorem Told.start : Told start [] := ⟨rfl, rfl⟩

theorem Told.any_sameKey (h : Told r fs) (f : Finding) :
    r.findings.any f.sameKey = true ↔ f.key ∈ fs.map Finding.key := by
  rw [h.findings, ← mem_map_firstsOf, List.any_eq_true, List.mem_map]
  simp only [Finding.sameKey_iff]
  constructor
  · rintro ⟨g, hg, hkey⟩
    exact ⟨g, hg, hkey.symm⟩
  · rintro ⟨g, hg, hkey⟩
    exact ⟨g, hg, hkey.symm⟩

theorem Told.report (h : Told r fs) (f : Finding) : Told (r.report f) (fs ++ [f]) := by
  have hany := h.any_sameKey f
  unfold Run.report
  split
  · rename_i hknown
    refine ⟨?_, h.worst⟩
    rw [firstsOf_concat, if_pos (hany.1 hknown)]
    exact h.findings
  · rename_i hnew
    refine ⟨?_, h.worst.concat f⟩
    rw [firstsOf_concat, if_neg fun hmem => hnew (hany.2 hmem), h.findings]

theorem Told.reportAll (h : Told r fs) (gs : List Finding) : Told (r.reportAll gs) (fs ++ gs) := by
  induction gs generalizing r fs with
  | nil => simpa [Run.reportAll] using h
  | cons g gs ih => simpa [Run.reportAll] using ih (h.report g)

theorem told_reportAll (fs : List Finding) : Told (start.reportAll fs) fs := by
  simpa using Told.start.reportAll fs

/-- The worst severity of a run is the maximum over what it was told just when a finding that
attains the maximum is kept. -/
theorem Told.isWorst_iff (h : Told r fs) : IsWorst fs r.worst? ↔ WorstComesFirst fs := by
  have hworst := h.worst
  constructor
  · intro hfs
    cases hw : r.worst? with
    | none =>
      rw [hw] at hfs
      exact .inl hfs
    | some w =>
      rw [hw] at hfs hworst
      obtain ⟨⟨f, hf, rfl⟩, _⟩ := hworst
      rw [h.findings] at hf
      obtain ⟨early, late, hsplit, hearly⟩ := mem_firstsOf_iff.1 hf
      exact .inr ⟨early, f, late, hsplit, hearly, hfs.2⟩
  · rintro (rfl | ⟨early, f, late, hsplit, hearly, hmax⟩)
    · have hnone : IsWorst r.findings none := h.findings
      rw [hworst.unique hnone]
      rfl
    · have hf : f ∈ r.findings := by
        rw [h.findings]
        exact mem_firstsOf_iff.2 ⟨early, late, hsplit, hearly⟩
      have hsome : IsWorst r.findings (some f.severity) := by
        refine ⟨⟨f, hf, rfl⟩, fun g hg => hmax g ?_⟩
        rw [h.findings] at hg
        obtain ⟨_, _, hg, _⟩ := mem_firstsOf_iff.1 hg
        simp [hg]
      rw [hworst.unique hsome]
      exact ⟨⟨f, by simp [hsplit], rfl⟩, hmax⟩

theorem worstComesFirst_of_unrivalled (h : WorstUnrivalled fs) (hp : gs.Perm fs) :
    WorstComesFirst gs := by
  rcases h with rfl | ⟨f, hf, hmax, hkey⟩
  · exact .inl (List.perm_nil.1 hp)
  · have hfirst : f.key ∈ (firstsOf Finding.key gs).map Finding.key :=
      mem_map_firstsOf.2 (List.mem_map_of_mem (hp.mem_iff.2 hf))
    obtain ⟨d, hd, hdf⟩ := List.mem_map.1 hfirst
    obtain ⟨early, late, hsplit, hearly⟩ := mem_firstsOf_iff.1 hd
    have hdmem : d ∈ fs := hp.mem_iff.1 (by simp [hsplit])
    refine .inr ⟨early, d, late, hsplit, hearly, fun g hg => ?_⟩
    rw [hkey d hdmem hdf]
    exact hmax g (hp.mem_iff.1 hg)

/-- The order that puts all milder findings first shows every rival. -/
theorem unrivalled_of_milder_first {milder top : List Finding} {f : Finding} (hf : f ∈ fs)
    (hmax : ∀ g ∈ fs, g.severity ≤ f.severity) (hperm : (milder ++ top).Perm fs)
    (hmilder : ∀ g ∈ milder, g.severity ≠ f.severity) (htop : ∀ g ∈ top, g.severity = f.severity)
    (h : WorstComesFirst (milder ++ top)) : WorstUnrivalled fs := by
  rcases h with hnil | ⟨early, d, late, hsplit, hearly, hd⟩
  · rw [hnil] at hperm
    exact .inl (List.nil_perm.1 hperm)
  · have hdmem : d ∈ fs := hperm.mem_iff.1 (hsplit ▸ by simp)
    have hsev : d.severity = f.severity :=
      Severity.eq_of_status (Nat.le_antisymm (hmax d hdmem) (hd f (hperm.mem_iff.2 hf)))
    -- The milder part lies before `d`, which is none of it.
    have hbefore : ∀ g ∈ milder, g ∈ early := by
      intro g hg
      rcases List.append_eq_append_iff.1 hsplit with ⟨more, rfl, _⟩ | ⟨more, hmore, hlate⟩
      · exact List.mem_append_left _ hg
      · cases more with
        | nil => simpa [hmore] using hg
        | cons e more =>
          obtain rfl : d = e := (List.cons.inj hlate).1
          exact absurd hsev (hmilder d (by simp [hmore]))
    refine .inr ⟨d, hdmem, fun g hg => by rw [hsev]; exact hmax g hg, fun g hg hkey => ?_⟩
    rcases List.mem_append.1 (hperm.mem_iff.2 hg) with hg | hg
    · exact absurd hkey (hearly g (hbefore g hg))
    · rw [htop g hg, hsev]

theorem worst?_eq_of_exitStatus {r' : Run}
    (h : ∀ level, r.exitStatus level = r'.exitStatus level) : r.worst? = r'.worst? :=
  Severity.exitStatus_warning_injective (h .warning)

/-- What the exit status depends on. The worst severity is the maximum over all findings told
exactly when one that attains it comes first with its key, and it does not depend on their order
exactly when one that attains it has no milder rival. -/
theorem worst_covers_reports_iff (fs : List Finding) :
    IsWorst (firstsOf Finding.key fs) (start.reportAll fs).worst? ∧
      (IsWorst fs (start.reportAll fs).worst? ↔ WorstComesFirst fs) ∧
      ((∀ gs, gs.Perm fs → ∀ level,
          (start.reportAll gs).exitStatus level = (start.reportAll fs).exitStatus level) ↔
        WorstUnrivalled fs) := by
  have htold := told_reportAll fs
  refine ⟨htold.findings ▸ htold.worst, htold.isWorst_iff, ?_, ?_⟩
  · intro hexit
    have hworst (gs : List Finding) (hp : gs.Perm fs) :
        (start.reportAll gs).worst? = (start.reportAll fs).worst? :=
      worst?_eq_of_exitStatus (hexit gs hp)
    obtain ⟨w, hw⟩ := IsWorst.exists_worst fs
    cases w with
    | none => exact .inl hw
    | some w =>
      obtain ⟨⟨f, hf, rfl⟩, hmax⟩ := hw
      -- The order with a worst finding in front shows what the common worst severity is.
      have hcons := List.perm_cons_erase hf
      have hfirst : WorstComesFirst (f :: fs.erase f) :=
        .inr ⟨[], f, fs.erase f, rfl, by simp, fun g hg => hmax g (hcons.mem_iff.2 hg)⟩
      have hcovers : IsWorst fs (start.reportAll fs).worst? := by
        rw [← hworst _ hcons.symm]
        exact ((told_reportAll _).isWorst_iff.2 hfirst).perm hcons.symm
      -- The order with all milder findings in front then leaves no room for a rival.
      have hperm := List.filter_append_perm (fun g => decide (g.severity ≠ f.severity)) fs
      refine unrivalled_of_milder_first hf hmax hperm (by simp) (by simp)
        ((told_reportAll _).isWorst_iff.1 ?_)
      rw [hworst _ hperm]
      exact hcovers.perm hperm.symm
  · intro hrival gs hp level
    have hgs := ((told_reportAll gs).isWorst_iff.2 (worstComesFirst_of_unrivalled hrival hp)).perm hp
    have hfs := (told_reportAll fs).isWorst_iff.2 (worstComesFirst_of_unrivalled hrival (.refl fs))
    rw [exitStatus, exitStatus, hgs.unique hfs]

/-- An access whose space is only deduced, and the same access with its space written out. -/
def deducedAccess : Finding := ⟨.warning, .crossSpaceAccess, ⟨"src/a.cpp"⟩, 3, 5, "x", none⟩
def writtenAccess : Finding := { deducedAccess with severity := .fatal }

/-- A warning that comes first hides a fatal finding, and the exit status depends on the order. -/
theorem warning_hides_fatal :
    ¬ IsWorst [deducedAccess, writtenAccess]
        (start.reportAll [deducedAccess, writtenAccess]).worst? ∧
      [writtenAccess, deducedAccess].Perm [deducedAccess, writtenAccess] ∧
      (start.reportAll [writtenAccess, deducedAccess]).exitStatus .error ≠
        (start.reportAll [deducedAccess, writtenAccess]).exitStatus .error := by
  have hworst : (start.reportAll [deducedAccess, writtenAccess]).worst? = some .warning := by
    decide +kernel
  refine ⟨?_, List.Perm.swap _ _ _, by decide +kernel⟩
  rw [hworst]
  rintro ⟨_, hall⟩
  exact absurd (hall writtenAccess (by simp)) (by decide)

end Run

end SpaceAudit
