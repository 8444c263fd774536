import SpaceAudit.Proofs.Group.Independence

/-! A run under any sequence of calls. Its findings, its worst severity, the lines it told, its
claimed sources and its summary are kept apart, and each is a function of the calls. -/
namespace SpaceAudit

namespace Severity

theorem status_pos (s : Severity) : 0 < s.status := by
  cases s <;> decide

end Severity

section Firsts
variable {α κ : Type} [DecidableEq κ] {key : α → κ}

theorem firstsOf_sublist (l : List α) : (firstsOf key l).Sublist l := by
  induction l with
  | nil => exact List.Sublist.refl _
  | cons a l ih => exact (List.filter_sublist.trans ih).cons_cons a

theorem nodup_map_firstsOf (l : List α) : ((firstsOf key l).map key).Nodup := by
  induction l with
  | nil => exact List.nodup_nil
  | cons a l ih =>
    rw [firstsOf, List.map_cons, List.nodup_cons]
    refine ⟨?_, ih.sublist (List.filter_sublist.map key)⟩
    intro hmem
    obtain ⟨b, hb, hkey⟩ := List.mem_map.1 hmem
    have hne := (List.mem_filter.1 hb).2
    exact of_decide_eq_true hne hkey

end Firsts

theorem countOf_add (fs : List Finding) :
    countOf .fatal fs + countOf .error fs + countOf .style fs + countOf .warning fs = fs.length := by
  induction fs with
  | nil => rfl
  | cons f fs ih =>
    simp only [countOf, List.countP_cons, List.length_cons] at ih ⊢
    cases f.severity <;> simp <;> omega

namespace IsWorst
variable {fs : List Finding} {worst : Option Severity}

theorem exitStatus_eq_zero_iff (h : IsWorst fs worst) (level : Severity) :
    Severity.exitStatus worst level = 0 ↔ ∀ f ∈ fs, ¬ level ≤ f.severity := by
  cases worst with
  | none =>
    obtain rfl : fs = [] := h
    simp [Severity.exitStatus]
  | some w =>
    obtain ⟨⟨f, hf, hw⟩, hmax⟩ := h
    by_cases hlevel : level ≤ w
    · have hpos := w.status_pos
      rw [Severity.exitStatus, if_pos hlevel]
      constructor
      · intro hzero
        omega
      · intro hall
        exact absurd (hw ▸ hlevel) (hall f hf)
    · rw [Severity.exitStatus, if_neg hlevel]
      refine iff_of_true rfl fun g hg hle => hlevel ?_
      exact Nat.le_trans hle (hmax g hg)

theorem exists_of_exitStatus (h : IsWorst fs worst) {level : Severity}
    (hne : Severity.exitStatus worst level ≠ 0) :
    ∃ f ∈ fs, (∀ g ∈ fs, g.severity ≤ f.severity) ∧
      Severity.exitStatus worst level = f.severity.status := by
  cases worst with
  | none => exact absurd rfl hne
  | some w =>
    obtain ⟨⟨f, hf, hw⟩, hmax⟩ := h
    subst hw
    by_cases hlevel : level ≤ f.severity
    · exact ⟨f, hf, hmax, by rw [Severity.exitStatus, if_pos hlevel]⟩
    · rw [Severity.exitStatus, if_neg hlevel] at hne
      exact absurd rfl hne

end IsWorst

theorem Severity.exitStatus_antitone (worst : Option Severity) {level level' : Severity}
    (h : level ≤ level') : exitStatus worst level' ≤ exitStatus worst level := by
  cases worst with
  | none => exact Nat.le_refl 0
  | some w =>
    by_cases hlevel : level' ≤ w
    · have hle : level ≤ w := Nat.le_trans h hlevel
      simp [exitStatus, hlevel, hle]
    · rw [exitStatus, if_neg hlevel]
      exact Nat.zero_le _

/-- The text sums up the findings: their numbers by severity add up to their number. -/
def SumsUp (fs : List Finding) (text : String) : Prop :=
  (fs = [] ∧ text = "No problems found") ∨
    ∃ fatal error style warning worst, IsWorst fs (some worst) ∧
      fatal = (fs.filter fun f => f.severity = .fatal).length ∧
      error = (fs.filter fun f => f.severity = .error).length ∧
      style = (fs.filter fun f => f.severity = .style).length ∧
      warning = (fs.filter fun f => f.severity = .warning).length ∧
      fatal + error + style + warning = fs.length ∧
      text = toString fs.length ++ " finding" ++ (if fs.length = 1 then "" else "s") ++
        " (fatal: " ++ toString fatal ++ ", error: " ++ toString error ++
        ", style: " ++ toString style ++ ", warning: " ++ toString warning ++
        "); worst severity: " ++ worst.text

theorem IsWorst.sumsUp {fs : List Finding} {worst : Option Severity} (h : IsWorst fs worst) :
    SumsUp fs (summaryLine fs worst) := by
  cases worst with
  | none => exact .inl ⟨h, rfl⟩
  | some w =>
    have hcount (s : Severity) : countOf s fs = (fs.filter fun f => f.severity = s).length := by
      rw [countOf, List.countP_eq_length_filter]
      congr 2
    refine .inr ⟨countOf .fatal fs, countOf .error fs, countOf .style fs, countOf .warning fs, w, h,
      hcount _, hcount _, hcount _, hcount _, countOf_add fs, rfl⟩

namespace Run

/-- What can be done with a run from outside. -/
inductive Call where
  | report (f : Finding)
  | claim (path : Path)
  | finish

namespace Call

def finding? : Call → Option Finding
  | report f => some f
  | claim _ | finish => none

def path? : Call → Option Path
  | claim path => some path
  | report _ | finish => none

end Call

def call (r : Run) : Call → Run
  | .report f => r.report f
  | .claim path => r.claim path
  | .finish => r.finish

def after (calls : List Call) : Run := calls.foldl call start

theorem after_concat (calls : List Call) (c : Call) : after (calls ++ [c]) = (after calls).call c := by
  simp [after]

def reported (calls : List Call) : List Finding := calls.filterMap Call.finding?

def claims (calls : List Call) : List Path := calls.filterMap Call.path?

theorem reported_concat (calls : List Call) (c : Call) :
    reported (calls ++ [c]) = reported calls ++ c.finding?.toList := by
  cases c <;> simp [reported, Call.finding?]

theorem claims_concat (calls : List Call) (c : Call) :
    claims (calls ++ [c]) = claims calls ++ c.path?.toList := by
  cases c <;> simp [claims, Call.path?]

/-- The parts of the state, each as the calls have made it. -/
structure Kept (calls : List Call) (r : Run) : Prop where
  told : Told r (reported calls)
  lines : r.transcript.lines = r.findings.map Finding.render
  claimed : ∀ p : Path, p.isIn r.claimed = true ↔ ∃ q ∈ claims calls, q.components = p.components

theorem Kept.start : Kept [] start where
  told := Told.start
  lines := rfl
  claimed p := by simp [Run.start, Path.isIn, claims]

theorem lines_report {r : Run} (h : r.transcript.lines = r.findings.map Finding.render)
    (f : Finding) : (r.report f).transcript.lines = (r.report f).findings.map Finding.render := by
  unfold report
  split
  · exact h
  · simp [Transcript.tell, h]

theorem Kept.call {calls : List Call} {r : Run} (h : Kept calls r) (c : Call) :
    Kept (calls ++ [c]) (r.call c) := by
  cases c with
  | report f =>
    have hclaimed : (r.report f).claimed = r.claimed := claimed_reportAll r [f]
    refine ⟨?_, lines_report h.lines f, fun p => ?_⟩
    · rw [reported_concat]
      exact h.told.report f
    · rw [claims_concat]
      show p.isIn (r.report f).claimed = true ↔ _
      rw [hclaimed, h.claimed p]
      simp [Call.path?]
  | claim path =>
    refine ⟨?_, ?_, fun p => ?_⟩
    · rw [reported_concat, Call.finding?, Option.toList_none, List.append_nil]
      exact h.told.claim path
    · show (r.claim path).transcript.lines = (r.claim path).findings.map Finding.render
      unfold Run.claim
      split <;> exact h.lines
    · rw [claims_concat]
      refine isIn_claim.trans ?_
      rw [h.claimed p]
      simp [Call.path?, or_and_right, exists_or, eq_comm]
  | finish =>
    refine ⟨?_, h.lines, fun p => ?_⟩
    · have htold : Told r.finish (reported calls) := ⟨h.told.findings, h.told.worst⟩
      rw [reported_concat, Call.finding?, Option.toList_none, List.append_nil]
      exact htold
    · rw [claims_concat]
      show p.isIn r.claimed = true ↔ _
      rw [h.claimed p]
      simp [Call.path?]

theorem kept_after (calls : List Call) : Kept calls (after calls) := by
  induction calls using List.reverseRecOn with
  | nil => exact Kept.start
  | append_singleton calls c ih =>
    rw [after_concat]
    exact ih.call c

theorem summary_report (r : Run) (f : Finding) :
    (r.report f).transcript.summary = r.transcript.summary := by
  unfold report
  split <;> rfl

theorem summary_claim (r : Run) (path : Path) :
    (r.claim path).transcript.summary = r.transcript.summary := by
  unfold claim
  split <;> rfl

theorem summary_foldl {calls : List Call} (h : .finish ∉ calls) (r : Run) :
    (calls.foldl call r).transcript.summary = r.transcript.summary := by
  induction calls generalizing r with
  | nil => rfl
  | cons c calls ih =>
    obtain ⟨hc, hcalls⟩ := not_or.1 (mt List.mem_cons.2 h)
    rw [List.foldl_cons, ih hcalls]
    cases c with
    | report f => exact summary_report r f
    | claim path => exact summary_claim r path
    | finish => exact absurd rfl hc

/-- The state of a run says what the calls say. -/
structure InStep (calls : List Call) (r : Run) : Prop where
  /-- Of what was reported, the first finding of every key is recorded, in the order of the reports. -/
  findings : r.findings.Sublist (reported calls)
  first_iff : ∀ f, f ∈ r.findings ↔
    ∃ early late, reported calls = early ++ f :: late ∧ ∀ g ∈ early, g.key ≠ f.key
  distinct : (r.findings.map Finding.key).Nodup
  complete : ∀ f ∈ reported calls, ∃ g ∈ r.findings, g.key = f.key
  worst_none : r.worst? = none ↔ r.findings = []
  worst_some : ∀ w, r.worst? = some w ↔
    (∃ f ∈ r.findings, f.severity = w) ∧ ∀ f ∈ r.findings, f.severity ≤ w
  lines : r.transcript.lines = r.findings.map Finding.render
  exit_zero : ∀ level, r.exitStatus level = 0 ↔ ∀ f ∈ r.findings, ¬ level ≤ f.severity
  exit_worst : ∀ level, r.exitStatus level ≠ 0 → ∃ f ∈ r.findings,
    (∀ g ∈ r.findings, g.severity ≤ f.severity) ∧ r.exitStatus level = f.severity.status
  exit_antitone : ∀ level level', level ≤ level' → r.exitStatus level' ≤ r.exitStatus level
  /-- A source is free for its first claim and for no later one, however it is spelled. -/
  claims : ∀ early path late, calls = early ++ .claim path :: late →
    ((after early).isFree path = true ↔ ∀ q ∈ claims early, q.components ≠ path.components)
  unfinished : .finish ∉ calls → r.transcript.summary = none
  /-- The last summary is about what was recorded when it was made. -/
  finished : ∀ early late, calls = early ++ .finish :: late → .finish ∉ late →
    ∃ text, r.transcript.summary = some text ∧ SumsUp (after early).findings text

theorem Told.worst_some_iff {r : Run} {fs : List Finding} (h : Told r fs) (w : Severity) :
    r.worst? = some w ↔
      (∃ f ∈ r.findings, f.severity = w) ∧ ∀ f ∈ r.findings, f.severity ≤ w := by
  constructor
  · intro hw
    have hworst := h.worst
    rw [hw] at hworst
    exact hworst
  · intro hmax
    have hworst : IsWorst r.findings (some w) := hmax
    exact h.worst.unique hworst

theorem Told.worst_none_iff {r : Run} {fs : List Finding} (h : Told r fs) :
    r.worst? = none ↔ r.findings = [] := by
  constructor
  · intro hw
    have hworst := h.worst
    rw [hw] at hworst
    exact hworst
  · intro hnil
    have hworst : IsWorst r.findings none := hnil
    exact h.worst.unique hworst

/-- Whatever is called in whatever order, the parts of the state stay in step. -/
theorem after_inStep (calls : List Call) : InStep calls (after calls) := by
  have hkept := kept_after calls
  have hfindings := hkept.told.findings
  refine ⟨?_, ?_, ?_, ?_, hkept.told.worst_none_iff, hkept.told.worst_some_iff, hkept.lines, ?_, ?_, ?_,
    ?_, ?_, ?_⟩
  · rw [hfindings]
    exact firstsOf_sublist _
  · intro f
    rw [hfindings]
    exact mem_firstsOf_iff
  · rw [hfindings]
    exact nodup_map_firstsOf _
  · intro f hf
    have hkey : f.key ∈ (firstsOf Finding.key (reported calls)).map Finding.key :=
      mem_map_firstsOf.2 (List.mem_map_of_mem hf)
    rw [← hfindings] at hkey
    exact List.mem_map.1 hkey
  · intro level
    exact hkept.told.worst.exitStatus_eq_zero_iff level
  · intro level hne
    exact hkept.told.worst.exists_of_exitStatus hne
  · intro level level' hle
    exact Severity.exitStatus_antitone _ hle
  · intro early path late _
    have hclaimed := (kept_after early).claimed path
    rw [isFree, Bool.not_eq_true', ← Bool.not_eq_true, hclaimed]
    simp
  · intro hnone
    exact summary_foldl hnone start
  · intro early late hcalls hlate
    have hsummary : (after calls).transcript.summary =
        some (summaryLine (after early).findings (after early).worst?) := by
      rw [hcalls, after, List.foldl_append, List.foldl_cons, summary_foldl hlate]
      rfl
    exact ⟨_, hsummary, (kept_after early).told.worst.sumsUp⟩

end Run

end SpaceAudit
