import SpaceAudit.Group.Basic
import SpaceAudit.Proofs.Audit.Findings
import SpaceAudit.Proofs.Audit.Lookups

/-! The checks of a configuration one after the other, each seeing what those before it noted down
and reporting before the next one starts. A check that cannot be carried out touches nothing but
its own findings. -/
namespace SpaceAudit

theorem Annotations.exec?_mk {e : Extent} (a : Annotations e)
    (memory : Vector (Option Binding) e.vars) (s : Fin e.scopes) :
    (⟨a.exec, memory⟩ : Annotations e).exec? s = a.exec? s := rfl

namespace Subject
variable (x : Subject)

abbrev withNotes (notes : Annotations x.configuration.extent) : Subject := { x with notes }

abbrev withMemory (memory : Vector (Option Binding) x.configuration.extent.vars) : Subject :=
  x.withNotes ⟨x.notes.exec, memory⟩

end Subject

/-! What the checks before memory resolution find does not depend on the bindings. -/
namespace Subject
variable (x : Subject) (memory : Vector (Option Binding) x.configuration.extent.vars)

theorem virtualFinding_withMemory (s : x.ScopeIdx) :
    (x.withMemory memory).virtualFinding s = x.virtualFinding s := by
  unfold virtualFinding
  simp only [withMemory, withNotes]
  cases (x.configuration.scope s).bodyStart.require .virtualBodyStart <;> rfl

theorem classificationFindings_withMemory :
    (x.withMemory memory).classificationFindings = x.classificationFindings := by
  unfold classificationFindings
  rw [show (x.withMemory memory).virtualFinding = x.virtualFinding from
    funext (virtualFinding_withMemory x memory)]

theorem classExecFinding_withMemory (cls : x.ScopeIdx) :
    (x.withMemory memory).classExecFinding cls = x.classExecFinding cls := by
  unfold classExecFinding
  simp only [withMemory, withNotes]
  cases (x.configuration.scope cls).bodyStart.get? <;> rfl

theorem classExecFindings_withMemory :
    (x.withMemory memory).classExecFindings = x.classExecFindings := by
  unfold classExecFindings
  rw [show (x.withMemory memory).classExecFinding = x.classExecFinding from
    funext (classExecFinding_withMemory x memory)]

theorem auditedScopes_withMemory : (x.withMemory memory).auditedScopes = x.auditedScopes := by
  unfold auditedScopes
  refine List.filterMap_congr fun (s : x.ScopeIdx) _ => ?_
  simp only [withMemory, withNotes, Annotations.exec?_mk]
  cases x.notes.exec? s <;> cases (x.configuration.scope s).bodyStart.get? <;> rfl

theorem isMemberAccess_withMemory (t : x.TokenIdx) :
    (x.withMemory memory).isMemberAccess t = x.isMemberAccess t := by
  unfold isMemberAccess
  simp only [withMemory, withNotes]
  cases x.configuration.prev? t <;> rfl

theorem classOf?_withMemory (s : x.ScopeIdx) : (x.withMemory memory).classOf? s = x.classOf? s := by
  have hdeclaring : (x.withMemory memory).declaringClass? s = x.declaringClass? s := by
    unfold declaringClass?
    simp only [withMemory, withNotes]
    cases (s :: x.configuration.ancestors s).find? fun a =>
        (x.configuration.scope a).kind == .function with
    | none => rfl
    | some body =>
      dsimp only
      cases (x.configuration.scope body).function.get? <;> rfl
  unfold classOf?
  rw [hdeclaring]

theorem capturesOnOwn_withMemory (s : x.ScopeIdx) :
    (x.withMemory memory).capturesOnOwn s = x.capturesOnOwn s := by
  unfold capturesOnOwn
  simp only [withMemory, withNotes, Annotations.exec?_mk]
  cases x.notes.exec? s <;> rfl

theorem capturesClass_withMemory (s : x.ScopeIdx) :
    (x.withMemory memory).capturesClass s = x.capturesClass s := by
  have hwithin (steps : Nat) (s : x.ScopeIdx) :
      (x.withMemory memory).capturesWithin steps s = x.capturesWithin steps s := by
    induction steps generalizing s with
    | zero => rfl
    | succ steps ih =>
      rw [capturesWithin, capturesWithin, capturesOnOwn_withMemory]
      simp only [withMemory, withNotes, Annotations.exec?_mk] at ih ⊢
      cases x.notes.exec? s with
      | none => rfl
      | some info =>
        dsimp only
        cases x.configuration.outerOwner? s with
        | none => rfl
        | some owner =>
          dsimp only
          rw [ih owner]
  exact hwithin _ s

theorem captureFinding_withMemory (s : x.ScopeIdx) (start : x.TokenIdx) :
    (x.withMemory memory).captureFinding s start = x.captureFinding s start := by
  unfold captureFinding
  rw [classOf?_withMemory]
  cases x.classOf? s with
  | none => rfl
  | some cls =>
    simp only [withMemory, withNotes]
    cases x.configuration.bodyTokens s <;> rfl

theorem scopeCaptureFindings_withMemory (s : x.ScopeIdx) (start : x.TokenIdx) :
    (x.withMemory memory).scopeCaptureFindings s start = x.scopeCaptureFindings s start := by
  have huncaptured (cls : x.ScopeIdx) (ts : List x.TokenIdx) :
      (x.withMemory memory).uncapturedFindings s cls ts = x.uncapturedFindings s cls ts := by
    have huse : (x.withMemory memory).isOwnMemberUse s cls = x.isOwnMemberUse s cls := by
      funext u
      unfold isOwnMemberUse
      rw [isMemberAccess_withMemory]
    unfold uncapturedFindings
    rw [huse]
    rfl
  unfold scopeCaptureFindings
  rw [capturesClass_withMemory, capturesOnOwn_withMemory, captureFinding_withMemory,
    classOf?_withMemory]
  cases x.classOf? s with
  | none => rfl
  | some cls =>
    simp only [huncaptured]
    simp only [withMemory, withNotes]
    cases x.configuration.bodyTokens s <;> rfl

theorem captureFindings_withMemory :
    (x.withMemory memory).captureFindings = x.captureFindings := by
  unfold captureFindings
  rw [auditedScopes_withMemory]
  simp only [scopeCaptureFindings_withMemory]
  rfl

end Subject

/-- One check as it runs: what it notes down about the configuration first, what it looks up and
what it finds. -/
structure Stage where
  name : String
  note : (x : Subject) → Annotations x.configuration.extent
  lookups : Subject → List (Option Missing)
  findings : Subject → Outcome

namespace Stage

def classification : Stage where
  name := "execution space classification"
  note x := x.configuration.classify x.settings x.notes
  lookups := Subject.classificationLookups
  findings := Subject.classificationFindings

def classificationOnly : Stage where
  name := "execution space classification"
  note x := x.configuration.classify x.settings x.notes
  lookups x := [if x.configuration.sections.scopes then none else some .scopes]
  findings x := if x.configuration.sections.scopes then .ok [] else .error .scopes

def memoryResolution : Stage where
  name := "memory space resolution"
  note x := x.configuration.resolveMemory x.settings x.aliases x.notes
  lookups _ := []
  findings _ := .ok []

def ofAudit (name : String) (lookups : Subject → List (Option Missing))
    (findings : Subject → Outcome) : Stage := ⟨name, Subject.notes, lookups, findings⟩

def later : List Stage :=
  [ofAudit "class execution space" (fun _ => []) Subject.classExecFindings,
    ofAudit "class capture" Subject.captureLookups Subject.captureFindings,
    memoryResolution,
    ofAudit "cross-space access" Subject.accessLookups Subject.accessFindings,
    ofAudit "dangling handles" (fun _ => []) Subject.ownershipFindings,
    ofAudit "host standard library" Subject.libraryLookups Subject.libraryFindings,
    ofAudit "launch lambdas" Subject.launchLookups Subject.launchFindings,
    ofAudit "mirror calls" Subject.mirrorLookups Subject.mirrorFindings,
    ofAudit "unnecessary auto" (fun _ => []) Subject.autoFindings]

def all : List Stage := classification :: later

/-- What a check with an outcome passes on to the run. -/
def told (path : Path) : String × Outcome → List Finding
  | (_, .ok found) => found
  | (name, .error e) => [⟨.style, .structural, path, 0, 0, name ++ " skipped: " ++ e.text, none⟩]

end Stage

/-- How far a subject has come: its notes, the run, and what every check came to. -/
structure Passage where
  subject : Subject
  run : Run
  log : List (String × Outcome)

def Passage.step (p : Passage) (s : Stage) : Passage :=
  let x := p.subject.withNotes (s.note p.subject)
  let entry := (s.name, s.findings x)
  ⟨x, p.run.reportAll (Stage.told x.path entry), p.log ++ [entry]⟩

def Subject.pass (x : Subject) (stages : List Stage) (r : Run) : Passage :=
  stages.foldl Passage.step ⟨x, r, []⟩

namespace Stage

def noted (s : Stage) (x : Subject) : Subject := x.withNotes (s.note x)

def notedBy (stages : List Stage) (x : Subject) : Subject := stages.foldl (fun x s => s.noted x) x

def entries : List Stage → Subject → List (String × Outcome)
  | [], _ => []
  | s :: rest, x => (s.name, s.findings (s.noted x)) :: entries rest (s.noted x)

theorem foldl_step (stages : List Stage) (p : Passage) :
    stages.foldl Passage.step p =
      ⟨notedBy stages p.subject,
        p.run.reportAll ((entries stages p.subject).flatMap (told p.subject.path)),
        p.log ++ entries stages p.subject⟩ := by
  induction stages generalizing p with
  | nil => simp [notedBy, entries, Run.reportAll]
  | cons s rest ih =>
    rw [List.foldl_cons, ih]
    simp [Passage.step, notedBy, entries, noted, Run.reportAll, List.foldl_append]

theorem pass_eq (stages : List Stage) (x : Subject) (r : Run) :
    x.pass stages r =
      ⟨notedBy stages x, r.reportAll ((entries stages x).flatMap (told x.path)), entries stages x⟩ := by
  rw [Subject.pass, foldl_step, List.nil_append]

theorem notedBy_eraseIdx {stages : List Stage} {k : Nat}
    (h : ∀ s, stages[k]? = some s → ∀ x : Subject, s.note x = x.notes) (x : Subject) :
    notedBy (stages.eraseIdx k) x = notedBy stages x ∧
      entries (stages.eraseIdx k) x = (entries stages x).eraseIdx k := by
  induction stages generalizing k x with
  | nil => exact ⟨rfl, rfl⟩
  | cons s rest ih =>
    cases k with
    | zero =>
      have hs : s.noted x = x := by
        rw [noted, h s rfl x]
      simp [notedBy, entries, hs]
    | succ k =>
      obtain ⟨hnoted, hentries⟩ := ih (k := k) (fun t ht => h t (by simpa using ht)) (s.noted x)
      refine ⟨hnoted, ?_⟩
      rw [List.eraseIdx_cons_succ, entries, hentries, entries, List.eraseIdx_cons_succ]

theorem exec_resolveMemory (c : Configuration) (settings : Settings) (aliases : AliasTable)
    (a : Annotations c.extent) : (c.resolveMemory settings aliases a).exec = a.exec := by
  unfold Configuration.resolveMemory
  induction c.variableIndices generalizing a with
  | nil => rfl
  | cons v rest ih =>
    rw [List.foldl_cons, ih]
    split <;> rfl

theorem noted_memoryResolution (x : Subject) :
    memoryResolution.noted x =
      x.withMemory (x.configuration.resolveMemory x.settings x.aliases x.notes).memory := by
  have hexec := exec_resolveMemory x.configuration x.settings x.aliases x.notes
  show x.withNotes (x.configuration.resolveMemory x.settings x.aliases x.notes) = _
  rw [Subject.withMemory, ← hexec]

theorem noted_ofAudit (name : String) (lookups : Subject → List (Option Missing))
    (findings : Subject → Outcome) (x : Subject) : (ofAudit name lookups findings).noted x = x := rfl

theorem notedBy_all (x : Subject) :
    notedBy all x = memoryResolution.noted (classification.noted x) := by
  simp only [notedBy, all, later, List.foldl_cons, List.foldl_nil, noted_ofAudit]

/-- Every check comes to what it finds in the subject with all notes: those that run before the
memory is resolved do not look at it. -/
theorem entries_all (x : Subject) :
    entries all x = all.map fun s => (s.name, s.findings (notedBy all x)) := by
  have hbefore (y : Subject) (memory : Vector (Option Binding) y.configuration.extent.vars) :
      classification.findings (y.withMemory memory) = classification.findings y :=
    y.classificationFindings_withMemory memory
  have hclass (y : Subject) (memory : Vector (Option Binding) y.configuration.extent.vars)
      (name : String) (lookups : Subject → List (Option Missing)) :
      (ofAudit name lookups Subject.classExecFindings).findings (y.withMemory memory) =
        (ofAudit name lookups Subject.classExecFindings).findings y :=
    y.classExecFindings_withMemory memory
  have hcapture (y : Subject) (memory : Vector (Option Binding) y.configuration.extent.vars)
      (name : String) (lookups : Subject → List (Option Missing)) :
      (ofAudit name lookups Subject.captureFindings).findings (y.withMemory memory) =
        (ofAudit name lookups Subject.captureFindings).findings y :=
    y.captureFindings_withMemory memory
  rw [notedBy_all, noted_memoryResolution]
  simp only [all, later, entries, noted_ofAudit, noted_memoryResolution, List.map_cons, List.map_nil,
    hbefore, hclass, hcapture]

theorem told_map_all (x : Subject) :
    (all.map fun s => (s.name, s.findings x)).flatMap (told x.path) = x.findings := by
  have hreport (a : Audit) : told x.path (a.name, a.findings x) = a.report x := by
    unfold Audit.report
    cases a.findings x <;> rfl
  simp only [Subject.findings, ← hreport]
  rfl

theorem failsBy_of_mem_all {s : Stage} (hs : s ∈ all) (x : Subject) :
    FailsBy (s.lookups x) (s.findings x) := by
  simp only [all, later, List.mem_cons, List.not_mem_nil, or_false] at hs
  rcases hs with rfl | rfl | rfl | rfl | rfl | rfl | rfl | rfl | rfl | rfl
  · exact Subject.classificationFindings_failsBy
  · exact .ok _
  · exact Subject.captureFindings_failsBy
  · exact .ok _
  · exact Subject.accessFindings_failsBy
  · exact .ok _
  · exact Subject.libraryFindings_failsBy
  · exact Subject.launchFindings_failsBy
  · exact Subject.mirrorFindings_failsBy
  · exact .ok _

theorem answers_of_mem_all {s : Stage} (hs : s ∈ all) (x : Subject) :
    x.Answers (s.findings x) := by
  simp only [all, later, List.mem_cons, List.not_mem_nil, or_false] at hs
  rcases hs with rfl | rfl | rfl | rfl | rfl | rfl | rfl | rfl | rfl | rfl
  · exact Subject.classificationFindings_answers
  · exact Subject.classExecFindings_answers
  · exact Subject.captureFindings_answers
  · exact Subject.answers_nil
  · exact Subject.accessFindings_answers
  · exact Subject.ownershipFindings_answers
  · exact Subject.libraryFindings_answers
  · exact Subject.launchFindings_answers
  · exact Subject.mirrorFindings_answers
  · exact Subject.autoFindings_answers

end Stage

/-- The checks of a subject keep apart. -/
structure Subject.Isolated (x : Subject) (r : Run) : Prop where
  /-- There are ten checks in a fixed order. -/
  order : (x.pass Stage.all r).log.map Prod.fst =
    ["execution space classification", "class execution space", "class capture",
      "memory space resolution", "cross-space access", "dangling handles", "host standard library",
      "launch lambdas", "mirror calls", "unnecessary auto"]
  /-- The run is told the findings of each, or that it was skipped. -/
  told : ∀ stages, (x.pass stages r).run =
    r.reportAll ((x.pass stages r).log.flatMap (Stage.told x.path))
  /-- Whatever fails, the scopes are classified and the memory is resolved; nothing else changes. -/
  notes : (x.pass Stage.all r).subject = x.withNotes (x.configuration.resolveMemory x.settings
    x.aliases (x.configuration.classify x.settings x.notes))
  /-- Every check comes to what it finds in the subject with all notes. -/
  computed : (x.pass Stage.all r).log =
    Stage.all.map fun s => (s.name, s.findings (x.pass Stage.all r).subject)
  /-- A check is skipped if and only if something it looks up is missing. -/
  skipped : ∀ s ∈ Stage.all, FailsBy (s.lookups (x.pass Stage.all r).subject)
    (s.findings (x.pass Stage.all r).subject)
  missing : ∀ name e, (name, .error e) ∈ (x.pass Stage.all r).log → e.From x.configuration
  /-- Without its own report classification leaves the other checks as they are. -/
  classification :
    (x.pass (Stage.classificationOnly :: Stage.later) r).subject = (x.pass Stage.all r).subject ∧
      (x.pass (Stage.classificationOnly :: Stage.later) r).log.tail = (x.pass Stage.all r).log.tail
  /-- So does leaving out any other check that is skipped. -/
  leftOut : ∀ k name e, (x.pass Stage.all r).log[k + 1]? = some (name, .error e) →
    (x.pass (Stage.all.eraseIdx (k + 1)) r).subject = (x.pass Stage.all r).subject ∧
      (x.pass (Stage.all.eraseIdx (k + 1)) r).log = (x.pass Stage.all r).log.eraseIdx (k + 1)

namespace Stage

/-- Only two checks note something down, and of them memory resolution cannot fail. -/
theorem note_of_error {s : Stage} (hs : s ∈ later) {y : Subject} {e : Missing}
    (he : s.findings y = .error e) (x : Subject) : s.note x = x.notes := by
  simp only [later, List.mem_cons, List.not_mem_nil, or_false] at hs
  rcases hs with rfl | rfl | rfl | rfl | rfl | rfl | rfl | rfl | rfl
  case inr.inr.inl => cases he
  all_goals rfl

end Stage

theorem Subject.pass_isolated (x : Subject) (r : Run) : x.Isolated r := by
  have hsubject : (x.pass Stage.all r).subject = Stage.notedBy Stage.all x := by
    rw [Stage.pass_eq]
  have hlog : (x.pass Stage.all r).log =
      Stage.all.map fun s => (s.name, s.findings (Stage.notedBy Stage.all x)) := by
    rw [Stage.pass_eq, Stage.entries_all]
  refine ⟨?_, ?_, ?_, ?_, ?_, ?_, ?_, ?_⟩
  · rw [hlog, List.map_map]
    rfl
  · intro stages
    rw [Stage.pass_eq]
  · rw [hsubject, Stage.notedBy_all]
    rfl
  · rw [hlog, hsubject]
  · intro s hs
    exact Stage.failsBy_of_mem_all hs _
  · intro name e he
    rw [hlog, List.mem_map] at he
    obtain ⟨s, hs, hentry⟩ := he
    have herror : s.findings (Stage.notedBy Stage.all x) = .error e := congrArg Prod.snd hentry
    have hanswers := Stage.answers_of_mem_all hs (Stage.notedBy Stage.all x)
    rw [herror, Stage.notedBy_all] at hanswers
    exact hanswers
  · rw [Stage.pass_eq, Stage.pass_eq]
    exact ⟨rfl, rfl⟩
  · intro k name e he
    rw [hlog, List.getElem?_map, Option.map_eq_some_iff] at he
    obtain ⟨s, hs, hentry⟩ := he
    have hlater : s ∈ Stage.later := List.mem_of_getElem? (by simpa [Stage.all] using hs)
    have hnote (t : Stage) (ht : Stage.all[k + 1]? = some t) (y : Subject) : t.note y = y.notes := by
      obtain rfl := Option.some.inj (hs.symm.trans ht)
      exact Stage.note_of_error hlater (congrArg Prod.snd hentry) y
    obtain ⟨hnoted, hentries⟩ := Stage.notedBy_eraseIdx hnote x
    rw [Stage.pass_eq, Stage.pass_eq]
    exact ⟨hnoted, hentries⟩

def AnnotatedConfiguration.pass (settings : Settings) (g : GroupContext) (u : AnnotatedUnit)
    (a : AnnotatedConfiguration) (r : Run) : AnnotatedConfiguration × Run :=
  if a.configuration.hasTokens then
    let p := (a.subject settings g u).pass Stage.all r
    (⟨p.subject.configuration, p.subject.notes⟩, p.run)
  else (a, r)

namespace AnnotatedUnit
variable {settings : Settings} {g : GroupContext}

def passAll (settings : Settings) (g : GroupContext) (u : AnnotatedUnit) :
    List AnnotatedConfiguration → Run → List AnnotatedConfiguration × Run
  | [], r => ([], r)
  | a :: rest, r =>
    let (a, r) := a.pass settings g u r
    let (rest, r) := passAll settings g u rest r
    (a :: rest, r)

theorem pass_eq_annotate (u : AnnotatedUnit) (a : AnnotatedConfiguration) (r : Run) :
    a.pass settings g u r =
      (a.annotate settings (g.aliases.get u.path),
        r.reportAll (if a.configuration.hasTokens then
          ((a.annotate settings (g.aliases.get u.path)).subject settings g u).findings else [])) := by
  unfold AnnotatedConfiguration.pass AnnotatedConfiguration.annotate
  cases a.configuration.hasTokens with
  | false => rfl
  | true =>
    have hpass := (a.subject settings g u).pass_isolated r
    simp only [if_true]
    rw [hpass.told, hpass.computed, hpass.notes]
    exact Prod.ext rfl (congrArg r.reportAll (Stage.told_map_all _))

theorem passAll_eq (u : AnnotatedUnit) (as : List AnnotatedConfiguration) (r : Run) :
    u.passAll settings g as r =
      (as.map (AnnotatedConfiguration.annotate settings (g.aliases.get u.path)),
        r.reportAll (((as.map (AnnotatedConfiguration.annotate settings (g.aliases.get u.path))).filter
          fun a => a.configuration.hasTokens).flatMap fun a => (a.subject settings g u).findings)) := by
  induction as generalizing r with
  | nil => rfl
  | cons a rest ih =>
    have hsame : (a.annotate settings (g.aliases.get u.path)).configuration = a.configuration := by
      unfold AnnotatedConfiguration.annotate
      split <;> rfl
    rw [passAll, pass_eq_annotate]
    dsimp only
    rw [ih, List.map_cons, List.filter_cons, hsame]
    cases a.configuration.hasTokens with
    | false => rfl
    | true => simp [Run.reportAll, List.foldl_append]

end AnnotatedUnit

/-- The audit of a unit sends its configurations through the checks, and the checks keep apart. -/
theorem AnnotatedUnit.audit_isolated (settings : Settings) (g : GroupContext) (u : AnnotatedUnit)
    (r : Run) :
    u.audit settings g r =
        ({ u with configurations := (u.passAll settings g u.configurations r).1 },
          (u.passAll settings g u.configurations r).2) ∧
      ∀ (x : Subject) (r : Run), x.Isolated r := by
  refine ⟨?_, Subject.pass_isolated⟩
  rw [passAll_eq]
  rfl

end SpaceAudit
