import SpaceAudit.Audit.Battery

/-! What an audit can answer. It reports about the subject's own source, or it names a reference or
a section that the configuration really lacks. That it was skipped it never says itself. -/
namespace SpaceAudit

/-- The reference leads nowhere, and `id` is what it says instead. -/
def Ref.Lacks {n : Nat} (r : Ref n) (id : String) : Prop :=
  r = .absent ∧ id = "<none>" ∨ r = .dangling id

theorem Ref.lacks_of_require {n : Nat} {r : Ref n} {role : Role} {e : Missing}
    (h : r.require role = .error e) : ∃ id, r.Lacks id ∧ e = .reference role id := by
  cases r with
  | absent => exact ⟨"<none>", .inl ⟨rfl, rfl⟩, (Except.error.inj h).symm⟩
  | resolved i => cases h
  | dangling id => exact ⟨id, .inr rfl, (Except.error.inj h).symm⟩

/-- Some record has no target in the role, and `id` stands in its place. -/
def Configuration.Lacks (c : Configuration) (id : String) : Role → Prop
  | .bodyStart | .virtualBodyStart => ∃ s, (c.scope s).bodyStart.Lacks id
  | .bodyEnd => ∃ s, (c.scope s).bodyEnd.Lacks id
  | .typeStart => ∃ v, (c.var v).typeStart.Lacks id
  | .typeEnd => ∃ v, (c.var v).typeEnd.Lacks id
  | .argumentList => ∃ t, (c.token t).id = id ∧ c.argumentList? t = none
  | .closingParenthesis | .captureEnd | .parameterEnd => ∃ t, (c.token t).link.Lacks id

/-- What is said to be missing is missing in the configuration. -/
def Missing.From (c : Configuration) : Missing → Prop
  | .reference role id => c.Lacks id role
  | .scopes => c.sections.scopes = false

namespace Configuration
variable {c : Configuration} {e : Missing}

theorem from_of_bodyTokens {s : c.ScopeIdx} (h : c.bodyTokens s = .error e) : e.From c := by
  unfold bodyTokens at h
  split at h
  · rename_i hfirst
    obtain ⟨id, hid, rfl⟩ := Ref.lacks_of_require hfirst
    obtain rfl := Except.error.inj h
    exact ⟨s, hid⟩
  · split at h
    · rename_i hlast
      obtain ⟨id, hid, rfl⟩ := Ref.lacks_of_require hlast
      obtain rfl := Except.error.inj h
      exact ⟨s, hid⟩
    · cases h

theorem from_of_callArguments {call : c.TokenIdx} (h : c.callArguments call = .error e) :
    e.From c := by
  unfold callArguments at h
  split at h
  · rename_i hnone
    obtain rfl := Except.error.inj h
    exact ⟨call, rfl, hnone⟩
  · split at h
    · rename_i opening _ _ _ hlink
      obtain ⟨id, hid, rfl⟩ := Ref.lacks_of_require hlink
      obtain rfl := Except.error.inj h
      exact ⟨opening, hid⟩
    · split at h <;> cases h

end Configuration

/-- The finding is about the code of one source, not about how the audit went. -/
structure Finding.About (path : Path) (f : Finding) : Prop where
  file : f.file = path
  check : f.check ≠ .structural

/-- The outcome reports about one source, or names what the configuration lacks. -/
def Outcome.Sound (path : Path) (c : Configuration) : Outcome → Prop
  | .error e => e.From c
  | .ok found => ∀ f ∈ found, f.About path

theorem Outcome.Sound.collect {α : Type} {path : Path} {c : Configuration} {part : α → Outcome}
    {l : List α} (h : ∀ a ∈ l, Outcome.Sound path c (part a)) :
    Outcome.Sound path c (Outcome.collect part l) := by
  induction l with
  | nil => simp [Outcome.collect, Outcome.Sound]
  | cons a rest ih =>
    have ha := h a (by simp)
    have hrest := ih fun b hb => h b (List.mem_cons_of_mem a hb)
    unfold Outcome.collect
    cases hpart : part a with
    | error e =>
      rw [hpart] at ha
      exact ha
    | ok found =>
      rw [hpart] at ha
      cases hmore : Outcome.collect part rest with
      | error e =>
        rw [hmore] at hrest
        exact hrest
      | ok more =>
        rw [hmore] at hrest
        exact List.forall_mem_append.2 ⟨ha, hrest⟩

namespace Subject
variable {x : Subject}

abbrev Answers (x : Subject) (o : Outcome) : Prop := Outcome.Sound x.path x.configuration o

theorem answers_nil : x.Answers (.ok []) := by simp [Outcome.Sound]

theorem answers_findingAt (t : x.TokenIdx) {check : Check} (hcheck : check ≠ .structural)
    (severity : Severity) (message : String) :
    x.Answers (.ok [x.findingAt t check severity message]) :=
  List.forall_mem_singleton.2 ⟨rfl, hcheck⟩

theorem answers_filterMap {α : Type} {judge : α → Option Finding} (l : List α)
    (h : ∀ a f, judge a = some f → f.About x.path) : x.Answers (.ok (l.filterMap judge)) := by
  intro f hf
  obtain ⟨a, _, ha⟩ := List.mem_filterMap.1 hf
  exact h a f ha

theorem virtualFinding_answers (s : x.ScopeIdx) : x.Answers (x.virtualFinding s) := by
  unfold virtualFinding
  split
  · split
    · rename_i hstart
      obtain ⟨id, hid, rfl⟩ := Ref.lacks_of_require hstart
      exact ⟨s, hid⟩
    · dsimp only
      split
      · exact answers_findingAt _ (by decide) _ _
      · exact answers_nil
  · exact answers_nil

theorem classificationFindings_answers : x.Answers x.classificationFindings := by
  unfold classificationFindings
  split
  · exact .collect fun s _ => virtualFinding_answers s
  · rename_i hscopes
    exact Bool.eq_false_iff.2 hscopes

theorem classExecFindings_answers : x.Answers x.classExecFindings := by
  intro f hf
  obtain ⟨cls, _, hf⟩ := List.mem_flatMap.1 hf
  unfold classExecFinding at hf
  split at hf
  · cases hf
  · dsimp only at hf
    split at hf
    · obtain rfl := List.mem_singleton.1 hf
      exact ⟨rfl, nofun⟩
    · cases hf

theorem captureFinding_answers (s : x.ScopeIdx) (start : x.TokenIdx) :
    x.Answers (x.captureFinding s start) := by
  unfold captureFinding
  split
  · exact answers_findingAt _ (by decide) _ _
  · split
    · split
      · rename_i hbody
        exact Configuration.from_of_bodyTokens hbody
      · split
        · exact answers_nil
        · exact answers_findingAt _ (by decide) _ _
    · exact answers_nil

theorem scopeCaptureFindings_answers (s : x.ScopeIdx) (start : x.TokenIdx) :
    x.Answers (x.scopeCaptureFindings s start) := by
  unfold scopeCaptureFindings
  split
  · split
    · exact captureFinding_answers s start
    · exact answers_nil
  · split
    · exact answers_nil
    · split
      · rename_i hbody
        exact Configuration.from_of_bodyTokens hbody
      · exact List.forall_mem_map.2 fun _ _ => ⟨rfl, nofun⟩

theorem captureFindings_answers : x.Answers x.captureFindings :=
  .collect fun p _ => scopeCaptureFindings_answers p.1 p.2

theorem accessFinding?_about {s : x.ScopeIdx} {space : ExecSpace} {u : x.TokenIdx × x.VariableIdx}
    {f : Finding} (h : x.accessFinding? s space u = some f) : f.About x.path := by
  unfold accessFinding? at h
  split at h
  · cases h
  · split at h
    · cases h
    · obtain ⟨_, hf⟩ := Option.ite_none_right_eq_some.1 h
      obtain rfl := Option.some.inj hf
      exact ⟨rfl, nofun⟩

theorem scopeAccessFindings_answers (s : x.ScopeIdx) : x.Answers (x.scopeAccessFindings s) := by
  unfold scopeAccessFindings
  split
  · exact answers_nil
  · split
    · rename_i hbody
      exact Configuration.from_of_bodyTokens hbody
    · exact answers_filterMap _ fun _ _ => accessFinding?_about

theorem accessFindings_answers : x.Answers x.accessFindings :=
  .collect fun p _ => scopeAccessFindings_answers p.1

theorem handleFinding?_about {s : Span} {f : Finding} (h : x.handleFinding? s = some f) :
    f.About x.path := by
  unfold handleFinding? at h
  repeat' split at h
  all_goals cases h
  exact ⟨rfl, nofun⟩

theorem ownershipFindings_answers : x.Answers x.ownershipFindings :=
  answers_filterMap _ fun _ _ => handleFinding?_about

theorem scopeLibraryFindings_answers (s : x.ScopeIdx) : x.Answers (x.scopeLibraryFindings s) := by
  unfold scopeLibraryFindings
  split
  · rename_i hbody
    exact Configuration.from_of_bodyTokens hbody
  · refine answers_filterMap _ fun t f h => ?_
    obtain ⟨_, hf⟩ := Option.ite_none_right_eq_some.1 h
    obtain rfl := Option.some.inj hf
    exact ⟨rfl, nofun⟩

theorem libraryFindings_answers : x.Answers x.libraryFindings :=
  .collect fun p _ => scopeLibraryFindings_answers p.1

theorem from_of_parameterText {close : x.TokenIdx} {e : Missing}
    (h : x.parameterText close = .error e) : e.From x.configuration := by
  unfold parameterText at h
  split at h
  · cases h
  · split at h
    · rename_i opening _ _ _ hlink
      obtain ⟨id, hid, rfl⟩ := Ref.lacks_of_require hlink
      obtain rfl := Except.error.inj h
      exact ⟨opening, hid⟩
    · cases h

theorem bareLambdaFindings_answers (launch : String) (argument : List x.TokenIdx) :
    x.Answers (x.bareLambdaFindings launch argument) := by
  unfold bareLambdaFindings
  split
  · exact answers_nil
  · rename_i opening _
    split
    · unfold bareLambdaFinding
      split
      · rename_i hlink
        obtain ⟨id, hid, rfl⟩ := Ref.lacks_of_require hlink
        exact ⟨opening, hid⟩
      · split
        · rename_i hparameters
          exact from_of_parameterText hparameters
        · exact answers_findingAt _ (by decide) _ _
    · exact answers_nil

theorem launchedMemberFindings_answers (launch : String) (argument : List x.TokenIdx) :
    x.Answers (x.launchedMemberFindings launch argument) := by
  unfold launchedMemberFindings
  split
  · exact answers_nil
  · split
    · exact answers_nil
    · split
      · rename_i hbody
        exact Configuration.from_of_bodyTokens hbody
      · exact List.forall_mem_map.2 fun _ _ => ⟨rfl, nofun⟩

theorem launchFindings_answers : x.Answers x.launchFindings := by
  refine .collect fun call _ => ?_
  unfold launchFinding
  split
  · rename_i harguments
    exact Configuration.from_of_callArguments harguments
  · split
    · exact answers_nil
    · refine .collect fun part hpart => ?_
      simp only [List.mem_cons, List.not_mem_nil, or_false] at hpart
      rcases hpart with rfl | rfl
      · exact bareLambdaFindings_answers _ _
      · exact launchedMemberFindings_answers _ _

theorem mirrorSourceFindings_answers (s : Span) (call : x.TokenIdx) :
    x.Answers (x.mirrorSourceFindings s call) := by
  unfold mirrorSourceFindings
  split
  · rename_i harguments
    exact Configuration.from_of_callArguments harguments
  · split
    · exact answers_findingAt _ (by decide) _ _
    · exact answers_nil

theorem mirrorTypeFindings_answers (s : Span) (call : x.TokenIdx) :
    x.Answers (.ok (x.mirrorTypeFindings s call)) := by
  unfold mirrorTypeFindings
  split
  · exact answers_nil
  · split
    · exact answers_findingAt _ (by decide) _ _
    · exact answers_nil

theorem mirrorFindings_answers : x.Answers x.mirrorFindings := by
  refine .collect fun s _ => ?_
  unfold statementMirrorFindings
  split
  · exact answers_nil
  · rename_i call _
    have hsource := x.mirrorSourceFindings_answers s call
    cases hfound : x.mirrorSourceFindings s call with
    | error e =>
      rw [hfound] at hsource
      exact hsource
    | ok found =>
      rw [hfound] at hsource
      exact List.forall_mem_append.2 ⟨mirrorTypeFindings_answers s call, hsource⟩

theorem autoFinding?_about {v : x.VariableIdx} {f : Finding} (h : x.autoFinding? v = some f) :
    f.About x.path := by
  unfold autoFinding? at h
  repeat' split at h
  all_goals cases h
  exact ⟨rfl, nofun⟩

theorem autoFindings_answers : x.Answers x.autoFindings :=
  answers_filterMap _ fun _ _ => autoFinding?_about

theorem audit_answers {a : Audit} (ha : a ∈ Audit.all) : x.Answers (a.findings x) := by
  simp only [Audit.all, List.mem_cons, List.not_mem_nil, or_false] at ha
  rcases ha with rfl | rfl | rfl | rfl | rfl | rfl | rfl | rfl | rfl
  · exact classificationFindings_answers
  · exact classExecFindings_answers
  · exact captureFindings_answers
  · exact accessFindings_answers
  · exact ownershipFindings_answers
  · exact libraryFindings_answers
  · exact launchFindings_answers
  · exact mirrorFindings_answers
  · exact autoFindings_answers

/-- Every finding of a subject is about its source, also that an audit was skipped. -/
theorem file_of_mem_findings {f : Finding} (hf : f ∈ x.findings) : f.file = x.path := by
  obtain ⟨a, ha, hf⟩ := List.mem_flatMap.1 hf
  have hanswers := x.audit_answers ha
  unfold Audit.report at hf
  split at hf
  · rename_i found hfound
    rw [hfound] at hanswers
    exact (hanswers f hf).file
  · obtain rfl := List.mem_singleton.1 hf
    rfl

end Subject

end SpaceAudit
