import SpaceAudit.Proofs.Audit.Pipeline
import SpaceAudit.Proofs.Run.Fresh
import SpaceAudit.Proofs.Space.Classification
import SpaceAudit.Sketch.Layout

/-! On a configuration whose bodies and brackets are linked no check is skipped: whatever a check
looks up is there. -/
namespace SpaceAudit

theorem Ref.missing?_eq_none {n : Nat} {r : Ref n} (h : r.isResolved = true) (role : Role) :
    r.missing? role = none := by
  cases r with
  | resolved i => rfl
  | absent => cases h
  | dangling id => cases h

/-- None of the lookups misses anything. -/
def NoneMissing (lookups : List (Option Missing)) : Prop := ∀ l ∈ lookups, l = none

namespace NoneMissing
variable {ls ms : List (Option Missing)}

theorem nil : NoneMissing [] := nofun

theorem cons {l : Option Missing} (h : l = none) (hs : NoneMissing ls) : NoneMissing (l :: ls) :=
  List.forall_mem_cons.2 ⟨h, hs⟩

theorem append (h : NoneMissing ls) (h' : NoneMissing ms) : NoneMissing (ls ++ ms) :=
  List.forall_mem_append.2 ⟨h, h'⟩

theorem flatMap {α : Type} {l : List α} {lookups : α → List (Option Missing)}
    (h : ∀ a ∈ l, NoneMissing (lookups a)) : NoneMissing (l.flatMap lookups) := by
  intro o ho
  obtain ⟨a, ha, ho⟩ := List.mem_flatMap.1 ho
  exact h a ha o ho

theorem toList {α : Type} {o : Option α} {lookups : α → List (Option Missing)}
    (h : ∀ a, o = some a → NoneMissing (lookups a)) : NoneMissing (o.toList.flatMap lookups) :=
  flatMap fun a ha => h a (Option.mem_toList.1 ha)

theorem exists_ok {α : Type} {o : Except Missing α} (h : NoneMissing ls) (ho : FailsBy ls o) :
    ∃ a, o = .ok a := by
  cases o with
  | ok a => exact ⟨a, rfl⟩
  | error e =>
    have hsome := (ho e).1 rfl
    obtain ⟨l, hl, he⟩ := List.exists_of_findSome?_eq_some hsome
    rw [h l hl] at he
    cases he

end NoneMissing

namespace Configuration
variable {c : Configuration}

/-- Code has a body that opens, what opens also closes, and brackets have partners. -/
structure WellLinked (c : Configuration) : Prop where
  scopes : c.sections.scopes = true
  bodyStart : ∀ s, (c.scope s).kind.isExecutable = true → (c.scope s).bodyStart.isResolved = true
  bodyEnd : ∀ s, (c.scope s).bodyStart.isResolved = true → (c.scope s).bodyEnd.isResolved = true
  links : ∀ t, c.text t = "(" ∨ c.text t = "[" → (c.token t).link.isResolved = true

/-- Only executable scopes carry a note, as when a configuration has just been loaded. -/
def OnCode (c : Configuration) (a : Annotations c.extent) : Prop :=
  ∀ s, (a.exec? s).isSome → (c.scope s).kind.isExecutable = true

theorem onCode_none : c.OnCode .none := by
  intro s hs
  simp [Annotations.exec?, Annotations.none] at hs

theorem OnCode.classifyScope {a : Annotations c.extent} (h : c.OnCode a) (settings : Settings)
    (s : c.ScopeIdx) : c.OnCode (c.classifyScope settings a s) := by
  unfold Configuration.classifyScope
  split
  · rename_i hexec
    intro r hr
    by_cases hrs : r = s
    · rw [hrs]
      exact hexec
    · rw [Annotations.exec?_classify_ne a _ hrs] at hr
      exact h r hr
  · exact h

theorem OnCode.classify {a : Annotations c.extent} (h : c.OnCode a) (settings : Settings) :
    c.OnCode (c.classify settings a) := by
  unfold Configuration.classify
  split
  · induction c.scopeOrder generalizing a with
    | nil => exact h
    | cons s l ih => exact ih (h.classifyScope settings s)
  · exact h

theorem OnCode.resolveMemory {a : Annotations c.extent} (h : c.OnCode a) (settings : Settings)
    (aliases : AliasTable) : c.OnCode (c.resolveMemory settings aliases a) := by
  intro s hs
  rw [Annotations.exec?, Stage.exec_resolveMemory] at hs
  exact h s hs

namespace WellLinked

theorem bodyLookups (h : c.WellLinked) {s : c.ScopeIdx}
    (hs : (c.scope s).bodyStart.isResolved = true) : NoneMissing (c.bodyLookups s) :=
  .cons (Ref.missing?_eq_none hs _) (.cons (Ref.missing?_eq_none (h.bodyEnd s hs) _) .nil)

theorem link_of_argumentList? (h : c.WellLinked) {t opening : c.TokenIdx}
    (ho : c.argumentList? t = some opening) : (c.token opening).link.isResolved = true := by
  obtain ⟨_, htext⟩ := Option.filter_eq_some_iff.1 ho
  exact h.links opening (.inl (beq_iff_eq.1 htext))

theorem argumentLookups (h : c.WellLinked) {call : c.TokenIdx} (hnext : c.nextText call = "(") :
    NoneMissing (c.argumentLookups call) := by
  unfold Configuration.argumentLookups
  cases ho : c.argumentList? call with
  | none =>
    unfold nextText at hnext
    unfold argumentList? at ho
    cases hn : c.next? call with
    | none =>
      rw [hn] at hnext
      exact absurd hnext (show "" ≠ "(" by decide)
    | some opening =>
      rw [hn] at hnext ho
      have htext : c.text opening = "(" := hnext
      simp [htext] at ho
  | some opening => exact .cons (Ref.missing?_eq_none (h.link_of_argumentList? ho) _) .nil

end WellLinked

end Configuration

namespace Subject
variable {x : Subject}

theorem isResolved_of_audited {s : x.ScopeIdx} {start : x.TokenIdx}
    (h : (s, start) ∈ x.auditedScopes) : (x.configuration.scope s).bodyStart.isResolved = true := by
  rw [(mem_auditedScopes.1 h).2.2.1]
  rfl

theorem isResolved_of_launched {argument : List x.TokenIdx} {s : x.ScopeIdx}
    (h : x.launchedScope? argument = some s) :
    (x.configuration.scope s).bodyStart.isResolved = true := by
  obtain ⟨t, _, ht⟩ := List.exists_of_findSome?_eq_some h
  split at ht
  · rw [Configuration.scopeOpenedAt?_eq] at ht
    have hopened := List.find?_some ht
    rw [Ref.isResolved, beq_iff_eq.1 hopened]
    rfl
  · cases ht

/-- A scope that is noted as a virtual device body is code. -/
theorem classificationLookups_noneMissing (h : x.configuration.WellLinked)
    (hn : x.configuration.OnCode x.notes) : NoneMissing x.classificationLookups := by
  refine .cons (if_pos h.scopes) (.flatMap fun s _ => ?_)
  unfold virtualLookups
  split
  · rename_i hvirtual
    have hspace := (Bool.and_eq_true_iff.1 hvirtual).1
    obtain ⟨info, hinfo, _⟩ := Option.map_eq_some_iff.1 (beq_iff_eq.1 hspace)
    have hexec := hn s (by rw [hinfo]; rfl)
    exact .cons (Ref.missing?_eq_none (h.bodyStart s hexec) _) .nil
  · exact .nil

theorem captureLookups_noneMissing (h : x.configuration.WellLinked) :
    NoneMissing x.captureLookups := by
  refine .flatMap fun p hp => ?_
  obtain ⟨s, start⟩ := p
  dsimp only
  split
  · exact h.bodyLookups (isResolved_of_audited (List.mem_filter.1 hp).1)
  · exact .nil

theorem accessLookups_noneMissing (h : x.configuration.WellLinked) : NoneMissing x.accessLookups :=
  .flatMap fun _ hp => h.bodyLookups (isResolved_of_audited hp)

theorem libraryLookups_noneMissing (h : x.configuration.WellLinked) :
    NoneMissing x.libraryLookups :=
  .flatMap fun _ hp => h.bodyLookups (isResolved_of_audited (List.mem_filter.1 hp).1)

theorem bareLambdaLookups_noneMissing (h : x.configuration.WellLinked)
    (argument : List x.TokenIdx) : NoneMissing (x.bareLambdaLookups argument) := by
  cases argument with
  | nil => exact .nil
  | cons first rest =>
    unfold bareLambdaLookups
    dsimp only
    by_cases hbare : x.configuration.text first = "["
    · rw [if_pos hbare]
      refine .append (.cons (Ref.missing?_eq_none (h.links first (.inr hbare)) _) .nil)
        (.toList fun close _ => ?_)
      unfold parameterLookups
      cases ho : x.configuration.argumentList? close with
      | none => exact .nil
      | some opening => exact .cons (Ref.missing?_eq_none (h.link_of_argumentList? ho) _) .nil
    · rw [if_neg hbare]
      exact .nil

/-- The scope that an argument opens may be of any kind; it has a body all the same. -/
theorem launchedMemberLookups_noneMissing (h : x.configuration.WellLinked)
    (argument : List x.TokenIdx) : NoneMissing (x.launchedMemberLookups argument) := by
  unfold launchedMemberLookups
  cases hs : x.launchedScope? argument with
  | none => exact .nil
  | some s =>
    dsimp only
    split
    · exact .nil
    · exact h.bodyLookups (isResolved_of_launched hs)

theorem launchLookups_noneMissing (h : x.configuration.WellLinked) :
    NoneMissing x.launchLookups := by
  refine .flatMap fun call hcall => ?_
  have hlaunch := (List.mem_filter.1 hcall).2
  simp only [isLaunch, Bool.and_eq_true, beq_iff_eq] at hlaunch
  refine .append (h.argumentLookups hlaunch.1.1.2) (.toList fun last _ => ?_)
  exact .append (bareLambdaLookups_noneMissing h last) (launchedMemberLookups_noneMissing h last)

theorem mirrorLookups_noneMissing (h : x.configuration.WellLinked) :
    NoneMissing x.mirrorLookups := by
  refine .flatMap fun s _ => .toList fun call hcall => ?_
  have hmirror := List.find?_some hcall
  simp only [Bool.and_eq_true, beq_iff_eq] at hmirror
  exact h.argumentLookups hmirror.2

theorem lookups_noneMissing {s : Stage} (hs : s ∈ Stage.all) (h : x.configuration.WellLinked)
    (hn : x.configuration.OnCode x.notes) : NoneMissing (s.lookups x) := by
  simp only [Stage.all, Stage.later, List.mem_cons, List.not_mem_nil, or_false] at hs
  rcases hs with rfl | rfl | rfl | rfl | rfl | rfl | rfl | rfl | rfl | rfl
  · exact classificationLookups_noneMissing h hn
  · exact .nil
  · exact captureLookups_noneMissing h
  · exact .nil
  · exact accessLookups_noneMissing h
  · exact .nil
  · exact libraryLookups_noneMissing h
  · exact launchLookups_noneMissing h
  · exact mirrorLookups_noneMissing h
  · exact .nil

/-- Every check of the subject was carried out, and none is reported as skipped. -/
structure Undegraded (x : Subject) (r : Run) : Prop where
  carriedOut : ∀ entry ∈ (x.pass Stage.all r).log, ∃ found, entry.2 = .ok found ∧
    ∀ f ∈ found, f.check ≠ .structural
  /-- What the run records beyond what it had is about the code. -/
  recorded : ∀ f ∈ (x.pass Stage.all r).run.findings, f ∈ r.findings ∨ f.check ≠ .structural
  findings : ∀ f ∈ (x.withNotes (x.configuration.resolveMemory x.settings x.aliases
    (x.configuration.classify x.settings x.notes))).findings, f.check ≠ .structural
  /-- The checks leave the configuration as they need it for another audit. -/
  again : (x.pass Stage.all r).subject.configuration.WellLinked ∧
    (x.pass Stage.all r).subject.configuration.OnCode (x.pass Stage.all r).subject.notes

theorem carriedOut_of_wellLinked {s : Stage} (hs : s ∈ Stage.all) (h : x.configuration.WellLinked)
    (hn : x.configuration.OnCode x.notes) :
    ∃ found, s.findings x = .ok found ∧ ∀ f ∈ found, f.check ≠ .structural := by
  obtain ⟨found, hfound⟩ := (lookups_noneMissing hs h hn).exists_ok (Stage.failsBy_of_mem_all hs x)
  have hanswers := Stage.answers_of_mem_all hs x
  rw [hfound] at hanswers
  exact ⟨found, hfound, fun f hf => (hanswers f hf).check⟩

/-- A well-linked configuration never degrades, whatever the settings, the aliases and the
signatures are and whichever file is the main one. -/
theorem pass_of_wellLinked (x : Subject) (r : Run) (h : x.configuration.WellLinked)
    (hn : x.configuration.OnCode x.notes) : x.Undegraded r := by
  have hsubject : (x.pass Stage.all r).subject = x.withNotes (x.configuration.resolveMemory
      x.settings x.aliases (x.configuration.classify x.settings x.notes)) := by
    rw [Stage.pass_eq, Stage.notedBy_all]
    rfl
  have hnoted : x.configuration.OnCode (x.configuration.resolveMemory x.settings x.aliases
      (x.configuration.classify x.settings x.notes)) :=
    (hn.classify x.settings).resolveMemory x.settings x.aliases
  have hlog : (x.pass Stage.all r).log =
      Stage.all.map fun s => (s.name, s.findings (x.pass Stage.all r).subject) := by
    rw [Stage.pass_eq, Stage.entries_all]
  have hentry : ∀ entry ∈ (x.pass Stage.all r).log, ∃ found, entry.2 = .ok found ∧
      ∀ f ∈ found, f.check ≠ .structural := by
    intro entry hmem
    rw [hlog, hsubject] at hmem
    obtain ⟨s, hs, rfl⟩ := List.mem_map.1 hmem
    exact carriedOut_of_wellLinked hs h hnoted
  have htold : ∀ f ∈ (x.pass Stage.all r).log.flatMap (Stage.told x.path),
      f.check ≠ .structural := by
    intro f hf
    obtain ⟨entry, hmem, hf⟩ := List.mem_flatMap.1 hf
    obtain ⟨found, hok, hfound⟩ := hentry entry hmem
    obtain ⟨name, outcome⟩ := entry
    obtain rfl : outcome = .ok found := hok
    exact hfound f hf
  refine ⟨hentry, ?_, ?_, ?_⟩
  · intro f hf
    have hrun : (x.pass Stage.all r).run =
        r.reportAll ((x.pass Stage.all r).log.flatMap (Stage.told x.path)) := by
      rw [Stage.pass_eq]
    rw [hrun, (Run.recorded_reportAll r _).1] at hf
    rcases List.mem_append.1 hf with hf | hf
    · exact .inl hf
    · exact .inr (htold f (mem_of_mem_firstsOf (List.mem_filter.1 hf).1))
  · intro f hf
    refine htold f ?_
    rw [hlog, hsubject]
    exact (Stage.told_map_all _).symm ▸ hf
  · rw [hsubject]
    exact ⟨h, hnoted⟩

end Subject

namespace Configuration

/-- A class with a method that launches a bare lambda on a member of the class. -/
def launchTexts : Vector String 29 :=
  #v["class", "C", "\x7b", "int", "m", ";", "void", "f", "(", ")", "\x7b", "parallel_for", "(", "[",
    "=", "]", "(", "int", "i", ")", "\x7b", "m", ";", "\x7d", ")", ";", "\x7d", "\x7d", ";"]

def launchLink (i : Nat) : Ref 29 :=
  match Sketch.partner? (Sketch.bracketPairs launchTexts.toList) i with
  | some j => if h : j < 29 then .resolved ⟨j, h⟩ else .absent
  | none => .absent

/-- The class is scope 1, its method scope 2 and the lambda scope 3. -/
def launchSample : Configuration where
  name := ""
  sections := ⟨true, true, true, true⟩
  extent := ⟨29, 4, 0, 1⟩
  tokens := Vector.ofFn fun i =>
    ⟨"", launchTexts.get i, 0, 1, i.val, .resolved (if 20 ≤ i.val ∧ i.val ≤ 23 then 3 else 2),
      if i.val = 4 ∨ i.val = 21 then .resolved ⟨0, Nat.one_pos⟩ else .absent, .absent,
      launchLink i.val, .absent⟩
  scopes :=
    #v[⟨"", .globalScope, "", .absent, .absent, .absent, .absent, []⟩,
      ⟨"", .classScope, "C", .resolved 0, .resolved 2, .resolved 27, .absent, [⟨0, Nat.one_pos⟩]⟩,
      ⟨"", .function, "f", .resolved 1, .resolved 10, .resolved 26, .absent, []⟩,
      ⟨"", .lambda, "", .resolved 2, .resolved 20, .resolved 23, .absent, []⟩]
  functions := #v[]
  vars := #v[⟨"", "m", .resolved 4, .resolved 3, .resolved 3, .privately, false, false, .resolved 1⟩]
  directives := []

theorem launchSample_wellLinked : launchSample.WellLinked where
  scopes := rfl
  bodyStart := by decide +kernel
  bodyEnd := by decide +kernel
  links := by decide +kernel

end Configuration

namespace Subject

def launchSubject : Subject :=
  ⟨⟨"a.cpp"⟩, 0, .standard, .empty, .empty, Configuration.launchSample, .none⟩

/-- The sample has findings, all of them about the launch. -/
theorem pass_of_wellLinked_launch :
    launchSubject.configuration.WellLinked ∧
      launchSubject.configuration.OnCode launchSubject.notes ∧
      launchSubject.Undegraded .start ∧
      ((launchSubject.pass Stage.all .start).run.findings.map Finding.check) =
        [.bareLaunchLambda, .classVariableInLaunch] :=
  ⟨Configuration.launchSample_wellLinked, Configuration.onCode_none,
    pass_of_wellLinked launchSubject .start Configuration.launchSample_wellLinked
      Configuration.onCode_none,
    by decide +kernel⟩

end Subject

end SpaceAudit
