import SpaceAudit.Audit.CrossSpace
import SpaceAudit.Audit.HostLibrary
import SpaceAudit.Proofs.Audit.Subject
import SpaceAudit.Proofs.Space.Classification
import SpaceAudit.Space.Resolution

/-! Two audits look at single tokens: accesses from the other execution space, and the standard
library in device code. However bodies are nested, each reports the offending tokens and reports
every one of them once. -/
namespace SpaceAudit.Subject
variable {x : Subject}

/-- `t` is code of the classified scope `s`, whose body opens in the unit's own source and holds
`t`. -/
structure CodeOf (x : Subject) (s : x.ScopeIdx) (info : ExecInfo) (t : x.TokenIdx) : Prop where
  owner : x.configuration.execOwnerOfToken? t = some s
  classified : x.notes.exec? s = some info
  ordered : s ∈ x.configuration.scopeOrder
  body : ∃ first last, (x.configuration.scope s).bodyStart = .resolved first ∧
    (x.configuration.scope s).bodyEnd = .resolved last ∧ x.inMainFile first = true ∧
    first ≤ t ∧ t ≤ last

theorem codeOf_iff {s : x.ScopeIdx} {info : ExecInfo} {t : x.TokenIdx} :
    x.CodeOf s info t ↔ (∃ start, (s, start) ∈ x.auditedScopes) ∧ t ∈ x.configuration.bodyOrNone s ∧
      x.configuration.execOwnerOfToken? t = some s ∧ x.notes.exec? s = some info := by
  constructor
  · intro h
    obtain ⟨first, last, hfirst, hlast, hmain, hin⟩ := h.body
    exact ⟨⟨first, mem_auditedScopes.2 ⟨h.ordered, ⟨info, h.classified⟩, hfirst, hmain⟩⟩,
      Configuration.mem_bodyOrNone.2 ⟨first, last, hfirst, hlast, hin⟩, h.owner, h.classified⟩
  · rintro ⟨⟨start, hs⟩, ht, howner, hinfo⟩
    obtain ⟨first, last, hfirst, hlast, hin⟩ := Configuration.mem_bodyOrNone.1 ht
    obtain ⟨hmem, _, hstart, hmain⟩ := mem_auditedScopes.1 hs
    rw [hfirst, Ref.resolved.injEq] at hstart
    subst hstart
    exact ⟨howner, hinfo, hmem, first, last, hfirst, hlast, hmain, hin⟩

/-- Where only the owner of a token judges it, the audited bodies together say one thing about
each token that they judge. -/
theorem oneForEach_of_owner {places : List (x.ScopeIdx × x.TokenIdx)}
    {judge : x.ScopeIdx → x.TokenIdx → Option Finding} (hp : places.Sublist x.auditedScopes)
    (howner : ∀ s t f, judge s t = some f → x.configuration.execOwnerOfToken? t = some s) :
    OneForEach
      (fun t f => ∃ p ∈ places, t ∈ x.configuration.bodyOrNone p.1 ∧ judge p.1 t = some f)
      (places.flatMap fun p => (x.configuration.bodyOrNone p.1).filterMap (judge p.1)) := by
  refine OneForEach.of_places (auditedScopes_nodup.sublist hp)
    (fun p => Configuration.bodyOrNone_nodup p.1) ?_
  intro p hmem q hmem' t f g hf hg
  have hpq := howner p.1 t f hf
  rw [howner q.1 t g hg, Option.some.injEq] at hpq
  exact eq_of_mem_auditedScopes (hp.subset hmem) (hp.subset hmem') hpq.symm

/-- `t` is the name of `v` in its declaration, or what follows the type of `v`. -/
def Declares (x : Subject) (v : x.VariableIdx) (t : x.TokenIdx) : Prop :=
  (x.configuration.var v).nameToken = .resolved t ∨
    ∃ last, (x.configuration.var v).typeEnd = .resolved last ∧ last.val + 1 = t.val

/-- `f` is what a mismatch at `t` calls for: `t` indexes or calls a variable that is stored in the
other space than the one its code runs in, and does not declare it. -/
def Mismatch (x : Subject) (t : x.TokenIdx) (f : Finding) : Prop :=
  ∃ s info v b stored, x.CodeOf s info t ∧ (x.configuration.token t).var = .resolved v ∧
    x.notes.memory? v = some b ∧
    (b.space = .host ∧ stored = .host ∨ b.space = .device ∧ stored = .device) ∧
    stored ≠ info.space ∧
    (x.configuration.nextText t = "(" ∨ x.configuration.nextText t = "[") ∧ ¬ x.Declares v t ∧
    f = ⟨if info.space = .host ∧ (b.confirmed = false ∨ x.settings.downgrades x.path = true)
          then .warning else .fatal,
        .crossSpaceAccess, x.path, (x.configuration.token t).line, (x.configuration.token t).column,
        mismatchText info.space (x.configuration.var v).name stored, none⟩

/-- `f` is what the standard library in device code calls for at the token `t`. -/
def LibraryUse (x : Subject) (t : x.TokenIdx) (f : Finding) : Prop :=
  ∃ s info, x.CodeOf s info t ∧ info.space = .device ∧ x.configuration.text t = "std" ∧
    x.configuration.nextText t = "::" ∧
    x.configuration.textAt (t.val + 2) ∉ x.settings.deviceSafeStd ∧
    f = ⟨.fatal, .hostStdOnDevice, x.path, (x.configuration.token t).line,
        (x.configuration.token t).column,
        "std::" ++ x.configuration.textAt (t.val + 2) ++ " is not guaranteed to be available on GPU",
        some "Use the Kokkos or ddc equivalent, or move the call to the host"⟩

theorem isDeclaration_iff {v : x.VariableIdx} {t : x.TokenIdx} :
    x.isDeclaration v t = true ↔ x.Declares v t := by
  simp only [isDeclaration, Declares, Bool.or_eq_true, beq_iff_eq, Ref.get?_eq_some_iff,
    Option.bind_eq_some_iff, Configuration.next?, Configuration.tokenAt?_eq_some_iff]

theorem exec?_eq_some_iff {m : MemorySpace} {stored : ExecSpace} :
    m.exec? = some stored ↔ m = .host ∧ stored = .host ∨ m = .device ∧ stored = .device := by
  cases m <;> simp [MemorySpace.exec?, eq_comm]

theorem mismatchSeverity_eq {space : ExecSpace} {b : Binding} :
    x.mismatchSeverity space b =
      if space = .host ∧ (b.confirmed = false ∨ x.settings.downgrades x.path = true)
        then .warning else .fatal := by
  simp [mismatchSeverity]

def accessJudgement (x : Subject) (s : x.ScopeIdx) (t : x.TokenIdx) : Option Finding :=
  (x.notes.exec? s).bind fun info => (x.configuration.token t).var.get?.bind fun v =>
    x.accessFinding? s info.space (t, v)

theorem accessFinding?_eq_some_iff {s : x.ScopeIdx} {space : ExecSpace} {t : x.TokenIdx}
    {v : x.VariableIdx} {f : Finding} :
    x.accessFinding? s space (t, v) = some f ↔ ∃ b stored, x.notes.memory? v = some b ∧
      b.space.exec? = some stored ∧ stored ≠ space ∧
      (x.configuration.nextText t = "(" ∨ x.configuration.nextText t = "[") ∧
      x.configuration.execOwnerOfToken? t = some s ∧ ¬ x.Declares v t ∧
      f = x.findingAt t .crossSpaceAccess (x.mismatchSeverity space b)
        (mismatchText space (x.configuration.var v).name stored) := by
  unfold accessFinding?
  cases hb : x.notes.memory? v with
  | none => simp
  | some b =>
    cases hs : b.space.exec? with
    | none => simp [hs]
    | some stored =>
      simp only [hs, Option.ite_none_right_eq_some, Bool.and_eq_true, bne_iff_ne, beq_iff_eq,
        Bool.not_eq_true', List.contains_iff_mem, List.mem_cons, List.not_mem_nil, or_false,
        Option.some.injEq, ← isDeclaration_iff, Bool.not_eq_true]
      constructor
      · rintro ⟨⟨⟨⟨hne, hnext⟩, howner⟩, hdecl⟩, rfl⟩
        exact ⟨b, stored, rfl, hs, hne, hnext, howner, hdecl, rfl⟩
      · rintro ⟨_, _, rfl, hstored, hne, hnext, howner, hdecl, rfl⟩
        rw [hs, Option.some.injEq] at hstored
        subst hstored
        exact ⟨⟨⟨⟨hne, hnext⟩, howner⟩, hdecl⟩, rfl⟩

theorem accessJudgement_owner {s : x.ScopeIdx} {t : x.TokenIdx} {f : Finding}
    (h : x.accessJudgement s t = some f) : x.configuration.execOwnerOfToken? t = some s := by
  simp only [accessJudgement, Option.bind_eq_some_iff, accessFinding?_eq_some_iff] at h
  obtain ⟨_, _, _, _, _, _, _, _, _, _, howner, _⟩ := h
  exact howner

theorem scopeAccessFindings_eq_ok {s : x.ScopeIdx} {gs : List Finding}
    (h : x.scopeAccessFindings s = .ok gs) :
    gs = (x.configuration.bodyOrNone s).filterMap (x.accessJudgement s) := by
  unfold scopeAccessFindings at h
  cases hi : x.notes.exec? s with
  | none =>
    simp only [Annotations.space?, hi, Option.map_none, Except.ok.injEq] at h
    simp [accessJudgement, hi, ← h]
  | some info =>
    simp only [Annotations.space?, hi, Option.map_some] at h
    split at h
    · simp at h
    · rename_i ts hts
      rw [Except.ok.injEq] at h
      -- The audit first pairs tokens with their variables and then judges the pairs.
      rw [Configuration.bodyOrNone_eq hts, ← h, uses, List.filterMap_filterMap]
      congr 1
      funext t
      cases hv : (x.configuration.token t).var.get? <;> simp [accessJudgement, hi, hv]

theorem accessJudgement_iff_mismatch {t : x.TokenIdx} {f : Finding} :
    (∃ p ∈ x.auditedScopes, t ∈ x.configuration.bodyOrNone p.1 ∧ x.accessJudgement p.1 t = some f) ↔
      x.Mismatch t f := by
  simp only [accessJudgement, Option.bind_eq_some_iff, accessFinding?_eq_some_iff,
    Ref.get?_eq_some_iff, mismatchSeverity_eq, exec?_eq_some_iff]
  constructor
  · rintro ⟨⟨s, start⟩, hs, ht, info, hinfo, v, hv, b, stored, hb, hstored, hne, hnext, howner, hrest⟩
    exact ⟨s, info, v, b, stored, codeOf_iff.2 ⟨⟨start, hs⟩, ht, howner, hinfo⟩, hv, hb, hstored, hne,
      hnext, hrest⟩
  · rintro ⟨s, info, v, b, stored, hcode, hv, hb, hstored, hne, hnext, hrest⟩
    obtain ⟨⟨start, hs⟩, ht, howner, hinfo⟩ := codeOf_iff.1 hcode
    exact ⟨(s, start), hs, ht, info, hinfo, v, hv, b, stored, hb, hstored, hne, hnext, howner, hrest⟩

theorem accessFindings_oneForEach {fs : List Finding} (h : x.accessFindings = .ok fs) :
    OneForEach x.Mismatch fs := by
  have hfs := Outcome.collect_eq_ok (fun p _ => scopeAccessFindings_eq_ok (s := p.1)) h
  rw [hfs]
  exact (oneForEach_of_owner (List.Sublist.refl _) fun s t f => accessJudgement_owner).congr
    fun t f => accessJudgement_iff_mismatch

theorem libraryFinding?_eq_some_iff {s : x.ScopeIdx} {t : x.TokenIdx} {f : Finding} :
    x.libraryFinding? s t = some f ↔ x.configuration.text t = "std" ∧
      x.configuration.nextText t = "::" ∧ x.configuration.execOwnerOfToken? t = some s ∧
      x.configuration.textAt (t.val + 2) ∉ x.settings.deviceSafeStd ∧
      f = ⟨.fatal, .hostStdOnDevice, x.path, (x.configuration.token t).line,
        (x.configuration.token t).column,
        "std::" ++ x.configuration.textAt (t.val + 2) ++ " is not guaranteed to be available on GPU",
        some "Use the Kokkos or ddc equivalent, or move the call to the host"⟩ := by
  simp only [libraryFinding?, findingAt, Option.ite_none_right_eq_some, Bool.and_eq_true, beq_iff_eq,
    Bool.not_eq_true', List.contains_eq_mem, decide_eq_false_iff_not, Option.some.injEq, and_assoc,
    eq_comm (a := f)]

theorem scopeLibraryFindings_eq_ok {s : x.ScopeIdx} {gs : List Finding}
    (h : x.scopeLibraryFindings s = .ok gs) :
    gs = (x.configuration.bodyOrNone s).filterMap (x.libraryFinding? s) := by
  unfold scopeLibraryFindings at h
  split at h
  · simp at h
  · rename_i ts hts
    rw [Except.ok.injEq] at h
    rw [Configuration.bodyOrNone_eq hts, h]

theorem libraryFinding?_iff_libraryUse {t : x.TokenIdx} {f : Finding} :
    (∃ p ∈ x.auditedScopes.filter fun (s, _) => x.notes.space? s == some .device,
      t ∈ x.configuration.bodyOrNone p.1 ∧ x.libraryFinding? p.1 t = some f) ↔ x.LibraryUse t f := by
  simp only [List.mem_filter, beq_iff_eq, libraryFinding?_eq_some_iff]
  constructor
  · rintro ⟨⟨s, start⟩, ⟨hs, hspace⟩, ht, htext, hnext, howner, hrest⟩
    obtain ⟨info, hinfo, hdevice⟩ := Option.map_eq_some_iff.1 hspace
    exact ⟨s, info, codeOf_iff.2 ⟨⟨start, hs⟩, ht, howner, hinfo⟩, hdevice, htext, hnext, hrest⟩
  · rintro ⟨s, info, hcode, hdevice, htext, hnext, hrest⟩
    obtain ⟨⟨start, hs⟩, ht, howner, hinfo⟩ := codeOf_iff.1 hcode
    refine ⟨(s, start), ⟨hs, ?_⟩, ht, htext, hnext, howner, hrest⟩
    simp [Annotations.space?, hinfo, hdevice]

theorem libraryFindings_oneForEach {fs : List Finding} (h : x.libraryFindings = .ok fs) :
    OneForEach x.LibraryUse fs := by
  have hfs := Outcome.collect_eq_ok (fun p _ => scopeLibraryFindings_eq_ok (s := p.1)) h
  rw [hfs]
  refine (oneForEach_of_owner List.filter_sublist ?_).congr fun t f => libraryFinding?_iff_libraryUse
  intro s t f hf
  exact (libraryFinding?_eq_some_iff.1 hf).2.2.1

/-- Both audits report exactly the tokens they are about, each once, whatever the nesting and
whatever the annotations are. A declaration is no access. -/
theorem token_audits_exact (x : Subject) :
    (∀ fs, x.accessFindings = .ok fs → OneForEach x.Mismatch fs) ∧
      (∀ fs, x.libraryFindings = .ok fs → OneForEach x.LibraryUse fs) ∧
      ∀ t v f, (x.configuration.token t).var = .resolved v → x.Declares v t → ¬ x.Mismatch t f := by
  refine ⟨fun fs => accessFindings_oneForEach, fun fs => libraryFindings_oneForEach, ?_⟩
  rintro t v f hv hdecl ⟨_, _, w, _, _, _, hw, _, _, _, _, hnot, _⟩
  rw [hv, Ref.resolved.injEq] at hw
  exact hnot (hw ▸ hdecl)

def nestedSubject : Subject where
  path := ⟨"a.cpp"⟩
  mainFile := 0
  settings := .standard
  aliases := .empty
  signatures := .empty
  configuration := Configuration.nestedSample
  notes := Configuration.nestedSample.resolveMemory .standard .empty
    (Configuration.nestedSample.classify .standard .none)

def nestedAccess : Finding :=
  ⟨.fatal, .crossSpaceAccess, ⟨"a.cpp"⟩, 1, 21, mismatchText .device "x" .host, none⟩

def nestedLibraryCall : Finding :=
  ⟨.fatal, .hostStdOnDevice, ⟨"a.cpp"⟩, 1, 26, "std::sort is not guaranteed to be available on GPU",
    some "Use the Kokkos or ddc equivalent, or move the call to the host"⟩

/-- In the sample the block owns both offending tokens; the declaration at token 16 is none. -/
theorem token_audits_exact_nested :
    nestedSubject.accessFindings = .ok [nestedAccess] ∧
      nestedSubject.libraryFindings = .ok [nestedLibraryCall] ∧
      OneForEach nestedSubject.Mismatch [nestedAccess] ∧
      OneForEach nestedSubject.LibraryUse [nestedLibraryCall] ∧
      ¬ nestedSubject.Mismatch (16 : Fin 35) nestedAccess := by
  have haccess : nestedSubject.accessFindings = .ok [nestedAccess] := by decide +kernel
  have hlibrary : nestedSubject.libraryFindings = .ok [nestedLibraryCall] := by decide +kernel
  have h := token_audits_exact nestedSubject
  exact ⟨haccess, hlibrary, h.1 _ haccess, h.2.1 _ hlibrary,
    h.2.2 (16 : Fin 35) (0 : Fin 1) _ rfl (.inl rfl)⟩

end SpaceAudit.Subject
