import SpaceAudit.Audit.Launch
import SpaceAudit.Proofs.Audit.CapturingScope
import SpaceAudit.Proofs.Call.Splitting
import SpaceAudit.Proofs.Source.TokenIds

/-! The audit of parallel launches goes by the last argument of each call: by its first token, and
by the first scope that opens in it. What the other arguments hold is not looked at, except where
the bracket before a lambda is linked back to them: then the report of the lambda quotes what it
finds there. -/
namespace SpaceAudit

namespace Configuration
variable {c : Configuration}

/-- The body of the scope opens at the token; of several scopes, it is the last one. -/
structure Opens (c : Configuration) (t : c.TokenIdx) (s : c.ScopeIdx) : Prop where
  start : (c.scope s).bodyStart = .resolved t
  last : ∀ r, s < r → (c.scope r).bodyStart ≠ .resolved t

theorem scopeOpenedAt?_eq_some_iff {t : c.TokenIdx} {s : c.ScopeIdx} :
    c.scopeOpenedAt? t = some s ↔ c.Opens t s := by
  rw [scopeOpenedAt?_eq, scopeIndices, find?_reverse_finRange_eq_some_iff]
  simp only [beq_iff_eq, Ref.get?_eq_some_iff]
  exact ⟨fun h => ⟨h.1, h.2⟩, fun h => ⟨h.start, h.last⟩⟩

theorem scopeOpenedAt?_eq_none_iff {t : c.TokenIdx} :
    c.scopeOpenedAt? t = none ↔ ∀ s, (c.scope s).bodyStart ≠ .resolved t := by
  rw [scopeOpenedAt?_eq, List.find?_eq_none]
  simp [scopeIndices, Ref.get?_eq_some_iff]

theorem prev?_eq_some_iff {t p : c.TokenIdx} : c.prev? t = some p ↔ p.val + 1 = t := by
  unfold prev?
  split
  · simp only [reduceCtorEq, false_iff]
    omega
  · rw [tokenAt?_eq_some_iff]
    omega

section LastArgument

theorem Joins.exists_comma {argument : List c.TokenIdx} {arguments : List (List c.TokenIdx)}
    {tokens : List c.TokenIdx} (h : Joins c (argument :: arguments) tokens)
    (hmore : arguments ≠ []) : ∃ t rest, c.text t = "," ∧ Joins c arguments rest ∧
      tokens = argument ++ t :: rest := by
  cases h with
  | last => exact absurd rfl hmore
  | comma _ htext h => exact ⟨_, _, htext, h, rfl⟩

theorem Joins.last_behind_comma {others : List (List c.TokenIdx)} {last tokens : List c.TokenIdx}
    (h : Joins c (others ++ [last]) tokens) (hothers : others ≠ []) :
    ∃ front t, c.text t = "," ∧ tokens = front ++ t :: last ∧
      ∀ u ∈ others.flatten, u ∈ front := by
  induction others generalizing tokens with
  | nil => exact absurd rfl hothers
  | cons argument others ih =>
    obtain ⟨t, rest, htext, hrest, rfl⟩ := h.exists_comma (by simp)
    by_cases hmore : others = []
    · subst hmore
      exact ⟨argument, t, htext, by rw [hrest.eq_single], by simp⟩
    · obtain ⟨front, u, hu, rfl, hfront⟩ := ih hrest hmore
      refine ⟨argument ++ t :: front, u, hu, by simp, fun v hv => ?_⟩
      rcases List.mem_append.1 (List.flatten_cons ▸ hv) with hin | hin
      · simp [hin]
      · simp [hfront v hin]

/-- The token before the last argument of a call: a comma, or the opening bracket of the call. -/
structure BeforeLast (c : Configuration) (call : c.TokenIdx) (others : List (List c.TokenIdx))
    (last : List c.TokenIdx) (t : c.TokenIdx) : Prop where
  text : c.text t = "," ∨ c.text t = "("
  afterCall : call < t
  others : ∀ u ∈ others.flatten, call < u ∧ u < t
  last : ∀ u ∈ last, t < u

theorem exists_beforeLast {call : c.TokenIdx} {others : List (List c.TokenIdx)}
    {last : List c.TokenIdx} (h : c.callArguments call = .ok (others ++ [last])) :
    ∃ t, c.BeforeLast call others last t := by
  obtain ⟨opening, close, hlist, _, harguments⟩ := callArguments_eq_ok h
  obtain ⟨hopening, htext⟩ := argumentList?_eq_some_iff.1 hlist
  have hjoins := joins_argumentsFrom close (Walk.start opening)
  split at harguments
  · exact absurd harguments (by simp)
  rw [Walk.start, ← harguments, List.nil_append] at hjoins
  have hinside : ∀ u ∈ c.tokensIn ⟨opening + 1, close⟩, opening < u := fun u hu =>
    (mem_tokensIn.1 hu).1
  have hcall : call < opening := by
    rw [Fin.lt_def]
    omega
  by_cases hothers : others = []
  · subst hothers
    exact ⟨opening, .inr htext, hcall, by simp, fun u hu => hinside u (hjoins.eq_single ▸ hu)⟩
  · obtain ⟨front, t, ht, htokens, hfront⟩ := hjoins.last_behind_comma hothers
    have hsorted := htokens ▸ tokensIn_increasing (c := c) ⟨opening + 1, close⟩
    obtain ⟨_, hbehind, hbefore⟩ := List.pairwise_append.1 hsorted
    have hmem (u : c.TokenIdx) (hu : u ∈ front ++ t :: last) : call < u :=
      hcall.trans (hinside u (htokens ▸ hu))
    refine ⟨t, .inl ht, hmem t (by simp), fun u hu => ?_, (List.pairwise_cons.1 hbehind).1⟩
    have hin := hfront u hu
    exact ⟨hmem u (by simp [hin]), hbefore u hin t (by simp)⟩

end LastArgument

end Configuration

/-- The same finding, or the report of the same lambda with other words of the source in it. -/
def Finding.SameButQuote (f g : Finding) : Prop :=
  f = g ∨ f.check = .bareLaunchLambda ∧ g = { f with message := g.message }

namespace Subject
variable {x : Subject}

section Reports

/-- A call of a launch function that the unit's own source makes. -/
structure Launches (x : Subject) (t : x.TokenIdx) : Prop where
  named : x.configuration.text t ∈ x.settings.dispatchFunctions
  called : x.configuration.nextText t = "("
  call : ∀ f, (x.configuration.function f).definition ≠ .resolved t
  own : (x.configuration.token t).file = x.mainFile

theorem isLaunch_iff {t : x.TokenIdx} : x.isLaunch t = true ↔ x.Launches t := by
  simp only [isLaunch, inMainFile, Bool.and_eq_true, Bool.not_eq_true', beq_iff_eq,
    isDefinition_eq_false_iff, List.contains_iff_mem]
  exact ⟨fun h => ⟨h.1.1.1, h.1.1.2, h.1.2, h.2⟩,
    fun h => ⟨⟨⟨h.named, h.called⟩, h.call⟩, h.own⟩⟩

def bareFinding (x : Subject) (launch : String) (opening close : x.TokenIdx)
    (parameters : String) : Finding :=
  x.findingAt opening .bareLaunchLambda .error
    ("Lambda passed to " ++ launch ++ " is not marked for the device: " ++
      "".intercalate ((x.configuration.tokensBetween opening close).map x.configuration.text) ++
      "(" ++ parameters ++ "). Please use " ++ x.lambdaMarker ++ "(" ++ parameters ++ ")")

/-- What is said about the beginning of an argument: one error if it is that of a bare lambda. -/
inductive BareReport (x : Subject) (launch : String) : List x.TokenIdx → List Finding → Prop where
  | bare {opening close : x.TokenIdx} {rest : List x.TokenIdx} {parameters : String}
      (htext : x.configuration.text opening = "[")
      (hlink : (x.configuration.token opening).link = .resolved close)
      (hparameters : x.parameterText close = .ok parameters) :
      BareReport x launch (opening :: rest) [x.bareFinding launch opening close parameters]
  | other {argument : List x.TokenIdx}
      (h : ∀ t ∈ argument.head?, x.configuration.text t ≠ "[") : BareReport x launch argument []

theorem BareReport.exists_message {launch : String} {first : x.TokenIdx} {rest : List x.TokenIdx}
    {found : List Finding} (h : x.BareReport launch (first :: rest) found)
    (htext : x.configuration.text first = "[") :
    ∃ message, found = [x.findingAt first .bareLaunchLambda .error message] := by
  cases h with
  | bare => exact ⟨_, rfl⟩
  | other hother => exact absurd htext (hother first rfl)

theorem BareReport.eq_nil {launch : String} {argument : List x.TokenIdx} {found : List Finding}
    (h : x.BareReport launch argument found)
    (hother : ∀ t ∈ argument.head?, x.configuration.text t ≠ "[") : found = [] := by
  cases h with
  | bare htext => exact absurd htext (hother _ rfl)
  | other => rfl

theorem bareLambdaFindings_report {launch : String} {argument : List x.TokenIdx}
    {found : List Finding} (h : x.bareLambdaFindings launch argument = .ok found) :
    x.BareReport launch argument found := by
  cases argument with
  | nil =>
    obtain rfl := Except.ok.inj h
    exact .other (by simp)
  | cons first rest =>
    unfold bareLambdaFindings at h
    dsimp only at h
    split at h
    · rename_i htext
      unfold bareLambdaFinding at h
      split at h
      · cases h
      · rename_i close hlink
        split at h
        · cases h
        · rename_i parameters hparameters
          obtain rfl := Except.ok.inj h
          exact .bare htext (Ref.require_eq_ok_iff.1 hlink) hparameters
    · rename_i htext
      obtain rfl := Except.ok.inj h
      exact .other (by simpa using htext)

/-- The scope `s` is the one that the first brace in the argument opens which opens a scope. -/
def FirstOpened (x : Subject) (argument : List x.TokenIdx) (s : x.ScopeIdx) : Prop :=
  ∃ front brace back, argument = front ++ brace :: back ∧
    x.configuration.text brace = "\x7b" ∧ x.configuration.Opens brace s ∧
    ∀ t ∈ front, x.configuration.text t = "\x7b" →
      ∀ r, (x.configuration.scope r).bodyStart ≠ .resolved t

theorem launchedScope?_eq_some_iff {argument : List x.TokenIdx} {s : x.ScopeIdx} :
    x.launchedScope? argument = some s ↔ x.FirstOpened argument s := by
  simp only [launchedScope?, List.findSome?_eq_some_iff, ite_eq_right_iff, FirstOpened,
    Option.ite_none_right_eq_some, Configuration.scopeOpenedAt?_eq_none_iff,
    Configuration.scopeOpenedAt?_eq_some_iff, and_assoc]

theorem launchedScope?_eq_none_iff {argument : List x.TokenIdx} :
    x.launchedScope? argument = none ↔ ∀ t ∈ argument, x.configuration.text t = "\x7b" →
      ∀ s, (x.configuration.scope s).bodyStart ≠ .resolved t := by
  simp only [launchedScope?, List.findSome?_eq_none_iff, ite_eq_right_iff,
    Configuration.scopeOpenedAt?_eq_none_iff]

/-- At `t` the body of `s` names a member of a class, and not one of some other object. -/
structure UsesMember (x : Subject) (s : x.ScopeIdx) (t : x.TokenIdx) (v : x.VariableIdx) :
    Prop where
  inBody : x.configuration.InBody s t
  named : (x.configuration.token t).var = .resolved v
  object : ¬ x.OfOther t
  nonlocal : (x.configuration.var v).access.isLocal = false
  member : ∃ cls, (x.configuration.var v).scope = .resolved cls ∧
    (x.configuration.scope cls).kind.isClassLike = true

theorem mem_classMemberUses {s : x.ScopeIdx} {ts : List x.TokenIdx}
    (hts : x.configuration.bodyTokens s = .ok ts) {t : x.TokenIdx} {v : x.VariableIdx} :
    (t, v) ∈ (x.uses ts).filter x.isClassMemberUse ↔ x.UsesMember s t v := by
  rw [List.mem_filter, mem_uses, ← Configuration.inBody_iff hts]
  simp only [isClassMemberUse, Bool.and_eq_true, Bool.not_eq_true', Option.any_eq_true,
    Ref.get?_eq_some_iff]
  rw [← Bool.not_eq_true (x.isMemberAccess t), isMemberAccess_iff]
  constructor
  · intro h
    obtain ⟨⟨hbody, hnamed⟩, ⟨hmember, hnonlocal⟩, hobject⟩ := h
    exact ⟨hbody, hnamed, hobject, hnonlocal, hmember⟩
  · intro h
    exact ⟨⟨h.inBody, h.named⟩, ⟨h.member, h.nonlocal⟩, h.object⟩

/-- What is said about the scope that an argument opens. -/
inductive MemberReport (x : Subject) (launch : String) (argument : List x.TokenIdx) :
    List Finding → Prop where
  | unopened (h : ∀ t ∈ argument, x.configuration.text t = "\x7b" →
      ∀ s, (x.configuration.scope s).bodyStart ≠ .resolved t) : MemberReport x launch argument []
  | captured {s : x.ScopeIdx} {info : ExecInfo} (hs : x.FirstOpened argument s)
      (hinfo : x.notes.exec? s = some info) (hmarker : info.marker = .classLambda) :
      MemberReport x launch argument []
  /-- One error for each member, at its first use, in the order of these uses. -/
  | members {s : x.ScopeIdx} {firsts : List (x.TokenIdx × x.VariableIdx)}
      (hs : x.FirstOpened argument s)
      (hmarker : ∀ info, x.notes.exec? s = some info → info.marker ≠ .classLambda)
      (hmem : ∀ t v, (t, v) ∈ firsts ↔
        x.UsesMember s t v ∧ ∀ t', x.UsesMember s t' v → t ≤ t')
      (horder : firsts.Pairwise fun a b => a.1 < b.1) :
      MemberReport x launch argument (firsts.map (x.launchedMemberFinding launch))

theorem launchedMemberFindings_report {launch : String} {argument : List x.TokenIdx}
    {found : List Finding} (h : x.launchedMemberFindings launch argument = .ok found) :
    x.MemberReport launch argument found := by
  unfold launchedMemberFindings at h
  cases hscope : x.launchedScope? argument with
  | none =>
    rw [hscope] at h
    obtain rfl := Except.ok.inj h
    exact .unopened (launchedScope?_eq_none_iff.1 hscope)
  | some s =>
    rw [hscope] at h
    have hs := launchedScope?_eq_some_iff.1 hscope
    dsimp only at h
    split at h
    · rename_i hany
      obtain ⟨info, hinfo, hmarker⟩ := (Option.any_eq_true _ _).1 hany
      obtain rfl := Except.ok.inj h
      exact .captured hs hinfo (beq_iff_eq.1 hmarker)
    · rename_i hany
      cases hts : x.configuration.bodyTokens s with
      | error e =>
        rw [hts] at h
        cases h
      | ok ts =>
        rw [hts] at h
        obtain rfl := Except.ok.inj h
        obtain ⟨hmem, horder⟩ := firstUses_bodyTokens hts x.isClassMemberUse
        simp only [mem_classMemberUses hts] at hmem
        refine .members hs (fun info hinfo hmarker => hany ?_) hmem horder
        rw [hinfo]
        exact beq_iff_eq.2 hmarker

inductive LaunchReport (x : Subject) (call : x.TokenIdx) : List Finding → Prop where
  | empty (h : x.configuration.callArguments call = .ok []) : LaunchReport x call []
  | last {others : List (List x.TokenIdx)} {last : List x.TokenIdx} {bare members : List Finding}
      (h : x.configuration.callArguments call = .ok (others ++ [last]))
      (hbare : x.BareReport (x.configuration.text call) last bare)
      (hmembers : x.MemberReport (x.configuration.text call) last members) :
      LaunchReport x call (bare ++ members)

theorem launchFinding_eq_ok {call : x.TokenIdx} {others : List (List x.TokenIdx)}
    {last : List x.TokenIdx} {found : List Finding}
    (hcall : x.configuration.callArguments call = .ok (others ++ [last]))
    (h : x.launchFinding call = .ok found) : ∃ bare members,
      x.bareLambdaFindings (x.configuration.text call) last = .ok bare ∧
      x.launchedMemberFindings (x.configuration.text call) last = .ok members ∧
      found = bare ++ members := by
  rw [launchFinding, hcall] at h
  dsimp only at h
  rw [List.getLast?_concat] at h
  obtain ⟨groups, hall, hflat⟩ := Outcome.exists_of_collect_eq_ok h
  cases hall with
  | cons hbare hall =>
    cases hall with
    | cons hmembers hall =>
      cases hall
      exact ⟨_, _, hbare.2, hmembers.2, by rw [← hflat]; simp⟩

theorem launchFinding_report {call : x.TokenIdx} {found : List Finding}
    (h : x.launchFinding call = .ok found) : x.LaunchReport call found := by
  cases hcall : x.configuration.callArguments call with
  | error e =>
    rw [launchFinding, hcall] at h
    cases h
  | ok arguments =>
    rcases List.eq_nil_or_concat' arguments with rfl | ⟨others, last, rfl⟩
    · rw [launchFinding, hcall] at h
      obtain rfl := Except.ok.inj h
      exact .empty hcall
    · obtain ⟨bare, members, hbare, hmembers, rfl⟩ := launchFinding_eq_ok hcall h
      exact .last hcall (bareLambdaFindings_report hbare) (launchedMemberFindings_report hmembers)

end Reports

section Rewriting

abbrev withTokens (x : Subject)
    (tokens : Vector (Token x.configuration.extent) x.configuration.extent.tokens) : Subject :=
  { x with configuration := { x.configuration with tokens := tokens }, notes := x.notes }

variable {tokens : Vector (Token x.configuration.extent) x.configuration.extent.tokens}

theorem bodyTokens_withTokens (s : x.ScopeIdx) :
    (x.withTokens tokens).configuration.bodyTokens s = x.configuration.bodyTokens s := by
  have hscope : (x.withTokens tokens).configuration.scope s = x.configuration.scope s := rfl
  unfold Configuration.bodyTokens
  rw [hscope]
  cases (x.configuration.scope s).bodyStart.require .bodyStart with
  | error e => rfl
  | ok first =>
    cases (x.configuration.scope s).bodyEnd.require .bodyEnd with
    | error e => rfl
    | ok last => rfl

/-- Only tokens before `n` have been changed. -/
def KeptFrom (x : Subject) (tokens : Vector (Token x.configuration.extent)
    x.configuration.extent.tokens) (n : Nat) : Prop :=
  ∀ t : x.TokenIdx, n ≤ t.val →
    (x.withTokens tokens).configuration.token t = x.configuration.token t

/-- The argument starts with a bracket that is linked to a token before it. -/
def LinkedBack (x : Subject) (argument : List x.TokenIdx) : Prop :=
  ∃ first close, argument.head? = some first ∧ x.configuration.text first = "[" ∧
    (x.configuration.token first).link = .resolved close ∧ close < first

namespace KeptFrom
variable {n : Nat}

theorem text (h : x.KeptFrom tokens n) {t : x.TokenIdx} (ht : n ≤ t.val) :
    (x.withTokens tokens).configuration.text t = x.configuration.text t :=
  congrArg Token.text (h t ht)

theorem findingAt (h : x.KeptFrom tokens n) {t : x.TokenIdx} (ht : n ≤ t.val) :
    (x.withTokens tokens).findingAt t = x.findingAt t := by
  funext check severity message
  simp only [Subject.findingAt, h t ht]

theorem map_text (h : x.KeptFrom tokens n) {ts : List x.TokenIdx} (hts : ∀ t ∈ ts, n ≤ t.val) :
    ts.map (x.withTokens tokens).configuration.text = ts.map x.configuration.text :=
  List.map_congr_left fun t ht => h.text (hts t ht)

theorem argumentList? (h : x.KeptFrom tokens n) {t : x.TokenIdx} (ht : n ≤ t.val) :
    (x.withTokens tokens).configuration.argumentList? t = x.configuration.argumentList? t := by
  ext opening
  rw [Configuration.argumentList?_eq_some_iff, Configuration.argumentList?_eq_some_iff]
  refine and_congr_right fun hopening => ?_
  rw [h.text (by omega)]

theorem parameterText (h : x.KeptFrom tokens n) {close : x.TokenIdx} (hclose : n ≤ close.val) :
    (x.withTokens tokens).parameterText close = x.parameterText close := by
  unfold Subject.parameterText
  rw [h.argumentList? hclose]
  cases hlist : x.configuration.argumentList? close with
  | none => rfl
  | some opening =>
    have hopening := (Configuration.argumentList?_eq_some_iff.1 hlist).1
    dsimp only
    rw [h opening (by omega)]
    cases (x.configuration.token opening).link.require .parameterEnd with
    | error e => rfl
    | ok stop =>
      have htexts : (x.withTokens tokens).configuration.textsIn ⟨opening + 1, stop⟩ =
          x.configuration.textsIn ⟨opening + 1, stop⟩ := h.map_text fun t ht => by
        have hstart := (Configuration.mem_tokensIn.1 ht).1
        dsimp only at hstart
        omega
      dsimp only
      rw [htexts]

theorem bareLambdaFindings (h : x.KeptFrom tokens n) (launch : String) {argument : List x.TokenIdx}
    (hargument : ∀ t ∈ argument, n ≤ t.val) (hforward : ¬ x.LinkedBack argument) :
    (x.withTokens tokens).bareLambdaFindings launch argument =
      x.bareLambdaFindings launch argument := by
  cases argument with
  | nil => rfl
  | cons first rest =>
    have hfirst : n ≤ first.val := hargument first (by simp)
    unfold Subject.bareLambdaFindings
    dsimp only
    rw [h.text hfirst]
    refine if_ctx_congr Iff.rfl (fun htext => ?_) fun _ => rfl
    unfold bareLambdaFinding
    rw [h first hfirst]
    cases hlink : (x.configuration.token first).link.require .captureEnd with
    | error e => rfl
    | ok close =>
      have hclose : first.val ≤ close.val := not_lt.1 fun hback =>
        hforward ⟨first, close, rfl, htext, Ref.require_eq_ok_iff.1 hlink, hback⟩
      have hcapture := h.map_text fun t (ht : t ∈ x.configuration.tokensBetween first close) =>
        hfirst.trans (Configuration.mem_tokensBetween.1 ht).1
      dsimp only
      rw [h.parameterText (hfirst.trans hclose), h.findingAt hfirst, ← hcapture]
      rfl

theorem forall₂_bareLambdaFindings (h : x.KeptFrom tokens n) {launch : String}
    {argument : List x.TokenIdx} (hargument : ∀ t ∈ argument, n ≤ t.val)
    {bare bare' : List Finding} (hbare : x.bareLambdaFindings launch argument = .ok bare)
    (hbare' : (x.withTokens tokens).bareLambdaFindings launch argument = .ok bare') :
    List.Forall₂ Finding.SameButQuote bare bare' := by
  have hreport := bareLambdaFindings_report hbare
  have hreport' := bareLambdaFindings_report hbare'
  by_cases hopens : ∃ first rest, argument = first :: rest ∧ x.configuration.text first = "["
  · obtain ⟨first, rest, rfl, htext⟩ := hopens
    have hfirst := hargument first List.mem_cons_self
    obtain ⟨message, rfl⟩ := hreport.exists_message htext
    obtain ⟨message', rfl⟩ := hreport'.exists_message ((h.text hfirst).trans htext)
    rw [h.findingAt hfirst]
    exact .cons (.inr ⟨rfl, rfl⟩) .nil
  · have hother : ∀ t ∈ argument.head?, x.configuration.text t ≠ "[" := fun t ht htext =>
      hopens ⟨t, argument.tail, (List.cons_head?_tail ht).symm, htext⟩
    rw [hreport.eq_nil hother, hreport'.eq_nil fun t ht => ?_]
    · exact .nil
    · rw [h.text (hargument t (List.mem_of_mem_head? ht))]
      exact hother t ht

theorem launchedScope? (h : x.KeptFrom tokens n) {argument : List x.TokenIdx}
    (hargument : ∀ t ∈ argument, n ≤ t.val) :
    (x.withTokens tokens).launchedScope? argument = x.launchedScope? argument := by
  unfold Subject.launchedScope?
  rw [← List.head?_filterMap, ← List.head?_filterMap]
  refine congrArg List.head? (List.filterMap_congr fun t ht => ?_)
  rw [h.text (hargument t ht)]
  rfl

theorem prevText (h : x.KeptFrom tokens n) {t : x.TokenIdx} (ht : n < t.val) :
    (x.withTokens tokens).configuration.prevText t = x.configuration.prevText t := by
  have hprev : (x.withTokens tokens).configuration.prev? t = x.configuration.prev? t := rfl
  unfold Configuration.prevText
  rw [hprev]
  cases hp : x.configuration.prev? t with
  | none => rfl
  | some p =>
    have hpt := Configuration.prev?_eq_some_iff.1 hp
    rw [Option.map_some, Option.map_some, h.text (by omega)]

theorem isMemberAccess {before : x.TokenIdx} (h : x.KeptFrom tokens before)
    (hdot : x.configuration.text before ≠ ".") (harrow : x.configuration.text before ≠ "->")
    {t : x.TokenIdx} (ht : before < t) :
    (x.withTokens tokens).isMemberAccess t = x.isMemberAccess t := by
  have hprev : (x.withTokens tokens).configuration.prev? t = x.configuration.prev? t := rfl
  unfold Subject.isMemberAccess
  rw [hprev]
  cases hp : x.configuration.prev? t with
  | none => rfl
  | some p =>
    have hpt := Configuration.prev?_eq_some_iff.1 hp
    have hlt : before.val < t.val := ht
    dsimp only
    rw [h.text (by omega)]
    by_cases hbefore : p = before
    · rw [hbefore, beq_false_of_ne hdot, beq_false_of_ne harrow]
      rfl
    · rw [Fin.ext_iff] at hbefore
      rw [h.prevText (by omega)]

theorem memberUses {before : x.TokenIdx} (h : x.KeptFrom tokens before)
    (hdot : x.configuration.text before ≠ ".") (harrow : x.configuration.text before ≠ "->")
    {ts : List x.TokenIdx} (hts : ∀ t ∈ ts, before < t) :
    ((x.withTokens tokens).uses ts).filter (x.withTokens tokens).isClassMemberUse =
      (x.uses ts).filter x.isClassMemberUse := by
  have huses : (x.withTokens tokens).uses ts = x.uses ts := List.filterMap_congr fun t ht => by
    rw [h t (hts t ht).le]
  rw [huses]
  refine List.filter_congr fun u hu => ?_
  have hbehind : before < u.1 := hts u.1 (mem_uses.1 hu).1
  unfold isClassMemberUse
  rw [h.isMemberAccess hdot harrow hbehind]
  rfl

theorem launchedMemberFindings {before : x.TokenIdx} (h : x.KeptFrom tokens before)
    (hdot : x.configuration.text before ≠ ".") (harrow : x.configuration.text before ≠ "->")
    (launch : String) {argument : List x.TokenIdx} (hargument : ∀ t ∈ argument, before < t) :
    (x.withTokens tokens).launchedMemberFindings launch argument =
      x.launchedMemberFindings launch argument := by
  unfold Subject.launchedMemberFindings
  rw [h.launchedScope? fun t ht => (hargument t ht).le]
  cases hscope : x.launchedScope? argument with
  | none => rfl
  | some s =>
    dsimp only
    refine if_congr Iff.rfl rfl ?_
    rw [bodyTokens_withTokens]
    cases hts : x.configuration.bodyTokens s with
    | error e => rfl
    | ok ts =>
      -- The body starts at a brace of the argument.
      have hbehind : ∀ t ∈ ts, before < t := by
        obtain ⟨front, brace, back, rfl, _, hopens, _⟩ := launchedScope?_eq_some_iff.1 hscope
        obtain ⟨first, last, hfirst, _, rfl⟩ := Configuration.bodyTokens_eq_ok_iff.1 hts
        obtain rfl := Ref.resolved.inj (hopens.start.symm.trans hfirst)
        intro t ht
        exact lt_of_lt_of_le (hargument brace (by simp)) (Configuration.mem_tokensBetween.1 ht).1
      dsimp only
      rw [h.memberUses hdot harrow hbehind]
      refine congrArg Except.ok (List.map_congr_left fun u hu => ?_)
      have hmem := List.mem_of_mem_filter ((firstUses_sublist _).mem hu)
      unfold launchedMemberFinding
      rw [h.findingAt (hbehind u.1 (mem_uses.1 hmem).1).le]
      rfl

end KeptFrom

/-- No token has been changed but some in the other arguments of the call, whose last argument is
still the same. -/
structure OthersChanged (x : Subject) (call : x.TokenIdx) (others : List (List x.TokenIdx))
    (last : List x.TokenIdx) (tokens : Vector (Token x.configuration.extent)
      x.configuration.extent.tokens) : Prop where
  before : x.configuration.callArguments call = .ok (others ++ [last])
  after : ∃ others',
    (x.withTokens tokens).configuration.callArguments call = .ok (others' ++ [last])
  kept : ∀ t, t ∉ others.flatten →
    (x.withTokens tokens).configuration.token t = x.configuration.token t

namespace OthersChanged
variable {call : x.TokenIdx} {others : List (List x.TokenIdx)} {last : List x.TokenIdx}

theorem text_call (h : x.OthersChanged call others last tokens) :
    (x.withTokens tokens).configuration.text call = x.configuration.text call := by
  obtain ⟨t, ht⟩ := Configuration.exists_beforeLast h.before
  exact congrArg Token.text (h.kept call fun hin => lt_irrefl call (ht.others call hin).1)

theorem exists_keptFrom (h : x.OthersChanged call others last tokens) :
    ∃ t, x.configuration.BeforeLast call others last t ∧ x.KeptFrom tokens t := by
  obtain ⟨t, ht⟩ := Configuration.exists_beforeLast h.before
  exact ⟨t, ht, fun u hu => h.kept u fun hin => not_lt.2 hu (ht.others u hin).2⟩

theorem launchedMemberFindings (h : x.OthersChanged call others last tokens) (launch : String) :
    (x.withTokens tokens).launchedMemberFindings launch last =
      x.launchedMemberFindings launch last := by
  obtain ⟨t, ht, hkept⟩ := h.exists_keptFrom
  refine hkept.launchedMemberFindings ?_ ?_ launch ht.last
  · rcases ht.text with htext | htext <;> simp [htext]
  · rcases ht.text with htext | htext <;> simp [htext]

theorem launchFinding (h : x.OthersChanged call others last tokens)
    (hforward : ¬ x.LinkedBack last) :
    (x.withTokens tokens).launchFinding call = x.launchFinding call := by
  obtain ⟨t, ht, hkept⟩ := h.exists_keptFrom
  obtain ⟨others', hafter⟩ := h.after
  unfold Subject.launchFinding
  rw [h.before, hafter]
  dsimp only
  rw [List.getLast?_concat, List.getLast?_concat]
  dsimp only [Outcome.collect]
  rw [h.text_call, h.launchedMemberFindings,
    hkept.bareLambdaFindings _ (fun u hu => (ht.last u hu).le) hforward]

theorem forall₂_launchFinding (h : x.OthersChanged call others last tokens)
    {found found' : List Finding} (hfound : x.launchFinding call = .ok found)
    (hfound' : (x.withTokens tokens).launchFinding call = .ok found') :
    List.Forall₂ Finding.SameButQuote found found' := by
  obtain ⟨t, ht, hkept⟩ := h.exists_keptFrom
  obtain ⟨others', hafter⟩ := h.after
  obtain ⟨bare, members, hbare, hmembers, rfl⟩ := launchFinding_eq_ok h.before hfound
  obtain ⟨bare', members', hbare', hmembers', rfl⟩ := launchFinding_eq_ok hafter hfound'
  rw [h.text_call] at hbare' hmembers'
  rw [h.launchedMemberFindings, hmembers] at hmembers'
  obtain rfl := Except.ok.inj hmembers'
  refine List.rel_append (hkept.forall₂_bareLambdaFindings (fun u hu => (ht.last u hu).le) hbare
    hbare') (List.forall₂_same.2 fun f _ => .inl rfl)

end OthersChanged

end Rewriting

/-- The findings about launches are those about the last argument of each call, call by call: one
error if it starts with a bracket, and then, if the scope that opens in it does not capture its
class, one for each member of a class that the scope uses. The other arguments of a call do not
matter: with other tokens in them its findings are the same. Only a bracket that is linked back makes
the message of the first error depend on them. -/
theorem launchFindings_byLastArgument (x : Subject) (found : List Finding)
    (h : x.launchFindings = .ok found) :
    ∃ calls reports, calls.Pairwise (· < ·) ∧ (∀ t, t ∈ calls ↔ x.Launches t) ∧
      List.Forall₂ (fun call report =>
        x.launchFinding call = .ok report ∧ x.LaunchReport call report) calls reports ∧
      found = reports.flatten ∧
      ∀ call ∈ calls, ∀ others last tokens, x.OthersChanged call others last tokens →
        (¬ x.LinkedBack last →
          (x.withTokens tokens).launchFinding call = x.launchFinding call) ∧
        ∀ report report', x.launchFinding call = .ok report →
          (x.withTokens tokens).launchFinding call = .ok report' →
          List.Forall₂ Finding.SameButQuote report report' := by
  obtain ⟨reports, hall, hflat⟩ := Outcome.exists_of_collect_eq_ok h
  refine ⟨x.configuration.tokenIndices.filter x.isLaunch, reports,
    (List.pairwise_lt_finRange _).filter _, fun t => ?_,
    hall.imp fun call report hcall => ⟨hcall.2, launchFinding_report hcall.2⟩, hflat.symm,
    fun call _ others last tokens hchanged => ⟨hchanged.launchFinding, fun report report' =>
      hchanged.forall₂_launchFinding⟩⟩
  rw [List.mem_filter, isLaunch_iff]
  exact and_iff_right (List.mem_finRange t)

/-- A launch of a bare lambda that uses a member of a class. The call has another argument, which
holds `name` in brackets. -/
def siblingTexts (name : String) : Vector String 21 :=
  #v["parallel_for", "(", "a", "(", name, ")", ",", "[", "=", "]", "(", "int", "i", ")", "\x7b",
    "m", ";", "m", ";", "\x7d", ")"]

def siblingRef (n i : Nat) : Ref n := if h : i < n then .resolved ⟨i, h⟩ else .absent

def siblingLink (close i : Nat) : Ref 21 :=
  siblingRef 21 (if i = 1 then 20 else if i = 3 then 5 else if i = 7 then close
    else if i = 10 then 13 else 21)

def siblingToken (name : String) (close : Nat) (i : Fin 21) : Token ⟨21, 2, 0, 1⟩ :=
  ⟨"", (siblingTexts name).get i, 0, 1, i.val, .absent,
    siblingRef 1 (if i.val = 15 ∨ i.val = 17 then 0 else 1), .absent, siblingLink close i.val,
    .absent⟩

def siblingTokens (name : String) (close : Nat) : Vector (Token ⟨21, 2, 0, 1⟩) 21 :=
  Vector.ofFn (siblingToken name close)

/-- The class is scope 0 and the lambda scope 1. -/
def siblingSample (tokens : Vector (Token ⟨21, 2, 0, 1⟩) 21) : Configuration where
  name := ""
  sections := ⟨true, true, true, true⟩
  extent := ⟨21, 2, 0, 1⟩
  tokens := tokens
  scopes :=
    #v[⟨"", .classScope, "C", .absent, .absent, .absent, .absent, [⟨0, Nat.one_pos⟩]⟩,
      ⟨"", .lambda, "", .absent, siblingRef 21 14, siblingRef 21 19, .absent, []⟩]
  functions := #v[]
  vars := #v[⟨"", "m", .absent, .absent, .absent, .privately, false, false, siblingRef 2 0⟩]
  directives := []

def siblingSubject (name : String) (close : Nat) : Subject :=
  ⟨⟨"a.cpp"⟩, 0, .standard, .empty, .empty, siblingSample (siblingTokens name close), .none⟩

theorem siblingSubject_changed {close : Nat} (hclose : close = 2 ∨ close = 9) :
    (siblingSubject "q" close).OthersChanged (0 : Fin 21)
      [(siblingSubject "q" close).configuration.tokensIn ⟨2, 6⟩]
      ((siblingSubject "q" close).configuration.tokensIn ⟨7, 20⟩) (siblingTokens "r" close) where
  before := by rcases hclose with rfl | rfl <;> decide +kernel
  after := by
    refine ⟨[(siblingSubject "q" close).configuration.tokensIn ⟨2, 6⟩], ?_⟩
    rcases hclose with rfl | rfl <;> decide +kernel
  kept t ht := by
    have hother : t.val ≠ 4 := by
      intro hat
      refine ht (List.mem_flatten.2 ⟨_, List.mem_singleton_self _, ?_⟩)
      exact Configuration.mem_tokensIn.2 ⟨by rw [hat]; decide, by rw [hat]; decide⟩
    have htexts : ∀ i : Fin 21, i.val ≠ 4 →
        (siblingTexts "r").get i = (siblingTexts "q").get i := by decide +kernel
    have hget (name : String) : (siblingTokens name close).get t = siblingToken name close t :=
      Vector.getElem_ofFn t.isLt
    have hsame : (siblingTokens "r" close).get t = (siblingTokens "q" close).get t := by
      rw [hget, hget]
      unfold siblingToken
      rw [htexts t hother]
    exact hsame

theorem siblingSubject_launches : (siblingSubject "q" 9).Launches (0 : Fin 21) where
  named := by decide +kernel
  called := by decide +kernel
  call f := f.elim0
  own := by decide +kernel

theorem siblingSubject_not_linkedBack : ¬ (siblingSubject "q" 9).LinkedBack
    ((siblingSubject "q" 9).configuration.tokensIn ⟨7, 20⟩) := by
  rintro ⟨first, close, hhead, _, hlink, hback⟩
  have hfirst : ((siblingSubject "q" 9).configuration.tokensIn ⟨7, 20⟩).head? =
      some (7 : Fin 21) := rfl
  obtain rfl := Option.some.inj (hfirst.symm.trans hhead)
  have hclose : ((siblingSubject "q" 9).configuration.token (7 : Fin 21)).link =
      .resolved (9 : Fin 21) := by decide +kernel
  obtain rfl := Ref.resolved.inj (hclose.symm.trans hlink)
  exact absurd hback (by decide)

/-- The lambda is reported, and so is the first use of the member in it, and another name in the
brackets makes no difference. -/
theorem launchFindings_byLastArgument_sibling :
    (siblingSubject "q" 9).launchFindings =
      .ok [(siblingSubject "q" 9).bareFinding "parallel_for" (7 : Fin 21) (9 : Fin 21) "int i",
        (siblingSubject "q" 9).launchedMemberFinding "parallel_for"
          ((15 : Fin 21), (0 : Fin 1))] ∧
    ((siblingSubject "q" 9).withTokens (siblingTokens "r" 9)).launchFinding (0 : Fin 21) =
      (siblingSubject "q" 9).launchFinding (0 : Fin 21) := by
  have hfound : (siblingSubject "q" 9).launchFindings =
      .ok [(siblingSubject "q" 9).bareFinding "parallel_for" (7 : Fin 21) (9 : Fin 21) "int i",
        (siblingSubject "q" 9).launchedMemberFinding "parallel_for"
          ((15 : Fin 21), (0 : Fin 1))] := by decide +kernel
  obtain ⟨calls, reports, _, hcalls, _, _, hothers⟩ :=
    launchFindings_byLastArgument (siblingSubject "q" 9) _ hfound
  have hcall := (hcalls (0 : Fin 21)).2 siblingSubject_launches
  exact ⟨hfound, (hothers _ hcall _ _ _ (siblingSubject_changed (.inr rfl))).1
    siblingSubject_not_linkedBack⟩

def quotingMessage (name : String) : String :=
  "Lambda passed to parallel_for is not marked for the device: (" ++ name ++
    "). Please use KOKKOS_LAMBDA(" ++ name ++ ")"

/-- If the capture list is linked back to the token before the brackets, the report of the lambda
quotes the name in them. -/
theorem linkedBack_quotes_sibling :
    (siblingSubject "q" 2).OthersChanged (0 : Fin 21)
      [(siblingSubject "q" 2).configuration.tokensIn ⟨2, 6⟩]
      ((siblingSubject "q" 2).configuration.tokensIn ⟨7, 20⟩) (siblingTokens "r" 2) ∧
    (siblingSubject "q" 2).launchFinding (0 : Fin 21) =
      .ok [(siblingSubject "q" 2).findingAt (7 : Fin 21) .bareLaunchLambda .error
          (quotingMessage "q"),
        (siblingSubject "q" 2).launchedMemberFinding "parallel_for"
          ((15 : Fin 21), (0 : Fin 1))] ∧
    ((siblingSubject "q" 2).withTokens (siblingTokens "r" 2)).launchFinding (0 : Fin 21) =
      .ok [(siblingSubject "q" 2).findingAt (7 : Fin 21) .bareLaunchLambda .error
          (quotingMessage "r"),
        (siblingSubject "q" 2).launchedMemberFinding "parallel_for"
          ((15 : Fin 21), (0 : Fin 1))] :=
  ⟨siblingSubject_changed (.inl rfl), by decide +kernel, by decide +kernel⟩

end Subject

end SpaceAudit
