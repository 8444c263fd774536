import SpaceAudit.Audit.Battery
import SpaceAudit.Proofs.Audit.Subject

/-! What the audits cannot do without. An audit is skipped exactly when something that it looks up is
missing, and then it names the first such thing. -/
namespace SpaceAudit

def Ref.missing? {n : Nat} (r : Ref n) (role : Role) : Option Missing :=
  match r with
  | resolved _ => none
  | absent => some (.reference role "<none>")
  | dangling id => some (.reference role id)

/-- A computation fails as its lookups do: the first one that misses something is the cause. -/
def FailsBy {α : Type} (lookups : List (Option Missing)) (o : Except Missing α) : Prop :=
  ∀ e, o = .error e ↔ lookups.findSome? id = some e

namespace FailsBy
variable {α β : Type} {o : Except Missing α} {p : Except Missing β} {ls ms : List (Option Missing)}

theorem ok (a : α) : FailsBy [] (.ok a : Except Missing α) := by simp [FailsBy]

theorem error {e : Missing} (h : FailsBy ls o) (ho : o = .error e) :
    FailsBy ls (.error e : Except Missing β) := by
  intro e'
  rw [(h e).1 ho]
  simp

theorem none_of_ok {a : α} (h : FailsBy ls o) (ho : o = .ok a) : ls.findSome? id = none := by
  refine Option.eq_none_iff_forall_ne_some.2 fun e he => ?_
  have hfail := (h e).2 he
  rw [ho] at hfail
  cases hfail

theorem done {a : α} (h : FailsBy ls o) (ho : o = .ok a) (b : β) :
    FailsBy ls (.ok b : Except Missing β) := by
  intro e
  simp [h.none_of_ok ho]

theorem error_append {e : Missing} (h : FailsBy ls o) (ho : o = .error e) :
    FailsBy (ls ++ ms) (.error e : Except Missing β) := by
  intro e'
  rw [List.findSome?_append, (h e).1 ho]
  simp

theorem ok_append {a : α} (h : FailsBy ls o) (ho : o = .ok a) (hp : FailsBy ms p) :
    FailsBy (ls ++ ms) p := by
  intro e
  rw [List.findSome?_append, h.none_of_ok ho, Option.none_or]
  exact hp e

theorem collect_cons {part : α → Outcome} {a : α} {rest : List α} (ha : FailsBy ls (part a))
    (hrest : FailsBy ms (Outcome.collect part rest)) :
    FailsBy (ls ++ ms) (Outcome.collect part (a :: rest)) := by
  unfold Outcome.collect
  cases hpart : part a with
  | error e => exact ha.error_append hpart
  | ok found =>
    refine ha.ok_append hpart ?_
    cases hmore : Outcome.collect part rest with
    | error e => exact hrest.error hmore
    | ok more => exact hrest.done hmore _

theorem collect {part : α → Outcome} {lookups : α → List (Option Missing)} {l : List α}
    (h : ∀ a ∈ l, FailsBy (lookups a) (part a)) :
    FailsBy (l.flatMap lookups) (Outcome.collect part l) := by
  induction l with
  | nil => exact ok []
  | cons a rest ih =>
    rw [List.flatMap_cons]
    exact collect_cons (h a (by simp)) (ih fun b hb => h b (List.mem_cons_of_mem a hb))

end FailsBy

theorem Ref.require_failsBy {n : Nat} (r : Ref n) (role : Role) :
    FailsBy [r.missing? role] (r.require role) := by
  intro e
  cases r <;> simp [missing?, require]

namespace Configuration
variable {c : Configuration}

def bodyLookups (c : Configuration) (s : c.ScopeIdx) : List (Option Missing) :=
  [(c.scope s).bodyStart.missing? .bodyStart, (c.scope s).bodyEnd.missing? .bodyEnd]

theorem bodyTokens_failsBy (s : c.ScopeIdx) : FailsBy (c.bodyLookups s) (c.bodyTokens s) := by
  have hstart := (c.scope s).bodyStart.require_failsBy .bodyStart
  have hend := (c.scope s).bodyEnd.require_failsBy .bodyEnd
  unfold bodyTokens
  split
  · rename_i hfirst
    exact hstart.error_append hfirst
  · rename_i hfirst
    refine hstart.ok_append hfirst ?_
    split
    · rename_i hlast
      exact hend.error hlast
    · rename_i hlast
      exact hend.done hlast _

def argumentLookups (c : Configuration) (call : c.TokenIdx) : List (Option Missing) :=
  match c.argumentList? call with
  | none => [some (.reference .argumentList (c.token call).id)]
  | some opening => [(c.token opening).link.missing? .closingParenthesis]

theorem callArguments_failsBy (call : c.TokenIdx) :
    FailsBy (c.argumentLookups call) (c.callArguments call) := by
  unfold argumentLookups callArguments
  cases c.argumentList? call with
  | none =>
    intro e
    simp [eq_comm]
  | some opening =>
    have hlink := (c.token opening).link.require_failsBy .closingParenthesis
    dsimp only
    split
    · rename_i hclose
      exact hlink.error hclose
    · rename_i hclose
      split <;> exact hlink.done hclose _

end Configuration

namespace Subject
variable (x : Subject)

def virtualLookups (s : x.ScopeIdx) : List (Option Missing) :=
  if x.isVirtualBody s then [(x.configuration.scope s).bodyStart.missing? .virtualBodyStart] else []

def classificationLookups : List (Option Missing) :=
  (if x.configuration.sections.scopes then none else some .scopes) ::
    x.configuration.scopeIndices.flatMap x.virtualLookups

def readsBody (s : x.ScopeIdx) : Bool :=
  (x.classOf? s).isSome && (!x.capturesClass s ||
    x.capturesOnOwn s && (x.notes.exec? s).any fun info => info.marker == .classLambda)

def captureLookups : List (Option Missing) :=
  (x.auditedScopes.filter fun (s, _) => x.inDevice s).flatMap fun (s, _) =>
    if x.readsBody s then x.configuration.bodyLookups s else []

def accessLookups : List (Option Missing) :=
  x.auditedScopes.flatMap fun (s, _) => x.configuration.bodyLookups s

def libraryLookups : List (Option Missing) :=
  (x.auditedScopes.filter fun (s, _) => x.notes.space? s == some .device).flatMap fun (s, _) =>
    x.configuration.bodyLookups s

def parameterLookups (close : x.TokenIdx) : List (Option Missing) :=
  match x.configuration.argumentList? close with
  | none => []
  | some opening => [(x.configuration.token opening).link.missing? .parameterEnd]

def bareLambdaLookups (argument : List x.TokenIdx) : List (Option Missing) :=
  match argument with
  | [] => []
  | first :: _ =>
    if x.configuration.text first = "[" then
      [(x.configuration.token first).link.missing? .captureEnd] ++
        (x.configuration.token first).link.get?.toList.flatMap x.parameterLookups
    else []

def launchedMemberLookups (argument : List x.TokenIdx) : List (Option Missing) :=
  match x.launchedScope? argument with
  | none => []
  | some s =>
    if (x.notes.exec? s).any fun info => info.marker == .classLambda then []
    else x.configuration.bodyLookups s

def launched? (call : x.TokenIdx) : Option (List x.TokenIdx) :=
  match x.configuration.callArguments call with
  | .error _ => none
  | .ok arguments => arguments.getLast?

def launchLookups : List (Option Missing) :=
  (x.configuration.tokenIndices.filter x.isLaunch).flatMap fun call =>
    x.configuration.argumentLookups call ++ (x.launched? call).toList.flatMap fun last =>
      x.bareLambdaLookups last ++ x.launchedMemberLookups last

def mirrorLookups : List (Option Missing) :=
  x.auditedStatements.flatMap fun s =>
    (x.configuration.mirrorCall? x.settings s).toList.flatMap x.configuration.argumentLookups

variable {x}

theorem virtualFinding_failsBy (s : x.ScopeIdx) :
    FailsBy (x.virtualLookups s) (x.virtualFinding s) := by
  have hstart := (x.configuration.scope s).bodyStart.require_failsBy .virtualBodyStart
  unfold virtualFinding virtualLookups
  split
  · split
    · rename_i hfirst
      exact hstart.error hfirst
    · rename_i hfirst
      dsimp only
      split <;> exact hstart.done hfirst _
  · exact .ok _

theorem classificationFindings_failsBy :
    FailsBy x.classificationLookups x.classificationFindings := by
  unfold classificationFindings classificationLookups
  cases x.configuration.sections.scopes with
  | true => exact FailsBy.collect fun s _ => virtualFinding_failsBy s
  | false =>
    intro e
    simp [eq_comm]

theorem captureFinding_failsBy (s : x.ScopeIdx) (start : x.TokenIdx)
    (hc : x.capturesClass s = true) (ho : x.capturesOnOwn s = true) :
    FailsBy (if x.readsBody s then x.configuration.bodyLookups s else [])
      (x.captureFinding s start) := by
  have hbody := Configuration.bodyTokens_failsBy s
  unfold captureFinding readsBody
  cases hcls : x.classOf? s with
  | none => exact .ok _
  | some cls =>
    dsimp only
    cases hmarker : (x.notes.exec? s).any fun info => info.marker == .classLambda with
    | false =>
      simp only [hc, ho, Bool.not_true, Bool.false_or, Bool.and_false, Bool.false_eq_true, if_false]
      exact .ok _
    | true =>
      simp only [ho, Bool.and_self, Bool.or_true, Option.isSome_some, if_true]
      split
      · rename_i htokens
        exact hbody.error htokens
      · rename_i htokens
        split <;> exact hbody.done htokens _

theorem scopeCaptureFindings_failsBy (s : x.ScopeIdx) (start : x.TokenIdx) :
    FailsBy (if x.readsBody s then x.configuration.bodyLookups s else [])
      (x.scopeCaptureFindings s start) := by
  have hbody := Configuration.bodyTokens_failsBy s
  unfold scopeCaptureFindings
  cases hc : x.capturesClass s with
  | true =>
    cases ho : x.capturesOnOwn s with
    | true => exact captureFinding_failsBy s start hc ho
    | false =>
      simp only [readsBody, hc, ho, Bool.not_true, Bool.false_and, Bool.or_self, Bool.and_false,
        Bool.false_eq_true, if_false]
      exact .ok _
  | false =>
    simp only [readsBody, hc, Bool.not_false, Bool.true_or, Bool.and_true, Bool.false_eq_true, if_false]
    cases x.classOf? s with
    | none => exact .ok _
    | some cls =>
      simp only [Option.isSome_some, if_true]
      split
      · rename_i htokens
        exact hbody.error htokens
      · rename_i htokens
        exact hbody.done htokens _

theorem captureFindings_failsBy : FailsBy x.captureLookups x.captureFindings :=
  FailsBy.collect fun p _ => scopeCaptureFindings_failsBy p.1 p.2

theorem scopeAccessFindings_failsBy {s : x.ScopeIdx} {info : ExecInfo}
    (hs : x.notes.exec? s = some info) :
    FailsBy (x.configuration.bodyLookups s) (x.scopeAccessFindings s) := by
  have hbody := Configuration.bodyTokens_failsBy s
  have hspace : x.notes.space? s = some info.space := by simp [Annotations.space?, hs]
  unfold scopeAccessFindings
  rw [hspace]
  dsimp only
  split
  · rename_i htokens
    exact hbody.error htokens
  · rename_i htokens
    exact hbody.done htokens _

theorem accessFindings_failsBy : FailsBy x.accessLookups x.accessFindings := by
  refine FailsBy.collect fun p hp => ?_
  obtain ⟨_, ⟨info, hinfo⟩, _⟩ := mem_auditedScopes.1 hp
  exact scopeAccessFindings_failsBy hinfo

theorem scopeLibraryFindings_failsBy (s : x.ScopeIdx) :
    FailsBy (x.configuration.bodyLookups s) (x.scopeLibraryFindings s) := by
  have hbody := Configuration.bodyTokens_failsBy s
  unfold scopeLibraryFindings
  split
  · rename_i htokens
    exact hbody.error htokens
  · rename_i htokens
    exact hbody.done htokens _

theorem libraryFindings_failsBy : FailsBy x.libraryLookups x.libraryFindings :=
  FailsBy.collect fun p _ => scopeLibraryFindings_failsBy p.1

theorem parameterText_failsBy (close : x.TokenIdx) :
    FailsBy (x.parameterLookups close) (x.parameterText close) := by
  unfold parameterLookups parameterText
  cases x.configuration.argumentList? close with
  | none => exact .ok _
  | some opening =>
    have hlink := (x.configuration.token opening).link.require_failsBy .parameterEnd
    dsimp only
    split
    · rename_i hstop
      exact hlink.error hstop
    · rename_i hstop
      exact hlink.done hstop _

theorem bareLambdaFindings_failsBy (launch : String) (argument : List x.TokenIdx) :
    FailsBy (x.bareLambdaLookups argument) (x.bareLambdaFindings launch argument) := by
  unfold bareLambdaFindings bareLambdaLookups
  cases argument with
  | nil => exact .ok _
  | cons first rest =>
    dsimp only
    by_cases hbare : x.configuration.text first = "["
    · have hlink := (x.configuration.token first).link.require_failsBy .captureEnd
      rw [if_pos hbare, if_pos hbare]
      unfold bareLambdaFinding
      split
      · rename_i hclose
        exact hlink.error_append hclose
      · rename_i close hclose
        have hparameters := x.parameterText_failsBy close
        refine hlink.ok_append hclose ?_
        rw [Ref.get?_eq_some_iff.2 (Ref.require_eq_ok_iff.1 hclose), Option.toList_some,
          List.flatMap_singleton]
        split
        · rename_i htext
          exact hparameters.error htext
        · rename_i htext
          exact hparameters.done htext _
    · rw [if_neg hbare, if_neg hbare]
      exact .ok _

theorem launchedMemberFindings_failsBy (launch : String) (argument : List x.TokenIdx) :
    FailsBy (x.launchedMemberLookups argument) (x.launchedMemberFindings launch argument) := by
  unfold launchedMemberFindings launchedMemberLookups
  cases x.launchedScope? argument with
  | none => exact .ok _
  | some s =>
    have hbody := Configuration.bodyTokens_failsBy s
    dsimp only
    split
    · exact .ok _
    · split
      · rename_i htokens
        exact hbody.error htokens
      · rename_i htokens
        exact hbody.done htokens _

theorem launchFinding_failsBy (call : x.TokenIdx) :
    FailsBy (x.configuration.argumentLookups call ++ (x.launched? call).toList.flatMap fun last =>
      x.bareLambdaLookups last ++ x.launchedMemberLookups last) (x.launchFinding call) := by
  have harguments := Configuration.callArguments_failsBy call
  unfold launchFinding launched?
  cases hcall : x.configuration.callArguments call with
  | error e => exact harguments.error_append hcall
  | ok arguments =>
    refine harguments.ok_append hcall ?_
    dsimp only
    cases arguments.getLast? with
    | none => exact .ok _
    | some last =>
      -- The two parts of the audit look up one after the other.
      have hbare := x.bareLambdaFindings_failsBy (x.configuration.text call) last
      have hmember := x.launchedMemberFindings_failsBy (x.configuration.text call) last
      rw [Option.toList_some, List.flatMap_singleton,
        ← List.append_nil (x.launchedMemberLookups last)]
      exact .collect_cons hbare (.collect_cons hmember (.ok []))

theorem launchFindings_failsBy : FailsBy x.launchLookups x.launchFindings :=
  FailsBy.collect fun call _ => launchFinding_failsBy call

theorem statementMirrorFindings_failsBy (s : Span) :
    FailsBy ((x.configuration.mirrorCall? x.settings s).toList.flatMap
      x.configuration.argumentLookups) (x.statementMirrorFindings s) := by
  unfold statementMirrorFindings
  cases x.configuration.mirrorCall? x.settings s with
  | none => exact .ok _
  | some call =>
    have harguments := Configuration.callArguments_failsBy call
    rw [Option.toList_some, List.flatMap_singleton]
    dsimp only [mirrorSourceFindings]
    cases hcall : x.configuration.callArguments call with
    | error e => exact harguments.error hcall
    | ok arguments =>
      dsimp only
      cases isHostSpaceCall ((arguments.head?.getD []).map x.configuration.text) <;>
        exact harguments.done hcall _

theorem mirrorFindings_failsBy : FailsBy x.mirrorLookups x.mirrorFindings :=
  FailsBy.collect fun s _ => statementMirrorFindings_failsBy s

end Subject

end SpaceAudit
