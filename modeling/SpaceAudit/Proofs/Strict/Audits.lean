import SpaceAudit.Audit.Battery
import SpaceAudit.Proofs.Strict.Capture

/-! Strict evaluation of the remaining audits, and of all audits of a configuration. -/
namespace SpaceAudit.Strict
variable (x : Subject)

section Access

def isDeclaration (v t : Nat) : Strict Bool := do
  let declared ← var x.configuration v
  return declared.nameToken.index? == some t ||
    declared.typeEnd.index?.bind (next x.configuration) == some t

def accessFinding (s : Nat) (current : ExecSpace) (u : Nat × Nat) : Strict (Option Finding) := do
  match ← memory x.notes u.2 with
  | none => return none
  | some b =>
    match b.space.exec? with
    | none => return none
    | some stored =>
      if stored != current && ["(", "["].contains (← nextText x.configuration u.1) &&
          (← execOwnerOfToken x.configuration u.1) == some s && !(← isDeclaration x u.2 u.1) then
        return some (← findingAt x u.1 .crossSpaceAccess (x.mismatchSeverity current b)
          (Subject.mismatchText current (← var x.configuration u.2).name stored))
      else return none

def scopeAccessFindings (s : Nat) : Strict Outcome := do
  match ← space x.notes s with
  | none => return .ok []
  | some current =>
    match ← bodyTokens x.configuration s with
    | .error e => return .error e
    | .ok ts => return .ok (← choose (accessFinding x s current) (← uses x ts))

def accessFindings : Strict Outcome := do
  collect (fun p => scopeAccessFindings x p.1) (← auditedScopes x)

@[simp] theorem isDeclaration_val (v : x.VariableIdx) (t : x.TokenIdx) :
    isDeclaration x v t = pure (x.isDeclaration v t) := by
  have hnext (o : Option x.TokenIdx) : (o.map Fin.val).bind (next x.configuration) =
      (o.bind x.configuration.next?).map Fin.val := by
    cases o with
    | none => rfl
    | some t => exact next_val x.configuration t
  simp only [isDeclaration, Subject.isDeclaration, var_val, pure_bind, index?_eq, hnext, map_val_beq]

theorem accessFinding_vals (s : x.ScopeIdx) (current : ExecSpace)
    (u : x.TokenIdx × x.VariableIdx) :
    accessFinding x s current (vals u) = pure (x.accessFinding? s current u) := by
  simp only [accessFinding, Subject.accessFinding?, vals, memory_val, pure_bind]
  cases x.notes.memory? u.2 with
  | none => rfl
  | some b =>
    dsimp only
    cases b.space.exec? with
    | none => rfl
    | some stored =>
      simp only [nextText_val, execOwnerOfToken_val, isDeclaration_val, var_val, findingAt_val,
        map_val_beq, pure_bind]
      split <;> rfl

theorem scopeAccessFindings_val (s : x.ScopeIdx) :
    scopeAccessFindings x s = pure (x.scopeAccessFindings s) := by
  simp only [scopeAccessFindings, Subject.scopeAccessFindings, space_val, bodyTokens_val, pure_bind]
  cases x.notes.space? s with
  | none => rfl
  | some current =>
    cases x.configuration.bodyTokens s with
    | error e => rfl
    | ok ts =>
      simp only [Except.map, uses_map, pure_bind, choose_map, accessFinding_vals, choose_pure]

theorem accessFindings_eq : accessFindings x = pure x.accessFindings := by
  rw [accessFindings, auditedScopes_eq, pure_bind]
  apply collect_map
  intro p
  exact scopeAccessFindings_val x p.1

end Access

section Library

def libraryFinding (s t : Nat) : Strict (Option Finding) := do
  let name := x.configuration.textAt (t + 2)
  if (← text x.configuration t) == "std" && (← nextText x.configuration t) == "::" &&
      (← execOwnerOfToken x.configuration t) == some s && !x.settings.deviceSafeStd.contains name then
    let found ← findingAt x t .hostStdOnDevice .fatal
      ("std::" ++ name ++ " is not guaranteed to be available on GPU")
    return some { found with
      hint := some "Use the Kokkos or ddc equivalent, or move the call to the host" }
  else return none

def scopeLibraryFindings (s : Nat) : Strict Outcome := do
  match ← bodyTokens x.configuration s with
  | .error e => return .error e
  | .ok ts => return .ok (← choose (libraryFinding x s) ts)

def libraryFindings : Strict Outcome := do
  collect (fun p => scopeLibraryFindings x p.1)
    (← keep (fun p => do return (← space x.notes p.1) == some .device) (← auditedScopes x))

theorem libraryFinding_val (s : x.ScopeIdx) (t : x.TokenIdx) :
    libraryFinding x s t = pure (x.libraryFinding? s t) := by
  simp only [libraryFinding, Subject.libraryFinding?, text_val, nextText_val, execOwnerOfToken_val,
    findingAt_val, map_val_beq, pure_bind]
  split <;> rfl

theorem scopeLibraryFindings_val (s : x.ScopeIdx) :
    scopeLibraryFindings x s = pure (x.scopeLibraryFindings s) := by
  simp only [scopeLibraryFindings, Subject.scopeLibraryFindings, bodyTokens_val, pure_bind]
  cases x.configuration.bodyTokens s with
  | error e => rfl
  | ok ts => simp only [Except.map, choose_map, libraryFinding_val, choose_pure, pure_bind]

theorem libraryFindings_eq : libraryFindings x = pure x.libraryFindings := by
  have hdevice := keep_inDevice x x.auditedScopes
  unfold inDevice at hdevice
  rw [libraryFindings, auditedScopes_eq, pure_bind, hdevice, pure_bind]
  apply collect_map
  intro p
  exact scopeLibraryFindings_val x p.1

end Library

section Ownership

def owningCall (s : Span) : Strict (Option Nat) :=
  find
    (fun t => do
      return x.signatures.owning.contains (← text x.configuration t) &&
        (← nextText x.configuration t) == "(" && !isDefinition x t)
    s.positions

def isInsideFunction (name : String) (t : Nat) : Strict Bool := do
  match (← token x.configuration t).scope.index? with
  | none => return false
  | some s =>
    any
      (fun a => do
        holds (fun f => do return (← function x.configuration f).name == name)
          (← scope x.configuration a).function.index?)
      (s :: (← ancestors x.configuration s))

def keepsOwnership (texts : List String) : Strict Bool := do
  let written := "".intercalate texts
  let expanded := "".intercalate (← expand x.aliases texts)
  return written == "auto" || Text.holds written x.settings.owningMarker ||
    Text.holds expanded x.settings.owningMarker

def initialised (s : Span) : Strict (Option (Nat × Nat)) := do
  match ← uses x s.positions with
  | [] => return none
  | u :: _ =>
    return if ["(", "=", "\x7b"].contains (← nextText x.configuration u.1) then some u else none

def handleFindingAt (s : Span) (t : Nat) : Strict Finding := do
  let found ← token x.configuration t
  return { Finding.ofParts .danglingHandle .fatal x.path found.line
      ["Possible memory error. Mem not found in type where a FieldMem object is saved to.",
        "Returned FieldMem object must be saved in a FieldMem else data may be unintentionally " ++
          "deallocated.",
        "(" ++ (← statementText x s) ++ ")"] with
    column := found.column }

def handleFinding (s : Span) : Strict (Option Finding) := do
  match ← owningCall x s with
  | none => return none
  | some call =>
    if ← isInsideFunction x (← text x.configuration call) call then return none
    else
      match ← initialised x s with
      | none => return none
      | some (t, v) =>
        match ← typeTexts x.configuration v with
        | .error _ => return none
        | .ok texts =>
          if ← keepsOwnership x texts then return none else return some (← handleFindingAt x s t)

def ownershipFindings : Strict Outcome := do
  return .ok (← choose (handleFinding x) (← auditedStatements x))

theorem owningCall_eq {s : Span} (h : s.stop ≤ x.configuration.extent.tokens) :
    owningCall x s = pure ((x.owningCall? s).map Fin.val) := by
  simp [owningCall, positions_eq x.configuration h, Subject.owningCall?]

theorem isInsideFunction_val (name : String) (t : x.TokenIdx) :
    isInsideFunction x name t = pure (x.isInsideFunction name t) := by
  simp only [isInsideFunction, Subject.isInsideFunction, token_val, pure_bind, index?_eq]
  cases (x.configuration.token t).scope.get? with
  | none => rfl
  | some s =>
    simp only [Option.map_some, ancestors_val, pure_bind, ← List.map_cons, any_map, scope_val,
      holds_map, function_val, holds_pure, any_pure]

theorem keepsOwnership_eq (texts : List String) :
    keepsOwnership x texts = pure (x.keepsOwnership texts) := by
  simp [keepsOwnership, Subject.keepsOwnership]

theorem initialised_eq {s : Span} (h : s.stop ≤ x.configuration.extent.tokens) :
    initialised x s = pure ((x.initialised? s).map vals) := by
  simp only [initialised, Subject.initialised?, positions_eq x.configuration h, uses_map, pure_bind]
  cases x.uses (x.configuration.tokensIn s) with
  | nil => rfl
  | cons u us =>
    have hnext : nextText x.configuration (vals u).1 = pure (x.configuration.nextText u.1) :=
      nextText_val x.configuration u.1
    simp only [List.map_cons, hnext, pure_bind]
    split <;> rfl

theorem handleFindingAt_eq {s : Span} (h : s.stop ≤ x.configuration.extent.tokens)
    (t : x.TokenIdx) : handleFindingAt x s t = pure (x.handleFinding s t) := by
  simp only [handleFindingAt, Subject.handleFinding, token_val, statementText_eq x h, pure_bind]

theorem handleFinding_eq {s : Span} (h : s.stop ≤ x.configuration.extent.tokens) :
    handleFinding x s = pure (x.handleFinding? s) := by
  simp only [handleFinding, Subject.handleFinding?, owningCall_eq x h, pure_bind]
  cases x.owningCall? s with
  | none => rfl
  | some call =>
    simp only [Option.map_some, text_val, isInsideFunction_val, initialised_eq x h, pure_bind]
    split
    · rfl
    · cases x.initialised? s with
      | none => rfl
      | some u =>
        simp only [Option.map_some, vals, typeTexts_val, pure_bind]
        cases x.configuration.typeTexts u.2 with
        | error e => rfl
        | ok texts =>
          simp only [keepsOwnership_eq, handleFindingAt_eq x h, pure_bind]
          split <;> rfl

theorem ownershipFindings_eq : ownershipFindings x = pure x.ownershipFindings := by
  have h := choose_of_mem fun s (hs : s ∈ x.auditedStatements) =>
    handleFinding_eq x (stop_of_mem_auditedStatements x hs)
  rw [ownershipFindings, auditedStatements_eq, pure_bind, h, pure_bind, Subject.ownershipFindings]

end Ownership

section Launch

def isLaunch (t : Nat) : Strict Bool := do
  return x.settings.dispatchFunctions.contains (← text x.configuration t) &&
    (← nextText x.configuration t) == "(" && !isDefinition x t && (← inMainFile x t)

def parameterText (close : Nat) : Strict (Except Missing String) := do
  match ← argumentList x.configuration close with
  | none => return .ok ""
  | some opening =>
    match (← token x.configuration opening).link.require .parameterEnd with
    | .error e => return .error e
    | .ok stop => return .ok (" ".intercalate (← texts x.configuration ⟨opening + 1, stop⟩))

def bareLambdaFinding (launch : String) (opening : Nat) : Strict Outcome := do
  match (← token x.configuration opening).link.require .captureEnd with
  | .error e => return .error e
  | .ok close =>
    match ← parameterText x close with
    | .error e => return .error e
    | .ok parameters =>
      let capture := "".intercalate (← texts x.configuration ⟨opening, close + 1⟩)
      return .ok [← findingAt x opening .bareLaunchLambda .error
        ("Lambda passed to " ++ launch ++ " is not marked for the device: " ++ capture ++
          "(" ++ parameters ++ "). Please use " ++ x.lambdaMarker ++ "(" ++ parameters ++ ")")]

def bareLambdaFindings (launch : String) (argument : List Nat) : Strict Outcome := do
  match argument with
  | [] => return .ok []
  | first :: _ =>
    if (← text x.configuration first) = "[" then bareLambdaFinding x launch first else return .ok []

def isClassMemberUse (u : Nat × Nat) : Strict Bool := do
  let used ← var x.configuration u.2
  return (← holds (isClass x) used.scope.index?) && !used.access.isLocal && !(← isMemberAccess x u.1)

def launchedMemberFinding (launch : String) (u : Nat × Nat) : Strict Finding := do
  let name := (← var x.configuration u.2).name
  let found ← findingAt x u.1 .classVariableInLaunch .error
    ("Class variable " ++ name ++ " is captured by the lambda passed to " ++ launch ++
      ". Please copy it into a local variable (" ++ name ++ "_proxy) before the call.")
  return { found with hint := some ("auto " ++ name ++ "_proxy = " ++ name ++ ";") }

def opensScope (t : Nat) : Strict (Option Nat) := do
  if (← text x.configuration t) = "\x7b" then scopeOpenedAt x.configuration t else return none

def launchedMemberFindings (launch : String) (argument : List Nat) : Strict Outcome := do
  match ← findSome (opensScope x) argument with
  | none => return .ok []
  | some s =>
    if (← exec x.notes s).any fun info => info.marker == .classLambda then return .ok []
    else
      match ← bodyTokens x.configuration s with
      | .error e => return .error e
      | .ok ts =>
        let us ← keep (isClassMemberUse x) (← uses x ts)
        return .ok (← (firstUses us).mapM (launchedMemberFinding x launch))

def launchFinding (call : Nat) : Strict Outcome := do
  match ← callArguments x.configuration call with
  | .error e => return .error e
  | .ok arguments =>
    match arguments.getLast? with
    | none => return .ok []
    | some last =>
      let launch ← text x.configuration call
      collect (fun part => part launch last) [bareLambdaFindings x, launchedMemberFindings x]

def launchFindings : Strict Outcome := do
  collect (launchFinding x) (← keep (isLaunch x) (tokenIndices x.configuration))

@[simp] theorem isLaunch_val (t : x.TokenIdx) : isLaunch x t = pure (x.isLaunch t) := by
  simp [isLaunch, Subject.isLaunch]

theorem parameterText_val (close : x.TokenIdx) :
    parameterText x close = pure (x.parameterText close) := by
  simp only [parameterText, Subject.parameterText, argumentList_val, pure_bind]
  cases x.configuration.argumentList? close with
  | none => rfl
  | some opening =>
    simp only [Option.map_some, token_val, pure_bind]
    cases (x.configuration.token opening).link.require .parameterEnd with
    | error e => rfl
    | ok stop =>
      have h := texts_eq x.configuration (s := ⟨opening + 1, stop⟩) (Nat.le_of_lt stop.isLt)
      simp only [h, pure_bind]

theorem bareLambdaFindings_val (launch : String) (argument : List x.TokenIdx) :
    bareLambdaFindings x launch (argument.map Fin.val) =
      pure (x.bareLambdaFindings launch argument) := by
  cases argument with
  | nil => rfl
  | cons first rest =>
    have hfinding : bareLambdaFinding x launch first = pure (x.bareLambdaFinding launch first) := by
      simp only [bareLambdaFinding, Subject.bareLambdaFinding, token_val, pure_bind]
      cases (x.configuration.token first).link.require .captureEnd with
      | error e => rfl
      | ok close =>
        have h := texts_eq x.configuration (s := ⟨first, close + 1⟩) close.isLt
        simp only [parameterText_val, h, findingAt_val, pure_bind]
        cases x.parameterText close <;> rfl
    simp only [bareLambdaFindings, Subject.bareLambdaFindings, List.map_cons, text_val, hfinding,
      pure_bind]
    split <;> rfl

theorem isClassMemberUse_vals (u : x.TokenIdx × x.VariableIdx) :
    isClassMemberUse x (vals u) = pure (x.isClassMemberUse u) := by
  simp [isClassMemberUse, Subject.isClassMemberUse, vals, Subject.isClass]

theorem launchedMemberFinding_vals (launch : String) (u : x.TokenIdx × x.VariableIdx) :
    launchedMemberFinding x launch (vals u) = pure (x.launchedMemberFinding launch u) := by
  simp [launchedMemberFinding, Subject.launchedMemberFinding, vals]

theorem launchedScope_val (argument : List x.TokenIdx) :
    findSome (opensScope x) (argument.map Fin.val) =
      pure ((x.launchedScope? argument).map Fin.val) := by
  have hopens (t : x.TokenIdx) : opensScope x t =
      pure ((if x.configuration.text t = "\x7b" then x.configuration.scopeOpenedAt? t
        else none).map Fin.val) := by
    simp only [opensScope, text_val, scopeOpenedAt_val, pure_bind]
    split <;> rfl
  simp only [findSome_map, hopens, findSome_pure, Subject.launchedScope?, List.map_findSome?,
    Function.comp_def]

theorem launchedMemberFindings_val (launch : String) (argument : List x.TokenIdx) :
    launchedMemberFindings x launch (argument.map Fin.val) =
      pure (x.launchedMemberFindings launch argument) := by
  simp only [launchedMemberFindings, Subject.launchedMemberFindings, launchedScope_val, pure_bind]
  cases x.launchedScope? argument with
  | none => rfl
  | some s =>
    simp only [Option.map_some, exec_val, bodyTokens_val, pure_bind]
    split
    · rfl
    · cases x.configuration.bodyTokens s with
      | error e => rfl
      | ok ts =>
        simp only [Except.map, uses_map, pure_bind, keep_map, isClassMemberUse_vals, keep_pure,
          map_pure, firstUses_map, List.mapM_map, Function.comp_def, launchedMemberFinding_vals,
          List.mapM_pure]

theorem launchFinding_val (call : x.TokenIdx) :
    launchFinding x call = pure (x.launchFinding call) := by
  simp only [launchFinding, Subject.launchFinding, callArguments_val, pure_bind]
  cases x.configuration.callArguments call with
  | error e => rfl
  | ok arguments =>
    simp only [Except.map, List.getLast?_map, text_val, pure_bind]
    cases arguments.getLast? with
    | none => rfl
    | some last =>
      simp only [Option.map_some, collect, Outcome.collect, bareLambdaFindings_val,
        launchedMemberFindings_val, pure_bind]
      cases x.bareLambdaFindings (x.configuration.text call) last with
      | error e => rfl
      | ok found =>
        cases x.launchedMemberFindings (x.configuration.text call) last <;> rfl

theorem launchFindings_eq : launchFindings x = pure x.launchFindings := by
  simp only [launchFindings, Subject.launchFindings, tokenIndices_eq, keep_map, isLaunch_val,
    keep_pure, map_pure, pure_bind]
  apply collect_map
  exact launchFinding_val x

end Launch

section Mirror

def mirrorTarget (s : Span) (call : Nat) : Strict (Option (Nat × Nat)) := do
  find (fun u => do return ["=", "(", "\x7b"].contains (← nextText x.configuration u.1))
    (← uses x (Span.mk s.start call).positions)

def hasWrittenType (v : Nat) : Strict Bool := do
  match ← typeTexts x.configuration v with
  | .error _ => return false
  | .ok texts => return texts != ["auto"]

def mirrorTypeFindings (s : Span) (call : Nat) : Strict (List Finding) := do
  match ← mirrorTarget x s call with
  | none => return []
  | some (t, v) =>
    if ← hasWrittenType x v then
      return [← findingAt x t .badMirror .fatal
        "Mirror function should be saved into auto type to handle CPU and GPU."]
    else return []

def mirrorSourceFindings (s : Span) (call : Nat) : Strict Outcome := do
  match ← callArguments x.configuration call with
  | .error e => return .error e
  | .ok arguments =>
    let source ← (arguments.head?.getD []).mapM (text x.configuration)
    if Subject.isHostSpaceCall source then
      return .ok [← findingAt x call .badMirror .fatal
        ("Possible synchronicity error. Kokkos::DefaultHostExecutionSpace() should never be " ++
          "the first argument to a mirror function (" ++ (← statementText x s) ++ ")")]
    else return .ok []

def statementMirrorFindings (s : Span) : Strict Outcome := do
  match ← mirrorCall x.configuration x.settings s with
  | none => return .ok []
  | some call =>
    let typed ← mirrorTypeFindings x s call
    match ← mirrorSourceFindings x s call with
    | .error e => return .error e
    | .ok found => return .ok (typed ++ found)

def mirrorFindings : Strict Outcome := do
  collect (statementMirrorFindings x) (← auditedStatements x)

theorem mirrorTarget_val (s : Span) (call : x.TokenIdx) :
    mirrorTarget x s call = pure ((x.mirrorTarget? s call).map vals) := by
  have hpositions := positions_eq x.configuration (s := ⟨s.start, call⟩) (Nat.le_of_lt call.isLt)
  simp only [mirrorTarget, hpositions, uses_map, pure_bind, find_map, vals, nextText_val, find_pure,
    map_pure]
  rfl

@[simp] theorem hasWrittenType_val (v : x.VariableIdx) :
    hasWrittenType x v = pure (x.hasWrittenType v) := by
  simp only [hasWrittenType, Subject.hasWrittenType, typeTexts_val, pure_bind]
  cases x.configuration.typeTexts v <;> rfl

theorem mirrorTypeFindings_val (s : Span) (call : x.TokenIdx) :
    mirrorTypeFindings x s call = pure (x.mirrorTypeFindings s call) := by
  simp only [mirrorTypeFindings, Subject.mirrorTypeFindings, mirrorTarget_val, pure_bind]
  cases x.mirrorTarget? s call with
  | none => rfl
  | some u =>
    simp only [Option.map_some, vals, hasWrittenType_val, findingAt_val, pure_bind]
    split <;> rfl

theorem mirrorSourceFindings_val {s : Span} (h : s.stop ≤ x.configuration.extent.tokens)
    (call : x.TokenIdx) :
    mirrorSourceFindings x s call = pure (x.mirrorSourceFindings s call) := by
  simp only [mirrorSourceFindings, Subject.mirrorSourceFindings, callArguments_val, pure_bind]
  cases x.configuration.callArguments call with
  | error e => rfl
  | ok arguments =>
    have hfirst : (arguments.map (List.map Fin.val)).head?.getD [] =
        (arguments.head?.getD []).map Fin.val := by
      cases arguments <;> rfl
    simp only [Except.map, hfirst, List.mapM_map, Function.comp_def, text_val, List.mapM_pure,
      findingAt_val, statementText_eq x h, pure_bind]
    split <;> rfl

theorem statementMirrorFindings_eq {s : Span} (h : s.stop ≤ x.configuration.extent.tokens) :
    statementMirrorFindings x s = pure (x.statementMirrorFindings s) := by
  simp only [statementMirrorFindings, Subject.statementMirrorFindings,
    mirrorCall_eq x.configuration x.settings h, pure_bind]
  cases x.configuration.mirrorCall? x.settings s with
  | none => rfl
  | some call =>
    simp only [Option.map_some, mirrorTypeFindings_val, mirrorSourceFindings_val x h, pure_bind]
    cases x.mirrorSourceFindings s call <;> rfl

theorem mirrorFindings_eq : mirrorFindings x = pure x.mirrorFindings := by
  rw [mirrorFindings, auditedStatements_eq, pure_bind]
  apply collect_of_mem
  intro s hs
  exact statementMirrorFindings_eq x (stop_of_mem_auditedStatements x hs)

end Mirror

section Auto

def autoInitializer (v name : Nat) : Strict (Option Span) := do
  match ← initializer x.configuration v with
  | some s => return some s
  | none =>
    if ["(", "\x7b"].contains (← nextText x.configuration name) then
      return some ⟨name + 1, (← containing x.configuration (name + 1)).stop⟩
    else return none

def isLambda (s : Span) : Strict Bool := do
  let first ← text x.configuration s.start
  return first == "[" ||
    (← texts x.configuration s).any fun text => (x.settings.marker? text).isSome

def isDeduced (s : Span) : Strict Bool :=
  any
    (fun t => do
      let name ← text x.configuration t
      return x.settings.mirrorFunctions.contains name ||
        (x.signatures.auto.contains name && (← nextText x.configuration t) == "("))
    s.positions

def isAuto (v : Nat) : Strict Bool := do
  match ← typeTexts x.configuration v with
  | .ok texts => return texts == ["auto"]
  | .error _ => return false

def autoFinding (v : Nat) : Strict (Option Finding) := do
  let declared ← var x.configuration v
  match declared.nameToken.index? with
  | none => return none
  | some name =>
    if declared.access != .argument && (← inMainFile x name) && (← isAuto x v) then
      match ← autoInitializer x v name with
      | none => return none
      | some s =>
        if (← isLambda x s) || (← isDeduced x s) then return none
        else
          return some (← findingAt x name .needlessAuto .error
            ("Please use explicit types instead of auto (" ++ declared.name ++ ")"))
    else return none

def autoFindings : Strict Outcome := do
  return .ok (← choose (autoFinding x) (variableIndices x.configuration))

@[simp] theorem autoInitializer_val (v : x.VariableIdx) (name : x.TokenIdx) :
    autoInitializer x v name = pure (x.autoInitializer? v name) := by
  simp only [autoInitializer, Subject.autoInitializer?, initializer_val, nextText_val, containing_eq,
    pure_bind]
  cases x.configuration.initializer? v with
  | some s => rfl
  | none =>
    dsimp only
    split <;> rfl

theorem autoInitializer?_inside {v : x.VariableIdx} {name : x.TokenIdx} {s : Span}
    (h : x.autoInitializer? v name = some s) :
    s.start < x.configuration.extent.tokens ∧ s.stop ≤ x.configuration.extent.tokens := by
  unfold Subject.autoInitializer? at h
  cases hinit : x.configuration.initializer? v with
  | some init =>
    rw [hinit, Option.some.injEq] at h
    obtain ⟨hlt, hstop⟩ := initializer?_inside x.configuration hinit
    rw [← h]
    exact ⟨Nat.lt_of_lt_of_le hlt hstop, hstop⟩
  | none =>
    simp only [hinit, Option.ite_none_right_eq_some, Option.some.injEq] at h
    obtain ⟨hbracket, rfl⟩ := h
    refine ⟨?_, stopFrom_le x.configuration _⟩
    -- A text after the name is not empty only if there is a token after it.
    by_contra hlast
    have hnext : x.configuration.next? name = none := dif_neg hlast
    simp [Configuration.nextText, hnext] at hbracket

theorem isLambda_eq {s : Span} (hstart : s.start < x.configuration.extent.tokens)
    (hstop : s.stop ≤ x.configuration.extent.tokens) : isLambda x s = pure (x.isLambda s) := by
  have hfirst : text x.configuration s.start = pure (x.configuration.textAt s.start) := by
    have hneg : ¬ (s.start : Int) < 0 := by omega
    have hat : x.configuration.textAt s.start = x.configuration.text ⟨s.start, hstart⟩ := by
      simp [Configuration.textAt, hneg, hstart, Configuration.text, Configuration.token]
    rw [hat]
    exact text_val x.configuration ⟨s.start, hstart⟩
  simp only [isLambda, Subject.isLambda, hfirst, texts_eq x.configuration hstop, pure_bind]

theorem isDeduced_eq {s : Span} (h : s.stop ≤ x.configuration.extent.tokens) :
    isDeduced x s = pure (x.isDeduced s) := by
  simp [isDeduced, positions_eq x.configuration h, Subject.isDeduced]

@[simp] theorem isAuto_val (v : x.VariableIdx) : isAuto x v = pure (x.isAuto v) := by
  simp only [isAuto, Subject.isAuto, typeTexts_val, pure_bind]
  cases x.configuration.typeTexts v <;> rfl

theorem autoFinding_val (v : x.VariableIdx) : autoFinding x v = pure (x.autoFinding? v) := by
  simp only [autoFinding, Subject.autoFinding?, var_val, pure_bind, index?_eq]
  cases (x.configuration.var v).nameToken.get? with
  | none => rfl
  | some name =>
    simp only [Option.map_some, inMainFile_val, isAuto_val, autoInitializer_val, pure_bind]
    split
    · cases h : x.autoInitializer? v name with
      | none => rfl
      | some s =>
        obtain ⟨hstart, hstop⟩ := autoInitializer?_inside x h
        simp only [isLambda_eq x hstart hstop, isDeduced_eq x hstop, findingAt_val, pure_bind]
        split <;> rfl
    · rfl

theorem autoFindings_eq : autoFindings x = pure x.autoFindings := by
  simp only [autoFindings, Subject.autoFindings, variableIndices_eq, choose_map, autoFinding_val,
    choose_pure, pure_bind]

end Auto

section Battery

def audits : List (String × (Subject → Strict Outcome)) :=
  [("execution space classification", classificationFindings),
    ("class execution space", classExecFindings),
    ("class capture", captureFindings),
    ("cross-space access", accessFindings),
    ("dangling handles", ownershipFindings),
    ("host standard library", libraryFindings),
    ("launch lambdas", launchFindings),
    ("mirror calls", mirrorFindings),
    ("unnecessary auto", autoFindings)]

def report (a : String × (Subject → Strict Outcome)) : Strict (List Finding) := do
  match ← a.2 x with
  | .ok found => return found
  | .error e => return [⟨.style, .structural, x.path, 0, 0, a.1 ++ " skipped: " ++ e.text, none⟩]

def findings : Strict (List Finding) := gather (report x) audits

theorem audits_eq : audits = Audit.all.map fun a => (a.name, fun x => pure (a.findings x)) := by
  simp only [audits, Audit.all, List.map_cons, List.map_nil, funext classificationFindings_eq,
    funext classExecFindings_eq, funext captureFindings_eq, funext accessFindings_eq,
    funext ownershipFindings_eq, funext libraryFindings_eq, funext launchFindings_eq,
    funext mirrorFindings_eq, funext autoFindings_eq]

theorem findings_eq : findings x = pure x.findings := by
  rw [findings, audits_eq, gather_map, Subject.findings]
  apply gather_of_mem
  intro a _
  simp only [report, Audit.report, pure_bind]
  cases a.findings x <;> rfl

end Battery

end SpaceAudit.Strict
