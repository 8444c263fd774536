import SpaceAudit.Audit.Subject

/-! Lambdas that are passed to a parallel launch: they have to be marked for the device, and use no
member of a class unless they capture the class. -/
namespace SpaceAudit.Subject
variable (x : Subject)

def isLaunch (t : x.TokenIdx) : Bool :=
  x.settings.dispatchFunctions.contains (x.configuration.text t) &&
    x.configuration.nextText t == "(" && !x.isDefinition t && x.inMainFile t

def lambdaMarker : String := x.settings.deviceLambdaMarkers.head?.getD "KOKKOS_LAMBDA"

def parameterText (close : x.TokenIdx) : Except Missing String :=
  match x.configuration.argumentList? close with
  | none => .ok ""
  | some opening =>
    match (x.configuration.token opening).link.require .parameterEnd with
    | .error e => .error e
    | .ok stop => .ok (" ".intercalate (x.configuration.textsIn ⟨opening + 1, stop⟩))

def bareLambdaFinding (launch : String) (opening : x.TokenIdx) : Outcome :=
  match (x.configuration.token opening).link.require .captureEnd with
  | .error e => .error e
  | .ok close =>
    match x.parameterText close with
    | .error e => .error e
    | .ok parameters =>
      let capture := "".intercalate ((x.configuration.tokensBetween opening close).map
        x.configuration.text)
      .ok [x.findingAt opening .bareLaunchLambda .error
        ("Lambda passed to " ++ launch ++ " is not marked for the device: " ++ capture ++
          "(" ++ parameters ++ "). Please use " ++ x.lambdaMarker ++ "(" ++ parameters ++ ")")]

def bareLambdaFindings (launch : String) (argument : List x.TokenIdx) : Outcome :=
  match argument with
  | [] => .ok []
  | first :: _ =>
    if x.configuration.text first = "[" then x.bareLambdaFinding launch first else .ok []

def isClassMemberUse (u : x.TokenIdx × x.VariableIdx) : Bool :=
  ((x.configuration.var u.2).scope.get?.any fun s => (x.configuration.scope s).kind.isClassLike) &&
    !(x.configuration.var u.2).access.isLocal && !x.isMemberAccess u.1

def launchedMemberFinding (launch : String) (u : x.TokenIdx × x.VariableIdx) : Finding :=
  let name := (x.configuration.var u.2).name
  { x.findingAt u.1 .classVariableInLaunch .error
      ("Class variable " ++ name ++ " is captured by the lambda passed to " ++ launch ++
        ". Please copy it into a local variable (" ++ name ++ "_proxy) before the call.") with
    hint := some ("auto " ++ name ++ "_proxy = " ++ name ++ ";") }

/-- The first scope that opens inside an argument. -/
def launchedScope? (argument : List x.TokenIdx) : Option x.ScopeIdx :=
  argument.findSome? fun t =>
    if x.configuration.text t = "\x7b" then x.configuration.scopeOpenedAt? t else none

def launchedMemberFindings (launch : String) (argument : List x.TokenIdx) : Outcome :=
  match x.launchedScope? argument with
  | none => .ok []
  | some s =>
    if (x.notes.exec? s).any fun info => info.marker == .classLambda then .ok []
    else
      match x.configuration.bodyTokens s with
      | .error e => .error e
      | .ok ts =>
        .ok ((x.firstUses ((x.uses ts).filter x.isClassMemberUse)).map
          (x.launchedMemberFinding launch))

def launchFinding (call : x.TokenIdx) : Outcome :=
  match x.configuration.callArguments call with
  | .error e => .error e
  | .ok arguments =>
    match arguments.getLast? with
    | none => .ok []
    | some last =>
      Outcome.collect (fun part => part (x.configuration.text call) last)
        [x.bareLambdaFindings, x.launchedMemberFindings]

def launchFindings : Outcome :=
  Outcome.collect x.launchFinding (x.configuration.tokenIndices.filter x.isLaunch)

end SpaceAudit.Subject
