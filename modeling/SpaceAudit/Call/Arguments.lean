import SpaceAudit.Source.Configuration

/-! The arguments of a call, cut at the commas that no inner bracket holds. -/
namespace SpaceAudit.Configuration
variable (c : Configuration)

/-- The arguments from position `t` to the closing bracket, where `current` is what the argument
at `t` holds already. A bracket whose partner lies before the closing one is taken over with all
it holds. -/
def argumentsFrom (close : c.TokenIdx) (current : List c.TokenIdx) (t : Nat) :
    List (List c.TokenIdx) :=
  if h : t < close then
    let tok : c.TokenIdx := ⟨t, Nat.lt_trans h close.isLt⟩
    if c.text tok = "," then current :: argumentsFrom close [] (t + 1)
    else
      match (c.token tok).link.get? with
      | some partner =>
        if _hp : t < partner.val ∧ partner < close then
          argumentsFrom close (current ++ c.tokensBetween tok partner) (partner + 1)
        else argumentsFrom close (current ++ [tok]) (t + 1)
      | none => argumentsFrom close (current ++ [tok]) (t + 1)
  else [current]
termination_by close - t
decreasing_by all_goals omega

def argumentList? (call : c.TokenIdx) : Option c.TokenIdx :=
  (c.next? call).filter fun t => c.text t == "("

/-- The arguments of the call whose name is given. Nothing between the brackets is no argument. -/
def callArguments (call : c.TokenIdx) : Except Missing (List (List c.TokenIdx)) :=
  match c.argumentList? call with
  | none => .error (.reference .argumentList (c.token call).id)
  | some opening =>
    match (c.token opening).link.require .closingParenthesis with
    | .error e => .error e
    | .ok close =>
      match c.argumentsFrom close [] (opening + 1) with
      | [[]] => .ok []
      | arguments => .ok arguments

end SpaceAudit.Configuration
