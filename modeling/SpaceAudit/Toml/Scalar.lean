import SpaceAudit.Pattern.Escape

/-! Numbers, booleans and dates as they may be written in a settings file. -/
namespace SpaceAudit.Toml

/-- Digits that may be parted by single underscores. -/
def isDigits (digit : Char → Bool) : List Char → Bool
  | [] => false
  | [c] => digit c
  | c :: '_' :: d :: rest => digit c && isDigits digit (d :: rest)
  | c :: rest => digit c && isDigits digit rest

def dropSign : List Char → List Char
  | '+' :: cs => cs
  | '-' :: cs => cs
  | cs => cs

def isDecimal (cs : List Char) : Bool :=
  match cs with
  | '0' :: _ :: _ => false
  | _ => isDigits Char.isDigit cs

def numberIn (base : Nat) (cs : List Char) : Nat :=
  (cs.filter (· != '_')).foldl (fun n c => base * n + (Escape.hexValue? c).getD 0) 0

/-- What integers stay below when they fit into 64 bits with a sign. -/
def integerLimit : Nat := 9223372036854775808

def isInteger (cs : List Char) : Bool :=
  match cs with
  | '0' :: 'x' :: ds =>
    isDigits (fun c => (Escape.hexValue? c).isSome) ds && numberIn 16 ds < integerLimit
  | '0' :: 'o' :: ds => isDigits (fun c => '0' ≤ c && c ≤ '7') ds && numberIn 8 ds < integerLimit
  | '0' :: 'b' :: ds => isDigits (fun c => c == '0' || c == '1') ds && numberIn 2 ds < integerLimit
  | '-' :: ds => isDecimal ds && numberIn 10 ds ≤ integerLimit
  | cs => isDecimal (dropSign cs) && numberIn 10 (dropSign cs) < integerLimit

def isExponentMark (c : Char) : Bool := c == 'e' || c == 'E'

def isExponent : List Char → Bool
  | [] => true
  | _ :: cs => isDigits Char.isDigit (dropSign cs)

/-- A decimal with a fraction, an exponent or both, or one of the names. -/
def isFloat (cs : List Char) : Bool :=
  let cs := dropSign cs
  let mantissa := cs.takeWhile fun c => !isExponentMark c
  let exponent := cs.dropWhile fun c => !isExponentMark c
  let whole := mantissa.takeWhile (· != '.')
  cs == "inf".toList || cs == "nan".toList ||
    (isDecimal whole && isExponent exponent &&
      match mantissa.dropWhile (· != '.') with
      | [] => !exponent.isEmpty
      | _ :: fraction => isDigits Char.isDigit fraction)

def fixed? (width least most : Nat) (cs : List Char) : Option Nat :=
  if cs.length = width ∧ cs.all Char.isDigit then
    let n := numberIn 10 cs
    if least ≤ n ∧ n ≤ most then some n else none
  else none

def daysIn (year month : Nat) : Nat :=
  if month = 2 then
    if year % 4 = 0 ∧ (year % 100 ≠ 0 ∨ year % 400 = 0) then 29 else 28
  else if month = 4 ∨ month = 6 ∨ month = 9 ∨ month = 11 then 30
  else 31

def date? (cs : List Char) : Option (List Char) :=
  match cs.drop 4, cs.drop 7 with
  | '-' :: _, '-' :: _ =>
    match fixed? 4 0 9999 (cs.take 4), fixed? 2 1 12 ((cs.drop 5).take 2) with
    | some year, some month =>
      (fixed? 2 1 (daysIn year month) ((cs.drop 8).take 2)).map fun _ => cs.drop 10
    | _, _ => none
  | _, _ => none

def clock? (cs : List Char) : Option (List Char) :=
  match cs.drop 2, cs.drop 5 with
  | ':' :: _, ':' :: _ =>
    match fixed? 2 0 23 (cs.take 2), fixed? 2 0 59 ((cs.drop 3).take 2),
      fixed? 2 0 60 ((cs.drop 6).take 2) with
    | some _, some _, some _ => some (cs.drop 8)
    | _, _, _ => none
  | _, _ => none

def time? (cs : List Char) : Option (List Char) :=
  match clock? cs with
  | some ('.' :: d :: rest) =>
    if d.isDigit then some (rest.dropWhile Char.isDigit) else none
  | some ('.' :: []) => none
  | other => other

def isOffset : List Char → Bool
  | [] => true
  | ['Z'] => true
  | ['z'] => true
  | s :: cs =>
    (s == '+' || s == '-') && cs.drop 2 == ':' :: (cs.drop 3) &&
      (fixed? 2 0 23 (cs.take 2)).isSome && (fixed? 2 0 59 (cs.drop 3)).isSome

/-- A day, a time of day, or both with an offset or none. -/
def isMoment (cs : List Char) : Bool :=
  match date? cs with
  | none => time? cs == some []
  | some [] => true
  | some (c :: rest) =>
    (c == 'T' || c == 't' || c == ' ') &&
      match time? rest with
      | none => false
      | some offset => isOffset offset

def isDay (cs : List Char) : Bool := date? cs == some []

def isScalar (cs : List Char) : Bool :=
  cs == "true".toList || cs == "false".toList || isInteger cs || isFloat cs || isMoment cs

end SpaceAudit.Toml
