import Mathlib.Data.List.Infix
import SpaceAudit.Space.Memory

/-! Template argument lists, read with a count of the open angle brackets. The last argument of a
list is found whatever its arguments nest, and what it says about memory does not depend on whether
two closing brackets were read as one token. -/
namespace SpaceAudit

namespace Template

/-- What a token adds to the number of open brackets. -/
def weight (text : String) : Int :=
  if text = "<" then 1 else if text = ">" then -1 else if text = ">>" then -2 else 0

def nesting (texts : List String) : Int := texts.foldr (fun text rest => weight text + rest) 0

section Nesting

@[simp] theorem nesting_nil : nesting [] = 0 := rfl

@[simp] theorem nesting_cons (text : String) (texts : List String) :
    nesting (text :: texts) = weight text + nesting texts := rfl

theorem weight_other {text : String} (hopen : text ≠ "<") (hclose : text ≠ ">")
    (hdouble : text ≠ ">>") : weight text = 0 := by
  rw [weight, if_neg hopen, if_neg hclose, if_neg hdouble]

theorem closing_of_weight_neg {text : String} (h : weight text < 0) :
    text = ">" ∨ text = ">>" := by
  by_contra hother
  rw [not_or] at hother
  by_cases hopen : text = "<"
  · rw [hopen] at h
    exact absurd h (by decide)
  · rw [weight_other hopen hother.1 hother.2] at h
    exact absurd h (by decide)

theorem lastArgumentFrom_close {depth : Nat} (hdepth : 0 < depth) (argument rest : List String) :
    lastArgumentFrom depth argument (">" :: rest) =
      if depth = 1 then some argument
      else lastArgumentFrom (depth - 1) (argument ++ [">"]) rest := by
  rw [lastArgumentFrom, if_neg (by decide), if_pos rfl, if_neg (by omega)]

theorem lastArgumentFrom_double (depth : Nat) (argument rest : List String) :
    lastArgumentFrom depth argument (">>" :: rest) =
      if depth ≤ 2 then some argument
      else lastArgumentFrom (depth - 2) (argument ++ [">>"]) rest := by
  rw [lastArgumentFrom, if_neg (by decide), if_neg (by decide), if_pos rfl]

/-- What one token does to a list that is open. It ends the search at a boundary and where the
brackets are closed, a comma of the list itself starts an argument, and all else is part of one. -/
theorem lastArgumentFrom_cons {depth : Nat} (hdepth : 0 < depth) (argument : List String)
    (text : String) (rest : List String) :
    lastArgumentFrom depth argument (text :: rest) =
      if isBoundary text then none
      else if (depth : Int) + weight text ≤ 0 then some argument
      else lastArgumentFrom ((depth : Int) + weight text).toNat
        (if text = "," ∧ depth = 1 then [] else argument ++ [text]) rest := by
  by_cases hopen : text = "<"
  · subst hopen
    have hweight : weight "<" = 1 := rfl
    have hplain : isBoundary "<" = false := by decide
    have hpart : ¬ ("<" = "," ∧ depth = 1) := by simp
    rw [lastArgumentFrom, if_pos rfl, hplain, if_neg Bool.false_ne_true, hweight,
      if_neg (by omega), if_neg hpart]
    rfl
  by_cases hclose : text = ">"
  · subst hclose
    have hweight : weight ">" = -1 := rfl
    have hplain : isBoundary ">" = false := by decide
    have hpart : ¬ (">" = "," ∧ depth = 1) := by simp
    have hrest : ((depth : Int) + -1).toNat = depth - 1 := by omega
    rw [lastArgumentFrom_close hdepth, hplain, if_neg Bool.false_ne_true, hweight, if_neg hpart,
      hrest]
    exact if_congr (by omega) rfl rfl
  by_cases hdouble : text = ">>"
  · subst hdouble
    have hweight : weight ">>" = -2 := rfl
    have hplain : isBoundary ">>" = false := by decide
    have hpart : ¬ (">>" = "," ∧ depth = 1) := by simp
    have hrest : ((depth : Int) + -2).toNat = depth - 2 := by omega
    rw [lastArgumentFrom_double, hplain, if_neg Bool.false_ne_true, hweight, if_neg hpart, hrest]
    exact if_congr (by omega) rfl rfl
  rw [lastArgumentFrom, if_neg hopen, if_neg hclose, if_neg hdouble,
    weight_other hopen hclose hdouble, Int.add_zero, Int.toNat_natCast,
    if_neg (c := (depth : Int) ≤ 0) (by omega)]
  by_cases hcomma : text = "," ∧ depth = 1
  · have hplain : isBoundary text = false := by
      rw [hcomma.1]
      decide
    rw [if_pos hcomma, if_pos hcomma, hplain, if_neg Bool.false_ne_true]
  · rw [if_neg hcomma, if_neg hcomma]

end Nesting

/-- From `depth` brackets down, a bracket is open all along the texts. -/
def StaysOpen (depth : Int) (texts : List String) : Prop :=
  ∀ front, front <+: texts → 0 < depth + nesting front

theorem staysOpen_nil_iff {depth : Int} : StaysOpen depth [] ↔ 0 < depth := by
  simp [StaysOpen]

theorem staysOpen_cons_iff {depth : Int} {text : String} {texts : List String} :
    StaysOpen depth (text :: texts) ↔ 0 < depth ∧ StaysOpen (depth + weight text) texts := by
  constructor
  · intro h
    refine ⟨by simpa using h [] (by simp), fun front hfront => ?_⟩
    have hopened := h (text :: front) (List.cons_prefix_cons.2 ⟨rfl, hfront⟩)
    rwa [nesting_cons, ← Int.add_assoc] at hopened
  · intro h front hfront
    cases List.prefix_cons_iff.1 hfront with
    | inl hnil =>
      rw [hnil]
      simpa using h.1
    | inr hcons =>
      obtain ⟨tail, rfl, htail⟩ := hcons
      rw [nesting_cons, ← Int.add_assoc]
      exact h.2 tail htail

section Arguments

/-- What may stand inside `depth` brackets without closing any of them. A comma stands inside one
bracket more. -/
structure Nested (depth : Int) (texts : List String) : Prop where
  opened : StaysOpen depth texts
  commas : ∀ front, front ++ [","] <+: texts → 1 < depth + nesting front
  plain : ∀ text ∈ texts, text ≠ ">>" ∧ isBoundary text = false

/-- An argument closes all the brackets that it opens, and no others. -/
structure IsArgument (texts : List String) : Prop extends Nested 1 texts where
  balanced : nesting texts = 0

theorem nested_nil_iff {depth : Int} : Nested depth [] ↔ 0 < depth := by
  constructor
  · intro h
    exact staysOpen_nil_iff.1 h.opened
  · intro h
    exact ⟨staysOpen_nil_iff.2 h, by simp, by simp⟩

theorem nested_cons_iff {depth : Int} {text : String} {texts : List String} :
    Nested depth (text :: texts) ↔ 0 < depth ∧ (text = "," → 1 < depth) ∧
      (text ≠ ">>" ∧ isBoundary text = false) ∧ Nested (depth + weight text) texts := by
  constructor
  · intro h
    obtain ⟨hdepth, hopened⟩ := staysOpen_cons_iff.1 h.opened
    obtain ⟨hplain, hplains⟩ := List.forall_mem_cons.1 h.plain
    refine ⟨hdepth, fun htext => ?_, hplain, hopened, fun front hfront => ?_, hplains⟩
    · simpa using h.commas [] (by simp [htext])
    · have hcomma := h.commas (text :: front) (List.cons_prefix_cons.2 ⟨rfl, hfront⟩)
      rwa [nesting_cons, ← Int.add_assoc] at hcomma
  · intro hall
    obtain ⟨hdepth, hcomma, hplain, h⟩ := hall
    refine ⟨staysOpen_cons_iff.2 ⟨hdepth, h.opened⟩, fun front hfront => ?_,
      List.forall_mem_cons.2 ⟨hplain, h.plain⟩⟩
    cases front with
    | nil => simpa using hcomma (List.cons_prefix_cons.1 hfront).1.symm
    | cons first tail =>
      obtain ⟨rfl, htail⟩ := List.cons_prefix_cons.1 hfront
      rw [nesting_cons, ← Int.add_assoc]
      exact h.commas tail htail

instance decidableNested : (depth : Int) → (texts : List String) → Decidable (Nested depth texts)
  | _, [] => decidable_of_iff _ nested_nil_iff.symm
  | depth, text :: texts =>
    have := decidableNested (depth + weight text) texts
    decidable_of_iff _ nested_cons_iff.symm

theorem lastArgumentFrom_nested {depth : Nat} {texts : List String} (h : Nested depth texts)
    (argument rest : List String) :
    lastArgumentFrom depth argument (texts ++ rest) =
      lastArgumentFrom ((depth : Int) + nesting texts).toNat (argument ++ texts) rest := by
  induction texts generalizing depth argument with
  | nil => simp
  | cons text texts ih =>
    obtain ⟨hdepth, hcomma, hplain, htexts⟩ := nested_cons_iff.1 h
    have hopen : 0 < (depth : Int) + weight text := by
      simpa using htexts.opened [] (by simp)
    have hpart : ¬ (text = "," ∧ depth = 1) := by
      intro hstart
      have hdeeper := hcomma hstart.1
      omega
    have hcast : ((((depth : Int) + weight text).toNat : Nat) : Int) = depth + weight text := by
      omega
    rw [List.cons_append, lastArgumentFrom_cons (by omega), hplain.2, if_neg Bool.false_ne_true,
      if_neg (by omega), if_neg hpart, ih (by rwa [hcast]), hcast, nesting_cons, Int.add_assoc,
      List.append_assoc, List.singleton_append]

theorem lastArgumentFrom_argument {a : List String} (ha : IsArgument a) (rest : List String) :
    lastArgumentFrom 1 [] (a ++ rest) = lastArgumentFrom 1 a rest := by
  have hscan := lastArgumentFrom_nested ha.toNested [] rest
  rwa [ha.balanced] at hscan

theorem lastArgumentFrom_arguments {a : List String} {args : List (List String)}
    (h : ∀ b ∈ a :: args, IsArgument b) (post : List String) :
    lastArgumentFrom 1 [] ([","].intercalate (a :: args) ++ ">" :: post) =
      (a :: args).getLast? := by
  induction args generalizing a with
  | nil =>
    rw [List.intercalate_singleton, lastArgumentFrom_argument (h a (by simp)),
      lastArgumentFrom_cons (by omega)]
    rfl
  | cons b args ih =>
    have hrest : ∀ d ∈ b :: args, IsArgument d := fun d hd => h d (List.mem_cons_of_mem a hd)
    rw [List.intercalate_cons_cons, List.append_assoc, List.append_assoc,
      lastArgumentFrom_argument (h a (by simp)), List.singleton_append,
      lastArgumentFrom_cons (by omega), List.getLast?_cons_cons, ← ih hrest]
    rfl

end Arguments

section Closing

/-- A token closes a list that is `depth` brackets deep and goes on with `inside`: none before it
does, and no boundary comes between. -/
structure Closes (depth : Int) (inside : List String) (bracket : String) : Prop where
  closing : bracket = ">" ∨ bracket = ">>"
  opened : StaysOpen depth inside
  clear : ∀ text ∈ inside, isBoundary text = false
  closed : depth + nesting inside + weight bracket ≤ 0

def IsClosed (depth : Int) (texts : List String) : Prop :=
  ∃ inside bracket rest, texts = inside ++ bracket :: rest ∧ Closes depth inside bracket

theorem closes_nil_iff {depth : Int} {bracket : String} :
    Closes depth [] bracket ↔
      (bracket = ">" ∨ bracket = ">>") ∧ 0 < depth ∧ depth + weight bracket ≤ 0 := by
  constructor
  · intro h
    exact ⟨h.closing, staysOpen_nil_iff.1 h.opened, by simpa using h.closed⟩
  · intro h
    exact ⟨h.1, staysOpen_nil_iff.2 h.2.1, by simp, by simpa using h.2.2⟩

theorem closes_cons_iff {depth : Int} {text bracket : String} {inside : List String} :
    Closes depth (text :: inside) bracket ↔
      0 < depth ∧ isBoundary text = false ∧ Closes (depth + weight text) inside bracket := by
  constructor
  · intro h
    obtain ⟨hdepth, hopened⟩ := staysOpen_cons_iff.1 h.opened
    obtain ⟨hclear, hclears⟩ := List.forall_mem_cons.1 h.clear
    have hclosed := h.closed
    rw [nesting_cons, ← Int.add_assoc] at hclosed
    exact ⟨hdepth, hclear, h.closing, hopened, hclears, hclosed⟩
  · intro hall
    obtain ⟨hdepth, hclear, h⟩ := hall
    refine ⟨h.closing, staysOpen_cons_iff.2 ⟨hdepth, h.opened⟩,
      List.forall_mem_cons.2 ⟨hclear, h.clear⟩, ?_⟩
    rw [nesting_cons, ← Int.add_assoc]
    exact h.closed

theorem not_isClosed_nil {depth : Int} : ¬ IsClosed depth [] := by
  intro h
  obtain ⟨inside, bracket, rest, heq, _⟩ := h
  simp at heq

theorem isClosed_cons_iff {depth : Int} (hdepth : 0 < depth) {text : String}
    {texts : List String} :
    IsClosed depth (text :: texts) ↔ isBoundary text = false ∧
      (depth + weight text ≤ 0 ∨ IsClosed (depth + weight text) texts) := by
  constructor
  · intro h
    obtain ⟨inside, bracket, rest, heq, hcloses⟩ := h
    cases inside with
    | nil =>
      obtain ⟨rfl, rfl⟩ := List.cons.inj heq
      obtain ⟨hclosing, _, hclosed⟩ := closes_nil_iff.1 hcloses
      refine ⟨?_, .inl hclosed⟩
      cases hclosing with
      | inl hsingle => rw [hsingle]; decide
      | inr hdouble => rw [hdouble]; decide
    | cons first inside =>
      obtain ⟨rfl, rfl⟩ := List.cons.inj heq
      obtain ⟨_, hclear, hinside⟩ := closes_cons_iff.1 hcloses
      exact ⟨hclear, .inr ⟨inside, bracket, rest, rfl, hinside⟩⟩
  · intro h
    cases h.2 with
    | inl hclosed =>
      have hnegative : weight text < 0 := by omega
      have hclosing := closing_of_weight_neg hnegative
      exact ⟨[], text, texts, rfl, closes_nil_iff.2 ⟨hclosing, hdepth, hclosed⟩⟩
    | inr hlater =>
      obtain ⟨inside, bracket, rest, rfl, hcloses⟩ := hlater
      exact ⟨text :: inside, bracket, rest, rfl, closes_cons_iff.2 ⟨hdepth, h.1, hcloses⟩⟩

theorem lastArgumentFrom_eq_none_iff {depth : Nat} (hdepth : 0 < depth)
    (argument texts : List String) :
    lastArgumentFrom depth argument texts = none ↔ ¬ IsClosed depth texts := by
  induction texts generalizing depth argument with
  | nil => simp [lastArgumentFrom, not_isClosed_nil]
  | cons text texts ih =>
    rw [lastArgumentFrom_cons hdepth, isClosed_cons_iff (by omega)]
    by_cases hclear : isBoundary text = true
    · simp [hclear]
    · rw [Bool.not_eq_true] at hclear
      by_cases hclosed : (depth : Int) + weight text ≤ 0
      · simp [hclear, hclosed]
      · have hcast : ((((depth : Int) + weight text).toNat : Nat) : Int) = depth + weight text := by
          omega
        rw [hclear, if_neg Bool.false_ne_true, if_neg hclosed, ih (by omega), hcast]
        simp [hclosed]

end Closing

theorem lastArgument_opened (rest : List String) :
    lastArgument ("<" :: rest) = .ok (lastArgumentFrom 1 [] rest) := rfl

/-- The last argument of a list is found whatever its arguments nest and whatever stands around the
list. A list has a last argument exactly if a bracket closes it before a boundary comes. -/
theorem lastArgument_exact :
    (∀ (pre : List String) (args : List (List String)) (post : List String), args ≠ [] →
        (∀ a ∈ args, IsArgument a) →
        lastArgument ((pre ++ "<" :: ([","].intercalate args ++ ">" :: post)).drop pre.length) =
          .ok args.getLast?) ∧
      ∀ (texts : List String) (i : Nat), texts[i]? = some "<" →
        ∃ found, lastArgument (texts.drop i) = .ok found ∧
          (found = none ↔ ¬ IsClosed 1 (texts.drop (i + 1))) := by
  constructor
  · intro pre args post hargs h
    obtain ⟨a, args, rfl⟩ := List.exists_cons_of_ne_nil hargs
    rw [List.drop_left, lastArgument_opened, lastArgumentFrom_arguments h]
  · intro texts i hi
    obtain ⟨hlt, hopen⟩ := List.getElem?_eq_some_iff.1 hi
    rw [List.drop_eq_getElem_cons hlt, hopen, lastArgument_opened]
    exact ⟨_, rfl, lastArgumentFrom_eq_none_iff Nat.one_pos [] _⟩

/-- A list within a list, with commas in both, and an argument that is empty. -/
def nestedArguments : List (List String) :=
  [["double"], [], ["Range", "<", "X", ",", "Box", "<", "Y", ">", ">"],
    ["Alloc", "<", "A", ",", "B", ">"]]

theorem nestedArguments_areArguments : ∀ a ∈ nestedArguments, IsArgument a := by
  have hnested : ∀ a ∈ nestedArguments, Nested 1 a := by decide +kernel
  have hbalanced : ∀ a ∈ nestedArguments, nesting a = 0 := by decide +kernel
  exact fun a ha => ⟨hnested a ha, hbalanced a ha⟩

theorem lastArgument_exact_nested :
    lastArgument ((["F", ">"] ++ "<" :: ([","].intercalate nestedArguments ++
        ">" :: [",", ">"])).drop 2) = .ok (some ["Alloc", "<", "A", ",", "B", ">"]) ∧
      ¬ IsClosed 1 ["A", "<", "B", ">", ";", ">"] ∧ IsClosed 1 ["A", "<", "B", ">>"] := by
  obtain ⟨hlast, hclosed⟩ := lastArgument_exact
  refine ⟨hlast ["F", ">"] nestedArguments [",", ">"] (by decide) nestedArguments_areArguments,
    ?_, ?_⟩
  · obtain ⟨found, hfound, hnone⟩ := hclosed ["F", "<", "A", "<", "B", ">", ";", ">"] 1 rfl
    have hopen : lastArgument (["F", "<", "A", "<", "B", ">", ";", ">"].drop 1) = .ok none := by
      decide +kernel
    rw [hfound, Except.ok.injEq] at hopen
    exact hnone.1 hopen
  · obtain ⟨found, hfound, hnone⟩ := hclosed ["F", "<", "A", "<", "B", ">>"] 1 rfl
    have hargument : lastArgument (["F", "<", "A", "<", "B", ">>"].drop 1) =
        .ok (some ["A", "<", "B"]) := by decide +kernel
    rw [hfound, Except.ok.injEq] at hargument
    by_contra hopen
    rw [hnone.2 hopen] at hargument
    cases hargument

section Splitting

/-- Every double closing bracket written as two. -/
def splitDouble (texts : List String) : List String :=
  texts.flatMap fun text => if text = ">>" then [">", ">"] else [text]

theorem splitDouble_double (texts : List String) :
    splitDouble (">>" :: texts) = ">" :: ">" :: splitDouble texts := rfl

theorem splitDouble_other {text : String} (h : text ≠ ">>") (texts : List String) :
    splitDouble (text :: texts) = text :: splitDouble texts := by
  rw [splitDouble, List.flatMap_cons, if_neg h, List.singleton_append, splitDouble]

def spaces (texts : List String) : List MemorySpace := texts.filterMap namedSpace?

theorem spaceOf_eq (argument : List String) :
    spaceOf argument = (spaces argument).getLast?.getD .device := by
  rw [spaceOf, ← List.head?_filterMap, List.filterMap_reverse, List.head?_reverse, spaces]

theorem spaces_append (a b : List String) : spaces (a ++ b) = spaces a ++ spaces b :=
  List.filterMap_append

theorem spaces_close : spaces [">"] = [] := by decide +kernel

theorem spaces_double : spaces [">>"] = [] := by decide +kernel

/-- The brackets differ in the arguments that the two searches find; the spaces do not. -/
theorem lastArgumentFrom_splitDouble {depth : Nat} (hdepth : 0 < depth) {a b : List String}
    (h : spaces a = spaces b) (texts : List String) :
    (lastArgumentFrom depth a texts).map spaces =
      (lastArgumentFrom depth b (splitDouble texts)).map spaces := by
  induction texts generalizing depth a b with
  | nil => rfl
  | cons text texts ih =>
    by_cases hdouble : text = ">>"
    · subst hdouble
      rw [splitDouble_double, lastArgumentFrom_double, lastArgumentFrom_close hdepth]
      -- The first of the two brackets closes the list, the second does, or neither.
      by_cases hone : depth = 1
      · rw [if_pos (by omega), if_pos hone, Option.map_some, Option.map_some, h]
      rw [if_neg hone, lastArgumentFrom_close (by omega)]
      by_cases htwo : depth = 2
      · rw [if_pos (by omega), if_pos (by omega), Option.map_some, Option.map_some, spaces_append,
          spaces_close, List.append_nil, h]
      · have hsame : spaces (a ++ [">>"]) = spaces (b ++ [">"] ++ [">"]) := by
          rw [spaces_append, spaces_append, spaces_append, h, spaces_close, spaces_double,
            List.append_nil, List.append_nil]
        rw [if_neg (by omega), if_neg (by omega), Nat.sub_sub]
        exact ih (by omega) hsame
    · rw [splitDouble_other hdouble, lastArgumentFrom_cons hdepth, lastArgumentFrom_cons hdepth]
      by_cases hclear : isBoundary text = true
      · rw [if_pos hclear, if_pos hclear]
      rw [if_neg hclear, if_neg hclear]
      by_cases hclosed : (depth : Int) + weight text ≤ 0
      · rw [if_pos hclosed, if_pos hclosed, Option.map_some, Option.map_some, h]
      rw [if_neg hclosed, if_neg hclosed]
      refine ih (by omega) ?_
      by_cases hcomma : text = "," ∧ depth = 1
      · rw [if_pos hcomma, if_pos hcomma]
      · rw [if_neg hcomma, if_neg hcomma, spaces_append, spaces_append, h]

theorem any_splitDouble {names : List String} (h : ">" ∉ names ∧ ">>" ∉ names)
    (texts : List String) : (splitDouble texts).any names.contains = texts.any names.contains := by
  rw [splitDouble, List.any_flatMap]
  congr 1
  funext text
  by_cases hdouble : text = ">>"
  · simp [hdouble, h.1, h.2]
  · simp [hdouble]

theorem dropWhile_splitDouble {p : String → Bool} (hclose : p ">" = true) (hdouble : p ">>" = true)
    (texts : List String) : (splitDouble texts).dropWhile p = splitDouble (texts.dropWhile p) := by
  induction texts with
  | nil => rfl
  | cons text texts ih =>
    by_cases htext : text = ">>"
    · subst htext
      rw [splitDouble_double, List.dropWhile_cons_of_pos hclose, List.dropWhile_cons_of_pos hclose,
        List.dropWhile_cons_of_pos hdouble, ih]
    · rw [splitDouble_other htext]
      by_cases hp : p text = true
      · rw [List.dropWhile_cons_of_pos hp, List.dropWhile_cons_of_pos hp, ih]
      · rw [List.dropWhile_cons_of_neg hp, List.dropWhile_cons_of_neg hp, splitDouble_other htext]

end Splitting

end Template

theorem familySpace_opened (rest : List String) :
    familySpace ("<" :: rest) =
      (((Template.lastArgumentFrom 1 [] rest).map Template.spaces).map
        fun spaces => spaces.getLast?.getD .device).getD .unknown := by
  rw [familySpace]
  cases Template.lastArgumentFrom 1 [] rest with
  | none => rfl
  | some argument => exact Template.spaceOf_eq argument

theorem familySpace_bare {texts : List String} (h : texts.head? ≠ some "<") :
    familySpace texts = .device := by
  unfold familySpace
  split
  · exact absurd rfl h
  · rfl

theorem familySpace_splitDouble (texts : List String) :
    familySpace (Template.splitDouble texts) = familySpace texts := by
  cases texts with
  | nil => rfl
  | cons text texts =>
    by_cases hopen : text = "<"
    · subst hopen
      rw [Template.splitDouble_other (by decide), familySpace_opened, familySpace_opened,
        Template.lastArgumentFrom_splitDouble Nat.one_pos rfl texts]
    · have hbare : familySpace (text :: texts) = .device :=
        familySpace_bare (by simpa using hopen)
      rw [hbare]
      by_cases hdouble : text = ">>"
      · subst hdouble
        rw [Template.splitDouble_double]
        exact familySpace_bare (by simp)
      · rw [Template.splitDouble_other hdouble]
        exact familySpace_bare (by simpa using hopen)

/-- No closing bracket is a word for a field or a space. -/
def Settings.NamesNoBracket (s : Settings) : Prop :=
  ∀ names ∈ [s.fieldFamilies, s.hostWrappers, s.deviceSpaceMarkers, s.hostSpaceMarkers],
    ">" ∉ names ∧ ">>" ∉ names

/-- The memory space of a type, whichever type and however its brackets nest, does not depend on
whether its closing brackets were read one by one or in pairs. -/
theorem Settings.spaceOfType_splitDouble (s : Settings) (h : s.NamesNoBracket)
    (texts : List String) : s.spaceOfType? (Template.splitDouble texts) = s.spaceOfType? texts := by
  have hfamily := h s.fieldFamilies (by simp)
  unfold spaceOfType?
  rw [Template.any_splitDouble (h s.hostWrappers (by simp)),
    Template.any_splitDouble (h s.deviceSpaceMarkers (by simp)),
    Template.any_splitDouble (h s.hostSpaceMarkers (by simp)),
    Template.dropWhile_splitDouble (by simp [isFieldFamily, hfamily.1])
      (by simp [isFieldFamily, hfamily.2])]
  cases hfrom : texts.dropWhile fun t => !s.isFieldFamily t with
  | nil => rfl
  | cons family rest =>
    have hsome : s.isFieldFamily family = true := by
      have hhead := List.head?_dropWhile_not (fun t => !s.isFieldFamily t) texts
      simpa [hfrom] using hhead
    have hother : family ≠ ">>" := by
      intro hdouble
      simp [hdouble, isFieldFamily, hfamily.2] at hsome
    rw [Template.splitDouble_other hother]
    simp only [familySpace_splitDouble]

/-- Three lists deep, where a pair of brackets closes two of them and leaves the field's own. -/
def deepType : List String :=
  ["Field", "<", "X", ",", "Box", "<", "Y", ",", "Wrap", "<", "SharedSpace", ">>", ">"]

/-- The second type is the first one cut short, so that its list stays open. -/
theorem Settings.spaceOfType_splitDouble_deep :
    Settings.standard.NamesNoBracket ∧
      Settings.standard.spaceOfType? (Template.splitDouble deepType) =
        some (.named "SharedSpace") ∧
      Settings.standard.spaceOfType? (Template.splitDouble deepType.dropLast) = some .unknown := by
  have hnames : Settings.standard.NamesNoBracket := by
    unfold NamesNoBracket
    decide +kernel
  refine ⟨hnames, ?_, ?_⟩
  · rw [spaceOfType_splitDouble .standard hnames]
    decide +kernel
  · rw [spaceOfType_splitDouble .standard hnames]
    decide +kernel

end SpaceAudit
