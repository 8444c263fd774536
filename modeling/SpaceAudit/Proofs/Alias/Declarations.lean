import Mathlib.Data.List.TakeWhile
import SpaceAudit.Alias.Table

/-! The alias declarations of a token stream. A declaration looks three tokens ahead and takes all
up to a semicolon, but none goes across one. So a stream can be cut at any semicolon: the two parts
declare what the whole does, the later part over the earlier. -/
namespace SpaceAudit.AliasTable

def Opens (texts : List String) : Prop :=
  ∃ name body, texts = "using" :: name :: "=" :: body ∧ isIdentifier name = true

def spelled (entry : String × List String) : List String :=
  "using" :: entry.1 :: "=" :: (entry.2 ++ [";"])

section Steps

theorem declarations_skip {text : String} {texts : List String} (h : ¬ Opens (text :: texts)) :
    declarations (text :: texts) = declarations texts := by
  match texts with
  | [] => simp [declarations]
  | [_] => simp [declarations]
  | [_, _] => simp [declarations]
  | name :: e :: d :: rest =>
    rw [declarations, if_neg]
    intro hopens
    obtain ⟨rfl, rfl, hname⟩ := hopens
    exact h ⟨name, d :: rest, rfl, hname⟩

theorem declarations_semicolon (texts : List String) :
    declarations (";" :: texts) = declarations texts := by
  apply declarations_skip
  intro h
  obtain ⟨name, body, heq, _⟩ := h
  exact absurd (List.cons.inj heq).1 (by decide)

theorem takeWhile_semicolon (body rest : List String) :
    (body ++ ";" :: rest).takeWhile (· != ";") = body.takeWhile (· != ";") := by
  induction body with
  | nil => rfl
  | cons text body ih => rw [List.cons_append, List.takeWhile_cons, List.takeWhile_cons, ih]

theorem dropWhile_semicolon (body rest : List String) :
    (body ++ ";" :: rest).dropWhile (· != ";") = body.dropWhile (· != ";") ++ ";" :: rest := by
  induction body with
  | nil => rfl
  | cons text body ih =>
    rw [List.cons_append, List.dropWhile_cons, List.dropWhile_cons, ih]
    split
    · rfl
    · rfl

theorem declarations_opened {name : String} (hname : isIdentifier name = true)
    (body rest : List String) :
    declarations ("using" :: name :: "=" :: (body ++ ";" :: rest)) =
      (name, body.takeWhile (· != ";")) ::
        declarations (body.dropWhile (· != ";") ++ ";" :: rest) := by
  rw [← takeWhile_semicolon body rest, ← dropWhile_semicolon body rest]
  obtain ⟨d, more, hmore⟩ : ∃ d more, body ++ ";" :: rest = d :: more :=
    List.exists_cons_of_ne_nil (by simp)
  rw [hmore, declarations, if_pos ⟨rfl, rfl, hname⟩]

end Steps

section Cuts

theorem opens_append_iff {xs ys : List String} : Opens (xs ++ ";" :: ys) ↔ Opens xs := by
  constructor
  · intro h
    obtain ⟨name, body, heq, hname⟩ := h
    match xs with
    | [] => exact absurd (List.cons.inj heq).1 (by decide)
    | [_] =>
      obtain ⟨_, heq⟩ := List.cons.inj heq
      obtain ⟨rfl, _⟩ := List.cons.inj heq
      exact absurd hname (by decide)
    | [_, _] =>
      obtain ⟨_, heq⟩ := List.cons.inj heq
      obtain ⟨_, heq⟩ := List.cons.inj heq
      exact absurd (List.cons.inj heq).1 (by decide)
    | u :: n :: e :: rest =>
      simp only [List.cons_append, List.cons.injEq] at heq
      obtain ⟨rfl, rfl, rfl, _⟩ := heq
      exact ⟨n, rest, rfl, hname⟩
  · intro h
    obtain ⟨name, body, rfl, hname⟩ := h
    exact ⟨name, body ++ ";" :: ys, rfl, hname⟩

theorem declarations_append (xs ys : List String) :
    declarations (xs ++ ";" :: ys) = declarations (xs ++ [";"]) ++ declarations ys := by
  -- A declaration may take several tokens away at once, so the induction is on the length.
  induction hlength : xs.length using Nat.strong_induction_on generalizing xs with
  | _ n ih =>
    cases xs with
    | nil =>
      have hnone : declarations [] = [] := by simp [declarations]
      rw [List.nil_append, List.nil_append, declarations_semicolon, declarations_semicolon, hnone,
        List.nil_append]
    | cons text rest =>
      rw [List.length_cons] at hlength
      by_cases hopens : Opens (text :: rest)
      · obtain ⟨name, body, heq, hname⟩ := hopens
        obtain ⟨rfl, rfl⟩ := List.cons.inj heq
        have hshorter : (body.dropWhile (· != ";")).length < n := by
          have hle := (List.dropWhile_sublist (l := body) (· != ";")).length_le
          simp only [List.length_cons] at hlength
          omega
        simp only [List.cons_append]
        rw [declarations_opened hname, declarations_opened hname, ih _ hshorter _ rfl,
          List.cons_append]
      · have hwhole : ¬ Opens (text :: (rest ++ ";" :: ys)) := fun h =>
          hopens (opens_append_iff.1 h)
        have hfirst : ¬ Opens (text :: (rest ++ [";"])) := fun h => hopens (opens_append_iff.1 h)
        rw [List.cons_append, List.cons_append, declarations_skip hwhole,
          declarations_skip hfirst, ih rest.length (by omega) rest rfl]

theorem ofTexts_append (xs ys : List String) :
    ofTexts (xs ++ [";"] ++ ys) = (ofTexts ys).orElse (ofTexts (xs ++ [";"])) := by
  have hsplit : declarations (xs ++ [";"] ++ ys) =
      declarations (xs ++ [";"]) ++ declarations ys := by
    rw [List.append_assoc, List.singleton_append, declarations_append]
  rw [ofTexts, hsplit, List.reverse_append]
  rfl

end Cuts

section Written

theorem declarations_spelled {entry : String × List String}
    (hname : isIdentifier entry.1 = true) (hdefinition : ";" ∉ entry.2) (rest : List String) :
    declarations (spelled entry ++ rest) = entry :: declarations rest := by
  have hall : ∀ text ∈ entry.2, (text != ";") = true := by
    intro text htext
    rw [bne_iff_ne]
    intro heq
    exact hdefinition (heq ▸ htext)
  have htake : entry.2.takeWhile (· != ";") = entry.2 := List.takeWhile_eq_self_iff.2 hall
  have hdrop : entry.2.dropWhile (· != ";") = [] := List.dropWhile_eq_nil_iff.2 hall
  have htexts : spelled entry ++ rest =
      "using" :: entry.1 :: "=" :: (entry.2 ++ ";" :: rest) := by simp [spelled]
  rw [htexts, declarations_opened hname, htake, hdrop, List.nil_append, declarations_semicolon]

theorem declarations_written {entries : List (String × List String)}
    (h : ∀ entry ∈ entries, isIdentifier entry.1 = true ∧ ";" ∉ entry.2) :
    declarations (entries.flatMap spelled) = entries := by
  induction entries with
  | nil => simp [declarations]
  | cons entry entries ih =>
    obtain ⟨hentry, hentries⟩ := List.forall_mem_cons.1 h
    rw [List.flatMap_cons, declarations_spelled hentry.1 hentry.2, ih hentries]

theorem get?_reverse_iff {entries : List (String × List String)} {name : String}
    {definition : List String} :
    (AliasTable.mk entries.reverse).get? name = some definition ↔
      ∃ before after, entries = before ++ (name, definition) :: after ∧
        name ∉ after.map Prod.fst := by
  have hnames (after : List (String × List String)) :
      (∀ entry ∈ after, (name != entry.1) = true) ↔ name ∉ after.map Prod.fst := by
    simp only [bne_iff_ne, List.mem_map, not_exists, not_and, ne_comm (a := name)]
  rw [get?, List.lookup_eq_some_iff]
  constructor
  · intro h
    obtain ⟨after, before, heq, hafter⟩ := h
    refine ⟨before.reverse, after.reverse, ?_, ?_⟩
    · rw [List.reverse_eq_iff.1 heq]
      simp
    · rw [List.map_reverse, List.mem_reverse]
      exact (hnames after).1 hafter
  · intro h
    obtain ⟨before, after, rfl, hafter⟩ := h
    refine ⟨after.reverse, before.reverse, by simp, fun entry hentry => ?_⟩
    exact (hnames after).2 hafter entry (List.mem_reverse.1 hentry)

end Written

/-- Reading declarations is compositional at semicolons. The table of a stream with a semicolon in
it is the table up to the semicolon, overridden by that of what comes after. Written declarations
are read back: the table has every name with the last of its definitions, which may be empty, and
no other name. -/
theorem ofTexts_compositional :
    (∀ xs ys : List String,
        ofTexts (xs ++ [";"] ++ ys) = (ofTexts ys).orElse (ofTexts (xs ++ [";"])) ∧
          ∀ name, (ofTexts (xs ++ [";"] ++ ys)).get? name =
            ((ofTexts ys).get? name).or ((ofTexts (xs ++ [";"])).get? name)) ∧
      ∀ entries : List (String × List String),
        (∀ entry ∈ entries, isIdentifier entry.1 = true ∧ ";" ∉ entry.2) →
        (ofTexts (entries.flatMap spelled)).entries = entries.reverse ∧
          ∀ name definition,
            (ofTexts (entries.flatMap spelled)).get? name = some definition ↔
              ∃ before after, entries = before ++ (name, definition) :: after ∧
                name ∉ after.map Prod.fst := by
  refine ⟨fun xs ys => ⟨ofTexts_append xs ys, fun name => ?_⟩, fun entries h => ?_⟩
  · rw [ofTexts_append, get?_orElse]
  · have htable : ofTexts (entries.flatMap spelled) = ⟨entries.reverse⟩ := by
      rw [ofTexts, declarations_written h]
    rw [htable]
    exact ⟨rfl, fun name definition => get?_reverse_iff⟩

/-- A name declared twice, an empty definition, and a definition that looks like a declaration. -/
def declaredTwice : List (String × List String) :=
  [("A", ["using", "C", "=", "x"]), ("B", []), ("A", ["y", ">", ">"])]

/-- The second part begins in the middle of a declaration, which is lost with its head. -/
theorem ofTexts_compositional_declaredTwice :
    (ofTexts (declaredTwice.flatMap spelled)).get? "A" = some ["y", ">", ">"] ∧
      (ofTexts (declaredTwice.flatMap spelled)).get? "B" = some [] ∧
      (ofTexts (declaredTwice.flatMap spelled)).get? "C" = none ∧
      (ofTexts (["using", "A", "=", "x"] ++ [";"] ++ ["B", "=", "y", ";"])).get? "A" =
        some ["x"] := by
  obtain ⟨hcut, hwritten⟩ := ofTexts_compositional
  obtain ⟨hentries, hlast⟩ := hwritten declaredTwice (by decide +kernel)
  refine ⟨(hlast _ _).2 ⟨declaredTwice.take 2, [], by decide, by decide⟩,
    (hlast _ _).2 ⟨declaredTwice.take 1, declaredTwice.drop 2, by decide, by decide⟩, ?_, ?_⟩
  · rw [get?, hentries]
    decide
  · rw [(hcut _ _).2]
    decide +kernel

end SpaceAudit.AliasTable
