import Mathlib.Data.List.Basic
import SpaceAudit.Alias.Table

/-! Expansion goes over a type a fixed number of times. If the aliases are nested no deeper than
that, nothing is left to expand and more rounds change nothing. A name right after `::` belongs to
what qualifies it and stays, in every table. -/
namespace SpaceAudit.AliasTable
variable {t : AliasTable}

def NamesIdentifiers (t : AliasTable) : Prop :=
  ∀ name, (t.get? name).isSome = true → isIdentifier name = true

/-- `name` stands somewhere in `texts` and not right after `::`. -/
def Bare (texts : List String) (name : String) : Prop :=
  ∃ front back, texts = front ++ name :: back ∧ front.getLast? ≠ some "::"

/-- Aliases carry ranks from 1 up to the number of rounds, and a definition leaves only aliases of
a smaller rank to be expanded. -/
structure Ranked (t : AliasTable) (rank : String → Nat) : Prop where
  range : ∀ name definition, t.get? name = some definition → 1 ≤ rank name ∧ rank name ≤ rounds
  descends : ∀ name definition, t.get? name = some definition → ∀ inner, Bare definition inner →
    (t.get? inner).isSome = true → rank inner < rank name

theorem NamesIdentifiers.get?_qualifier (h : t.NamesIdentifiers) : t.get? "::" = none := by
  cases hd : t.get? "::" with
  | none => rfl
  | some definition =>
    have hname := h "::" (by rw [hd]; rfl)
    exact absurd hname (by decide +kernel)

section Places

def BareAfter (before : String) (texts : List String) (name : String) : Prop :=
  ∃ front back, texts = front ++ name :: back ∧ front.getLastD before ≠ "::"

theorem bare_iff {texts : List String} {name : String} :
    Bare texts name ↔ BareAfter "" texts name := by
  have hlast (front : List String) : front.getLast? ≠ some "::" ↔ front.getLastD "" ≠ "::" := by
    rcases List.eq_nil_or_concat' front with rfl | ⟨front, last, rfl⟩
    · simp
    · simp
  simp only [Bare, BareAfter, hlast]

theorem not_bareAfter_nil {before name : String} : ¬ BareAfter before [] name := by
  rintro ⟨front, back, heq, _⟩
  simp at heq

theorem bareAfter_cons {before name text : String} {texts : List String} :
    BareAfter before (text :: texts) name ↔
      (name = text ∧ before ≠ "::") ∨ BareAfter text texts name := by
  constructor
  · rintro ⟨front, back, heq, hlast⟩
    cases front with
    | nil =>
      obtain ⟨rfl, rfl⟩ := List.cons.inj heq
      exact .inl ⟨rfl, hlast⟩
    | cons first front =>
      obtain ⟨rfl, rfl⟩ := List.cons.inj heq
      rw [List.getLastD_cons] at hlast
      exact .inr ⟨front, back, rfl, hlast⟩
  · rintro (⟨rfl, hlast⟩ | ⟨front, back, rfl, hlast⟩)
    · exact ⟨[], texts, rfl, hlast⟩
    · rw [← List.getLastD_cons (a := before)] at hlast
      exact ⟨text :: front, back, rfl, hlast⟩

theorem bareAfter_append {before name : String} {l r : List String} :
    BareAfter before (l ++ r) name ↔
      BareAfter before l name ∨ BareAfter (l.getLastD before) r name := by
  induction l generalizing before with
  | nil => simp [not_bareAfter_nil]
  | cons text l ih =>
    rw [List.cons_append, bareAfter_cons, bareAfter_cons, ih, List.getLastD_cons, or_assoc]

/-- Only the first text can lose its place to what comes before. -/
theorem BareAfter.bare {before name : String} {texts : List String}
    (h : BareAfter before texts name) : Bare texts name := by
  rw [bare_iff]
  cases texts with
  | nil => exact absurd h not_bareAfter_nil
  | cons text texts =>
    rw [bareAfter_cons] at h ⊢
    exact h.imp_left fun hfirst => ⟨hfirst.1, by decide⟩

end Places

section Rounds

def replacement (t : AliasTable) (before text : String) : List String :=
  if before = "::" then [text] else (t.get? text).getD [text]

theorem expandFrom_cons (before text : String) (texts : List String) :
    t.expandFrom before (text :: texts) = t.replacement before text ++ t.expandFrom text texts :=
  rfl

theorem expandFrom_append (before : String) (l r : List String) :
    t.expandFrom before (l ++ r) =
      t.expandFrom before l ++ t.expandFrom (l.getLastD before) r := by
  induction l generalizing before with
  | nil => rfl
  | cons text l ih =>
    rw [List.cons_append, expandFrom_cons, expandFrom_cons, ih, List.getLastD_cons,
      List.append_assoc]

theorem expandFrom_eq_self {before : String} {texts : List String}
    (h : ∀ name, BareAfter before texts name → t.get? name = none) :
    t.expandFrom before texts = texts := by
  induction texts generalizing before with
  | nil => rfl
  | cons text texts ih =>
    have hkept : t.replacement before text = [text] := by
      unfold replacement
      split
      · rfl
      · rename_i hbefore
        rw [h text (bareAfter_cons.2 (.inl ⟨rfl, hbefore⟩)), Option.getD_none]
    rw [expandFrom_cons, hkept, ih fun name hname => h name (bareAfter_cons.2 (.inr hname)),
      List.singleton_append]

theorem replaces_iff {before : String} {texts : List String} : t.replaces before texts = true ↔
    ∃ name, BareAfter before texts name ∧ (t.get? name).isSome = true := by
  induction texts generalizing before with
  | nil => simp [replaces, not_bareAfter_nil]
  | cons text texts ih =>
    simp only [replaces, Bool.or_eq_true, Bool.and_eq_true, bne_iff_ne, ih, bareAfter_cons, or_and_right,
      exists_or, and_assoc, exists_eq_left]

theorem expandFrom_of_not_replaces {before : String} {texts : List String}
    (h : ¬ t.replaces before texts = true) : t.expandFrom before texts = texts :=
  expandFrom_eq_self fun name hname =>
    Option.not_isSome_iff_eq_none.1 fun hsome => h (replaces_iff.2 ⟨name, hname, hsome⟩)

theorem expandRounds_of_not_replaces {texts : List String} (h : ¬ t.replaces "" texts = true)
    (n : Nat) : t.expandRounds n texts = texts := by
  cases n with
  | zero => rfl
  | succ n => rw [expandRounds, if_neg h, expandOnce, expandFrom_of_not_replaces h]

/-- Stopping early leaves nothing out. -/
theorem expandRounds_step (n : Nat) (texts : List String) :
    t.expandRounds (n + 1) texts = t.expandRounds n (t.expandOnce texts) := by
  by_cases h : t.replaces "" texts = true
  · rw [expandRounds, if_pos h]
  · have hsame : t.expandOnce texts = texts := expandFrom_of_not_replaces h
    rw [hsame, expandRounds_of_not_replaces h, expandRounds_of_not_replaces h]

theorem expand_eq_expandRounds (texts : List String) :
    t.expand texts = t.expandRounds rounds texts := by
  by_cases hempty : t.isEmpty = true
  · have hnot : ¬ t.replaces "" texts = true := by
      intro h
      obtain ⟨name, _, hname⟩ := replaces_iff.1 h
      rw [get?, List.isEmpty_iff.1 hempty, List.lookup_nil] at hname
      cases hname
    rw [expand, if_pos hempty, expandRounds_of_not_replaces hnot]
  · rw [expand, if_neg hempty]

theorem expandRounds_add (m n : Nat) (texts : List String) :
    t.expandRounds (m + n) texts = t.expandRounds n (t.expandRounds m texts) := by
  induction m generalizing texts with
  | zero => rw [Nat.zero_add, expandRounds]
  | succ m ih => rw [Nat.succ_add, expandRounds_step, ih, expandRounds_step]

theorem expandRounds_succ (n : Nat) (texts : List String) :
    t.expandRounds (n + 1) texts = t.expandOnce (t.expandRounds n texts) := by
  rw [expandRounds_add, expandRounds_step, expandRounds]

theorem expandRounds_of_expandOnce {texts : List String} (h : t.expandOnce texts = texts)
    (n : Nat) : t.expandRounds n texts = texts := by
  induction n with
  | zero => rfl
  | succ n ih => rw [expandRounds_succ, ih, h]

theorem bareAfter_replacement {before last text name : String} (hlast : before = "::" → last = "::")
    (hname : (t.get? name).isSome = true) (h : BareAfter last (t.replacement before text) name) :
    before ≠ "::" ∧ ∃ definition, t.get? text = some definition ∧ Bare definition name := by
  unfold replacement at h
  split at h
  · rename_i hbefore
    rcases bareAfter_cons.1 h with ⟨_, hne⟩ | h
    · exact absurd (hlast hbefore) hne
    · exact absurd h not_bareAfter_nil
  · rename_i hbefore
    refine ⟨hbefore, ?_⟩
    cases hd : t.get? text with
    | some definition =>
      rw [hd, Option.getD_some] at h
      exact ⟨definition, rfl, h.bare⟩
    | none =>
      rw [hd, Option.getD_none] at h
      rcases bareAfter_cons.1 h with ⟨rfl, _⟩ | h
      · rw [hd] at hname
        cases hname
      · exact absurd h not_bareAfter_nil

/-- One round: whatever is left to expand stands bare in the definition of an alias that the round
replaced. The texts put together by a round may qualify a name that was bare; none becomes bare,
because `::` stays where it is. -/
theorem bareAfter_expandFrom (ht : t.NamesIdentifiers) {before last name : String}
    {texts : List String} (hlast : before = "::" → last = "::")
    (hname : (t.get? name).isSome = true) (h : BareAfter last (t.expandFrom before texts) name) :
    ∃ outer definition, BareAfter before texts outer ∧ t.get? outer = some definition ∧
      Bare definition name := by
  induction texts generalizing before last with
  | nil => exact absurd h not_bareAfter_nil
  | cons text texts ih =>
    rw [expandFrom_cons, bareAfter_append] at h
    rcases h with h | h
    · obtain ⟨hbefore, definition, hd, hbare⟩ := bareAfter_replacement hlast hname h
      exact ⟨text, definition, bareAfter_cons.2 (.inl ⟨rfl, hbefore⟩), hd, hbare⟩
    · have hkeep : text = "::" → (t.replacement before text).getLastD last = "::" := by
        rintro rfl
        simp [replacement, ht.get?_qualifier]
      obtain ⟨outer, definition, houter, hrest⟩ := ih hkeep h
      exact ⟨outer, definition, bareAfter_cons.2 (.inr houter), hrest⟩

theorem bare_expandOnce (ht : t.NamesIdentifiers) {name : String} {texts : List String}
    (hname : (t.get? name).isSome = true) (h : Bare (t.expandOnce texts) name) :
    ∃ outer definition, Bare texts outer ∧ t.get? outer = some definition ∧
      Bare definition name := by
  obtain ⟨outer, definition, houter, hrest⟩ :=
    bareAfter_expandFrom ht (fun h => h) hname (bare_iff.1 h)
  exact ⟨outer, definition, bare_iff.2 houter, hrest⟩

/-- All rounds: each takes one off the ranks that are left. -/
theorem Ranked.rank_add_le (ht : t.NamesIdentifiers) {rank : String → Nat} (hr : t.Ranked rank)
    {name : String} (hname : (t.get? name).isSome = true) {n : Nat} {texts : List String}
    (h : Bare (t.expandRounds n texts) name) : rank name + n ≤ rounds := by
  induction n generalizing name with
  | zero =>
    obtain ⟨definition, hd⟩ := Option.isSome_iff_exists.1 hname
    exact (hr.range name definition hd).2
  | succ n ih =>
    rw [expandRounds_succ] at h
    obtain ⟨outer, definition, houter, hd, hbare⟩ := bare_expandOnce ht hname h
    have hless := hr.descends outer definition hd name hbare hname
    have hbound := ih (by rw [hd]; rfl) houter
    omega

theorem Ranked.get?_of_bare_expand (ht : t.NamesIdentifiers) {rank : String → Nat}
    (hr : t.Ranked rank) {name : String} {texts : List String} (h : Bare (t.expand texts) name) :
    t.get? name = none := by
  cases hd : t.get? name with
  | none => rfl
  | some definition =>
    rw [expand_eq_expandRounds] at h
    have hbound := hr.rank_add_le ht (by rw [hd]; rfl) h
    have hpos := (hr.range name definition hd).1
    omega

theorem expandFrom_qualified (ht : t.NamesIdentifiers) (before w : String)
    (front back : List String) :
    t.expandFrom before (front ++ "::" :: w :: back) =
      t.expandFrom before front ++ "::" :: w :: t.expandFrom w back := by
  have hmark (before : String) : t.replacement before "::" = ["::"] := by
    simp [replacement, ht.get?_qualifier]
  have hname : t.replacement "::" w = [w] := if_pos rfl
  rw [expandFrom_append, expandFrom_cons, expandFrom_cons, hmark, hname, List.singleton_append,
    List.singleton_append]

theorem expandRounds_qualified (ht : t.NamesIdentifiers) (n : Nat) (w : String)
    (front back : List String) :
    ∃ later, t.expandRounds n (front ++ "::" :: w :: back) =
      t.expandRounds n front ++ "::" :: w :: later := by
  induction n with
  | zero => exact ⟨back, rfl⟩
  | succ n ih =>
    obtain ⟨later, hlater⟩ := ih
    refine ⟨t.expandFrom w later, ?_⟩
    rw [expandRounds_succ, hlater, expandRounds_succ, expandOnce, expandOnce,
      expandFrom_qualified ht]

end Rounds

/-- Expansion ends where nothing is left to expand, for every table of ranked aliases: expanding
again, or with more rounds, gives the same texts. In every table, also one whose aliases run in a
circle, no round replaces a text right after `::`. -/
theorem expand_reaches_fixpoint (t : AliasTable) (ht : t.NamesIdentifiers) :
    (∀ rank, t.Ranked rank → ∀ texts,
      (∀ name, Bare (t.expand texts) name → t.get? name = none) ∧
        t.expand (t.expand texts) = t.expand texts ∧
        ∀ n, rounds ≤ n → t.expandRounds n texts = t.expand texts) ∧
      ∀ texts n front w back, t.expandRounds n texts = front ++ "::" :: w :: back →
        t.expandRounds (n + 1) texts = t.expandOnce front ++ "::" :: w :: t.expandFrom w back ∧
          ∀ m, ∃ later,
            t.expandRounds (n + m) texts = t.expandRounds m front ++ "::" :: w :: later := by
  constructor
  · intro rank hr texts
    have hbare : ∀ name, Bare (t.expand texts) name → t.get? name = none :=
      fun name => hr.get?_of_bare_expand ht
    have hfixed : t.expandOnce (t.expand texts) = t.expand texts :=
      expandFrom_eq_self fun name hname => hbare name hname.bare
    refine ⟨hbare, ?_, fun n hn => ?_⟩
    · rw [expand_eq_expandRounds (t.expand texts)]
      exact expandRounds_of_expandOnce hfixed rounds
    · obtain ⟨more, rfl⟩ := Nat.exists_eq_add_of_le hn
      rw [expandRounds_add, ← expand_eq_expandRounds]
      exact expandRounds_of_expandOnce hfixed more
  · intro texts n front w back hround
    constructor
    · rw [expandRounds_succ, hround, expandOnce, expandFrom_qualified ht, expandOnce]
    · intro m
      rw [expandRounds_add, hround]
      exact expandRounds_qualified ht m w front back

/-- `Space` is defined through a `Mem` of another namespace, and `Mem` through `Space`. -/
def nestedSample : AliasTable :=
  ⟨[("Mem", ["Field", "<", "Space", ">"]), ("Space", ["ns", "::", "Mem"])]⟩

def nestedRank (name : String) : Nat := if name = "Mem" then 2 else 1

theorem nestedSample_get? {name : String} {definition : List String}
    (h : nestedSample.get? name = some definition) :
    name = "Mem" ∧ definition = ["Field", "<", "Space", ">"] ∨
      name = "Space" ∧ definition = ["ns", "::", "Mem"] := by
  simp only [get?, nestedSample, List.lookup_cons, List.lookup_nil] at h
  split at h
  · rename_i hm
    exact .inl ⟨by simpa using hm, by simpa using h.symm⟩
  · split at h
    · rename_i hs
      exact .inr ⟨by simpa using hs, by simpa using h.symm⟩
    · cases h

theorem nestedSample_namesIdentifiers : nestedSample.NamesIdentifiers := by
  intro name hname
  obtain ⟨definition, hd⟩ := Option.isSome_iff_exists.1 hname
  rcases nestedSample_get? hd with ⟨rfl, _⟩ | ⟨rfl, _⟩
  · decide +kernel
  · decide +kernel

theorem nestedSample_ranked : nestedSample.Ranked nestedRank := by
  constructor
  · intro name definition hd
    rcases nestedSample_get? hd with ⟨rfl, _⟩ | ⟨rfl, _⟩
    · decide
    · decide
  · intro name definition hd inner hbare hinner
    obtain ⟨_, hi⟩ := Option.isSome_iff_exists.1 hinner
    rw [bare_iff] at hbare
    rcases nestedSample_get? hd with ⟨rfl, rfl⟩ | ⟨rfl, rfl⟩
    · rcases nestedSample_get? hi with ⟨rfl, _⟩ | ⟨rfl, _⟩
      · simp [bareAfter_cons, not_bareAfter_nil] at hbare
      · decide
    · rcases nestedSample_get? hi with ⟨rfl, _⟩ | ⟨rfl, _⟩
      · simp [bareAfter_cons, not_bareAfter_nil] at hbare
      · simp [bareAfter_cons, not_bareAfter_nil] at hbare

/-- The second round leaves the `Mem` of the other namespace alone. -/
theorem expand_reaches_fixpoint_nested :
    nestedSample.NamesIdentifiers ∧ nestedSample.Ranked nestedRank ∧
      nestedSample.expand ["Mem"] = ["Field", "<", "ns", "::", "Mem", ">"] ∧
      nestedSample.expand ["Field", "<", "ns", "::", "Mem", ">"] =
        ["Field", "<", "ns", "::", "Mem", ">"] ∧
      nestedSample.expandRounds 11 ["Mem"] = nestedSample.expand ["Mem"] ∧
      nestedSample.expandRounds 3 ["Mem"] =
        nestedSample.expandOnce ["Field", "<", "ns"] ++ "::" :: "Mem" ::
          nestedSample.expandFrom "Mem" [">"] := by
  have hexpand : nestedSample.expand ["Mem"] = ["Field", "<", "ns", "::", "Mem", ">"] := by
    decide +kernel
  obtain ⟨hfix, hkept⟩ := expand_reaches_fixpoint nestedSample nestedSample_namesIdentifiers
  obtain ⟨_, hagain, hmore⟩ := hfix nestedRank nestedSample_ranked ["Mem"]
  rw [hexpand] at hagain
  exact ⟨nestedSample_namesIdentifiers, nestedSample_ranked, hexpand, hagain, hmore 11 (by decide),
    (hkept ["Mem"] 2 ["Field", "<", "ns"] "Mem" [">"] (by decide +kernel)).1⟩

end SpaceAudit.AliasTable
