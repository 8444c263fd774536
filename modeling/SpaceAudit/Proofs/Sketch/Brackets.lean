import SpaceAudit.Proofs.Sketch.Outline

/-! The links between brackets. One list of open brackets serves all kinds, and yet every kind is
matched as if the others were not there: by a stack, and along the nesting where the code nests. -/
namespace SpaceAudit.Sketch

inductive Bracket where
  | round | square | curly
deriving DecidableEq, Repr

namespace Bracket

def opener : Bracket → String
  | round => "("
  | square => "["
  | curly => "\x7b"

def closer : Bracket → String
  | round => ")"
  | square => "]"
  | curly => "\x7d"

inductive Role where
  | opens | closes
deriving DecidableEq, Repr

def role? (k : Bracket) (text : String) : Option Role :=
  if text = k.opener then some .opens else if text = k.closer then some .closes else none

/-- The brackets of one kind from position `i` on. All other texts are erased. -/
def marks (k : Bracket) (i : Nat) (texts : List String) : List (Nat × Role) :=
  (texts.zipIdx i).filterMap fun p => (k.role? p.1).map fun r => (p.2, r)

/-- An opening bracket is put on the stack, and a closing one takes the top, if there is any. -/
def matchStack : List Nat → List (Nat × Role) → List (Nat × Nat)
  | _, [] => []
  | stack, (i, .opens) :: ms => matchStack (i :: stack) ms
  | [], (_, .closes) :: ms => matchStack [] ms
  | j :: stack, (i, .closes) :: ms => (j, i) :: matchStack stack ms

def matching (k : Bracket) (texts : List String) : List (Nat × Nat) :=
  matchStack [] (k.marks 0 texts)

theorem opener_injective {k k' : Bracket} (h : k.opener = k'.opener) : k = k' := by
  revert h
  cases k <;> cases k' <;> decide

theorem closer_injective {k k' : Bracket} (h : k.closer = k'.closer) : k = k' := by
  revert h
  cases k <;> cases k' <;> decide

theorem opener_ne_closer (k k' : Bracket) : k.opener ≠ k'.closer := by
  cases k <;> cases k' <;> decide

theorem isOpener_iff {text : String} : isOpener text = true ↔ ∃ k : Bracket, text = k.opener := by
  constructor
  · intro h
    simp only [isOpener, Bool.or_eq_true, beq_iff_eq] at h
    cases h with
    | inl h =>
      cases h with
      | inl hround => exact ⟨.round, hround⟩
      | inr hsquare => exact ⟨.square, hsquare⟩
    | inr hcurly => exact ⟨.curly, hcurly⟩
  · intro h
    obtain ⟨k, rfl⟩ := h
    cases k <;> decide

theorem openerOf?_eq_some_iff {text o : String} :
    openerOf? text = some o ↔ ∃ k : Bracket, text = k.closer ∧ o = k.opener := by
  constructor
  · intro h
    unfold openerOf? at h
    split at h
    · exact ⟨.round, rfl, (Option.some.inj h).symm⟩
    · exact ⟨.square, rfl, (Option.some.inj h).symm⟩
    · exact ⟨.curly, rfl, (Option.some.inj h).symm⟩
    · cases h
  · intro h
    obtain ⟨k, rfl, rfl⟩ := h
    cases k <;> rfl

theorem marks_opener (k : Bracket) (i : Nat) (ts : List String) :
    k.marks i (k.opener :: ts) = (i, .opens) :: k.marks (i + 1) ts := by
  simp [marks, role?, List.zipIdx_cons]

theorem marks_closer (k : Bracket) (i : Nat) (ts : List String) :
    k.marks i (k.closer :: ts) = (i, .closes) :: k.marks (i + 1) ts := by
  simp [marks, role?, List.zipIdx_cons, (opener_ne_closer k k).symm]

theorem marks_of_ne {k : Bracket} {t : String} (hopener : t ≠ k.opener) (hcloser : t ≠ k.closer)
    (i : Nat) (ts : List String) : k.marks i (t :: ts) = k.marks (i + 1) ts := by
  simp [marks, role?, List.zipIdx_cons, hopener, hcloser]

def openOf (k : Bracket) (opened : List (Nat × String)) : List Nat :=
  opened.filterMap fun p => if p.2 = k.opener then some p.1 else none

theorem openOf_cons_opener (k : Bracket) (i : Nat) (opened : List (Nat × String)) :
    k.openOf ((i, k.opener) :: opened) = i :: k.openOf opened := by
  simp [openOf]

theorem openOf_cons_of_ne {k : Bracket} {t : String} (h : t ≠ k.opener) (i : Nat)
    (opened : List (Nat × String)) : k.openOf ((i, t) :: opened) = k.openOf opened := by
  simp [openOf, h]

end Bracket

section Taking
variable {i j : Nat} {opened left : List (Nat × String)} {k : Bracket} {t : String}

theorem openOf_of_takeOpen (h : takeOpen k.opener opened = some (j, left)) :
    k.openOf opened = j :: k.openOf left ∧
      ∀ k' : Bracket, k' ≠ k → k'.openOf opened = k'.openOf left := by
  induction opened generalizing left with
  | nil => cases h
  | cons p opened ih =>
    obtain ⟨i, t⟩ := p
    rw [takeOpen] at h
    by_cases ht : t = k.opener
    · rw [if_pos ht] at h
      obtain ⟨rfl, rfl⟩ := Prod.mk.inj (Option.some.inj h)
      subst ht
      refine ⟨k.openOf_cons_opener i opened, fun k' hk => ?_⟩
      exact Bracket.openOf_cons_of_ne (fun ho => hk (Bracket.opener_injective ho).symm) i opened
    · rw [if_neg ht] at h
      obtain ⟨⟨j', left'⟩, hrest, heq⟩ := Option.map_eq_some_iff.1 h
      obtain ⟨rfl, rfl⟩ := Prod.mk.inj heq
      obtain ⟨hown, hothers⟩ := ih hrest
      refine ⟨?_, fun k' hk => ?_⟩
      · rw [Bracket.openOf_cons_of_ne ht, Bracket.openOf_cons_of_ne ht, hown]
      · by_cases ht' : t = k'.opener
        · subst ht'
          rw [Bracket.openOf_cons_opener, Bracket.openOf_cons_opener, hothers k' hk]
        · rw [Bracket.openOf_cons_of_ne ht', Bracket.openOf_cons_of_ne ht', hothers k' hk]

theorem takeOpen_perm (h : takeOpen t opened = some (j, left)) : opened.Perm ((j, t) :: left) := by
  induction opened generalizing left with
  | nil => cases h
  | cons p opened ih =>
    obtain ⟨i, u⟩ := p
    rw [takeOpen] at h
    by_cases hu : u = t
    · rw [if_pos hu] at h
      obtain ⟨rfl, rfl⟩ := Prod.mk.inj (Option.some.inj h)
      rw [hu]
    · rw [if_neg hu] at h
      obtain ⟨⟨j', left'⟩, hrest, heq⟩ := Option.map_eq_some_iff.1 h
      obtain ⟨rfl, rfl⟩ := Prod.mk.inj heq
      exact ((ih hrest).cons (i, u)).trans (.swap _ _ _)

theorem openOf_of_takeOpen_none (h : takeOpen k.opener opened = none) : k.openOf opened = [] := by
  induction opened with
  | nil => rfl
  | cons p opened ih =>
    obtain ⟨i, t⟩ := p
    rw [takeOpen] at h
    by_cases ht : t = k.opener
    · rw [if_pos ht] at h
      cases h
    · rw [if_neg ht, Option.map_eq_none_iff] at h
      rw [Bracket.openOf_cons_of_ne ht, ih h]

theorem taken_iff : (openerOf? t).bind (takeOpen · opened) = some (j, left) ↔
    ∃ k : Bracket, t = k.closer ∧ takeOpen k.opener opened = some (j, left) := by
  rw [Option.bind_eq_some_iff]
  constructor
  · intro h
    obtain ⟨o, ho, htake⟩ := h
    obtain ⟨k, ht, rfl⟩ := Bracket.openerOf?_eq_some_iff.1 ho
    exact ⟨k, ht, htake⟩
  · intro h
    obtain ⟨k, ht, htake⟩ := h
    exact ⟨k.opener, Bracket.openerOf?_eq_some_iff.2 ⟨k, ht, rfl⟩, htake⟩

theorem takeOpen_of_not_taken (h : (openerOf? t).bind (takeOpen · opened) = none)
    (ht : t = k.closer) : takeOpen k.opener opened = none := by
  rwa [Bracket.openerOf?_eq_some_iff.2 ⟨k, ht, rfl⟩, Option.bind_some] at h

end Taking

section Kinds
variable {all texts : List String} {i : Nat} {opened : List (Nat × String)}

theorem drop_succ_of_drop {t : String} {ts : List String} (h : all.drop i = t :: ts) :
    all.drop (i + 1) = ts ∧ all[i]? = some t := by
  refine ⟨?_, ?_⟩
  · rw [← List.tail_drop, h, List.tail_cons]
  · rw [← List.head?_drop, h, List.head?_cons]

/-- The pairs of one kind are those of a stack that sees this kind only. -/
theorem filter_pairsFrom (k : Bracket) (h : all.drop i = texts) :
    (pairsFrom i opened texts).filter (fun p => all[p.2]? == some k.closer) =
      Bracket.matchStack (k.openOf opened) (k.marks i texts) := by
  fun_induction pairsFrom i opened texts with
  | case1 i opened => rfl
  | case2 i opened t ts hopener ih =>
    obtain ⟨k', rfl⟩ := Bracket.isOpener_iff.1 hopener
    rw [ih (drop_succ_of_drop h).1]
    by_cases hk : k' = k
    · rw [hk, k.openOf_cons_opener, k.marks_opener, Bracket.matchStack]
    · have hne : k'.opener ≠ k.opener := fun ho => hk (Bracket.opener_injective ho)
      rw [Bracket.openOf_cons_of_ne hne, Bracket.marks_of_ne hne (Bracket.opener_ne_closer k' k)]
  | case3 i opened t ts hopener j left htake ih =>
    obtain ⟨k', rfl, htaken⟩ := taken_iff.1 htake
    obtain ⟨hdrop, hat⟩ := drop_succ_of_drop h
    obtain ⟨hown, hothers⟩ := openOf_of_takeOpen htaken
    rw [List.filter_cons, hat, ih hdrop]
    by_cases hk : k' = k
    · subst hk
      rw [if_pos (by simp), hown, Bracket.marks_closer, Bracket.matchStack]
    · have hne : k'.closer ≠ k.closer := fun hc => hk (Bracket.closer_injective hc)
      rw [if_neg (by simpa using hne), hothers k (Ne.symm hk),
        Bracket.marks_of_ne (Bracket.opener_ne_closer k k').symm hne]
  | case4 i opened t ts hopener hnone ih =>
    rw [ih (drop_succ_of_drop h).1]
    by_cases ht : t = k.closer
    · rw [openOf_of_takeOpen_none (takeOpen_of_not_taken hnone ht), ht, k.marks_closer,
        Bracket.matchStack]
    · have hne : t ≠ k.opener := fun ho => hopener (Bracket.isOpener_iff.2 ⟨k, ho⟩)
      rw [Bracket.marks_of_ne hne ht]

def ends (pairs : List (Nat × Nat)) : List Nat := pairs.flatMap fun p => [p.1, p.2]

structure Opened (all : List String) (i : Nat) (opened : List (Nat × String)) : Prop where
  before : ∀ p ∈ opened, p.1 < i
  text : ∀ p ∈ opened, all[p.1]? = some p.2
  nodup : (opened.map Prod.fst).Nodup

namespace Opened
variable {left : List (Nat × String)} {j : Nat} {t : String}

theorem next (h : Opened all i opened) : Opened all (i + 1) opened :=
  ⟨fun p hp => Nat.lt_succ_of_lt (h.before p hp), h.text, h.nodup⟩

theorem push (h : Opened all i opened) (hat : all[i]? = some t) :
    Opened all (i + 1) ((i, t) :: opened) where
  before := List.forall_mem_cons.2 ⟨Nat.lt_succ_self i, h.next.before⟩
  text := List.forall_mem_cons.2 ⟨hat, h.text⟩
  nodup := by
    rw [List.map_cons, List.nodup_cons]
    refine ⟨fun hmem => ?_, h.nodup⟩
    obtain ⟨p, hp, hi⟩ := List.mem_map.1 hmem
    exact absurd (h.before p hp) (by rw [hi]; exact Nat.lt_irrefl i)

theorem take (h : Opened all i opened) (htake : takeOpen t opened = some (j, left)) :
    Opened all (i + 1) left ∧ j ∉ left.map Prod.fst := by
  have hsub := (takeOpen_mem htake).2
  have hperm := (takeOpen_perm htake).map Prod.fst
  have hnodup := List.nodup_cons.1 (hperm.nodup_iff.1 h.nodup)
  refine ⟨⟨fun p hp => h.next.before p (hsub.subset hp), fun p hp => h.text p (hsub.subset hp),
    hnodup.2⟩, hnodup.1⟩

end Opened

structure Paired (all : List String) (i : Nat) (opened : List (Nat × String))
    (pairs : List (Nat × Nat)) : Prop where
  kinds : ∀ p ∈ pairs, p.1 < p.2 ∧
    ∃ k : Bracket, all[p.1]? = some k.opener ∧ all[p.2]? = some k.closer
  fresh : ∀ x ∈ ends pairs, x ∈ opened.map Prod.fst ∨ i ≤ x
  nodup : (ends pairs).Nodup

theorem paired_pairsFrom (h : all.drop i = texts) (hopened : Opened all i opened) :
    Paired all i opened (pairsFrom i opened texts) := by
  fun_induction pairsFrom i opened texts with
  | case1 i opened => exact ⟨nofun, nofun, List.nodup_nil⟩
  | case2 i opened t ts hopener ih =>
    obtain ⟨hdrop, hat⟩ := drop_succ_of_drop h
    have hrest := ih hdrop (hopened.push hat)
    refine ⟨hrest.kinds, fun x hx => ?_, hrest.nodup⟩
    cases hrest.fresh x hx with
    | inl hmem =>
      cases List.mem_cons.1 hmem with
      | inl hi => exact .inr (Nat.le_of_eq hi.symm)
      | inr hmem => exact .inl hmem
    | inr hle => exact .inr (Nat.le_of_succ_le hle)
  | case3 i opened t ts hopener j left htake ih =>
    obtain ⟨k, rfl, htaken⟩ := taken_iff.1 htake
    obtain ⟨hdrop, hat⟩ := drop_succ_of_drop h
    obtain ⟨hleft, hj⟩ := hopened.take htaken
    obtain ⟨hmem, hsub⟩ := takeOpen_mem htaken
    have hrest := ih hdrop hleft
    have hlt : j < i := hopened.before _ hmem
    have hends : ends ((j, i) :: pairsFrom (i + 1) left ts) =
        j :: i :: ends (pairsFrom (i + 1) left ts) := rfl
    refine ⟨List.forall_mem_cons.2 ⟨⟨hlt, k, hopened.text _ hmem, hat⟩, hrest.kinds⟩, ?_, ?_⟩
    · rw [hends]
      refine List.forall_mem_cons.2 ⟨.inl (List.mem_map_of_mem hmem), ?_⟩
      refine List.forall_mem_cons.2 ⟨.inr (Nat.le_refl i), fun x hx => ?_⟩
      exact (hrest.fresh x hx).imp (fun hx => (hsub.map Prod.fst).subset hx) Nat.le_of_succ_le
    · -- A partner is no longer open, and nothing later stands at its place.
      have hnew : j ∉ ends (pairsFrom (i + 1) left ts) := by
        intro hx
        cases hrest.fresh j hx with
        | inl hx => exact hj hx
        | inr hle => omega
      have hnow : i ∉ ends (pairsFrom (i + 1) left ts) := by
        intro hx
        cases hrest.fresh i hx with
        | inl hx =>
          obtain ⟨p, hp, hi⟩ := List.mem_map.1 hx
          have hbefore := hopened.before p (hsub.subset hp)
          omega
        | inr hle => omega
      rw [hends, List.nodup_cons, List.nodup_cons, List.mem_cons, not_or]
      exact ⟨⟨Nat.ne_of_lt hlt, hnew⟩, hnow, hrest.nodup⟩
  | case4 i opened t ts hopener hnone ih =>
    obtain ⟨hdrop, hat⟩ := drop_succ_of_drop h
    have hrest := ih hdrop hopened.next
    exact ⟨hrest.kinds, fun x hx => (hrest.fresh x hx).imp_right Nat.le_of_succ_le, hrest.nodup⟩

theorem paired_bracketPairs (texts : List String) : Paired texts 0 [] (bracketPairs texts) :=
  paired_pairsFrom rfl ⟨nofun, nofun, List.nodup_nil⟩

theorem mem_matching_iff (k : Bracket) (texts : List String) {a b : Nat} :
    (a, b) ∈ k.matching texts ↔ (a, b) ∈ bracketPairs texts ∧ texts[a]? = some k.opener := by
  have hfilter : (bracketPairs texts).filter (fun p => texts[p.2]? == some k.closer) =
      k.matching texts := filter_pairsFrom k rfl
  rw [← hfilter, List.mem_filter, beq_iff_eq]
  refine and_congr_right fun hmem => ?_
  -- The kind of either end tells the kind of the pair.
  obtain ⟨_, k', hopener, hcloser⟩ := (paired_bracketPairs texts).kinds _ hmem
  rw [hopener, hcloser, Option.some_inj, Option.some_inj]
  exact ⟨fun h => by rw [Bracket.closer_injective h], fun h => by rw [Bracket.opener_injective h]⟩

end Kinds

section Partners

theorem mem_ends {pairs : List (Nat × Nat)} {a b : Nat} (h : (a, b) ∈ pairs) :
    a ∈ ends pairs ∧ b ∈ ends pairs :=
  ⟨List.mem_flatMap.2 ⟨(a, b), h, by simp⟩, List.mem_flatMap.2 ⟨(a, b), h, by simp⟩⟩

theorem partner?_eq_some_iff {pairs : List (Nat × Nat)} (h : (ends pairs).Nodup) {i j : Nat} :
    partner? pairs i = some j ↔ (i, j) ∈ pairs ∨ (j, i) ∈ pairs := by
  induction pairs with
  | nil => simp [partner?]
  | cons p pairs ih =>
    obtain ⟨a, b⟩ := p
    have hends : ends ((a, b) :: pairs) = a :: b :: ends pairs := rfl
    rw [hends, List.nodup_cons, List.nodup_cons, List.mem_cons, not_or] at h
    obtain ⟨⟨hab, ha⟩, hb, hrest⟩ := h
    have hcons : partner? ((a, b) :: pairs) i =
        if a = i then some b else if b = i then some a else partner? pairs i := by
      rw [partner?, List.findSome?_cons]
      by_cases hai : a = i
      · simp [hai]
      · by_cases hbi : b = i <;> simp [hai, hbi, partner?]
    have hout (x y : Nat) (hxy : (x, y) ∈ pairs) : x ≠ a ∧ x ≠ b ∧ y ≠ a ∧ y ≠ b := by
      obtain ⟨hx, hy⟩ := mem_ends hxy
      exact ⟨ne_of_mem_of_not_mem hx ha, ne_of_mem_of_not_mem hx hb, ne_of_mem_of_not_mem hy ha,
        ne_of_mem_of_not_mem hy hb⟩
    rw [hcons, List.mem_cons, List.mem_cons, Prod.mk.injEq, Prod.mk.injEq]
    by_cases hai : a = i
    · rw [if_pos hai, Option.some_inj]
      grind
    · rw [if_neg hai]
      by_cases hbi : b = i
      · rw [if_pos hbi, Option.some_inj]
        grind
      · rw [if_neg hbi, ih hrest]
        grind

end Partners

/-- Code whose brackets nest. -/
inductive WellNested : List String → Prop
  | nil : WellNested []
  | plain {t : String} {ts : List String} (ht : ∀ k : Bracket, t ≠ k.opener ∧ t ≠ k.closer)
      (h : WellNested ts) : WellNested (t :: ts)
  | bracket (k : Bracket) {inner rest : List String} (hinner : WellNested inner)
      (hrest : WellNested rest) : WellNested (k.opener :: (inner ++ k.closer :: rest))

/-- The brackets at `a` and `b` are of one kind and hold nested code between them. -/
def Frames (texts : List String) (a b : Nat) : Prop :=
  ∃ (k : Bracket) (before inner after : List String),
    texts = before ++ k.opener :: (inner ++ k.closer :: after) ∧ WellNested inner ∧
      a = before.length ∧ b = before.length + 1 + inner.length

section Nesting
variable {i : Nat} {opened : List (Nat × String)} {texts : List String}

theorem pairsFrom_opener (k : Bracket) (i : Nat) (opened : List (Nat × String))
    (ts : List String) : pairsFrom i opened (k.opener :: ts) =
      pairsFrom (i + 1) ((i, k.opener) :: opened) ts := by
  rw [pairsFrom, if_pos (Bracket.isOpener_iff.2 ⟨k, rfl⟩)]

theorem pairsFrom_closer (k : Bracket) (i j : Nat) (opened : List (Nat × String))
    (ts : List String) : pairsFrom i ((j, k.opener) :: opened) (k.closer :: ts) =
      (j, i) :: pairsFrom (i + 1) opened ts := by
  have hopener : ¬ isOpener k.closer = true := by
    intro h
    obtain ⟨k', hk⟩ := Bracket.isOpener_iff.1 h
    exact Bracket.opener_ne_closer k' k hk.symm
  have htake : takeOpen k.opener ((j, k.opener) :: opened) = some (j, opened) := by
    rw [takeOpen, if_pos rfl]
  rw [pairsFrom, if_neg hopener, taken_iff.2 ⟨k, rfl, htake⟩]

theorem pairsFrom_plain {t : String} (ht : ∀ k : Bracket, t ≠ k.opener ∧ t ≠ k.closer) (i : Nat)
    (opened : List (Nat × String)) (ts : List String) :
    pairsFrom i opened (t :: ts) = pairsFrom (i + 1) opened ts := by
  have hopener : ¬ isOpener t = true := by
    intro h
    obtain ⟨k, hk⟩ := Bracket.isOpener_iff.1 h
    exact (ht k).1 hk
  have hnone : (openerOf? t).bind (takeOpen · opened) = none := by
    rw [Option.eq_none_iff_forall_ne_some]
    intro found hfound
    obtain ⟨k, hk, _⟩ := taken_iff.1 hfound
    exact (ht k).2 hk
  rw [pairsFrom, if_neg hopener, hnone]

theorem exists_pairsFrom_append (before rest : List String) (i : Nat)
    (opened : List (Nat × String)) : ∃ ps opened', pairsFrom i opened (before ++ rest) =
      ps ++ pairsFrom (i + before.length) opened' rest := by
  induction before generalizing i opened with
  | nil => exact ⟨[], opened, rfl⟩
  | cons t ts ih =>
    have hlength : i + (t :: ts).length = i + 1 + ts.length := by
      rw [List.length_cons]
      omega
    rw [hlength, List.cons_append, pairsFrom]
    split
    · exact ih _ _
    · split
      · rename_i j left _
        obtain ⟨ps, opened', hrest⟩ := ih (i + 1) left
        exact ⟨(j, i) :: ps, opened', by rw [hrest, List.cons_append]⟩
      · exact ih _ _

/-- Nested code leaves what was open before it as it was. -/
theorem WellNested.exists_pairsFrom {inner : List String} (h : WellNested inner) (i : Nat)
    (opened : List (Nat × String)) (rest : List String) :
    ∃ ps, pairsFrom i opened (inner ++ rest) =
      ps ++ pairsFrom (i + inner.length) opened rest := by
  induction h generalizing i opened rest with
  | nil => exact ⟨[], rfl⟩
  | @plain t ts ht _ ih =>
    obtain ⟨ps, hps⟩ := ih (i + 1) opened rest
    refine ⟨ps, ?_⟩
    rw [List.cons_append, pairsFrom_plain ht, hps, List.length_cons, Nat.add_assoc, Nat.add_comm 1]
  | @bracket k inner later _ _ ihInner ihLater =>
    obtain ⟨ps, hps⟩ := ihInner (i + 1) ((i, k.opener) :: opened) (k.closer :: (later ++ rest))
    obtain ⟨qs, hqs⟩ := ihLater (i + 1 + inner.length + 1) opened rest
    refine ⟨ps ++ (i, i + 1 + inner.length) :: qs, ?_⟩
    have hlength : i + (k.opener :: (inner ++ k.closer :: later)).length =
        i + 1 + inner.length + 1 + later.length := by
      simp only [List.length_cons, List.length_append]
      omega
    rw [hlength, List.cons_append, List.append_assoc, List.cons_append, pairsFrom_opener, hps,
      pairsFrom_closer, hqs, List.append_assoc, List.cons_append]

theorem Frames.mem_bracketPairs {a b : Nat} (h : Frames texts a b) :
    (a, b) ∈ bracketPairs texts := by
  obtain ⟨k, before, inner, after, rfl, hinner, rfl, rfl⟩ := h
  obtain ⟨ps, opened, hbefore⟩ :=
    exists_pairsFrom_append before (k.opener :: (inner ++ k.closer :: after)) 0 []
  obtain ⟨qs, hqs⟩ := hinner.exists_pairsFrom (before.length + 1)
    ((before.length, k.opener) :: opened) (k.closer :: after)
  rw [bracketPairs, hbefore, Nat.zero_add, pairsFrom_opener, hqs, pairsFrom_closer]
  simp

theorem Frames.within {a b : Nat} (h : Frames texts a b) (front back : List String) :
    Frames (front ++ (texts ++ back)) (front.length + a) (front.length + b) := by
  obtain ⟨k, before, inner, after, rfl, hinner, rfl, rfl⟩ := h
  refine ⟨k, front ++ before, inner, after ++ back, by simp, hinner, by simp, ?_⟩
  rw [List.length_append]
  omega

def Framed (texts : List String) (i : Nat) : Prop := ∃ j, Frames texts i j ∨ Frames texts j i

theorem Framed.within (h : Framed texts i) (front back : List String) :
    Framed (front ++ (texts ++ back)) (front.length + i) := by
  obtain ⟨j, hj⟩ := h
  exact ⟨front.length + j, hj.imp (·.within front back) (·.within front back)⟩

theorem WellNested.framed (h : WellNested texts) {k : Bracket}
    (hi : texts[i]? = some k.opener ∨ texts[i]? = some k.closer) : Framed texts i := by
  induction h generalizing i with
  | nil => simp at hi
  | @plain t ts ht _ ih =>
    cases i with
    | zero =>
      rw [List.getElem?_cons_zero, Option.some_inj, Option.some_inj] at hi
      exact (hi.elim (ht k).1 (ht k).2).elim
    | succ i =>
      rw [List.getElem?_cons_succ] at hi
      have hframed := (ih hi).within [t] []
      rwa [List.append_nil, List.length_singleton, Nat.add_comm] at hframed
  | @bracket k' inner later hinner _ ihInner ihLater =>
    have hframes : Frames (k'.opener :: (inner ++ k'.closer :: later)) 0 (inner.length + 1) :=
      ⟨k', [], inner, later, rfl, hinner, rfl, by rw [List.length_nil]; omega⟩
    cases i with
    | zero => exact ⟨_, .inl hframes⟩
    | succ i =>
      rw [List.getElem?_cons_succ] at hi
      by_cases hlt : i < inner.length
      · rw [List.getElem?_append_left hlt] at hi
        have hframed := (ihInner hi).within [k'.opener] (k'.closer :: later)
        rwa [List.length_singleton, Nat.add_comm] at hframed
      · obtain ⟨d, rfl⟩ := Nat.exists_eq_add_of_le (Nat.le_of_not_lt hlt)
        rw [List.getElem?_append_right (Nat.le_add_right _ _), Nat.add_sub_cancel_left] at hi
        cases d with
        | zero => exact ⟨0, .inr hframes⟩
        | succ d =>
          rw [List.getElem?_cons_succ] at hi
          have hframed := (ihLater hi).within (k'.opener :: (inner ++ [k'.closer])) []
          have htexts : k'.opener :: (inner ++ [k'.closer]) ++ (later ++ []) =
              k'.opener :: (inner ++ k'.closer :: later) := by simp
          have hplace : (k'.opener :: (inner ++ [k'.closer])).length + d =
              inner.length + (d + 1) + 1 := by
            simp only [List.length_cons, List.length_append, List.length_nil]
            omega
          rwa [htexts, hplace] at hframed

end Nesting

section Links
variable (s : Sketch)

def brackets : List (Nat × Nat) := bracketPairs (s.layout.placed.map Placed.text)

def laidTexts : List String := s.layout.placed.map Placed.text

def link? (i : Nat) : Option Nat := partner? s.brackets i

/-- What links between the brackets of a list of texts have to be. -/
structure LinkedByKind (texts : List String) (link : Nat → Option Nat) : Prop where
  /-- A link goes both ways, from an opening bracket to a later closing one of its kind. -/
  pairs : ∀ i j, link i = some j → link j = some i ∧ ∃ k : Bracket,
    i < j ∧ texts[i]? = some k.opener ∧ texts[j]? = some k.closer ∨
      j < i ∧ texts[j]? = some k.opener ∧ texts[i]? = some k.closer
  /-- No two words are linked to one. -/
  single : ∀ i i' j, link i = some j → link i' = some j → i = i'
  /-- A kind is linked as if there were no other words. -/
  byKind : ∀ (k : Bracket) (i j : Nat),
    link i = some j ∧ texts[i]? = some k.opener ↔ (i, j) ∈ k.matching texts
  /-- Brackets around nested code are linked to each other. -/
  frames : ∀ i j, Frames texts i j → link i = some j
  nested : WellNested texts → ∀ (k : Bracket) (i : Nat),
    texts[i]? = some k.opener ∨ texts[i]? = some k.closer →
      ∃ j, link i = some j ∧ (Frames texts i j ∨ Frames texts j i)

theorem links_told : (Load.tokensIn (s.configuration s.layout).element).map
    (fun el => el.attribute? "link") =
      s.layout.placed.zipIdx.map fun p => (s.link? p.2).map tokenId := by
  rw [tokensIn_configuration, List.map_map]
  refine List.map_congr_left fun p _ => ?_
  obtain ⟨_, _, _, _, _, _, _, _, hlink, _⟩ := token_attributes s s.brackets p.1 p.2 rfl
  exact hlink

theorem link?_eq_some_iff {i j : Nat} :
    s.link? i = some j ↔ (i, j) ∈ bracketPairs s.laidTexts ∨ (j, i) ∈ bracketPairs s.laidTexts :=
  partner?_eq_some_iff (paired_bracketPairs s.laidTexts).nodup

/-- Brackets are linked kind by kind, and the tokens of the dump carry these links. -/
theorem links_matchByKind : LinkedByKind s.laidTexts s.link? ∧
    (Load.tokensIn (s.configuration s.layout).element).map (fun el => el.attribute? "link") =
      s.layout.placed.zipIdx.map fun p => (s.link? p.2).map tokenId := by
  have hkinds := (paired_bracketPairs s.laidTexts).kinds
  have hsymm {i j : Nat} (h : s.link? i = some j) : s.link? j = some i :=
    s.link?_eq_some_iff.2 (s.link?_eq_some_iff.1 h).symm
  have hframes {i j : Nat} (h : Frames s.laidTexts i j) : s.link? i = some j :=
    s.link?_eq_some_iff.2 (.inl h.mem_bracketPairs)
  refine ⟨⟨fun i j h => ⟨hsymm h, ?_⟩, fun i i' j h h' => ?_, fun k i j => ?_,
    fun i j h => hframes h, fun hnested k i hi => ?_⟩, s.links_told⟩
  · cases s.link?_eq_some_iff.1 h with
    | inl hmem =>
      obtain ⟨hlt, k, hopener, hcloser⟩ := hkinds _ hmem
      exact ⟨k, .inl ⟨hlt, hopener, hcloser⟩⟩
    | inr hmem =>
      obtain ⟨hlt, k, hopener, hcloser⟩ := hkinds _ hmem
      exact ⟨k, .inr ⟨hlt, hopener, hcloser⟩⟩
  · exact Option.some.inj ((hsymm h).symm.trans (hsymm h'))
  · rw [mem_matching_iff, link?_eq_some_iff]
    refine and_congr_left fun hopener => or_iff_left fun hmem => ?_
    obtain ⟨_, k', _, hcloser⟩ := hkinds _ hmem
    exact Bracket.opener_ne_closer k k' (Option.some.inj (hopener.symm.trans hcloser))
  · obtain ⟨j, hj⟩ := hnested.framed hi
    exact ⟨j, hj.elim hframes fun h => hsymm (hframes h), hj⟩

/- Crossing brackets keep their partners, and a bracket without one takes no other kind's. -/
example : bracketPairs ["(", "[", "]", ")", "[", "(", "\x7b", "]", ")", "]"] =
    [(1, 2), (0, 3), (4, 7), (5, 8)] := by decide

end Links

end SpaceAudit.Sketch
