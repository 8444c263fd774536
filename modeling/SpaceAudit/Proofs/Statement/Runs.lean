import Mathlib.Data.List.Basic
import SpaceAudit.Statement.Index

/-! The index of statements keeps the positions of the boundaries and nothing else of the stream.
What it answers about a position, and the statements it lists, are what scanning the stream token by
token finds. -/
namespace SpaceAudit

theorem Span.contains_iff {s : Span} {i : Nat} :
    s.contains i = true ↔ s.start ≤ i ∧ i < s.stop := by
  simp [Span.contains]

namespace Statements

def boundaryAt (texts : List String) (i : Nat) : Bool := texts[i]?.any isBoundary

/-- Goes backward from the token before `t`, up to the nearest boundary or the start. -/
def walkBack (texts : List String) : Nat → Nat
  | 0 => 0
  | t + 1 => if boundaryAt texts t then t + 1 else walkBack texts t

/-- Goes forward from `t`, up to the nearest boundary or the end. -/
def walkOn (texts : List String) (t : Nat) : Nat := t + (texts.drop t).findIdx isBoundary

/-- A span without a boundary that holds a token and cannot be made longer on either side. -/
structure IsRun (texts : List String) (s : Span) : Prop where
  nonempty : s.start < s.stop
  within : s.stop ≤ texts.length
  clear : ∀ i, s.start ≤ i → i < s.stop → boundaryAt texts i = false
  opens : s.start = 0 ∨ boundaryAt texts (s.start - 1) = true
  closes : s.stop = texts.length ∨ boundaryAt texts s.stop = true

theorem lt_of_boundaryAt {texts : List String} {i : Nat} (h : boundaryAt texts i = true) :
    i < texts.length := by
  by_contra hi
  rw [boundaryAt, List.getElem?_eq_none (Nat.le_of_not_lt hi)] at h
  simp at h

section Boundaries

@[simp] theorem boundaryAt_cons_zero (text : String) (texts : List String) :
    boundaryAt (text :: texts) 0 = isBoundary text := rfl

@[simp] theorem boundaryAt_cons_succ (text : String) (texts : List String) (i : Nat) :
    boundaryAt (text :: texts) (i + 1) = boundaryAt texts i := rfl

theorem mem_boundariesFrom_iff {i b : Nat} {texts : List String} :
    b ∈ boundariesFrom i texts ↔ ∃ k, b = i + k ∧ boundaryAt texts k = true := by
  induction texts generalizing i with
  | nil => simp [boundariesFrom, boundaryAt]
  | cons text texts ih =>
    have hstep : (∃ k, b = i + k ∧ boundaryAt (text :: texts) k = true) ↔
        (b = i ∧ isBoundary text = true) ∨ ∃ k, b = i + 1 + k ∧ boundaryAt texts k = true := by
      constructor
      · rintro ⟨k, hb, hk⟩
        cases k with
        | zero => exact .inl ⟨hb, hk⟩
        | succ k => exact .inr ⟨k, by omega, hk⟩
      · rintro (⟨hb, htext⟩ | ⟨k, hb, hk⟩)
        · exact ⟨0, hb, htext⟩
        · exact ⟨k + 1, by omega, hk⟩
    rw [hstep, ← ih]
    by_cases htext : isBoundary text = true
    · simp [boundariesFrom, htext]
    · simp [boundariesFrom, htext]

theorem mem_boundaries {texts : List String} {b : Nat} :
    b ∈ (ofTexts texts).boundaries ↔ boundaryAt texts b = true := by
  simp [ofTexts, mem_boundariesFrom_iff]

theorem boundariesFrom_increasing (i : Nat) (texts : List String) :
    (boundariesFrom i texts).Pairwise (· < ·) := by
  induction texts generalizing i with
  | nil => exact .nil
  | cons text texts ih =>
    unfold boundariesFrom
    split
    · refine List.pairwise_cons.2 ⟨fun b hb => ?_, ih (i + 1)⟩
      obtain ⟨k, rfl, _⟩ := mem_boundariesFrom_iff.1 hb
      omega
    · exact ih (i + 1)

theorem boundaries_increasing (texts : List String) :
    (ofTexts texts).boundaries.Pairwise (· < ·) := boundariesFrom_increasing 0 texts

end Boundaries

section Search
variable {s : Statements} {t : Nat}

theorem le_of_mem_increasing {b : Nat} {bs : List Nat} (h : (b :: bs).Pairwise (· < ·))
    (hle : t ≤ b) : ∀ c ∈ b :: bs, t ≤ c := by
  intro c hc
  rcases List.mem_cons.1 hc with rfl | hc
  · exact hle
  · exact Nat.le_of_lt (Nat.lt_of_le_of_lt hle ((List.pairwise_cons.1 h).1 c hc))

theorem takeWhile_lt_eq_filter {bs : List Nat} (h : bs.Pairwise (· < ·)) (t : Nat) :
    bs.takeWhile (· < t) = bs.filter (· < t) := by
  induction bs with
  | nil => rfl
  | cons b bs ih =>
    have hbs := (List.pairwise_cons.1 h).2
    by_cases hlt : b < t
    · simp [hlt, ih hbs]
    · have hnone := le_of_mem_increasing h (Nat.le_of_not_lt hlt)
      rw [List.takeWhile_cons_of_neg (by simpa using hlt),
        List.filter_eq_nil_iff.2 (by simpa using hnone)]

theorem startBefore_cases (h : s.boundaries.Pairwise (· < ·)) (t : Nat) :
    (∀ b ∈ s.boundaries, b < t → b < s.startBefore t) ∧
      (s.startBefore t = 0 ∨ ∃ b ∈ s.boundaries, b < t ∧ s.startBefore t = b + 1) := by
  unfold startBefore
  rw [takeWhile_lt_eq_filter h]
  split
  · rename_i hlast
    rw [List.getLast?_eq_none_iff, List.filter_eq_nil_iff] at hlast
    exact ⟨fun b hb hlt => absurd hlt (by simpa using hlast b hb), .inl rfl⟩
  · rename_i last hlast
    obtain ⟨front, hfront⟩ := List.getLast?_eq_some_iff.1 hlast
    have hmem (b : Nat) : b ∈ front ++ [last] ↔ b ∈ s.boundaries ∧ b < t := by
      rw [← hfront]
      simp
    have hsorted : (front ++ [last]).Pairwise (· < ·) := hfront ▸ h.filter _
    refine ⟨fun b hb hlt => ?_, .inr ⟨last, ?_⟩⟩
    · rcases List.mem_append.1 ((hmem b).2 ⟨hb, hlt⟩) with hb' | hb'
      · exact Nat.lt_succ_of_lt ((List.pairwise_append.1 hsorted).2.2 b hb' last (by simp))
      · rw [List.mem_singleton] at hb'
        omega
    · have hl := (hmem last).1 (by simp)
      exact ⟨hl.1, hl.2, rfl⟩

theorem dropWhile_lt_eq_filter {bs : List Nat} (h : bs.Pairwise (· < ·)) (t : Nat) :
    bs.dropWhile (· < t) = bs.filter (t ≤ ·) := by
  induction bs with
  | nil => rfl
  | cons b bs ih =>
    have hbs := (List.pairwise_cons.1 h).2
    by_cases hlt : b < t
    · simp [hlt, ih hbs]
    · have hall := le_of_mem_increasing h (Nat.le_of_not_lt hlt)
      rw [List.dropWhile_cons_of_neg (by simpa using hlt),
        List.filter_eq_self.2 (by simpa using hall)]

theorem stopFrom_cases (h : s.boundaries.Pairwise (· < ·)) (t : Nat) :
    (∀ b ∈ s.boundaries, t ≤ b → s.stopFrom t ≤ b) ∧
      (s.stopFrom t = s.length ∨ s.stopFrom t ∈ s.boundaries ∧ t ≤ s.stopFrom t) := by
  unfold stopFrom
  rw [dropWhile_lt_eq_filter h]
  split
  · rename_i hrest
    rw [List.filter_eq_nil_iff] at hrest
    exact ⟨fun b hb hle => absurd hle (by simpa using hrest b hb), .inl rfl⟩
  · rename_i first rest hrest
    have hmem (b : Nat) : b ∈ first :: rest ↔ b ∈ s.boundaries ∧ t ≤ b := by
      rw [← hrest]
      simp
    have hsorted : (first :: rest).Pairwise (· < ·) := hrest ▸ h.filter _
    refine ⟨fun b hb hle => ?_, .inr ((hmem first).1 (by simp))⟩
    rcases List.mem_cons.1 ((hmem b).2 ⟨hb, hle⟩) with rfl | hb'
    · exact Nat.le_refl _
    · exact Nat.le_of_lt ((List.pairwise_cons.1 hsorted).1 b hb')

end Search

section Walks
variable {texts : List String} {t : Nat}

/-- A walk backward from `t` can end at `k`, and nowhere else. -/
structure BeginsAt (texts : List String) (t k : Nat) : Prop where
  le : k ≤ t
  clear : ∀ i, k ≤ i → i < t → boundaryAt texts i = false
  opens : k = 0 ∨ boundaryAt texts (k - 1) = true

/-- A walk forward from `t` can end at `k`, and nowhere else. -/
structure EndsAt (texts : List String) (t k : Nat) : Prop where
  le : t ≤ k
  within : k ≤ texts.length
  clear : ∀ i, t ≤ i → i < k → boundaryAt texts i = false
  closes : k = texts.length ∨ boundaryAt texts k = true

/-- An earlier end would have passed the boundary that the later one stopped at. -/
theorem BeginsAt.le_of_beginsAt {k l : Nat} (hk : BeginsAt texts t k) (hl : BeginsAt texts t l) :
    l ≤ k := by
  rcases hl.opens with h0 | hb
  · omega
  · by_contra hlt
    have hle := hl.le
    have hclear := hk.clear (l - 1) (by omega) (by omega)
    rw [hclear] at hb
    cases hb

theorem BeginsAt.unique {k l : Nat} (hk : BeginsAt texts t k) (hl : BeginsAt texts t l) : k = l :=
  Nat.le_antisymm (hl.le_of_beginsAt hk) (hk.le_of_beginsAt hl)

theorem EndsAt.le_of_endsAt {k l : Nat} (hk : EndsAt texts t k) (hl : EndsAt texts t l) :
    l ≤ k := by
  rcases hk.closes with hlen | hb
  · rw [hlen]
    exact hl.within
  · by_contra hlt
    have hclear := hl.clear k hk.le (by omega)
    rw [hclear] at hb
    cases hb

theorem EndsAt.unique {k l : Nat} (hk : EndsAt texts t k) (hl : EndsAt texts t l) : k = l :=
  Nat.le_antisymm (hl.le_of_endsAt hk) (hk.le_of_endsAt hl)

theorem walkBack_beginsAt (texts : List String) (t : Nat) :
    BeginsAt texts t (walkBack texts t) := by
  induction t with
  | zero => exact ⟨Nat.le_refl 0, fun i _ hi => absurd hi (Nat.not_lt_zero i), .inl rfl⟩
  | succ t ih =>
    unfold walkBack
    split
    · rename_i hb
      exact ⟨Nat.le_refl _, fun i hle hlt => by omega, .inr hb⟩
    · rename_i hb
      refine ⟨Nat.le_succ_of_le ih.le, fun i hle hlt => ?_, ih.opens⟩
      rcases Nat.lt_succ_iff_lt_or_eq.1 hlt with hlt | rfl
      · exact ih.clear i hle hlt
      · simpa using hb

theorem startBefore_beginsAt (texts : List String) (t : Nat) :
    BeginsAt texts t ((ofTexts texts).startBefore t) := by
  obtain ⟨hclear, hopens⟩ := startBefore_cases (boundaries_increasing texts) t
  refine ⟨?_, fun i hle hlt => ?_, ?_⟩
  · rcases hopens with h0 | ⟨b, _, hb, heq⟩ <;> omega
  · by_contra hb
    have := hclear i (mem_boundaries.2 (by simpa using hb)) hlt
    omega
  · rcases hopens with h0 | ⟨b, hmem, _, heq⟩
    · exact .inl h0
    · rw [heq]
      exact .inr (mem_boundaries.1 hmem)

theorem boundaryAt_drop (texts : List String) (t i : Nat) :
    boundaryAt (texts.drop t) i = boundaryAt texts (t + i) := by
  rw [boundaryAt, boundaryAt, List.getElem?_drop]

theorem walkOn_endsAt (ht : t ≤ texts.length) : EndsAt texts t (walkOn texts t) := by
  have hlen : (texts.drop t).findIdx isBoundary ≤ (texts.drop t).length :=
    List.findIdx_le_length
  rw [List.length_drop] at hlen
  refine ⟨Nat.le_add_right t _, by rw [walkOn]; omega, fun i hle hlt => ?_, ?_⟩
  · have hi : i - t < (texts.drop t).findIdx isBoundary := by
      rw [walkOn] at hlt
      omega
    have hnot := List.not_of_lt_findIdx hi
    rw [← Nat.add_sub_of_le hle, ← boundaryAt_drop, boundaryAt,
      List.getElem?_eq_getElem (by rw [List.length_drop]; omega)]
    simpa using hnot
  · rcases Nat.lt_or_eq_of_le hlen with hlt | heq
    · have hin : (texts.drop t).findIdx isBoundary < (texts.drop t).length := by
        rwa [List.length_drop]
      right
      rw [walkOn, ← boundaryAt_drop, boundaryAt, List.getElem?_eq_getElem hin]
      exact List.findIdx_getElem (w := hin)
    · left
      rw [walkOn]
      omega

theorem stopFrom_endsAt (ht : t ≤ texts.length) :
    EndsAt texts t ((ofTexts texts).stopFrom t) := by
  obtain ⟨hfirst, hcloses⟩ := stopFrom_cases (boundaries_increasing texts) t
  have hlength : (ofTexts texts).length = texts.length := rfl
  refine ⟨?_, ?_, fun i hle hlt => ?_, ?_⟩
  · rcases hcloses with heq | ⟨_, hle⟩ <;> omega
  · rcases hcloses with heq | ⟨hmem, _⟩
    · omega
    · exact Nat.le_of_lt (lt_of_boundaryAt (mem_boundaries.1 hmem))
  · by_contra hb
    have := hfirst i (mem_boundaries.2 (by simpa using hb)) hle
    omega
  · rcases hcloses with heq | ⟨hmem, _⟩
    · exact .inl heq
    · exact .inr (mem_boundaries.1 hmem)

end Walks

section Spans
variable {length start : Nat} {bs : List Nat} {s : Span}

/-- What `spansFrom` lists: the spans between neighbours of `start`, the positions `bs` and
`length`. -/
structure Gap (length start : Nat) (bs : List Nat) (s : Span) : Prop where
  nonempty : s.start < s.stop
  within : start ≤ s.start ∧ s.stop ≤ length
  clear : ∀ b ∈ bs, b < s.start ∨ s.stop ≤ b
  opens : s.start = start ∨ ∃ b ∈ bs, s.start = b + 1
  closes : s.stop = length ∨ s.stop ∈ bs

theorem gap_nil :
    Gap length start [] s ↔ start ≠ length ∧ start ≤ length ∧ s = ⟨start, length⟩ := by
  obtain ⟨first, last⟩ := s
  constructor
  · intro h
    have h1 := h.nonempty
    have h2 : first = start := by simpa using h.opens
    have h3 : last = length := by simpa using h.closes
    dsimp only at h1
    refine ⟨by omega, by omega, by rw [h2, h3]⟩
  · rintro ⟨hne, hle, heq⟩
    obtain ⟨rfl, rfl⟩ := Span.mk.inj heq
    exact ⟨by dsimp only; omega, ⟨Nat.le_refl _, Nat.le_refl _⟩, by simp, .inl rfl, .inl rfl⟩

/-- The next position closes the gap that `start` opened, if that holds a token; the others lie
behind it. -/
theorem gap_cons {b : Nat} (hb : start ≤ b) (hlen : b < length)
    (hbs : ∀ c ∈ bs, b < c) :
    Gap length start (b :: bs) s ↔
      (start ≠ b ∧ s = ⟨start, b⟩) ∨ Gap length (b + 1) bs s := by
  obtain ⟨first, last⟩ := s
  constructor
  · intro h
    obtain ⟨hne, ⟨hfrom, hto⟩, hclear, hopens, hcloses⟩ := h
    dsimp only at *
    rcases hclear b (by simp) with hlt | hle
    · refine .inr ⟨hne, ⟨hlt, hto⟩, fun c hc => hclear c (by simp [hc]), ?_, ?_⟩
      · rcases hopens with heq | ⟨c, hc, heq⟩
        · omega
        · rcases List.mem_cons.1 hc with rfl | hc
          · exact .inl heq
          · exact .inr ⟨c, hc, heq⟩
      · rcases hcloses with heq | hmem
        · exact .inl heq
        · rcases List.mem_cons.1 hmem with heq | hmem
          · omega
          · exact .inr hmem
    · have hstart : first = start := by
        rcases hopens with heq | ⟨c, hc, heq⟩
        · exact heq
        · rcases List.mem_cons.1 hc with rfl | hc
          · omega
          · have := hbs c hc
            omega
      have hstop : last = b := by
        rcases hcloses with heq | hmem
        · omega
        · rcases List.mem_cons.1 hmem with heq | hmem
          · exact heq
          · have := hbs last hmem
            omega
      exact .inl ⟨by omega, by rw [hstart, hstop]⟩
  · rintro (⟨hne, heq⟩ | ⟨hne, ⟨hfrom, hto⟩, hclear, hopens, hcloses⟩)
    · obtain ⟨rfl, rfl⟩ := Span.mk.inj heq
      refine ⟨by dsimp only; omega, ⟨Nat.le_refl _, Nat.le_of_lt hlen⟩, fun c hc => ?_, .inl rfl,
        .inr (by simp)⟩
      rcases List.mem_cons.1 hc with rfl | hc
      · exact .inr (Nat.le_refl _)
      · exact .inr (Nat.le_of_lt (hbs c hc))
    · dsimp only at *
      refine ⟨hne, ⟨by dsimp only; omega, hto⟩, fun c hc => ?_, ?_, ?_⟩
      · rcases List.mem_cons.1 hc with rfl | hc
        · exact .inl hfrom
        · exact hclear c hc
      · rcases hopens with heq | ⟨c, hc, heq⟩
        · exact .inr ⟨b, by simp, heq⟩
        · exact .inr ⟨c, by simp [hc], heq⟩
      · rcases hcloses with heq | hmem
        · exact .inl heq
        · exact .inr (List.mem_cons_of_mem _ hmem)

theorem mem_spansFrom_iff (hbs : bs.Pairwise (· < ·)) (hin : ∀ b ∈ bs, start ≤ b ∧ b < length)
    (hle : start ≤ length) : s ∈ spansFrom length start bs ↔ Gap length start bs s := by
  induction bs generalizing start with
  | nil =>
    rw [gap_nil, spansFrom]
    by_cases heq : start = length
    · simp [heq]
    · simp [heq, hle]
  | cons b bs ih =>
    obtain ⟨hb, hbs⟩ := List.pairwise_cons.1 hbs
    obtain ⟨hstart, hlen⟩ := hin b (by simp)
    have hrest : s ∈ spansFrom length (b + 1) bs ↔ Gap length (b + 1) bs s :=
      ih hbs (fun c hc => ⟨hb c hc, (hin c (by simp [hc])).2⟩) hlen
    rw [gap_cons hstart hlen hb, ← hrest, spansFrom]
    by_cases heq : start = b
    · simp [heq]
    · simp [heq]

theorem spansFrom_increasing (hbs : bs.Pairwise (· < ·))
    (hin : ∀ b ∈ bs, start ≤ b ∧ b < length) :
    (spansFrom length start bs).Pairwise fun a b => a.stop < b.start := by
  induction bs generalizing start with
  | nil =>
    unfold spansFrom
    split <;> simp
  | cons b bs ih =>
    obtain ⟨hb, hbs⟩ := List.pairwise_cons.1 hbs
    have hlen := (hin b (by simp)).2
    have hlater : ∀ c ∈ bs, b + 1 ≤ c ∧ c < length := fun c hc =>
      ⟨hb c hc, (hin c (by simp [hc])).2⟩
    unfold spansFrom
    split
    · exact ih hbs hlater
    · refine List.pairwise_cons.2 ⟨fun s hs => ?_, ih hbs hlater⟩
      exact ((mem_spansFrom_iff hbs hlater hlen).1 hs).within.1

end Spans

section Runs
variable {texts : List String} {s : Span} {t : Nat}

theorem isRun_iff_gap :
    IsRun texts s ↔ Gap texts.length 0 (ofTexts texts).boundaries s := by
  constructor
  · intro h
    refine ⟨h.nonempty, ⟨Nat.zero_le _, h.within⟩, fun b hb => ?_, ?_, ?_⟩
    · by_contra hout
      rw [not_or, Nat.not_lt, Nat.not_le] at hout
      have hclear := h.clear b hout.1 hout.2
      rw [mem_boundaries.1 hb] at hclear
      cases hclear
    · rcases h.opens with h0 | hb
      · exact .inl h0
      · rcases Nat.eq_zero_or_pos s.start with h0 | hpos
        · exact .inl h0
        · exact .inr ⟨s.start - 1, mem_boundaries.2 hb, by omega⟩
    · exact h.closes.imp_right mem_boundaries.2
  · intro h
    refine ⟨h.nonempty, h.within.2, fun i hle hlt => ?_, ?_, h.closes.imp_right mem_boundaries.1⟩
    · by_contra hb
      have hout := h.clear i (mem_boundaries.2 (by simpa using hb))
      omega
    · rcases h.opens with h0 | ⟨b, hb, heq⟩
      · exact .inl h0
      · right
        rw [heq]
        exact mem_boundaries.1 hb

theorem mem_spans_iff : s ∈ (ofTexts texts).spans ↔ IsRun texts s := by
  rw [isRun_iff_gap]
  refine mem_spansFrom_iff (boundaries_increasing texts) (fun b hb => ?_) (Nat.zero_le _)
  exact ⟨Nat.zero_le b, lt_of_boundaryAt (mem_boundaries.1 hb)⟩

theorem spans_increasing (texts : List String) :
    (ofTexts texts).spans.Pairwise fun a b => a.stop < b.start :=
  spansFrom_increasing (boundaries_increasing texts) fun b hb =>
    ⟨Nat.zero_le b, lt_of_boundaryAt (mem_boundaries.1 hb)⟩

theorem IsRun.beginsAt (h : IsRun texts s) (ht : s.contains t = true) :
    BeginsAt texts t s.start := by
  rw [Span.contains_iff] at ht
  exact ⟨ht.1, fun i hle hlt => h.clear i hle (by omega), h.opens⟩

theorem IsRun.endsAt (h : IsRun texts s) (ht : s.contains t = true) : EndsAt texts t s.stop := by
  rw [Span.contains_iff] at ht
  exact ⟨Nat.le_of_lt ht.2, h.within, fun i hle hlt => h.clear i (by omega) hlt, h.closes⟩

theorem IsRun.eq_of_contains {r : Span} (h : IsRun texts s) (h' : IsRun texts r)
    (ht : s.contains t = true) (ht' : r.contains t = true) : s = r := by
  obtain ⟨first, last⟩ := s
  have hstart : first = r.start := (h.beginsAt ht).unique (h'.beginsAt ht')
  have hstop : last = r.stop := (h.endsAt ht).unique (h'.endsAt ht')
  rw [hstart, hstop]

theorem isRun_of_walks {k l : Nat} (hk : BeginsAt texts t k) (hl : EndsAt texts t l)
    (ht : t < texts.length) (hb : boundaryAt texts t = false) :
    IsRun texts ⟨k, l⟩ ∧ t < l := by
  have hlt : t < l := by
    rcases Nat.lt_or_eq_of_le hl.le with hlt | rfl
    · exact hlt
    · rcases hl.closes with hlen | hb'
      · omega
      · rw [hb] at hb'
        cases hb'
  refine ⟨⟨Nat.lt_of_le_of_lt hk.le hlt, hl.within, fun i hle hi => ?_, hk.opens, hl.closes⟩, hlt⟩
  rcases Nat.lt_or_ge i t with hit | hti
  · exact hk.clear i hle hit
  · exact hl.clear i hti hi

theorem containing_isRun (ht : t < texts.length) (hb : boundaryAt texts t = false) :
    IsRun texts ((ofTexts texts).containing t) ∧
      ((ofTexts texts).containing t).contains t = true := by
  have hstart := startBefore_beginsAt texts t
  obtain ⟨hrun, hlt⟩ := isRun_of_walks hstart (stopFrom_endsAt (Nat.le_of_lt ht)) ht hb
  exact ⟨hrun, Span.contains_iff.2 ⟨hstart.le, hlt⟩⟩

/-- A token that is no boundary lies in one statement: the one that the index finds for it. -/
theorem mem_spans_and_contains_iff (ht : t < texts.length) (hb : boundaryAt texts t = false) :
    (s ∈ (ofTexts texts).spans ∧ s.contains t = true) ↔ s = (ofTexts texts).containing t := by
  obtain ⟨hrun, hin⟩ := containing_isRun ht hb
  rw [mem_spans_iff]
  constructor
  · rintro ⟨hs, hs'⟩
    exact hs.eq_of_contains hrun hs' hin
  · rintro rfl
    exact ⟨hrun, hin⟩

theorem prefixOf_eq_walk (texts : List String) (t : Nat) :
    (ofTexts texts).prefixOf t = ⟨walkBack texts t, t⟩ := by
  rw [prefixOf, (startBefore_beginsAt texts t).unique (walkBack_beginsAt texts t)]

theorem containing_eq_walks (ht : t ≤ texts.length) :
    (ofTexts texts).containing t = ⟨walkBack texts t, walkOn texts t⟩ := by
  rw [containing, (startBefore_beginsAt texts t).unique (walkBack_beginsAt texts t),
    (stopFrom_endsAt ht).unique (walkOn_endsAt ht)]

end Runs

/-- The index answers as scanning the stream does. It keeps the boundaries, in order. What stands
before a position is what a walk backward goes over, the statement around it what a walk both ways
goes over, and the statements listed are the maximal runs without a boundary: each once, in order,
and each token that is no boundary in one of them. -/
theorem index_agrees_with_scan (texts : List String) :
    ((ofTexts texts).boundaries.Pairwise (· < ·) ∧
        ∀ b, b ∈ (ofTexts texts).boundaries ↔ boundaryAt texts b = true) ∧
      (∀ t ≤ texts.length,
        (ofTexts texts).prefixOf t = ⟨walkBack texts t, t⟩ ∧
          (ofTexts texts).containing t = ⟨walkBack texts t, walkOn texts t⟩) ∧
      (∀ s, s ∈ (ofTexts texts).spans ↔ IsRun texts s) ∧
      ((ofTexts texts).spans.Pairwise fun a b => a.stop < b.start) ∧
      (∀ t < texts.length, boundaryAt texts t = false → ∀ s,
        (s ∈ (ofTexts texts).spans ∧ s.contains t = true) ↔ s = (ofTexts texts).containing t) ∧
      ∀ s ∈ (ofTexts texts).spans, ∀ t, s.contains t = true → boundaryAt texts t = false := by
  refine ⟨⟨boundaries_increasing texts, fun b => mem_boundaries⟩,
    fun t ht => ⟨prefixOf_eq_walk texts t, containing_eq_walks ht⟩, fun s => mem_spans_iff,
    spans_increasing texts, fun t ht hb s => mem_spans_and_contains_iff ht hb, fun s hs t ht => ?_⟩
  rw [Span.contains_iff] at ht
  exact (mem_spans_iff.1 hs).clear t ht.1 ht.2

def sampleTexts : List String := [";", "a", "b", "\x7b", "\x7d", ";", "c"]

/-- The boundary at 3 belongs to the statement it ends. Of two boundaries in a row the second ends
nothing, and the last statement ends with the stream. -/
theorem index_agrees_with_scan_sample :
    (ofTexts sampleTexts).spans = [⟨1, 3⟩, ⟨6, 7⟩] ∧
      IsRun sampleTexts ⟨1, 3⟩ ∧ ¬ IsRun sampleTexts ⟨1, 2⟩ ∧
      (ofTexts sampleTexts).containing 3 = ⟨walkBack sampleTexts 3, walkOn sampleTexts 3⟩ ∧
      walkBack sampleTexts 3 = 1 ∧ walkOn sampleTexts 3 = 3 ∧
      (⟨6, 7⟩ : Span) = (ofTexts sampleTexts).containing 6 ∧ boundaryAt sampleTexts 2 = false := by
  have hspans : (ofTexts sampleTexts).spans = [⟨1, 3⟩, ⟨6, 7⟩] := by decide +kernel
  obtain ⟨_, hwalk, hruns, _, hone, hclear⟩ := index_agrees_with_scan sampleTexts
  refine ⟨hspans, (hruns _).1 (by simp [hspans]), ?_, (hwalk 3 (by decide)).2, by decide +kernel,
    by decide +kernel, ?_, hclear ⟨1, 3⟩ (by simp [hspans]) 2 (by decide)⟩
  · rw [← hruns, hspans]
    decide
  · exact (hone 6 (by decide) (by decide +kernel) _).1 ⟨by simp [hspans], by decide⟩

end Statements

end SpaceAudit
