import Mathlib.Data.List.Forall2
import Mathlib.Data.List.Nodup
import SpaceAudit.Audit.Subject
import SpaceAudit.Proofs.Source.ScopeTree

/-! What an audit goes over and what it collects. Every token lies in the bodies of all scopes around
it; that only its owner may judge it is what makes an audit say things once. -/
namespace SpaceAudit

namespace Ref
variable {n : Nat}

theorem get?_eq_some_iff {r : Ref n} {i : Fin n} : r.get? = some i ↔ r = .resolved i := by
  cases r <;> simp [get?]

theorem require_eq_ok_iff {r : Ref n} {role : Role} {i : Fin n} :
    r.require role = .ok i ↔ r = .resolved i := by
  cases r <;> simp [require]

end Ref

namespace Configuration
variable {c : Configuration}

theorem tokenAt?_eq_some_iff {i : Nat} {t : c.TokenIdx} : c.tokenAt? i = some t ↔ i = t := by
  unfold tokenAt?
  split
  · simp [Fin.ext_iff]
  · simp only [false_iff, reduceCtorEq]
    have := t.isLt
    omega

theorem mem_tokensIn {s : Span} {t : c.TokenIdx} :
    t ∈ c.tokensIn s ↔ s.start ≤ t.val ∧ t.val < s.stop := by
  simp only [tokensIn, Span.positions, Span.length, List.mem_filterMap, List.mem_range'_1,
    tokenAt?_eq_some_iff]
  constructor
  · rintro ⟨i, hi, rfl⟩
    omega
  · intro h
    exact ⟨t.val, by omega, rfl⟩

theorem tokensIn_increasing (s : Span) : (c.tokensIn s).Pairwise (· < ·) := by
  refine List.Pairwise.filterMap c.tokenAt? ?_ (List.pairwise_lt_range' 1)
  intro i j hij t ht u hu
  rw [tokenAt?_eq_some_iff] at ht hu
  rw [Fin.lt_def]
  omega

theorem tokensIn_nodup (s : Span) : (c.tokensIn s).Nodup := (tokensIn_increasing s).imp ne_of_lt

theorem mem_tokensBetween {first last t : c.TokenIdx} :
    t ∈ c.tokensBetween first last ↔ first ≤ t ∧ t ≤ last := by
  rw [tokensBetween, mem_tokensIn, Fin.le_def, Fin.le_def, Nat.lt_succ_iff]

theorem bodyTokens_eq_ok_iff {s : c.ScopeIdx} {ts : List c.TokenIdx} :
    c.bodyTokens s = .ok ts ↔ ∃ first last, (c.scope s).bodyStart = .resolved first ∧
      (c.scope s).bodyEnd = .resolved last ∧ ts = c.tokensBetween first last := by
  unfold bodyTokens
  constructor
  · intro h
    split at h
    · simp at h
    · rename_i first hfirst
      split at h
      · simp at h
      · rename_i last hlast
        rw [Except.ok.injEq] at h
        exact ⟨first, last, Ref.require_eq_ok_iff.1 hfirst, Ref.require_eq_ok_iff.1 hlast, h.symm⟩
  · rintro ⟨first, last, hfirst, hlast, rfl⟩
    simp [Ref.require_eq_ok_iff.2 hfirst, Ref.require_eq_ok_iff.2 hlast]

def bodyOrNone (c : Configuration) (s : c.ScopeIdx) : List c.TokenIdx :=
  (c.bodyTokens s).toOption.getD []

theorem bodyOrNone_eq {s : c.ScopeIdx} {ts : List c.TokenIdx} (h : c.bodyTokens s = .ok ts) :
    c.bodyOrNone s = ts := by
  simp [bodyOrNone, h, Except.toOption]

theorem mem_bodyOrNone {s : c.ScopeIdx} {t : c.TokenIdx} :
    t ∈ c.bodyOrNone s ↔ ∃ first last, (c.scope s).bodyStart = .resolved first ∧
      (c.scope s).bodyEnd = .resolved last ∧ first ≤ t ∧ t ≤ last := by
  constructor
  · intro h
    cases hb : c.bodyTokens s with
    | error e => simp [bodyOrNone, hb, Except.toOption] at h
    | ok ts =>
      rw [bodyOrNone_eq hb] at h
      obtain ⟨first, last, hfirst, hlast, rfl⟩ := bodyTokens_eq_ok_iff.1 hb
      exact ⟨first, last, hfirst, hlast, mem_tokensBetween.1 h⟩
  · rintro ⟨first, last, hfirst, hlast, ht⟩
    rw [bodyOrNone_eq (bodyTokens_eq_ok_iff.2 ⟨first, last, hfirst, hlast, rfl⟩)]
    exact mem_tokensBetween.2 ht

theorem bodyOrNone_nodup (s : c.ScopeIdx) : (c.bodyOrNone s).Nodup := by
  cases hb : c.bodyTokens s with
  | error e => simp [bodyOrNone, hb, Except.toOption]
  | ok ts =>
    obtain ⟨first, last, _, _, rfl⟩ := bodyTokens_eq_ok_iff.1 hb
    rw [bodyOrNone_eq hb]
    exact tokensIn_nodup _

end Configuration

theorem Outcome.collect_eq_ok {α : Type} {part : α → Outcome} {found : α → List Finding}
    {l : List α} {fs : List Finding} (hpart : ∀ a gs, part a = .ok gs → gs = found a)
    (h : Outcome.collect part l = .ok fs) : fs = l.flatMap found := by
  induction l generalizing fs with
  | nil => simpa [collect] using h.symm
  | cons a rest ih =>
    unfold collect at h
    split at h
    · simp at h
    · rename_i gs hgs
      split at h
      · simp at h
      · rename_i more hmore
        rw [Except.ok.injEq] at h
        rw [List.flatMap_cons, ← hpart a gs hgs, ← ih hmore, h]

theorem Outcome.exists_of_collect_eq_ok {α : Type} {part : α → Outcome} {l : List α}
    {fs : List Finding} (h : Outcome.collect part l = .ok fs) :
    ∃ groups, List.Forall₂ (fun a gs => a ∈ l ∧ part a = .ok gs) l groups ∧
      groups.flatten = fs := by
  induction l generalizing fs with
  | nil => exact ⟨[], .nil, Except.ok.inj h⟩
  | cons a rest ih =>
    unfold collect at h
    split at h
    · cases h
    · rename_i gs hgs
      split at h
      · cases h
      · rename_i more hmore
        obtain ⟨groups, hall, hflat⟩ := ih hmore
        refine ⟨gs :: groups, .cons ⟨by simp, hgs⟩ ?_, ?_⟩
        · exact hall.imp fun b _ hb => ⟨List.mem_cons_of_mem a hb.1, hb.2⟩
        · rw [List.flatten_cons, hflat]
          exact Except.ok.inj h

/-- The findings stand one to one for the things that `raises` has a finding for. -/
def OneForEach {α : Type} (raises : α → Finding → Prop) (fs : List Finding) : Prop :=
  ∃ ts : List α, ts.Nodup ∧ (∀ t, t ∈ ts ↔ ∃ f, raises t f) ∧ List.Forall₂ raises ts fs

theorem OneForEach.congr {α : Type} {raises calls : α → Finding → Prop} {fs : List Finding}
    (h : OneForEach raises fs) (heq : ∀ t f, raises t f ↔ calls t f) : OneForEach calls fs := by
  obtain ⟨ts, hn, hmem, hall⟩ := h
  refine ⟨ts, hn, fun t => ?_, hall.imp fun t f => (heq t f).1⟩
  simp only [hmem, heq]

theorem forall₂_filterMap {α β : Type} (judge : α → Option β) (l : List α) :
    List.Forall₂ (fun t f => t ∈ l ∧ judge t = some f) (l.filter fun t => (judge t).isSome)
      (l.filterMap judge) := by
  induction l with
  | nil => exact .nil
  | cons t l ih =>
    have ih' := ih.imp fun x f h => (⟨List.mem_cons_of_mem t h.1, h.2⟩ : x ∈ t :: l ∧ judge x = some f)
    cases hj : judge t with
    | none => simpa [hj] using ih'
    | some f => simpa [hj] using ih'

theorem forall₂_flatMap {α β γ : Type} {R : β → γ → Prop} {f : α → List β} {g : α → List γ}
    {l : List α} (h : ∀ a ∈ l, List.Forall₂ R (f a) (g a)) :
    List.Forall₂ R (l.flatMap f) (l.flatMap g) := by
  induction l with
  | nil => exact .nil
  | cons a l ih =>
    rw [List.flatMap_cons, List.flatMap_cons]
    exact List.rel_append (h a (by simp)) (ih fun b hb => h b (List.mem_cons_of_mem a hb))

/-- If no two places judge one token, what all places find is one finding for each token that is
judged anywhere. -/
theorem OneForEach.of_places {α β : Type} {places : List α} {tokens : α → List β}
    {judge : α → β → Option Finding} (hn : places.Nodup) (ht : ∀ a, (tokens a).Nodup)
    (howner : ∀ a ∈ places, ∀ b ∈ places, ∀ t f g, judge a t = some f → judge b t = some g → a = b) :
    OneForEach (fun t f => ∃ a ∈ places, t ∈ tokens a ∧ judge a t = some f)
      (places.flatMap fun a => (tokens a).filterMap (judge a)) := by
  refine ⟨places.flatMap fun a => (tokens a).filter fun t => (judge a t).isSome, ?_, ?_, ?_⟩
  · rw [List.nodup_flatMap]
    refine ⟨fun a _ => (ht a).filter _, hn.pairwise_of_forall_ne ?_⟩
    intro a ha b hb hab t hta htb
    obtain ⟨f, hf⟩ := Option.isSome_iff_exists.1 (List.mem_filter.1 hta).2
    obtain ⟨g, hg⟩ := Option.isSome_iff_exists.1 (List.mem_filter.1 htb).2
    exact hab (howner a ha b hb t f g hf hg)
  · intro t
    simp only [List.mem_flatMap, List.mem_filter, Option.isSome_iff_exists]
    constructor
    · rintro ⟨a, ha, hta, f, hf⟩
      exact ⟨f, a, ha, hta, hf⟩
    · rintro ⟨f, a, ha, hta, hf⟩
      exact ⟨a, ha, hta, f, hf⟩
  · refine forall₂_flatMap fun a ha => ?_
    exact (forall₂_filterMap (judge a) (tokens a)).imp fun t f h => ⟨a, ha, h.1, h.2⟩

namespace Subject
variable {x : Subject}

theorem mem_auditedScopes {s : x.ScopeIdx} {start : x.TokenIdx} :
    (s, start) ∈ x.auditedScopes ↔ s ∈ x.configuration.scopeOrder ∧
      (∃ info, x.notes.exec? s = some info) ∧
      (x.configuration.scope s).bodyStart = .resolved start ∧ x.inMainFile start = true := by
  simp only [auditedScopes, List.mem_filterMap, ← Ref.get?_eq_some_iff]
  constructor
  · rintro ⟨r, hr, h⟩
    split at h
    · rename_i info first hinfo hfirst
      split at h
      · rename_i hmain
        simp only [Option.some.injEq, Prod.mk.injEq] at h
        obtain ⟨rfl, rfl⟩ := h
        exact ⟨hr, ⟨info, hinfo⟩, hfirst, hmain⟩
      · simp at h
    · simp at h
  · rintro ⟨hs, ⟨info, hinfo⟩, hstart, hmain⟩
    exact ⟨s, hs, by simp [hinfo, hstart, hmain]⟩

theorem auditedScopes_nodup : x.auditedScopes.Nodup := by
  refine List.Nodup.filterMap ?_ Configuration.scopeOrder_nodup
  intro s r p hs hr
  -- Both entries carry the scope they were made for.
  have hps : p.1 = s := by split at hs <;> [split at hs; skip] <;> simp_all [Prod.ext_iff]
  have hpr : p.1 = r := by split at hr <;> [split at hr; skip] <;> simp_all [Prod.ext_iff]
  rw [← hps, ← hpr]

theorem eq_of_mem_auditedScopes {p q : x.ScopeIdx × x.TokenIdx} (hp : p ∈ x.auditedScopes)
    (hq : q ∈ x.auditedScopes) (h : p.1 = q.1) : p = q := by
  obtain ⟨s, start⟩ := p
  obtain ⟨r, start'⟩ := q
  obtain rfl : s = r := h
  have h1 := (mem_auditedScopes.1 hp).2.2.1
  rw [(mem_auditedScopes.1 hq).2.2.1, Ref.resolved.injEq] at h1
  rw [h1]

theorem isDefinition_eq_false_iff {t : x.TokenIdx} :
    x.isDefinition t = false ↔ ∀ f, (x.configuration.function f).definition ≠ .resolved t := by
  simp only [isDefinition, List.any_eq_false, beq_iff_eq]
  constructor
  · intro h f
    exact h _ (by simp [Configuration.function])
  · intro h f hf
    obtain ⟨i, hi, rfl⟩ := List.mem_iff_getElem.1 hf
    exact h ⟨i, by simpa using hi⟩

end Subject

end SpaceAudit
