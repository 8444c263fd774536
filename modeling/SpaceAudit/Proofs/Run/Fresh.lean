import SpaceAudit.Proofs.Run.Report

/-! What a run that has recorded findings adds when it is told more of them. -/
namespace SpaceAudit

section Firsts
variable {α β κ : Type} [DecidableEq κ] {key : β → κ}

theorem firstsOf_append (l m : List β) :
    firstsOf key (l ++ m) =
      firstsOf key l ++ (firstsOf key m).filter fun b => key b ∉ l.map key := by
  induction l with
  | nil => simp [firstsOf]
  | cons a l ih =>
    rw [List.cons_append, firstsOf, ih, List.filter_append, List.filter_filter, firstsOf,
      List.cons_append]
    congr 2
    refine List.filter_congr fun b _ => ?_
    simp

theorem mem_of_mem_firstsOf {l : List β} {b : β} (h : b ∈ firstsOf key l) : b ∈ l := by
  obtain ⟨early, late, rfl, _⟩ := mem_firstsOf_iff.1 h
  simp

theorem firstsOf_flatMap {f : α → List β} {l : List α}
    (h : l.Pairwise fun a b => ∀ x ∈ f a, ∀ y ∈ f b, key x ≠ key y) :
    firstsOf key (l.flatMap f) = l.flatMap fun a => firstsOf key (f a) := by
  induction l with
  | nil => rfl
  | cons a l ih =>
    obtain ⟨ha, hl⟩ := List.pairwise_cons.1 h
    rw [List.flatMap_cons, List.flatMap_cons, firstsOf_append, ih hl]
    congr 1
    refine List.filter_eq_self.2 fun y hy => ?_
    obtain ⟨b, hb, hy⟩ := List.mem_flatMap.1 hy
    simp only [List.mem_map, not_exists, not_and, decide_eq_true_eq]
    intro x hx
    exact ha b hb x hx y (mem_of_mem_firstsOf hy)

theorem filter_firstsOf {p : β → Bool} (hp : ∀ a b, key a = key b → p a = p b) (l : List β) :
    (firstsOf key l).filter p = firstsOf key (l.filter p) := by
  induction l with
  | nil => rfl
  | cons a l ih =>
    by_cases ha : p a = true
    · rw [firstsOf, List.filter_cons_of_pos ha, List.filter_cons_of_pos ha, firstsOf, ← ih,
        List.filter_filter, List.filter_filter]
      congr 1
      exact List.filter_congr fun b _ => Bool.and_comm _ _
    · rw [firstsOf, List.filter_cons_of_neg ha, List.filter_cons_of_neg ha, ← ih,
        List.filter_filter]
      refine List.filter_congr fun b _ => ?_
      by_cases hb : p b = true
      · have hne : key b ≠ key a := fun h => ha (hp b a h ▸ hb)
        simp [hb, hne]
      · simp [hb]

theorem firstsOf_firstsOf (l : List β) : firstsOf key (firstsOf key l) = firstsOf key l := by
  induction l with
  | nil => rfl
  | cons a l ih =>
    have hkey : ∀ b c, key b = key c → decide (key b ≠ key a) = decide (key c ≠ key a) :=
      fun b c h => by rw [h]
    rw [firstsOf, firstsOf, ← filter_firstsOf hkey, ih, List.filter_filter]
    congr 1
    exact List.filter_congr fun b _ => Bool.and_self _

theorem firstsOf_of_key {l : List β} {k : κ} (h : ∀ b ∈ l, key b = k) :
    firstsOf key l = l.head?.toList := by
  cases l with
  | nil => rfl
  | cons a l =>
    have hnone : (firstsOf key l).filter (fun b => key b ≠ key a) = [] := by
      refine List.filter_eq_nil_iff.2 fun b hb => ?_
      have hb' := h b (List.mem_cons_of_mem a (mem_of_mem_firstsOf hb))
      simp [hb', h a List.mem_cons_self]
    rw [firstsOf, hnone]
    rfl

theorem firstsOf_map_congr {ι : Type} [DecidableEq ι] {f : α → β} {key' : α → ι} {l : List α}
    (h : ∀ a ∈ l, ∀ b ∈ l, key (f a) = key (f b) ↔ key' a = key' b) :
    firstsOf key (l.map f) = (firstsOf key' l).map f := by
  induction l with
  | nil => rfl
  | cons a l ih =>
    have htail := ih fun b hb c hc => h b (List.mem_cons_of_mem a hb) c (List.mem_cons_of_mem a hc)
    rw [List.map_cons, firstsOf, htail, firstsOf, List.map_cons, List.filter_map]
    congr 2
    refine List.filter_congr fun b hb => ?_
    have hab := h b (List.mem_cons_of_mem a (mem_of_mem_firstsOf hb)) a List.mem_cons_self
    simp [hab]

end Firsts

namespace Run
variable {r : Run} {fs : List Finding}

def fresh (r : Run) (fs : List Finding) : List Finding :=
  (firstsOf Finding.key fs).filter fun f => f.key ∉ r.findings.map Finding.key

def worse (worst : Option Severity) (f : Finding) : Option Severity :=
  some (Severity.maxOption worst f.severity)

theorem any_sameKey_iff {f : Finding} :
    fs.any f.sameKey = true ↔ f.key ∈ fs.map Finding.key := by
  simp only [List.any_eq_true, Finding.sameKey_iff, List.mem_map]
  exact exists_congr fun g => and_congr_right fun _ => eq_comm

theorem mem_map_fresh {k : Check × List Component × Nat × Nat × String} :
    k ∈ (r.findings ++ r.fresh fs).map Finding.key ↔
      k ∈ r.findings.map Finding.key ∨ k ∈ fs.map Finding.key := by
  rw [List.map_append, List.mem_append, ← @mem_map_firstsOf _ _ _ Finding.key fs]
  by_cases hk : k ∈ r.findings.map Finding.key
  · simp [hk]
  · simp only [hk, false_or, fresh, List.mem_map, List.mem_filter, decide_eq_true_eq]
    constructor
    · rintro ⟨f, ⟨hf, _⟩, rfl⟩
      exact ⟨f, hf, rfl⟩
    · rintro ⟨f, hf, rfl⟩
      exact ⟨f, ⟨hf, by simpa using hk⟩, rfl⟩

theorem fresh_concat (r : Run) (fs : List Finding) (f : Finding) :
    r.fresh (fs ++ [f]) =
      if f.key ∈ (r.findings ++ r.fresh fs).map Finding.key then r.fresh fs
      else r.fresh fs ++ [f] := by
  rw [fresh, firstsOf_concat]
  by_cases hr : f.key ∈ r.findings.map Finding.key
  · rw [if_pos (mem_map_fresh.2 (.inl hr))]
    split
    · rfl
    · simp only [List.filter_append, List.filter_singleton, hr, not_true_eq_false, decide_false,
        cond_false, List.append_nil, fresh]
  · by_cases hf : f.key ∈ fs.map Finding.key
    · rw [if_pos hf, if_pos (mem_map_fresh.2 (.inr hf)), fresh]
    · have hnew : f.key ∉ (r.findings ++ r.fresh fs).map Finding.key := by
        rw [mem_map_fresh]
        exact not_or.2 ⟨hr, hf⟩
      rw [if_neg hf, if_neg hnew]
      simp only [List.filter_append, List.filter_singleton, hr, not_false_eq_true, decide_true,
        cond_true, fresh]

/-- What a run has recorded after it was told `fs`, whatever it had recorded before. -/
theorem recorded_reportAll (r : Run) (fs : List Finding) :
    (r.reportAll fs).findings = r.findings ++ r.fresh fs ∧
      (r.reportAll fs).worst? = (r.fresh fs).foldl worse r.worst? := by
  induction fs using List.reverseRecOn with
  | nil => simp [reportAll, fresh, firstsOf]
  | append_singleton fs f ih =>
    obtain ⟨hfindings, hworst⟩ := ih
    have hlast : r.reportAll (fs ++ [f]) = (r.reportAll fs).report f := by simp [reportAll]
    rw [hlast, fresh_concat, report, hfindings]
    by_cases hknown : f.key ∈ (r.findings ++ r.fresh fs).map Finding.key
    · rw [if_pos (any_sameKey_iff.2 hknown), if_pos hknown]
      exact ⟨hfindings, hworst⟩
    · rw [if_neg (mt any_sameKey_iff.1 hknown), if_neg hknown, List.foldl_append]
      simp [worse, hworst]

theorem foldl_worse_perm {gs : List Finding} (hp : fs.Perm gs) (worst : Option Severity) :
    fs.foldl worse worst = gs.foldl worse worst := by
  have hcomm : RightCommutative worse := by
    refine ⟨fun w f g => congrArg some (Severity.eq_of_status ?_)⟩
    cases w with
    | none => simp [Severity.maxOption, Severity.status_max, worse, Nat.max_comm]
    | some w =>
      simp only [Severity.maxOption, Severity.status_max, worse]
      omega
  exact hp.foldl_eq worst

end Run

end SpaceAudit
