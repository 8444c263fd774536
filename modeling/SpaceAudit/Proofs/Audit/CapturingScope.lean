import SpaceAudit.Audit.ClassCapture
import SpaceAudit.Proofs.Audit.Subject
import SpaceAudit.Proofs.Space.Classification

/-! Whether device code has the object of its class is decided by one scope: the one that the code
takes its classification from. -/
namespace SpaceAudit

namespace Configuration
variable {c : Configuration} {settings : Settings}

theorem outerOwner?_before {k : Nat} {s o : c.ScopeIdx} (hs : c.scopeOrder[k]? = some s)
    (ho : c.outerOwner? s = some o) : ∃ j, j < k ∧ c.scopeOrder[j]? = some o := by
  obtain ⟨p, n, hp, howner⟩ := outerOwner?_eq_some_iff.1 ho
  have hfront : c.ParentsFirst (c.scopeOrder.take k) := by
    apply ParentsFirst.of_append
    rw [List.take_append_drop]
    exact scopeOrder_parentsFirst
  have hmem := hfront.owner_mem howner (scopeOrder_parentsFirst k s hs p hp)
  obtain ⟨j, hj⟩ := List.mem_iff_getElem?.1 hmem
  rw [List.getElem?_take] at hj
  by_cases hlt : j < k
  · exact ⟨j, hlt, by rwa [if_pos hlt] at hj⟩
  · rw [if_neg hlt] at hj
    cases hj

theorem mem_scopeOrder_of_classified {s : c.ScopeIdx} {info : ExecInfo}
    (h : (c.classify settings .none).exec? s = some info) : s ∈ c.scopeOrder := by
  by_cases hscopes : c.sections.scopes = true
  · exact ((classify_settled hscopes).isSome_iff s).1 (by rw [h]; rfl) |>.2
  · rw [classify, if_neg hscopes, Annotations.exec?_none] at h
    cases h

theorem outer_of_inherited {s : c.ScopeIdx} {info : ExecInfo}
    (h : (c.classify settings .none).exec? s = some info) (hi : info.inherited = true) :
    ∃ o outer, c.outerOwner? s = some o ∧ (c.classify settings .none).exec? o = some outer := by
  by_cases hscopes : c.sections.scopes = true
  · have hset : c.Settled settings c.scopeOrder (c.classify settings .none) :=
      classify_settled hscopes
    cases hm : c.ownMarker? settings s with
    | some m =>
      rw [hset.fixed s info h, execInfo_of_markedBy (ownMarker?_eq_some_iff.1 hm)] at hi
      cases hi
    | none =>
      have hu := ownMarker?_eq_none_iff.1 hm
      cases ho : c.outerOwner? s with
      | none =>
        rw [hset.fixed s info h, execInfo_of_unmarked hu, ho] at hi
        cases hi
      | some o =>
        obtain ⟨outer, houter, _⟩ := hset.inherits h hu ho
        exact ⟨o, outer, rfl, houter⟩
  · rw [classify, if_neg hscopes, Annotations.exec?_none] at h
    cases h

def InBody (c : Configuration) (s : c.ScopeIdx) (t : c.TokenIdx) : Prop :=
  ∃ first last, (c.scope s).bodyStart = .resolved first ∧ (c.scope s).bodyEnd = .resolved last ∧
    first ≤ t ∧ t ≤ last

theorem inBody_iff {s : c.ScopeIdx} {ts : List c.TokenIdx} (h : c.bodyTokens s = .ok ts)
    {t : c.TokenIdx} : c.InBody s t ↔ t ∈ ts := by
  rw [← bodyOrNone_eq h, mem_bodyOrNone]
  rfl

end Configuration

namespace Subject
variable {x : Subject}

/-- The scopes are classified as they are on a configuration that has just been loaded. -/
def FreshlyClassified (x : Subject) : Prop :=
  ∀ s, x.notes.exec? s = (x.configuration.classify x.settings .none).exec? s

/-- `r` is reached from `s` by going to the executable scope around as long as the classification
is inherited. -/
inductive Root (x : Subject) : x.ScopeIdx → x.ScopeIdx → Prop where
  | self {s : x.ScopeIdx} {info : ExecInfo} (h : x.notes.exec? s = some info)
      (hown : info.inherited = false) : Root x s s
  | up {s o r : x.ScopeIdx} {info : ExecInfo} (h : x.notes.exec? s = some info)
      (hinherited : info.inherited = true) (ho : x.configuration.outerOwner? s = some o)
      (hr : Root x o r) : Root x s r

namespace Root

theorem unique {s r r' : x.ScopeIdx} (h : x.Root s r) (h' : x.Root s r') : r = r' := by
  induction h with
  | self hs hown =>
    cases h' with
    | self => rfl
    | up hs' hinherited =>
      rw [hs, Option.some.injEq] at hs'
      rw [← hs', hown] at hinherited
      cases hinherited
  | up hs hinherited ho _ ih =>
    cases h' with
    | self hs' hown =>
      rw [hs, Option.some.injEq] at hs'
      rw [← hs', hinherited] at hown
      cases hown
    | up _ _ ho' hr' =>
      rw [ho, Option.some.injEq] at ho'
      subst ho'
      exact ih hr'

theorem own {s r : x.ScopeIdx} (h : x.Root s r) :
    ∃ info, x.notes.exec? r = some info ∧ info.inherited = false := by
  induction h with
  | self hs hown => exact ⟨_, hs, hown⟩
  | up _ _ _ _ ih => exact ih

theorem exists_root (hfresh : x.FreshlyClassified) {s : x.ScopeIdx}
    (hs : (x.notes.exec? s).isSome) : ∃ r, x.Root s r := by
  obtain ⟨info, hinfo⟩ := Option.isSome_iff_exists.1 hs
  have hmem := Configuration.mem_scopeOrder_of_classified (hfresh s ▸ hinfo)
  obtain ⟨k, hk⟩ := List.mem_iff_getElem?.1 hmem
  -- Each step leads further to the front of the order.
  induction k using Nat.strongRecOn generalizing s info with
  | ind k ih =>
    cases hi : info.inherited with
    | false => exact ⟨s, .self hinfo hi⟩
    | true =>
      obtain ⟨o, outer, ho, houter⟩ := Configuration.outer_of_inherited (hfresh s ▸ hinfo) hi
      rw [← hfresh o] at houter
      obtain ⟨j, hj, hget⟩ := Configuration.outerOwner?_before hk ho
      obtain ⟨r, hr⟩ := ih j hj (by rw [houter]; rfl) outer houter
        (List.mem_of_getElem? hget) hget
      exact ⟨r, .up hinfo hi ho hr⟩

theorem capturesWithin_eq {s r : x.ScopeIdx} (h : x.Root s r) {k steps : Nat}
    (hk : x.configuration.scopeOrder[k]? = some s) (hsteps : k < steps) :
    x.capturesWithin steps s = x.capturesOnOwn r := by
  induction h generalizing k steps with
  | self hs hown =>
    obtain ⟨n, rfl⟩ := Nat.exists_eq_add_one_of_ne_zero (Nat.ne_zero_of_lt hsteps)
    simp [capturesWithin, hs, hown]
  | up hs hinherited ho _ ih =>
    obtain ⟨n, rfl⟩ := Nat.exists_eq_add_one_of_ne_zero (Nat.ne_zero_of_lt hsteps)
    obtain ⟨j, hj, hget⟩ := Configuration.outerOwner?_before hk ho
    rw [capturesWithin, hs]
    simp only [hinherited, if_true, ho]
    exact ih hget (by omega)

/-- The steps that the walk is given are always enough, so that it ends at the root. -/
theorem capturesClass_eq (hfresh : x.FreshlyClassified) {s r : x.ScopeIdx} (h : x.Root s r) :
    x.capturesClass s = x.capturesOnOwn r := by
  have hmem : s ∈ x.configuration.scopeOrder := by
    cases h with
    | self hs => exact Configuration.mem_scopeOrder_of_classified (hfresh s ▸ hs)
    | up hs => exact Configuration.mem_scopeOrder_of_classified (hfresh s ▸ hs)
  obtain ⟨k, hk⟩ := List.mem_iff_getElem?.1 hmem
  obtain ⟨hlt, _⟩ := List.getElem?_eq_some_iff.1 hk
  have hlen : x.configuration.scopeOrder.length ≤ x.configuration.extent.scopes :=
    Configuration.length_le_scopes Configuration.scopeOrder_nodup
  exact h.capturesWithin_eq hk (by omega)

end Root

/-- A scope that gives its code the object of the class: a lambda that captures the class, a scope
written in a class, or the body of a method wherever it is written. -/
def Captures (x : Subject) (r : x.ScopeIdx) : Prop :=
  (∃ info, x.notes.exec? r = some info ∧ info.marker = .classLambda) ∨
    (∃ p, x.configuration.parent? r = some p ∧
      (x.configuration.scope p).kind.isClassLike = true) ∨
    (x.configuration.scope r).kind = .function ∧
      ∃ f, (x.configuration.scope r).function = .resolved f ∧
        (x.configuration.scope (x.configuration.function f).owner).kind.isClassLike = true

theorem isMethodBody_iff {s : x.ScopeIdx} : x.isMethodBody s = true ↔
    (x.configuration.scope s).kind = .function ∧
      ∃ f, (x.configuration.scope s).function = .resolved f ∧
        (x.configuration.scope (x.configuration.function f).owner).kind.isClassLike = true := by
  simp only [isMethodBody, isClass, Bool.and_eq_true, beq_iff_eq, Option.any_eq_true,
    Ref.get?_eq_some_iff]

theorem Root.captures_iff {s r : x.ScopeIdx} (h : x.Root s r) :
    x.capturesOnOwn r = true ↔ x.Captures r := by
  obtain ⟨info, hinfo, hown⟩ := h.own
  simp only [capturesOnOwn, Captures, hinfo, hown, isMethodBody_iff.symm, isClass, Bool.not_false,
    Bool.true_and, Bool.or_eq_true, beq_iff_eq, Option.any_eq_true, Option.some.injEq,
    exists_eq_left', or_assoc]

theorem Root.capturesOnOwn_iff {s r : x.ScopeIdx} (h : x.Root s r) :
    x.capturesOnOwn s = true ↔ r = s ∧ x.Captures r := by
  cases h with
  | self hs hown =>
    rw [(Root.self hs hown).captures_iff]
    simp
  | up hs hinherited ho hr =>
    have hne : r ≠ s := by
      intro hrs
      obtain ⟨info, hinfo, hown⟩ := hr.own
      rw [hrs, hs, Option.some.injEq] at hinfo
      rw [hinfo, hown] at hinherited
      cases hinherited
    simp [capturesOnOwn, hs, hinherited, hne]

section Uses

theorem mem_uses {ts : List x.TokenIdx} {t : x.TokenIdx} {v : x.VariableIdx} :
    (t, v) ∈ x.uses ts ↔ t ∈ ts ∧ (x.configuration.token t).var = .resolved v := by
  simp only [uses, List.mem_filterMap, Option.map_eq_some_iff, Ref.get?_eq_some_iff, Prod.mk.injEq]
  constructor
  · intro h
    obtain ⟨u, hu, w, hw, hut, hwv⟩ := h
    subst hut hwv
    exact ⟨hu, hw⟩
  · intro h
    exact ⟨t, h.1, v, h.2, rfl, rfl⟩

theorem uses_pairwise {ts : List x.TokenIdx} (h : ts.Pairwise (· < ·)) :
    (x.uses ts).Pairwise fun a b => a.1 < b.1 := by
  refine h.filterMap _ ?_
  intro t u htu a ha b hb
  obtain ⟨v, _, rfl⟩ := Option.map_eq_some_iff.1 ha
  obtain ⟨w, _, rfl⟩ := Option.map_eq_some_iff.1 hb
  exact htu

theorem firstUses_cons (u : x.TokenIdx × x.VariableIdx) (us : List (x.TokenIdx × x.VariableIdx)) :
    x.firstUses (u :: us) = u :: x.firstUses (us.filter fun b => b.2 ≠ u.2) := by
  have hsame : (fun b : x.TokenIdx × x.VariableIdx => decide ((b.2 == u.2) = false)) =
      fun b => decide (b.2 ≠ u.2) := by
    funext b
    simp
  rw [firstUses, List.eraseDupsBy_cons, hsame]
  rfl

theorem firstUses_sublist (us : List (x.TokenIdx × x.VariableIdx)) :
    (x.firstUses us).Sublist us := by
  cases us with
  | nil => exact .slnil
  | cons u us =>
    rw [firstUses_cons]
    exact ((firstUses_sublist _).trans List.filter_sublist).cons_cons u
termination_by us.length
decreasing_by exact Nat.lt_succ_of_le (List.length_filter_le _ _)

theorem mem_firstUses (us : List (x.TokenIdx × x.VariableIdx))
    (h : us.Pairwise fun a b => a.1 < b.1) {t : x.TokenIdx} {v : x.VariableIdx} :
    (t, v) ∈ x.firstUses us ↔ (t, v) ∈ us ∧ ∀ t', (t', v) ∈ us → t ≤ t' := by
  match us, h with
  | [], _ => simp [firstUses]
  | u :: us, h =>
    obtain ⟨hfirst, hlater⟩ := List.pairwise_cons.1 h
    rw [firstUses_cons, List.mem_cons, mem_firstUses (us.filter _) (hlater.filter _)]
    simp only [List.mem_filter, List.mem_cons, decide_eq_true_eq]
    by_cases hu : (t, v) = u
    · subst hu
      refine ⟨fun _ => ⟨.inl rfl, fun t' ht' => ?_⟩, fun _ => .inl rfl⟩
      rcases ht' with ht' | ht'
      · exact le_of_eq (congrArg Prod.fst ht').symm
      · exact le_of_lt (hfirst _ ht')
    · simp only [hu, false_or]
      constructor
      · intro h'
        refine ⟨h'.1.1, fun t' ht' => ?_⟩
        rcases ht' with ht' | ht'
        · exact absurd (congrArg Prod.snd ht') h'.1.2
        · exact h'.2 t' ⟨ht', h'.1.2⟩
      · intro h'
        have hv : v ≠ u.2 := by
          intro hv
          have hle := h'.2 u.1 (.inl (by rw [hv]))
          exact absurd (hfirst _ h'.1) (not_lt.2 hle)
        exact ⟨⟨h'.1, hv⟩, fun t' ht' => h'.2 t' (.inr ht'.1)⟩
termination_by us.length
decreasing_by exact Nat.lt_succ_of_le (List.length_filter_le _ _)

theorem firstUses_bodyTokens {s : x.ScopeIdx} {ts : List x.TokenIdx}
    (hts : x.configuration.bodyTokens s = .ok ts) (p : x.TokenIdx × x.VariableIdx → Bool) :
    (∀ t v, (t, v) ∈ x.firstUses ((x.uses ts).filter p) ↔ (t, v) ∈ (x.uses ts).filter p ∧
      ∀ t', (t', v) ∈ (x.uses ts).filter p → t ≤ t') ∧
    (x.firstUses ((x.uses ts).filter p)).Pairwise fun a b => a.1 < b.1 := by
  obtain ⟨first, last, _, _, rfl⟩ := Configuration.bodyTokens_eq_ok_iff.1 hts
  have horder := (uses_pairwise (x.configuration.tokensIn_increasing ⟨first, last + 1⟩)).filter p
  exact ⟨fun t v => mem_firstUses _ horder, horder.sublist (firstUses_sublist _)⟩

end Uses

section Verdicts

/-- The token names a member of some other object, as in `other.m`. -/
def OfOther (x : Subject) (t : x.TokenIdx) : Prop :=
  ∃ p, x.configuration.prev? t = some p ∧
    (x.configuration.text p = "." ∨ x.configuration.text p = "->") ∧
    x.configuration.prevText p ≠ "this"

theorem isMemberAccess_iff {t : x.TokenIdx} : x.isMemberAccess t = true ↔ x.OfOther t := by
  unfold isMemberAccess OfOther
  cases x.configuration.prev? t with
  | none => simp
  | some p => simp

/-- At `t` the code of `s` itself names the variable `v` as a member of the object of `cls` that it
runs in. -/
structure NamesMember (x : Subject) (s cls : x.ScopeIdx) (t : x.TokenIdx) (v : x.VariableIdx) :
    Prop where
  inBody : x.configuration.InBody s t
  named : (x.configuration.token t).var = .resolved v
  owned : x.configuration.execOwnerOfToken? t = some s
  object : ¬ x.OfOther t
  nonlocal : (x.configuration.var v).access.isLocal = false
  member : (x.configuration.var v).scope = .resolved cls

/-- The lambda `s` captures all of `cls` and gets along without some of it. -/
structure NeedlessCapture (x : Subject) (s cls : x.ScopeIdx) : Prop where
  lambda : ∃ info, x.notes.exec? s = some info ∧ info.marker = .classLambda
  unnamed : ∃ v ∈ (x.configuration.scope cls).vars, ∀ t, x.configuration.InBody s t →
    (x.configuration.token t).var ≠ .resolved v
  parts : ∀ t, x.configuration.InBody s t → x.configuration.text t ≠ "this" ∧
    (x.configuration.token t).valueTypeScope ≠ .resolved cls ∧
    ∀ f, (x.configuration.token t).function = .resolved f → (x.configuration.function f).owner ≠ cls

def memberFinding (x : Subject) (t : x.TokenIdx) (v : x.VariableIdx) : Finding :=
  x.findingAt t .classVariableOnDevice .error ("Class variable " ++ (x.configuration.var v).name ++
    " used from GPU, but class not captured. Please create a proxy variable.")

def strayCaptureFinding (x : Subject) (start : x.TokenIdx) : Finding :=
  x.findingAt start .classVariableOnDevice .warning
    "Loop on GPU captures class but does not appear to be in a class."

def needlessCaptureFinding (x : Subject) (start : x.TokenIdx) : Finding :=
  x.findingAt start .needlessClassCapture .warning
    ("Loop on GPU captures class but not all variables are used. " ++
      "This increases CPU/GPU copies and GPU memory usage unnecessarily. " ++
      "Please prefer proxy variables.")

/-- What is said about the device scope `s`, whose body opens at `start`, when its root is `r`. -/
inductive Verdict (x : Subject) (s : x.ScopeIdx) (start : x.TokenIdx) (r : x.ScopeIdx) :
    List Finding → Prop where
  | outside (hr : ¬ x.Captures r) (hcls : x.classOf? s = none) : Verdict x s start r []
  /-- One error for each member, at its first use, in the order of these uses. -/
  | uncaptured {cls : x.ScopeIdx} {firsts : List (x.TokenIdx × x.VariableIdx)}
      (hr : ¬ x.Captures r) (hcls : x.classOf? s = some cls)
      (hmem : ∀ t v, (t, v) ∈ firsts ↔
        x.NamesMember s cls t v ∧ ∀ t', x.NamesMember s cls t' v → t ≤ t')
      (horder : firsts.Pairwise fun a b => a.1 < b.1) :
      Verdict x s start r (firsts.map fun u => x.memberFinding u.1 u.2)
  | passedOn (hr : x.Captures r) (hne : r ≠ s) : Verdict x s start r []
  | stray (hr : x.Captures r) (heq : r = s) (hcls : x.classOf? s = none) :
      Verdict x s start r [x.strayCaptureFinding start]
  | needless {cls : x.ScopeIdx} (hr : x.Captures r) (heq : r = s) (hcls : x.classOf? s = some cls)
      (h : x.NeedlessCapture s cls) : Verdict x s start r [x.needlessCaptureFinding start]
  | needed {cls : x.ScopeIdx} (hr : x.Captures r) (heq : r = s) (hcls : x.classOf? s = some cls)
      (h : ¬ x.NeedlessCapture s cls) : Verdict x s start r []

theorem mem_memberUses {s cls : x.ScopeIdx} {ts : List x.TokenIdx}
    (hts : x.configuration.bodyTokens s = .ok ts) {t : x.TokenIdx} {v : x.VariableIdx} :
    (t, v) ∈ (x.uses ts).filter (x.isOwnMemberUse s cls) ↔ x.NamesMember s cls t v := by
  rw [List.mem_filter, mem_uses, ← Configuration.inBody_iff hts]
  simp only [isOwnMemberUse, Bool.and_eq_true, beq_iff_eq, Bool.not_eq_true', Ref.get?_eq_some_iff]
  rw [← Bool.not_eq_true (x.isMemberAccess t), isMemberAccess_iff]
  constructor
  · intro h
    obtain ⟨⟨hbody, hnamed⟩, ⟨⟨howned, hobject⟩, hnonlocal⟩, hmember⟩ := h
    exact ⟨hbody, hnamed, howned, hobject, hnonlocal, hmember⟩
  · intro h
    exact ⟨⟨h.inBody, h.named⟩, ⟨⟨h.owned, h.object⟩, h.nonlocal⟩, h.member⟩

theorem uncapturedFindings_verdict {s cls r : x.ScopeIdx} {start : x.TokenIdx}
    {ts : List x.TokenIdx} (hr : ¬ x.Captures r) (hcls : x.classOf? s = some cls)
    (hts : x.configuration.bodyTokens s = .ok ts) :
    x.Verdict s start r (x.uncapturedFindings s cls ts) := by
  obtain ⟨hmem, horder⟩ := firstUses_bodyTokens hts (x.isOwnMemberUse s cls)
  simp only [mem_memberUses hts] at hmem
  exact .uncaptured hr hcls hmem horder

theorem needsClass_eq_false_iff {s cls : x.ScopeIdx} {ts : List x.TokenIdx}
    (hts : x.configuration.bodyTokens s = .ok ts) {info : ExecInfo}
    (hinfo : x.notes.exec? s = some info) (hlambda : info.marker = .classLambda) :
    x.needsClass cls ts = false ↔ x.NeedlessCapture s cls := by
  have hall : (x.configuration.scope cls).vars.all ((x.uses ts).map Prod.snd).contains = false ↔
      ∃ v ∈ (x.configuration.scope cls).vars, ∀ t, x.configuration.InBody s t →
        (x.configuration.token t).var ≠ .resolved v := by
    rw [List.all_eq_false]
    simp only [List.contains_eq_mem, decide_eq_true_eq, List.mem_map, Prod.exists, exists_eq_right,
      mem_uses, Configuration.inBody_iff hts, not_exists, not_and, ne_eq]
  have hobject : x.usesObject cls ts = false ↔ ∀ t, x.configuration.InBody s t →
      x.configuration.text t ≠ "this" ∧ (x.configuration.token t).valueTypeScope ≠ .resolved cls ∧
        ∀ f, (x.configuration.token t).function = .resolved f →
          (x.configuration.function f).owner ≠ cls := by
    simp only [usesObject, List.any_eq_false, Bool.or_eq_true, beq_iff_eq, Option.any_eq_true,
      Ref.get?_eq_some_iff, Configuration.inBody_iff hts, not_or, not_exists, not_and, ne_eq,
      and_assoc]
  rw [needsClass, Bool.or_eq_false_iff, hall, hobject]
  exact ⟨fun h => ⟨⟨info, hinfo, hlambda⟩, h.1, h.2⟩, fun h => ⟨h.unnamed, h.parts⟩⟩

theorem captureFinding_verdict {s : x.ScopeIdx} {start : x.TokenIdx} {fs : List Finding}
    (hs : x.Captures s) {info : ExecInfo} (hinfo : x.notes.exec? s = some info)
    (h : x.captureFinding s start = .ok fs) : x.Verdict s start s fs := by
  unfold captureFinding at h
  cases hcls : x.classOf? s with
  | none =>
    rw [hcls] at h
    obtain rfl := Except.ok.inj h
    exact .stray hs rfl hcls
  | some cls =>
    rw [hcls, hinfo] at h
    dsimp only [Option.any_some] at h
    by_cases hlambda : info.marker = .classLambda
    · rw [if_pos (beq_iff_eq.2 hlambda)] at h
      cases hts : x.configuration.bodyTokens s with
      | error e =>
        rw [hts] at h
        cases h
      | ok ts =>
        rw [hts] at h
        dsimp only at h
        have hneeds : x.needsClass cls ts = false ↔ x.NeedlessCapture s cls :=
          needsClass_eq_false_iff hts hinfo hlambda
        cases hn : x.needsClass cls ts with
        | true =>
          rw [hn, if_pos rfl] at h
          obtain rfl := Except.ok.inj h
          rw [hn] at hneeds
          exact .needed hs rfl hcls fun hneedless => Bool.noConfusion (hneeds.2 hneedless)
        | false =>
          rw [hn, if_neg Bool.false_ne_true] at h
          obtain rfl := Except.ok.inj h
          exact .needless hs rfl hcls (hneeds.1 hn)
    · rw [if_neg (mt beq_iff_eq.1 hlambda)] at h
      obtain rfl := Except.ok.inj h
      refine .needed hs rfl hcls fun hneedless => hlambda ?_
      obtain ⟨info', hinfo', hmarker⟩ := hneedless.lambda
      rw [hinfo, Option.some.injEq] at hinfo'
      rw [hinfo', hmarker]

theorem scopeCaptureFindings_verdict (hfresh : x.FreshlyClassified) {s r : x.ScopeIdx}
    {start : x.TokenIdx} {fs : List Finding} (hroot : x.Root s r)
    (h : x.scopeCaptureFindings s start = .ok fs) : x.Verdict s start r fs := by
  unfold scopeCaptureFindings at h
  rw [hroot.capturesClass_eq hfresh] at h
  by_cases hr : x.Captures r
  · rw [if_pos (hroot.captures_iff.2 hr)] at h
    by_cases hrs : r = s
    · rw [if_pos (hroot.capturesOnOwn_iff.2 ⟨hrs, hr⟩)] at h
      subst hrs
      obtain ⟨info, hinfo, _⟩ := hroot.own
      exact captureFinding_verdict hr hinfo h
    · rw [if_neg fun hown => hrs (hroot.capturesOnOwn_iff.1 hown).1] at h
      obtain rfl := Except.ok.inj h
      exact .passedOn hr hrs
  · rw [if_neg (mt hroot.captures_iff.1 hr)] at h
    cases hcls : x.classOf? s with
    | none =>
      rw [hcls] at h
      obtain rfl := Except.ok.inj h
      exact .outside hr hcls
    | some cls =>
      rw [hcls] at h
      dsimp only at h
      cases hts : x.configuration.bodyTokens s with
      | error e =>
        rw [hts] at h
        cases h
      | ok ts =>
        rw [hts] at h
        obtain rfl := Except.ok.inj h
        exact uncapturedFindings_verdict hr hcls hts

/-- The scopes that are judged, in the order of the audit: the device scopes whose bodies open in
the unit's own source. -/
structure Judged (x : Subject) (places : List (x.ScopeIdx × x.TokenIdx)) : Prop where
  mem_iff : ∀ s start, (s, start) ∈ places ↔ x.notes.space? s = some .device ∧
    (x.configuration.scope s).bodyStart = .resolved start ∧ x.inMainFile start = true
  ordered : (places.map Prod.fst).Sublist x.configuration.scopeOrder

theorem map_fst_auditedScopes_sublist :
    (x.auditedScopes.map Prod.fst).Sublist x.configuration.scopeOrder := by
  have hfst (l : List x.ScopeIdx) (f : x.ScopeIdx → Option (x.ScopeIdx × x.TokenIdx))
      (hf : ∀ s p, f s = some p → p.1 = s) : ((l.filterMap f).map Prod.fst).Sublist l := by
    induction l with
    | nil => exact .slnil
    | cons s l ih =>
      cases hs : f s with
      | none =>
        rw [List.filterMap_cons_none hs]
        exact ih.cons s
      | some p =>
        rw [List.filterMap_cons_some hs, List.map_cons, hf s p hs]
        exact ih.cons_cons s
  apply hfst
  intro s p hp
  split at hp
  · split at hp
    · obtain rfl := Option.some.inj hp
      rfl
    · cases hp
  · cases hp

theorem judged_auditedScopes (hfresh : x.FreshlyClassified) :
    x.Judged (x.auditedScopes.filter fun (s, _) => x.inDevice s) where
  mem_iff s start := by
    rw [List.mem_filter, mem_auditedScopes]
    simp only [inDevice, beq_iff_eq]
    constructor
    · intro h
      exact ⟨h.2, h.1.2.2⟩
    · intro h
      obtain ⟨info, hinfo, _⟩ := Option.map_eq_some_iff.1 h.1
      have hmem := Configuration.mem_scopeOrder_of_classified (hfresh s ▸ hinfo)
      exact ⟨⟨hmem, ⟨info, hinfo⟩, h.2⟩, h.1⟩
  ordered := (List.filter_sublist.map _).trans map_fst_auditedScopes_sublist

end Verdicts

end Subject

namespace Configuration

/-- A method with two lambdas on the device, each around a block that uses a member. The second one
captures the class. -/
def captureTexts : Vector String 43 :=
  #v["class", "C", "\x7b", "int", "m", ";", "int", "n", ";", "void", "f", "(", ")", "\x7b",
    "KOKKOS_LAMBDA", "(", "int", "i", ")", "\x7b", "\x7b", "m", ";", "m", ";", "\x7d", "\x7d", ";",
    "KOKKOS_CLASS_LAMBDA", "(", "int", "i", ")", "\x7b", "\x7b", "n", ";", "\x7d", "\x7d", ";",
    "\x7d", "\x7d", ";"]

/-- The class is scope 1, the method scope 2, the lambdas are scopes 3 and 5 and their blocks
scopes 4 and 6. -/
def captureSample : Configuration where
  name := ""
  sections := ⟨true, true, true, true⟩
  extent := ⟨43, 7, 0, 2⟩
  tokens := Vector.ofFn fun i =>
    ⟨"", captureTexts[i], 0, 1, i,
      .resolved (if 20 ≤ i.val ∧ i.val ≤ 25 then 4 else if 34 ≤ i.val ∧ i.val ≤ 37 then 6 else 2),
      if i = 21 ∨ i = 23 then .resolved 0 else if i = 35 then .resolved 1 else .absent,
      .absent, .absent, .absent⟩
  scopes :=
    #v[⟨"", .globalScope, "", .absent, .absent, .absent, .absent, []⟩,
      ⟨"", .classScope, "C", .resolved 0, .resolved 2, .resolved 41, .absent, [0, 1]⟩,
      ⟨"", .function, "f", .resolved 1, .resolved 13, .resolved 40, .absent, []⟩,
      ⟨"", .lambda, "", .resolved 2, .resolved 19, .resolved 26, .absent, []⟩,
      ⟨"", .block, "", .resolved 3, .resolved 20, .resolved 25, .absent, []⟩,
      ⟨"", .lambda, "", .resolved 2, .resolved 33, .resolved 38, .absent, []⟩,
      ⟨"", .block, "", .resolved 5, .resolved 34, .resolved 37, .absent, []⟩]
  functions := #v[]
  vars :=
    #v[⟨"", "m", .resolved 4, .resolved 3, .resolved 3, .privately, false, false, .resolved 1⟩,
      ⟨"", "n", .resolved 7, .resolved 6, .resolved 6, .privately, false, false, .resolved 1⟩]
  directives := []

end Configuration

namespace Subject

def captureSubject : Subject where
  path := ⟨"a.cpp"⟩
  mainFile := 0
  settings := .standard
  aliases := .empty
  signatures := .empty
  configuration := Configuration.captureSample
  notes := Configuration.captureSample.classify .standard .none

theorem captureSubject_root : captureSubject.Root (4 : Fin 7) (3 : Fin 7) := by
  have hblock : captureSubject.notes.exec? (4 : Fin 7) = some ⟨.device, .deviceLambda, true⟩ := by
    decide +kernel
  have hlambda : captureSubject.notes.exec? (3 : Fin 7) = some ⟨.device, .deviceLambda, false⟩ := by
    decide +kernel
  exact .up hblock rfl (by decide +kernel) (.self hlambda rfl)

end Subject

end SpaceAudit
