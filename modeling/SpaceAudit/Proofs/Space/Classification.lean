import SpaceAudit.Proofs.Source.ScopeTree
import SpaceAudit.Space.Classification

/-! Classification visits parents first and never writes twice, so it solves the rule that says what
a scope has by what its owner has. This holds on every graph of parents. -/
namespace SpaceAudit

namespace Annotations
variable {e : Extent}

@[simp] theorem exec?_none (s : Fin e.scopes) : (Annotations.none : Annotations e).exec? s = .none := by
  simp [exec?, Annotations.none]

theorem exec?_classify_self {a : Annotations e} {s : Fin e.scopes} (info : ExecInfo)
    (h : a.exec? s = .none) : (a.classify s info).exec? s = some info := by
  unfold classify
  rw [h]
  simp [exec?]

theorem exec?_classify_ne (a : Annotations e) {s x : Fin e.scopes} (info : ExecInfo) (h : x ≠ s) :
    (a.classify s info).exec? x = a.exec? x := by
  have hv : s.val ≠ x.val := fun hv => h (Fin.ext hv.symm)
  unfold classify
  split
  · rfl
  · simp [exec?, hv]

end Annotations

theorem ExecMarker.space_eq_device_iff {m : ExecMarker} : m.space = .device ↔ m ≠ .host := by
  cases m <;> simp [ExecMarker.space]

theorem Settings.space_of_marker? {s : Settings} {word : String} {m : ExecMarker}
    (h : s.marker? word = some m) : m.space = .device := by
  unfold Settings.marker? at h
  split_ifs at h <;> simp only [Option.some.injEq] at h <;> subst h <;> rfl

namespace Configuration
variable {c : Configuration} {settings : Settings}

/-- `m` is what the first marker before the body of `s` denotes. -/
def MarkedBy (c : Configuration) (settings : Settings) (s : c.ScopeIdx) (m : ExecMarker) : Prop :=
  ∃ before early word late, c.declarationPrefix s = .ok before ∧
    c.textsIn before = early ++ word :: late ∧
    (∀ w ∈ early, settings.marker? w = none) ∧ settings.marker? word = some m

/-- No word before the body of `s` is a marker. A scope without a body has no such words. -/
def Unmarked (c : Configuration) (settings : Settings) (s : c.ScopeIdx) : Prop :=
  ∀ before, c.declarationPrefix s = .ok before → ∀ w ∈ c.textsIn before, settings.marker? w = none

theorem ownMarker?_eq_some_iff {s : c.ScopeIdx} {m : ExecMarker} :
    c.ownMarker? settings s = some m ↔ c.MarkedBy settings s m := by
  unfold ownMarker? MarkedBy
  cases c.declarationPrefix s with
  | error e => simp
  | ok before =>
    simp only [List.findSome?_eq_some_iff, Except.ok.injEq]
    constructor
    · rintro ⟨early, word, late, htexts, hm, hearly⟩
      exact ⟨before, early, word, late, rfl, htexts, hearly, hm⟩
    · rintro ⟨_, early, word, late, rfl, htexts, hearly, hm⟩
      exact ⟨early, word, late, htexts, hm, hearly⟩

theorem ownMarker?_eq_none_iff {s : c.ScopeIdx} :
    c.ownMarker? settings s = none ↔ c.Unmarked settings s := by
  unfold ownMarker? Unmarked
  cases c.declarationPrefix s with
  | error e => simp
  | ok before => simp [List.findSome?_eq_none_iff]

theorem MarkedBy.space {s : c.ScopeIdx} {m : ExecMarker} (h : c.MarkedBy settings s m) :
    m.space = .device := by
  obtain ⟨_, _, _, _, _, _, _, hm⟩ := h
  exact Settings.space_of_marker? hm

theorem execInfo_of_markedBy {a : Annotations c.extent} {s : c.ScopeIdx} {m : ExecMarker}
    (h : c.MarkedBy settings s m) : c.execInfo settings a s = .ofMarker m := by
  rw [execInfo, ownMarker?_eq_some_iff.2 h]

theorem execInfo_of_unmarked {a : Annotations c.extent} {s : c.ScopeIdx}
    (h : c.Unmarked settings s) : c.execInfo settings a s =
      (((c.outerOwner? s).bind a.exec?).map ExecInfo.passedOn).getD .unmarked := by
  rw [execInfo, ownMarker?_eq_none_iff.2 h]
  cases (c.outerOwner? s).bind a.exec? <;> rfl

theorem execInfo_consistent {a : Annotations c.extent}
    (h : ∀ o j, a.exec? o = some j → j.space = j.marker.space) (s : c.ScopeIdx) :
    (c.execInfo settings a s).space = (c.execInfo settings a s).marker.space := by
  unfold execInfo
  split
  · rfl
  · split
    · rename_i outer ho
      obtain ⟨o, _, ho⟩ := Option.bind_eq_some_iff.1 ho
      exact h o outer ho
    · rfl

theorem execInfo_congr {a b : Annotations c.extent} {s : c.ScopeIdx}
    (h : ∀ o, c.outerOwner? s = some o → a.exec? o = b.exec? o) :
    c.execInfo settings a s = c.execInfo settings b s := by
  have hb : (c.outerOwner? s).bind a.exec? = (c.outerOwner? s).bind b.exec? := by
    cases ho : c.outerOwner? s with
    | none => rfl
    | some o => exact h o ho
  simp only [execInfo, hb]

theorem outerOwner?_eq_some_iff {s o : c.ScopeIdx} :
    c.outerOwner? s = some o ↔ ∃ p n, c.parent? s = some p ∧ c.Owner n p o := by
  simp only [outerOwner?, Option.bind_eq_some_iff, execOwner?_eq_some_iff, exists_and_left]

/-- The scopes of `l` are settled: the executable ones carry notes, no other scope does, and every
note is what the rule makes of the rest. -/
structure Settled (c : Configuration) (settings : Settings) (l : List c.ScopeIdx)
    (a : Annotations c.extent) : Prop where
  isSome_iff : ∀ s, (a.exec? s).isSome ↔ (c.scope s).kind.isExecutable = true ∧ s ∈ l
  fixed : ∀ s i, a.exec? s = some i → i = c.execInfo settings a s
  consistent : ∀ s i, a.exec? s = some i → i.space = i.marker.space

theorem Settled.empty : c.Settled settings [] .none where
  isSome_iff s := by simp
  fixed s i h := by simp at h
  consistent s i h := by simp at h

/-- The next scope in the order finds its owner settled, and no settled scope has it for owner. -/
theorem Settled.step {l : List c.ScopeIdx} {a : Annotations c.extent} {s : c.ScopeIdx}
    (h : c.Settled settings l a) (hs : s ∉ l) (hl : c.ParentsFirst (l ++ [s])) :
    c.Settled settings (l ++ [s]) (c.classifyScope settings a s) := by
  unfold classifyScope
  split
  · rename_i hexec
    have hnone : a.exec? s = none := by
      rw [← Option.not_isSome_iff_eq_none, h.isSome_iff]
      exact fun hmem => hs hmem.2
    have hself := Annotations.exec?_classify_self (c.execInfo settings a s) hnone
    have hother (x : c.ScopeIdx) (hx : x ≠ s) :
        (a.classify s (c.execInfo settings a s)).exec? x = a.exec? x :=
      Annotations.exec?_classify_ne a _ hx
    -- Owners stand among the parents, so what is noted for `s` is read by no scope up to here.
    have howner (x o : c.ScopeIdx) (hx : x ∈ l ++ [s]) (ho : c.outerOwner? x = some o) : o ≠ s := by
      rintro rfl
      obtain ⟨p, n, hp, ho⟩ := outerOwner?_eq_some_iff.1 ho
      have hpl : p ∈ l := by
        rcases List.mem_append.1 hx with hx | hx
        · exact hl.of_append.parent_mem hx hp
        · obtain rfl := List.mem_singleton.1 hx
          exact hl.parent_of_last hp
      exact hs (hl.of_append.owner_mem ho hpl)
    have hrule (x : c.ScopeIdx) (hx : x ∈ l ++ [s]) :
        c.execInfo settings (a.classify s (c.execInfo settings a s)) x = c.execInfo settings a x :=
      execInfo_congr fun o ho => hother o (howner x o hx ho)
    refine ⟨fun x => ?_, fun x i hi => ?_, fun x i hi => ?_⟩
    · by_cases hx : x = s
      · subst hx
        simp [hself, hexec]
      · rw [hother x hx, h.isSome_iff]
        simp [hx]
    · by_cases hx : x = s
      · subst hx
        rw [hself, Option.some.injEq] at hi
        rw [hrule x (by simp), hi]
      · rw [hother x hx] at hi
        have hxl := ((h.isSome_iff x).1 (by simp [hi])).2
        rw [hrule x (List.mem_append_left _ hxl)]
        exact h.fixed x i hi
    · by_cases hx : x = s
      · subst hx
        rw [hself, Option.some.injEq] at hi
        rw [← hi]
        exact execInfo_consistent h.consistent x
      · rw [hother x hx] at hi
        exact h.consistent x i hi
  · rename_i hexec
    refine ⟨fun x => ?_, h.fixed, h.consistent⟩
    rw [h.isSome_iff]
    by_cases hx : x = s
    · subst hx
      simp [hexec]
    · simp [hx]

theorem Settled.foldl {l : List c.ScopeIdx} (hn : l.Nodup) (hl : c.ParentsFirst l) :
    c.Settled settings l (l.foldl (c.classifyScope settings) .none) := by
  -- From the end of the list: a part at the front has its parents inside, the rest has not.
  induction l using List.reverseRecOn with
  | nil => exact .empty
  | append_singleton l s ih =>
    have hs : s ∉ l := by
      intro hmem
      exact List.disjoint_of_nodup_append hn hmem (by simp)
    rw [List.foldl_append]
    exact (ih (List.Nodup.of_append_left hn) hl.of_append).step hs hl

theorem classify_settled (h : c.sections.scopes = true) :
    c.Settled settings c.scopeOrder (c.classify settings .none) := by
  rw [classify, if_pos h]
  exact .foldl scopeOrder_nodup scopeOrder_parentsFirst

/-- `s` is written below `f`, and nothing but code stands between the two: functions, lambdas, bare
blocks and control-flow bodies, but no class. -/
inductive Within (c : Configuration) (f : c.ScopeIdx) : c.ScopeIdx → Prop where
  | direct {s : c.ScopeIdx} (h : c.parent? s = some f) : Within c f s
  | through {s p : c.ScopeIdx} (h : c.parent? s = some p)
      (hk : (c.scope p).kind.isExecutable = true ∨ (c.scope p).kind.isControlFlow = true)
      (hp : Within c f p) : Within c f s

theorem Within.rooted {f s : c.ScopeIdx} (h : c.Within f s) (hf : c.Rooted f) : c.Rooted s := by
  induction h with
  | direct h => exact .nested h hf
  | through h _ _ ih => exact .nested h ih

theorem Settled.device_of_outer {l : List c.ScopeIdx} {a : Annotations c.extent}
    (h : c.Settled settings l a) {s o : c.ScopeIdx} {i : ExecInfo} (hi : a.exec? s = some i)
    (ho : c.outerOwner? s = some o) (hd : a.space? o = some .device) : i.space = .device := by
  rw [h.fixed s i hi]
  cases hm : c.ownMarker? settings s with
  | some m =>
    have hmark := ownMarker?_eq_some_iff.1 hm
    rw [execInfo_of_markedBy hmark]
    exact hmark.space
  | none =>
    obtain ⟨j, hj, hspace⟩ := Option.map_eq_some_iff.1 hd
    rw [execInfo_of_unmarked (ownMarker?_eq_none_iff.1 hm), ho]
    simpa [hj, ExecInfo.passedOn] using hspace

theorem Settled.owner_device {a : Annotations c.extent} (h : c.Settled settings c.scopeOrder a)
    {f s : c.ScopeIdx} (hf : (c.scope f).kind.isExecutable = true)
    (hd : a.space? f = some .device) (hw : c.Within f s) :
    ∃ o, c.outerOwner? s = some o ∧ a.space? o = some .device := by
  have hroot : c.Rooted f := by
    obtain ⟨i, hi, _⟩ := Option.map_eq_some_iff.1 hd
    exact mem_scopeOrder_iff.1 ((h.isSome_iff f).1 (by simp [hi])).2
  induction hw with
  | direct hp => exact ⟨f, outerOwner?_eq_some_iff.2 ⟨f, 0, hp, .self hf⟩, hd⟩
  | @through s p hp hk hw ih =>
    obtain ⟨o, ho, hod⟩ := ih
    rcases hk with hk | hk
    · have hsome := (h.isSome_iff p).2 ⟨hk, mem_scopeOrder_iff.2 (hw.rooted hroot)⟩
      obtain ⟨i, hi⟩ := Option.isSome_iff_exists.1 hsome
      refine ⟨p, outerOwner?_eq_some_iff.2 ⟨p, 0, hp, .self hk⟩, ?_⟩
      simp [Annotations.space?, hi, h.device_of_outer hi ho hod]
    · obtain ⟨q, n, hq, ho⟩ := outerOwner?_eq_some_iff.1 ho
      exact ⟨o, outerOwner?_eq_some_iff.2 ⟨p, n + 1, hp, .up hk hq ho⟩, hod⟩

theorem Settled.inherits {a : Annotations c.extent} (h : c.Settled settings c.scopeOrder a)
    {s o : c.ScopeIdx} {i : ExecInfo} (hi : a.exec? s = some i) (hu : c.Unmarked settings s)
    (ho : c.outerOwner? s = some o) : ∃ outer, a.exec? o = some outer ∧ i = outer.passedOn := by
  have hs := ((h.isSome_iff s).1 (by simp [hi])).2
  obtain ⟨p, n, hp, hpo⟩ := outerOwner?_eq_some_iff.1 ho
  have hmem := scopeOrder_parentsFirst.owner_mem hpo (scopeOrder_parentsFirst.parent_mem hs hp)
  obtain ⟨outer, houter⟩ := Option.isSome_iff_exists.1 ((h.isSome_iff o).2 ⟨hpo.isExecutable, hmem⟩)
  refine ⟨outer, houter, ?_⟩
  rw [h.fixed s i hi, execInfo_of_unmarked hu, ho]
  simp [houter]

/-- The rule that a classification is to solve. -/
structure Propagated (c : Configuration) (settings : Settings) (a : Annotations c.extent) : Prop where
  classified_iff : ∀ s, (a.exec? s).isSome ↔ (c.scope s).kind.isExecutable = true ∧ c.Rooted s
  marked : ∀ s i m, a.exec? s = some i → c.MarkedBy settings s m → i = ⟨m.space, m, false⟩
  inherits : ∀ s i o, a.exec? s = some i → c.Unmarked settings s →
    (c.parent? s).bind c.execOwner? = some o →
    ∃ outer, a.exec? o = some outer ∧ i = ⟨outer.space, outer.marker, true⟩
  unowned : ∀ s i, a.exec? s = some i → c.Unmarked settings s →
    (c.parent? s).bind c.execOwner? = none → i = ⟨.host, .host, false⟩
  device_iff : ∀ s i, a.exec? s = some i → (i.space = .device ↔ i.marker ≠ .host)
  device_below : ∀ f s, (c.scope f).kind = .function → a.space? f = some .device → c.Within f s →
    (c.scope s).kind = .block ∨ (c.scope s).kind = .lambda → c.Unmarked settings s →
    ∃ i, a.exec? s = some i ∧ i.space = .device ∧ i.inherited = true

/-- Classification solves the rule, whatever the parents are and whatever counts as a marker. -/
theorem classify_propagates (c : Configuration) (settings : Settings)
    (h : c.sections.scopes = true) : c.Propagated settings (c.classify settings .none) := by
  have hset : c.Settled settings c.scopeOrder (c.classify settings .none) := classify_settled h
  refine ⟨?_, ?_, ?_, ?_, ?_, ?_⟩
  · intro s
    rw [hset.isSome_iff, mem_scopeOrder_iff]
  · intro s i m hi hm
    rw [hset.fixed s i hi, execInfo_of_markedBy hm]
    rfl
  · intro s i o hi hu ho
    exact hset.inherits hi hu ho
  · intro s i hi hu ho
    rw [hset.fixed s i hi, execInfo_of_unmarked hu, outerOwner?, ho]
    rfl
  · intro s i hi
    rw [hset.consistent s i hi]
    exact ExecMarker.space_eq_device_iff
  · intro f s hf hd hw hk hu
    obtain ⟨i, hi, _⟩ := Option.map_eq_some_iff.1 hd
    obtain ⟨hexec, hmem⟩ := (hset.isSome_iff f).1 (by simp [hi])
    have hks : (c.scope s).kind.isExecutable = true := by
      rcases hk with hk | hk <;> rw [hk] <;> rfl
    have hsome := (hset.isSome_iff s).2
      ⟨hks, mem_scopeOrder_iff.2 (hw.rooted (mem_scopeOrder_iff.1 hmem))⟩
    obtain ⟨j, hj⟩ := Option.isSome_iff_exists.1 hsome
    obtain ⟨o, ho, hod⟩ := hset.owner_device hexec hd hw
    obtain ⟨outer, _, rfl⟩ := hset.inherits hj hu ho
    exact ⟨_, hj, hset.device_of_outer hj ho hod, rfl⟩

/-- The texts of a device function with a block inside an `if`. The block declares a host field,
indexes it and calls the standard library. -/
def nestedTexts : Vector String 35 :=
  #v["KOKKOS_FUNCTION", "void", "f", "(", ")", "\x7b", "if", "(", "c", ")", "\x7b", "\x7b",
    "host_t", "<", "Field", ">", "x", "(", "r", ")", ";", "x", "(", "i", ")", ";",
    "std", "::", "sort", "(", ")", ";", "\x7d", "\x7d", "\x7d"]

/-- The function is scope 1, the `if` scope 2 and the block scope 3. Scopes 4 and 5 are each
other's parents. -/
def nestedSample : Configuration where
  name := ""
  sections := ⟨true, true, true, false⟩
  extent := ⟨35, 6, 0, 1⟩
  tokens := Vector.ofFn fun i =>
    ⟨"", nestedTexts[i], 0, 1, i, .resolved (if 11 ≤ i.val ∧ i.val ≤ 32 then 3 else 1),
      if i = 16 ∨ i = 21 then .resolved 0 else .absent, .absent, .absent, .absent⟩
  scopes :=
    #v[⟨"", .globalScope, "", .absent, .absent, .absent, .absent, []⟩,
      ⟨"", .function, "f", .resolved 0, .resolved 5, .resolved 34, .absent, []⟩,
      ⟨"", .ifBody, "", .resolved 1, .resolved 10, .resolved 33, .absent, []⟩,
      ⟨"", .block, "", .resolved 2, .resolved 11, .resolved 32, .absent, [0]⟩,
      ⟨"", .block, "", .resolved 5, .absent, .absent, .absent, []⟩,
      ⟨"", .block, "", .resolved 4, .absent, .absent, .absent, []⟩]
  functions := #v[]
  vars := #v[⟨"", "x", .resolved 16, .resolved 12, .resolved 15, .locally, false, false, .resolved 3⟩]
  directives := []

theorem classify_propagates_nested :
    nestedSample.sections.scopes = true ∧
      nestedSample.Propagated .standard (nestedSample.classify .standard .none) ∧
      (nestedSample.classify .standard .none).exec? (3 : Fin 6) = some ⟨.device, .deviceFunction, true⟩ ∧
      (nestedSample.classify .standard .none).exec? (4 : Fin 6) = none :=
  ⟨rfl, classify_propagates nestedSample .standard rfl, by decide +kernel, by decide +kernel⟩

end Configuration

end SpaceAudit
