import SpaceAudit.Proofs.Alias.Merge
import SpaceAudit.Proofs.Audit.Findings
import SpaceAudit.Proofs.Group.Independence
import SpaceAudit.Proofs.Run.Fresh
import SpaceAudit.Proofs.Space.Classification

/-! The members of a group may come in any order. With one unit for each path no unit takes the
place of another: neither what the group knows nor what a unit raises depends on the order, and
findings of different units never share a key. -/
namespace SpaceAudit

theorem filter_eq_find? {α : Type} {l : List α} {p : α → Bool} (hn : l.Nodup)
    (hone : ∀ a ∈ l, ∀ b ∈ l, p a = true → p b = true → a = b) :
    l.filter p = (l.find? p).toList := by
  induction l with
  | nil => rfl
  | cons a l ih =>
    obtain ⟨ha, hl⟩ := List.nodup_cons.1 hn
    by_cases hpa : p a = true
    · have hrest : l.filter p = [] := by
        refine List.filter_eq_nil_iff.2 fun b hb hpb => ha ?_
        rwa [hone a (by simp) b (List.mem_cons_of_mem a hb) hpa hpb]
      simp [hpa, hrest]
    · have hrest := ih hl fun b hb c hc =>
        hone b (List.mem_cons_of_mem a hb) c (List.mem_cons_of_mem a hc)
      simp [hpa, hrest]

theorem filter_eq_of_perm {α : Type} {l m : List α} {p : α → Bool} (h : l.Perm m) (hn : l.Nodup)
    (hone : ∀ a ∈ l, ∀ b ∈ l, p a = true → p b = true → a = b) : l.filter p = m.filter p := by
  have hone' : ∀ a ∈ m, ∀ b ∈ m, p a = true → p b = true → a = b := fun a ha b hb =>
    hone a (h.mem_iff.2 ha) b (h.mem_iff.2 hb)
  rw [filter_eq_find? hn hone, filter_eq_find? (h.nodup_iff.1 hn) hone', find?_eq_of_perm h hone]

namespace Signatures

structure Same (a b : Signatures) : Prop where
  owning : ∀ name, name ∈ a.owning ↔ name ∈ b.owning
  auto : ∀ name, name ∈ a.auto ↔ name ∈ b.auto

theorem mem_foldl {α : Type} (f : α → Signatures) (l : List α) (s : Signatures) (name : String) :
    (name ∈ (l.foldl (fun s a => s.append (f a)) s).owning ↔
        name ∈ s.owning ∨ ∃ a ∈ l, name ∈ (f a).owning) ∧
      (name ∈ (l.foldl (fun s a => s.append (f a)) s).auto ↔
        name ∈ s.auto ∨ ∃ a ∈ l, name ∈ (f a).auto) := by
  induction l generalizing s with
  | nil => simp
  | cons a l ih =>
    rw [List.foldl_cons, (ih _).1, (ih _).2]
    simp [append, or_assoc]

theorem nodup_eraseDups (names : List String) : names.eraseDups.Nodup := by
  -- Erasing looks at a filtered rest, so the induction is on the length.
  induction hn : names.length using Nat.strongRecOn generalizing names with
  | ind n ih =>
    cases names with
    | nil => simp
    | cons a rest =>
      rw [List.eraseDups_cons, List.nodup_cons]
      refine ⟨by simp, ih _ ?_ _ rfl⟩
      have := List.length_filter_le (fun b => !b == a) rest
      simp only [List.length_cons] at hn
      omega

theorem inOrder_congr {a b : List String} (h : ∀ name, name ∈ a ↔ name ∈ b) :
    inOrder a = inOrder b := by
  have hle (names : List String) :
      (inOrder names).Pairwise fun m n => decide (m ≤ n) = true := by
    refine List.pairwise_mergeSort ?_ ?_ _
    · simpa using fun m n k => String.le_trans
    · simpa using fun m n => String.le_total m n
  have hperm : (inOrder a).Perm (inOrder b) := by
    refine (List.mergeSort_perm _ _).trans (List.Perm.trans ?_ (List.mergeSort_perm _ _).symm)
    rw [List.perm_ext_iff_of_nodup (nodup_eraseDups a) (nodup_eraseDups b)]
    simpa using h
  refine hperm.eq_of_pairwise ?_ (hle a) (hle b)
  intro m n _ _ hmn hnm
  exact String.le_antisymm (of_decide_eq_true hmn) (of_decide_eq_true hnm)

theorem Same.ordered_eq {a b : Signatures} (h : a.Same b) : a.ordered = b.ordered := by
  rw [ordered, ordered, inOrder_congr h.owning, inOrder_congr h.auto]

end Signatures

def SourceUnit.Distinct (units : List SourceUnit) : Prop :=
  (units.map fun u => u.path.components).Nodup

namespace GroupContext
variable {g h : GroupContext} {settings : Settings} {isOwning : String → Bool}
  {units other : List SourceUnit}

structure Agree (g h : GroupContext) : Prop where
  aliases : ∀ path, g.aliases.get path = h.aliases.get path
  signatures : g.signatures.Same h.signatures

theorem sources_distinct (hd : SourceUnit.Distinct units) :
    AliasSource.Distinct (units.map AliasSource.ofUnit) := by
  have hpath (u : SourceUnit) : (AliasSource.ofUnit u).path = u.path := rfl
  simp only [AliasSource.Distinct, List.map_map, Function.comp_def, hpath]
  exact hd

theorem agree_ofUnits (hd : SourceUnit.Distinct units) (hp : units.Perm other) :
    Agree (ofUnits settings isOwning units) (ofUnits settings isOwning other) := by
  have haliases (path : Path) : (ofUnits settings isOwning units).aliases.get path =
      (ofUnits settings isOwning other).aliases.get path :=
    GroupAliases.get_perm (sources_distinct hd) (hp.map _) path
  have hunit (u : SourceUnit) :
      unitSignatures (ofUnits settings isOwning units).aliases isOwning u =
        unitSignatures (ofUnits settings isOwning other).aliases isOwning u := by
    rw [unitSignatures, unitSignatures, haliases]
  have hunits := Signatures.mem_foldl
    (unitSignatures (ofUnits settings isOwning units).aliases isOwning) units .empty
  have hother := Signatures.mem_foldl
    (unitSignatures (ofUnits settings isOwning other).aliases isOwning) other .empty
  refine ⟨haliases, fun name => ?_, fun name => ?_⟩
  · refine (hunits name).1.trans (Iff.trans ?_ (hother name).1.symm)
    simp only [hunit, hp.mem_iff]
  · refine (hunits name).2.trans (Iff.trans ?_ (hother name).2.symm)
    simp only [hunit, hp.mem_iff]

theorem Agree.annotate_eq (hg : g.Agree h) (u : AnnotatedUnit) :
    u.annotate settings g = u.annotate settings h := by
  rw [AnnotatedUnit.annotate, AnnotatedUnit.annotate, hg.aliases]

theorem Agree.raised_eq (hg : g.Agree h) (u : SourceUnit) :
    u.raised settings g = u.raised settings h := by
  have hsubject (v : AnnotatedUnit) (a : AnnotatedConfiguration) :
      a.subject settings g v = a.subject settings h v := by
    rw [AnnotatedConfiguration.subject, AnnotatedConfiguration.subject, hg.aliases,
      hg.signatures.ordered_eq]
  rw [SourceUnit.raised, SourceUnit.raised, hg.annotate_eq]
  simp only [AnnotatedUnit.findings, hsubject]

end GroupContext

theorem SourceUnit.file_of_mem_raised {settings : Settings} {g : GroupContext} {u : SourceUnit}
    {f : Finding} (hf : f ∈ u.raised settings g) : f.file = u.path := by
  obtain ⟨a, _, hf⟩ := List.mem_flatMap.1 hf
  exact Subject.file_of_mem_findings hf

namespace Run

theorem report_claim (r : Run) (path : Path) (f : Finding) :
    (r.claim path).report f = (r.report f).claim path := by
  unfold report claim isFree
  by_cases hk : r.findings.any f.sameKey = true <;> by_cases hp : path.isIn r.claimed = true <;>
    simp [hk, hp]

theorem reportAll_claim (r : Run) (path : Path) (fs : List Finding) :
    (r.claim path).reportAll fs = (r.reportAll fs).claim path := by
  induction fs generalizing r with
  | nil => rfl
  | cons f fs ih => exact (congrArg (·.reportAll fs) (report_claim r path f)).trans (ih (r.report f))

theorem worst?_claim (r : Run) (path : Path) : (r.claim path).worst? = r.worst? := by
  unfold claim
  split <;> rfl

theorem recorded_claims (r : Run) (paths : List Path) :
    (paths.foldl claim r).findings = r.findings ∧ (paths.foldl claim r).worst? = r.worst? := by
  induction paths generalizing r with
  | nil => exact ⟨rfl, rfl⟩
  | cons path paths ih =>
    obtain ⟨hfindings, hworst⟩ := ih (r.claim path)
    exact ⟨hfindings.trans (findings_claim r path), hworst.trans (worst?_claim r path)⟩

theorem isFree_reportAll (r : Run) (fs : List Finding) (path : Path) :
    (r.reportAll fs).isFree path = r.isFree path := by
  rw [isFree, isFree, claimed_reportAll]

theorem isFree_claim {r : Run} {path q : Path} (h : q.components ≠ path.components) :
    (r.claim path).isFree q = r.isFree q := by
  rw [isFree, isFree, Bool.eq_iff_iff]
  simp only [Bool.not_eq_true', ← Bool.not_eq_true, isIn_claim, h, or_false]

theorem fresh_flatMap {settings : Settings} {g : GroupContext} {units : List SourceUnit}
    (hd : SourceUnit.Distinct units) (r : Run) :
    r.fresh (units.flatMap (SourceUnit.raised settings g)) =
      units.flatMap fun u => r.fresh (u.raised settings g) := by
  have hkeys : units.Pairwise fun u v =>
      ∀ f ∈ u.raised settings g, ∀ h ∈ v.raised settings g, f.key ≠ h.key := by
    refine (List.pairwise_map.1 hd).imp fun hne f hf h hh heq => hne ?_
    have hfile : f.file.components = h.file.components := congrArg (fun k => k.2.1) heq
    rw [SourceUnit.file_of_mem_raised hf, SourceUnit.file_of_mem_raised hh] at hfile
    exact hfile
  simp only [fresh, firstsOf_flatMap hkeys, List.filter_flatMap]

end Run

/-- What an audit of a group makes of a unit: a source that is still free is annotated. -/
def SourceUnit.audited (settings : Settings) (g : GroupContext) (r : Run) (u : SourceUnit) :
    AnnotatedUnit :=
  if r.isFree u.path then u.unannotated.annotate settings g else u.unannotated

def Run.raisedBy (settings : Settings) (g : GroupContext) (r : Run) (units : List SourceUnit) :
    List Finding :=
  (units.filter fun u => r.isFree u.path).flatMap (SourceUnit.raised settings g)

def Run.addedBy (settings : Settings) (g : GroupContext) (r : Run) (units : List SourceUnit) :
    List Finding :=
  (units.filter fun u => r.isFree u.path).flatMap fun u => r.fresh (u.raised settings g)

namespace GroupAudit
variable {settings : Settings} {isOwning : String → Bool} {units other : List SourceUnit}

/-- Between units of different paths the run passes nothing on. -/
theorem auditList_eq (g : GroupContext) (hd : SourceUnit.Distinct units) (r : Run) :
    AnnotatedUnit.auditList (AnnotatedUnit.auditOnce settings g)
        (units.map SourceUnit.unannotated) r =
      (units.map (SourceUnit.audited settings g r),
        (units.map SourceUnit.path).foldl Run.claim (r.reportAll (r.raisedBy settings g units))) := by
  induction units generalizing r with
  | nil => rfl
  | cons u us ih =>
    obtain ⟨hu, hus⟩ := List.nodup_cons.1 hd
    rw [List.map_cons, AnnotatedUnit.auditList]
    cases hfree : r.isFree u.path with
    | true =>
      have hstep : AnnotatedUnit.auditOnce settings g u.unannotated r =
          (u.unannotated.annotate settings g, (r.reportAll (u.raised settings g)).claim u.path) := by
        rw [← Run.reportAll_claim]
        simp only [AnnotatedUnit.auditOnce, SourceUnit.path_unannotated, hfree, if_true]
        rfl
      -- The later units have other paths, so for them the run is as free as it was.
      have hlater (v : SourceUnit) (hv : v ∈ us) :
          ((r.reportAll (u.raised settings g)).claim u.path).isFree v.path = r.isFree v.path := by
        rw [Run.isFree_claim, Run.isFree_reportAll]
        intro heq
        exact hu (List.mem_map.2 ⟨v, hv, heq⟩)
      have haudited : us.map (SourceUnit.audited settings g
            ((r.reportAll (u.raised settings g)).claim u.path)) =
          us.map (SourceUnit.audited settings g r) := by
        refine List.map_congr_left fun v hv => ?_
        rw [SourceUnit.audited, SourceUnit.audited, hlater v hv]
      have hraised : ((r.reportAll (u.raised settings g)).claim u.path).raisedBy settings g us =
          r.raisedBy settings g us := by
        rw [Run.raisedBy, Run.raisedBy, List.filter_congr hlater]
      have hall : r.raisedBy settings g (u :: us) =
          u.raised settings g ++ r.raisedBy settings g us := by
        simp [Run.raisedBy, hfree]
      have hreport (fs : List Finding) :
          ((r.reportAll (u.raised settings g)).claim u.path).reportAll fs =
            (r.reportAll (u.raised settings g ++ fs)).claim u.path := by
        rw [Run.reportAll_claim]
        simp [Run.reportAll]
      rw [hstep]
      dsimp only
      rw [ih hus, haudited, hraised, hreport, hall]
      simp [SourceUnit.audited, hfree]
    | false =>
      have hstep : AnnotatedUnit.auditOnce settings g u.unannotated r = (u.unannotated, r) := by
        simp [AnnotatedUnit.auditOnce, hfree]
      have hclaim (fs : List Finding) : (r.reportAll fs).claim u.path = r.reportAll fs := by
        rw [Run.claim, Run.isFree_reportAll, hfree]
        rfl
      rw [hstep]
      dsimp only
      rw [ih hus]
      simp [SourceUnit.audited, Run.raisedBy, hfree, hclaim]

theorem ofUnits_eq (settings : Settings) (isOwning : String → Bool)
    (hd : SourceUnit.Distinct units) (r : Run) :
    GroupAudit.ofUnits settings isOwning units r =
      ⟨.ofUnits settings isOwning units,
        units.map (SourceUnit.audited settings (.ofUnits settings isOwning units) r),
        (units.map SourceUnit.path).foldl Run.claim
          (r.reportAll (r.raisedBy settings (.ofUnits settings isOwning units) units))⟩ := by
  simp only [GroupAudit.ofUnits, auditList_eq _ hd]

/-- What a group adds to a run: for every unit what it alone would add. -/
theorem recorded_ofUnits (settings : Settings) (isOwning : String → Bool)
    (hd : SourceUnit.Distinct units) (r : Run) :
    (GroupAudit.ofUnits settings isOwning units r).run.findings =
        r.findings ++ r.addedBy settings (.ofUnits settings isOwning units) units ∧
      (GroupAudit.ofUnits settings isOwning units r).run.worst? =
        (r.addedBy settings (.ofUnits settings isOwning units) units).foldl Run.worse r.worst? := by
  have hfree : SourceUnit.Distinct (units.filter fun u => r.isFree u.path) :=
    List.Nodup.sublist (List.filter_sublist.map _) hd
  rw [ofUnits_eq settings isOwning hd, (Run.recorded_claims _ _).1, (Run.recorded_claims _ _).2,
    (Run.recorded_reportAll _ _).1, (Run.recorded_reportAll _ _).2, Run.raisedBy,
    Run.fresh_flatMap hfree]
  exact ⟨rfl, rfl⟩

theorem filter_addedBy (settings : Settings) (g : GroupContext) (r : Run) (path : Path)
    (us : List SourceUnit) :
    (r.addedBy settings g us).filter (·.file.same path) =
      r.addedBy settings g (us.filter fun u => u.path.same path) := by
  have hfile (u : SourceUnit) (f : Finding) (hf : f ∈ r.fresh (u.raised settings g)) :
      f.file = u.path :=
    SourceUnit.file_of_mem_raised (mem_of_mem_firstsOf (List.mem_of_mem_filter hf))
  unfold Run.addedBy
  rw [List.filter_flatMap, List.filter_comm]
  induction us.filter fun u => r.isFree u.path with
  | nil => rfl
  | cons u us ih =>
    rw [List.flatMap_cons, ih]
    cases hu : u.path.same path with
    | true =>
      have hkept : (r.fresh (u.raised settings g)).filter (·.file.same path) =
          r.fresh (u.raised settings g) := by
        refine List.filter_eq_self.2 fun f hf => ?_
        rw [hfile u f hf, hu]
      simp [hu, hkept]
    | false =>
      have hdropped : (r.fresh (u.raised settings g)).filter (·.file.same path) = [] := by
        refine List.filter_eq_nil_iff.2 fun f hf => ?_
        simp [hfile u f hf, hu]
      simp [hu, hdropped]

/-- Two audits of the same units, each in its own order, come to the same. -/
structure OrderFree (settings : Settings) (isOwning : String → Bool) (r : Run)
    (units other : List SourceUnit) : Prop where
  /-- Every path has the same merged aliases. -/
  tables : (GroupAudit.ofUnits settings isOwning units r).context.aliases.tables.Perm
    (GroupAudit.ofUnits settings isOwning other r).context.aliases.tables
  aliases : ∀ path, (GroupAudit.ofUnits settings isOwning units r).context.aliases.get path =
    (GroupAudit.ofUnits settings isOwning other r).context.aliases.get path
  /-- The same functions return an owning field, and the same return `auto`. -/
  signatures : (GroupAudit.ofUnits settings isOwning units r).context.signatures.Same
    (GroupAudit.ofUnits settings isOwning other r).context.signatures
  /-- Every unit gets the same annotations. -/
  annotated : ∃ annotated : SourceUnit → AnnotatedUnit,
    (GroupAudit.ofUnits settings isOwning units r).units = units.map annotated ∧
      (GroupAudit.ofUnits settings isOwning other r).units = other.map annotated
  worst : (GroupAudit.ofUnits settings isOwning units r).run.worst? =
    (GroupAudit.ofUnits settings isOwning other r).run.worst?
  /-- The findings are the same up to their order, and those of one file keep theirs. -/
  findings : (GroupAudit.ofUnits settings isOwning units r).run.findings.Perm
    (GroupAudit.ofUnits settings isOwning other r).run.findings
  ofFile : ∀ path : Path,
    (GroupAudit.ofUnits settings isOwning units r).run.findings.filter (·.file.same path) =
      (GroupAudit.ofUnits settings isOwning other r).run.findings.filter (·.file.same path)

/-- The order of the units of a group does not matter. -/
theorem orderFree_of_perm (settings : Settings) (isOwning : String → Bool) (r : Run)
    (units other : List SourceUnit) (hd : SourceUnit.Distinct units) (hp : units.Perm other) :
    OrderFree settings isOwning r units other := by
  have hd' : SourceUnit.Distinct other := (hp.map _).nodup_iff.1 hd
  have hagree : GroupContext.Agree (.ofUnits settings isOwning units)
      (.ofUnits settings isOwning other) := GroupContext.agree_ofUnits hd hp
  have hraised : SourceUnit.raised settings (.ofUnits settings isOwning units) =
      SourceUnit.raised settings (.ofUnits settings isOwning other) :=
    funext fun u => hagree.raised_eq u
  have haudited : SourceUnit.audited settings (.ofUnits settings isOwning units) r =
      SourceUnit.audited settings (.ofUnits settings isOwning other) r := by
    funext u
    rw [SourceUnit.audited, SourceUnit.audited, hagree.annotate_eq]
  have hadded (us : List SourceUnit) : r.addedBy settings (.ofUnits settings isOwning units) us =
      r.addedBy settings (.ofUnits settings isOwning other) us := by
    rw [Run.addedBy, Run.addedBy, hraised]
  obtain ⟨hfindings, hworst⟩ := recorded_ofUnits settings isOwning hd r
  obtain ⟨hfindings', hworst'⟩ := recorded_ofUnits settings isOwning hd' r
  have hperm : (r.addedBy settings (.ofUnits settings isOwning units) units).Perm
      (r.addedBy settings (.ofUnits settings isOwning other) other) := by
    rw [hadded]
    exact (hp.filter _).flatMap_right _
  refine ⟨?_, ?_, ?_, ?_, ?_, ?_, ?_⟩
  · exact GroupAliases.tables_perm (GroupContext.sources_distinct hd) (hp.map _)
  · exact hagree.aliases
  · exact hagree.signatures
  · refine ⟨SourceUnit.audited settings (.ofUnits settings isOwning units) r, ?_, ?_⟩
    · rw [ofUnits_eq settings isOwning hd]
    · rw [ofUnits_eq settings isOwning hd', haudited]
  · rw [hworst, hworst', Run.foldl_worse_perm hperm]
  · rw [hfindings, hfindings']
    exact hperm.append_left _
  · intro path
    -- One unit at most has the path, so its findings stand in no other order.
    have hone : units.filter (fun u => u.path.same path) =
        other.filter fun u => u.path.same path := by
      refine filter_eq_of_perm hp (List.Nodup.of_map _ hd) fun u hu v hv hpu hpv => ?_
      rw [Path.same_iff] at hpu hpv
      exact List.inj_on_of_nodup_map hd hu hv (hpu.trans hpv.symm)
    rw [hfindings, hfindings', List.filter_append, List.filter_append, filter_addedBy, filter_addedBy,
      hone, hadded]

/-- Three sources with the same content. What they include is a shared header that two of them could
be. -/
def headerSample : List SourceUnit :=
  ["b/geometry.hpp.dump", "a/geometry.hpp.dump", "c.cpp.dump"].map fun dump =>
    ⟨⟨dump⟩, [], [⟨"#", 0, 1, 1⟩, ⟨"include", 0, 1, 2⟩, ⟨"\"geometry.hpp\"", 0, 1, 10⟩],
      [Configuration.nestedSample]⟩

theorem orderFree_of_perm_headers :
    (headerSample.map fun u => u.path.components).Nodup ∧
      OrderFree .standard (fun _ => false) .start headerSample headerSample.reverse :=
  have hd : (headerSample.map fun u => u.path.components).Nodup := by decide +kernel
  ⟨hd, orderFree_of_perm .standard (fun _ => false) .start _ _ hd (List.reverse_perm _).symm⟩

end GroupAudit

end SpaceAudit
