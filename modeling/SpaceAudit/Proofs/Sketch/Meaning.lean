import Mathlib.Data.List.Induction
import SpaceAudit.Proofs.Sketch.Remarks

/-! What the remarks of the code mean: where bodies, types and definitions lie, what the words stand
for, and which scope is the innermost one around them. The layout comes to the same. -/
namespace SpaceAudit.Sketch

inductive Place where
  | bodyStart | bodyEnd | nameToken | typeStart | typeEnd | definition

inductive Use where
  | var | function | valueType

namespace Remark

/-- Whether a remark on a word with the given text names the word as a place. -/
def places (text : String) (m : Remark) : Place → Bool
  | .bodyStart => m.kind == "" && text == "\x7b"
  | .bodyEnd => m.kind == "" && text == "\x7d"
  | .nameToken => m.kind == "decl"
  | .typeStart => m.kind == "ty" || m.kind == "ts"
  | .typeEnd => m.kind == "ty" || m.kind == "te"
  | .definition => m.kind == "def"

/-- Whether a remark on a word with the given text says what the word stands for. -/
def uses (text : String) (m : Remark) : Use → Bool
  | .var => m.kind == "v" || m.kind == "decl" || m.kind == "" && text != "\x7b" && text != "\x7d"
  | .function => m.kind == "f" || m.kind == "def"
  | .valueType => m.kind == "vt"

end Remark

inductive Brace where
  | opens (key : String)
  | closes (key : String)

def Brace.key : Brace → String
  | opens key | closes key => key

def Remark.brace? (text : String) (m : Remark) : Option Brace :=
  if m.places text .bodyStart then some (.opens m.key)
  else if m.places text .bodyEnd then some (.closes m.key)
  else none

namespace Reading
variable (r : Reading)

/-- The key of what the word stands for. Of several remarks the last counts. -/
def key? (use : Use) : Option String :=
  ((r.remarks.filter (·.uses r.text use)).getLast?).map Remark.key

def braces : List Brace := r.remarks.filterMap (·.brace? r.text)

end Reading

/-- The word at a position is named as a place for the key. -/
def Named (rs : List Reading) (place : Place) (key : String) (i : Nat) : Prop :=
  ∃ r, rs[i]? = some r ∧ ∃ m ∈ r.remarks, m.places r.text place = true ∧ m.key = key

def Last (p : Nat → Prop) (i : Nat) : Prop := p i ∧ ∀ j, p j → j ≤ i

section Scopes

/-- Braces that leave the open scopes as they were. What is opened is closed again, and what closes
another scope than the innermost one is stray. Outside of all scopes every closing brace is. -/
inductive Settled : Option String → List Brace → Prop
  | nil {top : Option String} : Settled top []
  | stray {top : Option String} {key : String} {bs : List Brace} (hkey : top ≠ some key)
      (h : Settled top bs) : Settled top (.closes key :: bs)
  | block {top : Option String} {key : String} {inner rest : List Brace}
      (hinner : Settled (some key) inner) (hrest : Settled top rest) :
      Settled top (.opens key :: (inner ++ .closes key :: rest))

/-- The scope that was opened last and not closed since, or else the global one. -/
inductive Innermost (bs : List Brace) (key : String) : Prop
  | opened (before inner : List Brace) (hbs : bs = before ++ .opens key :: inner)
      (hinner : Settled (some key) inner)
  | outside (hkey : key = globalKey) (h : Settled none bs)

/-- The scope of the word at a position: that of its own brace, or the innermost one before it. -/
inductive InScope (rs : List Reading) (i : Nat) (key : String) : Prop
  | brace (r : Reading) (b : Brace) (hr : rs[i]? = some r) (hb : r.braces.getLast? = some b)
      (hkey : b.key = key)
  | code (r : Reading) (hr : rs[i]? = some r) (hb : r.braces = [])
      (h : Innermost ((rs.take i).flatMap Reading.braces) key)

def Brace.turn (stack : List String) : Brace → List String
  | opens key => key :: stack
  | closes key => Layout.closeScope key stack

theorem Settled.append {top : Option String} {bs more : List Brace} (h : Settled top bs)
    (hmore : Settled top more) : Settled top (bs ++ more) := by
  induction h with
  | nil => exact hmore
  | stray hkey _ ih => exact .stray hkey (ih hmore)
  | block hinner _ _ ih =>
    rw [List.cons_append, List.append_assoc, List.cons_append]
    exact .block hinner (ih hmore)

def topOf? : List String → Option String
  | top :: _ :: _ => some top
  | _ => none

theorem closeScope_of_ne {key : String} {stack : List String} (h : topOf? stack ≠ some key) :
    Layout.closeScope key stack = stack := by
  cases stack with
  | nil => rfl
  | cons top rest =>
    cases rest with
    | nil => rfl
    | cons next rest =>
      have htop : top ≠ key := fun heq => h (congrArg some heq)
      exact if_neg htop

theorem closeScope_top (key : String) {stack : List String} (h : stack ≠ []) :
    Layout.closeScope key (key :: stack) = stack := by
  cases stack with
  | nil => exact absurd rfl h
  | cons next rest => exact if_pos rfl

theorem topOf?_cons (key : String) {stack : List String} (h : stack ≠ []) :
    topOf? (key :: stack) = some key := by
  cases stack with
  | nil => exact absurd rfl h
  | cons next rest => rfl

theorem Settled.foldl_turn {top : Option String} {bs : List Brace} (h : Settled top bs)
    {stack : List String} (htop : topOf? stack = top) (hne : stack ≠ []) :
    bs.foldl Brace.turn stack = stack := by
  induction h generalizing stack with
  | nil => rfl
  | stray hkey _ ih =>
    rw [List.foldl_cons, Brace.turn, closeScope_of_ne (htop ▸ hkey)]
    exact ih htop hne
  | @block top key inner rest _ _ ihInner ihRest =>
    have hclose := closeScope_top key hne
    rw [List.foldl_cons, Brace.turn, List.foldl_append, ihInner (topOf?_cons key hne) nofun,
      List.foldl_cons, Brace.turn, hclose]
    exact ihRest htop hne

/-- The braces that left a stack: each open scope with what is settled inside it. -/
inductive Stacked : List Brace → List String → Prop
  | outside {bs : List Brace} (h : Settled none bs) : Stacked bs [globalKey]
  | opened {bs inner : List Brace} {key : String} {stack : List String} (h : Stacked bs stack)
      (hinner : Settled (some key) inner) : Stacked (bs ++ .opens key :: inner) (key :: stack)

theorem Stacked.ne_nil {bs : List Brace} {stack : List String} (h : Stacked bs stack) :
    stack ≠ [] := by
  cases h <;> exact List.cons_ne_nil _ _

theorem Stacked.append {bs more : List Brace} {stack : List String} (h : Stacked bs stack)
    (hmore : Settled (topOf? stack) more) : Stacked (bs ++ more) stack := by
  cases h with
  | outside h => exact .outside (h.append hmore)
  | @opened bs inner key stack h hinner =>
    rw [topOf?_cons key h.ne_nil] at hmore
    rw [List.append_assoc, List.cons_append]
    exact .opened h (hinner.append hmore)

theorem Stacked.turn {bs : List Brace} {stack : List String} (h : Stacked bs stack) (b : Brace) :
    Stacked (bs ++ [b]) (b.turn stack) := by
  cases b with
  | opens key => exact .opened h .nil
  | closes key =>
    by_cases htop : topOf? stack = some key
    · cases h with
      | outside h => cases htop
      | @opened bs inner top stack h hinner =>
        rw [topOf?_cons top h.ne_nil, Option.some_inj] at htop
        subst htop
        -- The scope and what is inside it are settled for the scope around it.
        rw [Brace.turn, closeScope_top top h.ne_nil, List.append_assoc, List.cons_append]
        exact h.append (.block hinner .nil)
    · rw [Brace.turn, closeScope_of_ne htop]
      exact h.append (.stray htop .nil)

theorem stacked_foldl (bs : List Brace) : Stacked bs (bs.foldl Brace.turn [globalKey]) := by
  induction bs using List.reverseRecOn with
  | nil => exact .outside .nil
  | append_singleton bs b ih =>
    rw [List.foldl_append]
    exact ih.turn b

theorem innermost_iff {bs : List Brace} {key : String} :
    Innermost bs key ↔ (bs.foldl Brace.turn [globalKey]).headD "" = key := by
  constructor
  · intro h
    cases h with
    | opened before inner hbs hinner =>
      have hne := (stacked_foldl before).ne_nil
      rw [hbs, List.foldl_append, List.foldl_cons, Brace.turn,
        hinner.foldl_turn (topOf?_cons key hne) nofun]
      rfl
    | outside hkey h =>
      have hsame : bs.foldl Brace.turn [globalKey] = [globalKey] := h.foldl_turn rfl nofun
      rw [hsame, hkey]
      rfl
  · intro h
    have hstacked := stacked_foldl bs
    cases hstack : bs.foldl Brace.turn [globalKey] with
    | nil => exact absurd hstack hstacked.ne_nil
    | cons top stack =>
      rw [hstack] at h hstacked
      obtain rfl : top = key := h
      cases hstacked with
      | outside h => exact .outside rfl h
      | opened _ hinner => exact .opened _ _ rfl hinner

end Scopes

section Tables

def namedPlaces (place : Place) (rs : List Reading) : List (String × Nat) :=
  rs.zipIdx.flatMap fun p =>
    (p.1.remarks.filter (·.places p.1.text place)).map fun m => (m.key, p.2)

variable {rs : List Reading} {place : Place} {key : String} {i : Nat}

theorem mem_namedPlaces : (key, i) ∈ namedPlaces place rs ↔ Named rs place key i := by
  simp only [namedPlaces, Named, List.mem_flatMap, List.mem_map, List.mem_filter, Prod.exists,
    List.mem_zipIdx_iff_getElem?, Prod.mk.injEq]
  constructor
  · intro h
    obtain ⟨r, j, hr, m, ⟨hm, hplace⟩, hkey, rfl⟩ := h
    exact ⟨r, hr, m, hm, hplace, hkey⟩
  · intro h
    obtain ⟨r, hr, m, hm, hplace, hkey⟩ := h
    exact ⟨r, i, hr, m, ⟨hm, hplace⟩, hkey, rfl⟩

theorem namedPlaces_concat (place : Place) (rs : List Reading) (r : Reading) :
    namedPlaces place (rs ++ [r]) = namedPlaces place rs ++
      (r.remarks.filter (·.places r.text place)).map fun m => (m.key, rs.length) := by
  simp [namedPlaces, List.zipIdx_append]

theorem Named.lt (h : Named rs place key i) : i < rs.length := by
  obtain ⟨r, hr, _⟩ := h
  exact (List.getElem?_eq_some_iff.1 hr).1

theorem namedPlaces_pairwise (place : Place) (rs : List Reading) :
    (namedPlaces place rs).Pairwise fun a b => a.2 ≤ b.2 := by
  induction rs using List.reverseRecOn with
  | nil => exact .nil
  | append_singleton rs r ih =>
    rw [namedPlaces_concat]
    refine List.pairwise_append.2 ⟨ih, ?_, fun a ha b hb => ?_⟩
    · exact List.pairwise_map.2 (List.pairwise_of_forall fun _ _ => Nat.le_refl _)
    · obtain ⟨m, _, rfl⟩ := List.mem_map.1 hb
      exact Nat.le_of_lt (mem_namedPlaces.1 ha).lt

theorem last_of_lookup (h : (namedPlaces place rs).reverse.lookup key = some i) :
    Last (Named rs place key) i := by
  obtain ⟨later, earlier, hsplit, hlater⟩ := List.lookup_eq_some_iff.1 h
  have hplaces : namedPlaces place rs = earlier.reverse ++ (key, i) :: later.reverse := by
    rw [← List.reverse_reverse (namedPlaces place rs), hsplit]
    simp
  have hpairwise := namedPlaces_pairwise place rs
  rw [hplaces] at hpairwise
  refine ⟨mem_namedPlaces.1 (by simp [hplaces]), fun j hj => ?_⟩
  -- Another place of the key stands before this one, since the places behind it have other keys.
  have hmem := mem_namedPlaces.2 hj
  rw [hplaces] at hmem
  cases List.mem_append.1 hmem with
  | inl hbefore => exact (List.pairwise_append.1 hpairwise).2.2 _ hbefore _ List.mem_cons_self
  | inr hrest =>
    cases List.mem_cons.1 hrest with
    | inl hsame => exact Nat.le_of_eq (Prod.mk.inj hsame).2
    | inr hafter =>
      have hne := hlater _ (List.mem_reverse.1 hafter)
      simp at hne

/-- Looked up from the end, a key is found at its last place. -/
theorem lookup_eq_some_iff_last :
    (namedPlaces place rs).reverse.lookup key = some i ↔ Last (Named rs place key) i := by
  refine ⟨last_of_lookup, fun h => ?_⟩
  cases hlookup : (namedPlaces place rs).reverse.lookup key with
  | none =>
    have hmem := List.mem_reverse.2 (mem_namedPlaces.2 h.1)
    have hne := List.lookup_eq_none_iff.1 hlookup _ hmem
    simp at hne
  | some j =>
    have hj := last_of_lookup hlookup
    rw [Nat.le_antisymm (h.2 j hj.1) (hj.2 i h.1)]

end Tables

section Laid
variable {i : Nat} {text : String} {ms ms' : List Remark} {l l' l'' : Layout} {w w' w'' : Placed}

def Layout.table (l : Layout) : Place → List (String × Nat)
  | .bodyStart => l.bodyStart
  | .bodyEnd => l.bodyEnd
  | .nameToken => l.nameToken
  | .typeStart => l.typeStart
  | .typeEnd => l.typeEnd
  | .definition => l.definition

def Placed.key? (p : Placed) : Use → Option String
  | .var => p.var
  | .function => p.function
  | .valueType => p.valueType

/-- What the remarks of the word at position `i` come to, for the layout and for the word. -/
structure Takes (i : Nat) (text : String) (ms : List Remark) (l l' : Layout) (w w' : Placed) :
    Prop where
  table : ∀ place, l'.table place =
    ((ms.filter (·.places text place)).map fun m => (m.key, i)).reverse ++ l.table place
  stack : l'.stack = (ms.filterMap (·.brace? text)).foldl Brace.turn l.stack
  key : ∀ use, w'.key? use = (((ms.filter (·.uses text use)).getLast?).map Remark.key).or (w.key? use)
  scope : w'.scope = (((ms.filterMap (·.brace? text)).getLast?).map Brace.key).getD w.scope

namespace Takes

theorem refl (i : Nat) (text : String) (l : Layout) (w : Placed) : Takes i text [] l l w w :=
  ⟨fun _ => rfl, rfl, fun _ => rfl, rfl⟩

theorem trans (h : Takes i text ms l l' w w') (h' : Takes i text ms' l' l'' w' w'') :
    Takes i text (ms ++ ms') l l'' w w'' where
  table place := by
    rw [h'.table, h.table, List.filter_append, List.map_append, List.reverse_append,
      List.append_assoc]
  stack := by rw [h'.stack, h.stack, List.filterMap_append, List.foldl_append]
  key use := by
    rw [h'.key, h.key, List.filter_append, List.getLast?_append, Option.map_or, Option.or_assoc]
  scope := by
    rw [h'.scope, h.scope, List.filterMap_append, List.getLast?_append, Option.map_or,
      Option.getD_or]

end Takes

theorem takes_of_note_none {m : Remark} (h : m.note? = none) (i : Nat) (text : String) (l : Layout)
    (w : Placed) : Takes i text [m] l l w w := by
  obtain ⟨kind, key⟩ := m
  change Note.ofPair? kind key = none at h
  unfold Note.ofPair? at h
  split at h
  -- Only a kind that is none of the nine gives no note.
  case h_10 =>
    refine ⟨fun place => ?_, ?_, fun use => ?_, ?_⟩
    · cases place <;> simp_all [Remark.places]
    · simp_all [Remark.brace?, Remark.places]
    · cases use <;> simp_all [Remark.uses]
    · simp_all [Remark.brace?, Remark.places]
  all_goals cases h

def Note.remark : Note → Remark
  | plain key => ⟨"", key⟩
  | names key => ⟨"v", key⟩
  | declares key => ⟨"decl", key⟩
  | spells key => ⟨"ty", key⟩
  | typeStart key => ⟨"ts", key⟩
  | typeEnd key => ⟨"te", key⟩
  | calls key => ⟨"f", key⟩
  | defines key => ⟨"def", key⟩
  | valueType key => ⟨"vt", key⟩

theorem Remark.eq_of_note {m : Remark} {n : Note} (h : m.note? = some n) : m = n.remark := by
  obtain ⟨kind, key⟩ := m
  change Note.ofPair? kind key = some n at h
  unfold Note.ofPair? at h
  split at h <;> cases h <;> rfl

theorem readNote_takes (i : Nat) (l : Layout) (w : Placed) (n : Note) :
    Takes i w.text [n.remark] l (l.readNote i w n).1 w (l.readNote i w n).2 := by
  cases n with
  | plain key =>
    rw [Layout.readNote]
    by_cases hopen : w.text = "\x7b"
    · rw [if_pos hopen, hopen]
      refine ⟨fun place => ?_, rfl, fun use => ?_, rfl⟩
      · cases place <;> rfl
      · cases use <;> rfl
    · rw [if_neg hopen]
      by_cases hclose : w.text = "\x7d"
      · rw [if_pos hclose, hclose]
        refine ⟨fun place => ?_, rfl, fun use => ?_, rfl⟩
        · cases place <;> rfl
        · cases use <;> rfl
      · rw [if_neg hclose]
        refine ⟨fun place => ?_, ?_, fun use => ?_, ?_⟩
        · cases place <;> simp [Note.remark, Remark.places, Layout.table, hopen, hclose]
        · simp [Note.remark, Remark.brace?, Remark.places, hopen, hclose]
        · cases use <;> simp [Note.remark, Remark.uses, Placed.key?, hopen, hclose]
        · simp [Note.remark, Remark.brace?, Remark.places, hopen, hclose]
  | _ =>
    refine ⟨fun place => ?_, rfl, fun use => ?_, rfl⟩
    · cases place <;> rfl
    · cases use <;> rfl

theorem readNotes_takes (i : Nat) (l : Layout) (w : Placed) (ms : List Remark) :
    Takes i w.text ms l (Layout.readNotes i l w (ms.filterMap Remark.note?)).1 w
      (Layout.readNotes i l w (ms.filterMap Remark.note?)).2 := by
  induction ms generalizing l w with
  | nil => exact .refl i w.text l w
  | cons m ms ih =>
    cases hm : m.note? with
    | none =>
      rw [List.filterMap_cons_none hm]
      exact (takes_of_note_none hm i w.text l w).trans (ih l w)
    | some n =>
      have hfirst := readNote_takes i l w n
      have hrest := ih (l.readNote i w n).1 (l.readNote i w n).2
      rw [(Layout.readNote_reads i l w n).text] at hrest
      rw [List.filterMap_cons_some hm, Remark.eq_of_note hm]
      exact hfirst.trans hrest

def Placed.position (p : Placed) : Nat × Nat × String := (p.line, p.column, p.text)

def Reading.position (r : Reading) : Nat × Nat × String := (r.line, r.column, r.text)

structure Meant (rs : List Reading) (i : Nat) (r : Reading) (p : Placed) : Prop where
  key : ∀ use, p.key? use = r.key? use
  scope : p.scope = ((r.braces.getLast?).map Brace.key).getD
    ((((rs.take i).flatMap Reading.braces).foldl Brace.turn [globalKey]).headD "")

/-- The layout is what the readings mean. -/
structure Means (rs : List Reading) (l : Layout) : Prop where
  table : ∀ place, l.table place = (namedPlaces place rs).reverse
  stack : l.stack = (rs.flatMap Reading.braces).foldl Brace.turn [globalKey]
  positions : l.placed.map Placed.position = rs.map Reading.position
  words : ∀ i r p, rs[i]? = some r → l.placed[i]? = some p → Meant rs i r p

theorem Means.start : Means [] .start where
  table place := by cases place <;> rfl
  stack := rfl
  positions := rfl
  words := nofun

theorem Means.length {rs : List Reading} (h : Means rs l) : l.placed.length = rs.length := by
  rw [← List.length_map Placed.position, h.positions, List.length_map]

theorem Means.addWord {rs : List Reading} (h : Means rs l) {r : Reading} {w : Word} (hw : r.Of w) :
    Means (rs ++ [r]) (l.addWord w) := by
  have htakes := readNotes_takes l.placed.length l (l.bare w) r.remarks
  have htext : (l.bare w).text = r.text := hw.text.symm
  rw [htext, ← hw.notes] at htakes
  rw [Layout.addWord_eq]
  refine ⟨fun place => ?_, ?_, ?_, fun i q p hq hp => ?_⟩
  · have htable := htakes.table place
    rw [namedPlaces_concat, List.reverse_append, ← h.table, ← h.length, ← htable]
    cases place <;> rfl
  · rw [List.flatMap_append, List.foldl_append, ← h.stack, List.flatMap_singleton]
    exact htakes.stack
  · have hreads := Layout.readNotes_reads l.placed.length l (l.bare w) w.notes
    rw [List.map_append, List.map_append, h.positions, List.map_singleton, List.map_singleton,
      Placed.position, hreads.text, hreads.line, hreads.column, htext, Reading.position, hw.line,
      hw.column]
    rfl
  · by_cases hi : i < rs.length
    · rw [List.getElem?_append_left hi] at hq
      rw [List.getElem?_append_left (h.length ▸ hi)] at hp
      have hmeant := h.words i q p hq hp
      refine ⟨hmeant.key, ?_⟩
      rw [List.take_append_of_le_length (Nat.le_of_lt hi)]
      exact hmeant.scope
    · -- The new word stands behind all others, so its scope is that of the stack.
      have hlast : i = rs.length := by
        have hlt := (List.getElem?_eq_some_iff.1 hq).1
        rw [List.length_append, List.length_singleton] at hlt
        omega
      subst hlast
      rw [List.getElem?_concat_length, Option.some_inj] at hq
      rw [← h.length, List.getElem?_concat_length, Option.some_inj] at hp
      subst hq hp
      refine ⟨fun use => ?_, ?_⟩
      · rw [htakes.key]
        cases use <;> exact Option.or_none
      · rw [htakes.scope, List.take_left, ← h.stack]
        rfl

theorem Means.foldl {rs more : List Reading} {ws : List Word} (h : Means rs l)
    (hmore : List.Forall₂ Reading.Of more ws) : Means (rs ++ more) (ws.foldl Layout.addWord l) := by
  induction hmore generalizing rs l with
  | nil => rwa [List.append_nil]
  | cons hw _ ih =>
    rw [List.append_cons, List.foldl_cons]
    exact ih (h.addWord hw)

theorem layout_means {s : Sketch} {rs : List Reading} (h : List.Forall₂ Reading.Of rs s.words) :
    Means rs s.layout :=
  Means.start.foldl h

theorem inScope_iff {rs : List Reading} {r : Reading} (hr : rs[i]? = some r) {key : String} :
    InScope rs i key ↔ ((r.braces.getLast?).map Brace.key).getD
      ((((rs.take i).flatMap Reading.braces).foldl Brace.turn [globalKey]).headD "") = key := by
  constructor
  · intro h
    cases h with
    | brace r' b hr' hb hkey =>
      obtain rfl : r = r' := Option.some.inj (hr.symm.trans hr')
      rw [hb]
      exact hkey
    | code r' hr' hb hinnermost =>
      obtain rfl : r = r' := Option.some.inj (hr.symm.trans hr')
      rw [hb]
      exact innermost_iff.1 hinnermost
  · intro h
    cases hb : r.braces.getLast? with
    | none =>
      rw [hb] at h
      exact .code r hr (List.getLast?_eq_none_iff.1 hb) (innermost_iff.2 h)
    | some b =>
      rw [hb] at h
      exact .brace r b hr hb h

end Laid

end SpaceAudit.Sketch
