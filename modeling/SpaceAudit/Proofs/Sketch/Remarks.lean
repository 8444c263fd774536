import SpaceAudit.Proofs.Sketch.Layout

/-! The code of a sketch, read off its words. A word is its text and, behind an `@`, items between
commas; an item is a kind and a key with `=` between them, or a key alone. -/
namespace SpaceAudit.Sketch

/-- What one item says. The kind of a key alone is empty. -/
@[ext] structure Remark where
  kind : String
  key : String

namespace Remark

inductive Spelled (item : List Char) (m : Remark) : Prop
  | pair (hkind : '=' ∉ m.kind.toList) (hitem : item = m.kind.toList ++ '=' :: m.key.toList)
  | alone (hkind : m.kind = "") (hkey : '=' ∉ m.key.toList) (hitem : item = m.key.toList)

def note? (m : Remark) : Option Note := Note.ofPair? m.kind m.key

end Remark

/-- The word has the text and the remarks. A word that starts with `@` is all text, and items that
are empty say nothing. -/
inductive Annotated (word text : String) (remarks : List Remark) : Prop
  | bare (htext : text = word) (hremarks : remarks = [])
      (hat : '@' ∉ word.toList ∨ word.toList.head? = some '@')
  | noted (items : List (List Char)) (htext : text ≠ "") (hat : '@' ∉ text.toList)
      (hword : word.toList = text.toList ++ '@' :: [','].intercalate items)
      (hcomma : ∀ item ∈ items, ',' ∉ item)
      (hitems : List.Forall₂ Remark.Spelled (items.filter fun item => !item.isEmpty) remarks)

section Marks
variable {mark : Char} {front front' rest rest' : List Char}

theorem cut_at_mark (h : mark ∉ front) (back : List Char) :
    (front ++ mark :: back).takeWhile (· != mark) = front ∧
      (front ++ mark :: back).dropWhile (· != mark) = mark :: back := by
  refine Markup.takeWhile_stop (fun c hc => ?_) fun c hc => ?_
  · simpa using ne_of_mem_of_not_mem hc h
  · obtain rfl := Option.some.inj hc
    simp

theorem eq_of_marked (h : mark ∉ front) (h' : mark ∉ front')
    (heq : front ++ mark :: rest = front' ++ mark :: rest') : front = front' ∧ rest = rest' := by
  obtain ⟨htake, hdrop⟩ := cut_at_mark h rest
  obtain ⟨htake', hdrop'⟩ := cut_at_mark h' rest'
  rw [← heq] at htake' hdrop'
  exact ⟨htake.symm.trans htake', (List.cons.inj (hdrop.symm.trans hdrop')).2⟩

theorem cut_without_mark (h : mark ∉ front) : front.dropWhile (· != mark) = [] := by
  refine List.dropWhile_eq_nil_iff.2 fun c hc => ?_
  simpa using ne_of_mem_of_not_mem hc h

end Marks

section Items
variable {item : List Char} {m m' : Remark}

theorem Remark.Spelled.unique (h : Spelled item m) (h' : Spelled item m') : m = m' := by
  cases h with
  | pair hkind hitem =>
    cases h' with
    | pair hkind' hitem' =>
      obtain ⟨hsame, hrest⟩ := eq_of_marked hkind hkind' (hitem.symm.trans hitem')
      exact Remark.ext (String.toList_inj.1 hsame) (String.toList_inj.1 hrest)
    | alone _ hkey' hitem' =>
      refine absurd ?_ hkey'
      rw [← hitem', hitem]
      simp
  | alone hkind hkey hitem =>
    cases h' with
    | pair hkind' hitem' =>
      refine absurd ?_ hkey
      rw [← hitem, hitem']
      simp
    | alone hkind' hkey' hitem' =>
      exact Remark.ext (hkind.trans hkind'.symm) (String.toList_inj.1 (hitem.symm.trans hitem'))

theorem Remark.exists_spelled (item : List Char) : ∃ m, Spelled item m := by
  by_cases h : '=' ∈ item
  · obtain ⟨kind, key, hitem, hkind⟩ := List.eq_append_cons_of_mem h
    refine ⟨⟨String.ofList kind, String.ofList key⟩, .pair ?_ ?_⟩
    · rwa [String.toList_ofList]
    · rwa [String.toList_ofList, String.toList_ofList]
  · refine ⟨⟨"", String.ofList item⟩, .alone rfl ?_ ?_⟩
    · rwa [String.toList_ofList]
    · rw [String.toList_ofList]

theorem Remark.Spelled.ofItem?_eq (h : Spelled item m) : Note.ofItem? item = m.note? := by
  cases h with
  | pair hkind hitem =>
    obtain ⟨htake, hdrop⟩ := cut_at_mark hkind m.key.toList
    simp only [Note.ofItem?, hitem, hdrop, htake, String.ofList_toList]
    rfl
  | alone hkind hkey hitem =>
    simp only [Note.ofItem?, hitem, cut_without_mark hkey, String.ofList_toList, Remark.note?, hkind]

theorem exists_spelledItems (items : List (List Char)) :
    ∃ remarks, List.Forall₂ Remark.Spelled items remarks := by
  induction items with
  | nil => exact ⟨[], .nil⟩
  | cons item items ih =>
    obtain ⟨m, hm⟩ := Remark.exists_spelled item
    obtain ⟨ms, hms⟩ := ih
    exact ⟨m :: ms, .cons hm hms⟩

theorem filterMap_ofItem? {items : List (List Char)} {remarks : List Remark}
    (h : List.Forall₂ Remark.Spelled items remarks) :
    items.filterMap Note.ofItem? = remarks.filterMap Remark.note? := by
  induction h with
  | nil => rfl
  | cons hm _ ih => rw [List.filterMap_cons, List.filterMap_cons, hm.ofItem?_eq, ih]

/-- What stands between the commas of a text. No items and one empty item spell the same. -/
theorem filter_items {items : List (List Char)} (h : ∀ item ∈ items, ',' ∉ item) :
    (([','].intercalate items).splitOn ',').filter (fun item => !item.isEmpty) =
      items.filter fun item => !item.isEmpty := by
  cases items with
  | nil => rfl
  | cons item items => rw [List.splitOn_intercalate ',' h nofun]

end Items

section Words
variable {word text text' : String} {remarks remarks' : List Remark}

theorem Annotated.unique (h : Annotated word text remarks) (h' : Annotated word text' remarks') :
    text = text' ∧ remarks = remarks' := by
  -- A word that has items does not start with `@`, so it is not all text.
  have hclash {text : String} {rest : List Char} (htext : text ≠ "") (hat : '@' ∉ text.toList)
      (hword : word.toList = text.toList ++ '@' :: rest)
      (hbare : '@' ∉ word.toList ∨ word.toList.head? = some '@') : False := by
    rw [hword] at hbare
    cases hbare with
    | inl hnone => simp at hnone
    | inr hhead =>
      cases hchars : text.toList with
      | nil => exact htext (String.toList_eq_nil_iff.1 hchars)
      | cons c cs =>
        rw [hchars] at hhead hat
        obtain rfl : c = '@' := Option.some.inj hhead
        simp at hat
  cases h with
  | bare htext hremarks hbare =>
    cases h' with
    | bare htext' hremarks' _ => exact ⟨htext.trans htext'.symm, hremarks.trans hremarks'.symm⟩
    | noted items htext' hat' hword' _ _ => exact (hclash htext' hat' hword' hbare).elim
  | noted items htext hat hword hcomma hitems =>
    cases h' with
    | bare _ _ hbare => exact (hclash htext hat hword hbare).elim
    | noted items' _ hat' hword' hcomma' hitems' =>
      obtain ⟨hsame, hrest⟩ := eq_of_marked hat hat' (hword.symm.trans hword')
      have hfilter := filter_items hcomma
      rw [hrest, filter_items hcomma'] at hfilter
      rw [hfilter] at hitems'
      have hunique : Relator.RightUnique Remark.Spelled := fun _ _ _ hm hm' => hm.unique hm'
      exact ⟨String.toList_inj.1 hsame, List.right_unique_forall₂' hunique hitems hitems'⟩

theorem cutWord_annotated (word : String) : ∃ remarks, Annotated word (cutWord word).1 remarks ∧
    (cutWord word).2 = remarks.filterMap Remark.note? := by
  rcases cutWord_cases word with ⟨h, hat⟩ | ⟨text, notes, hne, hat, hword, h⟩
  · rw [h]
    exact ⟨[], .bare rfl rfl hat, rfl⟩
  · rw [h]
    obtain ⟨remarks, hremarks⟩ :=
      exists_spelledItems ((notes.splitOn ',').filter fun item => !item.isEmpty)
    refine ⟨remarks, .noted (notes.splitOn ',') ?_ ?_ ?_ ?_ hremarks, filterMap_ofItem? hremarks⟩
    · intro hempty
      have hchars := congrArg String.toList hempty
      rw [String.toList_ofList] at hchars
      exact hne hchars
    · rwa [String.toList_ofList]
    · rw [String.toList_ofList, List.intercalate_splitOn, hword]
    · intro item hitem hcomma
      exact absurd (mem_of_mem_splitOnP hitem hcomma).2 (by decide)

end Words

section Lines

/-- The words of the code, each with the line it stands on. The includes stand above the code. -/
def spelled (s : Sketch) : List (String × Nat) :=
  s.lines.zipIdx.flatMap fun p =>
    (Text.words p.1).map fun word => (word, s.includes.length + (p.2 + 1))

/-- The column behind the words of a line. Each takes its bytes and a blank. -/
def columnAfter (line : Nat) (words : List (String × Nat)) : Nat :=
  (words.filter (·.2 == line)).foldl (fun column w => column + w.1.utf8ByteSize + 1) 1

@[ext] structure Reading where
  text : String
  line : Nat
  column : Nat
  remarks : List Remark

/-- The code of a sketch is read word by word. -/
structure ReadAs (s : Sketch) (rs : List Reading) : Prop where
  words : List.Forall₂ (fun p r => Annotated p.1 r.text r.remarks ∧ r.line = p.2) s.spelled rs
  columns : ∀ before r after, rs = before ++ r :: after →
    r.column = columnAfter r.line (before.map fun q => (q.text, q.line))

structure Reading.Of (r : Reading) (w : Word) : Prop where
  text : r.text = w.text
  line : r.line = w.line
  column : r.column = w.column
  notes : w.notes = r.remarks.filterMap Remark.note?

theorem exists_readingOf (word : String) (line column : Nat) :
    ∃ r : Reading, (Annotated word r.text r.remarks ∧ r.line = line) ∧
      r.Of ⟨(cutWord word).1, (cutWord word).2, line, column⟩ := by
  obtain ⟨remarks, hannotated, hread⟩ := cutWord_annotated word
  exact ⟨⟨(cutWord word).1, line, column, remarks⟩, ⟨hannotated, rfl⟩, rfl, rfl, rfl, hread⟩

theorem wordsFrom_read (line column : Nat) (ws : List String) :
    ∃ rs, List.Forall₂ (fun p r => Annotated p.1 r.text r.remarks ∧ r.line = p.2)
      (ws.map fun word => (word, line)) rs ∧
        List.Forall₂ Reading.Of rs (wordsFrom line column ws) := by
  induction ws generalizing column with
  | nil => exact ⟨[], .nil, .nil⟩
  | cons word ws ih =>
    obtain ⟨rs, hwords, hof⟩ := ih (column + (cutWord word).1.utf8ByteSize + 1)
    obtain ⟨r, hr, hrof⟩ := exists_readingOf word line column
    exact ⟨r :: rs, .cons hr hwords, .cons hrof hof⟩

theorem wordsOfLines_read (above n : Nat) (ls : List String) :
    ∃ rs, List.Forall₂ (fun p r => Annotated p.1 r.text r.remarks ∧ r.line = p.2)
      ((ls.zipIdx n).flatMap fun p => (Text.words p.1).map fun word => (word, above + (p.2 + 1)))
      rs ∧ List.Forall₂ Reading.Of rs (wordsOfLines (above + (n + 1)) ls) := by
  induction ls generalizing n with
  | nil => exact ⟨[], .nil, .nil⟩
  | cons l ls ih =>
    obtain ⟨first, hfirst, hfirstOf⟩ := wordsFrom_read (above + (n + 1)) 1 (Text.words l)
    obtain ⟨rest, hrest, hrestOf⟩ := ih (n + 1)
    refine ⟨first ++ rest, ?_, List.rel_append hfirstOf hrestOf⟩
    rw [List.zipIdx_cons, List.flatMap_cons]
    exact List.rel_append hfirst hrest

theorem wordsFrom_columns {line column : Nat} {ws : List String} {before after : List Word}
    {w : Word} (h : wordsFrom line column ws = before ++ w :: after) :
    w.column = before.foldl (fun column q => column + q.text.utf8ByteSize + 1) column := by
  induction ws generalizing column before with
  | nil => simp [wordsFrom] at h
  | cons word ws ih =>
    rw [wordsFrom] at h
    cases before with
    | nil =>
      obtain ⟨rfl, _⟩ := List.cons.inj h
      rfl
    | cons q before =>
      obtain ⟨rfl, hrest⟩ := List.cons.inj h
      have hcolumn := ih hrest
      exact hcolumn

theorem columnAfter_append {line : Nat} {ws : List (String × Nat)} (h : ∀ w ∈ ws, w.2 ≠ line)
    (more : List (String × Nat)) : columnAfter line (ws ++ more) = columnAfter line more := by
  have hnone : ws.filter (·.2 == line) = [] := List.filter_eq_nil_iff.2 (by simpa using h)
  rw [columnAfter, List.filter_append, hnone, List.nil_append, columnAfter]

theorem columnAfter_same {line : Nat} {ws : List (String × Nat)} (h : ∀ w ∈ ws, w.2 = line) :
    columnAfter line ws = ws.foldl (fun column w => column + w.1.utf8ByteSize + 1) 1 := by
  have hall : ws.filter (·.2 == line) = ws := List.filter_eq_self.2 (by simpa using h)
  rw [columnAfter, hall]

theorem wordsOfLines_columns {line : Nat} {ls : List String} {before after : List Word} {w : Word}
    (h : wordsOfLines line ls = before ++ w :: after) :
    w.column = columnAfter w.line (before.map fun q => (q.text, q.line)) := by
  induction ls generalizing line before with
  | nil => simp [wordsOfLines] at h
  | cons l ls ih =>
    rw [wordsOfLines] at h
    have hline : ∀ q ∈ wordsFrom line 1 (Text.words l), q.line = line := fun q hq =>
      (mem_wordsFrom hq).1
    -- Words of earlier lines do not move a word, and all words of its own line before it do.
    have hlater (more : List Word) (hmore : wordsOfLines (line + 1) ls = more ++ w :: after) :
        w.column = columnAfter w.line
          ((wordsFrom line 1 (Text.words l) ++ more).map fun q => (q.text, q.line)) := by
      have hw : w ∈ wordsOfLines (line + 1) ls := by rw [hmore]; simp
      have hlt := line_le_of_mem_wordsOfLines hw
      rw [List.map_append, columnAfter_append]
      · exact ih hmore
      · refine List.forall_mem_map.2 fun q hq => ?_
        have hq := hline q hq
        simp only
        omega
    cases List.append_eq_append_iff.1 h with
    | inl hmore =>
      obtain ⟨more, rfl, hmore⟩ := hmore
      exact hlater more hmore
    | inr hfirst =>
      obtain ⟨more, hfirst, hmore⟩ := hfirst
      cases more with
      | nil =>
        rw [List.append_nil] at hfirst
        have hcolumn := hlater [] hmore.symm
        rwa [List.append_nil, hfirst] at hcolumn
      | cons q more =>
        obtain ⟨rfl, _⟩ := List.cons.inj hmore
        have hlines : ∀ q ∈ before, q.line = w.line := fun q hq => by
          rw [hline q (by rw [hfirst]; simp [hq]), hline w (by rw [hfirst]; simp)]
        rw [columnAfter_same (List.forall_mem_map.2 hlines), List.foldl_map]
        exact wordsFrom_columns hfirst

/-- The words are laid out as they are read. -/
theorem exists_reading (s : Sketch) : ∃ rs, s.ReadAs rs ∧ List.Forall₂ Reading.Of rs s.words := by
  obtain ⟨rs, hwords, hof⟩ := wordsOfLines_read s.includes.length 0 s.lines
  refine ⟨rs, ⟨hwords, fun before r after hrs => ?_⟩, hof⟩
  have hplaces : s.words.map (fun w => (w.text, w.line, w.column)) =
      rs.map fun q => (q.text, q.line, q.column) := by
    rw [eq_comm, ← List.forall₂_eq_eq_eq, List.forall₂_map_left_iff, List.forall₂_map_right_iff]
    exact hof.imp fun q w hq => by rw [hq.text, hq.line, hq.column]
  rw [hrs, List.map_append, List.map_cons] at hplaces
  obtain ⟨words, later, hsplit, hbefore, hlater⟩ := List.map_eq_append_iff.1 hplaces
  obtain ⟨w, after', rfl, hw, _⟩ := List.map_eq_cons_iff.1 hlater
  obtain ⟨htext, hline, hcolumn⟩ : w.text = r.text ∧ w.line = r.line ∧ w.column = r.column := by
    simpa using hw
  have hsame := congrArg (List.map fun q : String × Nat × Nat => (q.1, q.2.1)) hbefore
  rw [List.map_map, List.map_map] at hsame
  rw [← hcolumn, ← hline, wordsOfLines_columns hsplit]
  exact congrArg (columnAfter w.line) hsame

theorem ReadAs.column {s : Sketch} {rs : List Reading} (h : s.ReadAs rs) {i : Nat} {r : Reading}
    (hr : rs[i]? = some r) :
    r.column = columnAfter r.line ((rs.take i).map fun q => (q.text, q.line)) := by
  obtain ⟨hi, rfl⟩ := List.getElem?_eq_some_iff.1 hr
  refine h.columns (rs.take i) _ (rs.drop (i + 1)) ?_
  rw [← List.drop_eq_getElem_cons hi, List.take_append_drop]

theorem ReadAs.unique {s : Sketch} {rs rs' : List Reading} (h : s.ReadAs rs) (h' : s.ReadAs rs') :
    rs = rs' := by
  have hread {rs : List Reading} (h : s.ReadAs rs) :
      List.Forall₂ (fun p q => Annotated p.1 q.1 q.2.2 ∧ q.2.1 = p.2) s.spelled
        (rs.map fun r => (r.text, r.line, r.remarks)) := List.forall₂_map_right_iff.2 h.words
  have hunique : Relator.RightUnique fun (p : String × Nat) (q : String × Nat × List Remark) =>
      Annotated p.1 q.1 q.2.2 ∧ q.2.1 = p.2 := by
    intro p q q' hq hq'
    obtain ⟨htext, hremarks⟩ := hq.1.unique hq'.1
    exact Prod.ext htext (Prod.ext (hq.2.trans hq'.2.symm) hremarks)
  have hsame := List.right_unique_forall₂' hunique (hread h) (hread h')
  have hbefore (i : Nat) : (rs.take i).map (fun q => (q.text, q.line)) =
      (rs'.take i).map fun q => (q.text, q.line) := by
    have hplaces := congrArg (List.map fun q : String × Nat × List Remark => (q.1, q.2.1)) hsame
    rw [List.map_map, List.map_map] at hplaces
    rw [List.map_take, List.map_take]
    exact congrArg (List.take i) hplaces
  refine List.ext_getElem? fun i => ?_
  have hi := congrArg (·[i]?) hsame
  simp only [List.getElem?_map] at hi
  cases hr : rs[i]? with
  | none =>
    rw [hr] at hi
    exact (Option.map_eq_none_iff.1 hi.symm).symm
  | some r =>
    rw [hr] at hi
    obtain ⟨r', hr', hcore⟩ := Option.map_eq_some_iff.1 hi.symm
    obtain ⟨htext, hline, hremarks⟩ : r'.text = r.text ∧ r'.line = r.line ∧
        r'.remarks = r.remarks := by simpa using hcore
    rw [hr', Option.some_inj]
    refine Reading.ext htext.symm hline.symm ?_ hremarks.symm
    rw [h.column hr, h'.column hr', hbefore i, hline]

end Lines

end SpaceAudit.Sketch
