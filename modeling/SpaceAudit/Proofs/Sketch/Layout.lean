import Mathlib.Data.List.Forall2
import Mathlib.Data.List.TakeWhile
import SpaceAudit.Proofs.Markup.RoundTrip
import SpaceAudit.Proofs.Path.Pieces
import SpaceAudit.Sketch.Layout

/-! What the lines of a sketch are laid out as. The words stand in order with their lines and
columns, and whatever a note says of a place is said of a place in the layout. -/
namespace SpaceAudit.Sketch
open Markup (isPlainChar isPlainText isDocumentChar isSpace)

section Words

theorem cutWord_cases (word : String) :
    cutWord word = (word, []) ∧ ('@' ∉ word.toList ∨ word.toList.head? = some '@') ∨
      ∃ text notes, text ≠ [] ∧ '@' ∉ text ∧ word.toList = text ++ '@' :: notes ∧
        cutWord word = (String.ofList text, notesOf notes) := by
  have hcut : word.toList.takeWhile (· != '@') ++ word.toList.dropWhile (· != '@') = word.toList :=
    List.takeWhile_append_dropWhile
  have htext : '@' ∉ word.toList.takeWhile (· != '@') := by
    intro h
    exact absurd (List.mem_takeWhile_imp h) (by decide)
  cases hdrop : word.toList.dropWhile (· != '@') with
  | nil =>
    rw [hdrop, List.append_nil] at hcut
    refine .inl ⟨?_, .inl (hcut ▸ htext)⟩
    simp [cutWord, hdrop]
  | cons d notes =>
    have hd : d = '@' := by
      have hhead := List.head?_dropWhile_not (· != '@') word.toList
      rw [hdrop] at hhead
      simpa using hhead
    rw [hdrop, hd] at hcut
    cases htake : word.toList.takeWhile (· != '@') with
    | nil =>
      rw [htake, List.nil_append] at hcut
      exact .inl ⟨by simp [cutWord, htake], .inr (by rw [← hcut]; rfl)⟩
    | cons c text =>
      rw [htake] at hcut htext
      exact .inr ⟨c :: text, notes, nofun, htext, hcut.symm, by simp [cutWord, htake, hdrop]⟩

def Note.key : Note → String
  | plain key | names key | declares key | spells key | typeStart key | typeEnd key | calls key
  | defines key | valueType key => key

theorem Note.key_ofPair? {kind key : String} {n : Note} (h : Note.ofPair? kind key = some n) :
    n.key = key := by
  unfold Note.ofPair? at h
  split at h <;> cases h <;> rfl

theorem Note.mem_of_ofItem? {item : List Char} {n : Note} (h : Note.ofItem? item = some n) {c : Char}
    (hc : c ∈ n.key.toList) : c ∈ item := by
  unfold Note.ofItem? at h
  split at h
  · rwa [key_ofPair? h, String.toList_ofList] at hc
  · rename_i key hdrop
    rw [key_ofPair? h, String.toList_ofList] at hc
    apply (List.dropWhile_sublist (· != '=')).subset
    rw [hdrop]
    exact List.mem_cons_of_mem _ hc

theorem mem_of_mem_cutWord {word : String} {c : Char} (hc : c ∈ (cutWord word).1.toList ∨
    ∃ n ∈ (cutWord word).2, c ∈ n.key.toList) : c ∈ word.toList := by
  rcases cutWord_cases word with ⟨h, _⟩ | ⟨text, notes, _, _, hword, h⟩
  · rw [h] at hc
    rcases hc with hc | ⟨n, hn, _⟩
    · exact hc
    · cases hn
  · rw [h] at hc
    rw [hword]
    rcases hc with hc | ⟨n, hn, hc⟩
    · rw [String.toList_ofList] at hc
      exact List.mem_append_left _ hc
    · obtain ⟨item, hitem, hn⟩ := List.mem_filterMap.1 hn
      have hmem := Note.mem_of_ofItem? hn hc
      have hnotes := (mem_of_mem_splitOnP (List.mem_filter.1 hitem).1 hmem).1
      exact List.mem_append_right _ (List.mem_cons_of_mem _ hnotes)

end Words

section Lines

theorem mem_wordsFrom {line column : Nat} {ws : List String} {w : Word}
    (h : w ∈ wordsFrom line column ws) : w.line = line ∧ column ≤ w.column := by
  induction ws generalizing column with
  | nil => cases h
  | cons word ws ih =>
    rcases List.mem_cons.1 h with h | h
    · rw [h]
      exact ⟨rfl, Nat.le_refl column⟩
    · obtain ⟨hline, hcolumn⟩ := ih h
      exact ⟨hline, by omega⟩

theorem wordsFrom_pairwise (line column : Nat) (ws : List String) :
    (wordsFrom line column ws).Pairwise fun a b => a.column < b.column := by
  induction ws generalizing column with
  | nil => exact .nil
  | cons word ws ih =>
    refine List.pairwise_cons.2 ⟨fun w hw => ?_, ih _⟩
    have hcolumn := (mem_wordsFrom hw).2
    show column < w.column
    omega

theorem line_le_of_mem_wordsOfLines {line : Nat} {ls : List String} {w : Word}
    (h : w ∈ wordsOfLines line ls) : line ≤ w.line := by
  induction ls generalizing line with
  | nil => cases h
  | cons l ls ih =>
    rcases List.mem_append.1 h with h | h
    · exact Nat.le_of_eq (mem_wordsFrom h).1.symm
    · have hline := ih h
      omega

theorem wordsOfLines_pairwise (line : Nat) (ls : List String) :
    (wordsOfLines line ls).Pairwise fun a b => a.line = b.line → a.column < b.column := by
  induction ls generalizing line with
  | nil => exact .nil
  | cons l ls ih =>
    refine List.pairwise_append.2 ⟨?_, ih (line + 1), fun a ha b hb hline => ?_⟩
    · refine (wordsFrom_pairwise line 1 _).imp ?_
      intro a b hcolumn _
      exact hcolumn
    · have hfirst := (mem_wordsFrom ha).1
      have hlater := line_le_of_mem_wordsOfLines hb
      omega

/-- Text that consists of what a document may hold and of blanks. -/
def isCode (line : String) : Bool := line.toList.all fun c => Text.isBlank c || isDocumentChar c

theorem isPlainChar_of_not_blank {c : Char} (hblank : Text.isBlank c = false)
    (hdocument : isDocumentChar c = true) : isPlainChar c = true := by
  have hspace : isSpace c = false := by
    by_contra h
    rw [Bool.not_eq_false] at h
    rcases Markup.isSpace_iff.1 h with rfl | rfl | rfl | rfl <;> exact absurd hblank (by decide)
  simp [isPlainChar, hdocument, hspace]

theorem isPlainChar_of_mem_words {line word : String} {c : Char} (hline : isCode line = true)
    (hword : word ∈ Text.words line) (hc : c ∈ word.toList) : isPlainChar c = true := by
  obtain ⟨cs, hcs, rfl⟩ := List.mem_map.1 hword
  rw [String.toList_ofList] at hc
  obtain ⟨hmem, hblank⟩ := mem_of_mem_splitOnP (List.mem_filter.1 hcs).1 hc
  have hcode := List.all_eq_true.1 hline c hmem
  rw [hblank, Bool.false_or] at hcode
  exact isPlainChar_of_not_blank hblank hcode

structure Word.Plain (w : Word) : Prop where
  text : isPlainText w.text = true
  keys : ∀ n ∈ w.notes, isPlainText n.key = true

theorem wordsFrom_plain {line : String} (hline : isCode line = true) (n column : Nat)
    {ws : List String} (hws : ∀ word ∈ ws, word ∈ Text.words line) :
    ∀ w ∈ wordsFrom n column ws, w.Plain := by
  induction ws generalizing column with
  | nil => nofun
  | cons word ws ih =>
    obtain ⟨hword, hws⟩ := List.forall_mem_cons.1 hws
    refine List.forall_mem_cons.2 ⟨⟨?_, fun m hm => ?_⟩, ih _ hws⟩
    · refine List.all_eq_true.2 fun c hc => isPlainChar_of_mem_words hline hword ?_
      exact mem_of_mem_cutWord (.inl hc)
    · refine List.all_eq_true.2 fun c hc => isPlainChar_of_mem_words hline hword ?_
      exact mem_of_mem_cutWord (.inr ⟨m, hm, hc⟩)

theorem wordsOfLines_plain {ls : List String} (h : ∀ line ∈ ls, isCode line = true) (n : Nat) :
    ∀ w ∈ wordsOfLines n ls, w.Plain := by
  induction ls generalizing n with
  | nil => nofun
  | cons l ls ih =>
    obtain ⟨hl, hls⟩ := List.forall_mem_cons.1 h
    exact List.forall_mem_append.2
      ⟨wordsFrom_plain hl n 1 fun word hword => hword, ih hls (n + 1)⟩

end Lines

def Placed.texts (p : Placed) : List String :=
  p.text :: p.scope :: (p.var.toList ++ p.function.toList ++ p.valueType.toList)

namespace Layout

/-- What notes with the given keys may do to a word and to the layout before it. -/
structure Reads (keys : List String) (l l' : Layout) (w w' : Placed) : Prop where
  placed : l'.placed = l.placed
  text : w'.text = w.text
  line : w'.line = w.line
  column : w'.column = w.column
  stack : ∀ k ∈ l'.stack, k ∈ l.stack ∨ k ∈ keys
  texts : ∀ k ∈ w'.texts, k ∈ w.texts ∨ k ∈ keys

theorem Reads.refl (l : Layout) (w : Placed) : Reads [] l l w w :=
  ⟨rfl, rfl, rfl, rfl, fun _ => .inl, fun _ => .inl⟩

theorem Reads.trans {ks ks' : List String} {l l' l'' : Layout} {w w' w'' : Placed}
    (h : Reads ks l l' w w') (h' : Reads ks' l' l'' w' w'') :
    Reads (ks ++ ks') l l'' w w'' where
  placed := h'.placed.trans h.placed
  text := h'.text.trans h.text
  line := h'.line.trans h.line
  column := h'.column.trans h.column
  stack k hk := by
    rcases h'.stack k hk with hk | hk
    · exact (h.stack k hk).imp_right (List.mem_append_left _)
    · exact .inr (List.mem_append_right _ hk)
  texts k hk := by
    rcases h'.texts k hk with hk | hk
    · exact (h.texts k hk).imp_right (List.mem_append_left _)
    · exact .inr (List.mem_append_right _ hk)

theorem closeScope_sublist (key : String) (stack : List String) :
    (closeScope key stack).Sublist stack := by
  unfold closeScope
  split
  · exact .refl _
  · exact .refl _
  · split
    · exact List.sublist_cons_self _ _
    · exact .refl _

theorem readNote_reads (i : Nat) (l : Layout) (w : Placed) (n : Note) :
    Reads [n.key] l (readNote i l w n).1 w (readNote i l w n).2 := by
  cases n with
  | plain key =>
    rw [readNote]
    split
    · refine ⟨rfl, rfl, rfl, rfl, ?_, ?_⟩ <;> grind [Placed.texts, Note.key]
    · split
      · have hclose := (closeScope_sublist key l.stack).subset
        refine ⟨rfl, rfl, rfl, rfl, ?_, ?_⟩ <;> grind [Placed.texts, Note.key]
      · refine ⟨rfl, rfl, rfl, rfl, ?_, ?_⟩ <;> grind [Placed.texts, Note.key]
  | _ => refine ⟨rfl, rfl, rfl, rfl, ?_, ?_⟩ <;> grind [readNote, Placed.texts, Note.key]

theorem readNotes_reads (i : Nat) (l : Layout) (w : Placed) (ns : List Note) :
    Reads (ns.map Note.key) l (readNotes i l w ns).1 w (readNotes i l w ns).2 := by
  induction ns generalizing l w with
  | nil => exact .refl l w
  | cons n ns ih => exact (readNote_reads i l w n).trans (ih _ _)

def At (w : Word) (p : Placed) : Prop := p.text = w.text ∧ p.line = w.line ∧ p.column = w.column

def bare (l : Layout) (w : Word) : Placed :=
  ⟨w.text, w.line, w.column, l.stack.headD "", none, none, none⟩

theorem addWord_eq (l : Layout) (w : Word) : l.addWord w =
    { (readNotes l.placed.length l (l.bare w) w.notes).1 with
      placed := l.placed ++ [(readNotes l.placed.length l (l.bare w) w.notes).2] } := by
  have hplaced := (readNotes_reads l.placed.length l (l.bare w) w.notes).placed
  calc
    l.addWord w = { (readNotes l.placed.length l (l.bare w) w.notes).1 with
        placed := (readNotes l.placed.length l (l.bare w) w.notes).1.placed ++
          [(readNotes l.placed.length l (l.bare w) w.notes).2] } := rfl
    _ = _ := by rw [hplaced]

/-- The words `ws` are laid out, and every text can be written. -/
structure Holds (ws : List Word) (l : Layout) : Prop where
  placed : List.Forall₂ At ws l.placed
  stack : ∀ k ∈ l.stack, isPlainText k = true
  texts : ∀ p ∈ l.placed, ∀ k ∈ p.texts, isPlainText k = true

theorem Holds.start : Holds [] .start := ⟨.nil, by decide, nofun⟩

theorem Holds.addWord {ws : List Word} {l : Layout} (h : Holds ws l) {w : Word} (hw : w.Plain) :
    Holds (ws ++ [w]) (l.addWord w) := by
  have hreads := readNotes_reads l.placed.length l (l.bare w) w.notes
  have hkeys (k : String) (hk : k ∈ w.notes.map Note.key) : isPlainText k = true := by
    obtain ⟨n, hn, rfl⟩ := List.mem_map.1 hk
    exact hw.keys n hn
  have hbare : ∀ k ∈ (l.bare w).texts, isPlainText k = true := by
    refine List.forall_mem_cons.2 ⟨hw.text, List.forall_mem_singleton.2 ?_⟩
    unfold bare
    cases hstack : l.stack with
    | nil => rfl
    | cons top rest => exact h.stack top (by simp [hstack])
  rw [addWord_eq]
  refine ⟨?_, fun k hk => ?_, fun p hp k hk => ?_⟩
  · exact List.rel_append h.placed (.cons ⟨hreads.text, hreads.line, hreads.column⟩ .nil)
  · exact (hreads.stack k hk).elim (h.stack k) (hkeys k)
  · rcases List.mem_append.1 hp with hp | hp
    · exact h.texts p hp k hk
    · obtain rfl := List.mem_singleton.1 hp
      exact (hreads.texts k hk).elim (hbare k) (hkeys k)

theorem Holds.foldl {ws : List Word} {l : Layout} (h : Holds ws l) {more : List Word}
    (hmore : ∀ w ∈ more, w.Plain) : Holds (ws ++ more) (more.foldl Layout.addWord l) := by
  induction more generalizing ws l with
  | nil => rwa [List.append_nil]
  | cons w more ih =>
    obtain ⟨hw, hmore⟩ := List.forall_mem_cons.1 hmore
    rw [List.append_cons, List.foldl_cons]
    exact ih (h.addWord hw) hmore

end Layout

theorem layout_holds {s : Sketch} (h : ∀ line ∈ s.lines, isCode line = true) :
    Layout.Holds s.words s.layout :=
  Layout.Holds.start.foldl (wordsOfLines_plain h _)

section Brackets

theorem takeOpen_mem {text : String} {opened left : List (Nat × String)} {j : Nat}
    (h : takeOpen text opened = some (j, left)) :
    (j, text) ∈ opened ∧ left.Sublist opened := by
  induction opened generalizing left with
  | nil => cases h
  | cons p opened ih =>
    obtain ⟨i, t⟩ := p
    rw [takeOpen] at h
    by_cases ht : t = text
    · rw [if_pos ht] at h
      obtain ⟨rfl, rfl⟩ := Prod.mk.inj (Option.some.inj h)
      exact ⟨by simp [ht], List.sublist_cons_self _ _⟩
    · rw [if_neg ht] at h
      obtain ⟨⟨j', left'⟩, hrest, heq⟩ := Option.map_eq_some_iff.1 h
      obtain ⟨rfl, rfl⟩ := Prod.mk.inj heq
      obtain ⟨hmem, hsub⟩ := ih hrest
      exact ⟨List.mem_cons_of_mem _ hmem, hsub.cons_cons _⟩

theorem pairsFrom_lt {i : Nat} {opened : List (Nat × String)} {texts : List String}
    (hopened : ∀ p ∈ opened, p.1 < i) :
    ∀ p ∈ pairsFrom i opened texts, p.1 < i + texts.length ∧ p.2 < i + texts.length := by
  induction texts generalizing i opened with
  | nil => nofun
  | cons t ts ih =>
    have hlater : ∀ p ∈ opened, p.1 < i + 1 := fun p hp => Nat.lt_succ_of_lt (hopened p hp)
    have hlength : i + (t :: ts).length = i + 1 + ts.length := by
      rw [List.length_cons]
      omega
    rw [hlength, pairsFrom]
    split
    · exact ih (List.forall_mem_cons.2 ⟨Nat.lt_succ_self i, hlater⟩)
    · split
      · rename_i j left htake
        obtain ⟨text, _, htake⟩ := Option.bind_eq_some_iff.1 htake
        obtain ⟨hmem, hsub⟩ := takeOpen_mem htake
        have hj := hlater _ hmem
        refine List.forall_mem_cons.2 ⟨⟨?_, ?_⟩, ih fun p hp => hlater p (hsub.subset hp)⟩ <;>
          simp only <;> omega
      · exact ih hlater

theorem partner?_lt {texts : List String} {i j : Nat}
    (h : partner? (bracketPairs texts) i = some j) : j < texts.length := by
  obtain ⟨⟨a, b⟩, hp, hj⟩ := List.exists_of_findSome?_eq_some h
  have hnone : ∀ p ∈ ([] : List (Nat × String)), p.1 < 0 := by simp
  have hlt := pairsFrom_lt hnone (a, b) hp
  rw [Nat.zero_add] at hlt
  dsimp only at hj
  split at hj
  · obtain rfl := Option.some.inj hj
    exact hlt.2
  · split at hj
    · obtain rfl := Option.some.inj hj
      exact hlt.1
    · cases hj

end Brackets

end SpaceAudit.Sketch
