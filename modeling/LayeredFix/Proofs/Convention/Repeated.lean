import LayeredFix.Proofs.Convention.Imports

/-!
# Repeated imports

Where no import block is left open, the pass over imports drops lines and does nothing else. Each line can be marked as
kept or dropped while the statements seen so far are gathered (`marks`); a line is dropped just if it is an import
statement that a kept line in front of it repeats (`dropped_iff`).
-/

namespace LayeredFix.Pass.Convention

open Pattern
open Component (isQuote inLine)

/-! ### Import statements -/

/-- Where an import takes something from: a name in quotation marks, and perhaps a semicolon. -/
def IsSource (s : Text) : Prop := ∃ q name q' e, s = q :: (name ++ q' :: e) ∧ isQuote q = true ∧
  (name ≠ [] ∧ ∀ c ∈ name, isQuote c = false) ∧ isQuote q' = true ∧ (e = ";".toList ∨ e = [])

/-- A text is an import statement. -/
inductive IsStatement : Text → Prop where
  /-- Names are imported. -/
  | names {names blanks source : Text} {b c : Char} (hb : Text.isBlank b = true) (hline : '\n' ∉ names ++ [c])
      (hc : Text.isWord c = false) (hblanks : blanks ≠ [] ∧ ∀ d ∈ blanks, Text.isBlank d = true) (hsource : IsSource source) :
      IsStatement ("import".toList ++ b :: ((names ++ [c]) ++ ("from".toList ++ (blanks ++ source))))
  /-- Nothing is named. -/
  | bare {blanks source : Text} (hblanks : blanks ≠ [] ∧ ∀ d ∈ blanks, Text.isBlank d = true) (hsource : IsSource source) :
      IsStatement ("import".toList ++ (blanks ++ source))

theorem notMem_collapseBlanks (l : Text) : '\n' ∉ collapseBlanks l := by
  have hwords : ∀ (t : Text), ∀ w ∈ Text.splitWhere Text.isBlank t, '\n' ∉ w := by
    intro t
    induction t with
    | nil => simp
    | cons c t ih =>
      rw [Text.splitWhere_cons]
      split
      · simpa using ih
      · rename_i hc
        obtain ⟨w, ws, hws⟩ := List.exists_cons_of_ne_nil (Text.splitWhere_ne_nil Text.isBlank t)
        rw [hws, List.forall_mem_cons] at ih
        rw [hws, Text.consPart, List.forall_mem_cons]
        refine ⟨?_, ih.2⟩
        rw [List.mem_cons, not_or]
        exact ⟨fun h => hc (by rw [← h]; decide), ih.1⟩
  intro hmem
  obtain ⟨part, hpart, hc⟩ := List.mem_flatten.1 hmem
  rcases Text.mem_intersperse hpart with rfl | hw
  · simp at hc
  · exact hwords l part (List.mem_filter.1 hw).1 hc

/-- The source of an import at the end of the text. -/
def sourceAtEnd : Pattern :=
  .all [.one isQuote, .some1 fun c => !isQuote c, .one isQuote, .optional (.text ";"), .textEnd]

section
variable {behind w rest : Text} {g : List (Nat × Text)}

theorem takes_sourceAtEnd (hrest : '\n' ∉ rest) : sourceAtEnd.Takes behind [] w rest g ↔ IsSource w ∧ rest = [] ∧ g = [] := by
  simp only [sourceAtEnd, Pattern.all, plain_one.takes_seq, plain_some1.takes_seq, plain_text.optional.takes_seq]
  constructor
  · rintro ⟨_, _, rfl, ⟨q, rfl, hq⟩, name, _, rfl, hname, _, _, rfl, ⟨q', rfl, hq'⟩, e, _, rfl, he, ⟨hend, rfl⟩, rfl⟩
    have hnil : rest = [] := hend.resolve_right fun h => hrest (by simp [h])
    exact ⟨⟨q, name, q', e, by simp, hq, ⟨hname.1, by simpa using hname.2⟩, hq', he⟩, hnil, rfl⟩
  · rintro ⟨⟨q, name, q', e, rfl, hq, hname, hq', he⟩, rfl, rfl⟩
    exact ⟨[q], _, rfl, ⟨q, rfl, hq⟩, name, _, rfl, ⟨hname.1, by simpa using hname.2⟩, [q'], _, rfl, ⟨q', rfl, hq'⟩,
      e, [], (List.append_nil e).symm, he, ⟨Or.inl rfl, rfl⟩, rfl⟩

theorem takes_completeImport (hline : '\n' ∉ w) (hrest : '\n' ∉ rest) :
    completeImport.Takes [] [] w rest g ↔ IsStatement w ∧ rest = [] ∧ g = [] := by
  have hsource {behind w : Text} {g : List (Nat × Text)} :
      sourceAtEnd.Takes behind [] w rest g ↔ IsSource w ∧ rest = [] ∧ g = [] := takes_sourceAtEnd hrest
  have hfrom : "from".toList = 'f' :: "rom".toList := rfl
  have hf : Text.isWord 'f' = true := by decide
  show Takes (.all [.textStart, .text "import", .one Text.isBlank, .some1 inLine, .edge, .text "from", .blanks1, sourceAtEnd])
      _ _ _ _ _ ∨ Takes (.all [.textStart, .text "import", .blanks1, sourceAtEnd]) _ _ _ _ _ ↔ _
  generalize sourceAtEnd = source at hsource
  simp only [Pattern.all, takes_seq_textStart, takes_seq_text, plain_one.takes_seq, plain_some1.takes_seq, takes_seq_edge,
    blanks1, hsource]
  constructor
  · rintro (⟨-, _, rfl, _, _, rfl, ⟨b, rfl, hb⟩, names, _, rfl, ⟨hne, -⟩, hedge, _, rfl, blanks, source, rfl, hblanks,
      hs, rfl, rfl⟩ | ⟨-, _, rfl, blanks, source, rfl, hblanks, hs, rfl, rfl⟩)
    · obtain ⟨names, c, rfl⟩ := (List.eq_nil_or_concat names).resolve_left hne
      rw [List.concat_eq_append] at hedge hline ⊢
      have hc : Text.isWord c = false := by simpa [hfrom, hf] using hedge
      exact ⟨.names hb (fun hm => hline (by simp only [List.mem_append] at hm ⊢; tauto)) hc hblanks hs, rfl, rfl⟩
    · exact ⟨.bare hblanks hs, rfl, rfl⟩
  · rintro ⟨hw, rfl, rfl⟩
    cases hw with
    | @names names blanks source b c hb hnames hc hblanks hs =>
      refine Or.inl ⟨trivial, _, rfl, [b], _, rfl, ⟨b, rfl, hb⟩, names ++ [c], _, rfl, ⟨by simp, fun d hd => ?_⟩, ?_, _, rfl,
        blanks, source, rfl, hblanks, hs, rfl, rfl⟩
      · exact bne_iff_ne.2 (ne_of_mem_of_not_mem hd hnames)
      · simp [hfrom, hf, hc]
    | @bare blanks source hblanks hs => exact Or.inr ⟨trivial, _, rfl, blanks, source, rfl, hblanks, hs, rfl, rfl⟩

end

/-- **What counts as an import** are the lines that are an import statement when their blanks are collapsed. -/
theorem isImport_iff {l : Text} : isImport l = true ↔ IsStatement (collapseBlanks l) := by
  have hline := notMem_collapseBlanks l
  rw [isImport]
  generalize collapseBlanks l = t at hline
  rw [beginsWith, Option.isSome_iff_exists]
  constructor
  · rintro ⟨h, hh : completeImport.hit? [] t = some h⟩
    obtain ⟨rest, rfl, htakes⟩ := takes_of_hit? hh
    rw [List.mem_append, not_or] at hline
    obtain ⟨hw, rfl, -⟩ := (takes_completeImport hline.1 hline.2).1 htakes
    rwa [List.append_nil]
  · intro hw
    obtain ⟨h, hh⟩ := exists_hit? ((takes_completeImport hline (List.not_mem_nil)).2 ⟨hw, rfl, rfl⟩)
    exact ⟨h, by rwa [List.append_nil] at hh⟩

/-! ### Lines that are kept and lines that are dropped -/

/-- The lines, each with whether it is kept; `seen` holds the collapsed statements of the lines so far. -/
def marks (seen : List Text) : List Text → List (Text × Bool)
  | [] => []
  | l :: ls =>
    if isImport l then
      if collapseBlanks l ∈ seen then (l, false) :: marks seen ls else (l, true) :: marks (collapseBlanks l :: seen) ls
    else (l, true) :: marks seen ls

theorem map_fst_marks (seen ls : List Text) : (marks seen ls).map Prod.fst = ls := by
  induction ls generalizing seen with
  | nil => rfl
  | cons l ls ih =>
    rw [marks]
    split
    · split
      · rw [List.map_cons, ih]
      · rw [List.map_cons, ih]
    · rw [List.map_cons, ih]

theorem kept_marks (seen ls : List Text) :
    ((marks seen ls).filter Prod.snd).map Prod.fst = dropRepeatedImports seen ls := by
  induction ls generalizing seen with
  | nil => rfl
  | cons l ls ih =>
    rw [marks]
    split
    · rename_i hl
      rw [dropRepeatedImports_cons_of_isImport hl]
      split
      · rw [List.filter_cons_of_neg Bool.false_ne_true, ih]
      · rw [List.filter_cons_of_pos rfl, List.map_cons, ih]
    · rename_i hl
      rw [dropRepeatedImports_cons_of_not (Bool.eq_false_iff.2 hl), List.filter_cons_of_pos rfl, List.map_cons, ih]

/-- A line is dropped just if it is an import that was seen, or that a kept line in front of it repeats. -/
theorem dropped_iff {seen ls : List Text} {front back : List (Text × Bool)} {l : Text} {kept : Bool}
    (h : marks seen ls = front ++ (l, kept) :: back) : kept = false ↔ isImport l = true ∧
      (collapseBlanks l ∈ seen ∨ ∃ l', (l', true) ∈ front ∧ collapseBlanks l' = collapseBlanks l) := by
  induction ls generalizing seen front with
  | nil => simp [marks] at h
  | cons x ls ih =>
    rw [marks] at h
    split at h
    · rename_i hx
      split at h
      · rename_i hseen
        rcases front with _ | ⟨m, front⟩
        · obtain ⟨⟨⟩, -⟩ := List.cons.inj h
          simp [hx, hseen]
        · obtain ⟨rfl, hrest⟩ := List.cons.inj h
          rw [ih hrest]
          simp
      · rename_i hseen
        rcases front with _ | ⟨m, front⟩
        · obtain ⟨⟨⟩, -⟩ := List.cons.inj h
          simp [hseen]
        · -- What was just seen stands in a kept line in front.
          obtain ⟨rfl, hrest⟩ := List.cons.inj h
          rw [ih hrest]
          refine and_congr_right fun _ => ?_
          simp only [List.mem_cons, Prod.mk.injEq, and_true, or_and_right, exists_or, exists_eq_left]
          rw [eq_comm (a := collapseBlanks x)]
          tauto
    · rename_i hx
      rcases front with _ | ⟨m, front⟩
      · obtain ⟨⟨⟩, -⟩ := List.cons.inj h
        simp [hx]
      · obtain ⟨rfl, hrest⟩ := List.cons.inj h
        rw [ih hrest]
        refine and_congr_right fun hl => or_congr_right ?_
        have hno : collapseBlanks x ≠ collapseBlanks l := fun heq => hx (by rw [isImport, heq]; exact hl)
        simp only [List.mem_cons, Prod.mk.injEq, and_true, or_and_right, exists_or, exists_eq_left, hno, false_or]

/-- Lines without a repeated import have no two import statements with one form. -/
theorem Fresh.pairwise {ls : List Text} (h : Fresh [] ls) : ls.Pairwise fun l l' =>
    IsStatement (collapseBlanks l) → IsStatement (collapseBlanks l') → collapseBlanks l ≠ collapseBlanks l' := by
  have hnodup := List.pairwise_filter.1 (List.pairwise_map.1 h.1)
  exact hnodup.imp fun hne hl hl' => hne (isImport_iff.2 hl) (isImport_iff.2 hl')

/-- **Only repeated imports are dropped.** If no import block is left open, the lines of the text stay, in their order,
but for the lines that are an import statement and repeat, blanks apart, a kept line in front of them; and of the import
statements that stay no two are alike. -/
theorem fixCorruptedImports_drops_repeated {t : Text} (hnested : nestedImport.occursIn t = false)
    (hdangling : danglingImport.occursIn t = false) :
    ∃ marked : List (Text × Bool), marked.map Prod.fst = Text.lines t ∧
      (marked.filter Prod.snd).map Prod.fst = Text.lines (fixCorruptedImports t) ∧
      (∀ front l kept back, marked = front ++ (l, kept) :: back →
        (kept = false ↔ IsStatement (collapseBlanks l) ∧
          ∃ l', (l', true) ∈ front ∧ collapseBlanks l' = collapseBlanks l)) ∧
      (Text.lines (fixCorruptedImports t)).Pairwise fun l l' =>
        IsStatement (collapseBlanks l) → IsStatement (collapseBlanks l') → collapseBlanks l ≠ collapseBlanks l' := by
  have hlines : Text.lines (fixCorruptedImports t) = dropRepeatedImports [] (Text.lines t) := by
    unfold fixCorruptedImports
    dsimp only
    rw [replace_of_absent (occursIn_eq_false_iff.1 hnested), replace_of_absent (occursIn_eq_false_iff.1 hdangling),
      lines_dropRepeatedImports]
  refine ⟨marks [] (Text.lines t), map_fst_marks _ _, ?_, fun front l kept back h => ?_, ?_⟩
  · rw [kept_marks, hlines]
  · rw [dropped_iff h, isImport_iff]
    simp
  · exact (fresh_fixCorruptedImports t).pairwise

/-- Two imports of one name, written with other blanks, and an import over several lines. -/
def repeatedImports : Text := "import a from 'a';\nimport \x7b\n  b\n\x7d from 'b';\nimport  a from  'a';".toList

theorem fixCorruptedImports_drops_repeated_twice : nestedImport.occursIn repeatedImports = false ∧
    danglingImport.occursIn repeatedImports = false ∧
    ∃ marked : List (Text × Bool), marked.map Prod.fst = Text.lines repeatedImports ∧
      (marked.filter Prod.snd).map Prod.fst = Text.lines (fixCorruptedImports repeatedImports) := by
  have hnested : nestedImport.occursIn repeatedImports = false := by decide +kernel
  have hdangling : danglingImport.occursIn repeatedImports = false := by decide +kernel
  obtain ⟨marked, hall, hkept, -⟩ := fixCorruptedImports_drops_repeated hnested hdangling
  exact ⟨hnested, hdangling, marked, hall, hkept⟩

end LayeredFix.Pass.Convention
