import LayeredFix.Proofs.Convention.Names
import LayeredFix.Proofs.Guard.FixedPoint
import Mathlib.Data.List.Forall2

/-!
# One mark of client code

The pass over marks leaves a text alone just if it has no line that is a mark, or one, at the first line of code
(`fixClientDirectives_eq_self_iff`). The passes after it keep that: a mark that is added is put in front
(`Marked.spaced`), and names are not read where the first line of code is looked for (`Marked.renaming`).
-/

namespace LayeredFix.Pass.Convention

open Guard (clientDirective hasClientDirective markClient)

/-! ### Texts with one mark -/

/-- No line is a mark, or one is, at the first line of code. -/
def Marked (t : Text) : Prop :=
  (Text.lines t).countP isDirectiveLine = 0 ∨
    (Text.lines t).countP isDirectiveLine = 1 ∧ (Text.lines t).findIdx isDirectiveLine = firstCodeIndex (Text.lines t)

theorem isDirectiveLine_mark : isDirectiveLine clientDirective.toList = true := by decide

theorem not_isDirectiveLine_nil : isDirectiveLine [] = false := by decide

theorem fixClientDirectives_of_marked {t : Text} (h : Marked t) : fixClientDirectives t = t := by
  unfold fixClientDirectives
  rcases h with h | ⟨h, hfirst⟩
  · simp [h]
  · simp [h, hfirst]

/-- The lines that are no mark. -/
def unmarked (t : Text) : List Text := (Text.lines t).filter fun line => !isDirectiveLine line

theorem not_isDirectiveLine_of_mem_unmarked {t l : Text} (h : l ∈ unmarked t) : isDirectiveLine l = false := by
  simpa using (List.mem_filter.1 h).2

/-- Of the other lines none is a mark. -/
theorem countP_of_forall_mem_unmarked {t : Text} {ls : List Text} (h : ∀ l ∈ ls, l ∈ unmarked t) :
    ls.countP isDirectiveLine = 0 :=
  List.countP_eq_zero.2 fun l hl => by simp [not_isDirectiveLine_of_mem_unmarked (h l hl)]

/-- Where the marks are not as they should be, one goes to the first line of code among the other lines, with a blank line
behind it. -/
theorem lines_fixClientDirectives {t : Text} (h : ¬ Marked t) :
    Text.lines (fixClientDirectives t) = (unmarked t).take (firstCodeIndex (unmarked t)) ++
      clientDirective.toList :: [] :: (unmarked t).drop (firstCodeIndex (unmarked t)) := by
  have hlines : fixClientDirectives t = Text.unlines ((unmarked t).take (firstCodeIndex (unmarked t)) ++
      clientDirective.toList :: [] :: (unmarked t).drop (firstCodeIndex (unmarked t))) := by
    unfold Marked at h
    unfold fixClientDirectives
    dsimp only
    rw [not_or, not_and] at h
    rw [if_neg (by simpa using h.1), if_neg (by simpa using h.2), List.append_assoc]
    rfl
  have hline : ∀ l ∈ unmarked t, '\n' ∉ l := fun l hl => Text.notMem_of_mem_lines (List.mem_filter.1 hl).1
  rw [hlines]
  refine Text.lines_unlines (by simp) fun l hl => ?_
  simp only [List.mem_append, List.mem_cons] at hl
  rcases hl with hl | rfl | rfl | hl
  · exact hline l (List.mem_of_mem_take hl)
  · decide
  · simp
  · exact hline l (List.mem_of_mem_drop hl)

/-- Then it is the only mark. -/
theorem countP_fixClientDirectives {t : Text} (h : ¬ Marked t) :
    (Text.lines (fixClientDirectives t)).countP isDirectiveLine = 1 := by
  rw [lines_fixClientDirectives h, List.countP_append, List.countP_cons_of_pos isDirectiveLine_mark,
    List.countP_cons_of_neg (by simp [not_isDirectiveLine_nil]),
    countP_of_forall_mem_unmarked fun _ => List.mem_of_mem_take,
    countP_of_forall_mem_unmarked fun _ => List.mem_of_mem_drop]

/-- **The pass leaves alone just the texts with one mark.** -/
theorem fixClientDirectives_eq_self_iff {t : Text} : fixClientDirectives t = t ↔ Marked t := by
  refine ⟨fun heq => Classical.byContradiction fun h => ?_, fixClientDirectives_of_marked⟩
  -- A text that is put together again has a line more than it had.
  have hcount := countP_fixClientDirectives h
  have hlonger := congrArg List.length (lines_fixClientDirectives h)
  have hlength := List.length_eq_countP_add_countP isDirectiveLine (l := Text.lines t)
  have htake := congrArg List.length (List.take_append_drop (firstCodeIndex (unmarked t)) (unmarked t))
  rw [List.length_append] at htake
  rw [heq] at hcount hlonger
  rw [hcount, List.countP_eq_length_filter] at hlength
  have hrest : ((Text.lines t).filter fun l => decide ¬ isDirectiveLine l = true) = unmarked t :=
    List.filter_congr fun l _ => by simp
  rw [hrest] at hlength
  simp only [List.length_append, List.length_cons] at hlonger
  omega

/-! ### What is put in front -/

/-- A line that is a mark holds one of its spellings. -/
theorem infix_of_isDirectiveLine {l : Text} (h : isDirectiveLine l = true) : hasClientDirective l = true := by
  have hall : ∀ l ∈ directiveLines, hasClientDirective l = true := by decide
  have htrim : hasClientDirective (Text.trim l) = true := hall _ (List.contains_iff_mem.1 h)
  obtain ⟨w, hw, hin⟩ := List.any_eq_true.1 htrim
  refine List.any_eq_true.2 ⟨w, hw, ?_⟩
  rw [Text.occursIn_iff] at hin ⊢
  exact hin.trans (Text.trim_infix l)

theorem hasClientDirective_of_part {t t' : Text} (h : hasClientDirective t = true) (hin : t <:+: t') :
    hasClientDirective t' = true := by
  obtain ⟨w, hw, hwt⟩ := List.any_eq_true.1 h
  refine List.any_eq_true.2 ⟨w, hw, ?_⟩
  rw [Text.occursIn_iff] at hwt ⊢
  exact hwt.trans hin

/-- A text without any spelling of the mark has no line that is one. -/
theorem countP_eq_zero {t : Text} (h : hasClientDirective t = false) : (Text.lines t).countP isDirectiveLine = 0 :=
  List.countP_eq_zero.2 fun l hl hmark => by
    rw [hasClientDirective_of_part (infix_of_isDirectiveLine hmark) (Text.infix_of_mem_lines hl)] at h
    cases h

/-- A mark at the beginning of a text whose other lines are none. -/
theorem marked_of_front {r : Text} (h : (Text.lines r).countP isDirectiveLine = 0) :
    Marked (clientDirective.toList ++ '\n' :: r) := by
  have hlines : Text.lines (clientDirective.toList ++ '\n' :: r) = clientDirective.toList :: Text.lines r := by
    rw [Text.lines_append_newline, Text.lines_of_notMem (by decide), List.singleton_append]
  have hcode : firstCodeIndex (clientDirective.toList :: Text.lines r) = 0 := by
    have hmark : (Text.trim clientDirective.toList).isEmpty = false ∧
        "//".toList.isPrefixOf (Text.trim clientDirective.toList) = false ∧
        "/*".toList.isPrefixOf (Text.trim clientDirective.toList) = false := by decide
    simp only [firstCodeIndex, firstCodeIndexFrom, hmark, Bool.or_self, Bool.false_eq_true, if_false]
  refine Or.inr ?_
  rw [hlines, List.countP_cons_of_pos isDirectiveLine_mark, h, List.findIdx_cons, isDirectiveLine_mark, hcode]
  simp

/-- What the passes for the mark make of a text: it stays, or it begins with the mark and a blank line, where the mark is
new or was the first line. -/
inductive Spaced (u : Text) : Text → Prop where
  /-- The text stays. -/
  | same : Spaced u u
  /-- The mark is new. -/
  | added {nl r : Text} (hu : u = nl ++ r) (hnl : ∀ c ∈ nl, c = '\n') (hr : r.head? ≠ some '\n')
      (hmark : hasClientDirective u = false) : Spaced u (clientDirective.toList ++ '\n' :: '\n' :: r)
  /-- The mark was the first line. -/
  | there {nl r : Text} (hu : u = clientDirective.toList ++ '\n' :: (nl ++ r)) (hnl : ∀ c ∈ nl, c = '\n')
      (hr : r.head? ≠ some '\n') : Spaced u (clientDirective.toList ++ '\n' :: '\n' :: r)

theorem exists_newlines (t : Text) : ∃ nl r, t = nl ++ r ∧ (∀ c ∈ nl, c = '\n') ∧ r.head? ≠ some '\n' ∧
    t.dropWhile (· == '\n') = r := by
  refine ⟨t.takeWhile (· == '\n'), _, List.takeWhile_append_dropWhile.symm, fun c hc => ?_, fun hr => ?_, rfl⟩
  · exact beq_iff_eq.1 (List.all_eq_true.1 List.all_takeWhile c hc)
  · have hnot := List.head?_dropWhile_not (· == '\n') t
    rw [hr] at hnot
    cases hnot

theorem dropWhile_newlines {r : Text} (hr : r.head? ≠ some '\n') : r.dropWhile (· == '\n') = r := by
  cases r with
  | nil => rfl
  | cons c r => exact List.dropWhile_cons_of_neg (by simpa using hr)

/-- What the passes for the mark make of a text. -/
def spaced (u : Text) : Text := fixDirectiveSpacing (addMissingClientDirective u)

theorem fixDirectiveSpacing_front (r : Text) : fixDirectiveSpacing (clientDirective.toList ++ '\n' :: r) =
    clientDirective.toList ++ '\n' :: '\n' :: r.dropWhile (· == '\n') := by
  unfold fixDirectiveSpacing
  rw [if_pos (List.isPrefixOf_iff_prefix.2 (List.prefix_append _ _)), List.drop_left]
  exact List.append_assoc clientDirective.toList ['\n', '\n'] _

theorem fixDirectiveSpacing_cases (u : Text) :
    fixDirectiveSpacing u = u ∨ ∃ r, u = clientDirective.toList ++ '\n' :: r := by
  unfold fixDirectiveSpacing
  dsimp only
  split
  · rename_i hpre
    obtain ⟨rest, rfl⟩ := List.isPrefixOf_iff_prefix.1 hpre
    rw [List.drop_left]
    split
    · exact Or.inr ⟨_, rfl⟩
    · exact Or.inl rfl
  · exact Or.inl rfl

theorem addMissingClientDirective_cases (u : Text) : addMissingClientDirective u = u ∨
    addMissingClientDirective u = clientDirective.toList ++ '\n' :: '\n' :: u ∧ hasClientDirective u = false := by
  have hmark : markClient u = clientDirective.toList ++ '\n' :: '\n' :: u := by
    rw [markClient, String.toList_append, List.append_assoc]
    rfl
  unfold addMissingClientDirective
  split
  · exact Or.inl rfl
  · rename_i hno
    split
    · exact Or.inl rfl
    · split
      · exact Or.inl rfl
      · exact Or.inr ⟨hmark, by simpa using hno⟩

theorem spaced_spaced (u : Text) : Spaced u (spaced u) := by
  rcases addMissingClientDirective_cases u with heq | ⟨heq, hmark⟩
  · rw [spaced, heq]
    rcases fixDirectiveSpacing_cases u with hsame | ⟨r, hr⟩
    · rw [hsame]
      exact .same
    · obtain ⟨nl, r', hnlr, hnl, hr', hdrop⟩ := exists_newlines r
      have hthere : Spaced u (clientDirective.toList ++ '\n' :: '\n' :: r') := .there (hnlr ▸ hr) hnl hr'
      rwa [← hdrop, ← fixDirectiveSpacing_front, ← hr] at hthere
  · obtain ⟨nl, r, hnlr, hnl, hr, hdrop⟩ := exists_newlines u
    have hadded : Spaced u (clientDirective.toList ++ '\n' :: '\n' :: r) := .added hnlr hnl hr hmark
    have hnewline : ('\n' :: u).dropWhile (· == '\n') = u.dropWhile (· == '\n') := List.dropWhile_cons_of_pos rfl
    rwa [← hdrop, ← hnewline, ← fixDirectiveSpacing_front, ← heq] at hadded

theorem hasClientDirective_front (r : Text) : hasClientDirective (clientDirective.toList ++ r) = true :=
  hasClientDirective_of_part (by decide) (List.prefix_append _ r).isInfix

/-- A text that has no mark after the passes for it is left alone by them. -/
theorem spaced_of_not_hasClientDirective {u : Text} (h : hasClientDirective (spaced u) = false) :
    spaced u = u ∧ addMissingClientDirective u = u := by
  have hno {r : Text} (hr : spaced u = clientDirective.toList ++ r) : False := by
    rw [hr, hasClientDirective_front] at h
    cases h
  rcases addMissingClientDirective_cases u with heq | ⟨heq, -⟩
  · refine ⟨?_, heq⟩
    rw [spaced, heq]
    rcases fixDirectiveSpacing_cases u with hsame | ⟨r, hr⟩
    · exact hsame
    · exact (hno (by rw [spaced, heq, hr, fixDirectiveSpacing_front])).elim
  · exact (hno (by rw [spaced, heq, fixDirectiveSpacing_front])).elim

/-- The blank line is set once. -/
theorem fixDirectiveSpacing_idempotent (u : Text) :
    fixDirectiveSpacing (fixDirectiveSpacing u) = fixDirectiveSpacing u := by
  rcases fixDirectiveSpacing_cases u with hsame | ⟨r, rfl⟩
  · rw [hsame, hsame]
  · obtain ⟨nl, r', -, -, hr', hdrop⟩ := exists_newlines r
    rw [fixDirectiveSpacing_front, fixDirectiveSpacing_front, List.dropWhile_cons_of_pos rfl, hdrop,
      dropWhile_newlines hr']

theorem lines_newlines_append {nl : Text} (hnl : ∀ c ∈ nl, c = '\n') (r : Text) :
    (Text.lines (nl ++ r)).countP isDirectiveLine = (Text.lines r).countP isDirectiveLine := by
  induction nl with
  | nil => rfl
  | cons c nl ih =>
    rw [List.forall_mem_cons] at hnl
    rw [hnl.1, List.cons_append, Text.lines_newline, List.countP_cons_of_neg (by simp [not_isDirectiveLine_nil]), ih hnl.2]

/-- A mark in front, with newlines behind it, is one mark more. -/
theorem countP_mark {nl : Text} (hnl : ∀ c ∈ nl, c = '\n') (r : Text) :
    (Text.lines (clientDirective.toList ++ '\n' :: (nl ++ r))).countP isDirectiveLine =
      (Text.lines r).countP isDirectiveLine + 1 := by
  rw [Text.lines_append_newline, Text.lines_of_notMem (by decide), List.singleton_append,
    List.countP_cons_of_pos isDirectiveLine_mark, lines_newlines_append hnl]

/-- A mark that is added or has its blank line set is no second one. -/
theorem Spaced.countP_le {u t : Text} (hs : Spaced u t) :
    (Text.lines t).countP isDirectiveLine ≤ max 1 ((Text.lines u).countP isDirectiveLine) := by
  have hfront (r : Text) : (Text.lines (clientDirective.toList ++ '\n' :: '\n' :: r)).countP isDirectiveLine =
      (Text.lines r).countP isDirectiveLine + 1 := countP_mark (List.forall_mem_singleton.2 rfl) r
  cases hs with
  | same => exact le_max_right _ _
  | @added nl r hu hnl hr hmark =>
    have hnone := countP_eq_zero hmark
    rw [hu, lines_newlines_append hnl] at hnone
    exact (hfront r).le.trans (by rw [hnone]; exact le_max_left _ _)
  | @there nl r hu hnl hr =>
    rw [hu, countP_mark hnl]
    exact (hfront r).le.trans (le_max_right _ _)

/-- **A mark that is added, or has its blank line set, is the only one.** -/
theorem Marked.spaced {u t : Text} (h : Marked u) (hs : Spaced u t) : Marked t := by
  have hfront {r : Text} (hr : (Text.lines r).countP isDirectiveLine = 0) :
      Marked (clientDirective.toList ++ '\n' :: '\n' :: r) := by
    refine marked_of_front ?_
    rw [Text.lines_newline, List.countP_cons_of_neg (by simp [not_isDirectiveLine_nil]), hr]
  cases hs with
  | same => exact h
  | @added nl r hu hnl hr hmark =>
    refine hfront ?_
    rw [← lines_newlines_append hnl, ← hu]
    exact countP_eq_zero hmark
  | @there nl r hu hnl hr =>
    have hcount := countP_mark hnl r
    rw [← hu] at hcount
    refine hfront ?_
    rcases h with h | ⟨h, -⟩ <;> omega

/-! ### Names -/

/-- Two lines are read alike where the first line of code and the marks are looked for. -/
structure ReadsAlike (l l' : Text) : Prop where
  mark : isDirectiveLine l = isDirectiveLine l'
  blank : (Text.trim l).isEmpty = (Text.trim l').isEmpty
  lineComment : "//".toList.isPrefixOf (Text.trim l) = "//".toList.isPrefixOf (Text.trim l')
  comment : "/*".toList.isPrefixOf (Text.trim l) = "/*".toList.isPrefixOf (Text.trim l')
  commentEnd : Text.occursIn "*/".toList (Text.trim l) = Text.occursIn "*/".toList (Text.trim l')

theorem ReadsAlike.refl (l : Text) : ReadsAlike l l := ⟨rfl, rfl, rfl, rfl, rfl⟩

theorem firstCodeIndexFrom_congr {ls ls' : List Text} (h : List.Forall₂ ReadsAlike ls ls') :
    ∀ b, firstCodeIndexFrom b ls = firstCodeIndexFrom b ls' := by
  induction h with
  | nil => exact fun b => rfl
  | cons hl _ ih =>
    intro b
    simp only [firstCodeIndexFrom, hl.blank, hl.lineComment, hl.comment, hl.commentEnd, ih]

theorem countP_congr {t t' : Text} (h : List.Forall₂ ReadsAlike (Text.lines t) (Text.lines t')) :
    (Text.lines t).countP isDirectiveLine = (Text.lines t').countP isDirectiveLine := by
  generalize Text.lines t = ls, Text.lines t' = ls' at h
  induction h with
  | nil => rfl
  | cons hl _ ih => rw [List.countP_cons, List.countP_cons, hl.mark, ih]

theorem Marked.congr {t t' : Text} (h : List.Forall₂ ReadsAlike (Text.lines t) (Text.lines t')) (ht : Marked t) :
    Marked t' := by
  have hfind : (Text.lines t).findIdx isDirectiveLine = (Text.lines t').findIdx isDirectiveLine := by
    generalize Text.lines t = ls, Text.lines t' = ls' at h
    induction h with
    | nil => rfl
    | cons hl _ ih => rw [List.findIdx_cons, List.findIdx_cons, hl.mark, ih]
  unfold Marked at ht ⊢
  rwa [countP_congr h, hfind, firstCodeIndex, firstCodeIndexFrom_congr h false] at ht

namespace Renaming

variable {P Q : Text → Prop} {t t' : Text}

/-- Names do not break lines. -/
theorem lines (hP : ∀ n, P n → IsName n) (hQ : ∀ n, Q n → IsName n) (h : Renaming P Q t t') :
    List.Forall₂ (Renaming P Q) (Text.lines t) (Text.lines t') := by
  have hno {n : Text} (hn : IsName n) : '\n' ∉ exportHead ++ n := notMem_of_outside (by with_unfolding_all decide) hn
  induction h with
  | nil => exact .cons .nil .nil
  | @keep c t t' h ih =>
    by_cases hc : c = '\n'
    · rw [hc, Text.lines_newline, Text.lines_newline]
      exact .cons .nil ih
    · rw [Text.lines_cons_of_ne hc, Text.lines_cons_of_ne hc]
      obtain ⟨l, ls, hl⟩ := List.exists_cons_of_ne_nil (Text.lines_ne_nil t)
      obtain ⟨l', ls', hl'⟩ := List.exists_cons_of_ne_nil (Text.lines_ne_nil t')
      rw [hl, hl', List.forall₂_cons] at ih
      rw [hl, hl']
      exact .cons (.keep c ih.1) ih.2
  | @name n n' t t' hn hn' hend h ih =>
    rw [← List.append_assoc, ← List.append_assoc]
    obtain ⟨l, ls, hl, hcons⟩ := Text.lines_append_of_notMem (hno (hP n hn)) t
    obtain ⟨l', ls', hl', hcons'⟩ := Text.lines_append_of_notMem (hno (hQ n' hn')) t'
    rw [hl, hl', List.forall₂_cons] at ih
    rw [hcons, hcons', List.append_assoc, List.append_assoc]
    have hendl : EndsName l := by
      obtain ⟨rest, hrest⟩ := Text.prefix_of_lines_eq_cons hl
      exact (hrest ▸ hend).left
    exact .cons (.name hn hn' hendl ih.1) ih.2

/-- **A change of names is not read** where marks and the first line of code are looked for. -/
theorem readsAlike (hP : ∀ n, P n → IsName n) (hQ : ∀ n, Q n → IsName n) (h : Renaming P Q t t') : ReadsAlike t t' := by
  have hcomment : "*/".toList <:+: t ↔ "*/".toList <:+: t' := by
    have hno : ¬ exportHead <:+: [] := by with_unfolding_all decide
    have hstar : Outside '*' := by with_unfolding_all decide
    have hslash : Outside '/' := by with_unfolding_all decide
    exact ⟨h.symm.infix_of_outside hP hstar hslash hno, h.infix_of_outside hQ hstar hslash hno⟩
  rcases h.eq_or with rfl | ⟨a, b, b', ht, ht'⟩
  · exact .refl t
  obtain ⟨u, hu⟩ := exists_exportHead_eq_cons
  have hblank : Text.isBlank 'e' = false ∧ Text.isBlank 'x' = false := by decide
  have hx : 'x' ∈ exportHead := by with_unfolding_all decide
  -- Both lines hold a head, so neither is blank or a mark, and the comment that a line begins with ends before.
  have hmem {b : Text} : 'x' ∈ Text.trim (a ++ (exportHead ++ b)) := Text.mem_trim hblank.2 (by simp [hx])
  have hmark {b : Text} : isDirectiveLine (a ++ (exportHead ++ b)) = false := by
    have hall : ∀ l ∈ directiveLines, 'x' ∉ l := by decide
    exact Bool.eq_false_iff.2 fun hl => hall _ (List.contains_iff_mem.1 hl) hmem
  have hempty {b : Text} : (Text.trim (a ++ (exportHead ++ b))).isEmpty = false :=
    Bool.eq_false_iff.2 fun hl => by simpa [List.isEmpty_iff.1 hl] using hmem (b := b)
  have hfront {w : Text} (hw : ∀ c ∈ w, Text.isBlank c = false) (he : 'e' ∉ w) {b : Text} :
      w.isPrefixOf (Text.trim (a ++ (exportHead ++ b))) = true ↔ w <+: Text.trimLeft a := by
    rw [List.isPrefixOf_iff_prefix, Text.prefix_trim_iff hw, hu, List.cons_append, Text.trimLeft_append_cons hblank.1]
    exact ⟨fun hpre => Text.prefix_of_notMem hpre he, fun hpre => hpre.trans (List.prefix_append _ _)⟩
  have hstar : ∀ w ∈ ["//".toList, "/*".toList, "*/".toList], w ≠ [] ∧ 'e' ∉ w ∧ ∀ c ∈ w, Text.isBlank c = false := by
    decide
  obtain ⟨⟨-, he, hw⟩, ⟨-, he', hw'⟩, ⟨hne, -, hw''⟩⟩ : _ ∧ _ ∧ _ :=
    ⟨hstar "//".toList (by simp), hstar "/*".toList (by simp), hstar "*/".toList (by simp)⟩
  refine ⟨?_, ?_, ?_, ?_, ?_⟩
  · rw [ht, ht', hmark, hmark]
  · rw [ht, ht', hempty, hempty]
  · rw [ht, ht', Bool.eq_iff_iff, hfront hw he, hfront hw he]
  · rw [ht, ht', Bool.eq_iff_iff, hfront hw' he', hfront hw' he']
  · rw [Bool.eq_iff_iff, Text.occursIn_iff, Text.occursIn_iff, Text.infix_trim_iff hne hw'', Text.infix_trim_iff hne hw'',
      hcomment]

end Renaming

/-- A change of names does not change the blank line after the mark. -/
theorem Renaming.fixDirectiveSpacing {P Q : Text → Prop} {t t' : Text} (hP : ∀ n, P n → IsName n)
    (hQ : ∀ n, Q n → IsName n) (h : Renaming P Q t t') (ht : fixDirectiveSpacing t = t) : fixDirectiveSpacing t' = t' := by
  have hline : Outside '\n' := by with_unfolding_all decide
  rcases fixDirectiveSpacing_cases t' with hsame | ⟨r', rfl⟩
  · exact hsame
  · obtain ⟨a, r, rfl, ha, hr⟩ := h.split_outside hQ hline
    rw [ha.eq_of_headless (by with_unfolding_all decide), fixDirectiveSpacing_front, List.append_cancel_left_eq, List.cons_inj_right] at ht
    obtain ⟨nl, r₀, -, -, hr₀, hdrop⟩ := exists_newlines r
    rw [hdrop] at ht
    rw [← ht] at hr
    obtain ⟨a', r₁, rfl, ha', hr₁⟩ := Renaming.split_outside hP hline (a := []) hr.symm
    rw [ha'.eq_nil_iff.2 rfl, List.nil_append, fixDirectiveSpacing_front, List.dropWhile_cons_of_pos rfl,
      dropWhile_newlines (hr₁.head? ▸ hr₀)]

/-- **A change of names moves no mark.** -/
theorem Marked.renaming {P Q : Text → Prop} {t t' : Text} (hP : ∀ n, P n → IsName n) (hQ : ∀ n, Q n → IsName n)
    (h : Marked t) (hr : Renaming P Q t t') : Marked t' :=
  h.congr ((hr.lines hP hQ).imp fun _ _ hl => hl.readsAlike hP hQ)

end LayeredFix.Pass.Convention
