import LayeredFix.Proofs.Convention.FirstCode
import LayeredFix.Proofs.Convention.FixedPoint

/-!
# Marks are collapsed into one

The repair of marks puts one mark at the first line of code and keeps all other lines (`fixClientDirectives_collapsed`).
The repairs after it make no mark out of other lines, with one exception: an import block that is flattened is closed by a
double quotation mark, whichever one closed it before. What they make may so be counted among the lines that are marks if
quotation marks are not told apart, and their number does not grow (`looseMarks_replace_nestedImport`).
-/

namespace LayeredFix.Pass.Convention

open Pattern
open Component (isQuote)
open Guard (clientDirective hasClientDirective)

/-! ### Marks whose quotation marks differ -/

/-- A text with all quotation marks alike. -/
def evenQuotes (t : Text) : Text := t.map fun c => if isQuote c then '"' else c

/-- A line is a mark if quotation marks are not told apart. -/
def isLooseMark (l : Text) : Bool := isDirectiveLine (evenQuotes l)

/-- A line would be a mark if its quotation marks did not differ. -/
def isUnevenMark (l : Text) : Bool := isLooseMark l && !isDirectiveLine l

theorem isLooseMark_of_isDirectiveLine {l : Text} (h : isDirectiveLine l = true) : isLooseMark l = true := by
  have hblank : Text.isBlank ∘ (fun c => if isQuote c then '"' else c) = Text.isBlank := by
    funext c
    rw [Function.comp_apply]
    split
    · rename_i hc
      rcases Bool.or_eq_true_iff.1 hc with hc | hc
      · obtain rfl := beq_iff_eq.1 hc
        decide
      · obtain rfl := beq_iff_eq.1 hc
        decide
    · rfl
  have htrim : Text.trim (evenQuotes l) = evenQuotes (Text.trim l) := by
    simp only [Text.trim, Text.trimRight, Text.trimLeft, Text.dropRightWhile, evenQuotes, List.dropWhile_map, hblank,
      ← List.map_reverse]
  have hall : ∀ l ∈ directiveLines, evenQuotes l ∈ directiveLines := by decide
  rw [isLooseMark, isDirectiveLine, htrim]
  exact List.contains_iff_mem.2 (hall _ (List.contains_iff_mem.1 h))

theorem countP_isLooseMark (ls : List Text) :
    ls.countP isLooseMark = ls.countP isDirectiveLine + ls.countP isUnevenMark := by
  induction ls with
  | nil => rfl
  | cons l ls ih =>
    rw [List.countP_cons, List.countP_cons, List.countP_cons, ih, isUnevenMark]
    cases hl : isDirectiveLine l with
    | false =>
      cases isLooseMark l with
      | false => simp
      | true =>
        simp
        omega
    | true =>
      rw [isLooseMark_of_isDirectiveLine hl]
      simp
      omega

/-- A character that stands in no mark. -/
def IsForeign (c : Char) : Prop := c ≠ '\n' ∧ Text.isBlank c = false ∧ isQuote c = false ∧ ∀ w ∈ directiveLines, c ∉ w

theorem isForeign_braces : IsForeign '\x7b' ∧ IsForeign '\x7d' := by
  unfold IsForeign
  decide

theorem IsForeign.not_isLooseMark {c : Char} {l : Text} (hc : IsForeign c) (h : c ∈ l) : isLooseMark l = false := by
  obtain ⟨-, hblank, hquote, hall⟩ := hc
  have hmem : c ∈ evenQuotes l := List.mem_map.2 ⟨c, h, if_neg (by simp [hquote])⟩
  exact Bool.eq_false_iff.2 fun hl => hall _ (List.contains_iff_mem.1 hl) (Text.mem_trim hblank hmem)

/-! ### Counting them -/

/-- The number of lines that are marks if quotation marks are not told apart. -/
def looseMarks (t : Text) : Nat := (Text.lines t).countP isLooseMark

/-- Their number among the lines behind the first one. -/
def looseMarksBelow (t : Text) : Nat := (Text.lines t).tail.countP isLooseMark

section
variable {a k x y z : Text} {c : Char}

theorem looseMarks_append_newline (x y : Text) : looseMarks (x ++ '\n' :: y) = looseMarks x + looseMarks y := by
  rw [looseMarks, Text.lines_append_newline, List.countP_append, looseMarks, looseMarks]

theorem looseMarksBelow_append_newline (x y : Text) :
    looseMarksBelow (x ++ '\n' :: y) = looseMarksBelow x + looseMarks y := by
  rw [looseMarksBelow, Text.lines_append_newline, List.tail_append_of_ne_nil (Text.lines_ne_nil x), List.countP_append,
    looseMarksBelow, looseMarks]

/-- The first line is not counted. -/
theorem looseMarksBelow_append_left (ha : '\n' ∉ a) (y : Text) : looseMarksBelow (a ++ y) = looseMarksBelow y := by
  obtain ⟨l, ls, hy, hay⟩ := Text.lines_append_of_notMem ha y
  rw [looseMarksBelow, looseMarksBelow, hy, hay, List.tail_cons, List.tail_cons]

theorem looseMarksBelow_le_append (x y : Text) : looseMarksBelow y ≤ looseMarksBelow (x ++ y) := by
  obtain ⟨init, p, hx⟩ := Text.exists_lines_concat x
  obtain ⟨l, ls, hy⟩ := List.exists_cons_of_ne_nil (Text.lines_ne_nil y)
  rw [looseMarksBelow, looseMarksBelow, Text.lines_append hx hy, hy, List.tail_cons]
  refine List.Sublist.countP_le ?_
  rcases init with _ | ⟨i, init⟩
  · exact .refl _
  · exact ((List.Sublist.refl ls).cons _).trans (List.sublist_append_right _ _)

theorem looseMarksBelow_le (x : Text) : looseMarksBelow x ≤ looseMarks x :=
  List.Sublist.countP_le (List.tail_sublist _)

/-- A line that holds a foreign character is not counted. -/
theorem looseMarks_append_of_isForeign (ha : '\n' ∉ a) (hc : IsForeign c) (hmem : c ∈ a) (y : Text) :
    looseMarks (a ++ y) = looseMarksBelow y := by
  obtain ⟨l, ls, hy, hay⟩ := Text.lines_append_of_notMem ha y
  have hno : isLooseMark (a ++ l) = false := hc.not_isLooseMark (List.mem_append_left l hmem)
  rw [looseMarks, looseMarksBelow, hy, hay, List.countP_cons_of_neg (by simp [hno]), List.tail_cons]

theorem looseMarksBelow_cut (hc : IsForeign c) (x y : Text) :
    looseMarksBelow (x ++ c :: y) = looseMarksBelow (x ++ [c]) + looseMarksBelow y := by
  obtain ⟨init, p, hx⟩ := Text.exists_lines_concat x
  obtain ⟨l, ls, hy⟩ := List.exists_cons_of_ne_nil (Text.lines_ne_nil y)
  have hxc : Text.lines (x ++ [c]) = init ++ [p ++ [c]] :=
    Text.lines_append hx (Text.lines_of_notMem (by simpa using hc.1.symm))
  have hno {l : Text} : isLooseMark (p ++ c :: l) = false := hc.not_isLooseMark (by simp)
  rw [List.append_cons x, looseMarksBelow, Text.lines_append hxc hy, looseMarksBelow, hxc, looseMarksBelow, hy]
  rcases init with _ | ⟨i, init⟩
  · simp
  · simp [hno]

/-- Where a line goes on to a foreign character, what follows may be exchanged. -/
theorem looseMarksBelow_append_le (hk : '\n' ∉ k) (hc : IsForeign c) (hmem : c ∈ k) (x y z : Text) :
    looseMarksBelow (x ++ (k ++ y)) ≤ looseMarksBelow (x ++ z) + looseMarksBelow y := by
  obtain ⟨init, p, hx⟩ := Text.exists_lines_concat x
  obtain ⟨l, ls, hy, hky⟩ := Text.lines_append_of_notMem hk y
  obtain ⟨l', ls', hz⟩ := List.exists_cons_of_ne_nil (Text.lines_ne_nil z)
  have hno : isLooseMark (p ++ (k ++ l)) = false := hc.not_isLooseMark (by simp [hmem])
  rw [looseMarksBelow, Text.lines_append hx hky, looseMarksBelow, Text.lines_append hx hz, looseMarksBelow, hy]
  rcases init with _ | ⟨i, init⟩
  · simp
  · simp [hno]

end

/-! ### Import blocks -/

/-- The braces of a flattened block stand in lines that are no marks, so no mark is made of the names, nor in front of the
last line of the source. -/
theorem looseMarks_flatImport {a' names source rest' : Text} {h : Hit} (hgroups : h.groups = [(2, source), (1, names)])
    (ha' : '\n' ∉ a') : looseMarks (a' ++ (flatImport h ++ rest')) ≤
      looseMarksBelow (names ++ ['\x7d']) + looseMarksBelow (source ++ '"' :: rest') := by
  obtain ⟨b, b', hnames, -, -⟩ := Text.exists_trim names
  have hflat : flatImport h = "import \x7b ".toList ++ Text.trim names ++ " \x7d from \"".toList ++ source ++ ['"'] := by
    have hgroup : h.group 1 = names ∧ h.group 2 = source := by
      unfold Hit.group
      rw [hgroups]
      exact ⟨rfl, rfl⟩
    rw [← hgroup.1, ← hgroup.2]
    rfl
  have hline : '\n' ∉ a' ++ "import \x7b ".toList := by
    rw [List.mem_append, not_or]
    exact ⟨ha', by decide⟩
  calc looseMarks (a' ++ (flatImport h ++ rest'))
      = looseMarks ((a' ++ "import \x7b ".toList) ++ (Text.trim names ++ (" \x7d from \"".toList ++
          (source ++ '"' :: rest')))) := by
        rw [hflat]
        simp only [List.append_assoc, List.cons_append, List.nil_append]
    _ = looseMarksBelow (Text.trim names ++ (" \x7d from \"".toList ++ (source ++ '"' :: rest'))) :=
        looseMarks_append_of_isForeign hline isForeign_braces.1 (List.mem_append_right a' (by decide)) _
    _ ≤ looseMarksBelow (Text.trim names ++ (b' ++ ['\x7d'])) + looseMarksBelow (source ++ '"' :: rest') :=
        looseMarksBelow_append_le (by decide) isForeign_braces.2 (by decide) _ _ _
    _ ≤ looseMarksBelow (names ++ ['\x7d']) + looseMarksBelow (source ++ '"' :: rest') := by
        have hcut : names ++ ['\x7d'] = b ++ (Text.trim names ++ (b' ++ ['\x7d'])) := by
          conv_lhs => rw [hnames]
          simp only [List.append_assoc]
        rw [hcut]
        exact Nat.add_le_add_right (looseMarksBelow_le_append _ _) _

/-- **Flattening import blocks makes no mark**, if quotation marks are not told apart. The lines that have begun may differ
in their quotation marks. -/
theorem looseMarks_replaceFrom_nestedImport {behind t : Text} : ∀ {a b : Text}, '\n' ∉ a → '\n' ∉ b →
    evenQuotes a = evenQuotes b →
    looseMarks (b ++ nestedImport.replaceFrom flatImport behind t) ≤ looseMarks (a ++ t) := by
  have hquote {q : Char} (hq : isQuote q = true) (l : Text) : evenQuotes (l ++ [q]) = evenQuotes (l ++ ['"']) := by
    have heven : isQuote '"' = true := by decide
    simp [evenQuotes, hq, heven]
  have hsame {a a' : Text} (ha : '\n' ∉ a) (ha' : '\n' ∉ a') (heq : evenQuotes a = evenQuotes a') :
      looseMarks a' ≤ looseMarks a := by
    rw [looseMarks, looseMarks, Text.lines_of_notMem ha, Text.lines_of_notMem ha', List.countP_singleton,
      List.countP_singleton, isLooseMark, isLooseMark, heq]
  have hpass {c : Char} {a a' t u : Text} (ha : '\n' ∉ a) (ha' : '\n' ∉ a') (heq : evenQuotes a = evenQuotes a')
      (ih : ∀ {a b : Text}, '\n' ∉ a → '\n' ∉ b → evenQuotes a = evenQuotes b → looseMarks (b ++ u) ≤ looseMarks (a ++ t)) :
      looseMarks (a' ++ c :: u) ≤ looseMarks (a ++ c :: t) := by
    by_cases hc : c = '\n'
    · rw [hc, looseMarks_append_newline, looseMarks_append_newline]
      exact Nat.add_le_add (hsame ha ha' heq) (ih (a := []) (b := []) (by simp) (by simp) rfl)
    · rw [List.append_cons a', List.append_cons a]
      refine ih ?_ ?_ ?_
      · simpa using ⟨ha, Ne.symm hc⟩
      · simpa using ⟨ha', Ne.symm hc⟩
      · simp only [evenQuotes, List.map_append] at heq ⊢
        rw [heq]
  fun_induction replaceFrom nestedImport flatImport behind t with
  | case1 behind =>
    intro a a' ha ha' heq
    rw [List.append_nil, List.append_nil]
    exact hsame ha ha' heq
  | case2 behind c t hn ih => exact fun ha ha' heq => hpass ha ha' heq ih
  | case3 behind c t h hh hempty ih => exact fun ha ha' heq => hpass ha ha' heq ih
  | case4 behind c t h hh hne ih =>
    intro a a' ha ha' heq
    have hcut : c :: t = h.text ++ t.drop (h.text.length - 1) :=
      text_hit?_cons hh fun hnil => hne (List.isEmpty_iff.2 hnil)
    obtain ⟨_, -, htakes⟩ := takes_of_hit? hh
    obtain ⟨b₁, b₂, b₃, b₄, names, b₅, b₆, source, q, q', htext, -, -, -, -, hq', hgroups⟩ := takes_nestedImport.1 htakes
    generalize t.drop (h.text.length - 1) = rest at hcut ih ⊢
    generalize nestedImport.replaceFrom flatImport (h.text.reverse ++ behind) rest = rest' at ih ⊢
    -- The last line of the source goes on behind the quotation mark.
    have hsource : looseMarksBelow (source ++ '"' :: rest') ≤ looseMarksBelow (source ++ q' :: rest) := by
      by_cases hline : '\n' ∈ source
      · obtain ⟨u, l, rfl, hl⟩ := Text.exists_last_newline hline
        have hq'l : '\n' ≠ q' := by
          rintro rfl
          cases hq'
        have hlast := ih (a := l ++ [q']) (b := l ++ ['"']) (by simpa using ⟨hl, hq'l⟩) (by simpa using hl) (hquote hq' l)
        rw [List.append_assoc, List.cons_append, List.append_assoc, List.cons_append, looseMarksBelow_append_newline,
          looseMarksBelow_append_newline]
        simpa using Nat.add_le_add_left hlast (looseMarksBelow u)
      · have hbrace := ih (a := ['\x7b']) (b := ['\x7b']) (by decide) (by decide) rfl
        have hq'l : '\n' ≠ q' := by
          rintro rfl
          cases hq'
        rw [looseMarks_append_of_isForeign (by decide) isForeign_braces.1 (by decide),
          looseMarks_append_of_isForeign (by decide) isForeign_braces.1 (by decide)] at hbrace
        rw [List.append_cons source '"', List.append_cons source q', looseMarksBelow_append_left (by simpa using hline),
          looseMarksBelow_append_left (by simpa using And.intro hline hq'l)]
        exact hbrace
    have hold : a ++ (h.text ++ rest) = (a ++ ("import".toList ++ b₁) ++ '\x7b' :: (b₂ ++ '\n' ::
        ((b₃ ++ ("import".toList ++ b₄)) ++ ['\x7b']))) ++ (names ++ '\x7d' :: ((b₅ ++ ("from".toList ++ b₆) ++ [q]) ++
        (source ++ q' :: rest))) := by
      rw [htext]
      simp only [List.append_assoc, List.cons_append, List.nil_append]
    calc looseMarks (a' ++ (flatImport h ++ rest'))
        ≤ looseMarksBelow (names ++ ['\x7d']) + looseMarksBelow (source ++ '"' :: rest') := looseMarks_flatImport hgroups ha'
      _ ≤ looseMarksBelow (names ++ ['\x7d']) + looseMarksBelow ((b₅ ++ ("from".toList ++ b₆) ++ [q]) ++
          (source ++ q' :: rest)) := Nat.add_le_add_left (hsource.trans (looseMarksBelow_le_append _ _)) _
      _ = looseMarksBelow (names ++ '\x7d' :: ((b₅ ++ ("from".toList ++ b₆) ++ [q]) ++ (source ++ q' :: rest))) :=
          (looseMarksBelow_cut isForeign_braces.2 _ _).symm
      _ ≤ looseMarks (a ++ (h.text ++ rest)) := by
          rw [hold]
          exact (looseMarksBelow_le_append _ _).trans (looseMarksBelow_le _)
      _ = looseMarks (a ++ c :: t) := by rw [hcut]

/-- **An import block that is left open is dropped with its lines.** -/
theorem lines_replaceFrom_danglingImport {behind t : Text} : ∀ {a : Text}, '\n' ∉ a →
    (behind.head?.all (· == '\n') = true → a = []) →
    (Text.lines (a ++ danglingImport.replaceFrom (fun _ => []) behind t)).Sublist (Text.lines (a ++ t)) := by
  have hpass {c : Char} {b a t u : Text} (ha : '\n' ∉ a) (ih : ∀ {a : Text}, '\n' ∉ a →
      ((c :: b).head?.all (· == '\n') = true → a = []) → (Text.lines (a ++ u)).Sublist (Text.lines (a ++ t))) :
      (Text.lines (a ++ c :: u)).Sublist (Text.lines (a ++ c :: t)) := by
    by_cases hc : c = '\n'
    · rw [hc, Text.lines_append_newline, Text.lines_append_newline]
      exact (List.Sublist.refl _).append (ih (a := []) (by simp) fun _ => rfl)
    · rw [List.append_cons a c u, List.append_cons a c t]
      exact ih (by simpa using And.intro ha (Ne.symm hc)) fun hline => absurd (by simpa using hline) hc
  fun_induction replaceFrom danglingImport (fun _ => []) behind t with
  | case1 behind =>
    intro a _ _
    exact .refl _
  | case2 behind c t hn ih =>
    intro a ha _
    exact hpass ha ih
  | case3 behind c t h hh hempty ih =>
    intro a ha _
    exact hpass ha ih
  | case4 behind c t h hh hne ih =>
    intro a _ hstart
    have hcut : c :: t = h.text ++ t.drop (h.text.length - 1) :=
      text_hit?_cons hh fun hnil => hne (List.isEmpty_iff.2 hnil)
    obtain ⟨_, -, htakes⟩ := takes_of_hit? hh
    obtain ⟨hline, b₁, b₂, -, -, htext, -⟩ := takes_danglingImport.1 htakes
    obtain ⟨x, hx⟩ : ∃ x, h.text = x ++ ['\n'] := ⟨("import".toList ++ b₁) ++ '\x7b' :: b₂, by rw [htext]; simp⟩
    have hrest := ih (a := []) (by simp) fun _ => rfl
    generalize t.drop (h.text.length - 1) = rest at hcut hrest ⊢
    rw [hstart hline, hcut, hx, List.append_assoc, List.singleton_append, List.nil_append, List.nil_append, List.nil_append,
      Text.lines_append_newline]
    rw [hx] at hrest
    exact hrest.trans (List.sublist_append_right _ _)

/-- The repair of imports makes no mark, if quotation marks are not told apart. -/
theorem looseMarks_fixCorruptedImports (t : Text) : looseMarks (fixCorruptedImports t) ≤ looseMarks t := by
  have hnested : looseMarks ([] ++ nestedImport.replaceFrom flatImport [] t) ≤ looseMarks ([] ++ t) :=
    looseMarks_replaceFrom_nestedImport (by simp) (by simp) rfl
  have hdangling (u : Text) : (Text.lines ([] ++ danglingImport.replaceFrom (fun _ => []) [] u)).Sublist
      (Text.lines ([] ++ u)) := lines_replaceFrom_danglingImport (by simp) fun _ => rfl
  rw [List.nil_append, List.nil_append, ← replace_eq] at hnested
  have hdropped := hdangling (nestedImport.replace flatImport t)
  rw [List.nil_append, List.nil_append, ← replace_eq] at hdropped
  unfold fixCorruptedImports looseMarks
  dsimp only
  rw [lines_dropRepeatedImports]
  exact ((dropRepeatedImports_sublist _ _).countP_le.trans hdropped.countP_le).trans hnested

/-! ### The whole pass -/

theorem countP_fixClientDirectives_le (t : Text) : (Text.lines (fixClientDirectives t)).countP isDirectiveLine ≤ 1 := by
  by_cases h : Marked t
  · rw [fixClientDirectives_of_marked h]
    rcases h with h | ⟨h, -⟩ <;> omega
  · exact (countP_fixClientDirectives h).le

/-- The lines whose quotation marks differ stay as they are. -/
theorem unevenMarks_fixClientDirectives_le (t : Text) :
    (Text.lines (fixClientDirectives t)).countP isUnevenMark ≤ (Text.lines t).countP isUnevenMark := by
  by_cases h : Marked t
  · rw [fixClientDirectives_of_marked h]
  · have hmark : isUnevenMark clientDirective.toList = false ∧ isUnevenMark [] = false := by decide
    rw [lines_fixClientDirectives h, List.countP_append, List.countP_cons_of_neg (by simp [hmark.1]),
      List.countP_cons_of_neg (by simp [hmark.2]), ← List.countP_append, List.take_append_drop]
    exact List.filter_sublist.countP_le

/-- The repairs behind that of imports make a mark only where there is none. -/
theorem countP_transform_le (t : Text) :
    (Text.lines (transform t)).countP isDirectiveLine ≤ max 1 ((Text.lines (flattened t)).countP isDirectiveLine) := by
  have hspaced := (spaced_spaced (flattened t)).countP_le
  rw [transform_eq]
  rcases fixRouterPatterns_cases (spaced (flattened t)) with ⟨heq, -⟩ | ⟨heq, hlacks, -⟩
  · rwa [heq, countP_named]
  · have hmark : hasClientDirective (named (spaced (flattened t))) = false := by
      simp only [lacksMetadata, Bool.and_eq_true, Bool.not_eq_true'] at hlacks
      exact hlacks.2
    rw [heq, countP_eq_zero (by rw [hasClientDirective_metadata, hmark])]
    exact Nat.zero_le _

/-- A text with one mark, at the first line of code, in front of its other lines. -/
theorem Marked.split {t : Text} (h : Marked t) (hsome : 0 < (Text.lines t).countP isDirectiveLine) :
    ∃ front mark back, Text.lines t = front ++ mark :: back ∧ isDirectiveLine mark = true ∧ front ++ back = unmarked t ∧
      front.length = firstCodeIndex (Text.lines t) := by
  obtain ⟨hcount, hfirst⟩ := h.resolve_left (Nat.pos_iff_ne_zero.1 hsome)
  have hlt : (Text.lines t).findIdx isDirectiveLine < (Text.lines t).length :=
    List.findIdx_lt_length.2 (List.countP_pos_iff.1 hsome)
  have hmark : isDirectiveLine (Text.lines t)[(Text.lines t).findIdx isDirectiveLine] = true := List.findIdx_getElem
  rw [unmarked, ← hfirst]
  generalize (Text.lines t).findIdx isDirectiveLine = i at hlt hmark
  generalize Text.lines t = ls at hcount hlt hmark
  have hcut : ls = ls.take i ++ ls[i] :: ls.drop (i + 1) := by
    rw [List.getElem_cons_drop, List.take_append_drop]
  refine ⟨ls.take i, ls[i], ls.drop (i + 1), hcut, hmark, ?_, List.length_take_of_le hlt.le⟩
  rw [hcut, List.countP_append, List.countP_cons_of_pos hmark] at hcount
  have hfront : (ls.take i).countP isDirectiveLine = 0 := by omega
  have hback : (ls.drop (i + 1)).countP isDirectiveLine = 0 := by omega
  rw [List.countP_eq_zero] at hfront hback
  conv_rhs => rw [hcut]
  rw [List.filter_append, List.filter_cons_of_neg (by simp [hmark]), List.filter_eq_self.2 fun l hl => by simp [hfront l hl],
    List.filter_eq_self.2 fun l hl => by simp [hback l hl]]

/-- **Marks are collapsed into one, and nothing else is lost.** A text without marks stays as it is. Of a text with marks
all other lines stay in their order, with one mark among them, and perhaps a blank line behind it; the mark is the first
line of code, and stays where it is the next time, unless the other lines end inside a block comment. The whole pass leaves
no second mark but those that have unlike quotation marks at first. -/
theorem fixClientDirectives_collapses (t : Text) :
    ((Text.lines t).countP isDirectiveLine = 0 → fixClientDirectives t = t) ∧
    (0 < (Text.lines t).countP isDirectiveLine → ∃ front mark blank back,
      Text.lines (fixClientDirectives t) = front ++ mark :: (blank ++ back) ∧
      (Text.lines (fixClientDirectives t)).countP isDirectiveLine = 1 ∧ isDirectiveLine mark = true ∧
      front ++ back = (Text.lines t).filter (fun l => !isDirectiveLine l) ∧ (blank = [] ∨ blank = [[]]) ∧
      (endsInComment false ((Text.lines t).filter fun l => !isDirectiveLine l) = false →
        front.length = firstCodeIndex (Text.lines (fixClientDirectives t)) ∧
          fixClientDirectives (fixClientDirectives t) = fixClientDirectives t)) ∧
    (Text.lines (transform t)).countP isDirectiveLine ≤ 1 + (Text.lines t).countP isUnevenMark := by
  refine ⟨fun h => fixClientDirectives_of_marked (Or.inl h), fun hsome => ?_, ?_⟩
  · by_cases h : Marked t
    · have hsame := fixClientDirectives_of_marked h
      obtain ⟨front, mark, back, hlines, hmark, hrest, hindex⟩ := h.split hsome
      rw [hsame, hsame]
      exact ⟨front, mark, [], back, hlines, (h.resolve_left (Nat.pos_iff_ne_zero.1 hsome)).1, hmark, hrest, Or.inl rfl,
        fun _ => ⟨hindex, rfl⟩⟩
    · have hlines := lines_fixClientDirectives h
      have hlength : ((unmarked t).take (firstCodeIndex (unmarked t))).length = firstCodeIndex (unmarked t) :=
        List.length_take_of_le (firstCodeIndexFrom_le false _)
      refine ⟨_, _, [[]], _, hlines, countP_fixClientDirectives h, isDirectiveLine_mark, List.take_append_drop _ _,
        Or.inr rfl, fun hopen => ?_⟩
      have hindex : firstCodeIndex (Text.lines (fixClientDirectives t)) = firstCodeIndex (unmarked t) := by
        rw [hlines]
        exact firstCodeIndexFrom_insert (commentAfter_of_isDirectiveLine isDirectiveLine_mark) hopen
      refine ⟨hlength.trans hindex.symm, fixClientDirectives_of_marked (Or.inr ⟨countP_fixClientDirectives h, ?_⟩)⟩
      have hnone : ∀ l ∈ (unmarked t).take (firstCodeIndex (unmarked t)), isDirectiveLine l = false := fun l hl =>
        not_isDirectiveLine_of_mem_unmarked (List.mem_of_mem_take hl)
      rw [hindex, hlines, List.findIdx_append, List.findIdx_eq_length_of_false hnone, if_neg (Nat.lt_irrefl _),
        List.findIdx_cons, isDirectiveLine_mark, hlength]
      exact Nat.zero_add _
  · refine (countP_transform_le t).trans (max_le (Nat.le_add_right 1 _) ?_)
    have hloose := looseMarks_fixCorruptedImports (fixClientDirectives t)
    rw [looseMarks, looseMarks, countP_isLooseMark, countP_isLooseMark] at hloose
    have hone := countP_fixClientDirectives_le t
    have huneven := unevenMarks_fixClientDirectives_le t
    show (Text.lines (fixCorruptedImports (fixClientDirectives t))).countP isDirectiveLine ≤ _
    omega

/-- A text with a mark, and a line that becomes one when the import block above it is flattened. -/
def openBlock : Text := "'use client';\nimport \x7b\nimport \x7ba\x7d from \"x\n'use client\";".toList

/-- **A second mark may be made**: the quotation mark that closes a flattened block is written as a double one. -/
theorem transform_makes_mark : (Text.lines (transform openBlock)).countP isDirectiveLine = 2 := by
  decide +kernel

end LayeredFix.Pass.Convention
