import LayeredFix.Proofs.Hardening.Handling

/-!
# A wrapped body

Error handling is put around a body in three edits: its lines are indented, a block is opened in front of them, and closed
behind them. No word and no declaration of state comes in by that, and none goes; what comes in is a block with error
handling.
-/

namespace LayeredFix.Pass.Hardening

open Pattern

variable {w t u k b z i : Text}

/-! ### The pieces -/

/-- A line inside a block. -/
def indentLine (l : Text) : Text := if (Text.trim l).isEmpty then l else "  ".toList ++ l

/-- How a block with error handling is closed. -/
def closing (i : Text) : Text :=
  ('\n' :: i) ++ ("  \x7d catch (error) \x7b".toList ++ (('\n' :: i) ++ ("    console.error(\"Error:\", error);".toList ++
    (('\n' :: i) ++ ("  \x7d".toList ++ (('\n' :: i) ++ ['\x7d']))))))

theorem wrapBody_eq (i c : Text) : wrapBody i c = '\x7b' :: (('\n' :: i) ++ ("  try \x7b".toList ++ '\n' ::
    (Text.unlines ((Text.lines c).map indentLine) ++ closing i))) := by
  unfold wrapBody closing indentLine
  simp

theorem indentLine_cases (l : Text) : indentLine l = l ∨ indentLine l = "  ".toList ++ l := by
  rw [indentLine]
  split
  · exact Or.inl rfl
  · exact Or.inr rfl

/-! ### Words -/

theorem infix_indented_iff (hw : Compact w) (c : Text) :
    w <:+: Text.unlines ((Text.lines c).map indentLine) ↔ w <:+: c := by
  have hline : '\n' ∉ w := hw.notMem (Or.inl (by decide))
  have hspace : ∀ c ∈ "  ".toList, c ∉ w := by
    intro c hc
    refine hw.notMem (Or.inl ?_)
    have hall : ∀ c ∈ "  ".toList, Text.isBlank c = true := by decide
    exact hall c hc
  have hindent (l : Text) : w <:+: indentLine l ↔ w <:+: l := by
    rcases indentLine_cases l with h | h
    · rw [h]
    · rw [h, Text.infix_append_left_iff hw.1 hspace]
  rw [Text.infix_unlines_iff hw.1 hline]
  conv => rhs; rw [← Text.unlines_lines c, Text.infix_unlines_iff hw.1 hline]
  constructor
  · rintro ⟨_, hl, hin⟩
    obtain ⟨l, hmem, rfl⟩ := List.mem_map.1 hl
    exact ⟨l, hmem, (hindent l).1 hin⟩
  · rintro ⟨l, hl, hin⟩
    exact ⟨indentLine l, List.mem_map_of_mem hl, (hindent l).2 hin⟩

/-- What is put around a body, line by line. -/
def frame : List Text :=
  ["  try \x7b", "  \x7d catch (error) \x7b", "    console.error(\"Error:\", error);", "  \x7d"].map String.toList

/-- **A word is neither brought in by error handling nor lost.** -/
theorem infix_wrapped_iff (hw : Compact w) (hno : ∀ l ∈ frame, ¬ w <:+: l) (hi : ∀ c ∈ i, Text.isSpaceOrTab c = true) :
    w <:+: u ++ (k ++ (wrapBody i (core b) ++ z)) ↔ w <:+: u ++ (k ++ '\x7b' :: (b ++ '\x7d' :: z)) := by
  have hopen : '\x7b' ∉ w := hw.notMem (Or.inr (by decide))
  have hclose : '\x7d' ∉ w := hw.notMem (Or.inr (by decide))
  have hline : '\n' ∉ w := hw.notMem (Or.inl (by decide))
  have hsep : ∀ c ∈ '\n' :: i, c ∉ w :=
    List.forall_mem_cons.2 ⟨hline, fun c hc => hw.notMem (Or.inl (Text.isBlank_of_isSpaceOrTab (hi c hc)))⟩
  have hcut {a v : Text} : w <:+: a ++ (('\n' :: i) ++ v) ↔ w <:+: a ∨ w <:+: v :=
    Text.infix_append_append_iff hw.1 (by simp) hsep
  simp only [frame, List.forall_mem_map, List.forall_mem_cons, List.not_mem_nil, false_imp_iff, implies_true,
    and_true] at hno
  obtain ⟨htry, hcatch, hlog, hend⟩ := hno
  have hback (v : Text) : w <:+: closing i ++ v ↔ w <:+: v := by
    rw [closing]
    simp only [List.append_assoc]
    rw [Text.infix_append_left_iff hw.1 hsep, hcut, hcut, hcut, List.singleton_append, ← List.nil_append ('\x7d' :: v),
      Text.infix_append_cons_iff hclose, List.infix_nil, or_iff_right hcatch, or_iff_right hlog, or_iff_right hend,
      or_iff_right hw.1]
  have hbody (v : Text) : w <:+: Text.unlines ((Text.lines (core b)).map indentLine) ++ (closing i ++ v) ↔
      w <:+: b ∨ w <:+: v := by
    have hcons : closing i ++ v = '\n' :: (closing i).tail ++ v := rfl
    rw [← infix_core_iff hw b, ← infix_indented_iff hw (core b), ← hback v, hcons, List.cons_append,
      Text.infix_append_cons_iff hline, ← List.nil_append ('\n' :: ((closing i).tail ++ v)),
      Text.infix_append_cons_iff hline, List.infix_nil, or_iff_right hw.1]
  calc w <:+: u ++ (k ++ (wrapBody i (core b) ++ z))
      ↔ w <:+: (u ++ k) ++ '\x7b' :: (('\n' :: i) ++ ("  try \x7b".toList ++ '\n' ::
          (Text.unlines ((Text.lines (core b)).map indentLine) ++ (closing i ++ z)))) := by rw [wrapBody_eq]; simp
    _ ↔ w <:+: u ++ k ∨ w <:+: b ∨ w <:+: z := by
      rw [Text.infix_append_cons_iff hopen, Text.infix_append_left_iff hw.1 hsep, Text.infix_append_cons_iff hline,
        or_iff_right htry, hbody]
    _ ↔ w <:+: (u ++ k) ++ '\x7b' :: (b ++ '\x7d' :: z) := by
      rw [Text.infix_append_cons_iff hopen, Text.infix_append_cons_iff hclose]
    _ ↔ w <:+: u ++ (k ++ '\x7b' :: (b ++ '\x7d' :: z)) := by rw [List.append_assoc]

/-- A wrapped body stands in a block with error handling. -/
theorem tryBlock_wrapped (u k c i z : Text) : tryBlock.occursIn (u ++ (k ++ (wrapBody i c ++ z))) = true := by
  rw [tryBlock_occursIn_iff, wrapBody_eq]
  refine ⟨u ++ (k ++ '\x7b' :: (('\n' :: i) ++ "  ".toList)), "try \x7b".toList,
    '\n' :: (Text.unlines ((Text.lines c).map indentLine) ++ (closing i ++ z)), ?_, ⟨[' '], rfl, by decide⟩, ?_, by simp⟩
  · simp
  · have hspace : Text.isWord ' ' = false := by decide
    simpa using hspace

/-! ### Declarations of state -/

theorem harmless_indent (u : Text) : Harmless u ['\n'] ('\n' :: "  ".toList) := by
  have hblank : ∀ c ∈ '\n' :: "  ".toList, Text.isBlank c = true := by decide
  refine ⟨⟨'\n', "  ".toList, rfl, by decide, by decide⟩, by decide, fun y hy hne hpre => ?_,
    fun _ _ _ hm => hm.edit (by simp) hblank (by simp) (by decide) (Or.inl (by decide))⟩
  obtain ⟨c, y, rfl⟩ := List.exists_cons_of_ne_nil hne
  obtain rfl := (List.cons_prefix_cons.1 hpre).1
  exact absurd (hblank _ (hy.subset (List.mem_cons_self ..))) (by decide)

/-- Indented lines declare what the lines declare. -/
theorem Declares.indented {p q : Text} {ls : List Text}
    (h : Declares (p ++ '\n' :: (Text.unlines (ls.map indentLine) ++ q))) : Declares (p ++ '\n' :: (Text.unlines ls ++ q)) := by
  have hline {p l v : Text} (h : Declares (p ++ '\n' :: (indentLine l ++ v))) : Declares (p ++ '\n' :: (l ++ v)) := by
    rcases indentLine_cases l with hl | hl
    · rwa [hl] at h
    · rw [hl] at h
      exact Declares.edit (v := l ++ v) (harmless_indent p) h
  induction ls generalizing p with
  | nil => exact h
  | cons l ls ih =>
    cases ls with
    | nil =>
      rw [List.map_singleton, Text.unlines_singleton] at h
      rw [Text.unlines_singleton]
      exact hline h
    | cons l' ls =>
      rw [List.map_cons, List.map_cons, Text.unlines_cons_cons, List.append_assoc] at h
      rw [Text.unlines_cons_cons, List.append_assoc]
      have hfirst := hline h
      have hrest := ih (p := p ++ '\n' :: l) (by simpa using hfirst)
      simpa using hrest

/-- Closing the block makes no declaration. -/
theorem harmless_closing {u bl i : Text} (hbl : ∀ c ∈ bl, Text.isBlank c = true) (hi : ∀ c ∈ i, Text.isSpaceOrTab c = true) :
    Harmless u (bl ++ ['\x7d']) (closing i) := by
  have hno {e : Char} (he : Text.isSpaceOrTab e = false) : e ∉ i := notMem_of_isSpaceOrTab hi he
  have hline {e : Char} (he : Text.isSpaceOrTab e = false) (hne : e ≠ '\n') : e ∉ '\n' :: i := by
    rw [List.mem_cons, not_or]
    exact ⟨hne, hno he⟩
  have hall : ∀ c ∈ "  ".toList, Text.isSpaceOrTab c = true := by decide
  have hbracket : ']' ∉ bl := fun hmem => absurd (ok_of_isBlank hbl _ hmem) (by decide)
  refine ⟨⟨'\n', _, rfl, by decide, by decide⟩, ⟨?_, ?_, ?_⟩, fun y hy hne => ?_, fun m₁ m₂ _ hm => ?_⟩
  · simp only [closing, List.mem_append, not_or]
    have h := hline (e := '[') (by decide) (by decide)
    exact ⟨h, by decide, h, by decide, h, by decide, h, by decide⟩
  · simp only [closing, List.mem_append, not_or]
    have h := hline (e := ']') (by decide) (by decide)
    exact ⟨h, by decide, h, by decide, h, by decide, h, by decide⟩
  · rw [List.mem_append, not_or]
    exact ⟨hbracket, by decide⟩
  · simp only [closing, ← List.append_assoc] at hy
    exact not_prefix_of_last (by decide) hy hne
  · -- The first brace of the closing lines stands in one of the two names.
    have hcut : m₁ ++ (closing i ++ m₂) = (m₁ ++ (('\n' :: i) ++ "  ".toList)) ++ '\x7d' ::
        ((" catch (error) \x7b".toList ++ (('\n' :: i) ++ "    console.error(\"Error:\"".toList)) ++ ',' ::
          (" error);".toList ++ (('\n' :: i) ++ ("  \x7d".toList ++ (('\n' :: i) ++ '\x7d' :: m₂))))) := by
      unfold closing
      simp
    rw [hcut] at hm
    rcases hm.split (by decide) (by decide) with ⟨x, s, y, hr, hx, hs, -⟩ | ⟨x, s, y, hr, hx, hs, hy⟩
    · -- Behind the comma of the call stands no setter.
      have hcomma : ',' ∉ " catch (error) \x7b".toList ++ (('\n' :: i) ++ "    console.error(\"Error:\"".toList) := by
        simp only [List.mem_append, not_or]
        exact ⟨by decide, hline (by decide) (by decide), by decide⟩
      have hx' : ',' ∉ x := fun hmem => absurd (hx ',' (by simp [hmem])) (by decide)
      obtain ⟨-, hset⟩ := Text.cut_unique hr hcomma hx'
      rw [show " error);".toList = ' ' :: 'e' :: "rror);".toList from rfl] at hset
      rcases s with _ | ⟨c, _ | ⟨c', s⟩⟩
      · simp at hset
      · simp at hset
      · obtain ⟨-, hset⟩ := List.cons.inj hset
        obtain ⟨rfl, -⟩ := List.cons.inj hset
        exact absurd (hs 'e' (by simp)) (by decide)
    · have hfree {e : Char} (he : Text.isSpaceOrTab e = false) (hne : e ≠ '\n') : e ∉ ('\n' :: i) ++ "  ".toList := by
        rw [List.mem_append, not_or]
        exact ⟨hline he hne, fun hmem => absurd (hall _ hmem) (by rw [he]; decide)⟩
      obtain ⟨m, rfl, hm'⟩ := Text.cut_before hr (hfree (by decide) (by decide))
      have hset : m ++ (('\n' :: i) ++ "  ".toList) = (s ++ "se".toList) ++ 't' :: y := by
        rw [← hm']
        simp
      obtain ⟨y, rfl, rfl⟩ := Text.cut_before hset (hfree (by decide) (by decide))
      refine ⟨x, s, y ++ ((bl ++ ['\x7d']) ++ m₂), by simp, hx, hs, by simp, ?_⟩
      simp only [List.forall_mem_append, List.forall_mem_cons] at hy ⊢
      exact ⟨hy.1.1, ⟨fun c hc => (Bool.and_eq_true_iff.1 (ok_of_isBlank hbl c hc)).2, by decide⟩, hy.2.2.2.2.2.2.2.2.2⟩

/-- Opening the block makes no declaration. -/
theorem harmless_opening {u nl i : Text} (hnl : ∀ c ∈ nl, c = '\n') (hi : ∀ c ∈ i, Text.isSpaceOrTab c = true) :
    Harmless u ('\x7b' :: nl) ('\x7b' :: (('\n' :: i) ++ "  try \x7b\n".toList)) := by
  have hno {e : Char} (he : Text.isSpaceOrTab e = false) : e ∉ i := notMem_of_isSpaceOrTab hi he
  have hnl' : ∀ c ∈ nl, (c != ',' && c != ']') = true := by
    intro c hc
    rw [hnl c hc]
    decide
  have hcomma : ',' ∉ ('\n' :: i) ++ "  try \x7b\n".toList := by
    simp only [List.mem_append, List.mem_cons, not_or]
    exact ⟨⟨by decide, hno (by decide)⟩, by decide⟩
  refine ⟨⟨'\x7b', _, rfl, by decide, by decide⟩, ⟨?_, ?_, ?_⟩, fun y hy hne => ?_, fun m₁ m₂ _ hm => ?_⟩
  · simp only [List.mem_append, List.mem_cons, not_or]
    exact ⟨by decide, ⟨by decide, hno (by decide)⟩, by decide⟩
  · simp only [List.mem_append, List.mem_cons, not_or]
    exact ⟨by decide, ⟨by decide, hno (by decide)⟩, by decide⟩
  · rw [List.mem_cons, not_or]
    exact ⟨by decide, fun hmem => absurd (hnl' _ hmem) (by decide)⟩
  · have hlast : '\x7b' :: (('\n' :: i) ++ "  try \x7b\n".toList) = ('\x7b' :: (('\n' :: i) ++ "  try \x7b".toList)) ++ ['\n'] := by
      simp
    rw [hlast] at hy
    exact not_prefix_of_last (by decide) hy hne
  · rcases hm.split (by decide) (by decide) with ⟨x, s, y, hr, hx, hs, hy⟩ | ⟨x, s, y, rfl, hx, hs, hy⟩
    · obtain ⟨x, rfl, rfl⟩ := Text.cut_after hr hcomma
      refine ⟨m₁ ++ '\x7b' :: (nl ++ x), s, y, by simp, ⟨by simp, ?_⟩, hs, hy⟩
      simp only [List.forall_mem_append, List.forall_mem_cons] at hx ⊢
      exact ⟨hx.1, by decide, hnl', hx.2.2.2⟩
    · refine ⟨x, s, y ++ '\x7b' :: (nl ++ m₂), by simp, hx, hs, by simp, ?_⟩
      simp only [List.forall_mem_append, List.forall_mem_cons] at hy ⊢
      exact ⟨hy.1, by decide, fun c hc => (Bool.and_eq_true_iff.1 (hnl' c hc)).2,
        fun c hc => hy.2.2 c (List.mem_append_right _ hc)⟩

/-- **Error handling declares no state.** -/
theorem Declares.of_wrapped (hi : ∀ c ∈ i, Text.isSpaceOrTab c = true)
    (h : Declares (u ++ (k ++ (wrapBody i (core b) ++ z)))) : Declares (u ++ (k ++ '\x7b' :: (b ++ '\x7d' :: z))) := by
  obtain ⟨nl, bl, hb, hnl, hbl⟩ := exists_core b
  have hopened : u ++ (k ++ (wrapBody i (core b) ++ z)) = ((u ++ k) ++ '\x7b' :: (('\n' :: i) ++ ("  try \x7b".toList ++ '\n' ::
      Text.unlines ((Text.lines (core b)).map indentLine)))) ++ (closing i ++ z) := by
    rw [wrapBody_eq]
    simp
  rw [hopened] at h
  have hclosed := Declares.edit (harmless_closing hbl hi) h
  have hindented : Declares (((u ++ k) ++ '\x7b' :: (('\n' :: i) ++ "  try \x7b".toList)) ++ '\n' ::
      (Text.unlines ((Text.lines (core b)).map indentLine) ++ ((bl ++ ['\x7d']) ++ z))) := by
    simpa using hclosed
  have hlines := hindented.indented
  rw [Text.unlines_lines] at hlines
  have hbody : Declares ((u ++ k) ++ (('\x7b' :: (('\n' :: i) ++ "  try \x7b\n".toList)) ++
      (core b ++ ((bl ++ ['\x7d']) ++ z)))) := by
    simpa using hlines
  have hdone := Declares.edit (harmless_opening hnl hi) hbody
  rw [hb]
  simpa using hdone

end LayeredFix.Pass.Hardening
