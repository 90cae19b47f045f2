import LayeredFix.Proofs.Hardening.Braces
import LayeredFix.Proofs.Hardening.FixedPoint

/-!
# What error handling leaves of a text

Error handling moves the lines of a body and drops blanks at its edges. What can be seen of the text, its characters that are no
blanks (`ink`), stays as it is, but for the two stretches that open and close the block (`ink_wrapBody`). So nothing of the
program is lost or moved, and braces are opened and closed as before (`addErrorHandling_preserves`).
-/

namespace LayeredFix.Pass.Hardening

open Pattern

variable {t u k b z i l : Text}

/-! ### The characters that can be seen -/

/-- The characters of a text that are no blanks. -/
def ink (t : Text) : Text := t.filter fun c => !Text.isBlank c

theorem ink_append (a b : Text) : ink (a ++ b) = ink a ++ ink b := List.filter_append ..

theorem ink_cons_of_blank {c : Char} (hc : Text.isBlank c = true) (t : Text) : ink (c :: t) = ink t := by
  simp [ink, hc]

theorem ink_cons_of_visible {c : Char} (hc : Text.isBlank c = false) (t : Text) : ink (c :: t) = c :: ink t := by
  simp [ink, hc]

theorem ink_of_blanks (h : ∀ c ∈ b, Text.isBlank c = true) : ink b = [] := by
  rw [ink, List.filter_eq_nil_iff]
  intro c hc
  simp [h c hc]

theorem rise_ink (t : Text) : rise (ink t) = rise t := by
  have hcount {c : Char} (hc : Text.isBlank c = false) : (ink t).count c = t.count c := List.count_filter (by simp [hc])
  rw [rise, hcount (by decide), hcount (by decide), rise]

theorem ink_core (b : Text) : ink (core b) = ink b := by
  obtain ⟨nl, bl, hb, hnl, hbl⟩ := exists_core b
  have hline : ink nl = [] := ink_of_blanks fun c hc => by
    rw [hnl c hc]
    decide
  conv => rhs; rw [hb]
  rw [ink_append, ink_append, hline, ink_of_blanks hbl, List.nil_append, List.append_nil]

theorem ink_unlines (ls : List Text) : ink (Text.unlines ls) = (ls.map ink).flatten := by
  induction ls with
  | nil => rfl
  | cons l ls ih =>
    cases ls with
    | nil => rw [Text.unlines_singleton, List.map_singleton, List.flatten_singleton]
    | cons l' ls =>
      rw [Text.unlines_cons_cons, ink_append, ink_cons_of_blank (by decide), ih, List.map_cons (l := l' :: ls),
        List.flatten_cons]

theorem ink_indentLine (l : Text) : ink (indentLine l) = ink l := by
  rcases indentLine_cases l with h | h
  · rw [h]
  · rw [h, ink_append, ink_of_blanks (by decide), List.nil_append]

theorem ink_indented (c : Text) : ink (Text.unlines ((Text.lines c).map indentLine)) = ink c := by
  rw [ink_unlines, List.map_map, show ink ∘ indentLine = ink from funext ink_indentLine, ← ink_unlines, Text.unlines_lines]

/-! ### The block -/

/-- The stretch that opens a block with error handling. -/
def blockOpening : Text := "try \x7b".toList

/-- The stretch that closes a block with error handling. -/
def blockClosing : Text := "\x7d catch (error) \x7b console.error(\"Error:\", error); \x7d".toList

theorem ink_closing (hi : ∀ c ∈ i, Text.isSpaceOrTab c = true) : ink (closing i) = ink blockClosing ++ ['\x7d'] := by
  have hindent : ink ('\n' :: i) = [] := ink_of_blanks fun c hc => by
    rcases List.mem_cons.1 hc with rfl | hc
    · decide
    · exact Text.isBlank_of_isSpaceOrTab (hi c hc)
  simp only [closing, ink_append, hindent, List.nil_append]
  decide

/-- **A wrapped body shows what the body shows**, in a block with error handling. -/
theorem ink_wrapBody (hi : ∀ c ∈ i, Text.isSpaceOrTab c = true) (c : Text) :
    ink (wrapBody i c) = ink ('\x7b' :: (blockOpening ++ (c ++ (blockClosing ++ ['\x7d'])))) := by
  have hindent : ink i = [] := ink_of_blanks fun c hc => Text.isBlank_of_isSpaceOrTab (hi c hc)
  have hopen : ink "  try \x7b".toList = ink blockOpening := by decide
  have hbrace : ink ['\x7d'] = ['\x7d'] := by decide
  rw [wrapBody_eq, ink_cons_of_visible (by decide), ink_cons_of_visible (by decide), ink_append, ink_append, ink_append,
    ink_append, ink_append, ink_cons_of_blank (by decide), ink_cons_of_blank (by decide), ink_append, ink_indented,
    ink_closing hi, hindent, hopen, hbrace, List.nil_append]

/-! ### The text -/

/-- What is wrapped is what the search for an arrow function and the search for its closing brace find. -/
theorem Wraps.found (h : Wraps t u k b z) : ∃ f s, asyncArrow.search t = some f ∧ f.before = u ∧
    f.hit.text = k ++ '\x7b' :: s ∧ '\x7b' ∉ s ∧ closingBrace t (u ++ k).length = some ((u ++ k) ++ '\x7b' :: b).length := by
  obtain ⟨f, hs, rfl⟩ := h.search
  obtain ⟨ht, hh⟩ := search_spec hs
  obtain ⟨-, k', s, r, hv, hk', -, htext, hfree, -⟩ := exists_arrow_of_hit? hh
  have hsplit : t = (f.before ++ k) ++ '\x7b' :: (b ++ '\x7d' :: z) := by
    rw [List.append_assoc]
    exact h.text
  obtain ⟨rfl, -⟩ := h.arrow.unique hk' (List.append_cancel_left (h.text.symm.trans (ht.trans (congrArg _ hv))))
  refine ⟨f, s, hs, rfl, htext, hfree, ?_⟩
  conv => lhs; rw [hsplit]
  exact closingBrace_eq_some_iff.2 ⟨b, z, rfl, h.closed, rfl⟩

/-- **Error handling preserves the program.** A text that needs none stays as it is. Of any other the first arrow function that
the pattern finds is wrapped: what can be seen of the result is what can be seen of the text, once a block is opened behind the last
brace of the match and closed in front of the brace that closes that one. In every case as many more braces are opened
than closed as before, and a second time nothing happens. -/
theorem addErrorHandling_preserves (t : Text) :
    (Handled t ∧ addErrorHandling t = t ∨
      ¬ Handled t ∧ ∃ f k s b z, asyncArrow.search t = some f ∧ f.hit.text = k ++ '\x7b' :: s ∧ '\x7b' ∉ s ∧
        t = (f.before ++ k) ++ '\x7b' :: (b ++ '\x7d' :: z) ∧
        closingBrace t (f.before ++ k).length = some ((f.before ++ k) ++ '\x7b' :: b).length ∧
        ink (addErrorHandling t) =
          ink ((f.before ++ k) ++ '\x7b' :: ("try \x7b".toList ++ (b ++
            ("\x7d catch (error) \x7b console.error(\"Error:\", error); \x7d".toList ++ '\x7d' :: z))))) ∧
    ((addErrorHandling t).count '\x7b' : Int) - (addErrorHandling t).count '\x7d' = t.count '\x7b' - t.count '\x7d' ∧
    addErrorHandling (addErrorHandling t) = addErrorHandling t := by
  have hagain := addErrorHandling_of_handled (handled_addErrorHandling t)
  rcases addErrorHandling_cases t with ⟨hhandled, heq⟩ | ⟨hnot, u, k, b, z, i, hw, hi, heq⟩
  · exact ⟨Or.inl ⟨hhandled, heq⟩, by rw [heq], hagain⟩
  · obtain ⟨f, s, hs, rfl, htext, hfree, hclosing⟩ := hw.found
    have ht : t = (f.before ++ k) ++ '\x7b' :: (b ++ '\x7d' :: z) := by
      rw [List.append_assoc]
      exact hw.text
    have hink : ink (addErrorHandling t) =
        ink ((f.before ++ k) ++ '\x7b' :: (blockOpening ++ (b ++ (blockClosing ++ '\x7d' :: z)))) := by
      have hbody : ink (wrapBody i (core b)) = ink ('\x7b' :: (blockOpening ++ (b ++ (blockClosing ++ ['\x7d'])))) := by
        rw [ink_wrapBody hi]
        simp only [ink_cons_of_visible (show Text.isBlank '\x7b' = false by decide), ink_append, ink_core]
      rw [heq, ink_append, ink_append, ink_append, hbody, ← ink_append, ← ink_append, ← ink_append]
      simp
    refine ⟨Or.inr ⟨hnot, f, k, s, b, z, hs, htext, hfree, ht, hclosing, hink⟩, ?_, hagain⟩
    have hopens : rise blockOpening = 1 := by decide
    have hcloses : rise blockClosing = -1 := by decide
    show rise (addErrorHandling t) = rise t
    rw [← rise_ink, hink, rise_ink]
    conv => rhs; rw [ht]
    simp only [rise_append, rise_open, hopens, hcloses]
    omega

end LayeredFix.Pass.Hardening
