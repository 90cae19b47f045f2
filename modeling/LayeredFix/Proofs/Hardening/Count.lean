import Mathlib.Algebra.Order.BigOperators.Group.List
import Mathlib.Algebra.Order.Group.Nat
import LayeredFix.Proofs.Hardening.Exports

/-!
# Counting default exports

The last repair takes notice of two forms of default exports (`Noticed`). Where it notices one it puts none in
(`exports_dropStatements_le`). Any other form escapes it: a text that exports an expression, or a name without
semicolon, is given a second default export as soon as it has a function (`exports_withStatement`).
-/

namespace LayeredFix.Pass.Hardening

variable {t n : Text}

/-- The number of default exports that are written in a text. -/
def exports (t : Text) : Nat := Text.occurrences "export default".toList t

/-- A default export in one of the forms that are looked for: a line that exports a name and ends in a semicolon, or a
line that declares a function or a class. -/
def Noticed (t : Text) : Prop := (∃ l ∈ Text.lines t, ∃ n, IsStatement n l) ∨ DeclaresDefault (framed t)

theorem noticed_iff : Noticed t ↔ statements t ≠ 0 ∨ defaultDeclaration.occursIn t = true := by
  rw [Noticed, ← defaultDeclaration_occursIn_iff, statements, ← Nat.pos_iff_ne_zero, List.countP_pos_iff]
  refine or_congr_left (exists_congr fun l => and_congr_right fun hl => ?_)
  exact (isDefaultStatement_iff (Text.notMem_of_mem_lines hl)).symm

/-! ### Statements taken out -/

/-- Taking out lines takes out the default exports that stand in them and puts none in. -/
theorem exports_dropStatements_le (keep : Nat) (t : Text) :
    exports (Text.unlines (dropStatements keep (Text.lines t))) ≤ exports t := by
  have hcount := Text.occurrences_unlines (w := "export default".toList) (by decide) (by decide)
  calc exports (Text.unlines (dropStatements keep (Text.lines t)))
      = ((dropStatements keep (Text.lines t)).map exports).sum := hcount _
    _ ≤ ((Text.lines t).map exports).sum := ((dropStatements_sublist keep _).map exports).sum_le_sum fun _ _ => Nat.zero_le _
    _ = exports (Text.unlines (Text.lines t)) := (hcount _).symm
    _ = exports t := by rw [Text.unlines_lines]

/-! ### A statement put in -/

/-- A statement is one default export. -/
theorem exports_withStatement (hn : ∀ c ∈ n, Text.isWord c = true) : exports (withStatement t n) = exports t + 1 := by
  have hword : ("export default".toList : Text) ≠ [] := by decide
  have hline : '\n' ∉ "export default".toList := by decide
  have hblank : ' ' ∉ n ++ [';'] := by
    rw [List.mem_append, not_or]
    exact ⟨fun hmem => absurd (hn _ hmem) (by decide), by decide⟩
  have hname : ¬ "export default".toList <:+: ' ' :: (n ++ [';']) := by
    rw [List.infix_cons_iff, not_or]
    exact ⟨fun h => absurd (List.cons_prefix_cons.1 h).1 (by decide), fun h => hblank (h.subset (by decide))⟩
  have hone : Text.occurrences "export default".toList ("export default".toList ++ ' ' :: (n ++ [';'])) = 1 :=
    Text.occurrences_append_of_not_infix hword hname
  have hcut : withStatement t n = t ++ '\n' :: ([] ++ '\n' :: ("export default".toList ++ ' ' :: (n ++ [';']))) := by
    simp [withStatement]
  rw [exports, hcut, Text.occurrences_append_newline hword hline, Text.occurrences_append_newline hword hline, hone]
  rfl

/-! ### The repair -/

/-- **The repair puts in a default export, and then one, exactly where it notices none and there is a function.** -/
theorem exports_le_iff_noticed (t : Text) :
    exports (ensureSingleDefaultExport t) ≤ exports t + 1 ∧
      (exports (ensureSingleDefaultExport t) ≤ exports t ↔ Noticed t ∨ firstFunction.search t = none) := by
  rcases ensureSingleDefaultExport_cases t with ⟨-, -, hf, heq⟩ | ⟨hnone, hdecl, f, hf, heq⟩ | ⟨hsome, heq⟩
  · rw [heq]
    exact ⟨Nat.le_succ _, iff_of_true le_rfl (Or.inr hf)⟩
  · rw [heq, exports_withStatement (firstFunction_spec hf).1.2, noticed_iff, hnone, hdecl, hf]
    exact ⟨le_rfl, iff_of_false (Nat.not_succ_le_self _) (by simp)⟩
  · have hle := exports_dropStatements_le (kept t) t
    rw [heq]
    exact ⟨Nat.le_succ_of_le hle, iff_of_true hle (Or.inl (noticed_iff.2 hsome))⟩

/-- A component that is exported through a call. -/
def exportsCall : Text := "function A() \x7b\x7d\nexport default memo(A);".toList

/-- An export of an expression is not noticed, and a second one is put in. -/
theorem exports_exportsCall : exports exportsCall = 1 ∧ exports (ensureSingleDefaultExport exportsCall) = 2 := by
  decide

end LayeredFix.Pass.Hardening
