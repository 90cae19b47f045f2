import LayeredFix.Proofs.Text.Part
import LayeredFix.Proofs.Text.Reading
import LayeredFix.Pass.Component
import Mathlib.Tactic.Tauto

/-!
# Imports of hooks

An import statement that the pass has written is found by the pass again: the match at the beginning of the text holds
two quotation marks, so it reaches over the name of the library (`imports_hookImport`). So the pass over imports is
idempotent (`addMissingImports_idempotent`).
-/

namespace LayeredFix.Pass.Component

open Pattern

/-! ### Imports -/

/-- An import statement for hooks, up to the quotation mark before the library. -/
def importHead (hooks : List String) : Text :=
  "import".toList ++
    (" \x7b ".toList ++ ((", ".intercalate hooks).toList ++ (" \x7d ".toList ++ ("from".toList ++ " ".toList))))

theorem hookImport_eq (hooks : List String) :
    hookImport hooks = importHead hooks ++ '\'' :: ("react".toList ++ '\'' :: ";\n\n".toList) := by
  have hstart : "import \x7b ".toList = "import".toList ++ " \x7b ".toList := by decide
  have hend : " \x7d from 'react';\n\n".toList =
      " \x7d ".toList ++ ("from".toList ++ (" ".toList ++ '\'' :: ("react".toList ++ '\'' :: ";\n\n".toList))) := by
    decide
  have hassoc (a b c d e f n : Text) :
      (a ++ b) ++ (n ++ (c ++ (d ++ (e ++ f)))) = (a ++ (b ++ (n ++ (c ++ (d ++ e))))) ++ f := by
    simp only [List.append_assoc]
  unfold hookImport importHead
  rw [String.toList_append, String.toList_append, List.append_assoc]
  exact (congrArg₂ (· ++ ·) hstart (congrArg ((", ".intercalate hooks).toList ++ ·) hend)).trans (hassoc ..)

/-- The names of the hooks stand in the statement. -/
theorem infix_importHead {hooks : List String} {hook : String} (h : hook ∈ hooks) :
    hook.toList <:+: importHead hooks := by
  have hnames : hook.toList <:+: (", ".intercalate hooks).toList := by
    rw [String.toList_intercalate]
    exact List.infix_of_mem_flatten (Text.mem_intersperse_of_mem (List.mem_map_of_mem h))
  refine hnames.trans ⟨"import".toList ++ " \x7b ".toList, " \x7d ".toList ++ ("from".toList ++ " ".toList), ?_⟩
  unfold importHead
  rw [List.append_assoc, List.append_assoc]

section
variable {hooks : List String} (hhooks : ∀ hook ∈ hooks, hook ∈ knownHooks)
include hhooks

/-- A character that is in no name of a hook, and in none of the words around the names. -/
theorem notMem_importHead {c : Char} (hc : ∀ hook ∈ knownHooks, c ∉ hook.toList)
    (hc' : c ∉ "import \x7b , \x7d from ".toList) : c ∉ importHead hooks := by
  have hsub : ∀ d ∈ ", ".toList ++ ("import".toList ++ (" \x7b ".toList ++ (" \x7d ".toList ++ ("from".toList ++
      " ".toList)))), d ∈ "import \x7b , \x7d from ".toList := by decide
  have hnames : c ∉ (", ".intercalate hooks).toList := by
    intro hmem
    rw [String.toList_intercalate] at hmem
    obtain ⟨part, hpart, hmem⟩ := List.mem_flatten.1 hmem
    rcases Text.mem_intersperse hpart with rfl | hpart
    · exact hc' (hsub c (List.mem_append_left _ hmem))
    · obtain ⟨hook, hhook, rfl⟩ := List.mem_map.1 hpart
      exact hc hook (hhooks hook hhook) hmem
  intro hmem
  unfold importHead at hmem
  refine hc' (hsub c ?_)
  simp only [List.mem_append] at hmem ⊢
  exact Or.inr (hmem.imp_right fun h => h.imp_right fun h => h.resolve_left hnames)

theorem notMem_hookImport {c : Char} (hc : ∀ hook ∈ knownHooks, c ∉ hook.toList)
    (hc' : c ∉ "import \x7b , \x7d from ".toList) (hc'' : c ∉ '\'' :: ("react".toList ++ '\'' :: ";\n\n".toList)) :
    c ∉ hookImport hooks := by
  rw [hookImport_eq, List.mem_append, not_or]
  exact ⟨notMem_importHead hhooks hc hc', hc''⟩

/-- **An import statement that was written is found again**, with the names of the hooks and of the library. -/
theorem exists_hit_hookImport (behind t : Text) :
    ∃ h, importStatement.hit? behind (hookImport hooks ++ t) = some h ∧
      importHead hooks ++ '\'' :: "react".toList <+: h.text := by
  have hline : ∀ c ∈ " \x7b ".toList ++ ((", ".intercalate hooks).toList ++ " \x7d ".toList), inLine c = true := by
    have hno := notMem_importHead hhooks (c := '\n') (by decide) (by decide)
    intro c hc
    refine bne_iff_ne.2 fun heq => hno ?_
    unfold importHead
    simp only [List.mem_append] at hc ⊢
    rw [← heq]
    tauto
  have hquote : (importHead hooks).countP isQuote = 0 := by
    have hno := notMem_importHead hhooks (c := '\'') (by decide) (by decide)
    have hno' := notMem_importHead hhooks (c := '"') (by decide) (by decide)
    rw [List.countP_eq_zero]
    intro c hc hq
    rcases Bool.or_eq_true_iff.1 hq with hq | hq
    · exact hno (beq_iff_eq.1 hq ▸ hc)
    · exact hno' (beq_iff_eq.1 hq ▸ hc)
  -- The statement can be read, so something is matched.
  have htakes : importStatement.Takes [] [] ("import".toList ++ ((" \x7b ".toList ++ ((", ".intercalate hooks).toList ++
      " \x7d ".toList)) ++ ("from".toList ++ (" ".toList ++ (['\''] ++ ("react".toList ++ ['\''])))))) (";\n\n".toList ++ t)
      [] :=
    takes_seq_text.2 ⟨_, rfl, plain_many.takes_seq.2 ⟨_, _, rfl, hline, takes_seq_text.2 ⟨_, rfl,
      plain_many.takes_seq.2 ⟨_, _, rfl, by decide, plain_one.takes_seq.2 ⟨_, _, rfl, ⟨_, rfl, by decide⟩,
        plain_some1.takes_seq.2 ⟨_, _, rfl, ⟨by decide, by decide⟩, ⟨_, rfl, by decide⟩, rfl⟩⟩⟩⟩⟩⟩
  obtain ⟨h, hh⟩ := exists_hit? htakes
  have htext : "import".toList ++ ((" \x7b ".toList ++ ((", ".intercalate hooks).toList ++
      " \x7d ".toList)) ++ ("from".toList ++ (" ".toList ++ (['\''] ++ ("react".toList ++ ['\'']))))) ++
        (";\n\n".toList ++ t) = hookImport hooks ++ t := by
    have hassoc (a b c d e f g n : Text) (q : Char) : a ++ ((b ++ (n ++ c)) ++ (d ++ (e ++ ([q] ++ (f ++ [q]))))) ++
        (g ++ t) = (a ++ (b ++ (n ++ (c ++ (d ++ e))))) ++ q :: (f ++ q :: g) ++ t := by
      simp only [List.append_assoc, List.cons_append, List.nil_append]
    rw [hookImport_eq]
    exact hassoc ..
  rw [htext] at hh
  -- What is matched has two quotation marks, so it reaches over the first one and the name of the library.
  obtain ⟨rest, ht, hshape⟩ := takes_of_hit? hh
  simp only [importStatement, Pattern.all, takes_seq_text, plain_many.takes_seq, plain_one.takes_seq,
    plain_some1.takes_seq] at hshape
  obtain ⟨_, hw, u, _, rfl, -, _, rfl, v, _, rfl, -, _, _, rfl, ⟨q, rfl, hq⟩, x, _, rfl, -, ⟨q', rfl, hq'⟩, -⟩ := hshape
  have hcount : 2 ≤ h.text.countP isQuote := by
    rw [hw]
    simp only [List.countP_append, List.countP_singleton, hq, hq', if_true]
    omega
  have hsplit : hookImport hooks ++ t =
      (importHead hooks ++ '\'' :: "react".toList) ++ ('\'' :: ";\n\n".toList ++ t) := by
    rw [hookImport_eq]
    simp only [List.append_assoc, List.cons_append]
  refine ⟨h, (hit?_of_isForward (by decide) behind _).trans hh, ?_⟩
  have hbegin : h.text <+: hookImport hooks ++ t := ⟨rest, ht.symm⟩
  rcases List.prefix_or_prefix_of_prefix hbegin ⟨_, hsplit.symm⟩ with hpre | hpre
  · have hle := hpre.sublist.countP_le (p := isQuote)
    have hone : ('\'' :: "react".toList).countP isQuote = 1 := by decide
    rw [List.countP_append, hquote, hone] at hle
    omega
  · exact hpre

/-- The text in front mentions the library. -/
theorem imports_hookImport (t : Text) :
    (importStatement.hits (hookImport hooks ++ t)).any (fun h => Text.occursIn "react".toList h.text) = true := by
  obtain ⟨h, hh, hpre⟩ := exists_hit_hookImport hhooks [] t
  have hreact : "react".toList <:+: h.text := List.IsInfix.trans ⟨importHead hooks ++ ['\''], [], by simp⟩ hpre.isInfix
  refine List.any_eq_true.2 ⟨h, mem_hits_of_hit? hh fun hnil => ?_, (Text.occursIn_iff _ _).2 hreact⟩
  rw [hnil] at hreact
  exact absurd hreact (by decide)

end

theorem addMissingImports_cases (t : Text) :
    addMissingImports t = t ∨
      ∃ hooks, (∀ hook ∈ hooks, hook ∈ knownHooks) ∧ addMissingImports t = hookImport hooks ++ t := by
  unfold addMissingImports
  split
  · exact Or.inl rfl
  · split
    · exact Or.inl rfl
    · dsimp only
      split
      · exact Or.inl rfl
      · exact Or.inr ⟨hooksCalled t, fun hook h => (List.mem_filter.1 h).1, rfl⟩

theorem addMissingImports_hookImport {hooks : List String} (hhooks : ∀ hook ∈ hooks, hook ∈ knownHooks) (t : Text) :
    addMissingImports (hookImport hooks ++ t) = hookImport hooks ++ t := by
  unfold addMissingImports
  split
  · rfl
  · rw [if_pos (imports_hookImport hhooks t)]

/-- **The pass over imports is idempotent.** -/
theorem addMissingImports_idempotent (t : Text) : addMissingImports (addMissingImports t) = addMissingImports t := by
  rcases addMissingImports_cases t with h | ⟨hooks, hhooks, h⟩
  · rw [h, h]
  · rw [h, addMissingImports_hookImport hhooks]

end LayeredFix.Pass.Component
