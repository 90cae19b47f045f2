import LayeredFix.Proofs.Check.ClientLines
import LayeredFix.Proofs.Check.Verdict

/-!
# Conflicts that a change is blamed for

The advanced check compares default exports before and after a change, but looks for the other four conflicts only in the
text after it. So it names the first conflict that shows (`blames_iff`), and a change is blamed for what it did not bring
about just where one of the four stands in the text already: `blames_introduced_iff` says that the blame is just on every
change to a text if none of them stands in it, and that a text with one of them is taken back even if nothing was changed.
-/

namespace LayeredFix.Check

open Pattern

/-- A conflict stands in a text. -/
def Conflict.StandsIn (t : Text) : Conflict → Prop
  | defaultExports => 1 < Text.occurrences "export default".toList t
  | nestedMemo => "React.memo(React.memo(".toList <:+: t
  | clientDirectives => 1 < (Text.lines t).countP isClientLine
  | doubledKeyword => "import import".toList <:+: t ∨ "export export".toList <:+: t
  | unbalancedTags => openingTag.count t < closingTag.count t

/-- A change brings a conflict about: it adds default exports, or another conflict that did not stand in the text. -/
def Conflict.Introduced (before after : Text) (c : Conflict) : Prop :=
  if c = defaultExports then
    Text.occurrences "export default".toList before < Text.occurrences "export default".toList after
  else ¬ c.StandsIn before ∧ c.StandsIn after

/-- A conflict shows after a change: more default exports than one were added, or another conflict stands in the text. -/
def Conflict.Shows (before after : Text) (c : Conflict) : Prop :=
  if c = defaultExports then
    Text.occurrences "export default".toList before + 1 < Text.occurrences "export default".toList after
  else c.StandsIn after

/-- The advanced check takes a change back that the standard check lets stay, and gives a conflict as the reason. -/
def Blames (v : Validator) (before after : Text) (c : Conflict) : Prop :=
  (standard v before after).shouldRevert = false ∧ (advanced v before after).shouldRevert = true ∧
    (advanced v before after).reason = some c.message

variable {v : Validator} {before after t : Text} {c : Conflict}

/-! ### Conflicts -/

theorem Conflict.mem_all (c : Conflict) : c ∈ Conflict.all := by cases c <;> decide

theorem Conflict.message_injective : Function.Injective Conflict.message := by
  intro c c' h
  have hall : ∀ c ∈ Conflict.all, ∀ c' ∈ Conflict.all, c.message = c'.message → c = c' := by decide
  exact hall c c.mem_all c' c'.mem_all h

/-- There is no closing tag without its first two characters. -/
theorem infix_of_count_closingTag (h : 0 < closingTag.count t) : "</".toList <:+: t := by
  rw [count_eq, List.countP_pos_iff] at h
  obtain ⟨x, hmem, hx⟩ := h
  cases x with
  | kept d => cases hx
  | hit h =>
    obtain ⟨u, w, rfl, hh⟩ := exists_of_mem_piecesFrom hmem
    obtain ⟨rest, rfl⟩ := text_hit? hh
    exact (prefix_of_hit?_seq_text hh).isInfix.trans (List.infix_append' u _ rest)

/-- The check looks for the conflicts that show. -/
theorem Conflict.arises_iff : c.arises before after = true ↔ c.Shows before after := by
  cases c with
  | defaultExports => exact decide_eq_true_iff
  | nestedMemo => exact Text.occursIn_iff _ after
  | clientDirectives =>
    show decide (1 < clientDirectiveLine.count after) = true ↔ 1 < (Text.lines after).countP isClientLine
    rw [count_clientDirectiveLine, decide_eq_true_iff]
  | doubledKeyword =>
    show Text.anyOccursIn _ after = true ↔ _ ∨ _
    simp only [Text.anyOccursIn, List.any_cons, List.any_nil, Bool.or_false, Bool.or_eq_true, Text.occursIn_iff]
  | unbalancedTags =>
    show (Text.occursIn "</".toList after && decide (openingTag.count after < closingTag.count after)) = true ↔ _ < _
    rw [Bool.and_eq_true, Text.occursIn_iff, decide_eq_true_iff, and_iff_right_iff_imp]
    exact fun h => infix_of_count_closingTag (by omega)

/-- Without a change, what shows is what stands in the text, but for default exports. -/
theorem Conflict.shows_self_iff : c.Shows t t ↔ c ≠ defaultExports ∧ c.StandsIn t := by
  unfold Conflict.Shows
  split
  · rename_i hc
    exact ⟨fun h => by omega, fun h => absurd hc h.1⟩
  · rename_i hc
    exact (and_iff_right hc).symm

/-! ### Blame -/

/-- What the advanced check makes of a change that the standard check lets stay. -/
theorem advanced_of_keep (h : (standard v before after).shouldRevert = false) :
    advanced v before after = match conflictIn before after with
      | some c => revert (.conflict c) (standard v before after).metrics
      | none => standard v before after := by
  have hkeep : ¬ (standard v before after).shouldRevert = true := Bool.eq_false_iff.1 h
  unfold advanced
  cases conflictIn before after with
  | none => exact if_neg hkeep
  | some c => exact if_neg hkeep

/-- **The first conflict that shows is blamed**, on a change that the standard check lets stay. -/
theorem blames_iff : Blames v before after c ↔ (standard v before after).shouldRevert = false ∧ c.Shows before after ∧
    ∃ earlier later, Conflict.all = earlier ++ c :: later ∧ ∀ c' ∈ earlier, ¬ c'.Shows before after := by
  unfold Blames
  refine and_congr_right fun hkeep => ?_
  have hfirst : conflictIn before after = some c ↔ c.Shows before after ∧
      ∃ earlier later, Conflict.all = earlier ++ c :: later ∧ ∀ c' ∈ earlier, ¬ c'.Shows before after := by
    unfold conflictIn
    rw [List.find?_eq_some_iff_append, Conflict.arises_iff]
    simp only [Bool.not_eq_true', ← Conflict.arises_iff, Bool.not_eq_true]
  rw [← hfirst, advanced_of_keep hkeep]
  rcases conflictIn before after with _ | c'
  · exact ⟨fun h => absurd (hkeep.symm.trans h.1) (by decide), fun h => by cases h⟩
  · constructor
    · exact fun h => congrArg some (Conflict.message_injective (Option.some.inj h.2))
    · rintro ⟨⟩
      exact ⟨rfl, rfl⟩

/-- Where a conflict shows, one is blamed, unless the standard check takes the change back. -/
theorem exists_blames (hkeep : (standard v before after).shouldRevert = false) (h : c.Shows before after) :
    ∃ c', Blames v before after c' := by
  rcases hfirst : conflictIn before after with _ | c'
  · have hno := List.find?_eq_none.1 hfirst c c.mem_all
    exact absurd (Conflict.arises_iff.2 h) hno
  · refine ⟨c', hkeep, ?_⟩
    rw [advanced_of_keep hkeep, hfirst]
    exact ⟨rfl, rfl⟩

theorem not_shouldRevert_standard_self (v : Validator) (t : Text) : (standard v t t).shouldRevert = false := by
  unfold standard
  rw [if_pos (beq_self_eq_true t)]

/-- Blame for default exports is just; blame for another conflict is just if it did not stand in the text before. -/
theorem introduced_of_blames (h : Blames v before after c) (hbefore : c ≠ .defaultExports → ¬ c.StandsIn before) :
    c.Introduced before after := by
  obtain ⟨-, hshows, -⟩ := blames_iff.1 h
  unfold Conflict.Shows at hshows
  unfold Conflict.Introduced
  split
  · rename_i hc
    rw [if_pos hc] at hshows
    omega
  · rename_i hc
    rw [if_neg hc] at hshows
    exact ⟨hbefore hc, hshows⟩

/-- Nothing is blamed on no change but conflicts that it did not bring about. -/
theorem not_introduced_self (c : Conflict) (t : Text) : ¬ c.Introduced t t := by
  unfold Conflict.Introduced
  split
  · omega
  · exact fun h => h.1 h.2

/-- **What a change is blamed for.** The first conflict that shows is blamed. Blame for default exports is always just. The
blame is just on every change to a text if none of the other four conflicts stands in it, and only then: a text in which one
of them stands is taken back even where nothing was changed. -/
theorem blames_introduced_iff (v : Validator) (before : Text) :
    (∀ after c, Blames v before after c ↔ (standard v before after).shouldRevert = false ∧ c.Shows before after ∧
      ∃ earlier later, Conflict.all = earlier ++ c :: later ∧ ∀ c' ∈ earlier, ¬ c'.Shows before after) ∧
    (∀ after, Blames v before after .defaultExports → Conflict.defaultExports.Introduced before after) ∧
    ((∀ after c, Blames v before after c → c.Introduced before after) ↔
      ∀ c, c ≠ Conflict.defaultExports → ¬ c.StandsIn before) ∧
    ((advanced v before before).shouldRevert = true ↔ ∃ c, c ≠ Conflict.defaultExports ∧ c.StandsIn before) := by
  have hkeep := not_shouldRevert_standard_self v before
  have hself : (∃ c, Blames v before before c) ↔ ∃ c, c ≠ Conflict.defaultExports ∧ c.StandsIn before := by
    constructor
    · rintro ⟨c, h⟩
      exact ⟨c, Conflict.shows_self_iff.1 (blames_iff.1 h).2.1⟩
    · rintro ⟨c, h⟩
      exact exists_blames hkeep (Conflict.shows_self_iff.2 h)
  refine ⟨fun after c => blames_iff, fun after h => introduced_of_blames h fun hc => absurd rfl hc, ?_, ?_⟩
  · constructor
    · intro hjust c hc hstands
      obtain ⟨c', h⟩ := hself.2 ⟨c, hc, hstands⟩
      exact not_introduced_self c' before (hjust before c' h)
    · exact fun hnone after c h => introduced_of_blames h (hnone c)
  · rw [← hself]
    constructor
    · intro h
      rcases advanced_cases v before before with hsame | ⟨-, c, -, hconflict⟩
      · rw [hsame, hkeep] at h
        cases h
      · exact ⟨c, hkeep, h, by rw [hconflict]; rfl⟩
    · exact fun ⟨c, h⟩ => h.2.1

/-- A text in which a component is memoised twice is taken back though nothing was changed, and the change is blamed for
it. -/
theorem blames_nestedMemo_unchanged :
    Blames .standard "React.memo(React.memo(A))".toList "React.memo(React.memo(A))".toList .nestedMemo ∧
    Conflict.nestedMemo.StandsIn "React.memo(React.memo(A))".toList ∧
    ¬ Conflict.nestedMemo.Introduced "React.memo(React.memo(A))".toList "React.memo(React.memo(A))".toList := by
  refine ⟨⟨rfl, by decide +kernel, by decide +kernel⟩, ?_, not_introduced_self _ _⟩
  exact (Text.occursIn_iff _ _).1 (by decide)

end LayeredFix.Check
