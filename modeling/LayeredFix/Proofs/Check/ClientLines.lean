import LayeredFix.Check.Decision
import LayeredFix.Proofs.Text.Lines
import LayeredFix.Proofs.Text.Reading

/-!
# Lines that mark the code for the client

The pattern for a line that marks the code may run over blank lines in front of the line and behind it, and it is found
without overlap. Still it finds each such line once, and nothing else (`count_clientDirectiveLine`): a match begins at the
beginning of a line and ends at the end of one, it holds one mark and otherwise only blanks, and no match is missed in what
it leaves.
-/

namespace LayeredFix.Check

open Pattern

/-- The marks for client code: two words in quotation marks, which may differ, with a semicolon or without. -/
def clientMarks : List Text :=
  let quotes : List Text := [['\''], ['"']]
  quotes.flatMap fun q => quotes.flatMap fun q' =>
    [q ++ "use client".toList ++ q', q ++ "use client".toList ++ q' ++ [';']]

/-- Whether a line is nothing but a mark, apart from blanks around it. -/
def isClientLine (l : Text) : Bool := clientMarks.contains (Text.trim l)

variable {a c m t w rest behind : Text} {g g' : List (Nat × Text)}

/-! ### What the pattern reads -/

theorem mem_clientMarks_iff : m ∈ clientMarks ↔ ∃ q q' s, (q = '\'' ∨ q = '"') ∧ (q' = '\'' ∨ q' = '"') ∧
    (s = [';'] ∨ s = []) ∧ m = q :: ("use client".toList ++ q' :: s) := by
  constructor
  · intro h
    simp only [clientMarks, List.flatMap_cons, List.flatMap_nil, List.append_nil, List.mem_append, List.mem_cons,
      List.not_mem_nil, or_false] at h
    rcases h with ((rfl | rfl) | rfl | rfl) | (rfl | rfl) | rfl | rfl
    · exact ⟨'\'', '\'', [], by simp⟩
    · exact ⟨'\'', '\'', [';'], by simp⟩
    · exact ⟨'\'', '"', [], by simp⟩
    · exact ⟨'\'', '"', [';'], by simp⟩
    · exact ⟨'"', '\'', [], by simp⟩
    · exact ⟨'"', '\'', [';'], by simp⟩
    · exact ⟨'"', '"', [], by simp⟩
    · exact ⟨'"', '"', [';'], by simp⟩
  · rintro ⟨q, q', s, rfl | rfl, rfl | rfl, rfl | rfl, rfl⟩ <;> decide

/-- The pattern reads a mark with blanks around it, from the beginning of a line to the end of one. -/
theorem takes_clientDirectiveLine :
    clientDirectiveLine.Takes behind g w rest g' ↔
      (behind.head?.all (· == '\n') = true ∧ rest.head?.all (· == '\n') = true ∧
        ∃ a m c, w = a ++ (m ++ c) ∧ (∀ d ∈ a, Text.isBlank d = true) ∧ m ∈ clientMarks ∧
          ∀ d ∈ c, Text.isBlank d = true) ∧ g' = g := by
  constructor
  · intro h
    obtain ⟨hstart, h₁⟩ := takes_seq_lineStart.1 h
    obtain ⟨a, w₁, rfl, ha, h₂⟩ := plain_many.takes_seq.1 h₁
    obtain ⟨q, w₂, rfl, ⟨d, rfl, hd⟩, h₃⟩ := plain_one.takes_seq.1 h₂
    obtain ⟨w₃, rfl, h₄⟩ := takes_seq_text.1 h₃
    obtain ⟨q', w₄, rfl, ⟨d', rfl, hd'⟩, h₅⟩ := plain_one.takes_seq.1 h₄
    obtain ⟨s, w₅, rfl, hs, h₆⟩ := plain_text.optional.takes_seq.1 h₅
    obtain ⟨c, w₆, rfl, hc, ⟨hend, rfl⟩, rfl⟩ := plain_many.takes_seq.1 h₆
    rw [Bool.or_eq_true, beq_iff_eq, beq_iff_eq] at hd hd'
    refine ⟨⟨hstart, hend, a, _, c, ?_, ha, mem_clientMarks_iff.2 ⟨d, d', s, hd, hd', hs, rfl⟩, hc⟩, rfl⟩
    simp only [List.append_nil, List.nil_append, List.cons_append, List.append_assoc]
  · rintro ⟨⟨hstart, hend, a, m, c, rfl, ha, hm, hc⟩, rfl⟩
    obtain ⟨q, q', s, hq, hq', hs, rfl⟩ := mem_clientMarks_iff.1 hm
    have hquote {q : Char} (hq : q = '\'' ∨ q = '"') : (q == '\'' || q == '"') = true := by simpa using hq
    have hmark : q :: ("use client".toList ++ q' :: s) ++ c = [q] ++ ("use client".toList ++ ([q'] ++ (s ++ c))) := by
      simp only [List.nil_append, List.cons_append, List.append_assoc]
    refine takes_seq_lineStart.2 ⟨hstart, plain_many.takes_seq.2 ⟨a, _, rfl, ha, ?_⟩⟩
    refine plain_one.takes_seq.2 ⟨[q], _, hmark, ⟨q, rfl, hquote hq⟩, takes_seq_text.2 ⟨_, rfl, ?_⟩⟩
    refine plain_one.takes_seq.2 ⟨[q'], _, rfl, ⟨q', rfl, hquote hq'⟩, plain_text.optional.takes_seq.2 ⟨s, c, rfl, hs, ?_⟩⟩
    exact plain_many.takes_seq.2 ⟨c, [], (List.append_nil c).symm, hc, ⟨hend, rfl⟩, rfl⟩

/-! ### What a line holds -/

theorem isClientLine_iff {l : Text} : isClientLine l = true ↔
    ∃ a m c, l = a ++ (m ++ c) ∧ (∀ d ∈ a, Text.isBlank d = true) ∧ m ∈ clientMarks ∧ ∀ d ∈ c, Text.isBlank d = true := by
  unfold isClientLine
  rw [List.contains_iff_mem]
  constructor
  · intro h
    obtain ⟨a, c, hl, ha, hc⟩ := Text.exists_trim l
    exact ⟨a, _, c, hl, ha, h, hc⟩
  · rintro ⟨a, m, c, rfl, ha, hm, hc⟩
    have hall : ∀ m ∈ clientMarks, Text.trimLeft m = m ∧ Text.trimRight m = m ∧ m ≠ [] := by decide
    obtain ⟨hleft, hright, hne⟩ := hall m hm
    rwa [Text.trim_append_append ha hc hleft hright hne]

/-- Among blank lines none is a mark. -/
theorem countP_of_blank (h : ∀ d ∈ t, Text.isBlank d = true) : (Text.lines t).countP isClientLine = 0 := by
  refine List.countP_eq_zero.2 fun l hl hmark => ?_
  obtain ⟨a, m, c, rfl, -, hm, -⟩ := isClientLine_iff.1 hmark
  have hquote : ∀ m ∈ clientMarks, ∃ d ∈ m, Text.isBlank d = false := by decide
  obtain ⟨d, hd, hblank⟩ := hquote m hm
  have hmem : d ∈ t := (Text.infix_of_mem_lines hl).subset (List.mem_append_right _ (List.mem_append_left _ hd))
  exact absurd (hblank.symm.trans (h d hmem)) (by decide)

/-- A mark with blanks around it is on one line, whatever lines the blanks make. -/
theorem countP_of_mark (ha : ∀ d ∈ a, Text.isBlank d = true) (hm : m ∈ clientMarks)
    (hc : ∀ d ∈ c, Text.isBlank d = true) : (Text.lines (a ++ (m ++ c))).countP isClientLine = 1 := by
  have hline : ∀ m ∈ clientMarks, '\n' ∉ m := by decide
  -- The blanks in front are cut at their last newline, those behind at their first.
  have hbehind {a : Text} (ha : ∀ d ∈ a, Text.isBlank d = true) (hnl : '\n' ∉ a) :
      (Text.lines (a ++ (m ++ c))).countP isClientLine = 1 := by
    by_cases hnl' : '\n' ∈ c
    · obtain ⟨c₁, c₂, rfl, hc₁⟩ := List.eq_append_cons_of_mem hnl'
      rw [List.forall_mem_append, List.forall_mem_cons] at hc
      have hwhole : a ++ (m ++ (c₁ ++ '\n' :: c₂)) = (a ++ (m ++ c₁)) ++ '\n' :: c₂ := by simp
      have hfirst : '\n' ∉ a ++ (m ++ c₁) := by simp [hnl, hline m hm, hc₁]
      rw [hwhole, Text.lines_append_newline, Text.lines_of_notMem hfirst, List.countP_append, countP_of_blank hc.2.2,
        List.countP_singleton, if_pos (isClientLine_iff.2 ⟨a, m, c₁, rfl, ha, hm, hc.1⟩)]
    · have hfirst : '\n' ∉ a ++ (m ++ c) := by simp [hnl, hline m hm, hnl']
      rw [Text.lines_of_notMem hfirst, List.countP_singleton, if_pos (isClientLine_iff.2 ⟨a, m, c, rfl, ha, hm, hc⟩)]
  by_cases hnl : '\n' ∈ a
  · obtain ⟨a₁, a₂, rfl, ha₂⟩ := Text.exists_last_newline hnl
    rw [List.forall_mem_append, List.forall_mem_cons] at ha
    rw [List.append_assoc, List.cons_append, Text.lines_append_newline, List.countP_append, countP_of_blank ha.1,
      hbehind ha.2.2 ha₂, Nat.zero_add]
  · exact hbehind ha hnl

/-! ### Counting -/

/-- A match begins at the beginning of a line. -/
theorem hit?_of_inside {d : Char} (hd : d ≠ '\n') (hbehind : behind.head? = some d) (t : Text) :
    clientDirectiveLine.hit? behind t = none := by
  refine Option.eq_none_iff_forall_ne_some.2 fun h hh => hd ?_
  obtain ⟨rest, -, htakes⟩ := takes_of_hit? hh
  obtain ⟨⟨hstart, -⟩, -⟩ := takes_clientDirectiveLine.1 htakes
  simpa [hbehind] using hstart

/-- Where no match begins at the beginning of a line, none begins in the line. -/
theorem skips_line (hw : '\n' ∉ w.dropLast) (hfirst : clientDirectiveLine.hit? behind (w ++ t) = none) :
    clientDirectiveLine.Skips behind w t := by
  rintro u v rfl hv
  rcases List.eq_nil_or_concat u with rfl | ⟨u, d, rfl⟩
  · simpa using hfirst
  · rw [List.dropLast_append_of_ne_nil hv, List.concat_eq_append] at hw
    refine hit?_of_inside (d := d) (fun hd => hw ?_) (by simp) _
    simp [hd]

/-- Where no match begins at the beginning of a line, the line is no mark. -/
theorem not_isClientLine_of_none (rest : Text) (hbehind : behind.head?.all (· == '\n') = true) {l : Text}
    (hrest : rest.head?.all (· == '\n') = true) (hnone : clientDirectiveLine.hit? behind (l ++ rest) = none) :
    isClientLine l = false := by
  refine Bool.eq_false_iff.2 fun hl => ?_
  obtain ⟨a, m, c, rfl, ha, hm, hc⟩ := isClientLine_iff.1 hl
  obtain ⟨hit, hhit⟩ := exists_hit? (g := [])
    (takes_clientDirectiveLine.2 ⟨⟨hbehind, hrest, a, m, c, rfl, ha, hm, hc⟩, rfl⟩)
  rw [hnone] at hhit
  cases hhit

/-- From the beginning of a line on, there is a match for each line that is a mark. -/
theorem countP_piecesFrom (n : Nat) : ∀ (behind t : Text), t.length = n → behind.head?.all (· == '\n') = true →
    (clientDirectiveLine.piecesFrom behind t).countP isHit = (Text.lines t).countP isClientLine := by
  induction n using Nat.strongRecOn with
  | ind n ih =>
    rintro behind t rfl hbehind
    rcases hhit : clientDirectiveLine.hit? behind t with _ | h
    · -- No match begins here, so the first line is passed over, and it is no mark.
      by_cases hnl : '\n' ∈ t
      · obtain ⟨l, r, rfl, hl⟩ := List.eq_append_cons_of_mem hnl
        have hcut : l ++ '\n' :: r = (l ++ ['\n']) ++ r := by simp
        have hskips : clientDirectiveLine.Skips behind (l ++ ['\n']) r :=
          skips_line (by simpa using hl) (by rw [← hcut]; exact hhit)
        have hlater := ih r.length (by simp; omega) ((l ++ ['\n']).reverse ++ behind) r rfl (by simp)
        have hno := not_isClientLine_of_none ('\n' :: r) hbehind rfl hhit
        rw [hcut, countP_piecesFrom_append hskips, hlater, ← hcut, Text.lines_append_newline, Text.lines_of_notMem hl,
          List.singleton_append, List.countP_cons_of_neg (by simpa using hno)]
      · have hskips : clientDirectiveLine.Skips behind t [] :=
          skips_line (fun hmem => hnl ((List.dropLast_sublist t).subset hmem)) (by rwa [List.append_nil])
        have hno := not_isClientLine_of_none [] hbehind rfl (by rwa [List.append_nil])
        have hcount := countP_piecesFrom_append hskips
        rw [List.append_nil, piecesFrom_nil, List.countP_nil] at hcount
        rw [hcount, Text.lines_of_notMem hnl, List.countP_cons_of_neg (by simpa using hno), List.countP_nil]
    · -- The match holds one mark; what it leaves begins with a newline, if anything is left.
      obtain ⟨rest, rfl, htakes⟩ := takes_of_hit? hhit
      obtain ⟨⟨-, hrest, a, m, c, htext, ha, hm, hc⟩, -⟩ := takes_clientDirectiveLine.1 htakes
      have hone : (Text.lines h.text).countP isClientLine = 1 := htext ▸ countP_of_mark ha hm hc
      have hne : h.text ≠ [] := fun hnil => by rw [hnil] at hone; exact absurd hone (by decide)
      rw [piecesFrom_of_some hhit hne, List.countP_cons_of_pos rfl]
      rcases rest with _ | ⟨d, r⟩
      · rw [piecesFrom_nil, List.append_nil, hone, List.countP_nil]
      · obtain rfl : d = '\n' := by simpa using hrest
        rw [Text.lines_append_newline, List.countP_append, hone, Nat.add_comm 1]
        congr 1
        have hlength : (h.text ++ '\n' :: r).length = h.text.length + (r.length + 1) := List.length_append
        have hpos : 0 < h.text.length := List.length_pos_iff.2 hne
        by_cases hend : (h.text.reverse ++ behind).head?.all (· == '\n') = true
        · rw [ih (r.length + 1) (by omega) _ ('\n' :: r) rfl hend, Text.lines_newline,
            List.countP_cons_of_neg (by decide)]
        · obtain ⟨d, u, hlast⟩ := List.exists_cons_of_ne_nil (List.reverse_ne_nil_iff.2 hne)
          rw [hlast] at hend ⊢
          have hd : d ≠ '\n' := by simpa using hend
          rw [piecesFrom_cons_of_none (hit?_of_inside hd rfl _), List.countP_cons_of_neg (by decide),
            ih r.length (by omega) _ r rfl rfl]

/-- **The pattern counts the lines that are marks.** -/
theorem count_clientDirectiveLine (t : Text) : clientDirectiveLine.count t = (Text.lines t).countP isClientLine := by
  rw [count_eq]
  exact countP_piecesFrom t.length [] t rfl rfl

end LayeredFix.Check
