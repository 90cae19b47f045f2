import LayeredFix.Proofs.Hardening.Statement

/-!
# One default export

The last repair puts one statement in at the end of the text, or takes several out (`Drops`). Either way the text has one
default export then, and the repair leaves it alone.
-/

namespace LayeredFix.Pass.Hardening

open Pattern
open Relation (ReflTransGen)

variable {t t' w a n l z k u b q v r : Text} {keep : Nat}

/-! ### Lines -/

/-- Lines, each with its line break. -/
def rows (ls : List Text) : Text := ls.flatMap (· ++ ['\n'])

theorem framed_unlines {ls : List Text} (hne : ls ≠ []) : framed (Text.unlines ls) = '\n' :: rows ls := by
  induction ls with
  | nil => exact absurd rfl hne
  | cons l ls ih =>
    cases ls with
    | nil => simp [framed, rows, Text.unlines_singleton]
    | cons l' ls =>
      have hrest := (List.cons.inj (ih (by simp))).2
      rw [framed, Text.unlines_cons_cons, List.append_assoc, List.cons_append, hrest]
      simp [rows]

theorem framed_eq_rows (t : Text) : framed t = '\n' :: rows (Text.lines t) := by
  rw [← framed_unlines (Text.lines_ne_nil t), Text.unlines_lines]

/-! ### Statements taken out -/

/-- One statement is taken out, where the text in front of it rests. -/
inductive Drops : Text → Text → Prop where
  /-- It exports `n`, stands in the lines `l`, and `a` stands in front of them. -/
  | intro {a n l z : Text} (hl : IsStatement n l) (hn : n ∉ reserved) (ha : Rests a) :
      Drops (a ++ '\n' :: (l ++ '\n' :: z)) (a ++ '\n' :: z)

/-- The statements that are taken out behind `front`, each with the text in front of it. -/
def takenOut (keep : Nat) (front : Text) : List Text → List (Text × Text)
  | [] => []
  | l :: ls =>
    if isDefaultStatement l && keep ≤ ls.countP isDefaultStatement then (front, l) :: takenOut keep (front ++ '\n' :: l) ls
    else takenOut keep (front ++ '\n' :: l) ls

/-- Whether a statement can be taken out from behind a text without a trace: blanks aside, the text ends in no word and in no
comma, and the statement does not look like the declaration of a function or a class. -/
def isTraceless (front l : Text) : Bool :=
  ((Text.trimRight front).getLast?.all fun c => !Text.isWord c && c != ',') && !defaultDeclaration.occursIn l

theorem rests_of_trimRight (h : (Text.trimRight a).getLast?.all (fun c => !Text.isWord c && c != ',') = true) : Rests a := by
  rintro p c s rfl hs
  by_cases hc : Text.isBlank c = true
  · refine ⟨Text.isWord_of_isBlank hc, ?_⟩
    rintro rfl
    exact absurd hc (by decide)
  · have htrim : Text.trimRight (p ++ c :: s) = p ++ [c] := by
      have hcut : (p ++ c :: s).reverse = s.reverse ++ (c :: p.reverse) := by simp
      rw [Text.trimRight, Text.dropRightWhile, hcut, List.dropWhile_append_of_pos fun d hd => hs d (List.mem_reverse.1 hd),
        List.dropWhile_cons, if_neg hc]
      simp
    rw [htrim, List.getLast?_concat, Option.all_some, Bool.and_eq_true, Bool.not_eq_true', bne_iff_ne] at h
    exact h

theorem not_reserved (hl : IsStatement n l) (h : defaultDeclaration.occursIn l = false) : n ∉ reserved := by
  intro hn
  obtain ⟨b, b', rfl, hb, -⟩ := hl
  have hdeclares : DeclaresDefault (framed (b ++ ("export default ".toList ++ (n ++ ';' :: b')))) :=
    ⟨[], b, [], n, ';' :: (b' ++ ['\n']), by simp [framed], hb, Or.inl rfl, hn, (by decide : Text.isWord ';' = false)⟩
  rw [defaultDeclaration_occursIn_iff.2 hdeclares] at h
  cases h

/-- Statements that can be taken out without a trace are taken out one after another. -/
theorem drops_rows : ∀ {ls : List Text} {a : Text}, (∀ l ∈ ls, '\n' ∉ l) →
    (∀ x ∈ takenOut keep a ls, isTraceless x.1 x.2 = true) →
    ReflTransGen Drops (a ++ '\n' :: rows ls) (a ++ '\n' :: rows (dropStatements keep ls)) := by
  intro ls
  induction ls with
  | nil => exact fun _ _ => .refl
  | cons l ls ih =>
    intro a hls htrace
    rw [List.forall_mem_cons] at hls
    rw [takenOut] at htrace
    rw [dropStatements]
    have hrows (ls : List Text) : a ++ '\n' :: (l ++ '\n' :: rows ls) = (a ++ '\n' :: l) ++ '\n' :: rows ls := by simp
    split
    · rename_i hdrop
      rw [if_pos hdrop, List.forall_mem_cons] at htrace
      obtain ⟨n, hl⟩ := (isDefaultStatement_iff hls.1).1 (Bool.and_eq_true_iff.1 hdrop).1
      obtain ⟨hfront, hdeclares⟩ := Bool.and_eq_true_iff.1 htrace.1
      have hrest := ih hls.2 htrace.2
      have hstep := Drops.intro (z := rows (dropStatements keep ls)) hl (not_reserved hl (by simpa using hdeclares))
        (rests_of_trimRight hfront)
      rw [hrows] at hstep
      have hfirst : rows (l :: ls) = l ++ '\n' :: rows ls := by simp [rows]
      rw [hfirst, hrows]
      exact hrest.tail hstep
    · rename_i hkeep
      rw [if_neg hkeep] at htrace
      have hfirst (ls : List Text) : rows (l :: ls) = l ++ '\n' :: rows ls := by simp [rows]
      rw [hfirst, hfirst, hrows, hrows]
      exact ih hls.2 htrace

theorem countP_dropStatements (ls : List Text) :
    (dropStatements keep ls).countP isDefaultStatement = min keep (ls.countP isDefaultStatement) := by
  induction ls with
  | nil => simp [dropStatements]
  | cons l ls ih =>
    rw [dropStatements]
    split
    · rename_i hdrop
      rw [Bool.and_eq_true, decide_eq_true_eq] at hdrop
      rw [ih, List.countP_cons_of_pos hdrop.1]
      omega
    · rename_i hkeep
      rw [Bool.and_eq_true, decide_eq_true_eq, not_and] at hkeep
      by_cases hl : isDefaultStatement l = true
      · have hfew := hkeep hl
        rw [List.countP_cons_of_pos hl, List.countP_cons_of_pos hl, ih]
        omega
      · rw [List.countP_cons_of_neg hl, List.countP_cons_of_neg hl, ih]

theorem dropStatements_eq_self {ls : List Text} (h : ls.countP isDefaultStatement ≤ keep) : dropStatements keep ls = ls := by
  induction ls with
  | nil => rfl
  | cons l ls ih =>
    rw [List.countP_cons] at h
    rw [dropStatements]
    split
    · rename_i hdrop
      rw [Bool.and_eq_true, decide_eq_true_eq] at hdrop
      rw [if_pos hdrop.1] at h
      omega
    · rw [ih (by omega)]

theorem dropStatements_sublist (keep : Nat) (ls : List Text) : (dropStatements keep ls).Sublist ls := by
  induction ls with
  | nil => exact List.Sublist.slnil
  | cons l ls ih =>
    rw [dropStatements]
    split
    · exact ih.cons l
    · exact ih.cons_cons l

theorem mem_of_mem_dropStatements {ls : List Text} (h : l ∈ dropStatements keep ls) : l ∈ ls :=
  (dropStatements_sublist keep ls).subset h

/-! ### The repair -/

/-- The number of statements that stay. -/
def kept (t : Text) : Nat := if defaultDeclaration.occursIn t then 0 else 1

/-- The number of statements. -/
def statements (t : Text) : Nat := (Text.lines t).countP isDefaultStatement

/-- A statement at the end of the text, behind a blank line. -/
def withStatement (t n : Text) : Text := t ++ '\n' :: ('\n' :: ("export default ".toList ++ (n ++ [';'])))

/-- **What the repair does**: it puts in a statement for the first function where no default export is, and takes statements
out where there are several. -/
theorem ensureSingleDefaultExport_cases (t : Text) :
    (statements t = 0 ∧ defaultDeclaration.occursIn t = false ∧ firstFunction.search t = none ∧
      ensureSingleDefaultExport t = t) ∨
    (statements t = 0 ∧ defaultDeclaration.occursIn t = false ∧ ∃ f, firstFunction.search t = some f ∧
      ensureSingleDefaultExport t = withStatement t (f.hit.group 1)) ∨
    ((statements t ≠ 0 ∨ defaultDeclaration.occursIn t = true) ∧
      ensureSingleDefaultExport t = Text.unlines (dropStatements (kept t) (Text.lines t))) := by
  unfold ensureSingleDefaultExport
  dsimp only
  split
  · rename_i hnone
    rw [Bool.and_eq_true, beq_iff_eq, Bool.not_eq_true'] at hnone
    split
    · rename_i hf
      exact Or.inl ⟨hnone.1, hnone.2, hf, rfl⟩
    · rename_i f hf
      exact Or.inr (Or.inl ⟨hnone.1, hnone.2, f, hf, by simp [withStatement]⟩)
  · rename_i hsome
    rw [Bool.and_eq_true, beq_iff_eq, Bool.not_eq_true', Classical.not_and_iff_not_or_not, Bool.not_eq_false] at hsome
    refine Or.inr (Or.inr ⟨hsome, ?_⟩)
    show (if statements t ≤ kept t then t else Text.unlines (dropStatements (kept t) (Text.lines t))) = _
    split
    · rename_i hfew
      rw [dropStatements_eq_self hfew, Text.unlines_lines]
    · rfl

theorem takes_firstFunction {behind rest : Text} {g : List (Nat × Text)} : firstFunction.Takes behind [] w rest g ↔
    ∃ n b, w = "function ".toList ++ (n ++ (b ++ "(".toList)) ∧ (n ≠ [] ∧ ∀ c ∈ n, Text.isWord c = true) ∧
      (∀ c ∈ b, Text.isBlank c = true) ∧ g = [(1, n)] := by
  simp only [firstFunction, Pattern.all, takes_seq_text, word, plain_some1.takes_seq_group, blanks, plain_many.takes_seq,
    takes_text]
  constructor
  · rintro ⟨_, rfl, n, _, rfl, hn, b, _, rfl, hb, rfl, rfl⟩
    exact ⟨n, b, rfl, hn, hb, rfl⟩
  · rintro ⟨n, b, rfl, hn, hb, rfl⟩
    exact ⟨_, rfl, n, _, rfl, hn, b, _, rfl, hb, rfl, rfl⟩

/-- The name of the first function is a word of the text. -/
theorem firstFunction_spec {f : Found} (hf : firstFunction.search t = some f) :
    (f.hit.group 1 ≠ [] ∧ ∀ c ∈ f.hit.group 1, Text.isWord c = true) ∧ f.hit.group 1 <:+: t := by
  obtain ⟨ht, hh⟩ := search_spec hf
  obtain ⟨rest, -, htakes⟩ := takes_of_hit? hh
  obtain ⟨n, b, htext, hn, -, hg⟩ := takes_firstFunction.1 htakes
  have hgroup : f.hit.group 1 = n := by
    unfold Hit.group
    rw [hg]
    rfl
  rw [hgroup]
  refine ⟨hn, f.before ++ "function ".toList, (b ++ "(".toList) ++ f.after, ?_⟩
  conv => rhs; rw [ht, htext]
  simp

theorem isStatement_concat (hn : n ≠ [] ∧ ∀ c ∈ n, Text.isWord c = true) :
    IsStatement n ('\n' :: ("export default ".toList ++ (n ++ [';']))) :=
  ⟨['\n'], [], rfl, by decide, hn, by simp, by simp⟩

theorem framed_withStatement (t n : Text) :
    framed (withStatement t n) = ('\n' :: t) ++ '\n' :: (('\n' :: ("export default ".toList ++ (n ++ [';']))) ++ '\n' :: []) := by
  simp [framed, withStatement]

theorem framed_eq_append_nil (t : Text) : framed t = ('\n' :: t) ++ '\n' :: [] := rfl

/-! ### What the repair preserves -/

theorem Drops.declaresDefault_iff (hd : Drops t t') : DeclaresDefault t' ↔ DeclaresDefault t := by
  obtain ⟨hl, hn, ha⟩ := hd
  exact ⟨.statement ha, .of_statement hl hn⟩

theorem declaresDefault_iff_of_drops (hd : ReflTransGen Drops t t') : DeclaresDefault t' ↔ DeclaresDefault t := by
  induction hd with
  | refl => rfl
  | tail _ hd ih => exact hd.declaresDefault_iff.trans ih

/-- The default exports of a text are put in order without a trace: every statement can be taken out so, and the first
function has a name of its own. -/
structure Orderly (t : Text) : Prop where
  taken : ∀ x ∈ takenOut (kept t) [] (Text.lines t), isTraceless x.1 x.2 = true
  name : ∀ f, firstFunction.search t = some f → f.hit.group 1 ∉ reserved

/-- Where there is a default export, statements are taken out one after another, and a line is left. -/
theorem Orderly.drops (h : Orderly t) (hsome : statements t ≠ 0 ∨ defaultDeclaration.occursIn t = true) :
    dropStatements (kept t) (Text.lines t) ≠ [] ∧
      ReflTransGen Drops (framed t) (framed (Text.unlines (dropStatements (kept t) (Text.lines t)))) := by
  have hdrops : ReflTransGen Drops (framed t) ('\n' :: rows (dropStatements (kept t) (Text.lines t))) := by
    rw [framed_eq_rows]
    exact drops_rows (a := []) (fun _ => Text.notMem_of_mem_lines) h.taken
  have hne : dropStatements (kept t) (Text.lines t) ≠ [] := by
    intro hnil
    by_cases hdecl : defaultDeclaration.occursIn t = true
    · rw [hnil] at hdrops
      obtain ⟨a, b, q, m, z, hcontra, -⟩ :=
        (declaresDefault_iff_of_drops hdrops).2 (defaultDeclaration_occursIn_iff.1 hdecl)
      have hlength := congrArg List.length hcontra
      simp [rows] at hlength
      omega
    · have hcount : (dropStatements (kept t) (Text.lines t)).countP isDefaultStatement = _ :=
        countP_dropStatements (Text.lines t)
      have hsome' := hsome.resolve_right hdecl
      rw [hnil, kept, if_neg hdecl, List.countP_nil] at hcount
      rw [statements] at hsome'
      omega
  rw [framed_unlines hne]
  exact ⟨hne, hdrops⟩

/-- A statement is put in at the end of the text, or statements are taken out one after another. -/
theorem Orderly.shape (h : Orderly t) :
    (statements t = 0 ∧ defaultDeclaration.occursIn t = false ∧ ∃ n, (n ≠ [] ∧ ∀ c ∈ n, Text.isWord c = true) ∧ n <:+: t ∧
      n ∉ reserved ∧ ensureSingleDefaultExport t = withStatement t n) ∨
    ReflTransGen Drops (framed t) (framed (ensureSingleDefaultExport t)) := by
  rcases ensureSingleDefaultExport_cases t with ⟨-, -, -, heq⟩ | ⟨hnone, hdecl, f, hf, heq⟩ | ⟨hsome, heq⟩
  · rw [heq]
    exact Or.inr .refl
  · obtain ⟨hn, hin⟩ := firstFunction_spec hf
    exact Or.inl ⟨hnone, hdecl, _, hn, hin, h.name f hf, heq⟩
  · rw [heq]
    exact Or.inr (h.drops hsome).2

theorem infix_of_drops (hw : '\n' ∉ w) (hd : ReflTransGen Drops t t') (h : w <:+: t') : w <:+: t := by
  refine Classical.byContradiction fun hno => of_steps (motive := fun t => ¬ w <:+: t) ?_ hd hno h
  rintro _ _ ⟨-, -, -⟩ hno hin
  exact hno ((infix_statement_iff hw).2 (Or.inl hin))

/-- Words other than those of the statement are not put in. -/
theorem Orderly.occurs (h : Orderly t) (hw : Compact w) (hexport : ¬ w <:+: "export".toList)
    (hdefault : ¬ w <:+: "default".toList) (hin : w <:+: ensureSingleDefaultExport t) : w <:+: t := by
  have hno {c : Char} (hc : Text.isBlank c = true ∨ c ∈ ";[\x7b\x7d".toList) : c ∉ w := hw.notMem hc
  have hline : '\n' ∉ w := hno (Or.inl (by decide))
  rcases h.shape with ⟨-, -, n, -, hn, -, heq⟩ | hdrops
  · have hcut : withStatement t n = t ++ '\n' :: ([] ++ '\n' :: ("export".toList ++ ' ' :: ("default".toList ++ ' ' ::
        (n ++ ';' :: [])))) := by
      simp [withStatement]
    rw [heq, hcut, Text.infix_append_cons_iff hline, Text.infix_append_cons_iff hline,
      Text.infix_append_cons_iff (hno (Or.inl (by decide))), Text.infix_append_cons_iff (hno (Or.inl (by decide))),
      Text.infix_append_cons_iff (hno (Or.inr (by decide))), List.infix_nil, or_iff_right hw.1, or_iff_right hexport,
      or_iff_right hdefault, or_iff_left hw.1] at hin
    exact hin.elim id fun hin => hin.trans hn
  · rw [← infix_framed_iff hw.1 hline] at hin ⊢
    exact infix_of_drops hline hdrops hin

/-- No default export of a function is put in. -/
theorem Orderly.defaultFunction (h : Orderly t) (hf : defaultFunction.occursIn (ensureSingleDefaultExport t) = true) :
    defaultFunction.occursIn t = true := by
  rw [defaultFunction_occursIn_iff] at hf ⊢
  obtain ⟨c, hc, hin⟩ := hf
  have hline : '\n' ∉ "export default function ".toList ++ [c] := by
    rw [List.mem_append, List.mem_singleton, not_or]
    refine ⟨by decide, ?_⟩
    rintro rfl
    exact absurd hc (by decide)
  refine ⟨c, hc, ?_⟩
  rcases h.shape with ⟨-, -, n, hn, -, -, heq⟩ | hdrops
  · have hcut : withStatement t n = t ++ '\n' :: ([] ++ '\n' :: ("export default ".toList ++ (n ++ [';']))) := rfl
    rw [heq, hcut, Text.infix_append_cons_iff hline, Text.infix_append_cons_iff hline, List.infix_nil] at hin
    refine hin.resolve_right fun hin => ?_
    replace hin := hin.resolve_left (by simp)
    -- Behind the name stands no blank, and in front of it no function.
    have hshort : "export default function".toList ++ [' '] <:+: "export default ".toList ++ (n ++ [';']) :=
      List.IsInfix.trans ⟨[], [c], by simp⟩ hin
    have hspace : ' ' ∉ n ++ [';'] := by
      rw [List.mem_append, not_or]
      exact ⟨fun hmem => absurd (hn.2 _ hmem) (by decide), by decide⟩
    have hcontra := Text.infix_of_last_notMem hshort hspace
    exact absurd hcontra.length_le (by decide)
  · rw [← infix_framed_iff (by simp) hline] at hin ⊢
    exact infix_of_drops hline hdrops hin

theorem isTry_spec (hw : IsTry w) : w ≠ [] ∧ w.head? ≠ some '\n' ∧ w.getLast? ≠ some '\n' := by
  obtain ⟨b, rfl, -⟩ := hw
  refine ⟨by simp, by simp, ?_⟩
  rw [← List.append_assoc, List.getLast?_concat]
  decide

/-- A block with error handling stays one. -/
theorem Orderly.tryBlock (h : Orderly t) (ht : tryBlock.occursIn t = true) :
    tryBlock.occursIn (ensureSingleDefaultExport t) = true := by
  rw [tryBlock_occursIn_iff] at ht ⊢
  rcases h.shape with ⟨-, -, n, -, -, -, heq⟩ | hdrops
  · rw [heq]
    exact ht.back (by simp)
  · rw [← shows_framed_iff fun _ => isTry_spec] at ht ⊢
    refine of_steps (fun t t' hd ht => ?_) hdrops ht
    obtain ⟨hl, -, -⟩ := hd
    exact ht.of_statement hl

/-- No state is declared that was not. -/
theorem Orderly.declares (h : Orderly t) (hd : Declares (ensureSingleDefaultExport t)) : Declares t := by
  rcases h.shape with ⟨-, -, n, hn, -, -, heq⟩ | hdrops
  · rw [heq] at hd
    refine Declares.of_concat ?_ hd
    simp only [List.mem_cons, List.mem_append, not_or]
    exact ⟨by decide, by decide, fun hmem => absurd (hn.2 _ hmem) (by decide), by decide, by simp⟩
  · rw [← declares_framed_iff] at hd ⊢
    refine Classical.byContradiction fun hno => of_steps (motive := fun t => ¬ Declares t) ?_ hdrops hno hd
    rintro _ _ ⟨hl, -, ha⟩ hno hin
    exact hno (hin.statement hl ha)

/-- No arrow function is wrapped that was not. -/
theorem Orderly.wraps (h : Orderly t) (hw : ∃ u k b z, Wraps (ensureSingleDefaultExport t) u k b z) :
    ∃ u k b z, Wraps t u k b z := by
  rcases h.shape with ⟨-, -, n, hn, -, -, heq⟩ | hdrops
  · rw [heq, ← exists_wraps_framed_iff, framed_withStatement] at hw
    obtain ⟨u, k, b, z, hw⟩ := hw
    rw [← exists_wraps_framed_iff]
    exact hw.of_statement (isStatement_concat hn) (by simp)
  · rw [← exists_wraps_framed_iff] at hw ⊢
    refine Classical.byContradiction fun hno => of_steps (motive := fun t => ¬ ∃ u k b z, Wraps t u k b z) ?_ hdrops hno hw
    rintro _ _ ⟨hl, -, -⟩ hno ⟨u, k, b, z, hw⟩
    exact hno (hw.statement hl)

/-- The members of interfaces stay terminated. -/
theorem Orderly.allEnded (h : Orderly t) (ht : AllEnded [] t) : AllEnded [] (ensureSingleDefaultExport t) := by
  rw [← allEnded_framed_iff] at ht ⊢
  rcases h.shape with ⟨-, -, n, hn, -, -, heq⟩ | hdrops
  · rw [heq, framed_withStatement]
    refine AllEnded.concat ?_ ht
    simp only [List.mem_cons, List.mem_append, not_or]
    exact ⟨⟨by decide, by decide, fun hmem => absurd (hn.2 _ hmem) (by decide), by decide, by simp⟩, by decide, by simp⟩
  · refine of_steps (fun t t' hd ht => ?_) hdrops ht
    obtain ⟨hl, -, ha⟩ := hd
    exact ht.of_statement hl ha

/-- A text with one default export is left alone. -/
theorem ensureSingleDefaultExport_eq_self (hsome : statements t ≠ 0 ∨ defaultDeclaration.occursIn t = true)
    (hfew : statements t ≤ kept t) : ensureSingleDefaultExport t = t := by
  rcases ensureSingleDefaultExport_cases t with ⟨-, -, -, heq⟩ | ⟨hnone, hdecl, -⟩ | ⟨-, heq⟩
  · exact heq
  · rcases hsome with hsome | hsome
    · exact absurd hnone hsome
    · rw [hsome] at hdecl
      cases hdecl
  · rw [heq, dropStatements_eq_self hfew, Text.unlines_lines]

/-- **With one default export the repair comes to rest.** -/
theorem Orderly.settles (h : Orderly t) :
    ensureSingleDefaultExport (ensureSingleDefaultExport t) = ensureSingleDefaultExport t := by
  rcases ensureSingleDefaultExport_cases t with ⟨-, -, -, heq⟩ | ⟨hnone, hdecl, f, hf, heq⟩ | ⟨hsome, heq⟩
  · rw [heq, heq]
  · obtain ⟨hn, -⟩ := firstFunction_spec hf
    have hline : '\n' ∉ "export default ".toList ++ (f.hit.group 1 ++ [';']) := by
      simp only [List.mem_append, not_or]
      exact ⟨by decide, fun hmem => absurd (hn.2 _ hmem) (by decide), by decide⟩
    have hcount : statements (withStatement t (f.hit.group 1)) = 1 := by
      have hlast : isDefaultStatement ("export default ".toList ++ (f.hit.group 1 ++ [';'])) = true :=
        (isDefaultStatement_iff hline).2 ⟨_, [], [], by simp, by simp, hn, by simp, by simp⟩
      have hblank : isDefaultStatement [] = false := by decide
      rw [statements] at hnone
      rw [statements, withStatement, Text.lines_append_newline, Text.lines_newline, Text.lines_of_notMem hline,
        List.countP_append, hnone, List.countP_cons_of_neg (by simp [hblank]), List.countP_cons_of_pos hlast]
      rfl
    have hnot : defaultDeclaration.occursIn (withStatement t (f.hit.group 1)) = false := by
      rw [← Bool.not_eq_true, defaultDeclaration_occursIn_iff, framed_withStatement]
      intro hdeclares
      have hold := hdeclares.of_statement (isStatement_concat hn) (h.name f hf)
      rw [← framed_eq_append_nil, ← defaultDeclaration_occursIn_iff, hdecl] at hold
      cases hold
    rw [heq]
    refine ensureSingleDefaultExport_eq_self (Or.inl (by omega)) ?_
    rw [hcount, kept, hnot]
    decide
  · obtain ⟨hne, hdrops⟩ := h.drops hsome
    have hlines : Text.lines (Text.unlines (dropStatements (kept t) (Text.lines t))) = dropStatements (kept t) (Text.lines t) :=
      Text.lines_unlines hne fun l hl => Text.notMem_of_mem_lines (mem_of_mem_dropStatements hl)
    have hcount : statements (Text.unlines (dropStatements (kept t) (Text.lines t))) = min (kept t) (statements t) := by
      rw [statements, hlines, countP_dropStatements, statements]
    have hdecl : defaultDeclaration.occursIn (Text.unlines (dropStatements (kept t) (Text.lines t))) =
        defaultDeclaration.occursIn t := by
      rw [Bool.eq_iff_iff, defaultDeclaration_occursIn_iff, defaultDeclaration_occursIn_iff]
      exact declaresDefault_iff_of_drops hdrops
    have hkept : kept (Text.unlines (dropStatements (kept t) (Text.lines t))) = kept t := by
      rw [kept, hdecl, kept]
    rw [heq]
    refine ensureSingleDefaultExport_eq_self ?_ (by rw [hcount, hkept]; exact Nat.min_le_left ..)
    by_cases hold : defaultDeclaration.occursIn t = true
    · exact Or.inr (hdecl.trans hold)
    · have hpos := hsome.resolve_right hold
      rw [hcount, kept, if_neg hold]
      exact Or.inl (by omega)

end LayeredFix.Pass.Hardening
