import LayeredFix.Proofs.Hardening.Signs

/-!
# Error handling for an asynchronous function

The repair looks at the first arrow function of the text only (`Wraps`): its body is what stands in front of the brace
that closes it, as many braces being closed as were opened (`level`).
-/

namespace LayeredFix.Pass.Hardening

open Pattern
open Relation (ReflTransGen)

/-! ### Braces -/

/-- The number of braces that are open after a text, if `depth` are open before it and no more are closed than are open. -/
def level (depth : Nat) : Text → Option Nat
  | [] => some depth
  | c :: t =>
    if c = '\x7b' then level (depth + 1) t
    else if c = '\x7d' then
      if depth = 0 then none else level (depth - 1) t
    else level depth t

theorem level_append (depth : Nat) (a b : Text) : level depth (a ++ b) = (level depth a).bind fun d => level d b := by
  induction a generalizing depth with
  | nil => rfl
  | cons c a ih =>
    rw [List.cons_append, level]
    conv => rhs; rw [level]
    split
    · exact ih _
    · split
      · split
        · rfl
        · exact ih _
      · exact ih _

/-- The closing brace stands behind a stretch that closes all braces that it opens. -/
theorem closingBraceFrom_eq_some_iff {t : Text} {k : Nat} : ∀ {depth index : Nat},
    closingBraceFrom (depth + 1) index t = some k ↔
      ∃ b z, t = b ++ '\x7d' :: z ∧ level depth b = some 0 ∧ k = index + b.length := by
  induction t with
  | nil =>
    intro depth index
    simp [closingBraceFrom]
  | cons c t ih =>
    intro depth index
    have hcons {depth' : Nat} (hlevel : ∀ b, level depth (c :: b) = level depth' b)
        (hfirst : c = '\x7d' → depth ≠ 0) :
        (∃ b z, t = b ++ '\x7d' :: z ∧ level depth' b = some 0 ∧ k = index + 1 + b.length) ↔
          ∃ b z, c :: t = b ++ '\x7d' :: z ∧ level depth b = some 0 ∧ k = index + b.length := by
      constructor
      · rintro ⟨b, z, rfl, hb, rfl⟩
        exact ⟨c :: b, z, rfl, (hlevel b).trans hb, by rw [List.length_cons]; omega⟩
      · rintro ⟨b, z, heq, hb, rfl⟩
        rcases b with _ | ⟨c', b⟩
        · obtain ⟨rfl, rfl⟩ := List.cons.inj heq
          exact absurd (Option.some.inj hb) (hfirst rfl)
        · obtain ⟨rfl, rfl⟩ := List.cons.inj heq
          exact ⟨b, z, rfl, (hlevel b).symm.trans hb, by rw [List.length_cons]; omega⟩
    rw [closingBraceFrom]
    split
    · rename_i hopen
      obtain rfl := beq_iff_eq.1 hopen
      exact (@ih (depth + 1) (index + 1)).trans (hcons (fun b => by simp [level]) fun h => absurd h (by decide))
    · rename_i hopen
      rw [beq_iff_eq] at hopen
      split
      · rename_i hclose
        obtain rfl := beq_iff_eq.1 hclose
        cases depth with
        | zero =>
          rw [if_pos (by rfl), Option.some.injEq]
          constructor
          · rintro rfl
            exact ⟨[], t, rfl, rfl, rfl⟩
          · rintro ⟨b, z, heq, hb, rfl⟩
            rcases b with _ | ⟨c, b⟩
            · rfl
            · obtain ⟨rfl, -⟩ := List.cons.inj heq
              simp [level] at hb
        | succ depth =>
          rw [if_neg (by simp only [beq_iff_eq]; omega), Int.add_sub_cancel]
          show closingBraceFrom ((depth : Int) + 1) (index + 1) t = some k ↔ _
          exact ih.trans (hcons (fun b => by simp [level]) fun _ => Nat.succ_ne_zero depth)
      · rename_i hclose
        rw [beq_iff_eq] at hclose
        exact ih.trans (hcons (fun b => by simp [level, hopen, hclose]) fun h => absurd h hclose)

/-- A text is cut at its closing brace in one way only. -/
theorem body_unique {b z b' z' : Text} (h : b ++ '\x7d' :: z = b' ++ '\x7d' :: z') (hb : level 0 b = some 0)
    (hb' : level 0 b' = some 0) : b = b' ∧ z = z' := by
  have hclose : closingBraceFrom ((0 : Nat) + 1) 0 (b ++ '\x7d' :: z) = some (0 + b.length) :=
    closingBraceFrom_eq_some_iff.2 ⟨b, z, rfl, hb, rfl⟩
  have hclose' : closingBraceFrom ((0 : Nat) + 1) 0 (b ++ '\x7d' :: z) = some (0 + b'.length) :=
    closingBraceFrom_eq_some_iff.2 ⟨b', z', h, hb', rfl⟩
  have hlength : b.length = b'.length := Nat.add_left_cancel (Option.some.inj (hclose.symm.trans hclose'))
  obtain rfl := List.append_inj_left h hlength
  exact ⟨rfl, (List.cons.inj (List.append_cancel_left h)).2⟩

/-! ### Asynchronous arrow functions -/

/-- The first line of an asynchronous arrow function up to its brace. -/
def IsArrow (k : Text) : Prop := ∃ i n p, k = i ++ ("const ".toList ++ (n ++ (" = async (".toList ++ (p ++ ") => ".toList)))) ∧
  (∀ c ∈ i, Text.isSpaceOrTab c = true) ∧ (n ≠ [] ∧ ∀ c ∈ n, Text.isWord c = true) ∧ ∀ c ∈ p, (c != ')') = true

/-- The line ends here. -/
def EndsLine (r : Text) : Prop := ∃ s rest, r = s ++ rest ∧ (∀ c ∈ s, Text.isSpaceOrTab c = true) ∧
  rest.head?.all (· == '\n') = true

variable {behind w rest t t' v k r : Text} {g : List (Nat × Text)} {h : Hit}

theorem takes_asyncArrow : asyncArrow.Takes behind [] w rest g ↔ behind.head?.all (· == '\n') = true ∧
    ∃ i n p s, w = (i ++ ("const ".toList ++ (n ++ (" = async (".toList ++ (p ++ ") => ".toList))))) ++ '\x7b' :: s ∧
      (∀ c ∈ i, Text.isSpaceOrTab c = true) ∧ (n ≠ [] ∧ ∀ c ∈ n, Text.isWord c = true) ∧ (∀ c ∈ p, (c != ')') = true) ∧
      (∀ c ∈ s, Text.isSpaceOrTab c = true) ∧ rest.head?.all (· == '\n') = true ∧ g = [(1, i)] := by
  simp only [asyncArrow, Pattern.all, takes_seq_lineStart, plain_many.takes_seq_group, takes_seq_text, word,
    plain_some1.takes_seq, plain_many.takes_seq]
  refine and_congr_right fun _ => ?_
  constructor
  · rintro ⟨i, _, rfl, hi, _, rfl, n, _, rfl, hn, _, rfl, p, _, rfl, hp, _, rfl, s, _, rfl, hs, ⟨hrest, rfl⟩, rfl⟩
    exact ⟨i, n, p, s, by simp, hi, hn, hp, hs, hrest, rfl⟩
  · rintro ⟨i, n, p, s, rfl, hi, hn, hp, hs, hrest, rfl⟩
    have hbrace : ") => \x7b".toList ++ (s ++ []) = ") => ".toList ++ '\x7b' :: s := by simp
    refine ⟨i, _, by simp only [List.append_assoc], hi, _, rfl, n, _, rfl, hn, _, rfl, p, _, rfl, hp, s ++ [], hbrace.symm,
      s, [], rfl, hs, ⟨hrest, rfl⟩, rfl⟩

theorem IsArrow.cut (hk : IsArrow k) : ∃ k', k = k' ++ ')' :: " => ".toList ∧ ')' ∉ k' := by
  obtain ⟨i, n, p, rfl, hi, hn, hp⟩ := hk
  refine ⟨i ++ ("const ".toList ++ (n ++ (" = async (".toList ++ p))), by simp, ?_⟩
  have hword : Text.isWord ')' = false := by decide
  simp only [List.mem_append, not_or]
  exact ⟨fun h => absurd (hi _ h) (by decide), by decide, fun h => absurd ((hn.2 _ h).symm.trans hword) (by decide), by decide,
    fun h => absurd (hp _ h) (by decide)⟩

/-- Where an arrow function begins its first line is cut in one way only. -/
theorem IsArrow.unique {k' r' : Text} (hk : IsArrow k) (hk' : IsArrow k') (h : k ++ '\x7b' :: r = k' ++ '\x7b' :: r') :
    k = k' ∧ r = r' := by
  obtain ⟨x, rfl, hx⟩ := hk.cut
  obtain ⟨x', rfl, hx'⟩ := hk'.cut
  rw [List.append_assoc, List.append_assoc] at h
  obtain ⟨rfl, hrest⟩ := Text.cut_unique h hx hx'
  exact ⟨rfl, (List.cons.inj (List.append_cancel_left hrest)).2⟩

theorem exists_arrow_of_hit? (hh : asyncArrow.hit? behind v = some h) : behind.head?.all (· == '\n') = true ∧
    ∃ k s r, v = k ++ '\x7b' :: r ∧ IsArrow k ∧ EndsLine r ∧ h.text = k ++ '\x7b' :: s ∧ '\x7b' ∉ s ∧
      ∀ c ∈ h.group 1, Text.isSpaceOrTab c = true := by
  obtain ⟨rest, rfl, htakes⟩ := takes_of_hit? hh
  obtain ⟨hline, i, n, p, s, hw, hi, hn, hp, hs, hrest, hg⟩ := takes_asyncArrow.1 htakes
  have hgroup : h.group 1 = i := by
    unfold Hit.group
    rw [hg]
    rfl
  refine ⟨hline, _, s, s ++ rest, by rw [hw]; simp, ⟨i, n, p, rfl, hi, hn, hp⟩, ⟨s, rest, rfl, hs, hrest⟩, hw,
    fun hmem => absurd (hs _ hmem) (by decide), hgroup ▸ hi⟩

theorem exists_hit?_of_arrow (hline : behind.head?.all (· == '\n') = true) (hk : IsArrow k) (hr : EndsLine r) :
    ∃ h, asyncArrow.hit? behind (k ++ '\x7b' :: r) = some h := by
  obtain ⟨i, n, p, rfl, hi, hn, hp⟩ := hk
  obtain ⟨s, rest, rfl, hs, hrest⟩ := hr
  obtain ⟨h, hh⟩ := exists_hit? (takes_asyncArrow.2 ⟨hline, i, n, p, s, rfl, hi, hn, hp, hs, hrest, rfl⟩)
  exact ⟨h, by rw [← hh]; simp⟩

/-! ### What is wrapped -/

/-- The first arrow function of a text stands behind `u`, `k` is its first line up to its brace, and between its braces
stands `b`, where something is awaited. -/
structure Wraps (t u k b z : Text) : Prop where
  text : t = u ++ (k ++ '\x7b' :: (b ++ '\x7d' :: z))
  line : u.reverse.head?.all (· == '\n') = true
  arrow : IsArrow k
  ends : EndsLine (b ++ '\x7d' :: z)
  first : ∀ u₁ u₂ k' r', u = u₁ ++ u₂ → u₂ ≠ [] → u₁.reverse.head?.all (· == '\n') = true → IsArrow k' → EndsLine r' →
    u₂ ++ (k ++ '\x7b' :: (b ++ '\x7d' :: z)) ≠ k' ++ '\x7b' :: r'
  closed : level 0 b = some 0
  awaits : "await".toList <:+: b

/-- There is no reason for error handling: nothing is awaited, errors are handled already, or the first arrow function has
no body that awaits something. -/
def Handled (t : Text) : Prop :=
  Text.occursIn "async".toList t = false ∨ Text.occursIn "await".toList t = false ∨ tryBlock.occursIn t = true ∨
    catchWord.occursIn t = true ∨ ∀ u k b z, ¬ Wraps t u k b z

/-- A body without the line breaks in front of it and the blanks behind it. -/
def core (b : Text) : Text := (Text.trimRight b).dropWhile (· == '\n')

theorem Wraps.search {u b z : Text} (h : Wraps t u k b z) : ∃ hit, asyncArrow.search t = some hit ∧ hit.before = u := by
  obtain ⟨hit, hh⟩ := exists_hit?_of_arrow h.line h.arrow h.ends
  have hskips : asyncArrow.Skips [] u (k ++ '\x7b' :: (b ++ '\x7d' :: z)) := by
    intro u₁ u₂ heq hne
    refine Option.eq_none_iff_forall_ne_some.2 fun hit' hh' => ?_
    rw [List.append_nil] at hh'
    obtain ⟨hline, k', -, r', hv, hk', hr', -⟩ := exists_arrow_of_hit? hh'
    exact h.first u₁ u₂ k' r' heq hne hline hk' hr' hv
  rw [h.text]
  exact ⟨_, search_of_skips hskips hh, rfl⟩

theorem Wraps.unique {u b z u' k' b' z' : Text} (h : Wraps t u k b z) (h' : Wraps t u' k' b' z') :
    u = u' ∧ k = k' ∧ b ++ '\x7d' :: z = b' ++ '\x7d' :: z' := by
  obtain ⟨hit, hs, rfl⟩ := h.search
  obtain ⟨hit', hs', rfl⟩ := h'.search
  obtain rfl := Option.some.inj (hs.symm.trans hs')
  exact ⟨rfl, h.arrow.unique h'.arrow (List.append_cancel_left (h.text.symm.trans h'.text))⟩

/-- Line breaks in front of it and blanks behind it are all that a body is without. -/
theorem exists_core (b : Text) : ∃ nl bl, b = nl ++ (core b ++ bl) ∧ (∀ c ∈ nl, c = '\n') ∧
    ∀ c ∈ bl, Text.isBlank c = true := by
  obtain ⟨bl, hbl, hblank⟩ := Text.exists_trimRight b
  refine ⟨(Text.trimRight b).takeWhile (· == '\n'), bl, ?_, fun c hc => ?_, hblank⟩
  · rw [core, ← List.append_assoc, List.takeWhile_append_dropWhile, ← hbl]
  · exact beq_iff_eq.1 (List.all_eq_true.1 List.all_takeWhile c hc)

theorem infix_core_iff (hw : Compact w) (b : Text) : w <:+: core b ↔ w <:+: b := by
  obtain ⟨nl, bl, hb, hnl, hbl⟩ := exists_core b
  have hline : ∀ c ∈ nl, c ∉ w := fun c hc => hnl c hc ▸ hw.notMem (Or.inl (by decide))
  have hblank : ∀ c ∈ bl, c ∉ w := fun c hc => hw.notMem (Or.inl (hbl c hc))
  calc w <:+: core b
      ↔ w <:+: core b ++ bl := (Text.infix_append_iff_of_notMem hw.1 hblank).symm
    _ ↔ w <:+: nl ++ (core b ++ bl) := (Text.infix_append_left_iff hw.1 hline).symm
    _ ↔ w <:+: b := by rw [← hb]

theorem dropRightWhile_brace {k s : Text} (hs : '\x7b' ∉ s) :
    Text.dropRightWhile (· != '\x7b') (k ++ '\x7b' :: s) = k ++ ['\x7b'] := by
  have hpass : ∀ c ∈ s.reverse, (c != '\x7b') = true := fun c hc =>
    bne_iff_ne.2 (ne_of_mem_of_not_mem (List.mem_reverse.1 hc) hs)
  rw [Text.dropRightWhile, List.reverse_append, List.reverse_cons, List.append_assoc, List.dropWhile_append_of_pos hpass]
  simp

/-- Behind the opening brace one brace is open. -/
theorem closingBrace_open (a r : Text) :
    closingBrace (a ++ '\x7b' :: r) a.length = closingBraceFrom ((0 : Nat) + 1) (a.length + 1) r := by
  rw [closingBrace, List.drop_left, closingBraceFrom]
  rfl

theorem closingBrace_eq_some_iff {a : Text} {i : Nat} : closingBrace (a ++ '\x7b' :: r) a.length = some i ↔
    ∃ b z, r = b ++ '\x7d' :: z ∧ level 0 b = some 0 ∧ i = (a ++ '\x7b' :: b).length := by
  have hlength (b : Text) : a.length + 1 + b.length = (a ++ '\x7b' :: b).length := by
    simp only [List.length_append, List.length_cons]
    omega
  rw [closingBrace_open, closingBraceFrom_eq_some_iff]
  simp only [hlength]

theorem bodyBetween_eq (a b z : Text) :
    bodyBetween ((a ++ '\x7b' :: b) ++ '\x7d' :: z) a.length (a ++ '\x7b' :: b).length = core b := by
  rw [bodyBetween, List.take_left, ← List.drop_drop, List.drop_left, List.drop_one, List.tail_cons, core]

/-- The first arrow function is wrapped if its body awaits something, and no other is. -/
theorem wraps_of_search {f : Found} (hs : asyncArrow.search t = some f) : ∃ k r, t = (f.before ++ k) ++ '\x7b' :: r ∧
    f.before.length + (Text.dropRightWhile (· != '\x7b') f.hit.text).length - 1 = (f.before ++ k).length ∧
    (∀ c ∈ f.hit.group 1, Text.isSpaceOrTab c = true) ∧
    (∀ b z, r = b ++ '\x7d' :: z → level 0 b = some 0 → "await".toList <:+: b → Wraps t f.before k b z) ∧
    ∀ u k' b z, Wraps t u k' b z → r = b ++ '\x7d' :: z := by
  obtain ⟨ht, hh⟩ := search_spec hs
  obtain ⟨hline, k, s, r, hv, hk, hr, htext, hfree, hi⟩ := exists_arrow_of_hit? hh
  have hsplit : t = (f.before ++ k) ++ '\x7b' :: r := by
    rw [List.append_assoc, ← hv]
    exact ht
  refine ⟨k, r, hsplit, ?_, hi, fun b z hb hlevel hawait => ?_, fun u k' b z hw => ?_⟩
  · rw [htext, dropRightWhile_brace hfree]
    simp
  · subst hb
    refine ⟨by rw [hsplit, List.append_assoc], hline, hk, hr, fun u₁ u₂ k' r' hu hne hline' hk' hr' heq => ?_, hlevel, hawait⟩
    obtain ⟨hit, hhit⟩ := exists_hit?_of_arrow (show (u₁.reverse ++ []).head?.all _ = true by simpa using hline') hk' hr'
    have hnone := skips_of_search hs u₁ u₂ hu hne
    rw [hv, heq, hhit] at hnone
    cases hnone
  · obtain ⟨hit, hsearch, rfl⟩ := hw.search
    obtain rfl := Option.some.inj (hs.symm.trans hsearch)
    rw [List.append_assoc] at hsplit
    exact (hk.unique hw.arrow (List.append_cancel_left (hsplit.symm.trans hw.text))).2

/-- **What the repair does**: nothing to a text that needs no error handling, and else the body of the first arrow function is
wrapped. -/
theorem addErrorHandling_cases (t : Text) : Handled t ∧ addErrorHandling t = t ∨
    ¬ Handled t ∧ ∃ u k b z i, Wraps t u k b z ∧ (∀ c ∈ i, Text.isSpaceOrTab c = true) ∧
      addErrorHandling t = u ++ (k ++ (wrapBody i (core b) ++ z)) := by
  unfold addErrorHandling
  split
  · rename_i hno
    rw [Bool.or_eq_true, Bool.not_eq_true', Bool.not_eq_true'] at hno
    exact Or.inl ⟨hno.imp_right Or.inl, rfl⟩
  · rename_i hwords
    split
    · rename_i hsign
      rw [Bool.or_eq_true] at hsign
      exact Or.inl ⟨Or.inr (Or.inr (hsign.imp_right Or.inl)), rfl⟩
    · rename_i hsigns
      simp only [Bool.or_eq_true, Bool.not_eq_true', not_or, Bool.not_eq_false, Bool.not_eq_true] at hwords hsigns
      have hhandled : Handled t ↔ ∀ u k b z, ¬ Wraps t u k b z := by
        rw [Handled, hwords.1, hwords.2, hsigns.1, hsigns.2]
        simp
      rcases hs : asyncArrow.search t with _ | f
      · refine Or.inl ⟨hhandled.2 fun u k b z hw => ?_, rfl⟩
        obtain ⟨hit, hsearch, -⟩ := hw.search
        rw [hs] at hsearch
        cases hsearch
      · obtain ⟨k, r, hsplit, hopening, hi, hwraps, hshape⟩ := wraps_of_search hs
        dsimp only
        rw [hopening]
        rcases hc : closingBrace t (f.before ++ k).length with _ | closing
        · refine Or.inl ⟨hhandled.2 fun u' k' b' z' hw => ?_, rfl⟩
          rw [hsplit, closingBrace_eq_some_iff.2 ⟨b', z', hshape _ _ _ _ hw, hw.closed, rfl⟩] at hc
          cases hc
        · rw [hsplit] at hc
          obtain ⟨b, z, rfl, hlevel, rfl⟩ := closingBrace_eq_some_iff.1 hc
          have hcut : t = ((f.before ++ k) ++ '\x7b' :: b) ++ '\x7d' :: z := by
            rw [hsplit]
            simp
          have htake : t.take (f.before ++ k).length = f.before ++ k := by rw [hsplit, List.take_left]
          have hdrop : t.drop (((f.before ++ k) ++ '\x7b' :: b).length + 1) = z := by
            rw [hcut, ← List.drop_drop, List.drop_left, List.drop_one, List.tail_cons]
          have hbody : bodyBetween t (f.before ++ k).length ((f.before ++ k) ++ '\x7b' :: b).length = core b := by
            rw [hcut]
            exact bodyBetween_eq ..
          have hawait : Text.occursIn "await".toList (core b) = true ↔ "await".toList <:+: b := by
            rw [Text.occursIn_iff, infix_core_iff (by decide)]
          dsimp only
          rw [hbody, htake, hdrop]
          split
          · rename_i hno
            rw [Bool.not_eq_true', ← Bool.not_eq_true, hawait] at hno
            refine Or.inl ⟨hhandled.2 fun u' k' b' z' hw => hno ?_, rfl⟩
            exact (body_unique (hshape _ _ _ _ hw) hlevel hw.closed).1 ▸ hw.awaits
          · rename_i hyes
            rw [Bool.not_eq_true', Bool.not_eq_false, hawait] at hyes
            have hw := hwraps b z rfl hlevel hyes
            exact Or.inr ⟨fun hall => hhandled.1 hall _ _ _ _ hw, f.before, k, b, z, f.hit.group 1, hw, hi, by simp⟩

end LayeredFix.Pass.Hardening
