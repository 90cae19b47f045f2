import LayeredFix.Proofs.Hardening.Interface

/-!
# What the repairs look for

Each repair looks for signs before it acts: words, the beginning of a block with error handling, the word that begins the
handling of an error, the default export of a function, a declaration of state. Here it is said how a text with a sign is
put together, and what becomes of a sign when something is put into the text or taken out: most of what is put in begins
or ends in a character that is part of no sign.
-/

namespace LayeredFix.Pass.Hardening

open Pattern
open Relation (ReflTransGen)

variable {behind w rest t t' a b : Text} {e : Char} {g : List (Nat × Text)}

/-! ### Words -/

/-- A word without blanks, semicolons and brackets. -/
def Compact (w : Text) : Prop := w ≠ [] ∧ ∀ c ∈ w, Text.isBlank c = false ∧ c ∉ ";[\x7b\x7d".toList

instance (w : Text) : Decidable (Compact w) := inferInstanceAs (Decidable (_ ∧ _))

/-- How a step cuts the text: a semicolon takes the place of blanks, and behind it the line or the body ends. -/
theorem Ends.cut (he : Ends t t') : ∃ a y d r, t = a ++ (y ++ d :: r) ∧ t' = a ++ ';' :: d :: r ∧
    (∃ u c, a = u ++ [c] ∧ IsLast c) ∧ (∀ c ∈ y, Text.isSpaceOrTab c = true) ∧ (d = '\n' ∨ d = '\x7d') := by
  obtain ⟨hc, hy, hv, hline⟩ := he
  rename_i u y v z c
  rcases v with _ | ⟨d, v⟩
  · exact ⟨u ++ [c], y, '\x7d', z, by simp, by simp, ⟨u, c, rfl, hc⟩, hy, Or.inr rfl⟩
  · obtain rfl : d = '\n' := by simpa using hline
    exact ⟨u ++ [c], y, '\n', v ++ '\x7d' :: z, by simp, by simp, ⟨u, c, rfl, hc⟩, hy, Or.inl rfl⟩

theorem Compact.notMem (hw : Compact w) {c : Char} (hc : Text.isBlank c = true ∨ c ∈ ";[\x7b\x7d".toList) : c ∉ w := fun hmem => by
  rcases hc with hc | hc
  · exact absurd (hc.symm.trans (hw.2 c hmem).1) (by decide)
  · exact (hw.2 c hmem).2 hc

theorem Ends.infix_iff (hw : Compact w) (he : Ends t t') : w <:+: t ↔ w <:+: t' := by
  obtain ⟨a, y, d, r, rfl, rfl, -, hy, hd⟩ := he.cut
  have hlast : d ∉ w := by
    rcases hd with rfl | rfl
    · exact hw.notMem (Or.inl (by decide))
    · exact hw.notMem (Or.inr (by decide))
  have hblank : ∀ c ∈ y, c ∉ w := fun c hc => hw.notMem (Or.inl (Text.isBlank_of_isSpaceOrTab (hy c hc)))
  calc w <:+: a ++ (y ++ d :: r)
      ↔ w <:+: a ++ ((y ++ [d]) ++ r) := by simp
    _ ↔ w <:+: a ∨ w <:+: r := Text.infix_append_append_iff hw.1 (by simp)
        (List.forall_mem_append.2 ⟨hblank, List.forall_mem_singleton.2 hlast⟩)
    _ ↔ w <:+: a ++ ([';', d] ++ r) := (Text.infix_append_append_iff hw.1 (by simp)
        (List.forall_mem_cons.2 ⟨hw.notMem (Or.inr (by decide)), List.forall_mem_singleton.2 hlast⟩)).symm

/-- What a step preserves many steps preserve. -/
theorem of_steps {step : Text → Text → Prop} {motive : Text → Prop} (hstep : ∀ t t', step t t' → motive t → motive t')
    (h : ReflTransGen step t t') (ht : motive t) : motive t' := by
  induction h with
  | refl => exact ht
  | tail _ h ih => exact hstep _ _ h ih

theorem notMem_of_isSpaceOrTab {y : Text} {e : Char} (hy : ∀ c ∈ y, Text.isSpaceOrTab c = true)
    (he : Text.isSpaceOrTab e = false) : e ∉ y := fun hmem => absurd ((hy e hmem).symm.trans he) (by decide)

/-! ### Words with an edge -/

/-- A stretch of some kind begins where no word goes on, and if `closed`, no word goes on behind it. -/
def Shows (P : Text → Prop) (closed : Bool) (t : Text) : Prop :=
  ∃ a w z, t = a ++ (w ++ z) ∧ P w ∧ a.reverse.head?.any Text.isWord = false ∧
    (closed = true → z.head?.any Text.isWord = false)

section
variable {P : Text → Prop} {closed : Bool}

theorem Shows.front (h : Shows P closed b) (he : Text.isWord e = false) : Shows P closed (a ++ e :: b) := by
  obtain ⟨a', w, z, rfl, hw, hedge, hclosed⟩ := h
  refine ⟨a ++ e :: a', w, z, by simp, hw, ?_, hclosed⟩
  rcases List.eq_nil_or_concat a' with rfl | ⟨a', c, rfl⟩
  · simpa using he
  · simpa using hedge

theorem Shows.back (h : Shows P closed a) (hb : closed = true → b.head?.any Text.isWord = false) : Shows P closed (a ++ b) := by
  obtain ⟨a', w, z, rfl, hw, hedge, hclosed⟩ := h
  refine ⟨a', w, z ++ b, by simp, hw, hedge, fun hc => ?_⟩
  rcases z with _ | ⟨c, z⟩
  · exact hb hc
  · exact hclosed hc

/-- The stretch stands on one side of a character that it does not hold and that belongs to no word. -/
theorem shows_append_cons_iff (he : Text.isWord e = false) (hP : ∀ w, P w → e ∉ w ∧ w ≠ []) :
    Shows P closed (a ++ e :: b) ↔ Shows P closed a ∨ Shows P closed b := by
  constructor
  · rintro ⟨a', w, z, heq, hw, hedge, hclosed⟩
    rcases List.append_eq_append_iff.1 heq with ⟨k, rfl, hk⟩ | ⟨k, rfl, hk⟩
    · rcases k with _ | ⟨c, k⟩
      · obtain ⟨c, w, rfl⟩ := List.exists_cons_of_ne_nil (hP w hw).2
        obtain ⟨rfl, -⟩ := List.cons.inj hk
        exact absurd (List.mem_cons_self ..) (hP _ hw).1
      · obtain ⟨rfl, rfl⟩ := List.cons.inj hk
        refine Or.inr ⟨k, w, z, rfl, hw, ?_, hclosed⟩
        rcases List.eq_nil_or_concat k with rfl | ⟨k, c, rfl⟩
        · rfl
        · simpa using hedge
    · obtain ⟨k', rfl⟩ := Text.prefix_of_notMem ⟨z, hk⟩ (hP w hw).1
      rw [List.append_assoc] at hk
      obtain rfl := List.append_cancel_left hk
      refine Or.inl ⟨a', w, k', rfl, hw, hedge, fun hc => ?_⟩
      rcases k' with _ | ⟨c, k'⟩
      · rfl
      · exact hclosed hc
  · rintro (h | h)
    · exact h.back fun _ => he
    · exact h.front he

theorem shows_append_left_iff {y r : Text} (hne : ∀ w, P w → w ≠ [])
    (hy : ∀ e ∈ y, Text.isWord e = false ∧ ∀ w, P w → e ∉ w) : Shows P closed (y ++ r) ↔ Shows P closed r := by
  induction y with
  | nil => rw [List.nil_append]
  | cons e y ih =>
    rw [List.forall_mem_cons] at hy
    have hnone : ¬ Shows P closed [] := by
      rintro ⟨a, w, z, heq, hw, -⟩
      obtain ⟨-, hwz⟩ := List.append_eq_nil_iff.1 heq.symm
      exact hne w hw (List.append_eq_nil_iff.1 hwz).1
    rw [List.cons_append, ← List.nil_append (e :: (y ++ r)),
      shows_append_cons_iff hy.1.1 fun w hw => ⟨hy.1.2 w hw, hne w hw⟩, ih hy.2, or_iff_right hnone]

/-- The stretch stands on one side of characters that it does not hold and that belong to no word. -/
theorem shows_append_append_iff {y r : Text} (hne : ∀ w, P w → w ≠ []) (hy : y ≠ [])
    (hno : ∀ e ∈ y, Text.isWord e = false ∧ ∀ w, P w → e ∉ w) :
    Shows P closed (a ++ (y ++ r)) ↔ Shows P closed a ∨ Shows P closed r := by
  obtain ⟨e, y, rfl⟩ := List.exists_cons_of_ne_nil hy
  rw [List.forall_mem_cons] at hno
  rw [List.cons_append, shows_append_cons_iff hno.1.1 fun w hw => ⟨hno.1.2 w hw, hne w hw⟩,
    shows_append_left_iff hne hno.2]

end

/-- The beginning of a block with error handling. -/
def IsTry (w : Text) : Prop := ∃ b, w = "try".toList ++ (b ++ ['\x7b']) ∧ ∀ c ∈ b, Text.isBlank c = true

theorem any_head?_append {v : Text} {c : Char} (hc : Text.isWord c = true) :
    behind.head?.any Text.isWord ≠ (c :: v).head?.any Text.isWord ↔ behind.head?.any Text.isWord = false := by
  rw [List.head?_cons, Option.any_some, hc, ne_eq, Bool.not_eq_true]

theorem tryBlock_occursIn_iff : tryBlock.occursIn t = true ↔ Shows IsTry false t := by
  have ht : Text.isWord 't' = true := by decide
  have htakes {behind w rest : Text} {g : List (Nat × Text)} : tryBlock.Takes behind [] w rest g ↔
      behind.head?.any Text.isWord = false ∧ IsTry w ∧ g = [] := by
    simp only [tryBlock, Pattern.all, takes_seq_edge, takes_seq_text, blanks, plain_many.takes_seq]
    constructor
    · rintro ⟨hedge, _, rfl, b, _, rfl, hb, rfl, rfl⟩
      exact ⟨(any_head?_append ht).1 hedge, ⟨b, rfl, hb⟩, rfl⟩
    · rintro ⟨hedge, ⟨b, rfl, hb⟩, rfl⟩
      exact ⟨(any_head?_append ht).2 hedge, _, rfl, b, _, rfl, hb, rfl, rfl⟩
  rw [occursIn_iff]
  constructor
  · rintro ⟨a, w, z, g, rfl, h⟩
    obtain ⟨hedge, hw, -⟩ := htakes.1 h
    exact ⟨a, w, z, rfl, hw, hedge, by simp⟩
  · rintro ⟨a, w, z, rfl, hw, hedge, -⟩
    exact ⟨a, w, z, [], rfl, htakes.2 ⟨hedge, hw, rfl⟩⟩

theorem catchWord_occursIn_iff : catchWord.occursIn t = true ↔ Shows (· = "catch".toList) true t := by
  have hc : Text.isWord 'c' = true := by decide
  have hh : Text.isWord 'h' = true := by decide
  have htakes {behind w rest : Text} {g : List (Nat × Text)} : catchWord.Takes behind [] w rest g ↔
      behind.head?.any Text.isWord = false ∧ w = "catch".toList ∧ rest.head?.any Text.isWord = false ∧ g = [] := by
    have hend : ("catch".toList.reverse ++ behind).head?.any Text.isWord ≠ rest.head?.any Text.isWord ↔
        rest.head?.any Text.isWord = false := by
      rw [ne_comm]
      exact any_head?_append hh
    simp only [catchWord, Pattern.all, takes_seq_edge, takes_seq_text]
    constructor
    · rintro ⟨hedge, _, rfl, ⟨hrest, rfl⟩, rfl⟩
      exact ⟨(any_head?_append hc).1 hedge, rfl, hend.1 hrest, rfl⟩
    · rintro ⟨hedge, rfl, hrest, rfl⟩
      exact ⟨(any_head?_append hc).2 hedge, [], rfl, ⟨hend.2 hrest, rfl⟩, rfl⟩
  rw [occursIn_iff]
  constructor
  · rintro ⟨a, w, z, g, rfl, h⟩
    obtain ⟨hedge, hw, hrest, -⟩ := htakes.1 h
    exact ⟨a, w, z, rfl, hw, hedge, fun _ => hrest⟩
  · rintro ⟨a, w, z, rfl, hw, hedge, hrest⟩
    exact ⟨a, w, z, [], rfl, htakes.2 ⟨hedge, hw, hrest rfl, rfl⟩⟩

theorem IsTry.notMem {w : Text} {c : Char} (hw : IsTry w) (hc : c ∉ "try\x7b".toList) (hblank : Text.isBlank c = false) :
    c ∉ w := by
  obtain ⟨b, rfl, hb⟩ := hw
  have hall : ∀ d ∈ "try\x7b".toList, d ∈ "try".toList ∨ d = '\x7b' := by decide
  have hsub : "try\x7b".toList = "try".toList ++ ['\x7b'] := by decide
  rw [hsub, List.mem_append, not_or] at hc
  simp only [List.mem_append, not_or]
  exact ⟨hc.1, fun hmem => absurd ((hb c hmem).symm.trans hblank) (by decide), hc.2⟩

theorem IsTry.ne_nil {w : Text} (hw : IsTry w) : w ≠ [] := by
  obtain ⟨b, rfl, -⟩ := hw
  simp

/-- A semicolon or another bracket cuts the text for blocks with error handling. -/
theorem shows_try_append_cons_iff (he : e ∈ ";[\x7d".toList) :
    Shows IsTry false (a ++ e :: b) ↔ Shows IsTry false a ∨ Shows IsTry false b := by
  have hall : ∀ e ∈ ";[\x7d".toList, Text.isWord e = false ∧ e ∉ "try\x7b".toList ∧ Text.isBlank e = false := by
    decide
  obtain ⟨hword, hno, hblank⟩ := hall e he
  exact shows_append_cons_iff hword fun w hw => ⟨hw.notMem hno hblank, hw.ne_nil⟩

/-- A block begins with a brace. -/
theorem Shows.of_braceless {y : Text} (hy : '\x7b' ∉ y) (h : Shows IsTry false (a ++ y)) : Shows IsTry false a := by
  obtain ⟨a', _, z, heq, ⟨b, rfl, hb⟩, hedge, -⟩ := h
  have hcut : a ++ y = (a' ++ ("try".toList ++ b)) ++ '\x7b' :: z := by
    rw [heq]
    simp
  rcases List.append_eq_append_iff.1 hcut with ⟨k, -, rfl⟩ | ⟨k, rfl, hk⟩
  · simp at hy
  · rcases k with _ | ⟨c, k⟩
    · rw [List.nil_append] at hk
      simp [← hk] at hy
    · obtain ⟨rfl, -⟩ := List.cons.inj hk
      exact ⟨a', _, k, by simp, ⟨b, rfl, hb⟩, hedge, by simp⟩

theorem Ends.tryBlock (he : Ends t t') (h : tryBlock.occursIn t = true) : tryBlock.occursIn t' = true := by
  rw [tryBlock_occursIn_iff] at h ⊢
  obtain ⟨-, hy, hv, -⟩ := he
  rename_i u y v z c
  have hcut : u ++ c :: (y ++ (v ++ '\x7d' :: z)) = ((u ++ [c]) ++ (y ++ v)) ++ '\x7d' :: z := by simp
  have hcut' : u ++ c :: ';' :: (v ++ '\x7d' :: z) = ((u ++ [c]) ++ ';' :: v) ++ '\x7d' :: z := by simp
  rw [hcut, shows_try_append_cons_iff (by decide)] at h
  rw [hcut', shows_try_append_cons_iff (by decide)]
  refine h.imp_left fun h => (h.of_braceless ?_).back (by simp)
  rw [List.mem_append, not_or]
  exact ⟨(notMem_of_isFlat (isFlat_of_isSpaceOrTab hy)).1, (notMem_of_isFlat hv).1⟩

theorem Ends.catchWord (he : Ends t t') (h : catchWord.occursIn t = true) : catchWord.occursIn t' = true := by
  rw [catchWord_occursIn_iff] at h ⊢
  obtain ⟨a, y, d, r, rfl, rfl, -, hy, hd⟩ := he.cut
  have hall : ∀ c ∈ ";\n\x7d".toList, Text.isWord c = false ∧ c ∉ "catch".toList := by decide
  have hlast : d ∈ ";\n\x7d".toList := by
    rcases hd with rfl | rfl
    · decide
    · decide
  have hblank : ∀ c ∈ y, Text.isWord c = false ∧ c ∉ "catch".toList := by
    intro c hc
    refine ⟨Text.isWord_of_isBlank (Text.isBlank_of_isSpaceOrTab (hy c hc)), fun hmem => ?_⟩
    have hno : ∀ c ∈ "catch".toList, Text.isSpaceOrTab c = false := by decide
    exact absurd ((hy c hc).symm.trans (hno c hmem)) (by decide)
  have hiff {x : Text} (hx : x ≠ []) (hno : ∀ c ∈ x, Text.isWord c = false ∧ c ∉ "catch".toList) :
      Shows (· = "catch".toList) true (a ++ (x ++ r)) ↔ _ :=
    shows_append_append_iff (fun w hw => hw ▸ by decide) hx fun c hc => ⟨(hno c hc).1, fun w hw => hw ▸ (hno c hc).2⟩
  rw [show a ++ (y ++ d :: r) = a ++ ((y ++ [d]) ++ r) by simp, hiff (by simp)
    (List.forall_mem_append.2 ⟨hblank, List.forall_mem_singleton.2 (hall d hlast)⟩)] at h
  rw [show a ++ ';' :: d :: r = a ++ ([';', d] ++ r) by simp, hiff (by simp)
    (List.forall_mem_cons.2 ⟨hall ';' (by decide), List.forall_mem_singleton.2 (hall d hlast)⟩)]
  exact h

/-! ### The default export of a function -/

theorem defaultFunction_occursIn_iff : defaultFunction.occursIn t = true ↔
    ∃ c, Text.isWord c = true ∧ "export default function ".toList ++ [c] <:+: t := by
  rw [occursIn_iff]
  simp only [defaultFunction, Pattern.all, takes_seq_text]
  constructor
  · rintro ⟨a, _, z, g, rfl, _, rfl, m, hm, rfl⟩
    obtain ⟨⟨hne, hword⟩, rfl⟩ := takes_some1.1 hm
    obtain ⟨c, n, rfl⟩ := List.exists_cons_of_ne_nil hne
    exact ⟨c, hword c (List.mem_cons_self ..), a, n ++ z, by simp⟩
  · rintro ⟨c, hc, a, z, rfl⟩
    exact ⟨a, _, z, _, by simp, [c], rfl, [], takes_some1.2 ⟨⟨by simp, by simpa using hc⟩, rfl⟩, rfl⟩

theorem Ends.defaultFunction (he : Ends t t') (h : defaultFunction.occursIn t' = true) : defaultFunction.occursIn t = true := by
  rw [defaultFunction_occursIn_iff] at h ⊢
  obtain ⟨c, hc, hin⟩ := h
  obtain ⟨a, y, d, r, rfl, rfl, -⟩ := he.cut
  have hword : Text.isWord ';' = false := by decide
  have hno : ';' ∉ "export default function ".toList ++ [c] := by
    rw [List.mem_append, List.mem_singleton, not_or]
    refine ⟨by decide, ?_⟩
    rintro rfl
    exact absurd (hc.symm.trans hword) (by decide)
  refine ⟨c, hc, ?_⟩
  rcases (Text.infix_append_cons_iff hno).1 hin with hin | hin
  · exact hin.trans (List.prefix_append _ _).isInfix
  · exact hin.trans ⟨a ++ y, [], by simp⟩

/-! ### Declarations of state -/

/-- The names of a state and of its setter, as they stand between the brackets. -/
def IsPair (m : Text) : Prop := ∃ x s y, m = x ++ ',' :: (s ++ ("set".toList ++ y)) ∧
  (x ≠ [] ∧ ∀ c ∈ x, (c != ',' && c != ']') = true) ∧ (∀ c ∈ s, Text.isBlank c = true) ∧
  (y ≠ [] ∧ ∀ c ∈ y, (c != ']') = true)

/-- A state is declared somewhere in the text. -/
def Declares (t : Text) : Prop :=
  ∃ a m z, t = a ++ ("const [".toList ++ (m ++ ("] = useState".toList ++ z))) ∧ IsPair m

theorem stateDeclaration_occursIn_iff : Guard.stateDeclaration.occursIn t = true ↔ Declares t := by
  rw [occursIn_iff]
  simp only [Guard.stateDeclaration, Pattern.all, takes_seq_text, blanks, plain_many.takes_seq, plain_some1.takes_seq,
    plain_some1.takes_seq_group]
  constructor
  · rintro ⟨a, _, z, g, rfl, _, rfl, x, _, rfl, hx, _, rfl, s, _, rfl, hs, _, rfl, y, _, rfl, hy, rfl, -⟩
    exact ⟨a, x ++ ',' :: (s ++ ("set".toList ++ y)), z, by simp, x, s, y, rfl, hx, hs, hy⟩
  · rintro ⟨a, _, z, rfl, x, s, y, rfl, hx, hs, hy⟩
    exact ⟨a, _, z, _, by simp, _, rfl, x, _, rfl, hx, _, rfl, s, _, rfl, hs, _, rfl, y, _, rfl, hy, rfl, rfl⟩

theorem IsPair.notMem {m : Text} (hm : IsPair m) : ']' ∉ m := by
  obtain ⟨x, s, y, rfl, hx, hs, hy⟩ := hm
  simp only [List.mem_append, List.mem_cons, not_or]
  exact ⟨fun h => by simpa using hx.2 _ h, by decide, fun h => absurd (hs _ h) (by decide), by decide,
    fun h => by simpa using hy.2 _ h⟩

/-- A character that is no blank, no comma and no part of `set` stands in one of the two names. -/
theorem IsPair.split {m r : Text} (hm : IsPair (m ++ e :: r)) (he : e ∉ ",set".toList) (hblank : Text.isBlank e = false) :
    (∃ x s y, r = x ++ ',' :: (s ++ ("set".toList ++ y)) ∧ (∀ c ∈ m ++ e :: x, (c != ',' && c != ']') = true) ∧
      (∀ c ∈ s, Text.isBlank c = true) ∧ (y ≠ [] ∧ ∀ c ∈ y, (c != ']') = true)) ∨
      ∃ x s y, m = x ++ ',' :: (s ++ ("set".toList ++ y)) ∧ (x ≠ [] ∧ ∀ c ∈ x, (c != ',' && c != ']') = true) ∧
        (∀ c ∈ s, Text.isBlank c = true) ∧ ∀ c ∈ y ++ e :: r, (c != ']') = true := by
  obtain ⟨x, s, y, heq, ⟨hne, hx⟩, hs, hy⟩ := hm
  have hcomma : e ≠ ',' := fun h => he (h ▸ by decide)
  have hset : e ∉ s ++ "set".toList := by
    rw [List.mem_append, not_or]
    have hsub : ∀ c ∈ "set".toList, c ∈ ",set".toList := by decide
    exact ⟨fun hmem => absurd ((hs e hmem).symm.trans hblank) (by decide), fun hmem => he (hsub e hmem)⟩
  rcases List.append_eq_append_iff.1 heq with ⟨k, rfl, hk⟩ | ⟨k, rfl, hk⟩
  · rcases k with _ | ⟨c, k⟩
    · exact absurd (List.cons.inj hk).1 hcomma
    · obtain ⟨rfl, rfl⟩ := List.cons.inj hk
      exact Or.inl ⟨k, s, y, rfl, hx, hs, hy⟩
  · rcases k with _ | ⟨c, k⟩
    · exact absurd (List.cons.inj hk).1.symm hcomma
    · obtain ⟨rfl, htail⟩ := List.cons.inj hk
      rw [← List.append_assoc] at htail
      obtain ⟨y', rfl, rfl⟩ := Text.cut_after htail hset
      exact Or.inr ⟨x, s, y', by simp, ⟨hne, hx⟩, hs, hy.2⟩

/-- Blanks in the middle of a pair of names stand in the first name, in front of the setter, or in the setter. -/
theorem IsPair.blanks {m₁ n m₂ : Text} (hne : n ≠ []) (hn : ∀ c ∈ n, Text.isBlank c = true) (hm : IsPair (m₁ ++ (n ++ m₂))) :
    (∃ x s y, m₂ = x ++ ',' :: (s ++ ("set".toList ++ y)) ∧ (∀ c ∈ m₁ ++ x, (c != ',' && c != ']') = true) ∧
      (∀ c ∈ s, Text.isBlank c = true) ∧ (y ≠ [] ∧ ∀ c ∈ y, (c != ']') = true)) ∨
    (∃ x s s' y, m₁ = x ++ ',' :: s ∧ m₂ = s' ++ ("set".toList ++ y) ∧ (x ≠ [] ∧ ∀ c ∈ x, (c != ',' && c != ']') = true) ∧
      (∀ c ∈ s, Text.isBlank c = true) ∧ (∀ c ∈ s', Text.isBlank c = true) ∧ (y ≠ [] ∧ ∀ c ∈ y, (c != ']') = true)) ∨
    ∃ x s y, m₁ = x ++ ',' :: (s ++ ("set".toList ++ y)) ∧ (x ≠ [] ∧ ∀ c ∈ x, (c != ',' && c != ']') = true) ∧
      (∀ c ∈ s, Text.isBlank c = true) ∧ ∀ c ∈ y ++ m₂, (c != ']') = true := by
  obtain ⟨x, s, y, heq, hx, hs, hy⟩ := hm
  have hno {c : Char} (hc : Text.isBlank c = false) : c ∉ n := fun hmem => absurd ((hn c hmem).symm.trans hc) (by decide)
  have hfirst {e : Char} {v : Text} (he : Text.isBlank e = false) : e :: v ≠ n ++ m₂ := fun h => by
    obtain ⟨c, n, rfl⟩ := List.exists_cons_of_ne_nil hne
    obtain rfl : e = c := (List.cons.inj h).1
    exact hno he (List.mem_cons_self ..)
  -- What stands behind the blanks ends as the whole does.
  have hlast {v q r : Text} {e : Char} (he : Text.isBlank e = false) (h : v ++ [e] = q ++ (n ++ r)) :
      ∃ r', r = r' ++ [e] ∧ v = q ++ (n ++ r') := by
    rcases List.eq_nil_or_concat r with rfl | ⟨r, c, rfl⟩
    · obtain ⟨n, c, rfl⟩ := (List.eq_nil_or_concat n).resolve_left hne
      rw [List.append_nil, List.concat_eq_append, ← List.append_assoc] at h
      obtain rfl := List.singleton_inj.1 (List.append_inj' h rfl).2
      exact absurd (by simp) (hno he)
    · rw [List.concat_eq_append, ← List.append_assoc n, ← List.append_assoc] at h
      obtain ⟨rfl, hc⟩ := List.append_inj' h rfl
      obtain rfl := List.singleton_inj.1 hc
      exact ⟨r, by simp, rfl⟩
  rcases List.append_eq_append_iff.1 heq with ⟨q, rfl, hq⟩ | ⟨q, rfl, hq⟩
  · obtain ⟨q, rfl, rfl⟩ := Text.cut_after hq (hno (by decide))
    refine Or.inl ⟨q, s, y, rfl, fun c hc => hx.2 c ?_, hs, hy⟩
    simp only [List.mem_append] at hc ⊢
    exact hc.imp_right Or.inr
  · rcases q with _ | ⟨c, q⟩
    · exact absurd hq (hfirst (by decide))
    · obtain ⟨rfl, hrest⟩ := List.cons.inj hq
      have hcut : q ++ (n ++ m₂) = (s ++ "se".toList) ++ 't' :: y := by
        refine hrest.symm.trans ?_
        simp
      rcases List.append_eq_append_iff.1 hcut with ⟨r, hr, hm₂⟩ | ⟨r, rfl, hr⟩
      · obtain ⟨r, rfl, rfl⟩ := Text.cut_after hm₂ (hno (by decide))
        obtain ⟨r, rfl, hset⟩ := hlast (v := s ++ ['s']) (e := 'e') (by decide) (by rw [← hr]; simp)
        obtain ⟨r, rfl, rfl⟩ := hlast (e := 's') (by decide) hset
        simp only [List.forall_mem_append] at hs
        exact Or.inr (Or.inl ⟨x, q, r, y, rfl, by simp, hx, hs.1, hs.2.2, hy⟩)
      · rcases r with _ | ⟨c, r⟩
        · exact absurd hr (hfirst (by decide))
        · obtain ⟨rfl, rfl⟩ := List.cons.inj hr
          refine Or.inr (Or.inr ⟨x, s, r, by simp, hx, hs, fun c hc => hy.2 c ?_⟩)
          exact List.mem_append.2 ((List.mem_append.1 hc).imp_right (List.mem_append_right n))

/-- Other text in the place of blanks leaves a pair of names one, if it has no commas and brackets, and where it is not
blank, the blanks stand not behind the comma of the pair. -/
theorem IsPair.edit {m₁ n o m₂ : Text} (hne : n ≠ []) (hn : ∀ c ∈ n, Text.isBlank c = true) (hone : o ≠ [])
    (ho : ∀ c ∈ o, (c != ',' && c != ']') = true)
    (hblank : (∀ c ∈ o, Text.isBlank c = true) ∨ ∀ x s, m₁ = x ++ ',' :: s → ¬ ∀ c ∈ s, Text.isBlank c = true)
    (hm : IsPair (m₁ ++ (n ++ m₂))) : IsPair (m₁ ++ (o ++ m₂)) := by
  rcases hm.blanks hne hn with ⟨x, s, y, rfl, hx, hs, hy⟩ | ⟨x, s, s', y, rfl, rfl, hx, hs, hs', hy⟩ | ⟨x, s, y, rfl, hx, hs, hy⟩
  · refine ⟨m₁ ++ (o ++ x), s, y, by simp, ⟨by simp [hone], ?_⟩, hs, hy⟩
    simp only [List.forall_mem_append] at hx ⊢
    exact ⟨hx.1, ho, hx.2⟩
  · refine ⟨x, s ++ (o ++ s'), y, by simp, hx, ?_, hy⟩
    simp only [List.forall_mem_append]
    exact ⟨hs, hblank.resolve_right fun h => h x s rfl hs, hs'⟩
  · refine ⟨x, s, y ++ (o ++ m₂), by simp, hx, hs, by simp [hone], ?_⟩
    simp only [List.forall_mem_append] at hy ⊢
    exact ⟨hy.1, fun c hc => (Bool.and_eq_true_iff.1 (ho c hc)).2, hy.2⟩

/-- Blanks do not end a name. -/
theorem ok_of_isBlank {y : Text} (hy : ∀ c ∈ y, Text.isBlank c = true) : ∀ c ∈ y, (c != ',' && c != ']') = true := by
  intro c hc
  rw [Bool.and_eq_true, bne_iff_ne, bne_iff_ne]
  constructor
  · rintro rfl
    exact absurd (hy _ hc) (by decide)
  · rintro rfl
    exact absurd (hy _ hc) (by decide)

/-- What may be put in the place of `o` behind `u` without making a declaration of state: it is part of no bracket and no
word around it, and what was a pair of names with it was one before. -/
structure Harmless (u o n : Text) : Prop where
  first : ∃ c n', n = c :: n' ∧ c ∉ "const [".toList ∧ c ∉ " = useState".toList
  brackets : '[' ∉ n ∧ ']' ∉ n ∧ ']' ∉ o
  last : ∀ y, y <:+ n → y ≠ [] → ¬ y <+: "const [".toList
  pair : ∀ m₁ m₂, m₁ <:+ u → IsPair (m₁ ++ (n ++ m₂)) → IsPair (m₁ ++ (o ++ m₂))

/-- A stretch that ends in a character outside of a word ends in no beginning of the word. -/
theorem not_prefix_of_last {n x w : Text} {d : Char} (hd : d ∉ w) (hx : x <:+ n ++ [d]) (hne : x ≠ []) : ¬ x <+: w := by
  intro hpre
  obtain ⟨k, hk⟩ := hx
  rcases List.eq_nil_or_concat x with rfl | ⟨x, c, rfl⟩
  · exact hne rfl
  · rw [List.concat_eq_append, ← List.append_assoc] at hk
    obtain rfl := List.singleton_inj.1 (List.append_inj' hk rfl).2
    exact hd (hpre.subset (by simp))

theorem Declares.edit {u o n v : Text} (hn : Harmless u o n) (h : Declares (u ++ (n ++ v))) : Declares (u ++ (o ++ v)) := by
  obtain ⟨a, m, z, heq, hm⟩ := h
  obtain ⟨e, n', hen, hconst, huse⟩ := hn.first
  have hcut : u ++ (n ++ v) = (a ++ "const ".toList) ++ '[' :: (m ++ ']' :: (" = useState".toList ++ z)) := by
    rw [heq]
    simp
  rcases List.append_eq_append_iff.1 hcut with ⟨k, hk, hkv⟩ | ⟨k, rfl, hkv⟩
  · -- The bracket is opened behind `n`.
    obtain ⟨q, rfl, rfl⟩ := Text.cut_after hkv hn.brackets.1
    rw [← List.append_assoc] at hk
    rcases List.append_eq_append_iff.1 hk with ⟨q', hq', hconst'⟩ | ⟨q', rfl, rfl⟩
    · -- The word in front of it does not reach into `n`.
      have hpre : q' <+: "const [".toList := by
        rw [show "const [".toList = "const ".toList ++ ['['] from rfl, hconst', List.append_assoc]
        exact List.prefix_append _ _
      rcases List.append_eq_append_iff.1 hq' with ⟨r, rfl, hr⟩ | ⟨r, rfl, hr⟩
      · rcases q' with _ | ⟨c, q'⟩
        · rw [List.nil_append] at hconst'
          exact ⟨u ++ o, m, z, by simp [← hconst'], hm⟩
        · exact absurd hpre (hn.last _ ⟨r, hr.symm⟩ (List.cons_ne_nil c q'))
      · exact absurd (hpre.subset (by simp [hr, hen])) hconst
    · exact ⟨u ++ (o ++ q'), m, z, by simp, hm⟩
  · rcases k with _ | ⟨c, k⟩
    · rw [List.nil_append, hen] at hkv
      have hfirst := (List.cons.inj hkv).1
      rw [← hfirst] at hen
      exact absurd (hen ▸ List.mem_cons_self ..) hn.brackets.1
    · obtain ⟨rfl, hrest⟩ := List.cons.inj hkv
      rcases List.append_eq_append_iff.1 hrest with ⟨k', rfl, hk'⟩ | ⟨k', rfl, hk'⟩
      · -- The bracket is closed in front of `n`.
        rcases k' with _ | ⟨c, k'⟩
        · rw [List.nil_append, hen] at hk'
          have hfirst := (List.cons.inj hk').1
          rw [← hfirst] at hen
          exact absurd (hen ▸ List.mem_cons_self ..) hn.brackets.2.1
        · obtain ⟨rfl, huse'⟩ := List.cons.inj hk'
          obtain ⟨q, rfl⟩ := Text.prefix_of_notMem (u := k') (v := n' ++ v) ⟨z, by rw [huse', hen]; simp⟩ huse
          exact ⟨a, m, q ++ (o ++ v), by simp, hm⟩
      · -- `n` stands between the brackets.
        obtain ⟨m₂, rfl, rfl⟩ := Text.cut_after hk' hn.brackets.2.1
        refine ⟨a, k ++ (o ++ m₂), z, by simp, hn.pair k m₂ ⟨a ++ "const [".toList, by simp⟩ hm⟩

theorem Ends.declares (he : Ends t t') (h : Declares t') : Declares t := by
  obtain ⟨a, y, d, r, rfl, rfl, -, hy, hd⟩ := he.cut
  have hdall : d ∉ "const [] = useState,;".toList := by
    rcases hd with rfl | rfl
    · decide
    · decide
  have hok {c : Char} (hc : c ∉ "const [] = useState,;".toList ∨ Text.isSpaceOrTab c = true) :
      (c != ',' && c != ']') = true := by
    rw [Bool.and_eq_true, bne_iff_ne, bne_iff_ne]
    constructor
    · rintro rfl
      exact absurd hc (by decide)
    · rintro rfl
      exact absurd hc (by decide)
  have hnew : Harmless a (y ++ [d]) [';', d] := by
    have hno {c : Char} (hc : c ∈ "const [] = useState,;".toList) : c ≠ d := ne_of_mem_of_not_mem hc hdall
    refine ⟨⟨';', [d], rfl, by decide, by decide⟩, ?_, fun x hx hne hpre => ?_, ?_⟩
    · have hclose : ']' ∉ y := fun hmem => absurd (hok (Or.inr (hy _ hmem))) (by decide)
      simp [hno (show '[' ∈ _ by decide), hno (show ']' ∈ _ by decide), hclose]
    · have hsub : ∀ c ∈ "const [".toList, c ∈ "const [] = useState,;".toList := by decide
      exact not_prefix_of_last (n := [';']) (fun hmem => hdall (hsub d hmem)) hx hne hpre
    · intro m₁ m₂ _ hm
      rcases IsPair.split (r := d :: m₂) hm (by decide) (by decide) with ⟨x, s, z, hr, hx, hs, hz⟩ | ⟨x, s, z, rfl, hx, hs, hz⟩
      · rcases x with _ | ⟨c, x⟩
        · exact absurd (List.cons.inj hr).1.symm (hno (by decide))
        · obtain ⟨rfl, rfl⟩ := List.cons.inj hr
          refine ⟨m₁ ++ (y ++ d :: x), s, z, by simp, ⟨by simp, ?_⟩, hs, hz⟩
          simp only [List.forall_mem_append, List.forall_mem_cons] at hx ⊢
          exact ⟨hx.1, fun c hc => hok (Or.inr (hy c hc)), hx.2.2⟩
      · refine ⟨x, s, z ++ (y ++ d :: m₂), by simp, hx, hs, by simp, ?_⟩
        simp only [List.forall_mem_append, List.forall_mem_cons] at hz ⊢
        exact ⟨hz.1, fun c hc => (Bool.and_eq_true_iff.1 (hok (Or.inr (hy c hc)))).2, hz.2.2⟩
  simpa using Declares.edit hnew h

end LayeredFix.Pass.Hardening
