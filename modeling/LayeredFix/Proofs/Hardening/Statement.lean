import LayeredFix.Proofs.Hardening.Framed

/-!
# Statements taken out and put in

Signs do not come or go with a statement that exports a name as default, as long as the text in front of it ends in no word and
in no comma: else what stands around the statement may come together to a sign.
-/

namespace LayeredFix.Pass.Hardening

open Pattern
open Relation (ReflTransGen)

variable {t t' w a n l z k u b q v r : Text}

/-- Blanks aside, the text ends in no word and in no comma. -/
def Rests (a : Text) : Prop := ∀ p c s, a = p ++ c :: s → (∀ d ∈ s, Text.isBlank d = true) → Text.isWord c = false ∧ c ≠ ','

/-! ### Words and blocks -/

theorem infix_statement_iff (hw : '\n' ∉ w) :
    w <:+: a ++ '\n' :: (l ++ '\n' :: z) ↔ w <:+: a ++ '\n' :: z ∨ w <:+: l := by
  rw [Text.infix_append_cons_iff hw, Text.infix_append_cons_iff hw, Text.infix_append_cons_iff hw, or_comm (a := w <:+: l),
    or_assoc]

/-- Blanks in front of a block are not part of it. -/
theorem Shows.of_blanks {y : Text} (hy : ∀ c ∈ y, Text.isBlank c = true) (h : Shows IsTry false (y ++ r)) : Shows IsTry false r := by
  obtain ⟨a, m, z, heq, hm, hedge, -⟩ := h
  have hfirst : ∃ m', m ++ z = 't' :: m' := by
    obtain ⟨s, rfl, -⟩ := hm
    exact ⟨_, rfl⟩
  rcases List.append_eq_append_iff.1 heq with ⟨x, rfl, hx⟩ | ⟨x, rfl, hx⟩
  · refine ⟨x, m, z, hx, hm, ?_, by simp⟩
    rcases List.eq_nil_or_concat x with rfl | ⟨x, c, rfl⟩
    · rfl
    · simpa using hedge
  · rcases x with _ | ⟨c, x⟩
    · exact ⟨[], m, z, hx.symm, hm, rfl, by simp⟩
    · obtain ⟨m', hm'⟩ := hfirst
      obtain rfl := (List.cons.inj (hm'.symm.trans hx)).1
      exact absurd (hy 't' (by simp)) (by decide)

/-- No block with error handling begins in a statement. -/
theorem Shows.of_statement (hl : IsStatement n l) (h : Shows IsTry false (a ++ '\n' :: (l ++ '\n' :: z))) :
    Shows IsTry false (a ++ '\n' :: z) := by
  have hline : Text.isWord '\n' = false := by decide
  have hopen : '\x7b' ∉ l := fun hmem => hl.notMem _ hmem (by decide)
  obtain ⟨b, b', rfl, -, -, hb', -⟩ := hl
  have hcut : a ++ '\n' :: ((b ++ ("export default ".toList ++ (n ++ ';' :: b'))) ++ '\n' :: z) =
      (a ++ '\n' :: (b ++ ("export default ".toList ++ n))) ++ ';' :: ((b' ++ ['\n']) ++ z) := by simp
  rw [hcut, shows_try_append_cons_iff (by decide)] at h
  rcases h with h | h
  · refine (h.of_braceless (y := '\n' :: (b ++ ("export default ".toList ++ n))) ?_).back fun hc => by cases hc
    simp only [List.mem_append, not_or] at hopen
    simp only [List.mem_cons, List.mem_append, not_or]
    exact ⟨by decide, hopen.1, by decide, hopen.2.2.1⟩
  · exact (h.of_blanks (List.forall_mem_append.2 ⟨hb', by decide⟩)).front hline

/-! ### Declarations of state -/

/-- A statement in the place of a line break makes no declaration of state. -/
theorem Declares.statement (hl : IsStatement n l) (ha : Rests a) (h : Declares (a ++ '\n' :: z)) :
    Declares (a ++ '\n' :: (l ++ '\n' :: z)) := by
  have hno {c : Char} (hc : c ∈ "()\x7b\x7d[],".toList) : c ∉ l := fun hmem => hl.notMem c hmem hc
  have hharmless : Harmless a ('\n' :: (l ++ ['\n'])) ['\n'] := by
    refine ⟨⟨'\n', [], rfl, by decide, by decide⟩, ⟨by decide, by decide, ?_⟩,
      fun y hy hne => not_prefix_of_last (n := []) (by decide) hy hne, fun m₁ m₂ hm₁ hm => ?_⟩
    · simp only [List.mem_cons, List.mem_append, not_or]
      exact ⟨by decide, hno (by decide), by decide⟩
    · refine hm.edit (by simp) (by decide) (by simp) ?_ (Or.inr fun x s hx hs => ?_)
      · simp only [List.forall_mem_cons, List.forall_mem_append]
        refine ⟨by decide, fun c hc => ?_, by decide⟩
        rw [Bool.and_eq_true, bne_iff_ne, bne_iff_ne]
        exact ⟨ne_of_mem_of_not_mem hc (hno (by decide)), ne_of_mem_of_not_mem hc (hno (by decide))⟩
      · obtain ⟨p, rfl⟩ := hm₁
        exact (ha (p ++ x) ',' s (by rw [hx, List.append_assoc]) hs).2 rfl
  simpa using Declares.edit (v := z) hharmless h

/-- A declaration of state does not reach into what is put at the end of the text and holds no bracket. -/
theorem Declares.of_concat (hv : ']' ∉ v) (h : Declares (a ++ '\n' :: v)) : Declares a := by
  obtain ⟨a', m, z, heq, hm⟩ := h
  have hcut : a ++ '\n' :: v = (a' ++ ("const [".toList ++ m)) ++ ']' :: (" = useState".toList ++ z) := by
    rw [heq]
    simp
  have hv' : ']' ∉ '\n' :: v := by
    rw [List.mem_cons, not_or]
    exact ⟨by decide, hv⟩
  obtain ⟨u, rfl, hu⟩ := Text.cut_before hcut hv'
  obtain ⟨r, rfl⟩ := Text.prefix_of_notMem ⟨z, hu⟩ (by decide)
  exact ⟨a', m, r, by simp, hm⟩

/-! ### What is wrapped -/

theorem IsArrow.dropWhile (hk : IsArrow k) : ∃ m, (k ++ v).dropWhile Text.isBlank = 'c' :: m := by
  obtain ⟨i, m, p, rfl, hi, -⟩ := hk
  refine ⟨"onst ".toList ++ (m ++ (" = async (".toList ++ (p ++ (") => ".toList ++ v)))), ?_⟩
  simp only [List.append_assoc]
  rw [List.dropWhile_append_of_pos fun c hc => Text.isBlank_of_isSpaceOrTab (hi c hc)]
  rfl

/-- A statement is a seam of the text. -/
theorem IsStatement.seam (hl : IsStatement n l) : Seam a ('\n' :: l) '\n' z := by
  refine ⟨fun c hc hmem => ?_, Or.inl rfl, Or.inr rfl, fun x₁ x₂ k r heq hne₁ hne₂ hline hk _ hcontra => ?_⟩
  · rcases List.mem_cons.1 hc with rfl | hc
    · exact absurd hmem (by decide)
    · have hsub : ∀ c ∈ "()\x7b\x7d".toList, c ∈ "()\x7b\x7d[],".toList := by decide
      exact hl.notMem c hc (hsub c hmem)
  · -- The only lines that begin in it are blank up to the word `export`.
    obtain ⟨b, b', rfl, hb, hn, hb', hb''⟩ := hl
    have hbehind : '\n' ∉ "export default ".toList ++ (n ++ ';' :: b') := by
      simp only [List.mem_append, List.mem_cons, not_or]
      exact ⟨by decide, fun hmem => absurd (hn.2 _ hmem) (by decide), by decide, hb''⟩
    have hexport {s : Text} (hs : ∀ c ∈ s, Text.isBlank c = true)
        (hx₂ : x₂ = s ++ (("export default ".toList ++ (n ++ ';' :: b')) ++ ['\n'])) : False := by
      obtain ⟨m, hm⟩ := hk.dropWhile (v := '\x7b' :: r)
      rw [← hcontra, hx₂, List.append_assoc, List.dropWhile_append_of_pos hs] at hm
      exact absurd (List.cons.inj hm).1 (by decide)
    obtain ⟨x, c, rfl⟩ := (List.eq_nil_or_concat x₁).resolve_left hne₁
    obtain rfl : c = '\n' := by simpa using hline
    have hcut : (x ++ ['\n']) ++ x₂ = ('\n' :: b) ++ (("export default ".toList ++ (n ++ ';' :: b')) ++ ['\n']) := by
      rw [← List.concat_eq_append, ← heq]
      simp
    rcases List.append_eq_append_iff.1 hcut with ⟨s, hs, hx₂⟩ | ⟨s, hs, hx₂⟩
    · have hblank : ∀ c ∈ '\n' :: b, Text.isBlank c = true := List.forall_mem_cons.2 ⟨by decide, hb⟩
      exact hexport (fun c hc => hblank c (hs ▸ List.mem_append_right _ hc)) hx₂
    · rcases List.eq_nil_or_concat s with rfl | ⟨s, c, rfl⟩
      · exact hexport (s := []) (by simp) hx₂.symm
      · obtain ⟨y, d, rfl⟩ := (List.eq_nil_or_concat x₂).resolve_left hne₂
        rw [List.concat_eq_append, ← List.append_assoc] at hs
        obtain rfl := List.singleton_inj.1 (List.append_inj' hs rfl).2
        rw [List.concat_eq_append, List.concat_eq_append, ← List.append_assoc (s ++ _)] at hx₂
        have hfirst := (List.append_inj' hx₂ rfl).1
        exact hbehind (hfirst ▸ by simp)

theorem seam_nil : Seam a [] '\n' z := by
  refine ⟨by simp, Or.inl rfl, Or.inr rfl, fun x₁ x₂ k r heq hne₁ hne₂ => ?_⟩
  rcases x₁ with _ | ⟨c, x₁⟩
  · exact absurd rfl hne₁
  · exact absurd (List.append_eq_nil_iff.1 (List.cons.inj heq).2.symm).2 hne₂

/-- The first arrow function is wrapped with a statement behind a line break if it is wrapped without. -/
theorem Wraps.statement (hl : IsStatement n l) (h : Wraps (a ++ '\n' :: z) u k b q) :
    ∃ u' k' b' q', Wraps (a ++ '\n' :: (l ++ '\n' :: z)) u' k' b' q' :=
  Wraps.seam seam_nil hl.seam (fun _ => by simp) h

/-- A statement at the end of the text does not make the first arrow function one that is wrapped. -/
theorem Wraps.of_statement (hl : IsStatement n l) (hz : '\x7d' ∉ z) (h : Wraps (a ++ '\n' :: (l ++ '\n' :: z)) u k b q) :
    ∃ u' k' b' q', Wraps (a ++ '\n' :: z) u' k' b' q' := by
  refine Wraps.seam (y := '\n' :: l) hl.seam seam_nil (fun hmem => ?_) h
  rw [List.mem_cons] at hmem
  exact absurd (hmem.resolve_left (by decide)) hz

/-! ### Interfaces -/

theorem terminateMembers_eq_self_iff : terminateMembers b = b ↔ ∀ m ∈ Text.lines b, endMember m = m := by
  constructor
  · intro h
    have hlines := lines_terminateMembers b
    rw [h] at hlines
    exact List.map_inj_left.1 (hlines.symm.trans (List.map_id _).symm)
  · intro h
    rw [terminateMembers_eq, List.map_congr_left (g := id) h, List.map_id, Text.unlines_lines]

/-- In front of a line break in the head of an interface stands a word. -/
theorem IsHead.split {m : Text} (hm : IsHead m) (heq : m = v ++ '\n' :: r) :
    ∃ p c s, v = p ++ c :: s ∧ Text.isWord c = true ∧ ∀ d ∈ s, Text.isBlank d = true := by
  obtain ⟨s, name, s', rfl, ⟨-, hs⟩, ⟨hne, hname⟩, hs'⟩ := hm
  have hline : '\n' ∉ name := fun hmem => absurd (hname _ hmem) (by decide)
  obtain ⟨v, rfl, hv⟩ := Text.cut_after heq (by decide)
  rcases List.append_eq_append_iff.1 hv with ⟨x, rfl, hx⟩ | ⟨x, rfl, hx⟩
  · obtain ⟨x, rfl, rfl⟩ := Text.cut_after hx hline
    obtain ⟨name, c, rfl⟩ := (List.eq_nil_or_concat name).resolve_left hne
    rw [List.forall_mem_append] at hs'
    exact ⟨"interface".toList ++ (s ++ name), c, x, by simp, hname c (by simp), hs'.1⟩
  · rw [List.forall_mem_append] at hs
    exact ⟨"interfac".toList, 'e', v, rfl, by decide, hs.1⟩

/-- Without a statement all members of interfaces are still terminated. -/
theorem AllEnded.of_statement (hl : IsStatement n l) (ha : Rests a) (h : AllEnded [] (a ++ '\n' :: (l ++ '\n' :: z))) :
    AllEnded [] (a ++ '\n' :: z) := by
  rintro u v m b r heq hedge ⟨rfl, hm, hb⟩
  rcases List.append_eq_append_iff.1 heq with ⟨x, rfl, hx⟩ | ⟨v, rfl, hv⟩
  · rcases x with _ | ⟨c, x⟩
    · obtain ⟨s, name, s', rfl, -⟩ := hm
      simp at hx
    · obtain ⟨rfl, rfl⟩ := List.cons.inj hx
      refine h (a ++ '\n' :: (l ++ '\n' :: x)) _ m b r (by simp) ?_ ⟨rfl, hm, hb⟩
      rcases List.eq_nil_or_concat x with rfl | ⟨x, c, rfl⟩
      · simpa using hedge
      · simpa using hedge
  · rcases List.append_eq_append_iff.1 hv with ⟨x, rfl, hx⟩ | ⟨x, hmx, hx⟩
    · rcases x with _ | ⟨c, x⟩
      · exact absurd (List.cons.inj hx).1 (by decide)
      · obtain ⟨rfl, hbody⟩ := List.cons.inj hx
        -- The statement stands behind the interface or in its body.
        rcases List.append_eq_append_iff.1 hbody with ⟨y, rfl, hy⟩ | ⟨y, rfl, hy⟩
        · rcases y with _ | ⟨c, y⟩
          · exact absurd (List.cons.inj hy).1 (by decide)
          · obtain ⟨rfl, rfl⟩ := List.cons.inj hy
            exact h u (m ++ '\x7b' :: (b ++ '\x7d' :: (y ++ '\n' :: (l ++ '\n' :: z)))) m b _ (by simp) hedge ⟨rfl, hm, hb⟩
        · rcases y with _ | ⟨c, y⟩
          · exact absurd (List.cons.inj hy).1 (by decide)
          · obtain ⟨rfl, rfl⟩ := List.cons.inj hy
            have hflat : ∀ c ∈ x ++ '\n' :: (l ++ '\n' :: y), isFlat c = true := by
              simp only [List.forall_mem_append, List.forall_mem_cons] at hb ⊢
              refine ⟨hb.1, hb.2.1, fun c hc => ?_, hb.2⟩
              rw [isFlat, Bool.and_eq_true, bne_iff_ne, bne_iff_ne]
              exact ⟨ne_of_mem_of_not_mem hc fun hmem => hl.notMem _ hmem (by decide),
                ne_of_mem_of_not_mem hc fun hmem => hl.notMem _ hmem (by decide)⟩
            have hended := h u (m ++ '\x7b' :: ((x ++ '\n' :: (l ++ '\n' :: y)) ++ '\x7d' :: r)) m _ r (by simp) hedge
              ⟨rfl, hm, hflat⟩
            rw [terminateMembers_eq_self_iff, Text.lines_append_newline, Text.lines_append_newline] at hended
            rw [terminateMembers_eq_self_iff, Text.lines_append_newline]
            intro k hk
            refine hended k ?_
            simp only [List.mem_append] at hk ⊢
            exact hk.imp_right Or.inr
    · -- It does not stand in the head of the interface.
      rcases x with _ | ⟨c, x⟩
      · exact absurd (List.cons.inj hx).1 (by decide)
      · obtain ⟨rfl, -⟩ := List.cons.inj hx
        obtain ⟨p, c, s, rfl, hc, hs⟩ := hm.split hmx
        have hword := (ha (u ++ p) c s (by simp) hs).1
        rw [hc] at hword
        cases hword

/-- A statement at the end of the text belongs to no interface. -/
theorem AllEnded.concat (hv : '\x7d' ∉ v) (h : AllEnded [] (a ++ ['\n'])) : AllEnded [] (a ++ '\n' :: v) := by
  rintro u _ m b r heq hedge ⟨rfl, hm, hb⟩
  have hcut : a ++ '\n' :: v = (u ++ (m ++ '\x7b' :: b)) ++ '\x7d' :: r := by
    rw [heq]
    simp
  have hv' : '\x7d' ∉ '\n' :: v := by
    rw [List.mem_cons, not_or]
    exact ⟨by decide, hv⟩
  obtain ⟨x, rfl, -⟩ := Text.cut_before hcut hv'
  exact h u (m ++ '\x7b' :: (b ++ '\x7d' :: (x ++ ['\n']))) m b (x ++ ['\n']) (by simp) hedge ⟨rfl, hm, hb⟩

/-! ### Default exports of functions and classes -/

theorem reserved_spec {m : Text} (hm : m ∈ reserved) : '\n' ∉ m ∧ ';' ∉ m ∧ m ≠ [] ∧ m.head? ≠ some 'e' ∧
    (∀ c ∈ m, Text.isWord c = true) := by
  have hall : ∀ m ∈ reserved, '\n' ∉ m ∧ ';' ∉ m ∧ m ≠ [] ∧ m.head? ≠ some 'e' ∧ (∀ c ∈ m, Text.isWord c = true) := by
    decide
  exact hall m hm

/-- With a statement in front of it a declaration is still one, unless its words stand apart. -/
theorem DeclaresDefault.statement (ha : Rests a) (h : DeclaresDefault (a ++ '\n' :: z)) :
    DeclaresDefault (a ++ '\n' :: (l ++ '\n' :: z)) := by
  have hno : Text.isWord '\n' = false := by decide
  obtain ⟨a', b, q, m, r, heq, hb, hq, hm, hr⟩ := h
  obtain ⟨hline, -, hne, -⟩ := reserved_spec hm
  have hbehind {v : Text} (hz : z = v ++ '\n' :: (b ++ ("export default ".toList ++ (q ++ (m ++ r)))) ∨
      z = b ++ ("export default ".toList ++ (q ++ (m ++ r)))) : DeclaresDefault (a ++ '\n' :: (l ++ '\n' :: z)) := by
    rcases hz with rfl | rfl
    · exact ⟨a ++ '\n' :: (l ++ '\n' :: v), b, q, m, r, by simp, hb, hq, hm, hr⟩
    · exact ⟨a ++ '\n' :: l, b, q, m, r, by simp, hb, hq, hm, hr⟩
  rcases List.append_eq_append_iff.1 heq with ⟨s, rfl, hs⟩ | ⟨s, rfl, hs⟩
  · rcases s with _ | ⟨c, s⟩
    · exact hbehind (v := []) (Or.inr (List.cons.inj hs).2)
    · exact hbehind (v := s) (Or.inl (List.cons.inj hs).2)
  · rcases s with _ | ⟨c, s⟩
    · exact hbehind (v := []) (Or.inr (List.cons.inj hs).2.symm)
    · obtain ⟨rfl, hrest⟩ := List.cons.inj hs
      rcases List.append_eq_append_iff.1 hrest with ⟨y, rfl, hy⟩ | ⟨y, rfl, hy⟩
      · obtain ⟨y, rfl, hy'⟩ := Text.cut_after hy (by decide)
        rcases List.append_eq_append_iff.1 hy' with ⟨x, rfl, hx⟩ | ⟨x, rfl, hx⟩
        · obtain ⟨x, rfl, rfl⟩ := Text.cut_after hx hline
          refine ⟨a', b, q, m, x ++ '\n' :: (l ++ '\n' :: z), by simp, hb, hq, hm, ?_⟩
          cases x with
          | nil => exact hno
          | cons c x => exact hr
        · rcases x with _ | ⟨c, x⟩
          · obtain ⟨c, m, rfl⟩ := List.exists_cons_of_ne_nil hne
            obtain rfl := (List.cons.inj hx).1
            simp at hline
          · obtain ⟨rfl, -⟩ := List.cons.inj hx
            rcases hq with hq | ⟨s, hq, -, hs⟩
            · simp at hq
            · obtain ⟨v, rfl, rfl⟩ := Text.cut_after hq.symm (by decide)
              rw [List.forall_mem_append] at hs
              have hword := (ha (a' ++ '\n' :: (b ++ ("export default ".toList ++ "asyn".toList))) 'c' v (by simp) hs.1).1
              exact absurd hword (by decide)
      · rcases y with _ | ⟨c, y⟩
        · exact absurd (List.cons.inj hy).1 (by decide)
        · obtain ⟨rfl, rfl⟩ := List.cons.inj hy
          rw [List.forall_mem_append, List.forall_mem_cons] at hb
          exact ⟨(a' ++ '\n' :: s) ++ '\n' :: l, y, q, m, r, by simp, hb.2.2, hq, hm, hr⟩

/-- Of two exports in one text the second begins behind the first. -/
theorem export_before {v y : Text} (hb : ∀ c ∈ b, Text.isBlank c = true)
    (heq : a ++ '\n' :: (b ++ "export default".toList) = (v ++ "export default".toList) ++ ' ' :: y) :
    ∃ x, a = (v ++ "export default".toList) ++ ' ' :: x ∧ y = x ++ '\n' :: (b ++ "export default".toList) := by
  rcases List.append_eq_append_iff.1 heq with ⟨s, hs, hy⟩ | ⟨s, rfl, hy⟩
  · rcases s with _ | ⟨c, s⟩
    · exact absurd (List.cons.inj hy).1 (by decide)
    · obtain ⟨rfl, hrest⟩ := List.cons.inj hy
      rcases List.append_eq_append_iff.1 hrest with ⟨x, rfl, hx⟩ | ⟨x, rfl, hx⟩
      · -- The only blank inside the words stands behind the first one.
        have hcut : "export".toList ++ ' ' :: "default".toList = x ++ ' ' :: y := hx
        have hx' : ' ' ∉ x := fun hmem => by
          obtain ⟨x₁, x₂, rfl, -⟩ := List.eq_append_cons_of_mem hmem
          have hcount := congrArg (List.count ' ') hcut
          simp at hcount
          omega
        obtain ⟨rfl, -⟩ := Text.cut_unique hcut (by decide) hx'
        have hends : (v ++ "export defau".toList) ++ "lt".toList = (a ++ '\n' :: (b ++ "expo".toList)) ++ "rt".toList := by
          simpa using hs
        exact absurd (List.append_inj' hends rfl).2 (by decide)
      · rw [List.forall_mem_append] at hb
        have hblank : ∀ c ∈ '\n' :: s, Text.isBlank c = true := List.forall_mem_cons.2 ⟨by decide, hb.1⟩
        obtain ⟨s', c, hc⟩ := (List.eq_nil_or_concat ('\n' :: s)).resolve_left (by simp)
        rw [hc, List.concat_eq_append, show "export default".toList = "export defaul".toList ++ ['t'] from rfl,
          ← List.append_assoc, ← List.append_assoc] at hs
        obtain rfl := List.singleton_inj.1 (List.append_inj' hs rfl).2
        exact absurd (hblank 't' (by rw [hc]; simp)) (by decide)
  · rcases s with _ | ⟨c, s⟩
    · exact absurd (List.cons.inj hy).1 (by decide)
    · obtain ⟨rfl, rfl⟩ := List.cons.inj hy
      exact ⟨s, rfl, rfl⟩

/-- A statement declares nothing, so without it the same functions and classes are declared as default export. -/
theorem DeclaresDefault.of_statement (hl : IsStatement n l) (hn : n ∉ reserved)
    (h : DeclaresDefault (a ++ '\n' :: (l ++ '\n' :: z))) : DeclaresDefault (a ++ '\n' :: z) := by
  obtain ⟨a', b, q, m, r, heq, hb, hq, hm, hr⟩ := h
  obtain ⟨b₀, b₁, rfl, hb₀, hn', hb₁, hline₁⟩ := hl
  obtain ⟨hline, hend, hne, hfirst, hword⟩ := reserved_spec hm
  have hcut : (a ++ '\n' :: (b₀ ++ ("export default ".toList ++ n))) ++ ';' :: (b₁ ++ '\n' :: z) =
      a' ++ (('\n' :: (b ++ ("export default ".toList ++ (q ++ m)))) ++ r) := by
    simpa using heq
  have hfree : ';' ∉ '\n' :: (b ++ ("export default ".toList ++ (q ++ m))) := by
    have hblank {s : Text} (hs : ∀ c ∈ s, Text.isBlank c = true) : ';' ∉ s := fun hmem => absurd (hs _ hmem) (by decide)
    have hq' : ';' ∉ q := by
      rcases hq with rfl | ⟨s, rfl, -, hs⟩
      · simp
      · rw [List.mem_append, not_or]
        exact ⟨by decide, hblank hs⟩
    simp only [List.mem_cons, List.mem_append, not_or]
    exact ⟨by decide, hblank hb, by decide, hq', hend⟩
  rcases List.append_eq_append_iff.1 hcut with ⟨s, rfl, hs⟩ | ⟨s, hs, hsr⟩
  · -- The declaration stands behind the statement.
    rcases s with _ | ⟨c, s⟩
    · exact absurd (List.cons.inj hs).1 (by decide)
    · obtain ⟨rfl, hrest⟩ := List.cons.inj hs
      obtain ⟨s, rfl, hs'⟩ := Text.cut_after hrest hline₁
      refine ⟨a ++ s, b, q, m, r, ?_, hb, hq, hm, hr⟩
      rw [hs']
      simp
  · obtain ⟨s, rfl, rfl⟩ := Text.cut_after hsr hfree
    have hs' : s.head?.any Text.isWord = false := by
      cases s with
      | nil => rfl
      | cons c s => exact hr
    -- It is not the statement that declares.
    have hother : n ≠ q ++ (m ++ s) := by
      rintro rfl
      rcases hq with rfl | ⟨x, rfl, hx, hblank⟩
      · rcases s with _ | ⟨c, s⟩
        · exact hn (by simpa using hm)
        · exact absurd ((hn'.2 c (by simp)).symm.trans hs') (by decide)
      · obtain ⟨c, x, rfl⟩ := List.exists_cons_of_ne_nil hx
        exact absurd ((hn'.2 c (by simp)).symm.trans (Text.isWord_of_isBlank (hblank c (by simp)))) (by decide)
    have hwords : (a ++ '\n' :: (b₀ ++ "export default".toList)) ++ ' ' :: n =
        ((a' ++ '\n' :: b) ++ "export default".toList) ++ ' ' :: (q ++ (m ++ s)) := by
      simpa using hs
    rcases List.append_eq_append_iff.1 hwords with ⟨y, -, hy⟩ | ⟨y, hay, hy⟩
    · rcases y with _ | ⟨c, y⟩
      · exact absurd (List.cons.inj hy).2 hother
      · obtain ⟨-, rfl⟩ := List.cons.inj hy
        exact absurd (hn'.2 ' ' (by simp)) (by decide)
    · rcases y with _ | ⟨c, y⟩
      · exact absurd (List.cons.inj hy).2.symm hother
      · obtain ⟨rfl, hy'⟩ := List.cons.inj hy
        obtain ⟨x, rfl, rfl⟩ := export_before hb₀ hay
        -- It stands in front of the statement.
        have hlast : q ++ (m ++ s) = x ++ '\n' :: (b₀ ++ ("export default ".toList ++ n)) := by
          rw [hy']
          simp
        rcases List.append_eq_append_iff.1 hlast with ⟨y, rfl, hy''⟩ | ⟨y, rfl, hy''⟩
        · obtain ⟨y, rfl, rfl⟩ := Text.cut_after hy'' hline
          refine ⟨a', b, q, m, y ++ '\n' :: z, by simp, hb, hq, hm, ?_⟩
          cases y with
          | nil => exact hs'
          | cons c y => exact hs'
        · rcases y with _ | ⟨c, y⟩
          · obtain ⟨c, m, rfl⟩ := List.exists_cons_of_ne_nil hne
            obtain rfl := (List.cons.inj hy'').1
            simp at hline
          · obtain ⟨rfl, htail⟩ := List.cons.inj hy''
            have hrest : b₀ ++ ("export default ".toList ++ n) = y ++ (m ++ s) := htail
            have hyblank : ∀ c ∈ y, Text.isBlank c = true := by
              rcases hq with hq | ⟨v, hv, -, hblank⟩
              · simp at hq
              · obtain ⟨v, -, rfl⟩ := Text.cut_after hv.symm (by decide)
                rw [List.forall_mem_append, List.forall_mem_cons] at hblank
                exact hblank.2.2
            have hskip := congrArg (List.dropWhile Text.isBlank) hrest
            rw [List.dropWhile_append_of_pos hb₀, List.dropWhile_append_of_pos hyblank] at hskip
            obtain ⟨c, m, rfl⟩ := List.exists_cons_of_ne_nil hne
            have hc : Text.isBlank c = false := by
              rw [← Bool.not_eq_true]
              exact fun h => absurd ((hword c (by simp)).symm.trans (Text.isWord_of_isBlank h)) (by decide)
            rw [List.cons_append, List.dropWhile_cons, hc] at hskip
            obtain rfl := (List.cons.inj hskip).1
            exact absurd rfl hfirst

end LayeredFix.Pass.Hardening
