import LayeredFix.Proofs.Hardening.Handling

/-!
# Seams

The repairs behind the error handling put a semicolon in at the end of a line, put a line in, or take one out. The place where
they do it is a seam of the text, and whether the first arrow function is wrapped does not depend on what stands at a seam
(`Wraps.seam`): the function is found as before, its body is closed by the same brace, and it awaits what it awaited.
-/

namespace LayeredFix.Pass.Hardening

open Pattern
open Relation (ReflTransGen)

variable {t t' k r : Text}

/-- A stretch `y` without brackets at the end of a line or of a body, which `d` ends, between `a` and `z`. No arrow
function begins inside of it, and where it begins a line neither ends nor does not. -/
structure Seam (a y : Text) (d : Char) (z : Text) : Prop where
  plain : ∀ c ∈ y, c ∉ "()\x7b\x7d".toList
  last : d = '\n' ∨ d = '\x7d'
  start : (∃ u c, a = u ++ [c] ∧ IsLast c) ∨ (y ++ [d]).head? = some '\n'
  inside : ∀ x₁ x₂ k r, y ++ [d] = x₁ ++ x₂ → x₁ ≠ [] → x₂ ≠ [] → (a ++ x₁).reverse.head?.all (· == '\n') = true →
    IsArrow k → EndsLine r → x₂ ++ z ≠ k ++ '\x7b' :: r

theorem not_isLast {c : Char} (hc : c = '\x7b' ∨ Text.isSpaceOrTab c = true) : ¬ IsLast c := by
  intro hlast
  rcases hc with rfl | hc
  · exact absurd hlast (by simp [IsLast, isTypeChar, isFlat])
  · rw [IsLast, Text.isBlank_of_isSpaceOrTab hc, Bool.not_true, Bool.and_false] at hlast
    cases hlast

/-- Where the first line of an arrow function ends does not depend on what stands at a seam behind it. -/
theorem Seam.endsLine {a a₃ y y' z : Text} {d : Char} (hs : Seam a y d z) (hs' : Seam a y' d z) (ha : ∃ p, a = p ++ '\x7b' :: a₃)
    (hr : EndsLine (a₃ ++ (y ++ d :: z))) : EndsLine (a₃ ++ (y' ++ d :: z)) := by
  obtain ⟨s, rest, heq, hsp, hrest⟩ := hr
  obtain ⟨p, rfl⟩ := ha
  have hlast (hsp : ∀ c ∈ a₃, Text.isSpaceOrTab c = true) {u : Text} {c : Char} (heq : p ++ '\x7b' :: a₃ = u ++ [c]) :
      ¬ IsLast c := by
    rcases List.eq_nil_or_concat a₃ with rfl | ⟨a₃, c', rfl⟩
    · exact not_isLast (Or.inl (List.singleton_inj.1 (List.append_inj' heq rfl).2).symm)
    · rw [List.concat_eq_append, ← List.cons_append, ← List.append_assoc] at heq
      obtain rfl := List.singleton_inj.1 (List.append_inj' heq rfl).2
      exact not_isLast (Or.inr (hsp c' (by simp)))
  have hhead (v : Text) : (v ++ d :: z).head? = (v ++ [d]).head? := by cases v <;> rfl
  have hstart (hsp : ∀ c ∈ a₃, Text.isSpaceOrTab c = true) : EndsLine (a₃ ++ (y' ++ d :: z)) := by
    rcases hs'.start with ⟨u, c, hu, hc⟩ | hnl
    · exact absurd hc (hlast hsp hu)
    · exact ⟨a₃, y' ++ d :: z, rfl, hsp, by rw [hhead, hnl]; rfl⟩
  rcases List.append_eq_append_iff.1 heq with ⟨q, rfl, -⟩ | ⟨q, rfl, hq⟩
  · exact hstart (List.forall_mem_append.1 hsp).1
  · rcases q with _ | ⟨c, q⟩
    · exact hstart (by simpa using hsp)
    · exact ⟨s, c :: (q ++ (y' ++ d :: z)), by simp, hsp, by rw [hq] at hrest; exact hrest⟩

theorem level_plain {y : Text} (hy : ∀ c ∈ y, c ∉ "()\x7b\x7d".toList) (depth : Nat) : level depth y = some depth := by
  induction y with
  | nil => rfl
  | cons c y ih =>
    rw [List.forall_mem_cons] at hy
    have hc : c ≠ '\x7b' ∧ c ≠ '\x7d' := by
      constructor <;> (rintro rfl; exact hy.1 (by decide))
    rw [level, if_neg hc.1, if_neg hc.2, ih hy.2]

/-- A seam in the first line of an arrow function stands among its parameters. -/
theorem IsArrow.seam {a k y y' : Text} {d : Char} (hk : IsArrow (a ++ (y ++ d :: k))) (hy : '(' ∉ y) (hy' : ')' ∉ y')
    (hd : d = '\n' ∨ d = '\x7d') : IsArrow (a ++ (y' ++ d :: k)) := by
  obtain ⟨i, n, p, heq, hi, hn, hp⟩ := hk
  have hfront : d ∉ i ++ ("const ".toList ++ (n ++ " = async (".toList)) := by
    have hall : ∀ c ∈ ['\n', '\x7d'], Text.isSpaceOrTab c = false ∧ Text.isWord c = false ∧ c ∉ "const ".toList ∧
        c ∉ " = async (".toList := by decide
    obtain ⟨hspace, hword, hconst, hasync⟩ := hall d (by simpa using hd)
    simp only [List.mem_append, not_or]
    exact ⟨fun h => absurd ((hi _ h).symm.trans hspace) (by decide), hconst,
      fun h => absurd ((hn.2 _ h).symm.trans hword) (by decide), hasync⟩
  have hback : d ∉ ") => ".toList := by
    rcases hd with rfl | rfl
    · decide
    · decide
  have hcut : (i ++ ("const ".toList ++ (n ++ " = async (".toList))) ++ (p ++ ") => ".toList) = (a ++ y) ++ d :: k := by
    rw [List.append_assoc a, heq]
    simp only [List.append_assoc]
  obtain ⟨m, hm, hpm⟩ := Text.cut_after hcut hfront
  obtain ⟨p₂, rfl, rfl⟩ := Text.cut_before hpm hback
  have hopen : a ++ y = (i ++ ("const ".toList ++ (n ++ " = async ".toList))) ++ '(' :: m := by
    rw [hm]
    simp
  obtain ⟨m₁, rfl, rfl⟩ := Text.cut_before hopen hy
  refine ⟨i, n, m₁ ++ (y' ++ d :: p₂), by simp, hi, hn, ?_⟩
  simp only [List.forall_mem_append, List.forall_mem_cons] at hp ⊢
  exact ⟨hp.1.1, fun c hc => bne_iff_ne.2 (ne_of_mem_of_not_mem hc hy'), hp.2⟩

/-- An arrow function that begins in front of a seam begins there whatever stands at the seam. -/
theorem Seam.arrow {u a₂ y y' z : Text} {d : Char} (hs : Seam (u ++ a₂) y d z) (hs' : Seam (u ++ a₂) y' d z)
    (hk : IsArrow k) (hr : EndsLine r) (heq : a₂ ++ (y ++ d :: z) = k ++ '\x7b' :: r) :
    (∃ a₃, a₂ = k ++ '\x7b' :: a₃ ∧ r = a₃ ++ (y ++ d :: z) ∧ EndsLine (a₃ ++ (y' ++ d :: z))) ∨
      ∃ k', IsArrow k' ∧ a₂ ++ (y' ++ d :: z) = k' ++ '\x7b' :: r := by
  have hno {c : Char} (hc : c ∈ "()\x7b\x7d".toList) {y : Text} (hs : Seam (u ++ a₂) y d z) : c ∉ y := fun hmem =>
    hs.plain c hmem hc
  have hfree : '\x7b' ∉ y ++ [d] := by
    rw [List.mem_append, List.mem_singleton, not_or]
    refine ⟨hno (by decide) hs, ?_⟩
    rintro rfl
    exact absurd hs.last (by decide)
  rcases List.append_eq_append_iff.1 heq with ⟨q, rfl, hq⟩ | ⟨q, rfl, hq⟩
  · rw [← List.singleton_append, ← List.append_assoc] at hq
    obtain ⟨k₂, rfl, rfl⟩ := Text.cut_after hq hfree
    rw [List.append_assoc, List.singleton_append] at hk
    exact Or.inr ⟨a₂ ++ (y' ++ d :: k₂), hk.seam (hno (by decide) hs) (hno (by decide) hs') hs.last, by simp⟩
  · rcases q with _ | ⟨c, a₃⟩
    · rw [List.nil_append, ← List.singleton_append (x := d), ← List.append_assoc] at hq
      rcases hy : y ++ [d] with _ | ⟨c, y₁⟩
      · simp at hy
      · rw [hy] at hq hfree
        obtain ⟨rfl, -⟩ := List.cons.inj hq
        simp at hfree
    · obtain ⟨rfl, rfl⟩ := List.cons.inj hq
      exact Or.inl ⟨a₃, rfl, rfl, hs.endsLine hs' ⟨u ++ k, by simp⟩ hr⟩

/-- Whatever stands at a seam, the body around it is closed where it was, and awaits what it awaited. -/
theorem Seam.body {a a₃ y y' z b q : Text} {d : Char} (hs : Seam a y d z) (hs' : Seam a y' d z)
    (hawait : '\x7d' ∈ d :: z → ∀ c ∈ y, c ∉ "await".toList) (heq : a₃ ++ (y ++ d :: z) = b ++ '\x7d' :: q) (hlevel : level 0 b = some 0)
    (hb : "await".toList <:+: b) :
    ∃ b' q', a₃ ++ (y' ++ d :: z) = b' ++ '\x7d' :: q' ∧ level 0 b' = some 0 ∧ "await".toList <:+: b' := by
  have hsame (v : Text) : level 0 (a₃ ++ (y ++ v)) = level 0 (a₃ ++ (y' ++ v)) := by
    simp only [level_append, level_plain hs.plain, level_plain hs'.plain]
  have hfree : '\x7d' ∉ y := fun hmem => hs.plain _ hmem (by decide)
  have hclose {x : Text} (hbx : b = a₃ ++ x) (hx : y ++ d :: z = x ++ '\x7d' :: q) :
      ∃ b' q', a₃ ++ (y' ++ d :: z) = b' ++ '\x7d' :: q' ∧ level 0 b' = some 0 ∧ "await".toList <:+: b' := by
    obtain ⟨k, rfl, hk⟩ := Text.cut_after hx hfree
    have hapart : ∀ c ∈ y, c ∉ "await".toList := hawait (by simp [hk])
    subst hbx
    rcases k with _ | ⟨c, k⟩
    · obtain ⟨rfl, rfl⟩ := List.cons.inj hk
      refine ⟨a₃ ++ (y' ++ []), z, by simp, (hsame []).symm.trans hlevel, ?_⟩
      rw [List.append_nil, Text.infix_append_iff_of_notMem (by decide) hapart] at hb
      exact hb.trans (List.prefix_append _ _).isInfix
    · obtain ⟨rfl, rfl⟩ := List.cons.inj hk
      refine ⟨a₃ ++ (y' ++ d :: k), q, by simp, (hsame _).symm.trans hlevel, ?_⟩
      have hlast : d ∉ "await".toList := by
        rcases hs.last with rfl | rfl
        · decide
        · decide
      rw [← List.singleton_append, ← List.append_assoc y, Text.infix_append_append_iff (by decide) (by simp)
        (List.forall_mem_append.2 ⟨hapart, List.forall_mem_singleton.2 hlast⟩)] at hb
      rcases hb with hb | hb
      · exact hb.trans (List.prefix_append _ _).isInfix
      · exact hb.trans ⟨a₃ ++ (y' ++ [d]), [], by simp⟩
  rcases List.append_eq_append_iff.1 heq with ⟨x, rfl, hx⟩ | ⟨x, rfl, hx⟩
  · exact hclose rfl hx
  · rcases x with _ | ⟨c, x⟩
    · exact hclose (x := []) (by simp) hx.symm
    · obtain ⟨rfl, rfl⟩ := List.cons.inj hx
      exact ⟨b, x ++ (y' ++ d :: z), by simp, hlevel, hb⟩

/-- **What is wrapped does not depend on what stands at a seam.** -/
theorem Wraps.seam {a y y' z u b q : Text} {d : Char} (hs : Seam a y d z) (hs' : Seam a y' d z)
    (hawait : '\x7d' ∈ d :: z → ∀ c ∈ y, c ∉ "await".toList) (h : Wraps (a ++ (y ++ d :: z)) u k b q) :
    ∃ u' k' b' q', Wraps (a ++ (y' ++ d :: z)) u' k' b' q' := by
  have hback {u₁ u₂ k' r' : Text} (ha : a = u₁ ++ u₂) (hk' : IsArrow k') (hr' : EndsLine r')
      (heq : u₂ ++ (y' ++ d :: z) = k' ++ '\x7b' :: r') : ∃ k r, IsArrow k ∧ EndsLine r ∧ u₂ ++ (y ++ d :: z) = k ++ '\x7b' :: r := by
    subst ha
    rcases hs'.arrow hs hk' hr' heq with ⟨a₃, rfl, rfl, hends⟩ | ⟨k, hk, hkr⟩
    · exact ⟨k', _, hk', hends, by simp⟩
    · exact ⟨k, r', hk, hr', hkr⟩
  have hfront {a₂ : Text} (ha : a = u ++ a₂) (hv : k ++ '\x7b' :: (b ++ '\x7d' :: q) = a₂ ++ (y ++ d :: z)) :
      ∃ u' k' b' q', Wraps (a ++ (y' ++ d :: z)) u' k' b' q' := by
    subst ha
    have hnone (k' r' : Text) (heq : k' ++ '\x7b' :: r' = a₂ ++ (y' ++ d :: z)) : ∀ u₁ u₂ k'' r'', u = u₁ ++ u₂ → u₂ ≠ [] →
        u₁.reverse.head?.all (· == '\n') = true → IsArrow k'' → EndsLine r'' → u₂ ++ (k' ++ '\x7b' :: r') ≠ k'' ++ '\x7b' :: r'' := by
      rintro u₁ u₂ k'' r'' rfl hne hline hk'' hr'' hcontra
      rw [heq, ← List.append_assoc] at hcontra
      obtain ⟨k₀, r₀, hk₀, hr₀, hold⟩ := hback (List.append_assoc ..) hk'' hr'' hcontra
      refine h.first u₁ u₂ k₀ r₀ rfl hne hline hk₀ hr₀ ?_
      rw [hv, ← List.append_assoc, hold]
    rcases hs.arrow hs' h.arrow h.ends hv.symm with ⟨a₃, rfl, hbody, hends⟩ | ⟨k', hk', hkr⟩
    · obtain ⟨b', q', hb', hlevel, hin⟩ := hs.body hs' hawait hbody.symm h.closed h.awaits
      rw [hb'] at hends
      have htext : k ++ '\x7b' :: (b' ++ '\x7d' :: q') = (k ++ '\x7b' :: a₃) ++ (y' ++ d :: z) := by
        rw [← hb']
        simp
      exact ⟨u, k, b', q', by rw [htext, List.append_assoc], h.line, h.arrow, hends, hnone _ _ htext, hlevel, hin⟩
    · exact ⟨u, k', b, q, by rw [← hkr, List.append_assoc], h.line, hk', h.ends, hnone _ _ hkr.symm, h.closed, h.awaits⟩
  rcases List.append_eq_append_iff.1 h.text with ⟨x, hx, hv⟩ | ⟨a₂, ha, hv⟩
  · have hv' : (y ++ [d]) ++ z = x ++ (k ++ '\x7b' :: (b ++ '\x7d' :: q)) := by
      rw [← hv]
      simp
    have hline (v : Text) (w : Text) : (a ++ ((v ++ [d]) ++ w)).reverse.head? = (d :: w).reverse.head? := by
      rcases List.eq_nil_or_concat w with rfl | ⟨w, c, rfl⟩ <;> simp
    have hbehind {x : Text} (hu : u = a ++ ((y ++ [d]) ++ x)) (hz : z = x ++ (k ++ '\x7b' :: (b ++ '\x7d' :: q))) :
        ∃ u' k' b' q', Wraps (a ++ (y' ++ d :: z)) u' k' b' q' := by
      subst hu hz
      refine ⟨a ++ ((y' ++ [d]) ++ x), k, b, q, by simp, ?_, h.arrow, h.ends, ?_, h.closed, h.awaits⟩
      · rw [hline y' x, ← hline y x]
        exact h.line
      · intro u₁ u₂ k' r' hu hne hstart hk' hr' hcontra
        have hbefore {u₃ : Text} (ha : a = u₁ ++ u₃) (hu₂ : u₂ = u₃ ++ ((y' ++ [d]) ++ x)) : False := by
          obtain ⟨k₀, r₀, hk₀, hr₀, hold⟩ := hback ha hk' hr' (by rw [← hcontra, hu₂]; simp)
          refine h.first u₁ (u₃ ++ ((y ++ [d]) ++ x)) k₀ r₀ (by rw [ha]; simp) (by simp) hstart hk₀ hr₀ ?_
          rw [← hold]
          simp
        have hafter {x₃ : Text} (hu₁ : u₁ = a ++ ((y' ++ [d]) ++ x₃)) (hx : x = x₃ ++ u₂) : False := by
          subst hu₁ hx
          refine h.first (a ++ ((y ++ [d]) ++ x₃)) u₂ k' r' (by simp) hne ?_ hk' hr' hcontra
          rw [hline y x₃, ← hline y' x₃]
          exact hstart
        rcases List.append_eq_append_iff.1 hu with ⟨x₁, rfl, hx₁⟩ | ⟨u₃, ha, hu₂⟩
        · rcases List.append_eq_append_iff.1 hx₁ with ⟨x₃, rfl, hx⟩ | ⟨x₃, hx₃, hu₂⟩
          · exact hafter rfl hx
          · rcases x₁ with _ | ⟨c, x₁⟩
            · exact hbefore (show a = (a ++ []) ++ [] by simp) (by rw [hu₂, hx₃]; simp)
            · rcases x₃ with _ | ⟨c', x₃⟩
              · exact hafter (show a ++ c :: x₁ = a ++ ((y' ++ [d]) ++ []) by rw [hx₃]; simp) (by rw [hu₂]; simp)
              · refine hs'.inside _ _ k' r' hx₃ (by simp) (by simp) hstart hk' hr' ?_
                rw [← hcontra, hu₂]
                simp
        · exact hbefore ha hu₂
    rcases List.append_eq_append_iff.1 hv' with ⟨x', rfl, hz⟩ | ⟨x₂, hx₂, hz⟩
    · exact hbehind hx hz
    · rcases x with _ | ⟨c, x⟩
      · exact hfront (show a = u ++ [] by rw [hx]; simp) hv.symm
      · rcases x₂ with _ | ⟨c', x₂⟩
        · exact hbehind (x := []) (by rw [hx, hx₂]; simp) hz.symm
        · exact absurd hz.symm (hs.inside _ _ k _ hx₂ (by simp) (by simp) (hx ▸ h.line) h.arrow h.ends)
  · exact hfront ha hv

/-- What a step puts in the place of blanks, and the blanks, are seams. -/
theorem seam_of_ends {a y z : Text} {d : Char} (ha : ∃ u c, a = u ++ [c] ∧ IsLast c) (hd : d = '\n' ∨ d = '\x7d')
    (hy : ∀ c ∈ y, c ∉ "()\x7b\x7d\n".toList) : Seam a y d z := by
  refine ⟨fun c hc hmem => hy c hc ?_, hd, Or.inl ha, fun x₁ x₂ k r heq hne₁ hne₂ hline _ _ _ => ?_⟩
  · have hsub : ∀ c ∈ "()\x7b\x7d".toList, c ∈ "()\x7b\x7d\n".toList := by decide
    exact hsub c hmem
  · -- No line begins behind a part of `y`.
    obtain ⟨x₁, c, rfl⟩ := (List.eq_nil_or_concat x₁).resolve_left hne₁
    obtain ⟨x₂, c', rfl⟩ := (List.eq_nil_or_concat x₂).resolve_left hne₂
    rw [List.concat_eq_append, List.concat_eq_append, ← List.append_assoc] at heq
    have hyeq := (List.append_inj' heq rfl).1
    obtain rfl : c = '\n' := by simpa using hline
    exact hy '\n' (by rw [hyeq]; simp) (by decide)

theorem Ends.handled (he : Ends t t') (h : Handled t) : Handled t' := by
  have hword {w : Text} (hw : Compact w) (h : Text.occursIn w t = false) : Text.occursIn w t' = false := by
    rw [← Bool.not_eq_true, Text.occursIn_iff] at h ⊢
    exact fun hin => h ((he.infix_iff hw).2 hin)
  rcases h with h | h | h | h | h
  · exact Or.inl (hword (by decide) h)
  · exact Or.inr (Or.inl (hword (by decide) h))
  · exact Or.inr (Or.inr (Or.inl (he.tryBlock h)))
  · exact Or.inr (Or.inr (Or.inr (Or.inl (he.catchWord h))))
  · refine Or.inr (Or.inr (Or.inr (Or.inr fun u k b z hw => ?_)))
    obtain ⟨a, y, d, r, rfl, rfl, ha, hy, hd⟩ := he.cut
    have hold : Seam a y d r := by
      refine seam_of_ends ha hd fun c hc hmem => ?_
      have hno : ∀ c ∈ "()\x7b\x7d\n".toList, Text.isSpaceOrTab c = false := by decide
      exact absurd ((hy c hc).symm.trans (hno c hmem)) (by decide)
    have hnew : Seam a [';'] d r := seam_of_ends ha hd (by decide)
    have hcut : a ++ ';' :: d :: r = a ++ ([';'] ++ d :: r) := rfl
    rw [hcut] at hw
    obtain ⟨u', k', b', q', hw'⟩ := hw.seam hnew hold fun _ => by decide
    exact h u' k' b' q' hw'

end LayeredFix.Pass.Hardening
