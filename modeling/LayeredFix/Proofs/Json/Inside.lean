import LayeredFix.Proofs.Json.Outline
import LayeredFix.Proofs.Text.Replacing

/-!
# Changes inside of strings

The outline of a text does not show what stands inside of its strings, so a change there keeps it. A character that
may stand nowhere else (`IsInner`) tells that it stands inside of a string, and a stretch without quotes and backslashes
next to it does so too (`outline_of_free`).

An exchange of stretches is `Mild` for some marks, such as the quote, if it takes none of them away and keeps the
outline unless it adds some. Mild exchanges side by side or one after the other are a mild exchange. A pass is `Tame` if
all it does to a text is a mild exchange; a replacement is tame if it is mild at each match (`tame_replace`).
-/

namespace LayeredFix.Json

open Pattern

/-! ### Silent stretches -/

/-- A stretch that may stand inside of a string and does not show there. -/
def IsSilent (w : Text) : Prop := outline .inside w = some (.inside, [])

theorem IsSilent.outline {w : Text} (hw : IsSilent w) (t : Text) : outline .inside (w ++ t) = outline .inside t := by
  rw [outline_append, show Json.outline .inside w = _ from hw]
  simp

theorem IsSilent.append {w w' : Text} (hw : IsSilent w) (hw' : IsSilent w') : IsSilent (w ++ w') :=
  (hw.outline w').trans hw'

/-- Plain characters are silent. -/
theorem isSilent_of_plain {w : Text} (hw : ∀ c ∈ w, IsPlain c) : IsSilent w := by
  induction w with
  | nil => rfl
  | cons c w ih =>
    rw [List.forall_mem_cons] at hw
    have hshows : Spot.inside.shows c = false := decide_eq_false hw.1.1
    rw [IsSilent, outline_cons_of_step (step_plain hw.1), hshows, show outline .inside w = _ from ih hw.2]
    rfl

/-- Where a text has an outline, a stretch without quotes and backslashes inside of a string is plain, ... -/
theorem plain_of_free {w t : Text} {r : Spot × Text} (hquote : '"' ∉ w) (hback : '\\' ∉ w)
    (h : outline .inside (w ++ t) = some r) : ∀ c ∈ w, IsPlain c := by
  obtain ⟨e, k⟩ := r
  induction w generalizing k with
  | nil => simp
  | cons c w ih =>
    rw [List.mem_cons, not_or] at hquote hback
    obtain ⟨s', k', hstep, ht, -⟩ := outline_cons_iff.1 h
    rw [Spot.step, if_neg (Ne.symm hquote.1), if_neg (Ne.symm hback.1)] at hstep
    split at hstep
    · cases hstep
    · rename_i hlow
      obtain rfl := Option.some.inj hstep
      exact List.forall_mem_cons.2 ⟨⟨Ne.symm hquote.1, Ne.symm hback.1, Nat.not_lt.1 hlow⟩, ih hquote.2 hback.2 _ ht⟩

/-- ... so it is silent. -/
theorem outline_of_free {w t : Text} {r : Spot × Text} (hquote : '"' ∉ w) (hback : '\\' ∉ w)
    (h : outline .inside (w ++ t) = some r) : IsSilent w ∧ outline .inside t = some r := by
  have hsilent := isSilent_of_plain (plain_of_free hquote hback h)
  exact ⟨hsilent, by rwa [hsilent.outline] at h⟩

/-! ### Characters that stand inside of strings only -/

/-- A character that stands nowhere but inside of strings, and in no escape. -/
def IsInner (c : Char) : Prop := IsPlain c ∧ isOuter c = false

theorem outer_of_mem_escapes : ∀ e ∈ escapes, ∀ c ∈ e, c = '"' ∨ c = '\\' ∨ isOuter c = true := by decide

theorem blank_of_mem_escapes : ∀ e ∈ escapes, ∀ c ∈ e, Text.isBlank c = false := by decide

theorem IsInner.notMem_escape {c : Char} (hc : IsInner c) : ∀ e ∈ escapes, c ∉ e := by
  intro e he hce
  rcases outer_of_mem_escapes e he c hce with hq | hb | ho
  · exact hc.1.1 hq
  · exact hc.1.2.1 hb
  · rw [hc.2] at ho
    cases ho

theorem blank_notMem_escape {c : Char} (hc : Text.isBlank c = true) : ∀ e ∈ escapes, c ∉ e := by
  intro e he hce
  rw [blank_of_mem_escapes e he c hce] at hc
  cases hc

/-- In an escape stand only characters of escapes. -/
theorem step_escape {w : Text} {c : Char} {s : Spot} (h : (Spot.escape w).step c = some s) : ∃ e ∈ escapes, c ∈ e := by
  rw [Spot.step] at h
  have hlast : c ∈ w ++ [c] := by simp
  split at h
  · rename_i hend
    exact ⟨_, List.contains_iff_mem.1 hend, hlast⟩
  · split at h
    · rename_i hany
      obtain ⟨e, he, hpre⟩ := List.any_eq_true.1 hany
      exact ⟨e, he, (List.isPrefixOf_iff_prefix.1 hpre).subset hlast⟩
    · cases h

/-- In front of a character that stands in no escape no escape is left open. -/
theorem ne_escape {s : Spot} {c : Char} {t : Text} {r : Spot × Text} (hc : ∀ e ∈ escapes, c ∉ e)
    (h : outline s (c :: t) = some r) (w : Text) : s ≠ .escape w := by
  rintro rfl
  obtain ⟨last, k⟩ := r
  obtain ⟨s', k', hstep, -⟩ := outline_cons_iff.1 h
  obtain ⟨e, he, hce⟩ := step_escape hstep
  exact hc e he hce

/-- Such a character tells that it stands inside of a string. -/
theorem outline_inner {s : Spot} {c : Char} {t : Text} {r : Spot × Text} (hc : IsInner c)
    (h : outline s (c :: t) = some r) : s = .inside ∧ outline .inside t = some r := by
  obtain ⟨e, k⟩ := r
  obtain ⟨s', k', hstep, ht, rfl⟩ := outline_cons_iff.1 h
  cases s with
  | outside =>
    rw [Spot.step, if_neg hc.1.1, hc.2] at hstep
    cases hstep
  | inside =>
    rw [step_plain hc.1] at hstep
    obtain rfl := Option.some.inj hstep
    have hshows : Spot.inside.shows c = false := decide_eq_false hc.1.1
    rw [hshows]
    exact ⟨rfl, ht⟩
  | escape w => exact absurd rfl (ne_escape hc.notMem_escape h w)

/-- Without a quote a text stays outside of strings. -/
theorem outline_outside_of_free {w : Text} (hw : '"' ∉ w) {s : Spot} {k : Text}
    (h : outline .outside w = some (s, k)) : s = .outside := by
  induction w generalizing k with
  | nil => exact (Prod.mk.inj (Option.some.inj h)).1.symm
  | cons c w ih =>
    rw [List.mem_cons, not_or] at hw
    obtain ⟨s', k', hstep, ht, rfl⟩ := outline_cons_iff.1 h
    rw [Spot.step, if_neg (Ne.symm hw.1)] at hstep
    split at hstep
    · obtain rfl := Option.some.inj hstep
      exact ih hw.2 ht
    · cases hstep

/-- Without a quote a text that begins inside of a string ends in it, and shows nothing. -/
theorem outline_string_of_free {w : Text} (hw : '"' ∉ w) {s e : Spot} {k : Text} (hs : s ≠ .outside)
    (h : outline s w = some (e, k)) : e ≠ .outside ∧ k = [] := by
  induction w generalizing s k with
  | nil =>
    obtain ⟨rfl, rfl⟩ := Prod.mk.inj (Option.some.inj h)
    exact ⟨hs, rfl⟩
  | cons c w ih =>
    rw [List.mem_cons, not_or] at hw
    obtain ⟨s', k', hstep, ht, rfl⟩ := outline_cons_iff.1 h
    have hnext : s' ≠ .outside := by
      rintro rfl
      cases s with
      | outside => exact hs rfl
      | inside =>
        rw [Spot.step, if_neg (Ne.symm hw.1)] at hstep
        split at hstep
        · cases hstep
        · split at hstep <;> cases hstep
      | escape w =>
        rw [Spot.step] at hstep
        split at hstep
        · cases hstep
        · split at hstep <;> cases hstep
    have hshows : s.shows c = false := by
      cases s with
      | outside => exact absurd rfl hs
      | inside => exact decide_eq_false (Ne.symm hw.1)
      | escape w => rfl
    obtain ⟨he, rfl⟩ := ih hw.2 hnext ht
    rw [hshows]
    exact ⟨he, rfl⟩

/-! ### Pieces of a text -/

theorem outline_append_eq_some {s : Spot} {t u : Text} {r : Spot × Text} :
    outline s (t ++ u) = some r ↔ ∃ s' k k', outline s t = some (s', k) ∧ outline s' u = some (r.1, k') ∧ r.2 = k ++ k' := by
  obtain ⟨e, k⟩ := r
  rw [outline_append, Option.bind_eq_some_iff]
  constructor
  · rintro ⟨⟨s', k₁⟩, ht, h⟩
    obtain ⟨⟨e', k₂⟩, hu, heq⟩ := Option.map_eq_some_iff.1 h
    obtain ⟨rfl, rfl⟩ := Prod.mk.inj heq
    exact ⟨s', k₁, k₂, ht, hu, rfl⟩
  · rintro ⟨s', k₁, k₂, ht, hu, rfl⟩
    exact ⟨(s', k₁), ht, by rw [hu]; rfl⟩

/-! ### Mild exchanges -/

/-- An exchange of `u` for `u'` that makes none of the marks rarer, and keeps the outline if it makes none of them more
frequent. -/
structure Mild (marks : List Char) (u u' : Text) : Prop where
  /-- No mark gets rarer. -/
  grows : ∀ d ∈ marks, u.count d ≤ u'.count d
  /-- If no mark gets more frequent, the outline stays. -/
  keeps : (∀ d ∈ marks, u'.count d ≤ u.count d) → ∀ s r, outline s u = some r → outline s u' = some r

variable {marks : List Char} {u u' : Text}

theorem Mild.refl (marks : List Char) (u : Text) : Mild marks u u := ⟨fun _ _ => Nat.le_refl _, fun _ _ _ h => h⟩

theorem Mild.trans {u'' : Text} (h : Mild marks u u') (h' : Mild marks u' u'') : Mild marks u u'' where
  grows d hd := (h.grows d hd).trans (h'.grows d hd)
  keeps hc s r hu :=
    h'.keeps (fun d hd => (hc d hd).trans (h.grows d hd)) s r
      (h.keeps (fun d hd => (h'.grows d hd).trans (hc d hd)) s r hu)

/-- Exchanges side by side. -/
theorem Mild.append {v v' : Text} (hu : Mild marks u u') (hv : Mild marks v v') : Mild marks (u ++ v) (u' ++ v') where
  grows d hd := by
    rw [List.count_append, List.count_append]
    exact Nat.add_le_add (hu.grows d hd) (hv.grows d hd)
  keeps hc s r h := by
    have hparts (d : Char) (hd : d ∈ marks) : u'.count d ≤ u.count d ∧ v'.count d ≤ v.count d := by
      have hle := hc d hd
      have hleft := hu.grows d hd
      have hright := hv.grows d hd
      rw [List.count_append, List.count_append] at hle
      omega
    obtain ⟨s', k, k', hleft, hright, hr⟩ := outline_append_eq_some.1 h
    have hleft' := hu.keeps (fun d hd => (hparts d hd).1) _ _ hleft
    have hright' := hv.keeps (fun d hd => (hparts d hd).2) _ _ hright
    exact outline_append_eq_some.2 ⟨s', k, k', hleft', hright', hr⟩

/-- Something else may be written in the place of a stretch without marks. -/
theorem mild_of_count_eq_zero (hzero : ∀ d ∈ marks, u.count d = 0)
    (hkeeps : (∀ d ∈ marks, d ∉ u') → ∀ s r, outline s u = some r → outline s u' = some r) : Mild marks u u' where
  grows d hd := by
    rw [hzero d hd]
    exact Nat.zero_le _
  keeps hc := hkeeps fun d hd => List.count_eq_zero.1 (Nat.le_zero.1 ((hc d hd).trans_eq (hzero d hd)))

/-- Where a mark is added anything may be written. -/
theorem mild_of_adds (hgrows : ∀ d ∈ marks, u.count d ≤ u'.count d) (hadds : ∃ d ∈ marks, u.count d < u'.count d) :
    Mild marks u u' := by
  obtain ⟨d, hd, hlt⟩ := hadds
  exact ⟨hgrows, fun hc => absurd (hc d hd) (Nat.not_le.2 hlt)⟩

/-! ### Tame passes -/

/-- A pass that does nothing to a text but a mild exchange. -/
def Tame (marks : List Char) (pass : Text → Text) : Prop := ∀ t, Mild marks t (pass t)

/-- The marks that code adds: the quote, and the end of a statement. -/
def codeMarks : List Char := ['"', ';']

theorem Tame.comp {f g : Text → Text} (hf : Tame marks f) (hg : Tame marks g) : Tame marks fun t => g (f t) :=
  fun t => (hf t).trans (hg (f t))

theorem tame_foldl {α : Type} {passes : List α} {run : α → Text → Text} (h : ∀ x ∈ passes, Tame marks (run x)) :
    Tame marks fun t => passes.foldl (fun t x => run x t) t := by
  induction passes with
  | nil => exact Mild.refl marks
  | cons x passes ih =>
    rw [List.forall_mem_cons] at h
    exact h.1.comp (ih h.2)

variable {p : Pattern} {f : Hit → Text}

theorem mild_replaceFrom (h : ∀ behind t hit, p.hit? behind t = some hit → Mild marks hit.text (f hit))
    (behind t : Text) : Mild marks t (p.replaceFrom f behind t) := by
  fun_induction replaceFrom p f behind t with
  | case1 => exact Mild.refl marks []
  | case2 behind c t hn ih => exact (Mild.refl marks [c]).append ih
  | case3 behind c t hit hh hempty ih => exact (Mild.refl marks [c]).append ih
  | case4 behind c t hit hh hne ih =>
    have hmild := (h _ _ _ hh).append ih
    rwa [← text_hit?_cons hh fun hnil => hne (List.isEmpty_iff.2 hnil)] at hmild

/-- **A replacement is tame** if it is mild at each match. -/
theorem tame_replace (h : ∀ behind t hit, p.hit? behind t = some hit → Mild marks hit.text (f hit)) :
    Tame marks (p.replace f) := by
  intro t
  rw [replace_eq]
  exact mild_replaceFrom h [] t

end LayeredFix.Json
