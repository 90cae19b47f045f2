import LayeredFix.Proofs.Guard.Reference

/-!
# Guarding all references

A text is guarded when no rule for host globals matches in it. The rules, applied one after the other, guard every text
(`addEnvironmentGuards_guarded`): a rule leaves none of its own references, and what it writes makes no reference of
another rule free, nor does it break one up (`absent_apply`).

The reason is that a reference ends in a dot and no test has one. So what stands before a reference is forgotten once
the reference has been read (`Breaks.alike`), guarded or not.
-/

namespace LayeredFix.Pass.Guard

open Pattern

/-! ### What a rule writes -/

/-- What a rule writes after the test is a path that ends in a dot. -/
theorem qualified_shape {r : HostRule} (hr : r ∈ hostRules) :
    ∃ path, r.qualified.toList = path ++ ['.'] ∧ ∀ c ∈ r.qualified.toList, isPath c = true := by
  have hall : ∀ r ∈ hostRules, r.qualified.toList = r.qualified.toList.dropLast ++ ['.'] ∧
      r.qualified.toList.all isPath = true := by decide
  exact ⟨_, (hall r hr).1, List.all_eq_true.1 (hall r hr).2⟩

/-- A test has no dot, and a blank at its end. -/
theorem existenceTest_shape {r : HostRule} (hr : r ∈ hostRules) :
    ∃ u, existenceTest r.host = u ++ [' '] ∧ '.' ∉ u := by
  have hall : ∀ r ∈ hostRules, existenceTest r.host = (existenceTest r.host).dropLast ++ [' '] ∧
      '.' ∉ (existenceTest r.host).dropLast := by decide
  exact ⟨_, hall r hr⟩

theorem dot_breaks : Breaks '.' := by
  intro r hr hmem
  obtain ⟨u, hu, hdot⟩ := existenceTest_shape hr
  rw [hu] at hmem
  simp [hdot] at hmem

/-- If what a rule writes begins with the reference of another rule, the two test the same global. -/
theorem host_eq_of_prefix {r r' : HostRule} (hr : r ∈ hostRules) (hr' : r' ∈ hostRules) {t : Text}
    (h : r.reference.toList <+: r'.qualified.toList ++ t) : r.host = r'.host := by
  have hall : ∀ r ∈ hostRules, ∀ r' ∈ hostRules, r.reference.toList <+: r'.qualified.toList ∨
      r'.qualified.toList <+: r.reference.toList → r.host = r'.host := by decide
  exact hall r hr r' hr' (List.prefix_or_prefix_of_prefix h (List.prefix_append _ t))

/-- No rule matches where a path has begun. -/
theorem no_hit_in_path {r : HostRule} (hr : r ∈ hostRules) {c : Char} (hc : isPath c = true) {b : Text}
    (t : Text) : r.pattern.hit? (c :: b) t = none := by
  rw [HostRule.hit?_eq_none_iff hr]
  intro hfree
  have hnot := hfree.2 c rfl
  rw [hc] at hnot
  cases hnot

/-- Right after the test of a rule no rule matches what is written. -/
theorem no_hit_after_test {r r' : HostRule} (hr : r ∈ hostRules) (hr' : r' ∈ hostRules) (rest behind : Text) :
    r.pattern.hit? ((existenceTest r'.host).reverse ++ behind) (r'.qualified.toList ++ rest) = none := by
  rw [HostRule.hit?_eq_none_iff hr]
  rintro hfree x ⟨tail, rfl, -⟩ hxt
  have hhost : r.host = r'.host := host_eq_of_prefix hr hr' ((List.prefix_append _ tail).trans hxt)
  exact hfree.1 (hhost ▸ List.prefix_append _ behind)

/-- No rule matches inside of what a rule has written. -/
theorem no_hit_in_guarded {r r' : HostRule} (hr : r ∈ hostRules) (hr' : r' ∈ hostRules) {u w : Text}
    (hg : r'.guarded = u ++ w) (hw : w ≠ []) (rest behind : Text) :
    r.pattern.hit? (u.reverse ++ behind) (w ++ rest) = none := by
  obtain ⟨test, htest, hdot⟩ := existenceTest_shape hr'
  obtain ⟨-, -, hpath⟩ := qualified_shape hr'
  rcases List.append_eq_append_iff.1 (show existenceTest r'.host ++ r'.qualified.toList = u ++ w from hg) with
    ⟨q, rfl, hq⟩ | ⟨w', hu, rfl⟩
  · -- The place lies in the path behind the test.
    rcases List.eq_nil_or_concat q with rfl | ⟨q, c, rfl⟩
    · rw [List.append_nil, ← List.nil_append w, ← hq]
      exact no_hit_after_test hr hr' rest behind
    · have hc : isPath c = true := hpath c (by simp [hq])
      simpa using no_hit_in_path hr hc (b := q.reverse ++ (existenceTest r'.host).reverse ++ behind) (w ++ rest)
  · -- The place lies in the test, of which a blank is still to come.
    rcases List.eq_nil_or_concat w' with rfl | ⟨w', c, rfl⟩
    · rw [List.append_nil] at hu
      rw [← hu, List.nil_append]
      exact no_hit_after_test hr hr' rest behind
    · rw [htest, List.concat_eq_append, ← List.append_assoc] at hu
      obtain ⟨rfl, hc⟩ := List.append_inj' hu rfl
      obtain rfl : ' ' = c := List.singleton_inj.1 hc
      rw [HostRule.hit?_eq_none_iff hr]
      intro _ x hx hxt
      rw [List.concat_eq_append, List.append_assoc, List.append_assoc, List.singleton_append] at hxt
      exact not_refers_of_dotless hr hx (fun h => hdot (List.mem_append_right _ h)) (by decide) hxt

/-! ### One rule -/

/-- A text that begins with a path after the replacement did so before, if a path had begun already. -/
theorem prefix_of_replaceFrom {r : HostRule} (hr : r ∈ hostRules) {f : Hit → Text} {path : Text} {last : Char}
    (hpath : ∀ c ∈ path, isPath c = true) {d : Char} (hd : isPath d = true) {behind t : Text}
    (h : path ++ [last] <+: r.pattern.replaceFrom f (d :: behind) t) : path ++ [last] <+: t := by
  induction path generalizing d behind t with
  | nil =>
    cases t with
    | nil => simp at h
    | cons c t =>
      rw [replaceFrom_cons_of_none (no_hit_in_path hr hd _)] at h
      obtain ⟨rfl, -⟩ := List.cons_prefix_cons.1 h
      exact List.cons_prefix_cons.2 ⟨rfl, List.nil_prefix⟩
  | cons e path ih =>
    rw [List.forall_mem_cons] at hpath
    cases t with
    | nil => simp at h
    | cons c t =>
      rw [replaceFrom_cons_of_none (no_hit_in_path hr hd _)] at h
      obtain ⟨rfl, hrest⟩ := List.cons_prefix_cons.1 h
      exact List.cons_prefix_cons.2 ⟨rfl, ih hpath.2 hpath.1 hrest⟩

/-- A reference that begins with a character that is copied stood there before. -/
theorem refers_of_copied {r r' : HostRule} (hr : r ∈ hostRules) (hr' : r' ∈ hostRules) {f : Hit → Text} {x : Text}
    (hx : r.Refers x) {c : Char} {behind t : Text}
    (h : x <+: c :: r'.pattern.replaceFrom f (c :: behind) t) : x <+: c :: t := by
  obtain ⟨front, last, rfl, hpath, hdot, -⟩ := hx.shape hr
  cases front with
  | nil => cases hdot
  | cons d front =>
    rw [List.forall_mem_cons] at hpath
    obtain ⟨rfl, hrest⟩ := List.cons_prefix_cons.1 h
    exact List.cons_prefix_cons.2 ⟨rfl, prefix_of_replaceFrom hr' hpath.2 hpath.1 hrest⟩

theorem no_hit_in_replaceFrom {r r' : HostRule} (hr : r ∈ hostRules) (hr' : r' ∈ hostRules) {behind t : Text} :
    ∀ {behind' : Text}, Alike behind behind' →
      (r = r' ∨ ∀ u v, t = u ++ v → r.pattern.hit? (u.reverse ++ behind) v = none) →
      ∀ u v, r'.pattern.replaceFrom (fun _ => r'.guarded) behind t = u ++ v →
        r.pattern.hit? (u.reverse ++ behind') v = none := by
  fun_induction Pattern.replaceFrom r'.pattern (fun _ => r'.guarded) behind t with
  | case1 behind =>
    intro b' hb h u v ht
    obtain ⟨rfl, rfl⟩ := List.append_eq_nil_iff.1 ht.symm
    rw [HostRule.hit?_eq_none_iff hr]
    intro _ x hx hxt
    obtain ⟨front, last, rfl, -⟩ := hx.shape hr
    simp at hxt
  | case2 behind c t hn ih =>
    intro b' hb h u v ht
    cases u with
    | nil =>
      obtain rfl := ht
      rw [HostRule.hit?_eq_none_iff hr]
      intro hfree x hx hxt
      have hfree' : r.Free behind := (hb.free hr).2 hfree
      have hxt' : x <+: c :: t := refers_of_copied hr hr' hx hxt
      have hnone : r.pattern.hit? behind (c :: t) = none := by
        rcases h with rfl | h
        · exact hn
        · exact h [] (c :: t) rfl
      exact (HostRule.hit?_eq_none_iff hr).1 hnone hfree' x hx hxt'
    | cons d u =>
      obtain ⟨rfl, hrest⟩ := List.cons.inj ht
      have hnext := ih (hb.append [c]) (h.imp_right fun h u v ht => by
        simpa using h (c :: u) v (by rw [ht, List.cons_append])) u v hrest
      simpa using hnext
  | case3 behind c t h hh hempty ih =>
    obtain ⟨word, hword, -⟩ := HostRule.reference_eq hr'
    rw [HostRule.text_of_hit? hr' hh, hword] at hempty
    simp at hempty
  | case4 behind c t h hh hne ih =>
    intro b' hb hold u v ht
    obtain ⟨word, hword, -⟩ := HostRule.reference_eq hr'
    obtain ⟨path, hpath, -⟩ := qualified_shape hr'
    have hcut : c :: t = h.text ++ t.drop (h.text.length - 1) :=
      text_hit?_cons hh fun hnil => hne (List.isEmpty_iff.2 hnil)
    -- Behind what is written: the dot at its end makes up for all that stands before.
    have hbehind (u' : Text) (hu : u = r'.guarded ++ u')
        (hrest : r'.pattern.replaceFrom (fun _ => r'.guarded) (h.text.reverse ++ behind)
          (t.drop (h.text.length - 1)) = u' ++ v) : r.pattern.hit? (u.reverse ++ b') v = none := by
      have halike : Alike (h.text.reverse ++ behind) (r'.guarded.reverse ++ b') := by
        rw [HostRule.text_of_hit? hr' hh, hword, HostRule.guarded, hpath]
        simpa using dot_breaks.alike (word.reverse ++ behind) _
      have hnext := ih halike (hold.imp_right fun h' u v ht => by
        simpa using h' (h.text ++ u) v (by rw [hcut, ht, List.append_assoc])) u' v hrest
      simpa [hu] using hnext
    rcases List.append_eq_append_iff.1 ht with ⟨u', hu, hrest⟩ | ⟨w, hw, rfl⟩
    · exact hbehind u' hu hrest
    · by_cases hwnil : w = []
      · exact hbehind [] (by simp [hw, hwnil]) (by simp [hwnil])
      · exact no_hit_in_guarded hr hr' hw hwnil _ b'

/-- **A rule leaves none of its own references, and makes none of another rule.** -/
theorem absent_apply {r r' : HostRule} (hr : r ∈ hostRules) (hr' : r' ∈ hostRules) {t : Text}
    (h : r = r' ∨ r.pattern.Absent t) : r.pattern.Absent (r'.apply t) := by
  intro u v ht
  rw [HostRule.apply, replace_eq] at ht
  have hnone := no_hit_in_replaceFrom hr hr' (Alike.refl []) (h.imp_right fun h u v ht => by
    simpa using h u v ht) u v ht
  simpa using hnone

/-! ### All rules -/

/-- No rule matches in the text. -/
def Guarded (t : Text) : Prop := ∀ r ∈ hostRules, r.pattern.Absent t

/-- A rule whose reference a text does not hold has nothing to guard in it. -/
theorem absent_of_not_infix {r : HostRule} (hr : r ∈ hostRules) {t : Text} (h : ¬ r.reference.toList <:+: t) :
    r.pattern.Absent t := by
  rintro u v rfl
  rw [HostRule.hit?_eq_none_iff hr]
  rintro - x ⟨w, rfl, -⟩ hpre
  exact h (((List.prefix_append _ _).trans hpre).isInfix.trans (List.suffix_append _ _).isInfix)

theorem absent_foldl_apply {r : HostRule} (hr : r ∈ hostRules) {rules : List HostRule}
    (hrules : ∀ r' ∈ rules, r' ∈ hostRules) {t : Text} (h : r ∈ rules ∨ r.pattern.Absent t) :
    r.pattern.Absent (rules.foldl (fun t r' => r'.apply t) t) := by
  induction rules generalizing t with
  | nil =>
    rcases h with h | h
    · cases h
    · exact h
  | cons r' rules ih =>
    rw [List.forall_mem_cons] at hrules
    refine ih hrules.2 ?_
    rcases h with h | h
    · rcases List.mem_cons.1 h with rfl | h
      · exact Or.inr (absent_apply hr hr (Or.inl rfl))
      · exact Or.inl h
    · exact Or.inr (absent_apply hr hrules.1 (Or.inr h))

/-- **The rules guard every text.** -/
theorem addEnvironmentGuards_guarded (t : Text) : Guarded (addEnvironmentGuards t) :=
  fun _ hr => absent_foldl_apply hr (fun _ h => h) (Or.inl hr)

/-- A guarded reference begins with a word that a blank ends, and ends in a dot. -/
theorem guarded_shape {r : HostRule} (hr : r ∈ hostRules) :
    ∃ body, r.guarded = "typeof".toList ++ ' ' :: (body ++ ['.']) ∧ '(' ∉ body ∧ ';' ∉ body := by
  have hall : ∀ r ∈ hostRules, r.guarded = "typeof".toList ++ ' ' :: ((r.guarded.drop 7).dropLast ++ ['.']) ∧
      '(' ∉ (r.guarded.drop 7).dropLast ∧ ';' ∉ (r.guarded.drop 7).dropLast := by decide +kernel
  exact ⟨_, hall r hr⟩

/-- A word that stands apart from each guard is not put in. -/
theorem infix_of_infix_addEnvironmentGuards {w : Text} {d : Char}
    (hw : ∀ r ∈ hostRules, ∀ matched, Detached w d matched r.guarded) {t : Text}
    (h : w ++ [d] <:+: addEnvironmentGuards t) : w ++ [d] <:+: t := by
  have hfold (rules : List HostRule) (hrules : ∀ r ∈ rules, r ∈ hostRules) (t : Text)
      (h : w ++ [d] <:+: rules.foldl (fun t r => r.apply t) t) : w ++ [d] <:+: t := by
    induction rules generalizing t with
    | nil => exact h
    | cons r rules ih =>
      rw [List.forall_mem_cons] at hrules
      exact infix_of_infix_replace (fun _ _ hit _ => hw r hrules.1 hit.text) (ih hrules.2 _ h)
  exact hfold hostRules (fun _ h => h) t h

/-- **A guarded text is left alone.** -/
theorem addEnvironmentGuards_of_guarded {t : Text} (h : Guarded t) : addEnvironmentGuards t = t := by
  have hfold (rules : List HostRule) (hrules : ∀ r ∈ rules, r ∈ hostRules) :
      rules.foldl (fun t r => r.apply t) t = t := by
    induction rules with
    | nil => rfl
    | cons r rules ih =>
      rw [List.forall_mem_cons] at hrules
      rw [List.foldl_cons, show r.apply t = t from replace_of_absent (h r hrules.1)]
      exact ih hrules.2
  exact hfold hostRules fun _ h => h

end LayeredFix.Pass.Guard
