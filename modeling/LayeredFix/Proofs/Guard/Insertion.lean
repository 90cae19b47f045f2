import LayeredFix.Proofs.Guard.Settling

/-!
# What the guards add to a text

The rules for host globals are applied one after the other, each to what the ones before it wrote. What they do together
can be read off the text they are given, in one look at each place: in front of each reference that is free there goes
the test of its rule (`addEnvironmentGuards_eq_written`). A later rule does not match in what an earlier one wrote, and
reads the rest as it was, since what is put in stands in front of a path (`apply_written`).

So a text is found again in the guarded one by leaving out what was put in (`addEnvironmentGuards_inserts`).
-/

namespace LayeredFix.Pass.Guard

open Pattern

/-- What a rule puts in front of a reference: the test, and the window in front of its members. -/
def HostRule.insertion (r : HostRule) : Text :=
  existenceTest r.host ++ if r.reference ∈ ["location.", "history."] then "window.".toList else []

theorem HostRule.guarded_eq {r : HostRule} (hr : r ∈ hostRules) : r.guarded = r.insertion ++ r.reference.toList := by
  have hall : ∀ r ∈ hostRules, r.guarded = r.insertion ++ r.reference.toList := by decide +kernel
  exact hall r hr

/-- A piece of a guarded text: a character that was there, or what a rule put in. -/
inductive Mark where
  /-- A character that was there. -/
  | kept (c : Char)
  /-- What a rule put in. -/
  | put (r : HostRule)

/-- A piece before anything was put in. -/
def Mark.original : Mark → Text
  | kept c => [c]
  | put _ => []

/-- A piece as it is written. -/
def Mark.written : Mark → Text
  | kept c => [c]
  | put r => r.insertion

/-- The text without what was put in. -/
def original (ms : List Mark) : Text := ms.flatMap Mark.original

/-- The text with what was put in. -/
def written (ms : List Mark) : Text := ms.flatMap Mark.written

@[simp] theorem original_nil : original [] = [] := rfl

@[simp] theorem original_kept (c : Char) (ms : List Mark) : original (.kept c :: ms) = c :: original ms := rfl

@[simp] theorem original_put (r : HostRule) (ms : List Mark) : original (.put r :: ms) = original ms := rfl

@[simp] theorem written_nil : written [] = [] := rfl

@[simp] theorem written_kept (c : Char) (ms : List Mark) : written (.kept c :: ms) = c :: written ms := rfl

@[simp] theorem written_put (r : HostRule) (ms : List Mark) : written (.put r :: ms) = r.insertion ++ written ms := rfl

/-- The first of some rules that matches at a place. -/
def ruleAt (rules : List HostRule) (behind t : Text) : Option HostRule :=
  rules.find? fun r => (r.pattern.hit? behind t).isSome

/-- The pieces of a text with what some rules put in, where `behind` has been read. Each place is looked at once, in the
text as it was. -/
def marksFrom (rules : List HostRule) (behind : Text) : Text → List Mark
  | [] => []
  | c :: t =>
    match ruleAt rules behind (c :: t) with
    | none => .kept c :: marksFrom rules (c :: behind) t
    | some r => .put r :: .kept c :: marksFrom rules (c :: behind) t

section
variable {rules : List HostRule} {behind : Text}

theorem marksFrom_of_none {c : Char} {t : Text} (h : ruleAt rules behind (c :: t) = none) :
    marksFrom rules behind (c :: t) = .kept c :: marksFrom rules (c :: behind) t := by
  rw [marksFrom, h]

theorem marksFrom_of_some {c : Char} {t : Text} {r : HostRule} (h : ruleAt rules behind (c :: t) = some r) :
    marksFrom rules behind (c :: t) = .put r :: .kept c :: marksFrom rules (c :: behind) t := by
  rw [marksFrom, h]

/-- Leaving out what was put in gives the text back. -/
theorem original_marksFrom (t : Text) : original (marksFrom rules behind t) = t := by
  induction t generalizing behind with
  | nil => rfl
  | cons c t ih =>
    rcases h : ruleAt rules behind (c :: t) with _ | r
    · rw [marksFrom_of_none h, original_kept, ih]
    · rw [marksFrom_of_some h, original_put, original_kept, ih]

theorem written_marksFrom_nil (t : Text) : written (marksFrom [] behind t) = t := by
  induction t generalizing behind with
  | nil => rfl
  | cons c t ih => rw [marksFrom_of_none rfl, written_kept, ih]

end

/-! ### Paths -/

section
variable {rules : List HostRule} (hrules : ∀ r ∈ rules, r ∈ hostRules)
include hrules

/-- Nothing is put in where a path has begun. -/
theorem ruleAt_in_path {d : Char} (hd : isPath d = true) (behind t : Text) : ruleAt rules (d :: behind) t = none := by
  refine List.find?_eq_none.2 fun r hr => ?_
  rw [no_hit_in_path (hrules r hr) hd]
  exact Bool.false_ne_true

/-- A path that has begun is copied. -/
theorem written_path {path : Text} (hpath : ∀ c ∈ path, isPath c = true) {d : Char} (hd : isPath d = true)
    (behind rest : Text) :
    written (marksFrom rules (d :: behind) (path ++ rest)) =
      path ++ written (marksFrom rules (path.reverse ++ d :: behind) rest) := by
  induction path generalizing d behind with
  | nil => rfl
  | cons c path ih =>
    rw [List.forall_mem_cons] at hpath
    rw [List.cons_append, marksFrom_of_none (ruleAt_in_path hrules hd behind _), written_kept, ih hpath.2 hpath.1]
    simp

/-- A path with one more character stands ahead of what is written just if it stood ahead before. -/
theorem prefix_written_iff {path : Text} (hpath : ∀ c ∈ path, isPath c = true) {last d : Char} (hd : isPath d = true)
    (behind t : Text) : path ++ [last] <+: written (marksFrom rules (d :: behind) t) ↔ path ++ [last] <+: t := by
  induction path generalizing d behind t with
  | nil =>
    cases t with
    | nil => rfl
    | cons c t =>
      rw [marksFrom_of_none (ruleAt_in_path hrules hd behind _), written_kept, List.nil_append, List.cons_prefix_cons,
        List.cons_prefix_cons]
      simp
  | cons e path ih =>
    rw [List.forall_mem_cons] at hpath
    cases t with
    | nil => rfl
    | cons c t =>
      rw [marksFrom_of_none (ruleAt_in_path hrules hd behind _), written_kept, List.cons_append, List.cons_prefix_cons,
        List.cons_prefix_cons]
      refine and_congr_right fun heq => ?_
      exact ih hpath.2 (heq ▸ hpath.1) _ _

/-- A reference of a rule stands ahead just if it stood there before, if nothing is put in in front of it. -/
theorem refers_written_iff {r : HostRule} (hr : r ∈ hostRules) {x : Text} (hx : r.Refers x) (c : Char) (behind t : Text) :
    x <+: c :: written (marksFrom rules (c :: behind) t) ↔ x <+: c :: t := by
  obtain ⟨front, last, rfl, hpath, hdot, -⟩ := hx.shape hr
  cases front with
  | nil => cases hdot
  | cons d front =>
    rw [List.forall_mem_cons] at hpath
    rw [List.cons_append, List.cons_prefix_cons, List.cons_prefix_cons]
    refine and_congr_right fun heq => ?_
    exact prefix_written_iff hrules hpath.2 (heq ▸ hpath.1) _ _

/-- Where a reference begins, it is written as it is, with what is put in in front of it. -/
theorem written_reference {r : HostRule} (hr : r ∈ hostRules) {c : Char} {t rest : Text}
    (ht : c :: t = r.reference.toList ++ rest) (behind : Text) :
    c :: written (marksFrom rules (c :: behind) t) =
      r.reference.toList ++ written (marksFrom rules (r.reference.toList.reverse ++ behind) rest) := by
  obtain ⟨word, hword, -, hpath⟩ := HostRule.reference_eq hr
  have hall : ∀ c ∈ r.reference.toList, isPath c = true := by
    intro c hc
    rw [hword] at hc
    rcases List.mem_append.1 hc with hc | hc
    · exact hpath c hc
    · obtain rfl := List.mem_singleton.1 hc
      decide
  obtain ⟨d, path, href⟩ := List.exists_cons_of_ne_nil (l := r.reference.toList) (by simp [hword])
  rw [href] at ht hall ⊢
  obtain ⟨rfl, rfl⟩ : c = d ∧ t = path ++ rest := List.cons.inj ht
  rw [List.forall_mem_cons] at hall
  rw [written_path hrules hall.2 hall.1]
  simp

end

/-! ### One rule after others -/

theorem mem_of_ruleAt {rules : List HostRule} {behind t : Text} {r : HostRule} (h : ruleAt rules behind t = some r) :
    r ∈ rules := List.mem_of_find?_eq_some h

theorem exists_hit?_of_ruleAt {rules : List HostRule} {behind t : Text} {r : HostRule} (h : ruleAt rules behind t = some r) :
    ∃ hit, r.pattern.hit? behind t = some hit := by
  have hfound := List.find?_some (p := fun r : HostRule => (r.pattern.hit? behind t).isSome) h
  exact Option.isSome_iff_exists.1 hfound

/-- With one more rule at the end, the others come first. -/
theorem ruleAt_concat (rules : List HostRule) (r' : HostRule) (behind t : Text) :
    ruleAt (rules ++ [r']) behind t =
      (ruleAt rules behind t).or (if (r'.pattern.hit? behind t).isSome then some r' else none) := by
  unfold ruleAt
  rw [List.find?_append, List.find?_singleton]

theorem HostRule.reference_ne_nil {r : HostRule} (hr : r ∈ hostRules) : r.reference.toList ≠ [] := by
  obtain ⟨word, hword, -⟩ := HostRule.reference_eq hr
  simp [hword]

/-- Where a rule is found at a place, its reference stands ahead. -/
theorem reference_of_ruleAt {rules : List HostRule} (hrules : ∀ r ∈ rules, r ∈ hostRules) {behind t : Text} {r : HostRule}
    (h : ruleAt rules behind t = some r) : ∃ rest, t = r.reference.toList ++ rest := by
  obtain ⟨hit, hhit⟩ := exists_hit?_of_ruleAt h
  obtain ⟨rest, ht⟩ := text_hit? hhit
  exact ⟨rest, HostRule.text_of_hit? (hrules r (mem_of_ruleAt h)) hhit ▸ ht⟩

/-- Behind a reference it does not matter whether it is guarded. -/
theorem alike_guarded {r : HostRule} (hr : r ∈ hostRules) (behind behind' : Text) :
    Alike (r.reference.toList.reverse ++ behind) (r.guarded.reverse ++ behind') := by
  obtain ⟨word, hword, -⟩ := HostRule.reference_eq hr
  rw [HostRule.guarded_eq hr, hword]
  simpa using dot_breaks.alike (word.reverse ++ behind) _

/-- Where nothing is put in, a rule matches just if it matched before the other rules. -/
theorem hit?_written_eq_none_iff {rules : List HostRule} (hrules : ∀ r ∈ rules, r ∈ hostRules) {r : HostRule}
    (hr : r ∈ hostRules) {behind behind' : Text} (halike : Alike behind behind') (c : Char) (t : Text) :
    r.pattern.hit? behind' (c :: written (marksFrom rules (c :: behind) t)) = none ↔
      r.pattern.hit? behind (c :: t) = none := by
  rw [HostRule.hit?_eq_none_iff hr, HostRule.hit?_eq_none_iff hr, halike.free hr]
  refine imp_congr_right fun _ => forall_congr' fun x => imp_congr_right fun hx => not_congr ?_
  exact refers_written_iff hrules hr hx c behind t

/-- A reference that a rule is found at is written guarded. -/
theorem written_of_ruleAt {rules : List HostRule} (hrules : ∀ r ∈ rules, r ∈ hostRules) {behind t rest : Text} {r : HostRule}
    (h : ruleAt rules behind t = some r) (ht : t = r.reference.toList ++ rest) :
    written (marksFrom rules behind t) =
      r.guarded ++ written (marksFrom rules (r.reference.toList.reverse ++ behind) rest) := by
  have hr : r ∈ hostRules := hrules r (mem_of_ruleAt h)
  cases t with
  | nil => exact absurd (List.append_eq_nil_iff.1 ht.symm).1 (HostRule.reference_ne_nil hr)
  | cons c t =>
    rw [marksFrom_of_some h, written_put, written_kept, written_reference hrules hr ht, HostRule.guarded_eq hr,
      List.append_assoc]

/-- A reference that no rule is found at is written as it is. -/
theorem written_of_not_ruleAt {rules : List HostRule} (hrules : ∀ r ∈ rules, r ∈ hostRules) {behind t rest : Text}
    {r : HostRule} (hr : r ∈ hostRules) (h : ruleAt rules behind t = none) (ht : t = r.reference.toList ++ rest) :
    written (marksFrom rules behind t) =
      r.reference.toList ++ written (marksFrom rules (r.reference.toList.reverse ++ behind) rest) := by
  cases t with
  | nil => exact absurd (List.append_eq_nil_iff.1 ht.symm).1 (HostRule.reference_ne_nil hr)
  | cons c t => rw [marksFrom_of_none h, written_kept, written_reference hrules hr ht]

section
variable {rules : List HostRule} (hrules : ∀ r ∈ rules, r ∈ hostRules) {r' : HostRule} (hr' : r' ∈ hostRules)
  {behind behind' : Text}
include hrules hr'

/-- A rule copies a reference that another one has guarded. -/
theorem replaceFrom_written_guarded {t rest : Text} {r : HostRule} (h : ruleAt rules behind t = some r)
    (ht : t = r.reference.toList ++ rest) :
    r'.pattern.replaceFrom (fun _ => r'.guarded) behind' (written (marksFrom rules behind t)) =
      r.guarded ++ r'.pattern.replaceFrom (fun _ => r'.guarded) (r.guarded.reverse ++ behind')
        (written (marksFrom rules (r.reference.toList.reverse ++ behind) rest)) := by
  have hr : r ∈ hostRules := hrules r (mem_of_ruleAt h)
  rw [written_of_ruleAt hrules h ht]
  exact replaceFrom_append fun _ _ hg hne => no_hit_in_guarded hr' hr hg hne _ behind'

/-- A rule guards a reference that no other one has guarded, if it matched there before. -/
theorem replaceFrom_written_free (halike : Alike behind behind') {t rest : Text} (h : ruleAt rules behind t = none)
    (hhit : r'.pattern.hit? behind t ≠ none) (ht : t = r'.reference.toList ++ rest) :
    r'.pattern.replaceFrom (fun _ => r'.guarded) behind' (written (marksFrom rules behind t)) =
      r'.guarded ++ r'.pattern.replaceFrom (fun _ => r'.guarded) (r'.reference.toList.reverse ++ behind')
        (written (marksFrom rules (r'.reference.toList.reverse ++ behind) rest)) := by
  have hmatches : r'.pattern.hit? behind' (written (marksFrom rules behind t)) ≠ none := by
    cases t with
    | nil => exact absurd (List.append_eq_nil_iff.1 ht.symm).1 (HostRule.reference_ne_nil hr')
    | cons c t =>
      rw [marksFrom_of_none h, written_kept]
      exact fun hnone => hhit ((hit?_written_eq_none_iff hrules hr' halike c t).1 hnone)
  obtain ⟨hit, hhit'⟩ := Option.ne_none_iff_exists'.1 hmatches
  have htext : hit.text = r'.reference.toList := HostRule.text_of_hit? hr' hhit'
  rw [written_of_not_ruleAt hrules hr' h ht, ← htext] at hhit' ⊢
  rw [replaceFrom_of_some hhit' (htext ▸ HostRule.reference_ne_nil hr'), htext]

end

/-- **A rule puts in what it would have put in before the other rules.** -/
theorem apply_written {rules : List HostRule} (hrules : ∀ r ∈ rules, r ∈ hostRules) {r' : HostRule} (hr' : r' ∈ hostRules)
    {behind behind' : Text} (halike : Alike behind behind') (t : Text) :
    r'.pattern.replaceFrom (fun _ => r'.guarded) behind' (written (marksFrom rules behind t)) =
      written (marksFrom (rules ++ [r']) behind t) := by
  have hrules' : ∀ r ∈ rules ++ [r'], r ∈ hostRules := by
    simpa [or_imp, forall_and] using ⟨hrules, hr'⟩
  -- A reference is longer than one character, so the induction is on the length.
  induction hlength : t.length using Nat.strongRecOn generalizing t behind behind' with
  | ind n ih =>
    subst hlength
    -- Behind a reference all goes on as before.
    have hbehind {r : HostRule} (hr : r ∈ hostRules) {rest b : Text} (ht : t = r.reference.toList ++ rest)
        (hb : Alike (r.reference.toList.reverse ++ behind) b) :
        r'.pattern.replaceFrom (fun _ => r'.guarded) b
            (written (marksFrom rules (r.reference.toList.reverse ++ behind) rest)) =
          written (marksFrom (rules ++ [r']) (r.reference.toList.reverse ++ behind) rest) := by
      refine ih rest.length ?_ hb rest rfl
      rw [ht, List.length_append]
      exact Nat.lt_add_of_pos_left (List.length_pos_iff.2 (HostRule.reference_ne_nil hr))
    have hconcat := ruleAt_concat rules r' behind t
    rcases hrule : ruleAt rules behind t with _ | r
    · rw [hrule, Option.none_or] at hconcat
      rcases hhit : r'.pattern.hit? behind t with _ | hit
      · -- No rule matches, and the character is copied.
        rw [hhit] at hconcat
        cases t with
        | nil => exact replaceFrom_nil behind'
        | cons c t =>
          have hcopied := ih t.length (Nat.lt_succ_self _) (halike.append [c]) t rfl
          rw [List.singleton_append, List.singleton_append] at hcopied
          rw [marksFrom_of_none hrule, written_kept, marksFrom_of_none hconcat, written_kept,
            replaceFrom_cons_of_none ((hit?_written_eq_none_iff hrules hr' halike c t).2 hhit), hcopied]
      · rw [hhit] at hconcat
        obtain ⟨rest, ht⟩ := reference_of_ruleAt hrules' hconcat
        rw [replaceFrom_written_free hrules hr' halike hrule (by simp [hhit]) ht, hbehind hr' ht (halike.append _),
          written_of_ruleAt hrules' hconcat ht]
    · rw [hrule, Option.some_or] at hconcat
      have hr : r ∈ hostRules := hrules r (mem_of_ruleAt hrule)
      obtain ⟨rest, ht⟩ := reference_of_ruleAt hrules hrule
      rw [replaceFrom_written_guarded hrules hr' hrule ht, hbehind hr ht (alike_guarded hr behind behind'),
        written_of_ruleAt hrules' hconcat ht]

/-! ### All rules -/

/-- **What the rules write can be read off the text**: all that they put in goes in front of the references that are free
there. -/
theorem addEnvironmentGuards_eq_written (t : Text) : addEnvironmentGuards t = written (marksFrom hostRules [] t) := by
  have hfold (rules done : List HostRule) (hrules : ∀ r ∈ rules, r ∈ hostRules) (hdone : ∀ r ∈ done, r ∈ hostRules) :
      rules.foldl (fun t r => r.apply t) (written (marksFrom done [] t)) = written (marksFrom (done ++ rules) [] t) := by
    induction rules generalizing done with
    | nil => rw [List.append_nil, List.foldl_nil]
    | cons r rules ih =>
      rw [List.forall_mem_cons] at hrules
      have hdone' : ∀ r' ∈ done ++ [r], r' ∈ hostRules := by
        simpa [or_imp, forall_and] using ⟨hdone, hrules.1⟩
      rw [List.foldl_cons, HostRule.apply, replace_eq, apply_written hdone hrules.1 (Alike.refl []), ih _ hrules.2 hdone',
        List.append_assoc, List.singleton_append]
  have hall := hfold hostRules [] (fun _ h => h) (by simp)
  rwa [written_marksFrom_nil, List.nil_append] at hall

/-- What was put in stands in front of a reference that was free. -/
theorem put_marksFrom {u v : List Mark} {r : HostRule} {behind t : Text}
    (h : marksFrom hostRules behind t = u ++ .put r :: v) :
    r ∈ hostRules ∧ r.Free ((original u).reverse ++ behind) ∧ ∃ x, r.Refers x ∧ x <+: original v := by
  induction t generalizing u behind with
  | nil => simp [marksFrom] at h
  | cons c t ih =>
    have hnext {u : List Mark} (h : marksFrom hostRules (c :: behind) t = u ++ .put r :: v) :
        r ∈ hostRules ∧ r.Free ((c :: original u).reverse ++ behind) ∧ ∃ x, r.Refers x ∧ x <+: original v := by
      simpa using ih h
    rcases hrule : ruleAt hostRules behind (c :: t) with _ | r'
    · rw [marksFrom_of_none hrule] at h
      rcases u with _ | ⟨m, u⟩
      · cases (List.cons.inj h).1
      · obtain ⟨rfl, hrest⟩ := List.cons.inj h
        exact hnext hrest
    · rw [marksFrom_of_some hrule] at h
      rcases u with _ | ⟨m, _ | ⟨m', u⟩⟩
      · obtain ⟨hr, rfl⟩ := List.cons.inj h
        obtain rfl : r' = r := Mark.put.inj hr
        have hmem := mem_of_ruleAt hrule
        obtain ⟨hit, hhit⟩ := exists_hit?_of_ruleAt hrule
        obtain ⟨e, he, -⟩ := exists_of_hitAt hhit
        obtain ⟨hfree, hx, -⟩ := (HostRule.mem_ends_pattern hmem).1 he
        refine ⟨hmem, hfree, ?_⟩
        rwa [original_kept, original_marksFrom]
      · cases (List.cons.inj (List.cons.inj h).2).1
      · obtain ⟨rfl, hkept⟩ := List.cons.inj h
        obtain ⟨rfl, hrest⟩ := List.cons.inj hkept
        exact hnext hrest

/-- What was put into a text: the pieces of the text after it, with what was put in marked. -/
structure Insertions (ms : List Mark) (before after : Text) : Prop where
  /-- Leaving out what was put in gives the text before. -/
  original_eq : original ms = before
  /-- With it, the pieces are the text after. -/
  written_eq : written ms = after
  /-- What a rule put in stands in front of a reference of the rule that was neither guarded nor part of a path. -/
  placed : ∀ u r v, ms = u ++ .put r :: v →
    r ∈ hostRules ∧ r.Free (original u).reverse ∧ ∃ x, r.Refers x ∧ x <+: original v

/-- **Every reference ends up guarded, and nothing else changes**: in front of each reference in the guarded text stands a
character of a path or the test of its rule, and the text is found again by leaving out the tests, and the window in front
of its members, that were put in. -/
theorem addEnvironmentGuards_inserts (t : Text) :
    (∀ r ∈ hostRules, ∀ a w b, addEnvironmentGuards t = a ++ (r.reference.toList ++ (w ++ b)) → r.Tail w →
      (∃ c, a.getLast? = some c ∧ isPath c = true) ∨ existenceTest r.host <:+ a) ∧
    ∃ ms, Insertions ms t (addEnvironmentGuards t) := by
  constructor
  · intro r hr a w b ht hw
    have hnone := addEnvironmentGuards_guarded t r hr a _ ht
    rw [HostRule.hit?_eq_none_iff hr] at hnone
    have hfree : ¬ r.Free a.reverse := fun hfree => hnone hfree _ ⟨w, rfl, hw⟩ ⟨b, by simp⟩
    unfold HostRule.Free at hfree
    rw [List.reverse_prefix, List.head?_reverse, Classical.not_and_iff_not_or_not, Classical.not_not] at hfree
    rcases hfree with htest | hpath
    · exact Or.inr htest
    · left
      simpa using hpath
  · refine ⟨marksFrom hostRules [] t, original_marksFrom t, (addEnvironmentGuards_eq_written t).symm, fun u r v h => ?_⟩
    simpa using put_marksFrom h

end LayeredFix.Pass.Guard
