import LayeredFix.Pass.Entity
import Mathlib.Data.List.Find
import Mathlib.Data.List.TakeWhile

/-!
# Rewriting a text in one pass

A rule goes over a text from left to right. Where it finds an entity it writes something in its place and goes
on after it; every other character it copies. `rewrite` is this pass for any way of finding entities, and
`Rule.applyFrom_eq` says that applying a rule is such a pass, without the accumulator and the count of characters
to be passed over.

What is found is an ampersand with body characters behind it, so two texts that begin with the same body
characters show the same entities. A pass does not change them if what it writes begins with another character
(`rewrite_takeWhile`): this is why a rule neither makes nor breaks an entity of another rule.
-/

namespace LayeredFix.Pass.Entity

/-! ### Entities -/

/-- The characters that may follow the ampersand of an entity. -/
def isBody (c : Char) : Bool := c.isAlphanum || c == '#' || c == ';'

theorem isPrefixOf_takeWhile {ok : Char → Bool} {w : Text} (hw : ∀ c ∈ w, ok c = true) (t : Text) :
    w.isPrefixOf (t.takeWhile ok) = w.isPrefixOf t := by
  induction w generalizing t with
  | nil => simp
  | cons c w ih =>
    rw [List.forall_mem_cons] at hw
    cases t with
    | nil => rfl
    | cons d t =>
      cases hd : ok d with
      | true => rw [List.takeWhile_cons_of_pos hd, List.isPrefixOf, List.isPrefixOf, ih hw.2]
      | false =>
        have hne : c ≠ d := fun h => by simp [← h, hw.1] at hd
        rw [List.takeWhile_cons_of_neg (by simp [hd])]
        simp [List.isPrefixOf, hne]

/-- A way to find entities: what is found at the start of a text, and what is to be written for it. -/
abbrev Finder := Text → Option (Text × Text)

/-- What is found is an ampersand with body characters behind it. -/
def Finder.Proper (hit : Finder) : Prop :=
  ∀ t w m, hit t = some (w, m) → ∃ body rest, w = '&' :: body ∧ (∀ c ∈ body, isBody c = true) ∧ t = w ++ rest

/-- What is written begins with a character outside a class. -/
def Finder.Avoids (hit : Finder) (ok : Char → Bool) : Prop :=
  ∀ t w m, hit t = some (w, m) → ∃ c m', m = c :: m' ∧ ok c = false

/-! ### One pass -/

/-- The text with what is found in it replaced, from left to right. -/
def rewrite (hit : Finder) : Text → Text
  | [] => []
  | c :: t =>
    match hit (c :: t) with
    | none => c :: rewrite hit t
    | some (w, m) => m ++ rewrite hit (t.drop (w.length - 1))
termination_by t => t.length
decreasing_by
  · exact Nat.lt_succ_self _
  · rw [List.length_drop, List.length_cons]
    omega

section

variable {hit : Finder}

@[simp] theorem rewrite_nil : rewrite hit [] = [] := by rw [rewrite]

theorem rewrite_cons_of_none {c : Char} {t : Text} (h : hit (c :: t) = none) :
    rewrite hit (c :: t) = c :: rewrite hit t := by
  rw [rewrite, h]

theorem rewrite_of_some {body rest m : Text} (h : hit ('&' :: (body ++ rest)) = some ('&' :: body, m)) :
    rewrite hit ('&' :: (body ++ rest)) = m ++ rewrite hit rest := by
  rw [rewrite, h]
  simp

/-- A text in which nothing is found is left alone. -/
theorem rewrite_eq_self {t : Text} (h : ∀ v, v <:+ t → hit v = none) : rewrite hit t = t := by
  induction t with
  | nil => exact rewrite_nil
  | cons c t ih =>
    rw [rewrite_cons_of_none (h _ List.suffix_rfl), ih fun v hv => h v (hv.trans (List.suffix_cons c t))]

theorem Finder.Proper.hit_cons (hp : hit.Proper) {c : Char} (hc : c ≠ '&') (t : Text) :
    hit (c :: t) = none := by
  rcases hx : hit (c :: t) with _ | ⟨w, m⟩
  · rfl
  · obtain ⟨body, rest, rfl, -, ht⟩ := hp _ _ _ hx
    exact absurd (List.cons.inj ht).1 hc

/-- Every character but the ampersand is copied. -/
theorem rewrite_cons (hp : hit.Proper) {c : Char} (hc : c ≠ '&') (t : Text) :
    rewrite hit (c :: t) = c :: rewrite hit t := rewrite_cons_of_none (hp.hit_cons hc t)

/-- A part without ampersands is copied. -/
theorem rewrite_append (hp : hit.Proper) {u : Text} (hu : '&' ∉ u) (t : Text) :
    rewrite hit (u ++ t) = u ++ rewrite hit t := by
  induction u with
  | nil => rfl
  | cons c u ih =>
    obtain ⟨hc, hu⟩ := List.ne_and_not_mem_of_not_mem_cons hu
    rw [List.cons_append, rewrite_cons hp (Ne.symm hc), ih hu, List.cons_append]

theorem ampersand_notMem_body {body : Text} (h : ∀ c ∈ body, isBody c = true) : '&' ∉ body :=
  fun hm => absurd (h _ hm) (by decide)

/-- Induction along a pass: over the characters that are copied and the entities that are replaced. -/
theorem Finder.Proper.induction (hp : hit.Proper) {P : Text → Prop} (nil : P [])
    (copy : ∀ c t, hit (c :: t) = none → P t → P (c :: t))
    (entity : ∀ body rest m, hit ('&' :: (body ++ rest)) = some ('&' :: body, m) →
      (∀ c ∈ body, isBody c = true) → P rest → P ('&' :: (body ++ rest))) (t : Text) : P t := by
  induction hn : t.length using Nat.strong_induction_on generalizing t with
  | _ n ih =>
    cases t with
    | nil => exact nil
    | cons c t =>
      subst hn
      rcases hx : hit (c :: t) with _ | ⟨w, m⟩
      · exact copy c t hx (ih _ (Nat.lt_succ_self _) t rfl)
      · obtain ⟨body, rest, rfl, hbody, ht⟩ := hp _ _ _ hx
        rw [ht] at hx ⊢
        refine entity body rest m hx hbody (ih _ ?_ rest rfl)
        rw [ht, List.cons_append, List.length_cons, List.length_append]
        omega

/-- **A pass leaves alone the characters with which a text begins**, up to the first entity. -/
theorem rewrite_takeWhile (hp : hit.Proper) {ok : Char → Bool} (hok : ok '&' = false) (ha : hit.Avoids ok)
    (t : Text) : (rewrite hit t).takeWhile ok = t.takeWhile ok := by
  induction t with
  | nil => rw [rewrite_nil]
  | cons c t ih =>
    rcases hx : hit (c :: t) with _ | ⟨w, m⟩
    · rw [rewrite_cons_of_none hx, List.takeWhile_cons, List.takeWhile_cons, ih]
    · obtain ⟨body, rest, rfl, -, ht⟩ := hp _ _ _ hx
      obtain ⟨d, m', rfl, hd⟩ := ha _ _ _ hx
      rw [ht] at hx ⊢
      rw [List.cons_append, rewrite_of_some hx, List.cons_append, List.takeWhile_cons_of_neg (by simp [hd]),
        List.takeWhile_cons_of_neg (by simp [hok])]

end

/-! ### Rules -/

namespace Rule

/-- What a rule finds at the start of a text, if what follows is accepted. -/
def finder (r : Rule) (accept : Text → Bool) : Finder := fun t =>
  match r.spellingAt t with
  | none => none
  | some w => if accept (t.drop w.length) then some (w, r.meaning) else none

/-- **Applying a rule is a pass over the text.** -/
theorem applyFrom_eq (r : Rule) (accept : Text → Bool) (skip : Nat) (t done : Text) :
    r.applyFrom accept skip t done = done.reverse ++ rewrite (r.finder accept) (t.drop skip) := by
  fun_induction Rule.applyFrom r accept skip t done with
  | case1 skip done => simp
  | case2 done skip c t ih => rw [ih, List.drop_succ_cons]
  | case3 done c t hs ih =>
    have hx : r.finder accept (c :: t) = none := by simp [finder, hs]
    rw [ih, List.drop_zero, List.drop_zero, rewrite_cons_of_none hx]
    simp
  | case4 done c t w hs ha ih =>
    have hx : r.finder accept (c :: t) = some (w, r.meaning) := by simp [finder, hs, ha]
    rw [ih, List.drop_zero, rewrite, hx]
    simp
  | case5 done c t w hs ha ih =>
    have hx : r.finder accept (c :: t) = none := by simp [finder, hs, ha]
    rw [ih, List.drop_zero, List.drop_zero, rewrite_cons_of_none hx]
    simp

/-- Every spelling is an ampersand with body characters behind it. -/
def Proper (r : Rule) : Prop := ∀ w ∈ r.spellings, w.head? = some '&' ∧ w.tail.all isBody = true

instance (r : Rule) : Decidable r.Proper :=
  inferInstanceAs (Decidable (∀ w ∈ r.spellings, w.head? = some '&' ∧ w.tail.all isBody = true))

theorem spellingAt_eq_some {r : Rule} {t w : Text} (h : r.spellingAt t = some w) :
    w ∈ r.spellings ∧ w <+: t := by
  unfold spellingAt at h
  have hw := List.find?_some h
  exact ⟨List.mem_of_find?_eq_some h, List.isPrefixOf_iff_prefix.1 hw⟩

theorem Proper.exists_body {r : Rule} (hr : r.Proper) {t w : Text} (h : r.spellingAt t = some w) :
    ∃ body rest, w = '&' :: body ∧ (∀ c ∈ body, isBody c = true) ∧ t = w ++ rest := by
  obtain ⟨hw, rest, rfl⟩ := spellingAt_eq_some h
  obtain ⟨hhead, hbody⟩ := hr w hw
  cases w with
  | nil => cases hhead
  | cons c body =>
    obtain rfl : c = '&' := Option.some.inj hhead
    exact ⟨body, rest, rfl, List.all_eq_true.1 hbody, rfl⟩

theorem Proper.finder {r : Rule} (hr : r.Proper) (accept : Text → Bool) : (r.finder accept).Proper := by
  intro t w m h
  unfold Rule.finder at h
  split at h
  · cases h
  · rename_i w' hs
    split at h
    · obtain ⟨rfl, rfl⟩ := Prod.mk.inj (Option.some.inj h)
      exact hr.exists_body hs
    · cases h

/-- Texts that begin with the same body characters show the same spelling. -/
theorem Proper.spellingAt_congr {r : Rule} (hr : r.Proper) {t t' : Text}
    (h : t.takeWhile isBody = t'.takeWhile isBody) : r.spellingAt ('&' :: t) = r.spellingAt ('&' :: t') := by
  unfold spellingAt
  refine List.find?_congr fun w hw => ?_
  obtain ⟨hhead, hbody⟩ := hr w hw
  cases w with
  | nil => cases hhead
  | cons c body =>
    have hb : body.isPrefixOf t = body.isPrefixOf t' := by
      rw [List.tail_cons, List.all_eq_true] at hbody
      rw [← isPrefixOf_takeWhile hbody t, ← isPrefixOf_takeWhile hbody t', h]
    rw [List.isPrefixOf, List.isPrefixOf, hb]

end Rule

end LayeredFix.Pass.Entity
